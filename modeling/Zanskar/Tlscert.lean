import Zanskar.Lib.Calls

/-!
# The served certificate (`internal/tlscert/tlscert.go`)

The manager serves an uploaded certificate, else the file's, else a self-signed one,
and keeps the uploaded and the self-signed one in the database. `Upload` stores and then
serves; `Reset` deletes the upload and loads; `Regenerate` stores a self-signed
certificate and serves it if one is being served; `Renew` loads when the one served is
near its end. A load reads what is stored, and swaps it in later, with no lock.

- `reset_overtaken` : an upload that comes between a reset's reads and its swap is
  stored, and not served;
- `served_is_stored` : where no two calls overlap, the one that should be served is.

What `SelfSign` makes can serve when it is made; no storage step fails.
-/

namespace Zanskar.Tlscert

open Lib Option

/-- A certificate and its key, as PEM. -/
structure Pair where
  certPEM : String
  keyPEM : String
  deriving DecidableEq

inductive Source where
  | uploaded
  | file
  | generated
  deriving DecidableEq

/-- What `Parse` reads in a leaf. -/
structure Leaf where
  notBefore : Int
  notAfter : Int
  /-- Server authentication is allowed. -/
  serverAuth : Bool

/-- `entry`, as far as the manager reads it. -/
structure Entry where
  source : Source
  pair : Pair
  notAfter : Int
  deriving DecidableEq

structure State where
  uploaded : Option Pair
  generated : Option Pair
  active : Option Entry

/-- What is served. -/
def State.served (s : State) : Option (Source × Pair) :=
  s.active.map fun e => (e.source, e.pair)

/-- What of a `Manager` does not change. -/
structure Manager where
  /-- The leaf of a certificate that matches its key. -/
  leaf : Pair → Option Leaf
  file : Option (Pair × Leaf)
  /-- `missingHosts` finds none of the manager's hosts missing. -/
  covers : Pair → Bool

/-- `renewBefore`, in seconds. -/
def renewBefore : Int := 30 * 24 * 3600

inductive Call where
  | upload (pair : Pair)
  | reset
  | regenerate
  | renew

/-- What a call does next. -/
inductive Stage where
  | upload (pair : Pair)
  | delete
  | load
  /-- `loadActive`, where neither an upload nor a file applies. -/
  | loadGenerated
  | regenerate (replace : Bool)
  /-- `regenerate`, after its certificate is stored, without `replace`. -/
  | compare (e : Entry)
  | renew
  | set (e : Entry)

/-- The time of a step, and what `SelfSign` makes in it, if it makes one. -/
structure Input where
  now : Int
  selfSigned : Option Pair

namespace Manager

variable (m : Manager)

/-- `Parse`, and the entry that `set` makes of what it returns. -/
def parse (now : Int) (source : Source) (pair : Pair) : Option Entry :=
  (m.leaf pair).bind fun leaf =>
    if leaf.notBefore ≤ now ∧ now ≤ leaf.notAfter ∧ leaf.serverAuth then
      some ⟨source, pair, leaf.notAfter⟩
    else none

/-- One step of a call. -/
def next (i : Input) (s : State) : Stage → Option (State × Option Stage)
  | .upload pair =>
    match m.parse i.now .uploaded pair with
    | none => some (s, none)
    | some e => some ({ s with uploaded := some pair }, some (.set e))
  | .delete => some ({ s with uploaded := none }, some .load)
  | .load =>
    match s.uploaded.bind (m.parse i.now .uploaded) with
    | some e => some (s, some (.set e))
    | none =>
      match m.file with
      | some (pair, leaf) => some (s, some (.set ⟨.file, pair, leaf.notAfter⟩))
      | none => some (s, some .loadGenerated)
  | .loadGenerated =>
    match s.generated.bind (m.parse i.now .generated) with
    | some e =>
      if i.now + renewBefore < e.notAfter ∧ m.covers e.pair then some (s, some (.set e))
      else some (s, some (.regenerate true))
    | none => some (s, some (.regenerate true))
  | .regenerate replace =>
    match i.selfSigned with
    | none => some (s, none)
    | some pair => (m.parse i.now .generated pair).map fun e =>
        ({ s with generated := some pair }, some (if replace then .set e else .compare e))
  | .compare e =>
    if s.active.any (·.source ≠ .generated) then some (s, none) else some (s, some (.set e))
  | .renew =>
    if s.active.any fun e => e.source = .generated ∧ ¬i.now + renewBefore < e.notAfter then
      some (s, some .load)
    else some (s, none)
  | .set e => some ({ s with active := some e }, none)

/-- The calls on the manager; all are about its one certificate. -/
def calls : Calls State Unit Stage Call Input where
  key _ := ()
  start
    | .upload pair => .upload pair
    | .reset => .delete
    | .regenerate => .regenerate false
    | .renew => .renew
  next _ stage i s := m.next i s stage

/-- The stored upload if it can serve at `now`, else the file's certificate. -/
def front (now : Int) (s : State) : Option (Source × Pair) :=
  match s.uploaded.bind (m.parse now .uploaded) with
  | some e => some (e.source, e.pair)
  | none => m.file.map fun f => (.file, f.1)

/-- The stored upload if it can serve at `now`, else the file's certificate, else the stored
self-signed one. -/
def wanted (now : Int) (s : State) : Option (Source × Pair) :=
  match m.front now s with
  | some c => some c
  | none => s.generated.map fun pair => (.generated, pair)

/-- An upload that is stored or loaded can serve then if it can at the time `t`, and the other way
round; and `SelfSign` makes a certificate of the manager's own hosts. -/
def Regular (t : Int) : Stage → Input → State → Prop
  | .upload pair, i, _ => m.parse i.now .uploaded pair = m.parse t .uploaded pair
  | .load, i, s => ∀ pair ∈ s.uploaded, m.parse i.now .uploaded pair = m.parse t .uploaded pair
  | .regenerate true, i, _ => i.selfSigned ≠ none
  | _, _, _ => True

/-- What holds before the next step of the one call there is. -/
def Fits (t : Int) (s : State) : Stage → Prop
  | .load => True
  | .loadGenerated => m.front t s = none
  | .regenerate true => m.front t s = none
  | .compare e => s.generated = some e.pair ∧ e.source = .generated ∧
      ∃ old, s.served = m.wanted t { s with generated := old }
  | .set e => m.wanted t s = some (e.source, e.pair)
  | _ => s.served = m.wanted t s

variable {m} {t : Int} {s : State}

variable {pair : Pair}

theorem parse_eq {now : Int} {source : Source} {e : Entry}
    (h : m.parse now source pair = some e) : e.source = source ∧ e.pair = pair := by
  obtain ⟨leaf, -, h⟩ := bind_eq_some_iff.mp h
  split at h <;> cases h
  exact ⟨rfl, rfl⟩

theorem front_ne_generated {c : Source × Pair} (h : m.front t s = some c) : c.1 ≠ .generated := by
  unfold front at h
  split at h
  · rename_i e he
    obtain ⟨pair, -, he⟩ := bind_eq_some_iff.mp he
    cases h
    show e.source ≠ .generated
    rw [(parse_eq he).1]
    exact Source.noConfusion
  · obtain ⟨f, -, rfl⟩ := map_eq_some_iff.mp h
    exact Source.noConfusion

theorem wanted_of_front_none (h : m.front t s = none)
    (hpair : s.generated = some pair) : m.wanted t s = some (.generated, pair) := by
  rw [wanted, h, hpair]
  rfl

/-- `regenerate` finds an upload or a file's certificate served exactly where one should be. -/
theorem other_served_iff {old : Option Pair}
    (h : s.served = m.wanted t { s with generated := old }) :
    s.active.any (·.source ≠ .generated) ↔ m.front t s ≠ none := by
  have hfront : m.front t { s with generated := old } = m.front t s := rfl
  rw [wanted, hfront] at h
  constructor
  · intro hany hnone
    obtain ⟨e, he, hne⟩ := (any_eq_true _ _).mp hany
    rw [hnone, State.served, he, map_some] at h
    obtain ⟨pair, -, hpair⟩ := map_eq_some_iff.mp h.symm
    exact of_decide_eq_true hne (congrArg Prod.fst hpair).symm
  · intro hsome
    obtain ⟨c, hc⟩ := ne_none_iff_exists'.mp hsome
    rw [hc] at h
    obtain ⟨e, he, rfl⟩ := map_eq_some_iff.mp h
    rw [he, any_some, decide_eq_true_eq]
    exact front_ne_generated hc

/-- One step of a call. -/
theorem Fits.next {i : Input} {stage : Stage} {u : State} {o : Option Stage}
    (hreg : m.Regular t stage i s) (h : m.Fits t s stage) (hnext : m.next i s stage = some (u, o)) :
    o.elim (u.served = m.wanted t u) (m.Fits t u) := by
  cases stage <;> simp only [Manager.next] at hnext
  case upload pair =>
    split at hnext <;> cases hnext
    · exact h
    · rename_i e he
      have hparse : m.parse t .uploaded pair = some e := Eq.trans (Eq.symm hreg) he
      show m.wanted t _ = some (e.source, e.pair)
      simp [wanted, front, bind_some, hparse]
  case delete =>
    cases hnext
    trivial
  case load =>
    -- what can serve now can serve at `t`
    have hnow : s.uploaded.bind (m.parse i.now .uploaded) = s.uploaded.bind (m.parse t .uploaded) :=
      bind_congr hreg
    rw [hnow] at hnext
    split at hnext
    · rename_i e he
      cases hnext
      show m.wanted t s = some (e.source, e.pair)
      simp [wanted, front, he]
    · rename_i he
      split at hnext <;> cases hnext
      · rename_i pair leaf hfile
        show m.wanted t s = some (.file, pair)
        simp [wanted, front, he, hfile, map_some]
      · rename_i hfile
        show m.front t s = none
        simp [front, he, hfile, map_none]
  case loadGenerated =>
    split at hnext
    · rename_i e he
      obtain ⟨pair, hpair, he⟩ := bind_eq_some_iff.mp he
      obtain ⟨hsource, rfl⟩ := parse_eq he
      split at hnext <;> cases hnext
      · show m.wanted t s = some (e.source, e.pair)
        rw [hsource, wanted_of_front_none h hpair]
      · exact h
    · cases hnext
      exact h
  case regenerate replace =>
    split at hnext
    · rename_i hnone
      cases hnext
      cases replace with
      | true => exact absurd hnone hreg
      | false => exact h
    · obtain ⟨e, he, hset⟩ := map_eq_some_iff.mp hnext
      cases hset
      obtain ⟨hsource, rfl⟩ := parse_eq he
      cases replace with
      | true =>
        show m.wanted t _ = some (e.source, e.pair)
        rw [hsource, wanted_of_front_none (s := { s with generated := some e.pair }) h rfl]
      -- stored, and served only if nothing else is
      | false => exact ⟨rfl, hsource, s.generated, h⟩
  case compare e =>
    obtain ⟨hstored, hsource, old, hold⟩ := h
    split at hnext <;> cases hnext
    · rename_i hother
      -- an upload or the file is served, and stays so
      obtain ⟨c, hc⟩ := ne_none_iff_exists'.mp ((other_served_iff hold).mp hother)
      have hfront : m.front t { s with generated := old } = some c := hc
      show s.served = m.wanted t s
      rw [hold, wanted, wanted, hc, hfront]
    · rename_i hother
      have hnone : m.front t s = none := not_not.mp (mt (other_served_iff hold).mpr hother)
      show m.wanted t s = some (e.source, e.pair)
      rw [hsource, wanted_of_front_none hnone hstored]
  case renew =>
    split at hnext <;> cases hnext
    · trivial
    · exact h
  case set e =>
    cases hnext
    exact Eq.symm h

end Manager

/-- **What is served is what is stored.** In every run of uploads, resets, regenerations and
renewals from a state in which the right certificate is served, where no two calls overlap, no
upload comes into or out of its validity until `t`, and `SelfSign` takes the manager's hosts: when
all have returned, the stored upload is served if it can serve at `t`, else the file's certificate,
else the stored self-signed one. -/
theorem served_is_stored {m : Manager} {t : Int} {s₀ : State} (hinit : s₀.served = m.wanted t s₀)
    {ls : List (CallLabel Call Input)} {s : CallState State Unit Stage}
    (h : RunWhere m.calls.step (m.calls.Alone (fun _ => True) (m.Regular t)) (.init s₀) ls s)
    (hdone : s.Returned ()) : s.shared.served = m.wanted t s.shared := by
  refine m.calls.settled_of_alone (fun _ s => s.served = m.wanted t s) (fun _ p s => m.Fits t s p)
    ?_ ?_ ?_ (fun _ => hinit) h trivial hdone
  · intro call s hs
    cases call <;> exact hs
  · intro _ p i s u o hreg hfits hnext
    exact hfits.next hreg hnext
  · intro k p i s u o _ _ k' hne
    exact absurd (Subsingleton.elim k' k) hne

/-- Every certificate can serve for a hundred days; there is no file. -/
def hundredDays : Manager := ⟨fun _ => some ⟨0, 100 * 24 * 3600, true⟩, none, fun _ => true⟩

def selfSigned : Pair := ⟨"self-signed", "key"⟩

/-- A self-signed certificate is stored and served. -/
def installed : State := ⟨none, some selfSigned, some ⟨.generated, selfSigned, 100 * 24 * 3600⟩⟩

def bought : Pair := ⟨"bought", "key"⟩

theorem served_after_upload :
    ∃ s, RunWhere hundredDays.calls.step (hundredDays.calls.Alone (fun _ => True)
        (hundredDays.Regular 1))
        (.init installed) (.begins 0 (.upload bought) :: [⟨1, some bought⟩, ⟨1, some bought⟩].map
          (.next 0)) s ∧
      s.shared.served = some (.uploaded, bought) ∧
      s.shared.served = hundredDays.wanted 1 s.shared := by
  have hok : ∀ i ∈ [Input.mk 1 (some bought), ⟨1, some bought⟩], ∀ p s,
      hundredDays.Regular 1 p i s := by
    intro i hi p s
    obtain rfl : i = ⟨1, some bought⟩ := by simpa using hi
    cases p with
    | regenerate replace => cases replace <;> simp [Manager.Regular]
    | _ => simp [Manager.Regular]
  obtain ⟨s, hrun, hdone, hserved⟩ := hundredDays.calls.exists_run_of_one installed
    (.upload bought) _ hok (fun s => s.served = some (.uploaded, bought)) (by decide +kernel)
  exact ⟨s, hrun, of_decide_eq_true hserved, served_is_stored rfl hrun (hdone ())⟩

/-- A reset has read that there is no upload and which self-signed certificate there is when a
certificate is uploaded; it then serves what it read. -/
def overtaken : List (CallLabel Call Input) :=
  let i : Input := ⟨1, none⟩
  [.begins 0 .reset, .next 0 i, .next 0 i, .next 0 i, .begins 1 (.upload bought), .next 1 i,
    .next 1 i, .next 0 i]

theorem reset_overtaken :
    ∃ s, Run hundredDays.calls.step (.init installed) overtaken s ∧ (∀ k, s.Returned k) ∧
      s.shared.served = some (.generated, selfSigned) ∧
      hundredDays.wanted 1 s.shared = some (.uploaded, bought) :=
  Calls.exists_run_returned 2 (by decide) (by decide +kernel)

end Zanskar.Tlscert
