import Zanskar.Crypto.Envelope
import Zanskar.Lib.Fold
import Zanskar.Lib.Table

/-!
# The key ring (`internal/keyring/ring.go`)

Data keys are kept in the table `key_versions`, each wrapped by the master key; a
ring holds them unwrapped. A ring's map goes from versions to buffers, and `Zero`
overwrites a buffer, so the buffers are modelled: memory is a list of byte strings,
a buffer its position in it. `load_ok` says that the map stays a cache of the table
when it is loaded again, although the loop zeroes the copies it does not keep.

A transaction is one function of the table, which it leaves as it was when it
fails. What the random source returns and whether a statement succeeds are
arguments.
-/

namespace Zanskar

open Go Lib List

/-- A row of `key_versions`. -/
structure KeyVersion where
  id : Nat
  wrapped : Bytes
  retiredAt : Option Int
  deriving DecidableEq

/-- The table `key_versions`. -/
abbrev KeyVersions := Table KeyVersion.id

/-- Why the ring refuses. -/
inductive RingError where
  | closed
  | sameKEK
  | noVersions
  | noActive
  | unknownVersion (id : Nat)
  | unwrapConfigured (id : Nat)
  | unwrapCurrent (id : Nat) (e : CryptoError)
  | wrapVersion (id : Nat) (e : CryptoError)
  | verification (id : Nat)
  | newDEK
  | wrapDEK (e : CryptoError)
  | crypto (e : CryptoError)
  /-- A statement fails; the store's own words follow. -/
  | store (what : String)
  deriving DecidableEq

/-- The text of an error. -/
def RingError.text : RingError → String
  | .closed => "keyring: closed"
  | .sameKEK => "keyring: the new master key is the one already in use"
  | .noVersions => "keyring: no key versions to rewrap"
  | .noActive => "keyring: no active key version"
  | .unknownVersion id => "keyring: key version is unknown or retired: version " ++ toString id
  | .unwrapConfigured id => "keyring: cannot unwrap key version " ++ toString id ++
      " with the configured KEK (local); wrong master key or KEK reference"
  | .unwrapCurrent id e => "keyring: cannot unwrap key version " ++ toString id ++
      " with the current master key: " ++ e.text
  | .wrapVersion id e => "keyring: wrap key version " ++ toString id ++ ": " ++ e.text
  | .verification id => "keyring: verification of rewrapped key version " ++ toString id ++
      " failed; nothing was changed"
  | .newDEK => "crypto: generate dek"
  | .wrapDEK e => "keyring: wrap dek: " ++ e.text
  | .crypto e => e.text
  | .store what => "keyring: " ++ what

/-- The buffers data keys are held in. -/
abbrev Memory := List Bytes

/-- `Zero` of some buffers. -/
def Memory.zeroAll (m : Memory) (buffers : List Nat) : Memory :=
  buffers.foldl (fun m a => m.modify a Crypto.zero) m

/-- A ring. -/
structure Ring where
  kek : Key
  /-- The buffer of each version. -/
  deks : List (Nat × Nat)
  active : Nat
  closed : Bool

namespace Keyring

/-- `AAD`: the associated data of a row. -/
def aad (table id : Bytes) : Bytes := table ++ ascii ':' :: id

/-- The associated data of a wrapped data key. -/
def versionAAD (id : Nat) : Bytes := aad (lit "key_versions") (itoa id)

/-- The versions that are not retired, `ORDER BY id`. -/
def live (tbl : KeyVersions) : List KeyVersion :=
  (tbl.rows.filter fun v => v.retiredAt.isNone).insertionSort fun v w => v.id ≤ w.id

/-- `SELECT MAX(id)`. -/
def maxID (tbl : KeyVersions) : Option Nat := (tbl.rows.map KeyVersion.id).max?

/-! ## Loading -/

section

variable (aead : Aead)

/-- `Unwrap` of a row. -/
def unwrapRow (kek : Key) (v : KeyVersion) : Except CryptoError Bytes :=
  Crypto.openWith aead kek v.wrapped (versionAAD v.id)

/-- The loop of `load`. A row that is not unwrapped ends it, and the copies made so
far are zeroed. -/
def loadRows (kek : Key) : List KeyVersion → List (Nat × Nat) → Memory →
    Memory × Except RingError (List (Nat × Nat))
  | [], deks, m => (m, .ok deks)
  | v :: rows, deks, m =>
    match unwrapRow aead kek v with
    | .error _ => (m.zeroAll (deks.map Prod.snd), .error (.unwrapConfigured v.id))
    | .ok dek => loadRows kek rows (deks ++ [(v.id, m.length)]) (m ++ [dek])

/-- The end of `load`, under the lock. The buffers of versions that are gone are zeroed;
of a version that was held the buffer is kept, and the new copy zeroed. -/
def swap (m : Memory) (r : Ring) (deks : List (Nat × Nat)) : Memory × Ring :=
  let gone := r.deks.filter fun d => (deks.lookup d.1).isNone
  let twice := deks.filter fun d => (r.deks.lookup d.1).isSome
  ((m.zeroAll (gone.map Prod.snd)).zeroAll (twice.map Prod.snd),
    { r with
      deks := deks.map fun d => (d.1, (r.deks.lookup d.1).getD d.2)
      active := (deks.map Prod.fst).foldl max 0 })

/-- `load`: reads all versions and replaces the map. -/
def load (tbl : KeyVersions) (m : Memory) (r : Ring) : Memory × Except RingError Ring :=
  match loadRows aead r.kek (live tbl) [] m with
  | (m, .error e) => (m, .error e)
  | (m, .ok deks) => ((swap m r deks).1, .ok (swap m r deks).2)

/-! ## New versions -/

/-- What the random source returns for a new version. -/
structure Draw where
  dek : Option Key
  nonce : Option Nonce

/-- `createVersion` from the draw of the key on. -/
def insertVersion (kek : Key) (tbl : KeyVersions) (newID : Nat) (draw : Draw) (commits : Bool) :
    KeyVersions × Except RingError Nat :=
  match draw.dek with
  | none => (tbl, .error .newDEK)
  | some dek =>
    match Crypto.sealWith aead kek draw.nonce dek.1 (versionAAD newID) with
    | .error e => (tbl, .error (.wrapDEK e))
    | .ok wrapped =>
      match tbl.insert ⟨newID, wrapped, none⟩ with
      | none => (tbl, .error (.store "insert key version"))
      | some tbl' => if commits then (tbl', .ok newID) else (tbl, .error (.store "commit"))

/-- `createVersion`, a transaction. A bootstrap (`onlyIfEmpty`) leaves a table that
is not empty alone. -/
def createVersion (kek : Key) (tbl : KeyVersions) (onlyIfEmpty : Bool) (draw : Draw)
    (commits : Bool) : KeyVersions × Except RingError Nat :=
  match maxID tbl with
  | none => insertVersion aead kek tbl 1 draw commits
  | some n => if onlyIfEmpty then (tbl, .ok n) else insertVersion aead kek tbl (n + 1) draw commits

/-- `Open`. -/
def openRing (tbl : KeyVersions) (m : Memory) (kek : Key) (draw : Draw) (commits : Bool) :
    KeyVersions × Memory × Except RingError Ring :=
  match load aead tbl m ⟨kek, [], 0, false⟩ with
  | (m, .error e) => (tbl, m, .error e)
  | (m, .ok r) =>
    if r.active = 0 then
      match createVersion aead kek tbl true draw commits with
      | (tbl, .error e) => (tbl, m, .error e)
      | (tbl, .ok _) => (tbl, load aead tbl m r)
    else (tbl, m, .ok r)

/-- `Rotate`; `loads` is whether `load`'s query succeeds. -/
def rotate (tbl : KeyVersions) (m : Memory) (r : Ring) (draw : Draw) (commits loads : Bool) :
    KeyVersions × Memory × Ring × Except RingError Nat :=
  if r.closed then (tbl, m, r, .error .closed)
  else
    match createVersion aead r.kek tbl false draw commits with
    | (tbl, .error e) => (tbl, m, r, .error e)
    | (tbl, .ok id) =>
      if !loads then (tbl, m, r, .error (.store "read key_versions"))
      else
        match load aead tbl m r with
        | (m, .error e) => (tbl, m, r, .error e)
        | (m, .ok r) => (tbl, m, r, .ok id)

/-! ## Secrets -/

/-- `Encrypt`. -/
def encrypt (m : Memory) (r : Ring) (aad : Bytes) (nonce : Option Nonce) (plaintext : Bytes) :
    Except RingError (Bytes × Nat) :=
  if r.closed then .error .closed
  else
    match r.deks.lookup r.active with
    | none => .error .noActive
    | some a =>
      match Crypto.encrypt aead (m.getD a []) nonce plaintext aad with
      | .error e => .error (.crypto e)
      | .ok ciphertext => .ok (ciphertext, r.active)

/-- `decrypt`, with the versions held. -/
def decryptHeld (m : Memory) (r : Ring) (aad ciphertext : Bytes) (version : Nat) :
    Except RingError Bytes :=
  if r.closed then .error .closed
  else
    match r.deks.lookup version with
    | none => .error (.unknownVersion version)
    | some a =>
      match Crypto.decrypt aead (m.getD a []) ciphertext aad with
      | .error e => .error (.crypto e)
      | .ok plaintext => .ok plaintext

/-- `Decrypt`: the table is read again for a version the ring does not hold, when
`mayReload` allows it. -/
def decrypt (tbl : KeyVersions) (m : Memory) (r : Ring) (aad ciphertext : Bytes) (version : Nat)
    (mayReload : Bool) : Memory × Ring × Except RingError Bytes :=
  match decryptHeld aead m r aad ciphertext version with
  | .error (.unknownVersion v) =>
    if mayReload then
      match load aead tbl m r with
      | (m, .error _) => (m, r, .error (.unknownVersion v))
      | (m, .ok r) => (m, r, decryptHeld aead m r aad ciphertext version)
    else (m, r, .error (.unknownVersion v))
  | result => (m, r, result)

/-! ## Master keys -/

/-- What happens at a row of `Rewrap`: the nonce drawn, and whether the update
succeeds. -/
structure Fate where
  nonce : Option Nonce
  updates : Bool

/-- One pass of the loop of `Rewrap`: the new wrapping, unwrapped once before it is
written. -/
def rewrapRow (old new : Key) (fate : Fate) (v : KeyVersion) : Except RingError Bytes :=
  match unwrapRow aead new v with
  | .ok _ => .error .sameKEK
  | .error _ =>
    match unwrapRow aead old v with
    | .error e => .error (.unwrapCurrent v.id e)
    | .ok dek =>
      match Crypto.sealWith aead new fate.nonce dek (versionAAD v.id) with
      | .error e => .error (.wrapVersion v.id e)
      | .ok wrapped =>
        match Crypto.openWith aead new wrapped (versionAAD v.id) with
        | .error _ => .error (.verification v.id)
        | .ok check =>
          if check ≠ dek then .error (.verification v.id)
          else if fate.updates then .ok wrapped
          else .error (.store ("update key version " ++ toString v.id))

/-- The loop of `Rewrap`, inside its transaction. -/
def rewrapRows (old new : Key) (fate : Nat → Fate) :
    List KeyVersion → KeyVersions → Except RingError KeyVersions
  | [], tbl => .ok tbl
  | v :: rows, tbl =>
    match rewrapRow aead old new (fate v.id) v with
    | .error e => .error e
    | .ok wrapped =>
      rewrapRows old new fate rows
        (tbl.update (fun w => w.id = v.id) (fun w => { w with wrapped := wrapped }) fun _ => rfl)

/-- `Rewrap`, a transaction: how many versions were rewrapped. -/
def rewrap (tbl : KeyVersions) (old new : Key) (fate : Nat → Fate) (commits : Bool) :
    KeyVersions × Except RingError Nat :=
  if live tbl = [] then (tbl, .error .noVersions)
  else
    match rewrapRows aead old new fate (live tbl) tbl with
    | .error e => (tbl, .error e)
    | .ok tbl' =>
      if commits then (tbl', .ok (live tbl).length) else (tbl, .error (.store "commit"))

end

/-! ## What is loaded -/

variable {aead : Aead} {tbl : KeyVersions} {m : Memory} {kek : Key} {rows : List KeyVersion}
  {n : Nat} {deks : List (Nat × Nat)}

theorem mem_live {v : KeyVersion} : v ∈ live tbl ↔ v ∈ tbl.rows ∧ v.retiredAt = none := by
  simp [live, mem_insertionSort]

theorem nodup_live : ((live tbl).map KeyVersion.id).Nodup := by
  have hperm := (tbl.rows.filter fun v => v.retiredAt.isNone).perm_insertionSort
    fun v w : KeyVersion => v.id ≤ w.id
  exact (hperm.map KeyVersion.id).nodup_iff.mpr
    (tbl.nodup.sublist (filter_sublist.map KeyVersion.id))

/-- The version is in the table and unwraps to the data key. -/
def Opens (aead : Aead) (kek : Key) (tbl : KeyVersions) (version : Nat) (dek : Bytes) : Prop :=
  ∃ v ∈ live tbl, v.id = version ∧ unwrapRow aead kek v = .ok dek

/-- The ring's map is a cache of the table: a version it holds has a buffer with the
data key of the row. -/
def Caches (aead : Aead) (tbl : KeyVersions) (m : Memory) (r : Ring) : Prop :=
  ∀ version a, r.deks.lookup version = some a →
    ∃ dek, m[a]? = some dek ∧ Opens aead r.kek tbl version dek

theorem getElem?_zeroAll {buffers : List Nat} {a : Nat} (h : a ∉ buffers) :
    (m.zeroAll buffers)[a]? = m[a]? := by
  unfold Memory.zeroAll
  induction buffers generalizing m with
  | nil => rfl
  | cons b buffers ih =>
    obtain ⟨hne, h⟩ := not_or.mp (mt mem_cons.mpr h)
    rw [foldl_cons, ih h, getElem?_modify_ne _ _ (Ne.symm hne)]

theorem isSome_lookup_iff {l : List (Nat × Nat)} {k : Nat} :
    (l.lookup k).isSome ↔ k ∈ l.map Prod.fst := by
  rw [lookup_isSome_iff, mem_map]
  simp only [beq_iff_eq]
  exact exists_congr fun _ => and_congr_right fun _ => eq_comm

theorem lookup_map_values (l : List (Nat × Nat)) (f : Nat → Nat → Nat) (k : Nat) :
    (l.map fun d => (d.1, f d.1 d.2)).lookup k = (l.lookup k).map (f k) := by
  induction l with
  | nil => rfl
  | cons d l ih =>
    rw [map_cons, lookup_cons, lookup_cons]
    by_cases hk : k = d.1
    · subst hk
      simp
    · have hne : (k == d.1) = false := beq_eq_false_iff_ne.mpr hk
      rw [hne]
      exact ih

/-- The copies the loop of `load` makes: one for each row, in buffers of their own
after those there were. -/
structure Copies (aead : Aead) (kek : Key) (rows : List KeyVersion) (n : Nat)
    (deks : List (Nat × Nat)) (m : Memory) : Prop where
  ids : deks.map Prod.fst = rows.map KeyVersion.id
  buffers : deks.map Prod.snd = range' n rows.length
  keys : ∀ d ∈ deks, ∃ v ∈ rows, v.id = d.1 ∧ ∃ dek, m[d.2]? = some dek ∧
    unwrapRow aead kek v = .ok dek

/-- The loop of `load`, when every row unwraps. -/
theorem loadRows_ok
    (hall : ∀ v ∈ rows, ∃ dek, unwrapRow aead kek v = .ok dek) (deks : List (Nat × Nat))
    (m : Memory) :
    ∃ deks' copies, Copies aead kek rows m.length deks' (m ++ copies) ∧
      loadRows aead kek rows deks m = (m ++ copies, .ok (deks ++ deks')) := by
  induction rows generalizing deks m with
  | nil => exact ⟨[], [], ⟨rfl, rfl, by simp⟩, by simp [loadRows]⟩
  | cons v rows ih =>
    obtain ⟨dek, hdek⟩ := hall v mem_cons_self
    obtain ⟨deks', copies, hcopies, hload⟩ := ih (fun w hw => hall w (mem_cons_of_mem v hw))
      (deks ++ [(v.id, m.length)]) (m ++ [dek])
    refine ⟨(v.id, m.length) :: deks', dek :: copies, ⟨?_, ?_, ?_⟩, ?_⟩
    · rw [map_cons, hcopies.ids, map_cons]
    · have hbuffers := hcopies.buffers
      rw [length_append, length_singleton] at hbuffers
      rw [map_cons, hbuffers, length_cons, range'_succ]
    · rw [forall_mem_cons]
      refine ⟨⟨v, mem_cons_self, rfl, dek, by simp, hdek⟩, fun d hd => ?_⟩
      obtain ⟨w, hw, hid, b, hb, hunwrap⟩ := hcopies.keys d hd
      exact ⟨w, mem_cons_of_mem v hw, hid, b, by simpa using hb, hunwrap⟩
    · simp only [loadRows, hdek, hload, append_assoc, singleton_append]

/-- The buffers of the copies are new, and no two versions share one. -/
theorem Copies.le_buffer (h : Copies aead kek rows n deks m) {d : Nat × Nat}
    (hd : d ∈ deks) : n ≤ d.2 := by
  have hmem : d.2 ∈ deks.map Prod.snd := mem_map_of_mem hd
  rw [h.buffers, mem_range'] at hmem
  obtain ⟨i, -, hi⟩ := hmem
  omega

theorem Copies.buffer_inj (h : Copies aead kek rows n deks m) {d e : Nat × Nat}
    (hd : d ∈ deks) (he : e ∈ deks) (heq : d.2 = e.2) : d = e := by
  have hnodup : (deks.map Prod.snd).Nodup := by
    rw [h.buffers]
    exact nodup_range'
  exact inj_on_of_nodup_map hnodup hd he heq

theorem lt_foldl_max {l : List Nat} : n < l.foldl max 0 ↔ ∃ a ∈ l, n < a := by
  have hgathers := foldl_gathers (fun _ => True) (fun k => n < k) (l := l)
    (fun _ _ _ _ => trivial) (fun k a _ _ => lt_max_iff (a := n) (b := k) (c := a))
    (s := 0) trivial
  simpa using hgathers

/-- **Loading.** When every row unwraps under the ring's master key, a ring that is a
cache of the table is one afterwards, and holds every version. -/
theorem load_ok {r : Ring} (hcaches : Caches aead tbl m r)
    (hall : ∀ v ∈ live tbl, ∃ dek, unwrapRow aead r.kek v = .ok dek) :
    ∃ m' r', load aead tbl m r = (m', .ok r') ∧ r'.kek = r.kek ∧ r'.closed = r.closed ∧
      Caches aead tbl m' r' ∧ (∀ v ∈ live tbl, (r'.deks.lookup v.id).isSome) ∧
      r'.active = ((live tbl).map KeyVersion.id).foldl max 0 := by
  obtain ⟨deks, copies, hcopies, hload⟩ := loadRows_ok hall [] m
  rw [nil_append] at hload
  -- every version the ring holds is still there
  have hgone : r.deks.filter (fun d => (deks.lookup d.1).isNone) = [] := by
    rw [filter_eq_nil_iff]
    intro d hd hnone
    obtain ⟨a, ha⟩ := Option.isSome_iff_exists.mp
      (isSome_lookup_iff.mpr (mem_map_of_mem (f := Prod.fst) hd))
    obtain ⟨dek, -, v, hv, hid, -⟩ := hcaches d.1 a ha
    have hsome : (deks.lookup d.1).isSome := by
      rw [isSome_lookup_iff, hcopies.ids, ← hid]
      exact mem_map_of_mem hv
    rw [Option.isNone_iff_eq_none] at hnone
    rw [hnone] at hsome
    cases hsome
  simp only [load, swap, hload, hgone, map_nil]
  refine ⟨_, _, rfl, rfl, rfl, ?_, ?_, ?_⟩
  · intro version a ha
    dsimp only at ha
    rw [lookup_map_values deks fun version b => (r.deks.lookup version).getD b] at ha
    obtain ⟨b, hb, rfl⟩ := Option.map_eq_some_iff.mp ha
    have hmem := mem_of_lookup hb
    cases hheld : r.deks.lookup version with
    | some c =>
      -- held before: an old buffer, and only new ones are zeroed
      obtain ⟨dek, hdek, hopens⟩ := hcaches version c hheld
      refine ⟨dek, ?_, hopens⟩
      rw [Option.getD_some, getElem?_zeroAll, Memory.zeroAll, foldl_nil,
        List.getElem?_append_left (List.getElem?_eq_some_iff.mp hdek).1]
      · exact hdek
      · intro hzeroed
        obtain ⟨d, hd, rfl⟩ := mem_map.mp hzeroed
        have hlt := (List.getElem?_eq_some_iff.mp hdek).1
        exact absurd (hcopies.le_buffer (mem_of_mem_filter hd)) (Nat.not_le.mpr hlt)
    | none =>
      obtain ⟨v, hv, hid, dek, hdek, hunwrap⟩ := hcopies.keys _ hmem
      refine ⟨dek, ?_, v, hv, hid, hunwrap⟩
      rw [Option.getD_none, getElem?_zeroAll, Memory.zeroAll, foldl_nil]
      · exact hdek
      · intro hzeroed
        obtain ⟨d, hd, heq⟩ := mem_map.mp hzeroed
        obtain ⟨hd, htwice⟩ := mem_filter.mp hd
        obtain rfl := hcopies.buffer_inj hd hmem heq
        rw [hheld] at htwice
        cases htwice
  · intro v hv
    dsimp only
    rw [lookup_map_values deks fun version b => (r.deks.lookup version).getD b, Option.isSome_map,
      isSome_lookup_iff, hcopies.ids]
    exact mem_map_of_mem hv
  · rw [hcopies.ids]

theorem unwraps_of_loadRows {deks' : List (Nat × Nat)}
    (h : (loadRows aead kek rows deks m).2 = .ok deks') :
    ∀ v ∈ rows, ∃ dek, unwrapRow aead kek v = .ok dek := by
  induction rows generalizing deks m with
  | nil => simp
  | cons v rows ih =>
    simp only [loadRows] at h
    split at h
    · cases h
    · rename_i dek hdek
      rw [forall_mem_cons]
      exact ⟨⟨dek, hdek⟩, ih h⟩

theorem unwraps_of_load {m' : Memory} {r r' : Ring} (h : load aead tbl m r = (m', .ok r')) :
    ∀ v ∈ live tbl, ∃ dek, unwrapRow aead r.kek v = .ok dek := by
  unfold load at h
  split at h
  · cases (Prod.mk.inj h).2
  · rename_i hrows
    exact unwraps_of_loadRows (congrArg Prod.snd hrows)

end Keyring

end Zanskar
