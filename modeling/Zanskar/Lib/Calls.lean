import Zanskar.Lib.Machine

/-!
# Calls on shared state

Calls that take several steps each on one shared state, each about one key; a run is
an interleaving of their steps. `Calls.settled_of_alone` is the rule for calls of which
no two about one key overlap: what holds of a key between calls, and at each stage of
a call about it, is kept by the steps of that call and left alone by all others.
-/

namespace Zanskar.Lib

open List Function

variable {σ κ φ β ι : Type*}

/-- What calls do: the key of a call, its first stage, and its next step, after which
it is at a stage again or has returned (`none`). -/
structure Calls (σ κ φ β ι : Type*) where
  key : β → κ
  start : β → φ
  next : κ → φ → ι → σ → Option (σ × Option φ)

/-- The shared state, and the calls under way, each with its key and stage. -/
structure CallState (σ κ φ : Type*) where
  shared : σ
  calls : Nat → Option (κ × φ)

inductive CallLabel (β ι : Type*) where
  | begins (i : Nat) (call : β)
  | next (i : Nat) (input : ι)

/-- The call that takes the step. -/
def CallLabel.call : CallLabel β ι → Nat
  | .begins i _ => i
  | .next i _ => i

/-- No call has begun. -/
def CallState.init (s : σ) : CallState σ κ φ := ⟨s, fun _ => none⟩

/-- Every call about the key has returned. -/
def CallState.Returned (s : CallState σ κ φ) (k : κ) : Prop := ∀ i p, s.calls i ≠ some (k, p)

namespace Calls

variable (P : Calls σ κ φ β ι)

def step (s : CallState σ κ φ) : CallLabel β ι → Option (CallState σ κ φ)
  | .begins i call =>
    match s.calls i with
    | none => some ⟨s.shared, Function.update s.calls i (some (P.key call, P.start call))⟩
    | some _ => none
  | .next i input =>
    match s.calls i with
    | none => none
    | some (k, p) => (P.next k p input s.shared).map fun r =>
        ⟨r.1, Function.update s.calls i (r.2.map (k, ·))⟩

/-- A call about a `Lone` key begins where the calls about it have returned, and every call takes
its steps with inputs that are `Ok` at its stage. -/
def Alone (Lone : κ → Prop) (Ok : φ → ι → σ → Prop) (s : CallState σ κ φ) : CallLabel β ι → Prop
  | .begins _ call => Lone (P.key call) → s.Returned (P.key call)
  | .next i input => ∀ k p, s.calls i = some (k, p) → Ok p input s.shared

/-- Nothing is under way about the key and it is settled, or one call is, and the key
is as fits its stage. -/
def Orderly (Settled : κ → σ → Prop) (Fits : κ → φ → σ → Prop) (s : CallState σ κ φ) (k : κ) :
    Prop :=
  s.Returned k ∧ Settled k s.shared ∨
    ∃ i p, s.calls i = some (k, p) ∧ Fits k p s.shared ∧ ∀ j q, s.calls j = some (k, q) → j = i

variable {P} {Settled : κ → σ → Prop} {Fits : κ → φ → σ → Prop} {s : CallState σ κ φ} {k : κ}

/-- In a run of the calls below `n`, all have returned when these have. -/
theorem returned_of_range {C : CallState σ κ φ → CallLabel β ι → Prop} {s₀ : σ}
    {ls : List (CallLabel β ι)} (h : RunWhere P.step C (.init s₀) ls s)
    {n : Nat} (hls : (ls.all fun l => l.call < n))
    (hn : ((range n).all fun i => (s.calls i).isNone)) (k : κ) : s.Returned k := by
  have hidle : ∀ i, (∀ l ∈ ls, l.call ≠ i) → s.calls i = none := by
    refine h.keeps_trace (fun ls s => ∀ i, (∀ l ∈ ls, l.call ≠ i) → s.calls i = none) ?_
      fun _ _ => rfl
    intro ls t l u _ ht hstep i hi
    have hold := ht i fun l hl => hi l (mem_append_left _ hl)
    have hne : i ≠ l.call := (hi l (mem_append_right _ mem_cons_self)).symm
    cases l <;> simp only [step] at hstep
    case begins j call =>
      split at hstep <;> cases hstep
      exact (update_of_ne hne ..).trans hold
    case next j input =>
      split at hstep
      · cases hstep
      · obtain ⟨r, -, rfl⟩ := Option.map_eq_some_iff.mp hstep
        exact (update_of_ne hne ..).trans hold
  intro i p hi
  by_cases hin : i < n
  · have := all_eq_true.mp hn i (mem_range.mpr hin)
    rw [hi] at this
    cases this
  · rw [hidle i fun l hl heq => hin (heq ▸ of_decide_eq_true (all_eq_true.mp hls l hl))] at hi
    cases hi

/-- One call goes through its steps, with nothing else under way. -/
theorem exists_run_of_one (P : Calls σ κ φ β ι) {Lone : κ → Prop} {Ok : φ → ι → σ → Prop} (s₀ : σ)
    (call : β) (inputs : List ι) (hok : ∀ input ∈ inputs, ∀ p s, Ok p input s) (p : σ → Bool)
    (h : (exec P.step (.init s₀) (.begins 0 call :: inputs.map (.next 0))).any
      (fun s => (s.calls 0).isNone && p s.shared)) :
    ∃ s, RunWhere P.step (P.Alone Lone Ok) (.init s₀) (.begins 0 call :: inputs.map (.next 0)) s ∧
      (∀ k, s.Returned k) ∧ p s.shared := by
  obtain ⟨s, hrun, hs⟩ : ∃ s, Run P.step ⟨s₀, Function.update (fun _ => none) 0
      (some (P.key call, P.start call))⟩ (inputs.map (.next 0)) s ∧
        ((s.calls 0).isNone && p s.shared) := Run.of_exec_any h
  rw [Bool.and_eq_true] at hs
  have hcond : ∀ l ∈ inputs.map (CallLabel.next (β := β) 0), ∀ u, P.Alone Lone Ok u l := by
    intro l hl u
    obtain ⟨input, hinput, rfl⟩ := mem_map.mp hl
    exact fun _ p _ => hok input hinput p u.shared
  have hwhere := RunWhere.cons (C := P.Alone Lone Ok) (l := .begins 0 call) (s := .init s₀)
    (fun _ _ _ => (Option.some_ne_none _).symm) rfl (hrun.where_of hcond)
  exact ⟨s, hwhere, returned_of_range hwhere (n := 1) (by simp [CallLabel.call]) (by simp [hs.1]),
    hs.2⟩

/-- A computed run after which the calls below `n`, all there are, have returned. -/
theorem exists_run_returned {p : CallState σ κ φ → Prop} [DecidablePred p] {s₀ : σ}
    {ls : List (CallLabel β ι)} (n : Nat) (hls : (ls.all fun l => l.call < n))
    (h : (exec P.step (.init s₀) ls).any (fun s =>
      decide (((range n).all fun i => (s.calls i).isNone) ∧ p s))) :
    ∃ s, Run P.step (.init s₀) ls s ∧ (∀ k, s.Returned k) ∧ p s := by
  obtain ⟨s, hrun, hnone, hp⟩ := Run.of_exec_decide h
  exact ⟨s, hrun, returned_of_range hrun hls hnone, hp⟩

variable {i : Nat} {shared : σ}

/-- A call about another key comes to another stage or returns. -/
theorem Orderly.other (h : Orderly Settled Fits s k) {c : Option (κ × φ)}
    (hsettled : Settled k s.shared → Settled k shared)
    (hfits : ∀ p, Fits k p s.shared → Fits k p shared)
    (hi : ∀ p, s.calls i ≠ some (k, p)) (hc : ∀ p, c ≠ some (k, p)) :
    Orderly Settled Fits ⟨shared, Function.update s.calls i c⟩ k := by
  have hcalls : ∀ j q, Function.update s.calls i c j = some (k, q) ↔ s.calls j = some (k, q) := by
    intro j q
    by_cases hj : j = i
    · subst hj
      rw [update_self]
      exact ⟨fun heq => absurd heq (hc q), fun heq => absurd heq (hi q)⟩
    · rw [update_of_ne hj]
  rcases h with ⟨hret, hset⟩ | ⟨j, p, hj, hfit, hone⟩
  · exact .inl ⟨fun j q => mt (hcalls j q).mp (hret j q), hsettled hset⟩
  · exact .inr ⟨j, p, (hcalls j p).mpr hj, hfits p hfit, fun j q hq => hone j q ((hcalls j q).mp hq)⟩

/-- The one call about the key comes to another stage or returns. -/
theorem Orderly.own {o : Option φ} (hone : ∀ j q, s.calls j = some (k, q) → j = i)
    (hholds : o.elim (Settled k shared) (Fits k · shared)) :
    Orderly Settled Fits ⟨shared, Function.update s.calls i (o.map (k, ·))⟩ k := by
  have hothers : ∀ j q, Function.update s.calls i (o.map (k, ·)) j = some (k, q) → j = i := by
    intro j q hq
    by_contra hj
    rw [update_of_ne hj] at hq
    exact hj (hone j q hq)
  cases o with
  | none =>
    refine .inl ⟨fun j q hq => ?_, hholds⟩
    obtain rfl := hothers j q hq
    simp at hq
  | some p => exact .inr ⟨i, p, update_self .., hholds, hothers⟩

section

variable (P Settled Fits) {Lone : κ → Prop} {Ok : φ → ι → σ → Prop}
  (hstart : ∀ call s, Settled (P.key call) s → Fits (P.key call) (P.start call) s)
  (hnext : ∀ k p input s t o, Ok p input s → Fits k p s → P.next k p input s = some (t, o) →
    o.elim (Settled k t) (Fits k · t))
  (hframe : ∀ k p input s t o, Ok p input s → P.next k p input s = some (t, o) → ∀ k' ≠ k,
    (Settled k' s → Settled k' t) ∧ ∀ q, Fits k' q s → Fits k' q t)
  {s₀ : σ} (hinit : ∀ k, Settled k s₀) {ls : List (CallLabel β ι)}
  (h : RunWhere P.step (P.Alone Lone Ok) (.init s₀) ls s) (hlone : Lone k)

include hstart hnext hframe hinit h hlone

/-- **No two calls about one key.** What holds of every key at first, and of the one call about
it at its stages, holds throughout, where the calls of a key do not overlap and the inputs of
their steps are as `Ok` asks. -/
theorem orderly_of_alone : Orderly Settled Fits s k := by
  refine h.keeps (fun s => ∀ k, Lone k → Orderly Settled Fits s k) ?_
    (fun k _ => .inl ⟨fun i p => (Option.some_ne_none _).symm, hinit k⟩) k hlone
  intro s l t hcond hs hstep k hlone
  cases l <;> simp only [step] at hstep
  case begins i call =>
    split at hstep <;> cases hstep
    rename_i hi
    by_cases hkey : P.key call = k
    · subst hkey
      have hsettled : Settled (P.key call) s.shared := by
        rcases hs _ hlone with ⟨-, hset⟩ | ⟨j, p, hj, -⟩
        · exact hset
        · exact absurd hj (hcond hlone j p)
      exact Orderly.own (o := some (P.start call)) (fun j q hq => absurd hq (hcond hlone j q))
        (hstart call _ hsettled)
    · refine (hs k hlone).other id (fun _ => id) (fun p => by simp [hi]) fun p heq => ?_
      exact hkey (congrArg Prod.fst (Option.some.inj heq))
  case next i input =>
    split at hstep
    · cases hstep
    rename_i k₀ p hi
    obtain ⟨⟨shared, o⟩, hnexts, rfl⟩ := Option.map_eq_some_iff.mp hstep
    by_cases hkey : k = k₀
    · subst hkey
      rcases hs k hlone with ⟨hret, -⟩ | ⟨j, q, hj, hfit, hone⟩
      · exact absurd hi (hret i p)
      · obtain rfl := hone i p hi
        cases hi.symm.trans hj
        exact Orderly.own hone (hnext _ _ _ _ _ _ (hcond k p hi) hfit hnexts)
    · obtain ⟨hset, hfit⟩ := hframe _ _ _ _ _ _ (hcond k₀ p hi) hnexts k hkey
      refine (hs k hlone).other hset hfit (fun q heq => ?_) fun q heq => ?_
      · rw [hi] at heq
        exact hkey (congrArg Prod.fst (Option.some.inj heq)).symm
      · obtain ⟨r, -, hr⟩ := Option.map_eq_some_iff.mp heq
        exact hkey (congrArg Prod.fst hr).symm

theorem settled_of_alone (hk : s.Returned k) : Settled k s.shared := by
  rcases orderly_of_alone P Settled Fits hstart hnext hframe hinit h hlone with
    ⟨-, hset⟩ | ⟨i, p, hi, -⟩
  · exact hset
  · exact absurd hi (hk i p)

end

end Calls

end Zanskar.Lib
