import Mathlib.Tactic

/-!
# Machines and their runs

A machine takes labelled steps on a state, each of them atomic; a step that is
not enabled gives nothing. Handlers that read and write in separate database
statements are modelled this way, one label for each statement, so a run is one
interleaving of the statements of all calls in flight.

`RunWhere step C s ls t` is a run from `s` to `t` through the labels `ls`, every
step of which meets the condition `C` in the state it is taken from; `Run` asks
for no condition. The rules below are the ones invariants are proved with: one
step at a time, with (`RunWhere.keeps_trace`) or without (`RunWhere.keeps`) the
labels taken so far. `RunWhere.congr` compares two conditions on the steps of a
run.
-/

namespace Zanskar.Lib

open List

variable {σ ℓ : Type*} {step : σ → ℓ → Option σ} {C : σ → ℓ → Prop} {s t u : σ} {ls : List ℓ}
  {l : ℓ} {D : σ → ℓ → Prop} {p : σ → Bool} {P Q : σ → Prop}

/-- Runs whose steps all meet the condition. -/
inductive RunWhere (step : σ → ℓ → Option σ) (C : σ → ℓ → Prop) (s : σ) :
    List ℓ → σ → Prop
  | nil : RunWhere step C s [] s
  | snoc {ls : List ℓ} {t u : σ} {l : ℓ} (run : RunWhere step C s ls t) (cond : C t l)
      (hstep : step t l = some u) : RunWhere step C s (ls ++ [l]) u

/-- Runs, with no condition on their steps. -/
def Run (step : σ → ℓ → Option σ) (s : σ) (ls : List ℓ) (t : σ) : Prop :=
  RunWhere step (fun _ _ => True) s ls t

/-- **Invariants.** What holds at the start and is kept by every step that meets
the condition holds in every state reached. -/
theorem RunWhere.keeps (I : σ → Prop)
    (hstep : ∀ t l u, C t l → I t → step t l = some u → I u) (h0 : I s)
    (h : RunWhere step C s ls t) : I t := by
  induction h with
  | nil => exact h0
  | snoc _ cond hs ih => exact hstep _ _ _ cond ih hs

/-- Invariants of the state together with the labels that led to it. -/
theorem RunWhere.keeps_trace (I : List ℓ → σ → Prop)
    (hstep : ∀ ls t l u, C t l → I ls t → step t l = some u → I (ls ++ [l]) u)
    (h0 : I [] s) (h : RunWhere step C s ls t) : I ls t := by
  induction h with
  | nil => exact h0
  | snoc _ cond hs ih => exact hstep _ _ _ _ cond ih hs

theorem RunWhere.imp (himp : ∀ t l u, step t l = some u → C t l → D t l)
    (h : RunWhere step C s ls t) : RunWhere step D s ls t := by
  induction h with
  | nil => exact .nil
  | snoc _ cond hs ih => exact .snoc ih (himp _ _ _ hs cond) hs

/-- **Conditions of a run.** Two conditions that agree on every step there is are met by
the same runs. -/
theorem RunWhere.congr (hiff : ∀ t l u, step t l = some u → (C t l ↔ D t l)) :
    RunWhere step C s ls t ↔ RunWhere step D s ls t :=
  ⟨.imp fun t l u hs => (hiff t l u hs).mp, .imp fun t l u hs => (hiff t l u hs).mpr⟩

/-- The states of a concrete run, computed. -/
def exec (step : σ → ℓ → Option σ) (s : σ) : List ℓ → Option σ
  | [] => some s
  | l :: ls => (step s l).bind fun t => exec step t ls

theorem RunWhere.append {ls' : List ℓ} (h : RunWhere step C s ls t)
    (h' : RunWhere step C t ls' u) : RunWhere step C s (ls ++ ls') u := by
  induction h' with
  | nil => rwa [append_nil]
  | snoc _ cond hs ih =>
    rw [← append_assoc]
    exact .snoc ih cond hs

/-- A run, step by step from its beginning. -/
theorem RunWhere.cons (cond : C s l) (hstep : step s l = some t)
    (h : RunWhere step C t ls u) : RunWhere step C s (l :: ls) u :=
  RunWhere.append (.snoc .nil cond hstep) h

/-- A run, what is known of its last state, and what follows. -/
theorem RunWhere.exists_imp (hQ : ∀ t, RunWhere step C s ls t → P t → Q t)
    (h : ∃ t, RunWhere step C s ls t ∧ P t) : ∃ t, RunWhere step C s ls t ∧ Q t := by
  obtain ⟨t, hrun, ht⟩ := h
  exact ⟨t, hrun, hQ t hrun ht⟩

/-- A computed run is a run. -/
theorem Run.of_exec (h : exec step s ls = some t) : Run step s ls t := by
  induction ls generalizing s with
  | nil =>
    cases h
    exact .nil
  | cons l ls ih =>
    obtain ⟨m, hm, hrest⟩ := Option.bind_eq_some_iff.mp h
    exact .cons trivial hm (ih hrest)

/-- A run through labels that meet the condition in every state. -/
theorem Run.where_of (h : Run step s ls t) (hC : ∀ l ∈ ls, ∀ u, C u l) :
    RunWhere step C s ls t := by
  unfold Run at h
  induction h with
  | nil => exact .nil
  | snoc _ _ hs ih =>
    exact .snoc (ih fun l hl => hC l (mem_append_left _ hl))
      (hC _ (mem_append_right _ mem_cons_self) _) hs

/-- A computed run goes on from where its first part ended. -/
theorem exec_append (step : σ → ℓ → Option σ) (s : σ) (ls ls' : List ℓ) :
    exec step s (ls ++ ls') = (exec step s ls).bind fun t => exec step t ls' := by
  induction ls generalizing s with
  | nil => rfl
  | cons l ls ih => simp only [cons_append, exec, Option.bind_assoc, ih]

/-- A computed run, with what its last state was computed to be. -/
theorem Run.of_exec_any (h : (exec step s ls).any p) :
    ∃ t, Run step s ls t ∧ p t := by
  obtain ⟨t, hexec, ht⟩ := (Option.any_eq_true ..).mp h
  exact ⟨t, Run.of_exec hexec, ht⟩

/-- A computed run, what is decided of its last state, and what follows. -/
theorem Run.exists_of_decide [DecidablePred P]
    (h : (exec step s ls).any (decide <| P ·)) (hQ : ∀ t, Run step s ls t → P t → Q t) :
    ∃ t, Run step s ls t ∧ Q t :=
  RunWhere.exists_imp (fun t hrun ht => hQ t hrun (of_decide_eq_true ht)) (of_exec_any h)

theorem Run.of_exec_decide [DecidablePred P]
    (h : (exec step s ls).any (decide <| P ·)) : ∃ t, Run step s ls t ∧ P t :=
  exists_of_decide h fun _ _ ht => ht

/-- A computed run and one more step, with what is decided of both states. -/
theorem Run.exists_step_of_decide {R : σ → σ → Prop} [∀ t u, Decidable (R t u)]
    (h : (exec step s ls).any fun t => (step t l).any (decide <| R t ·)) :
    ∃ t u, Run step s ls t ∧ step t l = some u ∧ R t u := by
  obtain ⟨t, hrun, ht⟩ := of_exec_any h
  obtain ⟨u, hstep, hu⟩ := (Option.any_eq_true ..).mp ht
  exact ⟨t, u, hrun, hstep, of_decide_eq_true hu⟩

/-- The states of a concrete run, computed along with the condition on its steps. -/
def execWhere (step : σ → ℓ → Option σ) (c : σ → ℓ → Bool) (s : σ) : List ℓ → Option σ
  | [] => some s
  | l :: ls => if c s l then (step s l).bind fun t => execWhere step c t ls else none

/-- A run computed with its condition, and what its last state was computed to be. -/
theorem RunWhere.of_execWhere_any {c : σ → ℓ → Bool}
    (hC : ∀ t l, c t l → C t l) (h : (execWhere step c s ls).any p) :
    ∃ t, RunWhere step C s ls t ∧ p t := by
  induction ls generalizing s with
  | nil => exact ⟨s, .nil, h⟩
  | cons l ls ih =>
    rw [execWhere] at h
    split at h
    · rename_i hc
      cases hstep : step s l with
      | none =>
        rw [hstep] at h
        cases h
      | some m =>
        rw [hstep] at h
        obtain ⟨t, hrun, hp⟩ := ih h
        exact ⟨t, .cons (hC s l hc) hstep hrun, hp⟩
    · cases h

/-- A computed run whose condition is decided, what is decided of its last state, and what
follows. -/
theorem RunWhere.exists_of_decide [∀ t l, Decidable (C t l)] [DecidablePred P]
    (h : (execWhere step (fun t l => decide (C t l)) s ls).any (decide <| P ·))
    (hQ : ∀ t, RunWhere step C s ls t → P t → Q t) : ∃ t, RunWhere step C s ls t ∧ Q t :=
  exists_imp (fun t hrun ht => hQ t hrun (of_decide_eq_true ht))
    (of_execWhere_any (fun _ _ => of_decide_eq_true) h)

end Zanskar.Lib
