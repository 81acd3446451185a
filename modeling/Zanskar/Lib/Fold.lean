import Zanskar.Lib.Check

/-!
# Loops that gather

A loop that passes a state `s : σ` and adds to it what each element of a list
contributes. When one pass keeps an invariant `I` and makes a relation `P` hold
exactly of what held before or what the element contributes (`Q`), the whole
loop makes `P` hold exactly of what held at the start or what some element
contributes.
-/

namespace Zanskar.Lib

open List

variable {σ α : Type} {f : σ → α → σ} (I : σ → Prop) {l : List α} {s : σ}

/-- What one pass keeps, the loop keeps. -/
theorem foldl_keeps (hI : ∀ s, ∀ a ∈ l, I s → I (f s a)) (hs : I s) : I (l.foldl f s) := by
  induction l generalizing s with
  | nil => exact hs
  | cons a l ih =>
    exact ih (fun s b hb => hI s b (mem_cons_of_mem a hb)) (hI s a mem_cons_self hs)

/-- What one pass adds, the loop gathers. -/
theorem foldl_gathers (P : σ → Prop) {Q : α → Prop} (hI : ∀ s, ∀ a ∈ l, I s → I (f s a))
    (hP : ∀ s, ∀ a ∈ l, I s → (P (f s a) ↔ P s ∨ Q a)) (hs : I s) :
    P (l.foldl f s) ↔ P s ∨ ∃ a ∈ l, Q a := by
  induction l generalizing s with
  | nil => simp
  | cons a l ih =>
    have htail := ih (fun s b hb => hI s b (mem_cons_of_mem a hb))
      (fun s b hb => hP s b (mem_cons_of_mem a hb)) (hI s a mem_cons_self hs)
    rw [foldl_cons, htail, hP s a mem_cons_self hs, exists_mem_cons_iff, or_assoc]

/-- What one pass keeps, a loop that may fail keeps where it does not. -/
theorem foldlM_keeps {ε : Type} {f : σ → α → Except ε σ}
    (hI : ∀ s, ∀ a ∈ l, ∀ t, I s → f s a = .ok t → I t) {t : σ} (hs : I s)
    (h : l.foldlM f s = .ok t) : I t := by
  induction l generalizing s with
  | nil => exact Except.ok.inj h ▸ hs
  | cons a l ih =>
    rw [foldlM_cons] at h
    obtain ⟨u, hstep, h⟩ := bind_eq_ok.mp h
    exact ih (fun s b hb => hI s b (mem_cons_of_mem a hb)) (hI s a mem_cons_self u hs hstep) h

end Zanskar.Lib
