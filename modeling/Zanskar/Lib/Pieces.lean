import Mathlib.Data.List.Basic

/-!
# Texts in parts

A text is split at a separator: no part has the separator, and the parts have everything else.
-/

namespace Zanskar.Lib

open List

variable {α : Type*} [DecidableEq α] {d c : α} {s l : List α}

/-- Two texts ended by the same character, which is in neither. -/
theorem append_cons_inj_of_not_mem {w w' r r' : List α} (h : c ∉ w) (h' : c ∉ w')
    (heq : w ++ c :: r = w' ++ c :: r') : w = w' ∧ r = r' := by
  have hsplit := congrArg (splitOn c) heq
  rw [splitOn_append_cons_self_of_not_mem h, splitOn_append_cons_self_of_not_mem h'] at hsplit
  obtain rfl := (cons.inj hsplit).1
  exact ⟨rfl, (cons.inj (append_cancel_left heq)).2⟩

theorem splitOn_cons_self : (d :: s).splitOn d = [] :: s.splitOn d := by
  rw [splitOn_cons_eq_if_modifyHead, if_pos (beq_self_eq_true d)]

/-- Anything but the separator is in the first part. -/
theorem splitOn_cons_of_ne (h : c ≠ d) :
    ∃ first rest, s.splitOn d = first :: rest ∧ (c :: s).splitOn d = (c :: first) :: rest := by
  obtain ⟨first, rest, hsplit⟩ := exists_cons_of_ne_nil (splitOn_ne_nil d s)
  refine ⟨first, rest, hsplit, ?_⟩
  rw [splitOn_cons_eq_if_modifyHead, if_neg (by simpa using h), hsplit, modifyHead_cons]

/-- A part has no separator in it, and nothing that is not in the text. -/
theorem of_mem_splitOn (h : l ∈ s.splitOn d) : d ∉ l ∧ l ⊆ s := by
  induction s generalizing l with
  | nil => simp_all
  | cons c s ih =>
    by_cases hc : c = d
    · subst hc
      rw [splitOn_cons_self, mem_cons] at h
      rcases h with rfl | h
      · exact ⟨not_mem_nil, nil_subset _⟩
      · exact (ih h).imp_right (subset_cons_of_subset _)
    · obtain ⟨first, rest, hsplit, hcons⟩ := splitOn_cons_of_ne hc
      rw [hsplit] at ih
      rw [hcons, mem_cons] at h
      rcases h with rfl | h
      · obtain ⟨hnot, hsub⟩ := ih mem_cons_self
        exact ⟨not_mem_cons_of_ne_of_not_mem (Ne.symm hc) hnot, cons_subset_cons _ hsub⟩
      · exact (ih (mem_cons_of_mem first h)).imp_right (subset_cons_of_subset _)

/-- A text is its parts with the separator between them. -/
theorem exists_mem_splitOn (h : c ∈ s) : c = d ∨ ∃ l ∈ s.splitOn d, c ∈ l := by
  induction s with
  | nil => exact absurd h not_mem_nil
  | cons a s ih =>
    by_cases ha : a = d
    · subst ha
      rw [splitOn_cons_self]
      rcases mem_cons.mp h with rfl | h
      · exact .inl rfl
      · exact (ih h).imp_right fun ⟨l, hl, hc⟩ => ⟨l, mem_cons_of_mem _ hl, hc⟩
    · obtain ⟨first, rest, hsplit, hcons⟩ := splitOn_cons_of_ne ha
      rw [hsplit] at ih
      rw [hcons]
      rcases mem_cons.mp h with rfl | h
      · exact .inr ⟨_, mem_cons_self, mem_cons_self⟩
      · refine (ih h).imp_right fun ⟨l, hl, hc⟩ => ?_
        rcases mem_cons.mp hl with rfl | hl
        · exact ⟨_, mem_cons_self, mem_cons_of_mem a hc⟩
        · exact ⟨l, mem_cons_of_mem _ hl, hc⟩

end Zanskar.Lib
