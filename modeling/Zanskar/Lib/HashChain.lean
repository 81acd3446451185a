import Mathlib.Tactic

/-!
# Hash chains

Items in a row, each of which carries a hash over its content and names the hash of
the item before it; the first names a fixed start. Nothing is assumed of the hash
but what a comparison of two chains needs: that no two contents in them share it, and
that none has the start for its hash.

- `Linked.content_eq` : two chains that end in the same hash have the same contents
  throughout.
-/

namespace Zanskar.Lib

open List

variable {α H C : Type} (hash prev : α → H)

/-- Every item names the hash of the item before it, the first one `start`. -/
def Linked (start : H) : List α → Prop
  | [] => True
  | a :: as => prev a = start ∧ Linked (hash a) as

/-- The hash a chain ends in. -/
def headHash (start : H) : List α → H
  | [] => start
  | a :: as => headHash (hash a) as

variable {hash prev}

theorem headHash_concat (start : H) (as : List α) (a : α) :
    headHash hash start (as ++ [a]) = hash a := by
  induction as generalizing start with
  | nil => rfl
  | cons b as ih => exact ih (hash b)

variable {as : List α} {start : H} {bs : List α}

theorem linked_append :
    Linked hash prev start (as ++ bs) ↔
      Linked hash prev start as ∧ Linked hash prev (headHash hash start as) bs := by
  induction as generalizing start with
  | nil => exact ⟨fun h => ⟨trivial, h⟩, And.right⟩
  | cons a as ih =>
    rw [cons_append, Linked, Linked, ih, and_assoc]
    rfl

theorem linked_concat {a : α} :
    Linked hash prev start (as ++ [a]) ↔
      Linked hash prev start as ∧ prev a = headHash hash start as := by
  rw [linked_append]
  exact and_congr_right fun _ => and_iff_left trivial

/-- **A chain commits to its contents.** -/
theorem Linked.content_eq (content : α → C)
    (hash_inj : ∀ a ∈ as, ∀ b ∈ bs, hash a = hash b → content a = content b)
    (prev_of_content : ∀ a ∈ as, ∀ b ∈ bs, content a = content b → prev a = prev b)
    (hstart : ∀ a ∈ as ++ bs, hash a ≠ start) (has : Linked hash prev start as)
    (hbs : Linked hash prev start bs) (h : headHash hash start as = headHash hash start bs) :
    as.map content = bs.map content := by
  -- from the end, where the hashes are known to agree
  induction as using reverseRecOn generalizing bs with
  | nil =>
    rcases eq_nil_or_concat' bs with rfl | ⟨bs, b, rfl⟩
    · rfl
    · rw [headHash_concat] at h
      exact absurd h.symm (hstart b (by simp))
  | append_singleton as a ih =>
    rw [headHash_concat] at h
    rcases eq_nil_or_concat' bs with rfl | ⟨bs, b, rfl⟩
    · exact absurd h (hstart a (by simp))
    rw [headHash_concat] at h
    obtain ⟨has, ha⟩ := linked_concat.mp has
    obtain ⟨hbs, hb⟩ := linked_concat.mp hbs
    have hcontent := hash_inj a (by simp) b (by simp) h
    have hprev := prev_of_content a (by simp) b (by simp) hcontent
    have hrest := ih
      (fun a' ha' b' hb' => hash_inj a' (by simp [ha']) b' (by simp [hb']))
      (fun a' ha' b' hb' => prev_of_content a' (by simp [ha']) b' (by simp [hb']))
      (fun c hc => hstart c (by
        rcases mem_append.mp hc with hc | hc <;> simp [hc]))
      has hbs (by rw [← ha, ← hb, hprev])
    rw [map_append, map_append, hrest, map_singleton, map_singleton, hcontent]

end Zanskar.Lib
