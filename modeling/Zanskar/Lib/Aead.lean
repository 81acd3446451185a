import Mathlib.Tactic

/-!
# Ideal authenticated encryption

Authenticated encryption with associated data, on byte strings, as programs assume
it: what was sealed is opened under the same key, nonce and associated data, and
under no other. `Aead.framed` is a scheme that meets the laws; it hides nothing, and
is there so that what is proved of every scheme is about something.

Nothing is said of how long a ciphertext is beyond a least overhead: at a fixed
length two keys would have to share a ciphertext.
-/

namespace Zanskar.Lib

/-- An ideal scheme. -/
structure Aead where
  encrypt : (key nonce plaintext aad : List UInt8) → List UInt8
  decrypt : (key nonce ciphertext aad : List UInt8) → Option (List UInt8)
  /-- What a ciphertext is longer by, at least. -/
  overhead : Nat
  overhead_le : ∀ k n p a, overhead ≤ (encrypt k n p a).length
  decrypt_encrypt : ∀ k n p a, decrypt k n (encrypt k n p a) a = some p
  decrypt_other : ∀ k n p a k' n' a', k' ≠ k ∨ n' ≠ n ∨ a' ≠ a →
    decrypt k' n' (encrypt k n p a) a' = none

namespace Aead

/-! ## A scheme -/

/-- A byte string with a 1 before each byte and a 0 after the last. -/
def frame : List UInt8 → List UInt8
  | [] => [0]
  | b :: x => 1 :: b :: frame x

/-- A frame says where it ends. -/
theorem frame_append_inj {x y r s : List UInt8} (h : frame x ++ r = frame y ++ s) :
    x = y ∧ r = s := by
  induction x generalizing y with
  | nil =>
    cases y with
    | nil => exact ⟨rfl, (List.cons.inj h).2⟩
    | cons c y => exact absurd (List.cons.inj h).1 (by decide)
  | cons b x ih =>
    cases y with
    | nil => exact absurd (List.cons.inj h).1 (by decide)
    | cons c y =>
      obtain ⟨hbc, htail⟩ := List.cons.inj (List.cons.inj h).2
      obtain ⟨hxy, hrest⟩ := ih htail
      exact ⟨congrArg₂ List.cons hbc hxy, hrest⟩

theorem frame_pos (x : List UInt8) : 0 < (frame x).length := by
  cases x <;> exact Nat.succ_pos _

/-- The key, nonce and associated data a ciphertext stands for. -/
def header (key nonce aad : List UInt8) : List UInt8 := frame key ++ frame nonce ++ frame aad

theorem header_append_inj {k n a k' n' a' r s : List UInt8}
    (h : header k n a ++ r = header k' n' a' ++ s) : k = k' ∧ n = n' ∧ a = a' ∧ r = s := by
  simp only [header, List.append_assoc] at h
  obtain ⟨hk, h⟩ := frame_append_inj h
  obtain ⟨hn, h⟩ := frame_append_inj h
  obtain ⟨ha, hrest⟩ := frame_append_inj h
  exact ⟨hk, hn, ha, hrest⟩

/-- Key, nonce and associated data are written out before the plaintext. -/
def framed : Aead where
  encrypt key nonce plaintext aad := header key nonce aad ++ plaintext
  decrypt key nonce ciphertext aad :=
    if header key nonce aad = ciphertext.take (header key nonce aad).length then
      some (ciphertext.drop (header key nonce aad).length)
    else none
  overhead := 3
  overhead_le k n p a := by
    simp only [header, List.length_append]
    have hk := frame_pos k
    have hn := frame_pos n
    have ha := frame_pos a
    omega
  decrypt_encrypt k n p a := by simp
  decrypt_other k n p a k' n' a' h := by
    refine if_neg fun htake => ?_
    have happend : header k' n' a' ++ (header k n a ++ p).drop (header k' n' a').length =
        header k n a ++ p := by
      conv_rhs => rw [← List.take_append_drop (header k' n' a').length (header k n a ++ p)]
      rw [← htake]
    obtain ⟨rfl, rfl, rfl, -⟩ := header_append_inj happend
    simp at h

end Aead

end Zanskar.Lib
