import Zanskar.Go.Utf8

/-!
# Decimal numbers in text (`strconv`)

`Itoa` and `Atoi` over bytes. `natOfDigits` is the value of a run of digits; it
is what `Atoi` computes and what gives a number back from its digits
(`natOfDigits_itoa`), also when the digits are cut in two (`natOfDigits_append`).
-/

namespace Zanskar.Go

open List

/-- The byte of an ASCII character. -/
def ascii (c : Char) : UInt8 := c.toNat.toUInt8

/-- The bytes of ASCII text. -/
def lit (s : String) : Bytes := s.toList.map ascii

/-- A decimal digit. -/
def isDigit (b : UInt8) : Bool := 0x30 ≤ b.toNat && b.toNat ≤ 0x39

/-- The value of a run of digits. -/
def natOfDigits (ds : Bytes) : Nat := ds.foldl (fun n d => 10 * n + (d.toNat - 0x30)) 0

/-- `strconv.Itoa` of a number that is not negative. -/
def itoa (n : Nat) : Bytes := (Nat.toDigits 10 n).map ascii

/-- `strconv.Atoi`: a sign, at least one digit, nothing else, and the value of an
`int`. -/
def atoi (s : Bytes) : Option Int :=
  let neg := s.head? = some 0x2D
  let ds := if s.head? = some 0x2D ∨ s.head? = some 0x2B then s.tail else s
  if ds = [] || !ds.all isDigit then none
  else if neg then
    if natOfDigits ds ≤ 2 ^ 63 then some (-(natOfDigits ds : Int)) else none
  else if natOfDigits ds < 2 ^ 63 then some (natOfDigits ds : Int)
  else none

/-! ## The digits of a number -/

variable {c : Char} {n : Nat}

theorem toNat_ascii (h : c.isDigit) : (ascii c).toNat = c.toNat := by
  have hle : c.toNat ≤ 57 := (Char.isDigit_iff_toNat.mp h).2
  show c.toNat % 2 ^ 8 = c.toNat
  omega

theorem isDigit_ascii (h : c.isDigit) : isDigit (ascii c) := by
  rw [isDigit, toNat_ascii h, Bool.and_eq_true, decide_eq_true_eq, decide_eq_true_eq]
  exact Char.isDigit_iff_toNat.mp h

theorem itoa_ne_nil (n : Nat) : itoa n ≠ [] := by
  simp [itoa, Nat.toDigits_ne_nil]

theorem isDigit_of_mem_itoa {b : UInt8} (h : b ∈ itoa n) : isDigit b := by
  obtain ⟨c, hc, rfl⟩ := mem_map.mp h
  exact isDigit_ascii (Nat.isDigit_of_mem_toDigits (by decide) (by decide) hc)

theorem all_isDigit_itoa : (itoa n).all isDigit :=
  all_eq_true.mpr fun _ => isDigit_of_mem_itoa

theorem itoa_head (hn : n ≠ 0) : ∃ b ds, itoa n = b :: ds ∧ b ≠ ascii '0' := by
  induction n using Nat.strongRecOn with
  | ind n ih =>
    by_cases hlt : n < 10
    · have hdigit : ∀ m < 10, m ≠ 0 → ascii m.digitChar ≠ ascii '0' := by decide
      exact ⟨_, _, by rw [itoa, Nat.toDigits_of_lt_base hlt]; rfl, hdigit n hlt hn⟩
    · obtain ⟨b, ds, hds, hb⟩ := ih (n / 10) (by omega) (by omega)
      refine ⟨b, ds ++ [ascii (n % 10).digitChar], ?_, hb⟩
      rw [itoa] at hds
      rw [itoa, Nat.toDigits_of_base_le (by decide) (by omega), map_append, hds]
      rfl

/-- Digits in front of digits count a power of ten each. -/
theorem natOfDigits_append (ds es : Bytes) :
    natOfDigits (ds ++ es) = natOfDigits ds * 10 ^ es.length + natOfDigits es := by
  have hacc : ∀ (es : Bytes) (n : Nat),
      es.foldl (fun n d => 10 * n + (d.toNat - 0x30)) n = n * 10 ^ es.length + natOfDigits es := by
    intro es
    induction es with
    | nil => intro n; simp [natOfDigits]
    | cons e es ih =>
      intro n
      have hcons : natOfDigits (e :: es) =
          (e.toNat - 0x30) * 10 ^ es.length + natOfDigits es := by
        show es.foldl _ (10 * 0 + (e.toNat - 0x30)) = _
        rw [ih, Nat.mul_zero, Nat.zero_add]
      rw [foldl_cons, ih, hcons, length_cons, pow_succ]
      ring
  rw [natOfDigits, foldl_append, hacc]
  rfl

theorem natOfDigits_itoa (n : Nat) : natOfDigits (itoa n) = n := by
  have hfold : ∀ (cs : List Char), (∀ c ∈ cs, c.isDigit) → ∀ k : Nat,
      (cs.map ascii).foldl (fun n d => 10 * n + (d.toNat - 0x30)) k =
        Nat.ofDigitChars 10 cs k := by
    intro cs
    induction cs with
    | nil => intro _ k; rfl
    | cons c cs ih =>
      intro hcs k
      rw [map_cons, foldl_cons, toNat_ascii (hcs c mem_cons_self),
        ih fun d hd => hcs d (mem_cons_of_mem c hd)]
      rfl
  rw [natOfDigits, itoa,
    hfold _ (fun c hc => Nat.isDigit_of_mem_toDigits (by decide) (by decide) hc),
    Nat.ofDigitChars_ten_toDigits]

/-- Numbers are read back. -/
theorem atoi_itoa (hn : n < 2 ^ 63) : atoi (itoa n) = some (n : Int) := by
  have hhead : ∀ b, isDigit b = false → (itoa n).head? ≠ some b := by
    intro b hb hhead
    have := isDigit_of_mem_itoa (mem_of_head? hhead)
    cases hb.symm.trans this
  have hminus := hhead 0x2D (by decide)
  have hplus := hhead 0x2B (by decide)
  unfold atoi
  simp only [hminus, hplus, or_self, if_false, itoa_ne_nil, all_isDigit_itoa, decide_false,
    Bool.not_true, Bool.or_self, Bool.false_eq_true, natOfDigits_itoa, hn, if_true]

end Zanskar.Go
