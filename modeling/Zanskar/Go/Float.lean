import Zanskar.Go.Strconv
import Mathlib.Data.Nat.Log

/-!
# `float64` as decimal text is read into it and written from it

`encoding/json` reads a number of unknown type into a `float64`
(`strconv.ParseFloat`: the nearest one, ties to even, an error above the largest)
and writes a `float64` with as few digits as give it back (`strconv.AppendFloat`
with precision -1). A magnitude is a rational number here; `roundMag` rounds it,
and a `Float64` is a sign and a magnitude that rounding leaves alone.

- `roundMag_of_roundMag` : rounding gives such magnitudes;
- `parseFloat_floatText` : the text a `float64` is written as is read back as that
  `float64`, negative zero included.
-/

namespace Zanskar.Go

open List

/-! ## Rounding -/

/-- The exponent of a positive number in base `b`: the number lies between
`b ^ exponent b q` and `b` times that. -/
def exponent (b : Nat) (q : ℚ) : Int :=
  let l := (Nat.log b q.num.natAbs : Int) - Nat.log b q.den
  if (b : ℚ) ^ l ≤ q then l else l - 1

/-- To the nearest integer, and to the even one of two. -/
def roundEven (x : ℚ) : Int :=
  if x - ⌊x⌋ < 1 / 2 then ⌊x⌋
  else if 1 / 2 < x - ⌊x⌋ then ⌊x⌋ + 1
  else ⌊x⌋ + ⌊x⌋ % 2

/-- The exponent of the last bit of the `float64`s near a number: 53 bits, fewer
below the smallest normal one. -/
def lastBit (q : ℚ) : Int := max (exponent 2 q - 52) (-1074)

/-- The `float64` nearest to a number that is not negative, `none` above the
largest. -/
def roundMag (q : ℚ) : Option ℚ :=
  if q = 0 then some 0
  else
    let v : ℚ := roundEven (q / 2 ^ lastBit q) * 2 ^ lastBit q
    if v < 2 ^ 1024 then some v else none

/-- The largest power of the base up to a number. -/
theorem exponent_spec {b : Nat} (hb : 1 < b) {q : ℚ} (hq : 0 < q) :
    (b : ℚ) ^ exponent b q ≤ q ∧ q < (b : ℚ) ^ (exponent b q + 1) := by
  have hbpos : (0 : ℚ) < b := by exact_mod_cast (by omega : 0 < b)
  have hnum : q.num.natAbs ≠ 0 := by
    have := Rat.num_pos.mpr hq
    omega
  have hden : (0 : ℚ) < q.den := by exact_mod_cast q.den_pos
  have hmul : (q.num.natAbs : ℚ) = q * q.den := by
    rw [Rat.mul_den_eq_num, Nat.cast_natAbs, abs_of_pos (Rat.num_pos.mpr hq)]
  -- numerator and denominator lie between neighbouring powers of the base
  have hbelow : ∀ {n : Nat}, n ≠ 0 → (b : ℚ) ^ (Nat.log b n : Int) ≤ n := fun hn => by
    rw [zpow_natCast]
    exact_mod_cast Nat.pow_log_le_self b hn
  have habove : ∀ n : Nat, (n : ℚ) < (b : ℚ) ^ ((Nat.log b n : Int) + 1) := fun n => by
    rw [← Nat.cast_succ, zpow_natCast]
    exact_mod_cast Nat.lt_pow_succ_log_self hb n
  have hnlo := hbelow hnum
  have hnhi := habove q.num.natAbs
  have hdlo := hbelow q.den_ne_zero
  have hdhi := habove q.den
  simp only [exponent]
  rw [hmul] at hnlo hnhi
  generalize (Nat.log b q.num.natAbs : Int) = m, (Nat.log b q.den : Int) = n at *
  have hlo : (b : ℚ) ^ (m - n - 1) ≤ q := by
    refine le_of_mul_le_mul_right ?_ hden
    calc (b : ℚ) ^ (m - n - 1) * q.den ≤ (b : ℚ) ^ (m - n - 1) * (b : ℚ) ^ (n + 1) := by
          gcongr
      _ = (b : ℚ) ^ m := by
          rw [← zpow_add₀ hbpos.ne']
          congr 1
          ring
      _ ≤ q * q.den := hnlo
  have hhi : q < (b : ℚ) ^ (m - n + 1) := by
    refine lt_of_mul_lt_mul_right ?_ hden.le
    calc q * q.den < (b : ℚ) ^ (m + 1) := hnhi
      _ = (b : ℚ) ^ (m - n + 1) * (b : ℚ) ^ n := by
          rw [← zpow_add₀ hbpos.ne']
          congr 1
          ring
      _ ≤ (b : ℚ) ^ (m - n + 1) * q.den := by
          gcongr
  split
  · rename_i hle
    exact ⟨hle, hhi⟩
  · rename_i hlt
    rw [sub_add_cancel]
    exact ⟨hlo, not_le.mp hlt⟩

theorem roundEven_intCast (n : Int) : roundEven n = n := by
  simp [roundEven]

theorem roundEven_le {x : ℚ} {n : Int} (h : x < n) : roundEven x ≤ n := by
  have hfloor : ⌊x⌋ < n := Int.floor_lt.mpr h
  unfold roundEven
  split
  · omega
  split <;> omega

theorem roundEven_nonneg {x : ℚ} (h : 0 ≤ x) : 0 ≤ roundEven x := by
  have hfloor : 0 ≤ ⌊x⌋ := Int.floor_nonneg.mpr h
  unfold roundEven
  split
  · omega
  split <;> omega

/-- A whole number of units of its last bit is left alone. -/
theorem roundMag_of_grid {v : ℚ} {m : Int} (hm : v = m * 2 ^ lastBit v) (hv : v < 2 ^ 1024) :
    roundMag v = some v := by
  unfold roundMag
  split
  · rename_i h0
    rw [h0]
  · have hdiv : v / 2 ^ lastBit v = m := by
      rw [div_eq_iff (by positivity)]
      exact hm
    simp [hdiv, roundEven_intCast, ← hm, if_pos hv]

theorem mul_zpow_of_le (m : Int) {d e : Int} (h : d ≤ e) :
    ∃ n : Int, (m : ℚ) * 2 ^ e = n * 2 ^ d := by
  refine ⟨m * 2 ^ (e - d).toNat, ?_⟩
  have hcast : (2 : ℚ) ^ (e - d).toNat = 2 ^ (e - d) := by
    rw [← zpow_natCast, Int.toNat_of_nonneg (by omega)]
  push_cast
  rw [hcast, mul_assoc, ← zpow_add₀ two_ne_zero, sub_add_cancel]

/-- Rounding up may carry into the next power of two, and the result is on the grid
of that power too. -/
theorem roundMag_of_roundMag {q v : ℚ} (hq : 0 ≤ q) (h : roundMag q = some v) :
    0 ≤ v ∧ roundMag v = some v := by
  unfold roundMag at h
  split at h
  · obtain rfl : (0 : ℚ) = v := by simpa using h
    exact ⟨le_rfl, by simp [roundMag]⟩
  rename_i hne
  have hpos : 0 < q := lt_of_le_of_ne hq (Ne.symm hne)
  simp only [Option.ite_none_right_eq_some, Option.some.injEq] at h
  obtain ⟨hlt, hval⟩ := h
  rw [hval] at hlt
  have hm0 : 0 ≤ roundEven (q / 2 ^ lastBit q) := roundEven_nonneg (by positivity)
  have hm53 : roundEven (q / 2 ^ lastBit q) ≤ 2 ^ 53 := by
    refine roundEven_le ?_
    rw [div_lt_iff₀ (by positivity)]
    calc q < 2 ^ (exponent 2 q + 1) := (exponent_spec one_lt_two hpos).2
      _ ≤ (2 : ℚ) ^ (53 + lastBit q) :=
          zpow_le_zpow_right₀ one_le_two (by unfold lastBit; omega)
      _ = ((2 ^ 53 : Int) : ℚ) * 2 ^ lastBit q := by
          rw [zpow_add₀ two_ne_zero]
          norm_num
  have hbit : -1074 ≤ lastBit q := le_max_right _ _
  generalize roundEven (q / 2 ^ lastBit q) = m at hval hm0 hm53
  generalize lastBit q = e at hval hbit
  subst hval
  have hv0 : (0 : ℚ) ≤ m * 2 ^ e := by
    have : (0 : ℚ) ≤ m := by exact_mod_cast hm0
    positivity
  refine ⟨hv0, ?_⟩
  rcases hv0.eq_or_lt with h0 | hv
  · rw [← h0]
    simp [roundMag]
  have hlow := (exponent_spec one_lt_two hv).1
  rcases hm53.lt_or_eq with hm | hm
  · -- no carry: the last bit of the result is not above the last bit it was rounded to
    have hexp : exponent 2 ((m : ℚ) * 2 ^ e) < 53 + e := by
      refine (zpow_lt_zpow_iff_right₀ (one_lt_two : (1 : ℚ) < 2)).mp ?_
      calc (2 : ℚ) ^ exponent 2 ((m : ℚ) * 2 ^ e) ≤ m * 2 ^ e := hlow
        _ < 2 ^ 53 * 2 ^ e := by
            gcongr
            exact_mod_cast hm
        _ = 2 ^ (53 + e) := by
            rw [zpow_add₀ two_ne_zero]
            norm_num
    obtain ⟨n, hn⟩ := mul_zpow_of_le m (d := lastBit ((m : ℚ) * 2 ^ e)) (e := e)
      (by unfold lastBit; omega)
    exact roundMag_of_grid hn hlt
  · -- the carry: the result is a power of two
    have hpow : (m : ℚ) * 2 ^ e = 2 ^ (53 + e) := by
      rw [hm, zpow_add₀ two_ne_zero]
      norm_num
    have hexp : exponent 2 ((m : ℚ) * 2 ^ e) ≤ 53 + e := by
      refine (zpow_le_zpow_iff_right₀ (one_lt_two : (1 : ℚ) < 2)).mp ?_
      rw [← hpow]
      exact hlow
    obtain ⟨n, hn⟩ := mul_zpow_of_le 1 (d := lastBit ((m : ℚ) * 2 ^ e)) (e := 53 + e)
      (by unfold lastBit; omega)
    have hgrid : (m : ℚ) * 2 ^ e = n * 2 ^ lastBit ((m : ℚ) * 2 ^ e) := by
      rw [← hn, hpow, Int.cast_one, one_mul]
    exact roundMag_of_grid hgrid hlt

/-! ## Numbers and their text -/

/-- A finite `float64`. -/
@[ext]
structure Float64 where
  neg : Bool
  mag : ℚ
  nonneg : 0 ≤ mag
  rounded : roundMag mag = some mag

/-- A number in decimal text: the digits before and after the point, and the sign
and digits of the exponent. -/
@[ext]
structure NumText where
  neg : Bool
  int : Bytes
  frac : Bytes
  exp : Option (Bool × Bytes)
deriving DecidableEq

namespace NumText

/-- The exponent written after the `e`. -/
def scale (t : NumText) : Int :=
  match t.exp with
  | none => 0
  | some (neg, ds) => if neg then -(natOfDigits ds : Int) else natOfDigits ds

/-- The number written, without its sign. -/
def mag (t : NumText) : ℚ :=
  natOfDigits (t.int ++ t.frac) * 10 ^ (t.scale - t.frac.length)

theorem mag_nonneg (t : NumText) : 0 ≤ t.mag := by
  unfold mag
  positivity

end NumText

/-- `strconv.ParseFloat`; `none` is its range error. -/
def parseFloat (t : NumText) : Option Float64 :=
  match h : roundMag t.mag with
  | none => none
  | some v =>
    have hv := roundMag_of_roundMag t.mag_nonneg h
    some ⟨t.neg, v, hv.1, hv.2⟩

variable {f : Float64} {neg : Bool}

theorem parseFloat_eq_some {t : NumText} :
    parseFloat t = some f ↔ t.neg = f.neg ∧ roundMag t.mag = some f.mag := by
  unfold parseFloat
  split
  · rename_i h
    simp [h]
  · rename_i v h
    simp [Float64.ext_iff, h]

/-- The two numbers of `n` digits around a number, as digits and a power of ten, the
nearer one first. -/
def around (q : ℚ) (n : Nat) : List (Nat × Int) :=
  let k := exponent 10 q - n + 1
  let lo := ⌊q / 10 ^ k⌋.toNat
  -- one up from nines is a one and zeros
  let up := if lo + 1 = 10 ^ n then (1, k + n) else (lo + 1, k)
  if roundEven (q / 10 ^ k) = lo then [(lo, k), up] else [up, (lo, k)]

/-- The fewest digits that are read back as the number, and of these the nearest to
it. Seventeen are always enough; the last line gives the number in full. -/
def shortest (q : ℚ) : Nat × Int :=
  let found := ((range' 1 17).flatMap (around q)).find? fun (d, k) =>
    roundMag (d * 10 ^ k) = some q
  found.getD ((q * 10 ^ 1074).num.toNat, -1074)

/-- `1e-6` as a `float64`. -/
def micro : ℚ := 4722366482869645 / 2 ^ 72

example : roundMag (1 / 10 ^ 6) = some micro := by decide +kernel

/-- `%e` with the digits of `d`, for `d * 10 ^ k`. -/
def sciText (neg : Bool) (d : Nat) (k : Int) : NumText :=
  let point := (itoa d).length + k
  { neg, int := (itoa d).take 1, frac := (itoa d).drop 1,
    exp := some (decide (point < 1), itoa (point - 1).natAbs) }

/-- `%f` with the digits of `d`, for `d * 10 ^ k`. -/
def fixedText (neg : Bool) (d : Nat) (k : Int) : NumText :=
  let point := (itoa d).length + k
  let zeros := fun n => replicate n (ascii '0')
  if 0 ≤ k then { neg, int := itoa d ++ zeros k.toNat, frac := [], exp := none }
  else if 0 < point then
    { neg, int := (itoa d).take point.toNat, frac := (itoa d).drop point.toNat, exp := none }
  else { neg, int := [ascii '0'], frac := zeros (-point).toNat ++ itoa d, exp := none }

/-- The text of a number, as `encoding/json` has `strconv.AppendFloat` write it. -/
def floatText (f : Float64) : NumText :=
  if f.mag = 0 then { neg := f.neg, int := [ascii '0'], frac := [], exp := none }
  else
    let (d, k) := shortest f.mag
    if f.mag < micro ∨ 10 ^ 21 ≤ f.mag then sciText f.neg d k else fixedText f.neg d k

variable {q : ℚ}

/-- A `float64` has at most 1074 decimals. -/
theorem exists_nat_of_rounded (hq : 0 ≤ q) (h : roundMag q = some q) :
    ∃ n : Nat, q * 10 ^ 1074 = n := by
  unfold roundMag at h
  split at h
  · rename_i h0
    exact ⟨0, by simp [h0]⟩
  simp only [Option.ite_none_right_eq_some, Option.some.injEq] at h
  obtain ⟨-, hval⟩ := h
  have hm0 : 0 ≤ roundEven (q / 2 ^ lastBit q) := roundEven_nonneg (by positivity)
  obtain ⟨m, hm⟩ := Int.eq_ofNat_of_zero_le hm0
  have hbit : -1074 ≤ lastBit q := le_max_right _ _
  refine ⟨m * (2 ^ (lastBit q + 1074).toNat * 5 ^ 1074), ?_⟩
  have hcast : (2 : ℚ) ^ (lastBit q + 1074).toNat = 2 ^ (lastBit q + 1074) := by
    rw [← zpow_natCast, Int.toNat_of_nonneg (by omega)]
  have hten : (10 : ℚ) ^ 1074 = 2 ^ (1074 : Int) * 5 ^ 1074 := by
    rw [zpow_ofNat, ← mul_pow]
    norm_num
  rw [hm, Int.cast_natCast] at hval
  simp only [Nat.cast_mul, Nat.cast_pow, Nat.cast_ofNat]
  rw [hcast, zpow_add₀ two_ne_zero, hten, mul_assoc, ← mul_assoc (m : ℚ), hval]

theorem roundMag_shortest (hq : 0 ≤ q) (h : roundMag q = some q) :
    roundMag ((shortest q).1 * 10 ^ (shortest q).2) = some q := by
  simp only [shortest]
  cases hfound : ((range' 1 17).flatMap (around q)).find? fun (d, k) =>
      roundMag (d * 10 ^ k) = some q with
  | some c =>
    have hback := find?_some hfound
    exact of_decide_eq_true hback
  | none =>
    obtain ⟨n, hn⟩ := exists_nat_of_rounded hq h
    have hback : (n : ℚ) * 10 ^ (-1074 : Int) = q := by
      rw [← hn, zpow_neg, zpow_ofNat, mul_assoc, mul_inv_cancel₀ (by positivity), mul_one]
    simpa only [Option.getD_none, hn, Rat.num_natCast, Int.toNat_natCast, hback] using h

theorem natOfDigits_zeros (n : Nat) : natOfDigits (replicate n (ascii '0')) = 0 := by
  induction n with
  | zero => rfl
  | succ n ih =>
    rw [replicate_succ, ← singleton_append, natOfDigits_append, ih]
    simp [natOfDigits, ascii]

theorem mag_sciText (d : Nat) (k : Int) : (sciText neg d k).mag = d * 10 ^ k := by
  have hlen : 0 < (itoa d).length := length_pos_iff.mpr (itoa_ne_nil d)
  have hscale : (sciText neg d k).scale = (itoa d).length + k - 1 := by
    simp only [NumText.scale, sciText, natOfDigits_itoa, decide_eq_true_eq]
    split <;> omega
  have hexp : (sciText neg d k).scale - ((itoa d).drop 1).length = k := by
    rw [hscale, length_drop]
    omega
  rw [NumText.mag]
  show (natOfDigits ((itoa d).take 1 ++ (itoa d).drop 1) : ℚ) *
    10 ^ ((sciText neg d k).scale - ((itoa d).drop 1).length) = _
  rw [take_append_drop, natOfDigits_itoa, hexp]

theorem mag_fixedText (d : Nat) (k : Int) : (fixedText neg d k).mag = d * 10 ^ k := by
  simp only [fixedText]
  split
  · -- the zeros up to the point
    rename_i hk
    have hcast : (10 : ℚ) ^ k.toNat = 10 ^ k := by
      rw [← zpow_natCast, Int.toNat_of_nonneg hk]
    simp only [NumText.mag, NumText.scale, append_nil, length_nil, natOfDigits_append,
      natOfDigits_itoa, natOfDigits_zeros, length_replicate]
    push_cast
    rw [hcast]
    simp
  · rename_i hk
    split
    · -- the point among the digits
      rename_i hpoint
      have hexp : (0 : Int) - ((itoa d).drop ((itoa d).length + k).toNat).length = k := by
        rw [length_drop]
        omega
      simp only [NumText.mag, NumText.scale, take_append_drop, natOfDigits_itoa, hexp]
    · -- the zeros after the point
      rename_i hpoint
      have hexp : (0 : Int) - (replicate (-((itoa d).length + k)).toNat (ascii '0') ++
          itoa d).length = k := by
        rw [length_append, length_replicate]
        omega
      have hval : natOfDigits ([ascii '0'] ++
          (replicate (-((itoa d).length + k)).toNat (ascii '0') ++ itoa d)) = d := by
        rw [natOfDigits_append, natOfDigits_append, natOfDigits_zeros, natOfDigits_itoa]
        simp [natOfDigits, ascii]
      simp only [NumText.mag, NumText.scale, hexp, hval]

theorem neg_floatText : (floatText f).neg = f.neg := by
  unfold floatText
  split
  · rfl
  · dsimp only
    split
    · rfl
    · unfold fixedText
      dsimp only
      split
      · rfl
      split <;> rfl

/-- What is written for a `float64` is read as that `float64`. -/
theorem parseFloat_floatText : parseFloat (floatText f) = some f := by
  refine parseFloat_eq_some.mpr ⟨neg_floatText, ?_⟩
  by_cases h0 : f.mag = 0
  · have hmag : (floatText f).mag = 0 := by
      rw [floatText, if_pos h0]
      simp [NumText.mag, natOfDigits, ascii]
    rw [hmag, h0]
    simp [roundMag]
  · have hmag : (floatText f).mag = (shortest f.mag).1 * 10 ^ (shortest f.mag).2 := by
      rw [floatText, if_neg h0]
      dsimp only
      split
      · exact mag_sciText _ _
      · exact mag_fixedText _ _
    rw [hmag]
    exact roundMag_shortest f.nonneg f.rounded

/-! ## The texts of numbers are JSON numbers -/

/-- The grammar of a JSON number: digits, no zero in front of another digit before the
point, and an exponent that is not empty. -/
structure NumText.WellFormed (t : NumText) : Prop where
  int_digits : ∀ b ∈ t.int, isDigit b = true
  int_head : t.int = [ascii '0'] ∨ ∃ b ds, t.int = b :: ds ∧ b ≠ ascii '0'
  frac_digits : ∀ b ∈ t.frac, isDigit b = true
  exp_digits : ∀ neg ds, t.exp = some (neg, ds) → ds ≠ [] ∧ ∀ b ∈ ds, isDigit b = true

theorem shortest_ne_zero (hq : 0 ≤ q) (h : roundMag q = some q) (h0 : q ≠ 0) :
    (shortest q).1 ≠ 0 := by
  intro hd
  have hback := roundMag_shortest hq h
  rw [hd] at hback
  exact h0 (by simpa [roundMag] using hback.symm)

theorem wellFormed_sciText {d : Nat} (hd : d ≠ 0) (k : Int) : (sciText neg d k).WellFormed where
  int_digits b hb := isDigit_of_mem_itoa (mem_of_mem_take hb)
  int_head := by
    obtain ⟨b, ds, hds, hb⟩ := itoa_head hd
    exact .inr ⟨b, [], by simp [sciText, hds], hb⟩
  frac_digits b hb := isDigit_of_mem_itoa (mem_of_mem_drop hb)
  exp_digits _ ds hds := by
    obtain ⟨-, rfl⟩ : _ ∧ itoa _ = ds := by simpa [sciText] using hds
    exact ⟨itoa_ne_nil _, fun _ => isDigit_of_mem_itoa⟩

theorem isDigit_of_mem_zeros {n : Nat} {b : UInt8} (h : b ∈ replicate n (ascii '0')) :
    isDigit b := by
  rw [eq_of_mem_replicate h]
  decide

theorem wellFormed_fixedText {d : Nat} (hd : d ≠ 0) (k : Int) : (fixedText neg d k).WellFormed := by
  obtain ⟨b, ds, hds, hb⟩ := itoa_head hd
  unfold fixedText
  dsimp only
  split
  · exact
      { int_digits := fun c hc => (mem_append.mp hc).elim isDigit_of_mem_itoa
          isDigit_of_mem_zeros
        int_head := .inr ⟨b, ds ++ replicate k.toNat (ascii '0'), by rw [hds]; rfl, hb⟩
        frac_digits := by simp
        exp_digits := by simp }
  split
  · rename_i hpoint
    obtain ⟨n, hn⟩ : ∃ n, ((itoa d).length + k).toNat = n + 1 :=
      Nat.exists_eq_succ_of_ne_zero (by omega)
    exact
      { int_digits := fun c hc => isDigit_of_mem_itoa (mem_of_mem_take hc)
        int_head := .inr ⟨b, ds.take n, by rw [hn, hds]; rfl, hb⟩
        frac_digits := fun c hc => isDigit_of_mem_itoa (mem_of_mem_drop hc)
        exp_digits := by simp }
  · exact
      { int_digits := by simp [isDigit, ascii]
        int_head := .inl rfl
        frac_digits := fun c hc => (mem_append.mp hc).elim isDigit_of_mem_zeros
          isDigit_of_mem_itoa
        exp_digits := by simp }

theorem wellFormed_floatText (f : Float64) : (floatText f).WellFormed := by
  unfold floatText
  split
  · exact
      { int_digits := by simp [isDigit, ascii]
        int_head := .inl rfl
        frac_digits := by simp
        exp_digits := by simp }
  · rename_i h0
    have hd := shortest_ne_zero f.nonneg f.rounded h0
    dsimp only
    split
    · exact wellFormed_sciText hd _
    · exact wellFormed_fixedText hd _

end Zanskar.Go
