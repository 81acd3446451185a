import Zanskar.Go.Time
import Zanskar.Go.Float
import Mathlib.Data.List.DropRight

/-!
# Instants in text (`time.RFC3339Nano`)

An audit event is hashed with its time as text, so the text has to give the time
back. Years may be written with more than four digits or a sign, and the fraction of
the second without its trailing zeros; everything else has its width.

- `civil_injective` : a date names one day;
- `rfc3339Nano_injective` : the text names one nanosecond.
-/

namespace Zanskar.Go

open List

/-! ## Days -/

theorem yearOfEra_range {doe : Int} (h0 : 0 ≤ doe) (h1 : doe < 146097) :
    0 ≤ (doe - doe / 1460 + doe / 36524 - doe / 146096) / 365 ∧
      (doe - doe / 1460 + doe / 36524 - doe / 146096) / 365 ≤ 399 := by
  omega

theorem dayOfYear_range {doe yoe : Int} (h0 : 0 ≤ doe) (h1 : doe < 146097)
    (hyoe : yoe = (doe - doe / 1460 + doe / 36524 - doe / 146096) / 365) :
    0 ≤ doe - (365 * yoe + yoe / 4 - yoe / 100) ∧
      doe - (365 * yoe + yoe / 4 - yoe / 100) ≤ 366 := by
  have hfour : yoe / 4 ≤ doe / 1460 := by omega
  -- a century is over at the same day by the years as by the days
  have hmono : ∀ m, m ≤ doe → m - m / 1460 ≤ doe - doe / 1460 := fun m hm => by omega
  have hhundred : doe / 36524 - doe / 146096 ≤ yoe / 100 := by
    have hstart := hmono (doe / 36524 * 36524) (by omega)
    obtain ⟨hlo, hhi⟩ : 0 ≤ doe / 36524 ∧ doe / 36524 ≤ 4 := by omega
    generalize doe / 36524 = d at *
    interval_cases d <;> omega
  omega

/-- No two days have one date. -/
theorem civil_injective : Function.Injective civil := by
  intro d d' h
  simp only [civil, Prod.mk.injEq] at h
  obtain ⟨hyear, hmonth, hday⟩ := h
  generalize hera : (d + 719468) / 146097 = era at *
  generalize hera' : (d' + 719468) / 146097 = era' at *
  generalize hdoe : (d + 719468) % 146097 = doe at *
  generalize hdoe' : (d' + 719468) % 146097 = doe' at *
  have hrange : 0 ≤ doe ∧ doe < 146097 := by omega
  have hrange' : 0 ≤ doe' ∧ doe' < 146097 := by omega
  have hy := yearOfEra_range hrange.1 hrange.2
  have hy' := yearOfEra_range hrange'.1 hrange'.2
  have hd := dayOfYear_range hrange.1 hrange.2 rfl
  have hd' := dayOfYear_range hrange'.1 hrange'.2 rfl
  generalize (doe - doe / 1460 + doe / 36524 - doe / 146096) / 365 = yoe at *
  generalize (doe' - doe' / 1460 + doe' / 36524 - doe' / 146096) / 365 = yoe' at *
  generalize hdoy : doe - (365 * yoe + yoe / 4 - yoe / 100) = doy at *
  generalize hdoy' : doe' - (365 * yoe' + yoe' / 4 - yoe' / 100) = doy' at *
  have hmp : (5 * doy + 2) / 153 = (5 * doy' + 2) / 153 := by
    split at hmonth <;> split at hmonth <;> omega
  rw [hmonth] at hyear
  obtain ⟨rfl, rfl⟩ : yoe = yoe' ∧ era = era' := by omega
  obtain rfl : doy = doy' := by
    rw [hmp] at hday
    omega
  omega

/-! ## Digits -/

/-- A number with at least `width` digits. -/
def digits (width n : Nat) : List Char :=
  replicate (width - (Nat.toDigits 10 n).length) '0' ++ Nat.toDigits 10 n

variable {n width n' : Nat} {s s' : List Char}

theorem isDigit_of_mem_digits {c : Char} (h : c ∈ digits width n) : c.isDigit := by
  rcases mem_append.mp h with h | h
  · rw [eq_of_mem_replicate h]
    decide
  · exact Nat.isDigit_of_mem_toDigits (by decide) (by decide) h

theorem length_digits (hwidth : 0 < width) (hn : n < 10 ^ width) :
    (digits width n).length = width := by
  have hle := (Nat.length_toDigits_le_iff (by decide) hwidth).mpr hn
  rw [digits, length_append, length_replicate]
  omega

theorem natOfDigits_digits (width n : Nat) : natOfDigits ((digits width n).map ascii) = n := by
  rw [digits, map_append, map_replicate, natOfDigits_append, natOfDigits_zeros]
  show 0 * _ + natOfDigits (itoa n) = n
  rw [natOfDigits_itoa, Nat.zero_mul, Nat.zero_add]

theorem digits_injective (width : Nat) : Function.Injective (digits width) := fun m n h => by
  rw [← natOfDigits_digits width m, h, natOfDigits_digits]

/-- Digits end at the first character that is none. -/
theorem digits_append_inj {c c' : Char} (hc : c.isDigit = false) (hc' : c'.isDigit = false)
    (h : digits width n ++ c :: s = digits width n' ++ c' :: s') : n = n' ∧ c :: s = c' :: s' := by
  have htake : ∀ {n c} {s : List Char}, Char.isDigit c = false →
      (digits width n ++ c :: s).takeWhile Char.isDigit = digits width n := fun hc => by
    rw [takeWhile_append_of_pos fun c hc => isDigit_of_mem_digits hc,
      takeWhile_cons_of_neg (by simp [hc]), append_nil]
  have hdigits : digits width n = digits width n' := by
    rw [← htake hc, h, htake hc']
  refine ⟨digits_injective width hdigits, ?_⟩
  rw [hdigits] at h
  exact append_cancel_left h

theorem two_digits_append_inj (hn : n < 100) (hn' : n' < 100)
    (h : digits 2 n ++ s = digits 2 n' ++ s') : n = n' ∧ s = s' := by
  have hlen : (digits 2 n).length = (digits 2 n').length := by
    rw [length_digits (by decide) hn, length_digits (by decide) hn']
  obtain ⟨hdigits, hrest⟩ := append_inj h hlen
  exact ⟨digits_injective 2 hdigits, hrest⟩

/-! ## The text -/

/-- A year, which may be before the first. -/
def yearText (y : Int) : List Char := (if y < 0 then ['-'] else []) ++ digits 4 y.natAbs

/-- `.999999999`: the fraction of the second without its trailing zeros. -/
def nanoText (n : Nat) : List Char :=
  if n = 0 then [] else '.' :: (digits 9 n).rdropWhile (· = '0')

/-- `t.UTC().Format(time.RFC3339Nano)`. -/
def rfc3339Nano (t : Int) : List Char :=
  let seconds := t / 1000000000
  let (year, month, day) := civil (seconds / 86400)
  let clock := (seconds % 86400).toNat
  yearText year ++ '-' :: (digits 2 month.toNat ++ '-' :: (digits 2 day.toNat ++ 'T' ::
    (digits 2 (clock / 3600) ++ ':' :: (digits 2 (clock / 60 % 60) ++ ':' ::
      (digits 2 (clock % 60) ++ (nanoText (t % 1000000000).toNat ++ ['Z']))))))

example : rfc3339Nano 1700000000120000000 = "2023-11-14T22:13:20.12Z".toList := by decide +kernel

theorem nanoText_inj (hn : n < 10 ^ 9) (hn' : n' < 10 ^ 9)
    (h : nanoText n = nanoText n') : n = n' := by
  -- nine digits are what is written and zeros
  have hback : ∀ {n}, n < 10 ^ 9 → digits 9 n =
      (digits 9 n).rdropWhile (· = '0') ++
        replicate (9 - ((digits 9 n).rdropWhile (· = '0')).length) '0' := by
    intro n hn
    have hsplit : (digits 9 n).rdropWhile (· = '0') ++ (digits 9 n).rtakeWhile (· = '0') =
        digits 9 n := rdropWhile_append_rtakeWhile
    have hlen := congrArg length hsplit
    rw [length_append, length_digits (by decide) hn] at hlen
    have hzeros : (digits 9 n).rtakeWhile (· = '0') =
        replicate (9 - ((digits 9 n).rdropWhile (· = '0')).length) '0' :=
      eq_replicate_iff.mpr
        ⟨by omega, fun c hc => by simpa using mem_rtakeWhile_imp hc⟩
    rw [← hzeros, hsplit]
  unfold nanoText at h
  split at h <;> split at h
  · omega
  · cases h
  · cases h
  · refine digits_injective 9 ?_
    rw [hback hn, hback hn', (cons.inj h).2]

theorem yearText_append_inj {y y' : Int}
    (h : yearText y ++ '-' :: s = yearText y' ++ '-' :: s') : y = y' ∧ s = s' := by
  have hhead : ∀ (n : Nat) (s : List Char), ∃ c rest,
      digits 4 n ++ '-' :: s = c :: rest ∧ c ≠ '-' := by
    intro n s
    obtain ⟨c, rest, hdigits⟩ := exists_cons_of_ne_nil (l := digits 4 n)
      (by simp [digits, Nat.toDigits_ne_nil])
    refine ⟨c, rest ++ '-' :: s, by rw [hdigits, cons_append], fun hc => ?_⟩
    have hdigit := isDigit_of_mem_digits (c := c) (by rw [hdigits]; exact mem_cons_self)
    rw [hc] at hdigit
    exact absurd hdigit (by decide)
  unfold yearText at h
  rw [append_assoc, append_assoc] at h
  obtain ⟨c, rest, hc, hne⟩ := hhead y.natAbs s
  obtain ⟨c', rest', hc', hne'⟩ := hhead y'.natAbs s'
  split at h <;> split at h
  · obtain ⟨habs, hrest⟩ := digits_append_inj (by decide) (by decide) (cons.inj h).2
    exact ⟨by omega, (cons.inj hrest).2⟩
  · rw [nil_append, hc'] at h
    exact absurd (cons.inj h).1.symm hne'
  · rw [nil_append, hc] at h
    exact absurd (cons.inj h).1 hne
  · obtain ⟨habs, hrest⟩ := digits_append_inj (by decide) (by decide) h
    exact ⟨by omega, (cons.inj hrest).2⟩

theorem civil_range (d : Int) :
    1 ≤ (civil d).2.1 ∧ (civil d).2.1 ≤ 12 ∧ 1 ≤ (civil d).2.2 ∧ (civil d).2.2 ≤ 31 := by
  simp only [civil]
  have hrange : 0 ≤ (d + 719468) % 146097 ∧ (d + 719468) % 146097 < 146097 := by omega
  generalize (d + 719468) % 146097 = doe at *
  have hd := dayOfYear_range hrange.1 hrange.2 rfl
  generalize doe - (365 * ((doe - doe / 1460 + doe / 36524 - doe / 146096) / 365) +
    (doe - doe / 1460 + doe / 36524 - doe / 146096) / 365 / 4 -
    (doe - doe / 1460 + doe / 36524 - doe / 146096) / 365 / 100) = doy at *
  refine ⟨?_, ?_, ?_, ?_⟩
  · split <;> omega
  · split <;> omega
  · omega
  · omega

/-- No two instants are written alike. -/
theorem rfc3339Nano_injective : Function.Injective rfc3339Nano := by
  intro t t' h
  simp only [rfc3339Nano] at h
  have hrange := civil_range (t / 1000000000 / 86400)
  have hrange' := civil_range (t' / 1000000000 / 86400)
  generalize hdate : civil (t / 1000000000 / 86400) = date at h hrange
  generalize hdate' : civil (t' / 1000000000 / 86400) = date' at h hrange'
  obtain ⟨year, month, day⟩ := date
  obtain ⟨year', month', day'⟩ := date'
  dsimp only at h hrange hrange'
  obtain ⟨hyear, h⟩ := yearText_append_inj h
  obtain ⟨hmonth, h⟩ := two_digits_append_inj (by omega) (by omega) h
  obtain ⟨hday, h⟩ := two_digits_append_inj (by omega) (by omega) (cons.inj h).2
  obtain ⟨hhour, h⟩ := two_digits_append_inj (by omega) (by omega) (cons.inj h).2
  obtain ⟨hminute, h⟩ := two_digits_append_inj (by omega) (by omega) (cons.inj h).2
  obtain ⟨hsecond, h⟩ := two_digits_append_inj (by omega) (by omega) (cons.inj h).2
  have hnano := nanoText_inj (by omega) (by omega) (append_cancel_right h)
  obtain ⟨rfl, rfl, rfl⟩ : year = year' ∧ month = month' ∧ day = day' := ⟨hyear, by omega, by omega⟩
  have hdays := civil_injective (hdate.trans hdate'.symm)
  omega

end Zanskar.Go
