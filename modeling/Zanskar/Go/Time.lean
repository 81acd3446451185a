import Mathlib.Data.Int.Order.Basic
import Mathlib.Tactic

/-!
# Instants and durations of the Go runtime

Instants and durations are integers of nanoseconds, instants of UTC. An instant
is unbounded here (`time.Time` keeps seconds in 64 bits and does not wrap in any
year a clock shows), but what is made by multiplying is not:
`time.Duration(m) * time.Minute` and `AddDate` are 64-bit arithmetic, and wrap.
`minutes` and `addDays` keep the wrap, so that every fact about a term says for
which minutes or days it holds.

- `minutes_eq` : below 153 722 867 minutes nothing wraps;
- `minutes_eq_zero_iff` : the wrapped duration is zero exactly at the multiples
  of `2 ^ 53` minutes.

Storage truncates instants to the microsecond (`timeArg`), and compares the
truncated values.
-/

namespace Zanskar.Go

/-- Reduction to the range of an `int64`. -/
def wrap64 (x : Int) : Int := Int.bmod x (2 ^ 64)

theorem wrap64_eq {x : Int} (hlo : -2 ^ 63 ≤ x) (hhi : x < 2 ^ 63) : wrap64 x = x :=
  Int.bmod_eq_of_le (by omega) (by omega)

/-- `time.Minute`. -/
def minute : Int := 60000000000

/-- `time.Duration(m) * time.Minute`. -/
def minutes (m : Int) : Int := wrap64 (m * minute)

variable {m : Int}

/-- Where the product fits an `int64` it is exact. -/
theorem minutes_eq (hlo : 0 ≤ m) (hhi : m ≤ 153722867) : minutes m = m * minute := by
  unfold minutes wrap64 minute
  rw [Int.bmod_def]
  push_cast
  split_ifs <;> omega

theorem minutes_le (hlo : 0 ≤ m) : minutes m ≤ m * minute := by
  unfold minutes wrap64 minute
  rw [Int.bmod_def]
  push_cast
  split_ifs <;> omega

/-- `time.Minute` is `2 ^ 11` times an odd number, so the product vanishes
modulo `2 ^ 64` exactly at the multiples of `2 ^ 53`. -/
theorem minutes_eq_zero_iff : minutes m = 0 ↔ 2 ^ 53 ∣ m := by
  have hodd : IsCoprime ((2 : Int) ^ 53) 29296875 := by
    rw [Int.isCoprime_iff_gcd_eq_one]
    decide
  have hdvd : minutes m = 0 ↔ (2 : Int) ^ 64 ∣ m * minute := by
    unfold minutes wrap64
    rw [← Int.dvd_iff_bmod_eq_zero]
    norm_cast
  have hfactor : m * minute = 2 ^ 11 * (m * 29296875) := by
    unfold minute
    ring
  rw [hdvd, hfactor, show (2 : Int) ^ 64 = 2 ^ 11 * 2 ^ 53 from by norm_num,
    mul_dvd_mul_iff_left (by norm_num)]
  exact ⟨hodd.dvd_of_dvd_mul_right, fun h => h.mul_right _⟩

theorem minutes_ne_zero (hlo : 1 ≤ m) (hhi : m < 2 ^ 53) : minutes m ≠ 0 := by
  rw [Ne, minutes_eq_zero_iff]
  rintro ⟨k, rfl⟩
  omega

theorem minutes_le_minutes {n : Int} (hm : 0 ≤ m) (hmn : m ≤ n)
    (hn : n ≤ 153722867) : minutes m ≤ minutes n := by
  rw [minutes_eq hm (by omega), minutes_eq (by omega) hn]
  unfold minute
  omega

/-- Seconds from the year 1, where a `time.Time` starts to count, to 1970. -/
def unixToInternal : Int := 62135596800

/-- `t.AddDate(0, 0, days)` of a UTC time: the fraction stays, the seconds wrap. -/
def addDays (t days : Int) : Int :=
  (wrap64 (t / 1000000000 + unixToInternal + days * 86400) - unixToInternal) * 1000000000 +
    t % 1000000000

/-- The first instant of the year 1, the zero `time.Time`. -/
def firstTime : Int := -unixToInternal * 1000000000

/-- The last instant a `time.Time` has. -/
def lastTime : Int := (2 ^ 63 - unixToInternal) * 1000000000 - 1

/-- Nanoseconds of a day. -/
def day : Int := 86400000000000

/-- Where the seconds fit, nothing wraps. -/
theorem addDays_eq {t days : Int} (hlo : firstTime - 2 ^ 63 * 1000000000 ≤ t + days * day)
    (hhi : t + days * day ≤ lastTime) : addDays t days = t + days * day := by
  unfold firstTime lastTime day unixToInternal at *
  unfold addDays unixToInternal
  rw [wrap64_eq (by omega) (by omega)]
  omega

/-- The stored form of an instant: truncated to the microsecond. Stored values
and bounds both go through it, so comparing them compares times. -/
def timeArg (t : Int) : Int := t / 1000 * 1000

/-! ## Writing an instant -/

/-- The date of a day counted from 1970-01-01, as year, month and day. Years run
from March here, so that the leap day ends one. -/
def civil (days : Int) : Int × Int × Int :=
  let z := days + 719468
  let era := z / 146097
  let doe := z % 146097
  let yoe := (doe - doe / 1460 + doe / 36524 - doe / 146096) / 365
  let doy := doe - (365 * yoe + yoe / 4 - yoe / 100)
  let mp := (5 * doy + 2) / 153
  let month := if mp < 10 then mp + 3 else mp - 9
  (yoe + era * 400 + (if month ≤ 2 then 1 else 0), month, doy - (153 * mp + 2) / 5 + 1)

/-- A number written with at least `width` digits. -/
def padded (width : Nat) (n : Int) : String :=
  let digits := toString n.natAbs
  (if n < 0 then "-" else "") ++
    String.ofList (List.replicate (width - digits.length) '0') ++ digits

/-- `t.UTC().Format(time.RFC3339)`. -/
def rfc3339 (t : Int) : String :=
  let seconds := t / 1000000000
  let (year, month, day) := civil (seconds / 86400)
  let clock := seconds % 86400
  padded 4 year ++ "-" ++ padded 2 month ++ "-" ++ padded 2 day ++ "T" ++
    padded 2 (clock / 3600) ++ ":" ++ padded 2 (clock / 60 % 60) ++ ":" ++
    padded 2 (clock % 60) ++ "Z"

end Zanskar.Go
