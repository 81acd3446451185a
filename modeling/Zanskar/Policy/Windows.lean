import Zanskar.Policy.Validate

/-!
# When a time window is open (`internal/policy/policy.go`)

A window lists days and two clocks. What it is for is a set of minutes of the
week: a span for every listed day, from the first clock up to the second, into
the next day when the second comes first (`InSpan`). `open` compares clocks and
days instead, and the week's end is a matter of its day before
(`open_iff_inSpan`).

A clock is meant as two digits, a colon and two digits (`HHMM`). `parseClock` leaves
the reading to `fmt.Sscanf`, which takes blanks and a sign before a number, any count
of digits, and whatever follows the second (`Numeral`); beside it only the length is
asked, so a clock may be five bytes of another shape (`parseClock_iff_hhmm`).
-/

namespace Zanskar

open Go Lib List

/-! ## The spans -/

/-- The minute of the week a wall clock shows, from the start of Sunday. -/
def WallClock.minuteOfWeek (c : WallClock) : Int := c.weekday * 1440 + (c.hour * 60 + c.minute)

/-- A minute of the week lies in the span `[start, stop)` that begins on day `d`. A
span that ends before its start runs into the next day; equal ends are the whole
day. The week is a cycle. -/
def InSpan (start stop : Int) (d : Fin 7) (minute : Int) : Prop :=
  ∃ first length : Int,
    (first, length) = (if start = stop then (0, 1440) else if start < stop then
      (start, stop - start) else (start, stop + 1440 - start)) ∧
    ∃ k, 0 ≤ k ∧ k < length ∧ (d * 1440 + first + k) % (7 * 1440) = minute

/-- The window lists the day. -/
def TimeWindow.Lists (w : TimeWindow) (d : Fin 7) : Prop :=
  ∃ name ∈ w.days, dayIndex name = some d

variable {zones : Zones} {w v : TimeWindow} {s : String} {n start stop : Int}

theorem parseClock_eq_some : parseClock s = some n ↔ ∃ h m, sscanfClock s = some (h, m) ∧
    0 ≤ h ∧ h ≤ 23 ∧ 0 ≤ m ∧ m ≤ 59 ∧ s.utf8ByteSize = 5 ∧ n = h * 60 + m := by
  unfold parseClock
  rcases sscanfClock s with _ | ⟨h, m⟩
  · simp
  · simp only [Option.ite_none_left_eq_some, Option.some.injEq, Prod.mk.injEq]
    constructor
    · rintro ⟨hrange, rfl⟩
      exact ⟨h, m, ⟨rfl, rfl⟩, by omega⟩
    · rintro ⟨_, _, ⟨rfl, rfl⟩, hrange⟩
      exact ⟨by omega, hrange.2.2.2.2.2.symm⟩

theorem parseClock_range (h : parseClock s = some n) : 0 ≤ n ∧ n < 1440 := by
  obtain ⟨h, m, -, hrange⟩ := parseClock_eq_some.mp h
  omega

/-- One listed day: what `open` compares says that the clock is in that day's span. -/
theorem inSpan_iff (hstart : 0 ≤ start ∧ start < 1440) (hstop : 0 ≤ stop ∧ stop < 1440)
    (c : WallClock) (d : Fin 7) :
    InSpan start stop d c.minuteOfWeek ↔
      if start = stop then d = c.weekday
      else if start < stop then d = c.weekday ∧ start ≤ c.hour * 60 + c.minute ∧
        (c.hour * 60 + c.minute : Int) < stop
      else (d = c.weekday ∧ start ≤ c.hour * 60 + c.minute) ∨
        (d = c.weekday + 6 ∧ (c.hour * 60 + c.minute : Int) < stop) := by
  have hyesterday : (c.weekday + 6).val = (c.weekday.val + 6) % 7 := Fin.val_add _ _
  have hday := d.isLt
  have htoday := c.weekday.isLt
  have hhour := c.hour.isLt
  have hminute := c.minute.isLt
  simp only [InSpan, WallClock.minuteOfWeek, Fin.ext_iff, hyesterday]
  split
  · constructor
    · rintro ⟨_, _, hspan, k, hk⟩
      cases hspan
      omega
    · intro heq
      exact ⟨_, _, rfl, c.hour * 60 + c.minute, by omega⟩
  split
  · constructor
    · rintro ⟨_, _, hspan, k, hk⟩
      cases hspan
      omega
    · intro hin
      exact ⟨_, _, rfl, c.hour * 60 + c.minute - start, by omega⟩
  · constructor
    · rintro ⟨_, _, hspan, k, hk⟩
      cases hspan
      omega
    · rintro (hin | hin)
      · exact ⟨_, _, rfl, c.hour * 60 + c.minute - start, by omega⟩
      · exact ⟨_, _, rfl, c.hour * 60 + c.minute + 1440 - start, by omega⟩

namespace TimeWindow

/-- In a valid window every name is a day, so none is read as Sunday by default. -/
theorem hasDay_iff (h : w.validate zones = .ok v) (d : Fin 7) :
    v.hasDay d ↔ v.Lists d := by
  obtain ⟨-, -, -, -, days, hdays, rfl⟩ := validate_eq_ok.mp h
  simp only [hasDay, Lists, any_eq_true, decide_eq_true_eq]
  refine exists_congr fun name => and_congr_right fun hname => ?_
  obtain ⟨raw, hraw⟩ := exists_of_mapM_eq_ok hdays hname
  obtain ⟨i, hi⟩ := dayIndex_of_normalDay hraw
  simp [hi]

theorem openAt_iff (h : w.validate zones = .ok v)
    (hstart : parseClock v.fromClock = some start) (hstop : parseClock v.toClock = some stop)
    (c : WallClock) :
    v.openAt c ↔ ∃ d, v.Lists d ∧ InSpan start stop d c.minuteOfWeek := by
  simp only [inSpan_iff (parseClock_range hstart) (parseClock_range hstop),
    openAt, hstart, hstop, Option.getD_some]
  split
  · simp [hasDay_iff h]
  split
  · simp [hasDay_iff h, and_assoc]
  · simp [hasDay_iff h, and_or_left, exists_or]

end TimeWindow

/-- A valid window is open exactly in the spans of its listed days, on the wall clock
of its zone. -/
theorem open_iff_inSpan (h : w.validate zones = .ok v) :
    ∃ local_ start stop, zones.loadLocation v.tz = some local_ ∧
      parseClock v.fromClock = some start ∧ parseClock v.toClock = some stop ∧
      ∀ now, v.open zones now ↔
        ∃ d, v.Lists d ∧ InSpan start stop d (local_ now).minuteOfWeek := by
  obtain ⟨-, hfrom, hto, hzone, days, -, hv⟩ := TimeWindow.validate_eq_ok.mp h
  obtain ⟨local_, hlocal⟩ := Option.isSome_iff_exists.mp hzone
  obtain ⟨start, hstart⟩ := Option.isSome_iff_exists.mp hfrom
  obtain ⟨stop, hstop⟩ := Option.isSome_iff_exists.mp hto
  replace hlocal : zones.loadLocation v.tz = some local_ := by rw [hv, ← hlocal]
  replace hstart : parseClock v.fromClock = some start := by rw [hv, ← hstart]
  replace hstop : parseClock v.toClock = some stop := by rw [hv, ← hstop]
  refine ⟨local_, start, stop, hlocal, hstart, hstop, fun now => ?_⟩
  rw [TimeWindow.open, hlocal]
  exact TimeWindow.openAt_iff h hstart hstop (local_ now)

/-- The wall clock of UTC; the first day was a Thursday. -/
def utcClock (now : Int) : WallClock where
  hour := ⟨(now / 3600000000000 % 24).toNat, by omega⟩
  minute := ⟨(now / 60000000000 % 60).toNat, by omega⟩
  weekday := ⟨((now / 86400000000000 + 4) % 7).toNat, by omega⟩

/-- A database of one zone. -/
def utcOnly : Zones := ⟨fun name => if name = "UTC" then some utcClock else none⟩

/-- A window of Friday nights, at three on the first Saturday. -/
theorem friday_night_is_open :
    ∃ d, TimeWindow.Lists ⟨["fri"], "22:00", "06:00", "UTC"⟩ d ∧
      InSpan 1320 360 d (utcClock 183600000000000).minuteOfWeek := by
  obtain ⟨_, _, _, hlocal, hstart, hstop, hopen⟩ :=
    @open_iff_inSpan utcOnly ⟨["Fri"], "22:00", "06:00", "UTC"⟩ _ rfl
  cases hlocal
  cases hstart
  cases hstop
  exact (hopen 183600000000000).mp (by decide +kernel)

/-! ## Clocks -/

/-- What a sign in front makes of a number, and the text behind it. -/
def signed : List Char → Int × List Char
  | '+' :: text => (1, text)
  | '-' :: text => (-1, text)
  | text => (1, text)

/-- The text begins with a number as `%d` reads it: blanks, none of them a newline, a
sign or none, and digits. -/
def Numeral (cs : List Char) (n : Int) (rest : List Char) : Prop :=
  '\n' ∉ cs.takeWhile isSpace ∧ ∃ k text, signed (cs.dropWhile isSpace) = (k, text) ∧
    text.takeWhile Char.isDigit ≠ [] ∧ n = k * decimal (text.takeWhile Char.isDigit) ∧
    rest = text.dropWhile Char.isDigit

/-- Two digits, a colon and two digits. -/
def FourDigits (cs : List Char) (a b c d : Char) : Prop :=
  cs = [a, b, ':', c, d] ∧ a.isDigit ∧ b.isDigit ∧ c.isDigit ∧ d.isDigit

/-- A clock of so many minutes, as it is meant to be written. -/
def HHMM (s : String) (n : Int) : Prop :=
  ∃ a b c d, FourDigits s.toList a b c d ∧ decimal [a, b] ≤ 23 ∧ decimal [c, d] ≤ 59 ∧
    n = decimal [a, b] * 60 + decimal [c, d]

/-- Five bytes of another shape that begin with two numbers of a clock and a colon
between them. -/
def Loose (s : String) : Prop :=
  (∃ h m, (∃ rest rest', Numeral s.toList h (':' :: rest) ∧ Numeral rest m rest') ∧
    0 ≤ h ∧ h ≤ 23 ∧ 0 ≤ m ∧ m ≤ 59 ∧ s.utf8ByteSize = 5) ∧ ¬∃ a b c d, FourDigits s.toList a b c d

variable {cs rest : List Char} {a b c d : Char}

theorem skipSpace_eq_some :
    skipSpace cs = some rest ↔ '\n' ∉ cs.takeWhile isSpace ∧ cs.dropWhile isSpace = rest := by
  induction cs with
  | nil => simp [skipSpace]
  | cons c cs ih =>
    rw [skipSpace, takeWhile_cons, dropWhile_cons]
    split
    · rename_i hline
      simp [hline, show isSpace '\n' by decide]
    split
    · rename_i hline _
      rw [ih, mem_cons, not_or, and_assoc, and_iff_right (Ne.symm hline)]
    · simp

theorem scanDigits_eq_some {text : List Char} : scanDigits text = some (n, rest) ↔
    text.takeWhile Char.isDigit ≠ [] ∧ n = decimal (text.takeWhile Char.isDigit) ∧
      rest = text.dropWhile Char.isDigit := by
  rw [scanDigits]
  split
  · simp [*]
  · rename_i hne
    rw [Option.some.injEq, Prod.mk.injEq, and_iff_right hne, eq_comm, @eq_comm _ rest]

theorem scanInt_eq : scanInt cs = (skipSpace cs).bind fun text =>
    (scanDigits (signed text).2).map fun r => ((signed text).1 * r.1, r.2) := by
  refine congrArg (Option.bind _) (funext fun text => ?_)
  unfold signed
  split <;> simp

theorem scanInt_eq_some : scanInt cs = some (n, rest) ↔ Numeral cs n rest := by
  rw [scanInt_eq, Option.bind_eq_some_iff]
  simp only [Option.map_eq_some_iff, skipSpace_eq_some, Prod.exists, scanDigits_eq_some,
    Prod.mk.injEq]
  constructor
  · rintro ⟨_, ⟨hline, rfl⟩, _, _, ⟨hne, rfl, rfl⟩, rfl, rfl⟩
    exact ⟨hline, _, _, rfl, hne, rfl, rfl⟩
  · rintro ⟨hline, k, text, hsigned, hne, rfl, rfl⟩
    exact ⟨_, ⟨hline, rfl⟩, _, _, ⟨by rwa [hsigned], rfl, rfl⟩, by simp [hsigned]⟩

/-- `Sscanf` with `%d:%d` reads two numerals. -/
theorem sscanfClock_eq_some {h m : Int} : sscanfClock s = some (h, m) ↔
    ∃ rest rest', Numeral s.toList h (':' :: rest) ∧ Numeral rest m rest' := by
  simp only [← scanInt_eq_some]
  constructor
  · intro hs
    obtain ⟨_, hh, hs⟩ := Option.bind_eq_some_iff.mp hs
    split at hs
    · obtain ⟨_, hm, heq⟩ := Option.bind_eq_some_iff.mp hs
      cases heq
      exact ⟨_, _, hh, hm⟩
    · cases hs
  · rintro ⟨rest, rest', hh, hm⟩
    rw [sscanfClock, hh]
    show (scanInt rest).bind _ = _
    rw [hm]
    rfl

theorem numeral_two (ha : a.isDigit) (hb : b.isDigit) (hrest : rest.takeWhile Char.isDigit = []) :
    Numeral (a :: b :: rest) (decimal [a, b]) rest := by
  obtain ⟨hlo, hhi⟩ : 48 ≤ a.toNat ∧ a.toNat ≤ 57 := Char.isDigit_iff_toNat.mp ha
  have hspace : isSpace a = false := by
    simp only [isSpace, inRange, Bool.or_eq_false_iff, Bool.and_eq_false_iff,
      decide_eq_false_iff_not]
    omega
  have hsigned : signed (a :: b :: rest) = (1, a :: b :: rest) := by
    have hsign : a ≠ '+' ∧ a ≠ '-' := by
      constructor <;> rintro rfl <;> cases ha
    simp [signed, hsign]
  have hdrop : rest.dropWhile Char.isDigit = rest := by
    have happend := @takeWhile_append_dropWhile _ Char.isDigit rest
    rwa [hrest] at happend
  refine ⟨by simp [hspace], 1, a :: b :: rest, ?_, by simp [ha], by simp [ha, hb, hrest],
    by simp [ha, hb, hdrop]⟩
  rw [dropWhile_cons, hspace]
  exact hsigned

theorem FourDigits.sscanfClock (h : FourDigits s.toList a b c d) :
    sscanfClock s = some (decimal [a, b], decimal [c, d]) := by
  obtain ⟨hs, ha, hb, hc, hd⟩ := h
  rw [sscanfClock_eq_some, hs]
  exact ⟨[c, d], [], numeral_two ha hb rfl, numeral_two hc hd rfl⟩

theorem decimal_nonneg (ha : a.isDigit) (hb : b.isDigit) : 0 ≤ decimal [a, b] := by
  have hlo : 48 ≤ a.toNat := (Char.isDigit_iff_toNat.mp ha).1
  have hlo' : 48 ≤ b.toNat := (Char.isDigit_iff_toNat.mp hb).1
  simp only [decimal, foldl_cons, foldl_nil, Char.reduceToNat]
  omega

theorem utf8Size_of_isDigit (h : a.isDigit) : a.utf8Size = 1 := by
  have hhi : a.toNat ≤ 57 := (Char.isDigit_iff_toNat.mp h).2
  exact Char.utf8Size_eq_one_iff.mpr (UInt32.le_iff_toNat_le.mpr (hhi.trans (by decide)))

theorem FourDigits.utf8ByteSize (h : FourDigits s.toList a b c d) : s.utf8ByteSize = 5 := by
  obtain ⟨hs, ha, hb, hc, hd⟩ := h
  rw [← @String.ofList_toList s, hs]
  simp [utf8Size_of_isDigit, ha, hb, hc, hd]
  rfl

/-- `parseClock`, and with it the check of a window's ends, reads the clocks as they are
meant to be written and no others, but for the loose ones. -/
theorem parseClock_iff_hhmm (s : String) :
    ((∀ n, parseClock s = some n ↔ HHMM s n) ∧
      ∀ field, clockCheck field s = .ok () ↔ ∃ n, HHMM s n) ↔ ¬Loose s := by
  have hloose : Loose s ↔
      (∃ n, parseClock s = some n) ∧ ¬∃ a b c d, FourDigits s.toList a b c d := by
    simp only [Loose, parseClock_eq_some, sscanfClock_eq_some]
    refine and_congr_left fun _ => ⟨?_, ?_⟩
    · rintro ⟨h, m, hnum, hrange⟩
      exact ⟨h * 60 + m, h, m, hnum, by omega⟩
    · rintro ⟨n, h, m, hnum, hrange⟩
      exact ⟨h, m, hnum, by omega⟩
  rw [hloose]
  constructor
  · rintro ⟨hparse, -⟩ ⟨⟨n, hn⟩, hshape⟩
    obtain ⟨a, b, c, d, hs, -⟩ := (hparse n).mp hn
    exact hshape ⟨a, b, c, d, hs⟩
  · intro hnot
    have hparse : ∀ n, parseClock s = some n ↔ HHMM s n := by
      intro n
      constructor
      · intro hn
        obtain ⟨a, b, c, d, hs⟩ := by_contra fun hshape => hnot ⟨⟨n, hn⟩, hshape⟩
        obtain ⟨h, m, hscan, -, hh, -, hm, -, rfl⟩ := parseClock_eq_some.mp hn
        cases hs.sscanfClock.symm.trans hscan
        exact ⟨a, b, c, d, hs, hh, hm, rfl⟩
      · rintro ⟨a, b, c, d, hs, hh, hm, rfl⟩
        obtain ⟨-, ha, hb, hc, hd⟩ := id hs
        exact parseClock_eq_some.mpr ⟨_, _, hs.sscanfClock, decimal_nonneg ha hb, hh,
          decimal_nonneg hc hd, hm, hs.utf8ByteSize, rfl⟩
    refine ⟨hparse, fun field => ?_⟩
    rw [clockCheck, require_eq_ok, Option.isSome_iff_exists]
    exact exists_congr hparse

theorem signed_hour_is_read : parseClock "+1:05" = some 65 ∧ ¬HHMM "+1:05" 65 := by
  refine ⟨by decide, ?_⟩
  rintro ⟨a, b, c, d, ⟨hs, ha, -⟩, -⟩
  cases hs
  exact absurd ha (by decide)

end Zanskar
