import Mathlib.Tactic

/-!
# UTF-8 as the Go runtime reads it

A Go string is bytes, and need not be UTF-8. `unicode/utf8` gives every string a
reading all the same: it takes one well-formed sequence at a time, and a byte
that begins none stands for `RuneError` and is one byte wide. `range`,
`RuneCountInString` and the encoder of `encoding/json` all read this way.
-/

namespace Zanskar.Go

open List

/-- The bytes of a Go string. -/
abbrev Bytes := List UInt8

instance instLawfulBEqBytes : LawfulBEq Bytes := inferInstance

/-- `utf8.RuneError`. -/
def runeError : Nat := 0xFFFD

/-- What a first byte outside ASCII announces: the length of the sequence, and
the range its second byte lies in. -/
structure Lead where
  size : Nat
  lo : Nat
  hi : Nat

/-- The tables `first` and `acceptRanges` of `unicode/utf8`, for a first byte
outside ASCII. -/
def lead (b : UInt8) : Option Lead :=
  let n := b.toNat
  if n < 0xC2 then none
  else if n < 0xE0 then some ⟨2, 0x80, 0xBF⟩
  else if n = 0xE0 then some ⟨3, 0xA0, 0xBF⟩
  else if n = 0xED then some ⟨3, 0x80, 0x9F⟩
  else if n < 0xF0 then some ⟨3, 0x80, 0xBF⟩
  else if n = 0xF0 then some ⟨4, 0x90, 0xBF⟩
  else if n < 0xF4 then some ⟨4, 0x80, 0xBF⟩
  else if n = 0xF4 then some ⟨4, 0x80, 0x8F⟩
  else none

/-- A continuation byte. -/
def isCont (b : UInt8) : Bool := 0x80 ≤ b.toNat && b.toNat ≤ 0xBF

/-- `utf8.DecodeRuneInString`: the rune and its width in bytes. -/
def decodeRune (s : Bytes) : Nat × Nat :=
  match s with
  | [] => (runeError, 0)
  | s0 :: tail =>
    if s0.toNat < 0x80 then (s0.toNat, 1)
    else
      match lead s0 with
      | none => (runeError, 1)
      | some x =>
        match tail with
        | [] => (runeError, 1)
        | s1 :: tail =>
          if s.length < x.size || s1.toNat < x.lo || x.hi < s1.toNat then (runeError, 1)
          else if x.size ≤ 2 then (s0.toNat % 32 * 64 + s1.toNat % 64, 2)
          else
            match tail with
            | [] => (runeError, 1)
            | s2 :: tail =>
              if !isCont s2 then (runeError, 1)
              else if x.size ≤ 3 then
                (s0.toNat % 16 * 4096 + s1.toNat % 64 * 64 + s2.toNat % 64, 3)
              else
                match tail with
                | [] => (runeError, 1)
                | s3 :: _ =>
                  if !isCont s3 then (runeError, 1)
                  else
                    (s0.toNat % 8 * 262144 + s1.toNat % 64 * 4096 + s2.toNat % 64 * 64 +
                      s3.toNat % 64, 4)

/-- The runes of a string, with their widths, while `skip` bytes of the rune read
last are still to be passed over. -/
def runesFrom : Nat → Bytes → List (Nat × Nat)
  | _, [] => []
  | skip + 1, _ :: s => runesFrom skip s
  | 0, b :: s => decodeRune (b :: s) :: runesFrom ((decodeRune (b :: s)).2 - 1) s

/-- `for range s`: the runes of a string, each with its width. -/
def runes (s : Bytes) : List (Nat × Nat) := runesFrom 0 s

/-- `utf8.RuneCountInString`. -/
def runeCount (s : Bytes) : Nat := (runes s).length

/-! ## One rune at a time -/

variable {b : UInt8} {x : Lead} {t : Bytes} {n : Nat}

/-- What a first byte of each length is, and what it asks of the second. -/
theorem lead_spec (h : lead b = some x) :
    (x.lo = 0x80 ∧ b.toNat ≠ 0xE0 ∧ b.toNat ≠ 0xF0 ∨ x.lo = 0xA0 ∧ b.toNat = 0xE0 ∨
        x.lo = 0x90 ∧ b.toNat = 0xF0) ∧
      (x.hi = 0xBF ∧ b.toNat ≠ 0xED ∧ b.toNat ≠ 0xF4 ∨ x.hi = 0x9F ∧ b.toNat = 0xED ∨
        x.hi = 0x8F ∧ b.toNat = 0xF4) ∧
      (x.size = 2 ∧ 0xC2 ≤ b.toNat ∧ b.toNat < 0xE0 ∨
        x.size = 3 ∧ 0xE0 ≤ b.toNat ∧ b.toNat < 0xF0 ∨
        x.size = 4 ∧ 0xF0 ≤ b.toNat ∧ b.toNat < 0xF5) := by
  unfold lead at h
  dsimp only at h
  split_ifs at h <;> cases h <;> dsimp only <;> omega

theorem exists_lead (h : 0xC2 ≤ b.toNat ∧ b.toNat < 0xF5) : ∃ x, lead b = some x := by
  unfold lead
  dsimp only
  split_ifs <;> first | exact ⟨_, rfl⟩ | omega

theorem not_ascii_of_lead (h : lead b = some x) : ¬b.toNat < 0x80 := by
  have := lead_spec h
  omega

/-- `utf8.AppendRune`. -/
def encodeRune (c : Char) : Bytes :=
  let n := c.toNat
  let cont := fun m => (0x80 + m % 64).toUInt8
  if n < 0x80 then [n.toUInt8]
  else if n < 0x800 then [(0xC0 + n / 64).toUInt8, cont n]
  else if n < 0x10000 then [(0xE0 + n / 4096).toUInt8, cont (n / 64), cont n]
  else [(0xF0 + n / 262144).toUInt8, cont (n / 4096), cont (n / 64), cont n]

theorem char_range (c : Char) :
    c.toNat < 0xD800 ∨ 0xDFFF < c.toNat ∧ c.toNat < 0x110000 := c.valid

theorem toNat_toUInt8 (h : n < 256) : n.toUInt8.toNat = n :=
  Nat.mod_eq_of_lt h

section Sequences

variable {b₀ b₁ b₂ b₃ : UInt8} (hx : lead b₀ = some x)
  (h₁ : x.lo ≤ b₁.toNat ∧ b₁.toNat ≤ x.hi) (s : Bytes)

include hx h₁

theorem decodeRune_two (hsize : x.size = 2) :
    decodeRune (b₀ :: b₁ :: s) = (b₀.toNat % 32 * 64 + b₁.toNat % 64, 2) := by
  simp [decodeRune, not_ascii_of_lead hx, hx, hsize, h₁]

theorem decodeRune_three (hsize : x.size = 3) (h₂ : isCont b₂) :
    decodeRune (b₀ :: b₁ :: b₂ :: s) =
      (b₀.toNat % 16 * 4096 + b₁.toNat % 64 * 64 + b₂.toNat % 64, 3) := by
  simp [decodeRune, not_ascii_of_lead hx, hx, hsize, h₁, h₂]

theorem decodeRune_four (hsize : x.size = 4) (h₂ : isCont b₂) (h₃ : isCont b₃) :
    decodeRune (b₀ :: b₁ :: b₂ :: b₃ :: s) =
      (b₀.toNat % 8 * 262144 + b₁.toNat % 64 * 4096 + b₂.toNat % 64 * 64 + b₃.toNat % 64, 4) := by
  simp [decodeRune, not_ascii_of_lead hx, hx, hsize, h₁, h₂, h₃]

end Sequences

/-- A character is read from the bytes it is written as. -/
theorem decodeRune_encodeRune (c : Char) (s : Bytes) :
    decodeRune (encodeRune c ++ s) = (c.toNat, (encodeRune c).length) := by
  have hrange := char_range c
  unfold encodeRune
  dsimp only
  generalize c.toNat = n at hrange
  have hcont : ∀ m, ((0x80 + m % 64).toUInt8).toNat = 0x80 + m % 64 := fun m =>
    toNat_toUInt8 (by omega)
  have hisCont : ∀ m, isCont (0x80 + m % 64).toUInt8 := fun m => by
    simp only [isCont, hcont, Bool.and_eq_true, decide_eq_true_eq]
    omega
  -- the first byte of a longer sequence: it bounds the second against surrogates and
  -- long forms
  have hlead : ∀ first, 0xC2 ≤ first ∧ first < 0xF5 →
      ∃ x, lead first.toUInt8 = some x ∧ first.toUInt8.toNat = first := by
    intro first hfirst
    have hb : first.toUInt8.toNat = first := toNat_toUInt8 (by omega)
    obtain ⟨x, hx⟩ := exists_lead (b := first.toUInt8) (by rwa [hb])
    exact ⟨x, hx, hb⟩
  split
  · rename_i h1
    have hb : n.toUInt8.toNat = n := toNat_toUInt8 (by omega)
    simp [decodeRune, hb, if_pos h1]
  split
  · obtain ⟨x, hx, hb⟩ := hlead (0xC0 + n / 64) (by omega)
    have hspec := lead_spec hx
    rw [cons_append, cons_append, decodeRune_two hx (by rw [hcont]; omega) _ (by omega), hb, hcont]
    exact Prod.ext (by dsimp only; omega) rfl
  split
  · obtain ⟨x, hx, hb⟩ := hlead (0xE0 + n / 4096) (by omega)
    have hspec := lead_spec hx
    rw [cons_append, cons_append, cons_append,
      decodeRune_three hx (by rw [hcont]; omega) _ (by omega) (hisCont n), hb, hcont, hcont]
    exact Prod.ext (by dsimp only; omega) rfl
  · obtain ⟨x, hx, hb⟩ := hlead (0xF0 + n / 262144) (by omega)
    have hspec := lead_spec hx
    rw [cons_append, cons_append, cons_append, cons_append,
      decodeRune_four hx (by rw [hcont]; omega) _ (by omega) (hisCont _) (hisCont n), hb, hcont,
      hcont, hcont]
    exact Prod.ext (by dsimp only; omega) rfl

/-- The first byte of a character: the character itself, or none of ASCII. -/
theorem encodeRune_head (c : Char) :
    ∃ b s, encodeRune c = b :: s ∧
      (c.toNat < 0x80 ∧ b.toNat = c.toNat ∧ s = [] ∨ 0x80 ≤ c.toNat ∧ 0x80 ≤ b.toNat ∧ s ≠ []) := by
  have hrange := char_range c
  unfold encodeRune
  dsimp only
  split
  · exact ⟨_, _, rfl, .inl ⟨by omega, toNat_toUInt8 (by omega), rfl⟩⟩
  split
  · exact ⟨_, _, rfl, .inr ⟨by omega, by rw [toNat_toUInt8 (by omega)]; omega, by simp⟩⟩
  split <;> exact ⟨_, _, rfl, .inr ⟨by omega, by rw [toNat_toUInt8 (by omega)]; omega, by simp⟩⟩

theorem encodeRune_ne_nil (c : Char) : encodeRune c ≠ [] := by
  obtain ⟨b, t, hbt, -⟩ := encodeRune_head c
  rw [hbt]
  exact cons_ne_nil b t

/-- An ASCII byte among those of a character is that character. -/
theorem toNat_of_mem_encodeRune {c : Char} (hb : b ∈ encodeRune c)
    (hascii : b.toNat < 0x80) : b.toNat = c.toNat := by
  have hrange := char_range c
  unfold encodeRune at hb
  dsimp only at hb
  -- outside ASCII every byte has its high bit
  have hhigh : ∀ n, 0x80 ≤ n → n < 256 → b = n.toUInt8 → b.toNat = c.toNat := by
    intro n hlo hhi hbn
    rw [hbn, toNat_toUInt8 hhi] at hascii
    omega
  split at hb
  · rw [mem_singleton.mp hb, toNat_toUInt8 (by omega)]
  split at hb
  · simp only [mem_cons, not_mem_nil, or_false] at hb
    rcases hb with hb | hb <;> exact hhigh _ (by omega) (by omega) hb
  split at hb
  · simp only [mem_cons, not_mem_nil, or_false] at hb
    rcases hb with hb | hb | hb <;> exact hhigh _ (by omega) (by omega) hb
  · simp only [mem_cons, not_mem_nil, or_false] at hb
    rcases hb with hb | hb | hb | hb <;> exact hhigh _ (by omega) (by omega) hb

theorem isCont_iff : isCont b ↔ 0x80 ≤ b.toNat ∧ b.toNat ≤ 0xBF := by
  simp [isCont]

theorem toUInt8_toNat (h : n = b.toNat) : n.toUInt8 = b := by
  rw [h]
  exact UInt8.ofNat_toNat

theorem toNat_ofNat_char (h : n < 0xD800 ∨ 0xDFFF < n ∧ n < 0x110000) :
    (Char.ofNat n).toNat = n := by
  rw [Char.ofNat, dif_pos h]
  rfl

/-- A rune read is a character written in the bytes it was read from, or stands
for a byte that begins none. -/
theorem decodeRune_cases (s : Bytes) :
    decodeRune (b :: s) = (runeError, 1) ∨
      ∃ c : Char, decodeRune (b :: s) = (c.toNat, (encodeRune c).length) ∧
        (b :: s).take (encodeRune c).length = encodeRune c := by
  have hb := b.toNat_lt
  generalize hr : decodeRune (b :: s) = r
  -- a number that is a character, and its bytes
  have hchar : ∀ (n : Nat) (w : Bytes), (n < 0xD800 ∨ 0xDFFF < n ∧ n < 0x110000) →
      (∀ c : Char, c.toNat = n → encodeRune c = w) → (b :: s).take w.length = w →
      (n, w.length) = r →
      ∃ c : Char, r = (c.toNat, (encodeRune c).length) ∧
        (b :: s).take (encodeRune c).length = encodeRune c := by
    rintro n w hn henc htake rfl
    have hc := henc (Char.ofNat n) (toNat_ofNat_char hn)
    exact ⟨Char.ofNat n, by rw [toNat_ofNat_char hn, hc], by rw [hc, htake]⟩
  unfold decodeRune at hr
  dsimp only at hr
  split at hr
  · rename_i hascii
    refine .inr (hchar b.toNat [b] (by omega) ?_ rfl hr)
    intro c hc
    simp [encodeRune, hc, hascii]
  split at hr
  · exact .inl hr.symm
  rename_i x hl
  obtain ⟨hlo, hhi, hsize⟩ := lead_spec hl
  split at hr
  · exact .inl hr.symm
  rename_i b₁ s
  have hb₁ := b₁.toNat_lt
  split at hr
  · exact .inl hr.symm
  rename_i hsecond
  simp only [Bool.or_eq_true, decide_eq_true_eq, not_or] at hsecond
  split at hr
  · refine .inr (hchar _ [b, b₁] (by omega) ?_ rfl hr)
    intro c hc
    unfold encodeRune
    dsimp only
    rw [hc, if_neg (by omega), if_pos (by omega), toUInt8_toNat (b := b) (by omega),
      toUInt8_toNat (b := b₁) (by omega)]
  split at hr
  · exact .inl hr.symm
  rename_i b₂ s
  split at hr
  · exact .inl hr.symm
  rename_i hc₂
  have h₂ := isCont_iff.mp (by simpa using hc₂)
  split at hr
  · refine .inr (hchar _ [b, b₁, b₂] (by omega) ?_ rfl hr)
    intro c hc
    unfold encodeRune
    dsimp only
    rw [hc, if_neg (by omega), if_neg (by omega), if_pos (by omega),
      toUInt8_toNat (b := b) (by omega), toUInt8_toNat (b := b₁) (by omega),
      toUInt8_toNat (b := b₂) (by omega)]
  split at hr
  · exact .inl hr.symm
  rename_i b₃ s
  split at hr
  · exact .inl hr.symm
  rename_i hc₃
  have h₃ := isCont_iff.mp (by simpa using hc₃)
  refine .inr (hchar _ [b, b₁, b₂, b₃] (by omega) ?_ rfl hr)
  intro c hc
  unfold encodeRune
  dsimp only
  rw [hc, if_neg (by omega), if_neg (by omega), if_neg (by omega),
    toUInt8_toNat (b := b) (by omega), toUInt8_toNat (b := b₁) (by omega),
    toUInt8_toNat (b := b₂) (by omega), toUInt8_toNat (b := b₃) (by omega)]

/-! ## All runes of a string -/

theorem decodeRune_width (b : UInt8) (s : Bytes) :
    1 ≤ (decodeRune (b :: s)).2 ∧ (decodeRune (b :: s)).2 ≤ (b :: s).length := by
  rcases decodeRune_cases s with h | ⟨c, h, htake⟩ <;> rw [h]
  · simp
  · have hpos := length_pos_iff.mpr (encodeRune_ne_nil c)
    have hlen := congrArg length htake
    rw [length_take] at hlen
    omega

theorem runesFrom_eq (skip : Nat) (s : Bytes) : runesFrom skip s = runes (s.drop skip) := by
  induction s generalizing skip with
  | nil => cases skip <;> rfl
  | cons b s ih =>
    cases skip with
    | zero => rfl
    | succ skip => exact ih skip

theorem runes_cons (b : UInt8) (s : Bytes) :
    runes (b :: s) = decodeRune (b :: s) :: runes ((b :: s).drop (decodeRune (b :: s)).2) := by
  have hpos := (decodeRune_width b s).1
  obtain ⟨w, hw⟩ := Nat.exists_eq_add_of_le' hpos
  show decodeRune (b :: s) :: runesFrom ((decodeRune (b :: s)).2 - 1) s = _
  rw [runesFrom_eq, hw]
  rfl

theorem runeCount_le (s : Bytes) : runeCount s ≤ s.length := by
  have hfrom : ∀ skip, (runesFrom skip s).length ≤ s.length := by
    induction s with
    | nil => intro skip; cases skip <;> exact le_rfl
    | cons b s ih =>
      intro skip
      cases skip with
      | zero => exact Nat.succ_le_succ (ih _)
      | succ skip => exact Nat.le_succ_of_le (ih skip)
  exact hfrom 0

/-! ## What follows a string -/

/-- What may follow a string without its end being read into it. -/
def Apart : Bytes → Prop
  | [] => True
  | b :: _ => b.toNat < 0x80

/-- The first rune of a string is read the same with an ASCII byte behind it. -/
theorem decodeRune_append (ht : Apart t) (b : UInt8) (s : Bytes) :
    decodeRune (b :: s ++ t) = decodeRune (b :: s) := by
  cases t with
  | nil => rw [append_nil]
  | cons c t =>
    have hc : c.toNat < 0x80 := ht
    have hcont : isCont c = false := by
      simp [isCont, hc]
    unfold decodeRune
    dsimp only [cons_append]
    by_cases hascii : b.toNat < 0x80
    · rw [if_pos hascii, if_pos hascii]
    rw [if_neg hascii, if_neg hascii]
    cases hl : lead b with
    | none => rfl
    | some x =>
      have hsize := lead_spec hl
      dsimp only
      -- the sequence is complete within `s`, or is cut short by `c`, no
      -- continuation byte, where it was cut short by the end before
      match s with
      | [] =>
        have : c.toNat < x.lo := by omega
        simp [this]
      | [s1] =>
        by_cases h2 : x.size ≤ 2
        · simp [show x.size = 2 by omega]
        · have h3 : 2 < x.size := by omega
          simp [hcont, h2, h3]
      | [s1, s2] =>
        by_cases h2 : x.size ≤ 2
        · simp [show x.size = 2 by omega]
        by_cases h3 : x.size ≤ 3
        · have hlen : ¬(t.length + 1 + 1 + 1 + 1 < x.size) := by omega
          simp [hlen, h2, h3, show ¬(3 < x.size) by omega]
        · simp [hcont, show x.size = 4 by omega]
      | s1 :: s2 :: s3 :: s =>
        have hlen : ∀ n, ¬(n + 1 + 1 + 1 + 1 < x.size) := fun n => by omega
        simp [hlen]

theorem runes_append (ht : Apart t) (s : Bytes) : runes (s ++ t) = runes s ++ runes t := by
  -- along the runes of `s`, whose lengths add up to that of `s`
  induction hn : s.length using Nat.strong_induction_on generalizing s with
  | _ n ih =>
    cases s with
    | nil => rfl
    | cons b s =>
      obtain ⟨hpos, hle⟩ := decodeRune_width b s
      rw [cons_append, runes_cons, runes_cons, ← cons_append, decodeRune_append ht,
        drop_append_of_le_length hle,
        ih _ (by simp only [length_drop]; omega) _ rfl, cons_append]

/-- What a string reads as: its characters, and `none` for a byte that begins no
well-formed sequence. -/
def marks (s : Bytes) : List (Option Char) :=
  (runes s).map fun (r, width) =>
    if r = runeError ∧ width = 1 then none else some (Char.ofNat r)

/-- The character a mark is shown as: U+FFFD for a byte that is part of none. -/
def shown (m : Option Char) : Char := m.getD (Char.ofNat runeError)

theorem marks_append (ht : Apart t) (s : Bytes) : marks (s ++ t) = marks s ++ marks t := by
  rw [marks, runes_append ht, map_append]
  rfl

theorem marks_ne_nil {s : Bytes} (h : s ≠ []) : marks s ≠ [] := by
  obtain ⟨b, t, rfl⟩ := exists_cons_of_ne_nil h
  rw [marks, runes_cons]
  simp

/-! ## Strings that are UTF-8 -/

/-- `utf8.ValidString`: no byte begins no well-formed sequence. -/
def validString (s : Bytes) : Bool := (marks s).all Option.isSome

/-- The string of some characters. -/
def utf8 (cs : List Char) : Bytes := cs.flatMap encodeRune

@[simp] theorem utf8_nil : utf8 [] = [] := rfl

@[simp] theorem utf8_cons (c : Char) (cs : List Char) :
    utf8 (c :: cs) = encodeRune c ++ utf8 cs := rfl

/-- The replacement character is three bytes, so it is no byte that begins no
sequence. -/
theorem length_encodeRune_runeError {c : Char} (h : c.toNat = runeError) :
    (encodeRune c).length = 3 := by
  unfold encodeRune
  dsimp only
  rw [h, if_neg (by decide), if_neg (by decide), if_pos (by decide)]
  rfl

theorem marks_encodeRune (c : Char) (s : Bytes) :
    marks (encodeRune c ++ s) = some c :: marks s := by
  obtain ⟨b, t, hbt, -⟩ := encodeRune_head c
  have hdec := decodeRune_encodeRune c s
  have hdrop : (encodeRune c ++ s).drop (encodeRune c).length = s := drop_left
  have hmark : ¬(c.toNat = runeError ∧ (encodeRune c).length = 1) := by
    rintro ⟨hc, hlen⟩
    rw [length_encodeRune_runeError hc] at hlen
    cases hlen
  rw [hbt, cons_append] at hdec hdrop
  rw [hbt, cons_append, marks, runes_cons, map_cons, hdec]
  rw [hbt] at hmark
  dsimp only
  rw [if_neg hmark, hdrop, Char.ofNat_toNat]
  rfl

/-- A byte that begins no sequence, in front of a string. -/
theorem marks_bad {s : Bytes} (h : decodeRune (b :: s) = (runeError, 1)) :
    marks (b :: s) = none :: marks s := by
  rw [marks, runes_cons, map_cons, h]
  rfl

/-- Induction along the reading of a string: a character at its front, or a byte that
begins none. -/
theorem runes_induction {P : Bytes → Prop} (nil : P []) (char : ∀ c s, P s → P (encodeRune c ++ s))
    (bad : ∀ b s, decodeRune (b :: s) = (runeError, 1) → P s → P (b :: s)) (s : Bytes) : P s := by
  induction hn : s.length using Nat.strong_induction_on generalizing s with
  | _ n ih =>
    cases s with
    | nil => exact nil
    | cons b s =>
      rcases decodeRune_cases s with hbad | ⟨c, -, htake⟩
      · exact bad b s hbad (ih s.length (by rw [← hn]; exact Nat.lt_succ_self _) s rfl)
      · have hsplit : b :: s = encodeRune c ++ (b :: s).drop (encodeRune c).length := by
          conv_lhs => rw [← take_append_drop (encodeRune c).length (b :: s), htake]
        have hpos := length_pos_iff.mpr (encodeRune_ne_nil c)
        have hlen : ((b :: s).drop (encodeRune c).length).length < n := by
          rw [length_drop]
          simp only [length_cons] at hn ⊢
          omega
        rw [hsplit]
        exact char c _ (ih _ hlen _ rfl)

/-- A string is UTF-8 when it is the string of some characters. -/
theorem validString_iff (s : Bytes) : validString s ↔ ∃ cs, s = utf8 cs := by
  constructor
  · induction s using runes_induction with
    | nil => exact fun _ => ⟨[], rfl⟩
    | char c s ih =>
      intro h
      rw [validString, marks_encodeRune, all_cons] at h
      obtain ⟨cs, rfl⟩ := ih h
      exact ⟨c :: cs, rfl⟩
    | bad b s hbad _ =>
      intro h
      rw [validString, marks_bad hbad] at h
      cases h
  · rintro ⟨cs, rfl⟩
    induction cs with
    | nil => rfl
    | cons c cs ih =>
      rw [utf8_cons, validString, marks_encodeRune, all_cons]
      exact ih

theorem validString_append (ht : Apart t) (s : Bytes) :
    validString (s ++ t) = (validString s && validString t) := by
  rw [validString, marks_append ht, all_append]
  rfl

theorem runeCount_eq_length_marks (s : Bytes) : runeCount s = (marks s).length := by
  rw [marks, length_map]
  rfl

theorem marks_utf8 (cs : List Char) : marks (utf8 cs) = cs.map some := by
  induction cs with
  | nil => rfl
  | cons c cs ih => rw [utf8_cons, marks_encodeRune, ih, map_cons]

theorem runeCount_utf8 (cs : List Char) : runeCount (utf8 cs) = cs.length := by
  rw [runeCount_eq_length_marks, marks_utf8, length_map]

end Zanskar.Go
