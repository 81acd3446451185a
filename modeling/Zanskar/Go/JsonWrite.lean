import Zanskar.Go.JsonRead
import Mathlib.Data.String.Basic

/-!
# Writing JSON text (`json.Marshal` of an `any`), and reading it back

`write` is the encoder: no white space, `<`, `>`, `&` and the line separators
escaped along with what must be, U+FFFD for a byte that is not UTF-8, a number as
`floatText` has it.

- `quoteMarks_append_inj` : a string is read back up to its bad bytes, which are written
  as U+FFFD itself is;
- `readValue_write` : a value is read back as itself, whatever follows it;
- `marshal_append_inj`, `marshal_congr` : so a Go map is told apart from another by
  what is written for it exactly if there is something else in it.
-/

namespace Zanskar.Go

open List

/-! ## The encoder -/

/-- A digit of `"0123456789abcdef"`. -/
def hexDigit (n : Nat) : UInt8 := if n < 10 then (0x30 + n).toUInt8 else (0x57 + n).toUInt8

/-- `\uXXXX`. -/
def unicodeEscape (n : Nat) : Bytes :=
  [ascii '\\', ascii 'u', hexDigit (n / 4096 % 16), hexDigit (n / 256 % 16),
    hexDigit (n / 16 % 16), hexDigit (n % 16)]

/-- The letter of a character's short escape. -/
def escapeLetter (c : Char) : Option UInt8 :=
  (shortEscapes.find? (·.1 = c.toNat)).map Prod.snd

/-- The characters without a short escape that are escaped all the same: control
characters, what HTML reads, and the line separators of JavaScript. -/
def needsEscape (c : Char) : Bool :=
  c.toNat < 0x20 || c = '<' || c = '>' || c = '&' || c.toNat = 0x2028 || c.toNat = 0x2029

/-- A character inside a string, or a byte that is part of none: the encoder puts U+FFFD
in its place, unescaped. -/
def escapeMark : Option Char → Bytes
  | none => encodeRune (Char.ofNat runeError)
  | some c =>
    match escapeLetter c with
    | some b => [ascii '\\', b]
    | none => if needsEscape c then unicodeEscape c.toNat else encodeRune c

/-- `appendString`: a string in quotes. -/
def quoteMarks (ms : List (Option Char)) : Bytes :=
  ascii '"' :: (ms.flatMap escapeMark ++ [ascii '"'])

/-- The decimals of a number, with the point. -/
def fracText (frac : Bytes) : Bytes := if frac = [] then [] else ascii '.' :: frac

/-- The exponent of a number, with its sign. -/
def expText : Option (Bool × Bytes) → Bytes
  | none => []
  | some (neg, ds) => ascii 'e' :: (if neg then ascii '-' else ascii '+') :: ds

/-- A number's text. -/
def numberText (t : NumText) : Bytes :=
  (if t.neg then [ascii '-'] else []) ++ (t.int ++ (fracText t.frac ++ expText t.exp))

/-- What `Unmarshal` leaves in an `any`. -/
abbrev GoValue := Json Float64 (List Char)

mutual

/-- The encoder, over members in the order they are to be written in. -/
def write : GoValue → Bytes
  | .null => lit "null"
  | .bool true => lit "true"
  | .bool false => lit "false"
  | .num f => numberText (floatText f)
  | .str cs => quoteMarks (cs.map some)
  | .arr vs => ascii '[' :: writeElements vs
  | .obj ms => ascii '\x7b' :: writeMembers ms

/-- The elements of an array and its closing bracket. -/
def writeElements : List GoValue → Bytes
  | [] => [ascii ']']
  | v :: vs => write v ++ if vs = [] then [ascii ']'] else ascii ',' :: writeElements vs

/-- The members of an object and its closing brace. -/
def writeMembers : List (List Char × GoValue) → Bytes
  | [] => [ascii '\x7d']
  | (k, v) :: ms =>
    quoteMarks (k.map some) ++ ascii ':' :: (write v ++
      if ms = [] then [ascii '\x7d'] else ascii ',' :: writeMembers ms)

end

/-- `json.Unmarshal` into an `any`, members as they are written. -/
def unmarshal (s : Bytes) : Option GoValue :=
  (parse s).bind (Json.mapM parseFloat goText)

/-- `json.Marshal`: a Go map keeps one value for a key and is written in key order. -/
def marshal (v : GoValue) : Bytes := write v.norm

/-! ## Strings read back -/

/-- What is read where a character or a bad byte was written. -/
def writtenUnit : Option Char → TextUnit
  | none => .char (Char.ofNat runeError)
  | some c => if (escapeLetter c).isSome || needsEscape c then .code c.toNat else .char c

variable {c : Char} {b : UInt8} {s : Bytes} {n : Nat} {s' : Bytes} {exp : Option (Bool × Bytes)}
  {t : NumText} {fuel : Nat} {vs : List GoValue} {v v' : GoValue}

theorem mem_shortEscapes (h : escapeLetter c = some b) : (c.toNat, b) ∈ shortEscapes := by
  obtain ⟨p, hp, rfl⟩ := Option.map_eq_some_iff.mp h
  have hcode := find?_some hp
  rw [decide_eq_true_eq] at hcode
  rw [← hcode]
  exact mem_of_find?_eq_some hp

/-- What is escaped is a character below the surrogates. -/
theorem toNat_lt_of_escaped (h : ((escapeLetter c).isSome || needsEscape c)) :
    c.toNat < 0x3000 := by
  rw [Bool.or_eq_true] at h
  rcases h with h | h
  · obtain ⟨b, hb⟩ := Option.isSome_iff_exists.mp h
    have hlow : ∀ p ∈ shortEscapes, p.1 < 0x3000 := by decide
    exact hlow _ (mem_shortEscapes hb)
  · simp only [needsEscape, Bool.or_eq_true, decide_eq_true_eq] at h
    rcases h with ((((h | rfl) | rfl) | rfl) | h) | h
    · omega
    · decide
    · decide
    · decide
    · omega
    · omega

/-- A bad byte is written as U+FFFD is. -/
theorem escapeMark_shown (m : Option Char) : escapeMark (some (shown m)) = escapeMark m := by
  cases m with
  | none => decide
  | some c => rfl

theorem quoteMarks_shown (ms : List (Option Char)) :
    quoteMarks ((ms.map shown).map some) = quoteMarks ms := by
  rw [quoteMarks, quoteMarks, map_map, flatMap_map]
  simp only [Function.comp_apply, escapeMark_shown]

theorem readText_skip (skip : Nat) : readText skip s = readText 0 (s.drop skip) := by
  induction s generalizing skip with
  | nil => cases skip <;> rfl
  | cons b s ih =>
    cases skip with
    | zero => rfl
    | succ skip => exact ih skip

theorem readText_escape {width : Nat} (h : readEscape s = some (n, width)) :
    readText 0 (ascii '\\' :: s) =
      (readText 0 (s.drop width)).map fun p => (.code n :: p.1, p.2) := by
  rw [readText, if_neg (by decide), if_pos rfl, h]
  simp only [Option.bind_eq_bind, Option.bind_some, readText_skip width]
  cases readText 0 (s.drop width) <;> rfl

theorem readEscape_unicode (hn : n < 65536) :
    readEscape ((unicodeEscape n).tail ++ s) = some (n, 5) := by
  have hhex : ∀ k < 16, hexValue (hexDigit k) = some k := by decide
  have hdigit : ∀ m, hexValue (hexDigit (m % 16)) = some (m % 16) := fun m =>
    hhex _ (Nat.mod_lt _ (by decide))
  simp only [unicodeEscape, tail_cons, cons_append, nil_append, readEscape,
    if_true, hdigit, Option.bind_eq_bind, Option.bind_some, Option.some.injEq, Prod.mk.injEq,
    and_true]
  omega

theorem readEscape_letter (h : escapeLetter c = some b) :
    readEscape (b :: s) = some (c.toNat, 1) := by
  have htable : ∀ p ∈ shortEscapes, p.2 ≠ ascii 'u' ∧ escapeCode p.2 = some p.1 := by decide
  obtain ⟨hu, hcode⟩ := htable _ (mem_shortEscapes h)
  simp [readEscape, if_neg hu, hcode]

/-- A character that is not escaped is read as it stands. -/
theorem readText_encodeRune (hletter : escapeLetter c = none) (hneeds : ¬needsEscape c) :
    readText 0 (encodeRune c ++ s) = (readText 0 s).map fun p => (.char c :: p.1, p.2) := by
  have hcontrol : ¬c.toNat < 0x20 := fun h => hneeds (by simp [needsEscape, h])
  have hquote : c ≠ '"' := fun h => by rw [h] at hletter; exact absurd hletter (by decide)
  have hback : c ≠ '\\' := fun h => by rw [h] at hletter; exact absurd hletter (by decide)
  obtain ⟨b, t, hbt, hhead⟩ := encodeRune_head c
  have hrune := decodeRune_encodeRune c s
  have hdrop : (t ++ s).drop ((b :: t).length - 1) = s := by
    rw [length_cons, Nat.add_sub_cancel, drop_left]
  -- the first byte is no quote, no backslash and no control byte
  have hne : ∀ a : Char, a.toNat < 0x80 → c ≠ a → b ≠ ascii a := by
    intro a ha hca hb
    have hval : (ascii a).toNat = a.toNat := toNat_toUInt8 (by omega)
    rcases hhead with ⟨-, hb', -⟩ | ⟨-, hb', -⟩
    · exact hca (Char.toNat_inj.mp (by rw [← hb', hb, hval]))
    · rw [hb, hval] at hb'
      omega
  have hlow : ¬b.toNat < 0x20 := by
    rcases hhead with ⟨-, hb', -⟩ | ⟨-, hb', -⟩ <;> omega
  have hwell : ¬(c.toNat = runeError ∧ (b :: t).length = 1) := by
    rintro ⟨hc, hlen⟩
    rcases hhead with ⟨hlt, -, -⟩ | ⟨-, -, ht⟩
    · rw [hc] at hlt
      exact absurd hlt (by decide)
    · exact ht (length_eq_zero_iff.mp (Nat.succ.inj hlen))
  rw [hbt, cons_append] at hrune ⊢
  rw [readText, if_neg (hne '"' (by decide) hquote), if_neg (hne '\\' (by decide) hback),
    if_neg hlow, hrune]
  simp only [if_neg hwell, readText_skip ((b :: t).length - 1), hdrop, Char.ofNat_toNat,
    Option.bind_eq_bind]
  cases readText 0 s <;> rfl

/-- What is written for a mark is read as one unit. -/
theorem readText_escapeMark (m : Option Char) :
    readText 0 (escapeMark m ++ s) =
      (readText 0 s).map fun p => (writtenUnit m :: p.1, p.2) := by
  have hunicode : ∀ n < 65536, readText 0 (unicodeEscape n ++ s) =
      (readText 0 s).map fun p => (.code n :: p.1, p.2) := fun n hn =>
    readText_escape (readEscape_unicode hn)
  cases m with
  | none => exact readText_encodeRune (c := Char.ofNat runeError) (by decide) (by decide)
  | some c =>
    cases hletter : escapeLetter c with
    | some b =>
      simp only [escapeMark, writtenUnit, hletter, Option.isSome_some, Bool.true_or, if_true]
      exact readText_escape (readEscape_letter hletter)
    | none =>
      by_cases hneeds : needsEscape c
      · have hlt : c.toNat < 0x3000 := toNat_lt_of_escaped (by rw [hneeds, Bool.or_true])
        simp only [escapeMark, writtenUnit, hletter, hneeds, Option.isSome_none, Bool.or_true,
          if_true]
        exact hunicode _ (by omega)
      · simp only [escapeMark, writtenUnit, hletter, hneeds, Option.isSome_none, Bool.or_false,
          Bool.false_eq_true, if_false]
        exact readText_encodeRune hletter hneeds

theorem readText_flatMap_escapeMark (ms : List (Option Char)) (s : Bytes) :
    readText 0 (ms.flatMap escapeMark ++ ascii '"' :: s) = some (ms.map writtenUnit, s) := by
  induction ms with
  | nil => rw [flatMap_nil, nil_append, readText, if_pos rfl, map_nil]
  | cons m ms ih =>
    rw [flatMap_cons, append_assoc, readText_escapeMark, ih, Option.map_some, map_cons]

theorem exactText_code (h : n < 0xD800 ∨ 0xE000 ≤ n) (us : List TextUnit) :
    exactText (.code n :: us) = .char (Char.ofNat n) :: exactText us := by
  have hpair : pairWith n us = none := by
    unfold pairWith
    split
    · rw [surrogatePair, if_neg (by omega)]
    · rfl
  have hno : isSurrogate n = false := by
    simp only [isSurrogate, Bool.and_eq_false_iff, decide_eq_false_iff_not]
    omega
  rw [exactText, exactTextFrom, hpair]
  simp [codeUnit, hno, exactText]

/-- What is written for a character means that character. -/
theorem exactText_writtenUnit (us : List TextUnit) :
    exactText (writtenUnit (some c) :: us) = .char c :: exactText us := by
  simp only [writtenUnit]
  split
  · rename_i hesc
    have hlt := toNat_lt_of_escaped hesc
    rw [exactText_code (by omega), Char.ofNat_toNat]
  · rfl

/-- A string is decoded to its characters, with U+FFFD for every bad byte. -/
theorem goText_writtenMarks (ms : List (Option Char)) :
    goText (ms.map writtenUnit) = ms.map shown := by
  have hexact : exactText (ms.map writtenUnit) = ms.map fun m => .char (shown m) := by
    induction ms with
    | nil => rfl
    | cons m ms ih =>
      cases m with
      | none => rw [map_cons, map_cons, ← ih]; rfl
      | some c => rw [map_cons, exactText_writtenUnit, ih, map_cons]; rfl
  rw [goText, hexact, map_map]
  rfl

theorem goText_writtenUnit (cs : List Char) : goText ((cs.map some).map writtenUnit) = cs := by
  rw [goText_writtenMarks, map_map]
  exact map_id' cs

/-- What is written for a string tells its characters, with U+FFFD for every bad byte. -/
theorem quoteMarks_append_inj {ms ms' : List (Option Char)}
    (h : quoteMarks ms ++ s = quoteMarks ms' ++ s') : ms.map shown = ms'.map shown ∧ s = s' := by
  have hread : ∀ ms s, readText 0 (quoteMarks ms ++ s).tail = some (ms.map writtenUnit, s) :=
    fun ms s => by
      rw [quoteMarks, cons_append, tail_cons, append_assoc]
      exact readText_flatMap_escapeMark ms s
  have hunits := hread ms s
  rw [h, hread ms' s', Option.some.injEq, Prod.mk.injEq] at hunits
  have htext := congrArg goText hunits.1
  rw [goText_writtenMarks, goText_writtenMarks] at htext
  exact ⟨htext.symm, hunits.2.symm⟩

/-! ## Numbers read back -/

/-- What may follow a number: nothing that would be read into it. -/
def Ends : Bytes → Prop
  | [] => True
  | b :: _ => isDigit b = false ∧ b ≠ ascii '.' ∧ b ≠ ascii 'e' ∧ b ≠ ascii 'E'

theorem ends_comma (s : Bytes) : Ends (ascii ',' :: s) :=
  ⟨by decide, by decide, by decide, by decide⟩

theorem ends_bracket : Ends [ascii ']'] := ⟨by decide, by decide, by decide, by decide⟩

theorem ends_brace : Ends [ascii '\x7d'] := ⟨by decide, by decide, by decide, by decide⟩

theorem readDigits_append {ds : Bytes} (hne : ds ≠ []) (hds : ∀ b ∈ ds, isDigit b)
    (hs : ∀ b t, s = b :: t → isDigit b = false) : readDigits (ds ++ s) = some (ds, s) := by
  have hstop : s.takeWhile isDigit = [] ∧ s.dropWhile isDigit = s := by
    cases s with
    | nil => exact ⟨rfl, rfl⟩
    | cons b t => simp [hs b t rfl]
  rw [readDigits, takeWhile_append_of_pos hds, dropWhile_append_of_pos hds, hstop.1,
    hstop.2, append_nil, if_neg hne]

/-- The exponent, and the end of the number before what follows it. -/
theorem readExp_append (hs : Ends s)
    (hexp : ∀ neg ds, exp = some (neg, ds) → ds ≠ [] ∧ ∀ b ∈ ds, isDigit b) :
    readExp (expText exp ++ s) = some (exp, s) := by
  match exp with
  | none =>
    cases s with
    | nil => rfl
    | cons b t =>
      obtain ⟨-, -, he, hE⟩ := hs
      simp [expText, readExp, he, hE]
  | some (neg, ds) =>
    have hstop : ∀ b t, s = b :: t → isDigit b = false := fun b t h => by
      subst h
      exact hs.1
    obtain ⟨hne, hds⟩ := hexp neg ds rfl
    have hdigits := readDigits_append hne hds hstop
    cases neg
    · simp [expText, readExp, hdigits, show ascii '+' ≠ ascii '-' by decide]
    · simp [expText, readExp, hdigits]

theorem expText_head (hs : Ends s)
    {t : Bytes} (h : expText exp ++ s = b :: t) : isDigit b = false ∧ b ≠ ascii '.' := by
  match exp with
  | none =>
    subst h
    exact ⟨hs.1, hs.2.1⟩
  | some (_, _) =>
    cases h
    decide

/-- The decimals before an exponent or the end of the number. -/
theorem readFrac_append {frac : Bytes} (hds : ∀ b ∈ frac, isDigit b)
    (hs : ∀ b t, s = b :: t → isDigit b = false ∧ b ≠ ascii '.') :
    readFrac (fracText frac ++ s) = some (frac, s) := by
  by_cases hne : frac = []
  · rw [hne, fracText, if_pos rfl, nil_append]
    cases s with
    | nil => rfl
    | cons b t => rw [readFrac, if_neg (hs b t rfl).2]
  · rw [fracText, if_neg hne, cons_append, readFrac, if_pos rfl]
    exact readDigits_append hne hds fun b t h => (hs b t h).1

/-- The digits of the number before a point or an exponent. -/
theorem readInt_append {int : Bytes} (hds : ∀ b ∈ int, isDigit b)
    (hhead : int = [ascii '0'] ∨ ∃ b ds, int = b :: ds ∧ b ≠ ascii '0')
    (hs : ∀ b t, s = b :: t → isDigit b = false) : readInt (int ++ s) = some (int, s) := by
  rcases hhead with rfl | ⟨b, ds, rfl, hb⟩
  · rfl
  · rw [cons_append, readInt, if_neg hb, ← cons_append]
    exact readDigits_append (cons_ne_nil _ _) hds hs

theorem NumText.WellFormed.int_cons (ht : t.WellFormed) :
    ∃ b ds, t.int = b :: ds ∧ isDigit b := by
  obtain ⟨b, ds, hint⟩ : ∃ b ds, t.int = b :: ds := by
    rcases ht.int_head with h | ⟨b, ds, h, -⟩
    · exact ⟨_, _, h⟩
    · exact ⟨b, ds, h⟩
  exact ⟨b, ds, hint, ht.int_digits b (by rw [hint]; exact mem_cons_self)⟩

theorem numberText_head (ht : t.WellFormed) :
    ∃ b rest, numberText t = b :: rest ∧ (b = ascii '-' ∨ isDigit b) := by
  unfold numberText
  cases t.neg
  · obtain ⟨b, ds, hint, hb⟩ := ht.int_cons
    refine ⟨b, ds ++ (fracText t.frac ++ expText t.exp), ?_, .inr hb⟩
    rw [if_neg Bool.false_ne_true, nil_append, hint, cons_append]
  · exact ⟨_, _, rfl, .inl rfl⟩

theorem readNumber_numberText (ht : t.WellFormed) (hs : Ends s) :
    readNumber (numberText t ++ s) = some (t, s) := by
  have hfrac : ∀ b rest, fracText t.frac ++ (expText t.exp ++ s) = b :: rest →
      isDigit b = false := by
    intro b rest h
    unfold fracText at h
    split at h
    · exact (expText_head hs h).1
    · cases h
      decide
  have hmag : readMag t.neg (t.int ++ (fracText t.frac ++ (expText t.exp ++ s))) =
      some (t, s) := by
    simp only [readMag, Option.bind_eq_bind, readInt_append ht.int_digits ht.int_head hfrac,
      readFrac_append ht.frac_digits (fun b rest h => expText_head hs h),
      readExp_append hs ht.exp_digits, Option.bind_some]
  have htext : numberText t ++ s =
      (if t.neg then [ascii '-'] else []) ++
        (t.int ++ (fracText t.frac ++ (expText t.exp ++ s))) := by
    simp [numberText]
  rw [htext]
  cases hneg : t.neg
  · obtain ⟨b, ds, hint, hdigit⟩ := ht.int_cons
    have hb : b ≠ ascii '-' := fun h => by
      rw [h] at hdigit
      exact absurd hdigit (by decide)
    rw [hneg, hint] at hmag
    rw [if_neg Bool.false_ne_true, nil_append, hint, cons_append, readNumber, if_neg hb,
      ← cons_append, hmag]
  · rw [hneg] at hmag
    rw [if_pos rfl, cons_append, nil_append, readNumber, if_pos rfl, hmag]

/-! ## Values read back -/

theorem skipSpaces_cons (h : isJsonSpace b = false) : skipSpaces (b :: s) = b :: s := by
  rw [skipSpaces, dropWhile_cons, h, if_neg Bool.false_ne_true]

/-- A number begins with nothing that another value begins with. -/
theorem digit_facts (h : b = ascii '-' ∨ isDigit b) :
    isJsonSpace b = false ∧ b ≠ ascii ']' ∧ b ≠ ascii '\x7b' ∧ b ≠ ascii '[' ∧ b ≠ ascii '"' ∧
      b ≠ ascii 't' ∧ b ≠ ascii 'f' ∧ b ≠ ascii 'n' := by
  rcases h with rfl | h
  · decide
  · have hne : ∀ c, isDigit c = false → b ≠ c := fun c hc hb => by
      rw [hb, hc] at h
      cases h
    simp only [isJsonSpace, Bool.or_eq_false_iff, decide_eq_false_iff_not]
    refine ⟨⟨⟨⟨?_, ?_⟩, ?_⟩, ?_⟩, ?_, ?_, ?_, ?_, ?_, ?_, ?_⟩ <;> exact hne _ (by decide)

/-- The first byte of a value: no white space, and no closing bracket. -/
theorem write_head : ∃ b rest, write v = b :: rest ∧ isJsonSpace b = false ∧ b ≠ ascii ']' := by
  cases v with
  | null => exact ⟨_, _, rfl, by decide, by decide⟩
  | bool b => cases b <;> exact ⟨_, _, rfl, by decide, by decide⟩
  | num f =>
    obtain ⟨b, rest, htext, hb⟩ := numberText_head (wellFormed_floatText f)
    obtain ⟨hspace, hbracket, -⟩ := digit_facts hb
    exact ⟨b, rest, by rw [write, htext], hspace, hbracket⟩
  | str | arr | obj => exact ⟨_, _, rfl, by decide, by decide⟩

theorem readValue_numberText (ht : t.WellFormed) (fuel : Nat) (hs : Ends s) :
    readValue (fuel + 1) (numberText t ++ s) = some (.num t, s) := by
  obtain ⟨b, rest, htext, hb⟩ := numberText_head ht
  obtain ⟨hspace, -, h1, h2, h3, h4, h5, h6⟩ := digit_facts hb
  have hread := readNumber_numberText ht hs
  rw [htext] at hread
  rw [htext, cons_append, readValue, skipSpaces_cons hspace]
  dsimp only
  rw [if_neg h1, if_neg h2, if_neg h3, if_neg h4, if_neg h5, if_neg h6, ← cons_append, hread]
  rfl

/-- A string is a value, also one written for bad bytes. -/
theorem readValue_quoteMarks (ms : List (Option Char)) (fuel : Nat) (s : Bytes) :
    readValue (fuel + 1) (quoteMarks ms ++ s) = some (.str (ms.map writtenUnit), s) := by
  have hread := readText_flatMap_escapeMark ms s
  rw [quoteMarks, cons_append, append_assoc, readValue, skipSpaces_cons (by decide)]
  dsimp only
  rw [if_neg (by decide), if_neg (by decide), if_pos rfl, cons_append, nil_append, hread]
  rfl

/-- A value is read back, with fuel for every byte of it, whatever follows. -/
def ReadsBack (v : GoValue) : Prop :=
  ∀ fuel s, Ends s → 2 * (write v).length ≤ fuel →
    ∃ j, readValue fuel (write v ++ s) = some (j, s) ∧ Json.mapM parseFloat goText j = some v

/-- What is written behind an element or a member ends a number. -/
theorem ends_behind (p : Prop) [Decidable p] (hb : Ends [b]) (more : Bytes) :
    Ends ((if p then [b] else ascii ',' :: more) ++ s) ∧
      0 < (if p then [b] else ascii ',' :: more).length := by
  split
  · exact ⟨hb, Nat.one_pos⟩
  · exact ⟨ends_comma _, Nat.succ_pos _⟩

theorem readElements_write (hne : vs ≠ []) (ih : ∀ v ∈ vs, ReadsBack v)
    (hfuel : 2 * (writeElements vs).length ≤ fuel) :
    ∃ js, readElements fuel (writeElements vs ++ s) = some (js, s) ∧
      Json.mapElements parseFloat goText js = some vs := by
  induction vs generalizing fuel with
  | nil => exact absurd rfl hne
  | cons v vs ihvs =>
    obtain ⟨hends, hpos⟩ := ends_behind (vs = []) ends_bracket (writeElements vs)
    rw [writeElements, length_append] at hfuel
    obtain ⟨n, rfl⟩ := Nat.exists_eq_add_one.mpr (show 0 < fuel by omega)
    obtain ⟨j, hread, hmap⟩ := ih v mem_cons_self n _ hends (by omega)
    rw [writeElements, append_assoc, readElements, hread]
    by_cases hvs : vs = []
    · refine ⟨[j], ?_, by simp [Json.mapElements, hmap, hvs]⟩
      rw [if_pos hvs]
      rfl
    · rw [if_neg hvs, length_cons] at hfuel
      obtain ⟨js, hreads, hmaps⟩ :=
        @ihvs n hvs (fun w hw => ih w (mem_cons_of_mem _ hw)) (by omega)
      refine ⟨j :: js, ?_, by simp [Json.mapElements, hmap, hmaps]⟩
      rw [if_neg hvs, cons_append]
      show (readElements n (writeElements vs ++ s)).map _ = _
      rw [hreads]
      rfl

/-- The key of a member, and what is read behind it. -/
theorem readMembers_key (k : List Char) (t : Bytes) :
    readMembers (fuel + 1) (quoteMarks (k.map some) ++ ascii ':' :: t) =
      (readValue fuel t).bind fun (v, s) =>
        match skipSpaces s with
        | [] => none
        | b :: rest =>
          if b = ascii ',' then
            (readMembers fuel rest).map fun (ms, s) =>
              (((k.map some).map writtenUnit, v) :: ms, s)
          else if b = ascii '\x7d' then some ([((k.map some).map writtenUnit, v)], rest)
          else none := by
  have hkey := readText_flatMap_escapeMark (k.map some) (ascii ':' :: t)
  rw [readMembers, quoteMarks, cons_append, skipSpaces_cons (by decide), append_assoc,
    cons_append, nil_append]
  dsimp only
  rewrite [if_pos rfl, hkey]
  rfl

theorem readMembers_write {ms : List (List Char × GoValue)} (hne : ms ≠ [])
    (ih : ∀ m ∈ ms, ReadsBack m.2) (hfuel : 2 * (writeMembers ms).length ≤ fuel) :
    ∃ js, readMembers fuel (writeMembers ms ++ s) = some (js, s) ∧
      Json.mapMembers parseFloat goText js = some ms := by
  induction ms generalizing fuel with
  | nil => exact absurd rfl hne
  | cons m ms ihms =>
    obtain ⟨k, v⟩ := m
    obtain ⟨hends, hpos⟩ := ends_behind (ms = []) ends_brace (writeMembers ms)
    simp only [writeMembers, length_append, length_cons] at hfuel
    obtain ⟨n, rfl⟩ := Nat.exists_eq_add_one.mpr (show 0 < fuel by omega)
    have hv : ReadsBack v := ih (k, v) mem_cons_self
    obtain ⟨j, hread, hmap⟩ := hv n _ hends (by omega)
    rw [writeMembers, append_assoc, cons_append, append_assoc, readMembers_key, hread]
    by_cases hms : ms = []
    · refine ⟨[((k.map some).map writtenUnit, j)], ?_, ?_⟩
      · rw [if_pos hms]
        rfl
      · simp only [Json.mapMembers, hmap, Option.bind_some, Option.map_some, goText_writtenUnit, hms]
    · rw [if_neg hms, length_cons] at hfuel
      obtain ⟨js, hreads, hmaps⟩ :=
        @ihms n hms (fun m hm => ih m (mem_cons_of_mem _ hm)) (by omega)
      refine ⟨((k.map some).map writtenUnit, j) :: js, ?_, ?_⟩
      · rw [if_neg hms, cons_append]
        show (readMembers n (writeMembers ms ++ s)).map _ = _
        rw [hreads]
        rfl
      · simp only [Json.mapMembers, hmap, hmaps, Option.bind_some, Option.map_some,
          goText_writtenUnit]

/-- The first element of an array is not taken for its end. -/
theorem writeElements_head (hne : vs ≠ []) :
    ∃ b rest, writeElements vs = b :: rest ∧ isJsonSpace b = false ∧ b ≠ ascii ']' := by
  obtain ⟨v, vs, rfl⟩ := exists_cons_of_ne_nil hne
  obtain ⟨b, rest, hwrite, hb⟩ := write_head
  exact ⟨b, _, by rw [writeElements, hwrite, cons_append], hb⟩

theorem ReadsBack.of_succ (h : ∀ n s, Ends s → 2 * (write v).length ≤ n + 1 →
      ∃ j, readValue (n + 1) (write v ++ s) = some (j, s) ∧
        Json.mapM parseFloat goText j = some v) : ReadsBack v := by
  intro fuel s hs hfuel
  obtain ⟨b, rest, hwrite, -⟩ := write_head
  obtain ⟨n, rfl⟩ : ∃ n, fuel = n + 1 := ⟨fuel - 1, by
    rw [hwrite, length_cons] at hfuel
    omega⟩
  exact h n s hs hfuel

/-- What is written is read back, and decoded to what it was written for. -/
theorem readValue_write (v : GoValue) : ReadsBack v := by
  induction v using Json.induct with
  | null => exact .of_succ fun n s _ _ => ⟨.null, rfl, rfl⟩
  | bool b => exact .of_succ fun n s _ _ => by cases b <;> exact ⟨.bool _, rfl, rfl⟩
  | num f =>
    refine .of_succ fun n s hs _ => ⟨.num (floatText f), ?_, ?_⟩
    · rw [write, readValue_numberText (wellFormed_floatText f) n hs]
    · rw [Json.mapM, parseFloat_floatText]
      rfl
  | str cs =>
    refine .of_succ fun n s _ _ => ⟨.str ((cs.map some).map writtenUnit), ?_, ?_⟩
    · rw [write, readValue_quoteMarks]
    · rw [Json.mapM, goText_writtenUnit]
  | arr vs ih =>
    refine .of_succ fun n s _ hfuel => ?_
    by_cases hvs : vs = []
    · subst hvs
      exact ⟨.arr [], rfl, rfl⟩
    rw [write, length_cons] at hfuel
    have hn : 2 * (writeElements vs).length ≤ n := by omega
    obtain ⟨js, hread, hmap⟩ := readElements_write hvs ih hn
    obtain ⟨b, rest, hhead, hspace, hbracket⟩ := writeElements_head hvs
    refine ⟨.arr js, ?_, ?_⟩
    · rw [hhead, cons_append] at hread
      rw [write, cons_append, hhead, cons_append, readValue, skipSpaces_cons (by decide)]
      dsimp only
      rw [if_neg (by decide), if_pos rfl, skipSpaces_cons hspace]
      dsimp only
      rw [if_neg hbracket, hread]
      rfl
    · rw [Json.mapM, hmap]
      rfl
  | obj ms ih =>
    refine .of_succ fun n s _ hfuel => ?_
    by_cases hms : ms = []
    · subst hms
      exact ⟨.obj [], rfl, rfl⟩
    rw [write, length_cons] at hfuel
    have hn : 2 * (writeMembers ms).length ≤ n := by omega
    obtain ⟨js, hread, hmap⟩ := readMembers_write hms ih hn
    obtain ⟨rest, hhead⟩ : ∃ rest, writeMembers ms = ascii '"' :: rest := by
      obtain ⟨⟨k, v⟩, ms, rfl⟩ := exists_cons_of_ne_nil hms
      exact ⟨_, by rw [writeMembers, quoteMarks, cons_append]⟩
    refine ⟨.obj js, ?_, ?_⟩
    · rw [hhead, cons_append] at hread
      rw [write, cons_append, hhead, cons_append, readValue, skipSpaces_cons (by decide)]
      dsimp only
      rw [if_pos rfl, skipSpaces_cons (by decide)]
      dsimp only
      rw [if_neg (by decide), hread]
      rfl
    · rw [Json.mapM, hmap]
      rfl

theorem write_append_inj (hs : Ends s) (hs' : Ends s')
    (h : write v ++ s = write v' ++ s') : v = v' ∧ s = s' := by
  obtain ⟨j, hread, hmap⟩ :=
    readValue_write v (2 * (write v).length + 2 * (write v').length) s hs (by omega)
  obtain ⟨j', hread', hmap'⟩ :=
    readValue_write v' (2 * (write v).length + 2 * (write v').length) s' hs' (by omega)
  cases hread'.symm.trans (h ▸ hread)
  exact ⟨Option.some.inj (hmap.symm.trans hmap'), rfl⟩

/-- `Json.norm_eq_iff`, with keys compared as lists. -/
theorem norm_eq_iff_value : v.norm = v'.norm ↔ v.value = v'.value := by
  convert Json.norm_eq_iff

/-- What a map is written as says what is in the map, and no more. -/
theorem marshal_append_inj (hs : Ends s) (hs' : Ends s')
    (h : marshal v ++ s = marshal v' ++ s') : v.value = v'.value ∧ s = s' := by
  obtain ⟨hnorm, hrest⟩ := write_append_inj hs hs' h
  exact ⟨norm_eq_iff_value.mp hnorm, hrest⟩

theorem marshal_congr (h : v.value = v'.value) : marshal v = marshal v' := by
  rw [marshal, marshal, norm_eq_iff_value.mpr h]

end Zanskar.Go
