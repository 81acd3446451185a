import Zanskar.Go.Json
import Zanskar.Go.Float

/-!
# Reading JSON text (`json.Unmarshal` into an `any`)

`parse` is the grammar of `encoding/json` over bytes: white space, literals,
numbers, strings with their escapes, arrays and objects, nothing behind the value,
and at most ten thousand levels. A string need not be UTF-8 and an escape may be
half of a surrogate pair; the text keeps both apart from characters (`exactText`),
and Go's decoder writes U+FFFD for each (`goText`).
-/

namespace Zanskar.Go

/-! ## Strings -/

/-- One unit of a string as it is written: a character in UTF-8, a byte that begins
none, or an escape with its UTF-16 code. -/
inductive TextUnit where
  | char (c : Char)
  | bad (b : UInt8)
  | code (n : Nat)
deriving DecidableEq

/-- One unit of a string as it is meant: pairs of surrogates are characters. -/
inductive ExactUnit where
  | char (c : Char)
  | bad (b : UInt8)
  | lone (n : Nat)
deriving DecidableEq

/-- A hexadecimal digit. -/
def hexValue (b : UInt8) : Option Nat :=
  let n := b.toNat
  if 0x30 ≤ n ∧ n ≤ 0x39 then some (n - 0x30)
  else if 0x61 ≤ n ∧ n ≤ 0x66 then some (n - 0x61 + 10)
  else if 0x41 ≤ n ∧ n ≤ 0x46 then some (n - 0x41 + 10)
  else none

/-- The escapes of one letter the encoder writes: the code and the letter. -/
def shortEscapes : List (Nat × UInt8) :=
  [(0x22, ascii '"'), (0x5C, ascii '\\'), (0x08, ascii 'b'), (0x0C, ascii 'f'), (0x0A, ascii 'n'),
    (0x0D, ascii 'r'), (0x09, ascii 't')]

/-- The code of an escape of one letter; a slash may be escaped too. -/
def escapeCode (b : UInt8) : Option Nat :=
  if b = ascii '/' then some 0x2F else (shortEscapes.find? (·.2 = b)).map Prod.fst

/-- The escape behind a backslash: its code, and how many bytes it takes. -/
def readEscape : Bytes → Option (Nat × Nat)
  | [] => none
  | b :: s =>
    if b = ascii 'u' then
      match s with
      | h₁ :: h₂ :: h₃ :: h₄ :: _ => do
        let n₁ ← hexValue h₁
        let n₂ ← hexValue h₂
        let n₃ ← hexValue h₃
        let n₄ ← hexValue h₄
        some (n₁ * 4096 + n₂ * 256 + n₃ * 16 + n₄, 5)
      | _ => none
    else (escapeCode b).map (·, 1)

/-- The rest of a string up to its closing quote, while `skip` bytes of the unit read
last are still to be passed over. -/
def readText : Nat → Bytes → Option (List TextUnit × Bytes)
  | _, [] => none
  | skip + 1, _ :: s => readText skip s
  | 0, b :: s =>
    if b = ascii '"' then some ([], s)
    else if b = ascii '\\' then do
      let (n, width) ← readEscape s
      let (us, rest) ← readText width s
      some (.code n :: us, rest)
    else if b.toNat < 0x20 then none
    else do
      let (r, width) := decodeRune (b :: s)
      let (us, rest) ← readText (width - 1) s
      some ((if r = runeError ∧ width = 1 then .bad b else .char (Char.ofNat r)) :: us, rest)

/-- A code that is no character. -/
def isSurrogate (n : Nat) : Bool := 0xD800 ≤ n && n < 0xE000

/-- `utf16.DecodeRune`: the character of a high and a low surrogate. -/
def surrogatePair (hi lo : Nat) : Option Char :=
  if 0xD800 ≤ hi ∧ hi < 0xDC00 ∧ 0xDC00 ≤ lo ∧ lo < 0xE000 then
    some (Char.ofNat ((hi - 0xD800) * 1024 + (lo - 0xDC00) + 0x10000))
  else none

/-- What a code stands for by itself. -/
def codeUnit (n : Nat) : ExactUnit := if isSurrogate n then .lone n else .char (Char.ofNat n)

/-- The character an escape makes with the escape behind it. -/
def pairWith (n : Nat) : List TextUnit → Option Char
  | .code lo :: _ => surrogatePair n lo
  | _ => none

/-- What a string means, while the second half of a pair may still be to be passed
over. -/
def exactTextFrom : Bool → List TextUnit → List ExactUnit
  | _, [] => []
  | true, _ :: us => exactTextFrom false us
  | false, .char c :: us => .char c :: exactTextFrom false us
  | false, .bad b :: us => .bad b :: exactTextFrom false us
  | false, .code n :: us =>
    match pairWith n us with
    | some c => .char c :: exactTextFrom true us
    | none => codeUnit n :: exactTextFrom false us

/-- What a string means, before anything in it is replaced. -/
def exactText (us : List TextUnit) : List ExactUnit := exactTextFrom false us

/-- The character a Go string gets: U+FFFD for what is none. -/
def ExactUnit.goChar : ExactUnit → Char
  | .char c => c
  | .bad _ | .lone _ => Char.ofNat runeError

/-- `unquote`: the string as Go decodes it. -/
def goText (us : List TextUnit) : List Char := (exactText us).map ExactUnit.goChar

/-! ## Numbers -/

/-- At least one digit. -/
def readDigits (s : Bytes) : Option (Bytes × Bytes) :=
  if s.takeWhile isDigit = [] then none
  else some (s.takeWhile isDigit, s.dropWhile isDigit)

/-- The digits before the point: a zero stands alone. -/
def readInt (s : Bytes) : Option (Bytes × Bytes) :=
  match s with
  | [] => none
  | b :: rest => if b = ascii '0' then some ([b], rest) else readDigits s

/-- The digits behind the point, if there is one. -/
def readFrac (s : Bytes) : Option (Bytes × Bytes) :=
  match s with
  | [] => some ([], [])
  | b :: rest => if b = ascii '.' then readDigits rest else some ([], s)

/-- The exponent, if there is one. -/
def readExp (s : Bytes) : Option (Option (Bool × Bytes) × Bytes) :=
  match s with
  | [] => some (none, [])
  | b :: rest =>
    if b = ascii 'e' ∨ b = ascii 'E' then
      match rest with
      | [] => none
      | c :: tail =>
        if c = ascii '-' then (readDigits tail).map fun (ds, rest) => (some (true, ds), rest)
        else if c = ascii '+' then (readDigits tail).map fun (ds, rest) => (some (false, ds), rest)
        else (readDigits rest).map fun (ds, rest) => (some (false, ds), rest)
    else some (none, s)

/-- A number behind its sign. -/
def readMag (neg : Bool) (s : Bytes) : Option (NumText × Bytes) := do
  let (int, s) ← readInt s
  let (frac, s) ← readFrac s
  let (exp, s) ← readExp s
  some (⟨neg, int, frac, exp⟩, s)

/-- A number. -/
def readNumber (s : Bytes) : Option (NumText × Bytes) :=
  match s with
  | [] => none
  | b :: rest => if b = ascii '-' then readMag true rest else readMag false s

/-! ## Values -/

/-- A JSON text, its numbers and strings as they are written. -/
abbrev JsonText := Json NumText (List TextUnit)

/-- White space between tokens. -/
def isJsonSpace (b : UInt8) : Bool :=
  b = ascii ' ' || b = ascii '\t' || b = ascii '\r' || b = ascii '\n'

/-- Behind the white space. -/
def skipSpaces (s : Bytes) : Bytes := s.dropWhile isJsonSpace

/-- The rest of a literal. -/
def readLiteral (word : String) (j : JsonText) (s : Bytes) : Option (JsonText × Bytes) :=
  if s.take word.length = lit word then some (j, s.drop word.length) else none

mutual

/-- A value. Every call reads a byte or is followed by one that does, so the fuel of
`parse` is never used up. -/
def readValue : Nat → Bytes → Option (JsonText × Bytes)
  | 0, _ => none
  | fuel + 1, s =>
    match skipSpaces s with
    | [] => none
    | b :: rest =>
      if b = ascii '\x7b' then
        match skipSpaces rest with
        | [] => none
        | c :: tail =>
          if c = ascii '\x7d' then some (.obj [], tail)
          else (readMembers fuel rest).map fun (ms, s) => (.obj ms, s)
      else if b = ascii '[' then
        match skipSpaces rest with
        | [] => none
        | c :: tail =>
          if c = ascii ']' then some (.arr [], tail)
          else (readElements fuel rest).map fun (vs, s) => (.arr vs, s)
      else if b = ascii '"' then (readText 0 rest).map fun (us, s) => (.str us, s)
      else if b = ascii 't' then readLiteral "rue" (.bool true) rest
      else if b = ascii 'f' then readLiteral "alse" (.bool false) rest
      else if b = ascii 'n' then readLiteral "ull" .null rest
      else (readNumber (b :: rest)).map fun (t, s) => (.num t, s)

/-- The elements of an array, with the bracket behind them. -/
def readElements : Nat → Bytes → Option (List JsonText × Bytes)
  | 0, _ => none
  | fuel + 1, s => do
    let (v, s) ← readValue fuel s
    match skipSpaces s with
    | [] => none
    | b :: rest =>
      if b = ascii ',' then (readElements fuel rest).map fun (vs, s) => (v :: vs, s)
      else if b = ascii ']' then some ([v], rest)
      else none

/-- The members of an object, with the brace behind them. -/
def readMembers : Nat → Bytes → Option (List (List TextUnit × JsonText) × Bytes)
  | 0, _ => none
  | fuel + 1, s =>
    match skipSpaces s with
    | [] => none
    | q :: s =>
      if q = ascii '"' then do
        let (k, s) ← readText 0 s
        match skipSpaces s with
        | [] => none
        | c :: s =>
          if c = ascii ':' then do
            let (v, s) ← readValue fuel s
            match skipSpaces s with
            | [] => none
            | b :: rest =>
              if b = ascii ',' then (readMembers fuel rest).map fun (ms, s) => ((k, v) :: ms, s)
              else if b = ascii '\x7d' then some ([(k, v)], rest)
              else none
          else none
      else none

end

mutual

/-- How deep arrays and objects are nested. -/
def depth : JsonText → Nat
  | .arr vs => elementsDepth vs + 1
  | .obj ms => membersDepth ms + 1
  | _ => 0

/-- The depth of the deepest element. -/
def elementsDepth : List JsonText → Nat
  | [] => 0
  | v :: vs => max (depth v) (elementsDepth vs)

/-- The depth of the deepest member. -/
def membersDepth : List (List TextUnit × JsonText) → Nat
  | [] => 0
  | (_, v) :: ms => max (depth v) (membersDepth ms)

end

/-- `maxNestingDepth` of `encoding/json`. -/
def maxNestingDepth : Nat := 10000

/-- `checkValid` and the tree it finds: one value and nothing behind it. -/
def parse (s : Bytes) : Option JsonText := do
  let (j, rest) ← readValue (2 * s.length + 2) s
  if skipSpaces rest = [] ∧ depth j ≤ maxNestingDepth then some j else none

end Zanskar.Go
