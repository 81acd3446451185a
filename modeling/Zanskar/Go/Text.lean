import Mathlib.Data.List.DropRight
import Mathlib.Tactic

/-!
# Text handling of the Go runtime

The parts of `strings`, `unicode` and `fmt` that the gateway's checks rest on,
over lists of characters: trimming, the character classes, and the scanner
behind `fmt.Sscanf(s, "%d:%d", &h, &m)`. The scanner is kept as the runtime has
it: it skips leading spaces before each number, takes a sign, stops at a
newline and does not look at what follows the second number.
-/

namespace Zanskar.Go

open List

/-- The character's code point lies in `[lo, hi]`. -/
def inRange (c : Char) (lo hi : Nat) : Bool := lo ≤ c.toNat && c.toNat ≤ hi

/-- `unicode.IsSpace`. -/
def isSpace (c : Char) : Bool :=
  inRange c 0x09 0x0D || c.toNat = 0x20 || c.toNat = 0x85 || c.toNat = 0xA0 ||
    c.toNat = 0x1680 || inRange c 0x2000 0x200A || inRange c 0x2028 0x2029 ||
    c.toNat = 0x202F || c.toNat = 0x205F || c.toNat = 0x3000

/-- `unicode.IsControl`: the C0 and C1 controls and delete. -/
def isControl (c : Char) : Bool := c.toNat ≤ 0x1F || inRange c 0x7F 0x9F

/-- The format characters, `unicode.Cf`. -/
def isFormat (c : Char) : Bool :=
  c.toNat = 0x00AD || inRange c 0x0600 0x0605 || c.toNat = 0x061C ||
    c.toNat = 0x06DD || c.toNat = 0x070F || inRange c 0x0890 0x0891 ||
    c.toNat = 0x08E2 || c.toNat = 0x180E || inRange c 0x200B 0x200F ||
    inRange c 0x202A 0x202E || inRange c 0x2060 0x2064 ||
    inRange c 0x2066 0x206F || c.toNat = 0xFEFF || inRange c 0xFFF9 0xFFFB ||
    c.toNat = 0x110BD || c.toNat = 0x110CD || inRange c 0x13430 0x1343F ||
    inRange c 0x1BCA0 0x1BCA3 || inRange c 0x1D173 0x1D17A ||
    c.toNat = 0xE0001 || inRange c 0xE0020 0xE007F

/-- `strings.TrimSpace`. -/
def trimSpace (s : String) : String :=
  String.ofList ((s.toList.dropWhile isSpace).rdropWhile isSpace)

/-- Trimming the end leaves nothing to drop at a front already trimmed. -/
theorem dropWhile_rdropWhile {p : Char → Bool} {cs : List Char} (h : cs.dropWhile p = cs) :
    (cs.rdropWhile p).dropWhile p = cs.rdropWhile p := by
  obtain ⟨tail, htail⟩ := rdropWhile_prefix p cs
  cases hc : cs.rdropWhile p with
  | nil => rfl
  | cons d ds =>
    refine dropWhile_cons_of_neg fun hd => ?_
    rw [hc] at htail
    rw [← htail, cons_append, dropWhile_cons_of_pos hd] at h
    have hlen := congrArg length h
    have hle := (dropWhile_sublist (l := ds ++ tail) p).length_le
    simp only [length_cons] at hlen
    omega

theorem trimSpace_trimSpace (s : String) : trimSpace (trimSpace s) = trimSpace s := by
  unfold trimSpace
  rw [String.toList_ofList,
    dropWhile_rdropWhile (dropWhile_idempotent isSpace s.toList),
    rdropWhile_idempotent]

/-- `unicode.ToLower` as far as ASCII shows it: the capital letters, and the two
characters outside ASCII whose lower case is an ASCII letter. Any other character
keeps its own; its lower case is never ASCII, so no comparison with an ASCII word
sees the difference. -/
def lower (c : Char) : Char :=
  if c.toNat = 0x130 then 'i' else if c.toNat = 0x212A then 'k' else c.toLower

/-- `strings.ToLower`, where its result is compared with ASCII words. -/
def toLower (s : String) : String := String.ofList (s.toList.map lower)

/-- Case, where two texts of any kind are compared: `strings.ToLower` and
`strings.EqualFold`, and the database's `LOWER`. Outside ASCII each goes by tables of
its own, and SQLite's has none. -/
class Casing where
  toLower : String → String
  equalFold : String → String → Bool
  dbLower : String → String

/-- Case in ASCII, for runs with ASCII names. -/
instance asciiCasing : Casing where
  toLower := toLower
  equalFold a b := toLower a = toLower b
  dbLower := toLower

/-- One character inside `strconv.Quote`. Outside ASCII every character is taken
as printable. -/
def quoteChar (c : Char) : List Char :=
  match c.toNat with
  | 0x07 => ['\\', 'a']
  | 0x08 => ['\\', 'b']
  | 0x09 => ['\\', 't']
  | 0x0A => ['\\', 'n']
  | 0x0B => ['\\', 'v']
  | 0x0C => ['\\', 'f']
  | 0x0D => ['\\', 'r']
  | 0x22 => ['\\', '"']
  | 0x5C => ['\\', '\\']
  | n =>
    if n < 0x20 ∨ n = 0x7F then
      ['\\', 'x', Nat.digitChar (n / 16), Nat.digitChar (n % 16)]
    else [c]

/-- The verb `%q` of a string. -/
def quote (s : String) : String :=
  "\"" ++ String.ofList (s.toList.flatMap quoteChar) ++ "\""

/-! ## The scanner of `fmt` -/

/-- `(*ss).SkipSpace` with newlines not counted as spaces: `none` is the error
`unexpected newline` (a carriage return is a space, so one before the newline
ends the same way). -/
def skipSpace : List Char → Option (List Char)
  | [] => some []
  | c :: cs =>
    if c = '\n' then none
    else if isSpace c then skipSpace cs
    else some (c :: cs)

/-- The value of a run of decimal digits. -/
def decimal (ds : List Char) : Int :=
  ds.foldl (fun n d => n * 10 + (d.toNat - '0'.toNat)) 0

/-- The number after its sign: at least one digit, then as many as follow. -/
def scanDigits (cs : List Char) : Option (Int × List Char) :=
  match cs.takeWhile Char.isDigit with
  | [] => none
  | ds => some (decimal ds, cs.dropWhile Char.isDigit)

/-- `(*ss).scanInt` for the verb `%d`: spaces, an optional sign, digits. -/
def scanInt (cs : List Char) : Option (Int × List Char) := do
  match ← skipSpace cs with
  | '+' :: rest => scanDigits rest
  | '-' :: rest => (scanDigits rest).map fun r => (-r.1, r.2)
  | rest => scanDigits rest

/-- `fmt.Sscanf(s, "%d:%d", &h, &m)`: both numbers, or `none` for an error. What
follows the second number is not read. -/
def sscanfClock (s : String) : Option (Int × Int) := do
  match ← scanInt s.toList with
  | (h, ':' :: rest) =>
    let (m, _) ← scanInt rest
    return (h, m)
  | _ => none

end Zanskar.Go
