import Zanskar.Go.Strconv
import Zanskar.Go.Strings

/-!
# The environment file (`internal/lifecycle/envfile.go`)

`ParseEnvFile` reads the file line by line. A line that ends in a backslash is held back and
put in front of the next one; every other line, with what was held back, sets a variable or
nothing. The last setting of a variable counts.

What is held back is the only state of the reader, so a file is read in parts: behind a part
that holds nothing back the reader starts afresh (`readFrom_append`).
-/

namespace Zanskar.Lifecycle

open Go List

/-- A variable and its value. -/
abbrev Setting := Bytes × Bytes

/-- `Prefix`: the variables the gateway reads. -/
def zanskarVars : Bytes := lit "ZANSKAR_"

/-- The most the scanner takes for one line. -/
def maxToken : Nat := 2 ^ 20

/-- The scanner gives up on a line: its buffer is full before the line has ended. -/
def tooLong (l : Bytes) : Bool := maxToken ≤ (dropEnd lineFeed l).length

def backslash : UInt8 := ascii '\\'

/-- A value without the quotes around it. -/
def unquote (v : Bytes) : Bytes :=
  if 2 ≤ v.length ∧ (v.head? = some (ascii '"') ∧ v.getLast? = some (ascii '"') ∨
      v.head? = some (ascii '\'') ∧ v.getLast? = some (ascii '\'')) then
    v.tail.dropLast
  else v

/-- What a line sets. -/
def setting (line : Bytes) : Option Setting :=
  let line := trimSpaces line
  if line = [] ∨ line.head? = some (ascii '#') ∨ line.head? = some (ascii ';') then none
  else
    match cut (ascii '=') (dropFront (lit "export ") line) with
    | none => none
    | some (k, v) =>
      let k := trimSpaces k
      if zanskarVars.isPrefixOf k then some (k, unquote (trimSpaces v)) else none

/-- What the lines set, in order, behind what is held back. -/
def readFrom : Bytes → List Bytes → List Setting
  | _, [] => []
  | cont, text :: rest =>
    let line := cont ++ text
    if line.getLast? = some backslash then readFrom line.dropLast rest
    else (setting line).toList ++ readFrom [] rest

/-- What is held back behind the lines. -/
def heldBack : Bytes → List Bytes → Bytes
  | cont, [] => cont
  | cont, text :: rest =>
    let line := cont ++ text
    if line.getLast? = some backslash then heldBack line.dropLast rest else heldBack [] rest

/-- The value a variable is set to last. -/
def lastSet (settings : List Setting) (k : Bytes) : Option Bytes :=
  (settings.reverse.find? fun s => s.1 = k).map Prod.snd

/-- `ParseEnvFile` of the text of the file. -/
def parseEnvFile (file : Bytes) : Option (Bytes → Option Bytes) :=
  let lines := splitAfter file
  if lines.any tooLong then none else some (lastSet (readFrom [] (lines.map scanText)))

/-! ## Reading in parts -/

/-- A file is read in parts, each with what the one before held back. -/
theorem readFrom_append (cont : Bytes) (texts more : List Bytes) :
    readFrom cont (texts ++ more) =
      readFrom cont texts ++ readFrom (heldBack cont texts) more := by
  induction texts generalizing cont with
  | nil => rfl
  | cons text texts ih =>
    rw [cons_append, readFrom, readFrom, heldBack]
    split
    · exact ih _
    · rw [ih, append_assoc]

theorem heldBack_append (cont : Bytes) (texts more : List Bytes) :
    heldBack cont (texts ++ more) = heldBack (heldBack cont texts) more := by
  induction texts generalizing cont with
  | nil => rfl
  | cons text texts ih =>
    rw [cons_append, heldBack, heldBack]
    split <;> exact ih _

variable {cont text k : Bytes} {ss : List Setting}

theorem readFrom_line (h : (cont ++ text).getLast? ≠ some backslash) (rest : List Bytes) :
    readFrom cont (text :: rest) = (setting (cont ++ text)).toList ++ readFrom [] rest := by
  rw [readFrom]
  exact if_neg h

theorem heldBack_line (h : (cont ++ text).getLast? ≠ some backslash)
    (rest : List Bytes) : heldBack cont (text :: rest) = heldBack [] rest := by
  rw [heldBack]
  exact if_neg h

/-! ## The setting that counts -/

theorem lastSet_append (a b : List Setting) (k : Bytes) :
    lastSet (a ++ b) k = (lastSet b k).or (lastSet a k) := by
  rw [lastSet, reverse_append, find?_append, Option.map_or]
  rfl

theorem lastSet_cons (s : Setting) :
    lastSet (s :: ss) k = (lastSet ss k).or (if s.1 = k then some s.2 else none) := by
  rw [← singleton_append, lastSet_append]
  congr 1
  by_cases h : s.1 = k <;> simp [lastSet, h]

theorem lastSet_eq_none (h : k ∉ ss.map Prod.fst) : lastSet ss k = none := by
  induction ss with
  | nil => rfl
  | cons s ss ih =>
    rw [map_cons, mem_cons, not_or] at h
    rw [lastSet_cons, ih h.2, if_neg (Ne.symm h.1)]
    rfl

/-- A variable that is set to one value only has that value. -/
theorem lastSet_of_forall {v : Bytes} (hmem : (k, v) ∈ ss) (h : ∀ s ∈ ss, s.1 = k → s.2 = v) :
    lastSet ss k = some v := by
  have hsome : (ss.reverse.find? fun s => s.1 = k).isSome := by
    simpa [find?_isSome] using ⟨v, hmem⟩
  obtain ⟨s, hs⟩ := Option.isSome_iff_exists.mp hsome
  have hkey := find?_some hs
  rw [decide_eq_true_eq] at hkey
  have hvalue := h s (mem_reverse.mp (mem_of_find?_eq_some hs)) hkey
  rw [lastSet, hs, Option.map_some, hvalue]

end Zanskar.Lifecycle
