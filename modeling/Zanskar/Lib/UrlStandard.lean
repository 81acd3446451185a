import Mathlib.Data.List.DropRight

/-!
# Where a browser goes

The parser of the URL standard, with a base and no state override, as far as the origin of what it
returns: one function for each state that decides about the scheme, the host or the port. The path,
the query and the fragment never fail and change no origin. The host parser is a parameter. A URL
whose scheme is not special, or is `file`, is at no origin that a web page has.
-/

namespace Zanskar.Web

open List

/-- An origin that a web page has. -/
structure Origin (Host : Type) where
  scheme : List Char
  host : Host
  port : Option Nat
  deriving DecidableEq

/-- Where a URL is. -/
inductive Target (Host : Type) where
  | tuple (origin : Origin Host)
  | other
  deriving DecidableEq

/-! ## Preparing the input -/

/-- A C0 control or a space. -/
def isC0OrSpace (c : Char) : Bool := c.toNat ≤ 0x20

/-- An ASCII tab or newline. -/
def isTabOrNewline (c : Char) : Bool := c = '\t' || c = '\n' || c = '\r'

def prepare (input : List Char) : List Char :=
  ((input.dropWhile isC0OrSpace).rdropWhile isC0OrSpace).filter fun c => !isTabOrNewline c

/-! ## The states -/

/-- The scheme state: the scheme read so far, in lower case. -/
def schemeState (buffer : List Char) : List Char → Option (List Char × List Char)
  | [] => none
  | c :: s =>
    if c.isAlphanum || c = '+' || c = '-' || c = '.' then schemeState (buffer ++ [c.toLower]) s
    else if c = ':' then some (buffer, s)
    else none

/-- The scheme start state: `none` is the no scheme state, at the first character. -/
def schemeStartState : List Char → Option (List Char × List Char)
  | [] => none
  | c :: s => if c.isAlpha then schemeState [c.toLower] s else none

/-- The special schemes other than `file`, and their ports. -/
def specialPort (scheme : List Char) : Option Nat :=
  if scheme = ['h', 't', 't', 'p'] || scheme = ['w', 's'] then some 80
  else if scheme = ['h', 't', 't', 'p', 's'] || scheme = ['w', 's', 's'] then some 443
  else if scheme = ['f', 't', 'p'] then some 21
  else none

/-- A slash of a special URL. -/
def isSlash (c : Char) : Bool := c = '/' || c = '\\'

/-- The authority ends here. -/
def isTerminator (c : Char) : Bool := isSlash c || c = '?' || c = '#'

/-- The host state: the host, and the port if there is one. -/
def hostState (insideBrackets : Bool) (buffer : List Char) :
    List Char → List Char × Option (List Char)
  | [] => (buffer, none)
  | c :: s =>
    if c = ':' && !insideBrackets then (buffer, some s)
    else hostState (if c = '[' then true else if c = ']' then false else insideBrackets)
      (buffer ++ [c]) s

/-- The port state: `none` is a failure. -/
def portState (scheme : List Char) (digits : List Char) : Option (Option Nat) :=
  let port := digits.foldl (fun n d => 10 * n + (d.toNat - '0'.toNat)) 0
  if digits = [] then some none
  else if !digits.all Char.isDigit || 65535 < port then none
  else some (if specialPort scheme = some port then none else some port)

variable {Host : Type} (parseHost : List Char → Option Host)

/-- The authority state of a special URL, and the states after it. -/
def authorityState (scheme s : List Char) : Option (Target Host) := do
  let authority := s.takeWhile fun c => !isTerminator c
  -- the credentials end at the last `@`
  let hostPort := authority.rtakeWhile fun c => c ≠ '@'
  let (name, digits) := hostState false [] hostPort
  if name = [] then none
  else
    let host ← parseHost name
    let port ← portState scheme (digits.getD [])
    return .tuple ⟨scheme, host, port⟩

/-- The special authority ignore slashes state. -/
def ignoreSlashesState (scheme s : List Char) : Option (Target Host) :=
  authorityState parseHost scheme (s.dropWhile isSlash)

/-- The origin of a base whose scheme is special. -/
structure Base (Host : Type) extends Origin Host where
  special : (specialPort scheme).isSome = true

variable (base : Base Host)

/-- The relative slash state. -/
def relativeSlashState : List Char → Option (Target Host)
  | [] => some (.tuple base.toOrigin)
  | c :: s =>
    if isSlash c then ignoreSlashesState parseHost base.scheme s
    else some (.tuple base.toOrigin)

/-- The relative state. -/
def relativeState : List Char → Option (Target Host)
  | [] => some (.tuple base.toOrigin)
  | c :: s =>
    if isSlash c then relativeSlashState parseHost base s else some (.tuple base.toOrigin)

/-- The special relative or authority state. -/
def specialRelativeOrAuthorityState (s : List Char) : Option (Target Host) :=
  if ['/', '/'].isPrefixOf s then ignoreSlashesState parseHost base.scheme (s.drop 2)
  else relativeState parseHost base s

/-- The basic URL parser. -/
def resolve (input : List Char) : Option (Target Host) :=
  let s := prepare input
  match schemeStartState s with
  | none => relativeState parseHost base s
  | some (scheme, rest) =>
    match specialPort scheme with
    | none => some .other
    | some _ =>
      if scheme = base.scheme then specialRelativeOrAuthorityState parseHost base rest
      -- with two slashes or without
      else ignoreSlashesState parseHost scheme rest

section

/-- A base of the tests below. -/
def testBase : Base (List Char) := ⟨⟨['h', 't', 't', 'p', 's'], ['g', 'w'], none⟩, by decide⟩

example : resolve some testBase "\t/\\evil/".toList =
    some (.tuple ⟨"https".toList, "evil".toList, none⟩) := by decide +kernel

example : resolve some testBase "https:/a".toList = some (.tuple testBase.toOrigin) := by
  decide +kernel

example : resolve some testBase "HTTP:\\u@evil:8080?q".toList =
    some (.tuple ⟨"http".toList, "evil".toList, some 8080⟩) := by decide +kernel

end

/-! ## References that begin with one slash -/

variable {s : List Char}

/-- Nothing in front of the second character is removed. -/
theorem prepare_of_path (h : ∀ c ∈ '/' :: s, isTabOrNewline c = false) :
    ∃ t, prepare ('/' :: s) = '/' :: t ∧ t <+: s := by
  have hfront : ('/' :: s).dropWhile isC0OrSpace = '/' :: s := dropWhile_cons_of_neg (by decide)
  have hprefix := rdropWhile_prefix isC0OrSpace (l := '/' :: s)
  have hne : ('/' :: s).rdropWhile isC0OrSpace ≠ [] := by
    intro hnil
    exact absurd (rdropWhile_eq_nil_iff.mp hnil '/' mem_cons_self) (by decide)
  obtain ⟨c, t, ht⟩ := exists_cons_of_ne_nil hne
  rw [ht, cons_prefix_cons] at hprefix
  obtain ⟨rfl, hts⟩ := hprefix
  refine ⟨t, ?_, hts⟩
  rw [prepare, hfront, ht, filter_eq_self]
  intro c hc
  rw [Bool.not_eq_true']
  refine h c ?_
  rcases mem_cons.mp hc with rfl | hc
  · exact mem_cons_self
  · exact mem_cons_of_mem _ (hts.subset hc)

/-- A reference that begins with one slash stays at the base's origin. -/
theorem resolve_of_path (h : ∀ c ∈ '/' :: s, isTabOrNewline c = false)
    (hslash : ∀ c ∈ s.head?, isSlash c = false) :
    resolve parseHost base ('/' :: s) = some (.tuple base.toOrigin) := by
  obtain ⟨t, hprepare, hts⟩ := prepare_of_path h
  have hrelative : relativeSlashState parseHost base t = some (.tuple base.toOrigin) := by
    cases t with
    | nil => rfl
    | cons c t =>
      obtain ⟨r, rfl⟩ := hts
      rw [relativeSlashState, if_neg]
      rw [hslash c rfl]
      decide
  rw [resolve, hprepare]
  exact hrelative

end Zanskar.Web
