import Zanskar.Go.Strings
import Zanskar.Go.Strconv
import Zanskar.Lib.Pieces

/-!
# References and redirects (`net/url`, `path`, `net/http`)

`url.Parse`, `url.QueryEscape`, `path.Clean` and the `Location` that `http.Redirect` writes. What
`parseAuthority` makes of an authority is a parameter: a reference that begins with one slash has
none. `Clean` is written on the elements of the path.
-/

namespace Zanskar.Go

open Lib List

/-! ## `net/url` -/

/-- `URL`, without the hints about how it was written. -/
structure URL where
  scheme : Bytes
  /-- `Opaque`. -/
  rootless : Bytes
  user : Option Bytes
  host : Bytes
  path : Bytes
  rawQuery : Bytes
  fragment : Bytes
  deriving DecidableEq

def isLetter (b : UInt8) : Bool :=
  0x41 ≤ b.toNat && b.toNat ≤ 0x5A || 0x61 ≤ b.toNat && b.toNat ≤ 0x7A

def lowerByte (b : UInt8) : UInt8 := if 0x41 ≤ b.toNat && b.toNat ≤ 0x5A then b + 0x20 else b

/-- `getScheme` from a byte on: the scheme and the rest, `none` where there is no scheme. -/
def getSchemeFrom (scheme : Bytes) : Bytes → Option (Bytes × Bytes)
  | [] => none
  | b :: s =>
    if isLetter b || isDigit b || b = ascii '+' || b = ascii '-' || b = ascii '.' then
      getSchemeFrom (scheme ++ [b]) s
    else if b = ascii ':' then some (scheme, s)
    else none

/-- `getScheme`: the error is that of a scheme that is missing before its colon. -/
def getScheme (s : Bytes) : Except String (Bytes × Bytes) :=
  match s with
  | [] => .ok ([], [])
  | b :: _ =>
    if b = ascii ':' then .error "missing protocol scheme"
    else if isLetter b then .ok ((getSchemeFrom [] s).getD ([], s))
    else .ok ([], s)

/-- `ishex` and `unhex`. -/
def unhex (b : UInt8) : Option Nat :=
  if isDigit b then some (b.toNat - 0x30)
  else if 0x61 ≤ b.toNat && b.toNat ≤ 0x66 then some (b.toNat - 0x61 + 10)
  else if 0x41 ≤ b.toNat && b.toNat ≤ 0x46 then some (b.toNat - 0x41 + 10)
  else none

/-- `unescape`, for a path or a fragment. -/
def unescape : Bytes → Except String Bytes
  | [] => .ok []
  | b :: s =>
    if b = ascii '%' then
      match s with
      | h :: l :: r =>
        match unhex h, unhex l with
        | some h, some l => (unescape r).map ((16 * h + l).toUInt8 :: ·)
        | _, _ => .error "invalid URL escape"
      | _ => .error "invalid URL escape"
    else (unescape s).map (b :: ·)

/-- The text before the first such byte, and that after it. -/
def cutAt (b : UInt8) (s : Bytes) : Bytes × Bytes := (cut b s).getD (s, [])

variable (parseAuthority : Bytes → Except String (Option Bytes × Bytes)) {element path : Bytes}
  {rooted : Bool} {b : UInt8} {s : Bytes}

/-- `parse`, not for a request. -/
def parseReference (s : Bytes) : Except String URL :=
  if s.any fun b => b.toNat < 0x20 || b.toNat = 0x7F then
    .error "net/url: invalid control character in URL"
  else if s = lit "*" then .ok ⟨[], [], none, [], s, [], []⟩
  else do
    let (scheme, rest) ← getScheme s
    let scheme := scheme.map lowerByte
    -- a question mark at the end is a query that is empty
    let (rest, rawQuery) := cutAt (ascii '?') rest
    if !(lit "/").isPrefixOf rest && scheme ≠ [] then
      return ⟨scheme, rest, none, [], [], rawQuery, []⟩
    else if !(lit "/").isPrefixOf rest && (cutAt (ascii '/') rest).1.contains (ascii ':') then
      throw "first path segment in URL cannot contain colon"
    else if (scheme ≠ [] || !(lit "///").isPrefixOf rest) && (lit "//").isPrefixOf rest then
      let authority := (rest.drop 2).takeWhile (· ≠ ascii '/')
      let (user, host) ← parseAuthority authority
      let path ← unescape ((rest.drop 2).dropWhile (· ≠ ascii '/'))
      return ⟨scheme, [], user, host, path, rawQuery, []⟩
    else
      let path ← unescape rest
      return ⟨scheme, [], none, [], path, rawQuery, []⟩

/-- `url.Parse`. -/
def parseURL (s : Bytes) : Except String URL := do
  let (s, fragment) := cutAt (ascii '#') s
  let u ← parseReference parseAuthority s
  let fragment ← unescape fragment
  return { u with fragment := fragment }

/-- `url.QueryEscape`. -/
def queryEscape (s : Bytes) : Bytes :=
  s.flatMap fun b =>
    if isLetter b || isDigit b || (lit "-_.~").contains b then [b]
    else if b = ascii ' ' then [ascii '+']
    else ascii '%' :: ((Nat.toDigits 16 (b.toNat / 16) ++ Nat.toDigits 16 (b.toNat % 16)).map
      fun c => ascii c.toUpper)

/-! ## `path.Clean` -/

/-- One element of a path, with those kept so far, the last one first. -/
def cleanStep (rooted : Bool) (kept : List Bytes) (element : Bytes) : List Bytes :=
  if element = [] || element = lit "." then kept
  else if element = lit ".." then
    match kept with
    | [] => if rooted then [] else [element]
    | last :: rest => if last = lit ".." then element :: kept else rest
  else element :: kept

def cleanElements (rooted : Bool) (path : Bytes) : List Bytes :=
  ((path.splitOn (ascii '/')).foldl (cleanStep rooted) []).reverse

/-- `path.Clean`. -/
def clean (path : Bytes) : Bytes :=
  if (lit "/").isPrefixOf path then
    lit "/" ++ (lit "/").intercalate (cleanElements true path)
  else
    let text := (lit "/").intercalate (cleanElements false path)
    if text = [] then lit "." else text

example : clean (lit "/a/./b//../../../c/") = lit "/c" := by decide +kernel

example : clean (lit "a/../../b") = lit "../b" := by decide +kernel

/-- An element that is kept: some bytes of the path, and no slash. -/
def IsElement (path element : Bytes) : Prop :=
  element ≠ [] ∧ ascii '/' ∉ element ∧ element ⊆ path

theorem isElement_cleanStep {kept : List Bytes}
    (hkept : ∀ e ∈ kept, IsElement path e) (helement : element ∈ path.splitOn (ascii '/')) :
    ∀ e ∈ cleanStep rooted kept element, IsElement path e := by
  have hnew : element ≠ [] → IsElement path element := fun hne =>
    ⟨hne, of_mem_splitOn helement⟩
  unfold cleanStep
  split
  · exact hkept
  rename_i hne
  rw [Bool.or_eq_true, not_or, decide_eq_true_eq] at hne
  split
  · cases kept with
    | nil =>
      dsimp only
      split
      · exact fun e he => nomatch he
      · exact forall_mem_singleton.mpr (hnew hne.1)
    | cons last rest =>
      dsimp only
      split
      · exact forall_mem_cons.mpr ⟨hnew hne.1, hkept⟩
      · exact (forall_mem_cons.mp hkept).2
  · exact forall_mem_cons.mpr ⟨hnew hne.1, hkept⟩

theorem isElement_of_mem_cleanElements
    (h : element ∈ cleanElements rooted path) : IsElement path element := by
  -- what is kept after each element
  have hfold : ∀ (elements : List Bytes) (kept : List Bytes),
      (∀ e ∈ elements, e ∈ path.splitOn (ascii '/')) → (∀ e ∈ kept, IsElement path e) →
      ∀ e ∈ elements.foldl (cleanStep rooted) kept, IsElement path e := by
    intro elements
    induction elements with
    | nil => exact fun _ _ hkept => hkept
    | cons e elements ih =>
      intro kept helements hkept
      rw [forall_mem_cons] at helements
      exact ih _ helements.2 (isElement_cleanStep hkept helements.1)
  exact hfold _ [] (fun _ he => he) (fun _ he => nomatch he) element (mem_reverse.mp h)

theorem mem_intercalate {sep : Bytes} {elements : List Bytes}
    (h : b ∈ sep.intercalate elements) : b ∈ sep ∨ ∃ e ∈ elements, b ∈ e := by
  induction elements with
  | nil => cases h
  | cons e elements ih =>
    cases elements with
    | nil => exact .inr ⟨e, mem_cons_self, by simpa [intercalate] using h⟩
    | cons e' elements =>
      rw [intercalate, intersperse_cons_cons, flatten_cons, flatten_cons,
        mem_append, mem_append] at h
      rcases h with h | h | h
      · exact .inr ⟨e, mem_cons_self, h⟩
      · exact .inl h
      · exact (ih h).imp_right fun ⟨e, he, hb⟩ => ⟨e, mem_cons_of_mem _ he, hb⟩

/-- A rooted path stays rooted, no second slash follows the first, and no byte is new. -/
theorem clean_of_rooted (p : Bytes) : ∃ t, clean (ascii '/' :: p) = ascii '/' :: t ∧
    (∀ b ∈ t.head?, b ≠ ascii '/') ∧ t ⊆ ascii '/' :: p := by
  have helement : ∀ e ∈ cleanElements true (ascii '/' :: p), IsElement (ascii '/' :: p) e :=
    fun _ he => isElement_of_mem_cleanElements he
  refine ⟨(lit "/").intercalate (cleanElements true (ascii '/' :: p)), ?_, ?_, ?_⟩
  · have hrooted : (lit "/").isPrefixOf (ascii '/' :: p) :=
      isPrefixOf_iff_prefix.mpr ⟨p, rfl⟩
    rw [clean, if_pos hrooted]
    rfl
  · cases hall : cleanElements true (ascii '/' :: p) with
    | nil => exact fun _ hb => nomatch hb
    | cons e rest =>
      obtain ⟨hne, hslash, -⟩ := helement e (by rw [hall]; exact mem_cons_self)
      obtain ⟨c, e, rfl⟩ := exists_cons_of_ne_nil hne
      intro b hb
      have hbc : b = c := by
        cases rest with
        | nil | cons => exact (Option.some.inj hb).symm
      rw [hbc]
      exact fun hc => hslash (hc ▸ mem_cons_self)
  · intro b hb
    rcases mem_intercalate hb with hb | ⟨e, he, hb⟩
    · rw [mem_singleton.mp hb]
      exact mem_cons_self
    · exact (helement e he).2.2 hb

/-! ## `http.Redirect` -/

/-- `hexEscapeNonASCII`. -/
def hexEscapeNonASCII (s : Bytes) : Bytes :=
  s.flatMap fun b =>
    if 0x80 ≤ b.toNat then ascii '%' :: (Nat.toDigits 16 b.toNat).map ascii else [b]

/-- The directory of `path.Split`. -/
def splitDir (path : Bytes) : Bytes := path.rdropWhile (· ≠ ascii '/')

/-- What `http.Redirect` makes of an address without a scheme and a host. -/
def cleanRedirect (oldpath url : Bytes) : Bytes :=
  let oldpath := if oldpath = [] then lit "/" else oldpath
  let url := if (lit "/").isPrefixOf url then url else splitDir oldpath ++ url
  let path := url.takeWhile (· ≠ ascii '?')
  let query := url.dropWhile (· ≠ ascii '?')
  let cleaned := clean path
  -- a slash at the end is kept
  (if path.getLast? = some (ascii '/') && cleaned.getLast? ≠ some (ascii '/') then
    cleaned ++ lit "/" else cleaned) ++ query

/-- The `Location` that `http.Redirect` answers a request for `oldpath` with. -/
def redirect (oldpath url : Bytes) : Bytes :=
  match parseURL parseAuthority url with
  | .error _ => hexEscapeNonASCII url
  | .ok u =>
    hexEscapeNonASCII (if u.scheme = [] && u.host = [] then cleanRedirect oldpath url else url)

/-- A reference that begins with one slash and has no control and no backslash. -/
structure IsPath (s : Bytes) : Prop where
  slash : ∃ t, s = ascii '/' :: t ∧ ∀ b ∈ t.head?, b ≠ ascii '/'
  bytes : ∀ b ∈ s, 0x20 ≤ b.toNat ∧ b ≠ ascii '\\'

theorem bytes_of_all (h : (s.all fun b => 0x20 ≤ b.toNat && b ≠ ascii '\\')) (hb : b ∈ s) :
    0x20 ≤ b.toNat ∧ b ≠ ascii '\\' := by
  have := all_eq_true.mp h b hb
  rwa [Bool.and_eq_true, decide_eq_true_eq, decide_eq_true_eq] at this

theorem bytes_queryEscape (hb : b ∈ queryEscape s) : 0x20 ≤ b.toNat ∧ b ≠ ascii '\\' := by
  obtain ⟨c, -, hc⟩ := mem_flatMap.mp hb
  refine bytes_of_all (s := queryEscape ((range 256).map Nat.toUInt8)) (by decide +kernel) ?_
  exact mem_flatMap.mpr
    ⟨c, mem_map.mpr ⟨c.toNat, mem_range.mpr c.toNat_lt, UInt8.ofNat_toNat⟩, hc⟩

theorem isPath_hexEscape (h : IsPath s) : IsPath (hexEscapeNonASCII s) := by
  obtain ⟨t, rfl, hhead⟩ := h.slash
  have hdigits : ∀ n < 256, ∀ d ∈ (Nat.toDigits 16 n).map ascii,
      0x20 ≤ d.toNat ∧ d ≠ ascii '\\' := by
    intro n hn d hd
    exact bytes_of_all (s := (range 256).flatMap fun n => (Nat.toDigits 16 n).map ascii)
      (by decide +kernel) (mem_flatMap.mpr ⟨n, mem_range.mpr hn, hd⟩)
  refine ⟨⟨hexEscapeNonASCII t, rfl, ?_⟩, ?_⟩
  · intro b hb
    cases t with
    | nil => cases hb
    | cons c t =>
      rw [hexEscapeNonASCII, flatMap_cons] at hb
      split at hb
      · rw [← Option.some.inj hb]
        decide
      · rw [← Option.some.inj hb]
        exact hhead c rfl
  · intro b hb
    obtain ⟨c, hc, hb⟩ := mem_flatMap.mp hb
    split at hb
    · rcases mem_cons.mp hb with rfl | hb
      · decide
      · exact hdigits c.toNat c.toNat_lt b hb
    · rw [mem_singleton.mp hb]
      exact h.bytes c hc

theorem isPath_cleanRedirect (h : IsPath s) (oldpath : Bytes) :
    IsPath (cleanRedirect oldpath s) := by
  obtain ⟨t, rfl, -⟩ := h.slash
  have hrooted : (lit "/").isPrefixOf (ascii '/' :: t) := isPrefixOf_iff_prefix.mpr ⟨t, rfl⟩
  obtain ⟨c, hclean, hhead, hsub⟩ := clean_of_rooted (t.takeWhile (· ≠ ascii '?'))
  -- the bytes are those of the address
  have hc : ∀ b ∈ c, b ∈ ascii '/' :: t := fun b hb =>
    cons_subset_cons _ (takeWhile_sublist _).subset (hsub hb)
  have hquery : ∀ b ∈ t.dropWhile (· ≠ ascii '?'), b ∈ ascii '/' :: t := fun b hb =>
    mem_cons_of_mem _ ((dropWhile_sublist _).subset hb)
  have hqueryHead : ∀ b ∈ (t.dropWhile (· ≠ ascii '?')).head?, b = ascii '?' := by
    intro b hb
    have := head?_dropWhile_not (· ≠ ascii '?') t
    rw [hb] at this
    simpa using this
  -- a slash at the end comes after something
  have hpath : ∀ {slash : Bytes}, slash = [] ∨ slash = lit "/" ∧ c ≠ [] →
      IsPath (ascii '/' :: c ++ slash ++ t.dropWhile (· ≠ ascii '?')) := by
    intro slash hslash
    refine ⟨⟨c ++ slash ++ t.dropWhile (· ≠ ascii '?'), rfl, ?_⟩, ?_⟩
    · intro b hb
      cases c with
      | nil =>
        rcases hslash with rfl | ⟨-, hne⟩
        · rw [hqueryHead b hb]
          decide
        · exact absurd rfl hne
      | cons d c => exact hhead b hb
    · intro b hb
      refine h.bytes b ?_
      rw [mem_append, mem_append] at hb
      rcases hb with (hb | hb) | hb
      · rcases mem_cons.mp hb with rfl | hb
        · exact mem_cons_self
        · exact hc b hb
      · rcases hslash with rfl | ⟨rfl, -⟩
        · cases hb
        · rw [mem_singleton.mp hb]
          exact mem_cons_self
      · exact hquery b hb
  unfold cleanRedirect
  dsimp only
  rw [if_pos hrooted, takeWhile_cons_of_pos (by decide), dropWhile_cons_of_pos (by decide), hclean]
  split
  · rename_i hslash
    refine hpath (.inr ⟨rfl, ?_⟩)
    rintro rfl
    simp at hslash
  · have := hpath (.inl rfl)
    rwa [append_nil] at this

/-- The address of a redirect stays such a path, whatever it is parsed as. -/
theorem redirect_of_path (h : IsPath s) (oldpath : Bytes) :
    IsPath (redirect parseAuthority oldpath s) := by
  unfold redirect
  split
  · exact isPath_hexEscape h
  · refine isPath_hexEscape ?_
    split
    · exact isPath_cleanRedirect h oldpath
    · exact h

end Zanskar.Go
