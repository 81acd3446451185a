import Zanskar.Go.Text
import Zanskar.Go.Utf8

/-!
# Strings of bytes (`strings`)

A Go string is bytes, and the functions of `strings` that look at characters decode them on
the way. `TrimSpace` trims a string of the characters `unicode.IsSpace` holds of, decoded from
its front and from its end. A string is decoded to a character at its front when it begins
with the bytes of that character, and at its end when it ends with them; so the bytes of the
space characters are all that is looked for, and a byte that is not UTF-8 is no space.
-/

namespace Zanskar.Go

open List

/-- The characters `unicode.IsSpace` holds of. -/
def spaceChars : List Char :=
  [0x09, 0x0A, 0x0B, 0x0C, 0x0D, 0x20, 0x85, 0xA0, 0x1680, 0x2000, 0x2001, 0x2002, 0x2003, 0x2004,
    0x2005, 0x2006, 0x2007, 0x2008, 0x2009, 0x200A, 0x2028, 0x2029, 0x202F, 0x205F,
    0x3000].map Char.ofNat

/-- The bytes of the space characters. -/
def spaceBytes : List Bytes := spaceChars.map encodeRune

/-- The string without the spaces at its front; each takes a byte at least. -/
def trimStartFrom : Nat → Bytes → Bytes
  | 0, s => s
  | n + 1, s =>
    match spaceBytes.find? (·.isPrefixOf s) with
    | some e => trimStartFrom n (s.drop e.length)
    | none => s

/-- The string without the spaces at its end. -/
def trimEndFrom : Nat → Bytes → Bytes
  | 0, s => s
  | n + 1, s =>
    match spaceBytes.find? (·.isSuffixOf s) with
    | some e => trimEndFrom n (s.take (s.length - e.length))
    | none => s

/-- `strings.TrimLeftFunc(s, unicode.IsSpace)`. -/
def trimStart (s : Bytes) : Bytes := trimStartFrom s.length s

/-- `strings.TrimRightFunc(s, unicode.IsSpace)`. -/
def trimEnd (s : Bytes) : Bytes := trimEndFrom s.length s

/-- `strings.TrimSpace`. -/
def trimSpaces (s : Bytes) : Bytes := trimEnd (trimStart s)

/-- `unicode.ToUpper` as far as ASCII shows it: the small letters, and the two characters
outside ASCII whose upper case is an ASCII letter. Any other character keeps its own; its
upper case is never ASCII. -/
def upper (c : Char) : Char :=
  if c.toNat = 0x131 then 'I' else if c.toNat = 0x17F then 'S' else c.toUpper

/-- `strings.ToUpper`. -/
def toUpper (s : Bytes) : Bytes := utf8 ((marks s).map fun m => upper (shown m))

/-- `strings.ReplaceAll` of a character by nothing. -/
def removeAll (b : UInt8) (s : Bytes) : Bytes := s.filter (· ≠ b)

/-- `strings.TrimPrefix`. -/
def dropFront (front s : Bytes) : Bytes := if front.isPrefixOf s then s.drop front.length else s

/-- `strings.Cut` at a byte. -/
def cut (b : UInt8) (s : Bytes) : Option (Bytes × Bytes) :=
  if b ∈ s then some (s.takeWhile (· ≠ b), (s.dropWhile (· ≠ b)).tail) else none

variable {b : UInt8} {e s : Bytes} {n : Nat} {l : Bytes} {ls a : List Bytes}

theorem cut_append {k : Bytes} (h : b ∉ k) (v : Bytes) : cut b (k ++ b :: v) = some (k, v) := by
  have hall : ∀ c ∈ k, (decide (c ≠ b)) := fun c hc =>
    decide_eq_true fun hcb => h (hcb ▸ hc)
  rw [cut, if_pos (by simp), takeWhile_append_of_pos hall, dropWhile_append_of_pos hall]
  simp

/-! ## What trimming leaves -/

/-- No space stands at the front. -/
def FrontTrimmed (s : Bytes) : Prop := ∀ e ∈ spaceBytes, ¬ e <+: s

/-- No space stands at the end. -/
def EndTrimmed (s : Bytes) : Prop := ∀ e ∈ spaceBytes, ¬ e <:+ s

theorem ne_nil_of_mem_spaceBytes (h : e ∈ spaceBytes) : e ≠ [] := by
  obtain ⟨c, -, rfl⟩ := mem_map.mp h
  exact encodeRune_ne_nil c

/-- A visible ASCII character; its byte is in no space. -/
def isVisible (b : UInt8) : Bool := 0x20 < b.toNat && b.toNat < 0x7F

/-- No byte of a space, of several bytes or one, is a visible character. -/
theorem not_isVisible_of_mem_spaceBytes (he : e ∈ spaceBytes) (hb : b ∈ e) :
    isVisible b = false := by
  have hall : (spaceBytes.all fun e => e.all fun b => !isVisible b) := by decide +kernel
  exact Bool.not_eq_true' _ ▸ all_eq_true.mp (all_eq_true.mp hall e he) b hb

/-- With fuel for every byte, no space is left in front. -/
theorem trimStartFrom_spec (h : s.length ≤ n) :
    FrontTrimmed (trimStartFrom n s) ∧ trimStartFrom n s <:+ s := by
  induction n generalizing s with
  | zero =>
    obtain rfl := length_eq_zero_iff.mp (Nat.le_zero.mp h)
    refine ⟨fun e he hfront => ?_, suffix_rfl⟩
    exact ne_nil_of_mem_spaceBytes he (prefix_nil.mp hfront)
  | succ n ih =>
    rw [trimStartFrom]
    split
    · rename_i e hfind
      -- a space has a byte, so the fuel suffices for the rest
      have hpos := length_pos_of_ne_nil (ne_nil_of_mem_spaceBytes (mem_of_find?_eq_some hfind))
      obtain ⟨htrim, hsuffix⟩ := ih (s := s.drop e.length) (by rw [length_drop]; omega)
      exact ⟨htrim, hsuffix.trans (drop_suffix _ _)⟩
    · rename_i hfind
      refine ⟨fun e he hfront => ?_, suffix_rfl⟩
      have hmatch := isPrefixOf_iff_prefix.mpr hfront
      exact find?_eq_none.mp hfind e he hmatch

theorem trimEndFrom_spec (h : s.length ≤ n) :
    EndTrimmed (trimEndFrom n s) ∧ trimEndFrom n s <+: s := by
  induction n generalizing s with
  | zero =>
    obtain rfl := length_eq_zero_iff.mp (Nat.le_zero.mp h)
    refine ⟨fun e he hend => ?_, prefix_rfl⟩
    exact ne_nil_of_mem_spaceBytes he (suffix_nil.mp hend)
  | succ n ih =>
    rw [trimEndFrom]
    split
    · rename_i e hfind
      have hpos := length_pos_of_ne_nil (ne_nil_of_mem_spaceBytes (mem_of_find?_eq_some hfind))
      obtain ⟨htrim, hfront⟩ := ih (s := s.take (s.length - e.length)) (by rw [length_take]; omega)
      exact ⟨htrim, hfront.trans <| take_prefix _ _⟩
    · rename_i hfind
      refine ⟨fun e he hend => ?_, prefix_rfl⟩
      exact find?_eq_none.mp hfind e he (isSuffixOf_iff_suffix.mpr hend)

theorem trimSpaces_trimmed (s : Bytes) :
    FrontTrimmed (trimSpaces s) ∧ EndTrimmed (trimSpaces s) := by
  obtain ⟨hend, hfront⟩ := trimEndFrom_spec (s := trimStart s) le_rfl
  -- trimming the end leaves a front of what was trimmed in front
  exact ⟨fun e he h => (trimStartFrom_spec le_rfl).1 e he (h.trans hfront), hend⟩

theorem trimStart_of_trimmed (h : FrontTrimmed s) : trimStart s = s := by
  rw [trimStart]
  cases s.length with
  | zero => rfl
  | succ n =>
    rw [trimStartFrom, find?_eq_none.mpr fun e he hfront =>
      h e he <| isPrefixOf_iff_prefix.mp hfront]

theorem trimEnd_of_trimmed (h : EndTrimmed s) : trimEnd s = s := by
  rw [trimEnd]
  cases s.length with
  | zero => rfl
  | succ n =>
    rw [trimEndFrom, find?_eq_none.mpr fun e he hend =>
      h e he (isSuffixOf_iff_suffix.mp hend)]

/-- A trimmed string stays as it is. -/
theorem trimSpaces_of_trimmed (hfront : FrontTrimmed s) (hend : EndTrimmed s) :
    trimSpaces s = s := by
  rw [trimSpaces, trimStart_of_trimmed hfront, trimEnd_of_trimmed hend]

theorem frontTrimmed_cons (hb : isVisible b) : FrontTrimmed (b :: s) := by
  intro e he hfront
  obtain ⟨c, e', rfl⟩ := exists_cons_of_ne_nil (ne_nil_of_mem_spaceBytes he)
  obtain rfl := (cons_prefix_cons.mp hfront).1
  rw [not_isVisible_of_mem_spaceBytes he mem_cons_self] at hb
  cases hb

/-- A string that ends trimmed stays so behind a visible character. -/
theorem endTrimmed_append (hb : isVisible b) (a : Bytes) {v : Bytes}
    (hv : EndTrimmed v) : EndTrimmed (a ++ b :: v) := by
  intro e he hend
  have hvend : v <:+ a ++ b :: v := ⟨a ++ [b], by simp⟩
  rcases suffix_or_suffix_of_suffix hend hvend with hev | ⟨x, rfl⟩
  · exact hv e he hev
  · rcases eq_nil_or_concat x with rfl | ⟨x, c, rfl⟩
    · exact hv _ he suffix_rfl
    · -- the byte before `v` is `b`
      obtain ⟨y, hy⟩ := hend
      have hcut : (y ++ x) ++ c :: v = a ++ b :: v := by rw [← hy]; simp
      obtain ⟨rfl, -⟩ := cons.inj (append_inj' hcut rfl).2
      rw [not_isVisible_of_mem_spaceBytes he (b := c) (by simp)] at hb
      cases hb

theorem endTrimmed_nil : EndTrimmed [] := fun _ he hend =>
  ne_nil_of_mem_spaceBytes he (suffix_nil.mp hend)

theorem endTrimmed_concat (hb : isVisible b) : EndTrimmed (s ++ [b]) :=
  endTrimmed_append hb s endTrimmed_nil

theorem frontTrimmed_of_visible (h : ∀ b ∈ s, isVisible b) : FrontTrimmed s := by
  cases s with
  | nil => exact fun _ he hfront => ne_nil_of_mem_spaceBytes he (prefix_nil.mp hfront)
  | cons b s => exact frontTrimmed_cons (h b mem_cons_self)

theorem endTrimmed_of_visible (h : ∀ b ∈ s, isVisible b) : EndTrimmed s := by
  rcases eq_nil_or_concat s with rfl | ⟨s, b, rfl⟩
  · exact endTrimmed_nil
  · rw [concat_eq_append] at h ⊢
    exact endTrimmed_concat (h b (by simp))

/-! ## Lines -/

/-- The byte at the end of a line. -/
def lineFeed : UInt8 := 0x0A

def carriageReturn : UInt8 := 0x0D

/-- The bytes that end a line. -/
def isEol (b : UInt8) : Bool := b = carriageReturn || b = lineFeed

/-- `bytes.SplitAfter` at line feeds, without the empty piece at the end: the lines, each with
the line feed that ends it. -/
def splitAfter : Bytes → List Bytes
  | [] => []
  | b :: s =>
    if b = lineFeed then [b] :: splitAfter s
    else
      match splitAfter s with
      | [] => [[b]]
      | l :: ls => (b :: l) :: ls

/-- The string without the byte at its end, if it is there. -/
def dropEnd (b : UInt8) (s : Bytes) : Bytes := if s.getLast? = some b then s.dropLast else s

/-- A line as `bufio.ScanLines` gives it: without its line feed and a carriage return
before it. -/
def scanText (l : Bytes) : Bytes := dropEnd carriageReturn (dropEnd lineFeed l)

theorem splitAfter_line (h : lineFeed ∉ l) :
    splitAfter (l ++ lineFeed :: s) = (l ++ [lineFeed]) :: splitAfter s := by
  induction l with
  | nil => rw [nil_append, splitAfter, if_pos rfl, nil_append]
  | cons b l ih =>
    have hb : b ≠ lineFeed := fun hb => h (hb ▸ mem_cons_self)
    rw [cons_append, splitAfter, if_neg hb, ih fun hmem => h (mem_cons_of_mem b hmem)]
    rfl

theorem splitAfter_last (h : lineFeed ∉ l) (hne : l ≠ []) : splitAfter l = [l] := by
  induction l with
  | nil => exact absurd rfl hne
  | cons b l ih =>
    have hb : b ≠ lineFeed := fun hb => h (hb ▸ mem_cons_self)
    rw [splitAfter, if_neg hb]
    by_cases hl : l = []
    · rw [hl]
      rfl
    · rw [ih (fun hmem => h (mem_cons_of_mem b hmem)) hl]

/-- A line with its line feed. -/
def IsLine (l : Bytes) : Prop := ∃ x, lineFeed ∉ x ∧ l = x ++ [lineFeed]

/-- Lines in a row, of which the last may have no line feed. -/
def Lines : List Bytes → Prop
  | [] => True
  | l :: ls => (IsLine l ∨ ls = [] ∧ l ≠ [] ∧ lineFeed ∉ l) ∧ Lines ls

/-- Every piece but the last ends in the line feed it was split at. -/
theorem lines_splitAfter : Lines (splitAfter s) := by
  induction s with
  | nil => trivial
  | cons b s ih =>
    rw [splitAfter]
    split
    · rename_i hb
      exact ⟨.inl ⟨[], by simp, by rw [hb]; rfl⟩, ih⟩
    · rename_i hb
      split
      · exact ⟨.inr ⟨rfl, cons_ne_nil _ _, by simpa using Ne.symm hb⟩, trivial⟩
      · rename_i l ls hcons
        -- the byte joins the first line of the rest
        rw [hcons] at ih
        refine ⟨?_, ih.2⟩
        rcases ih.1 with ⟨x, hx, rfl⟩ | ⟨hlast, -, hl⟩
        · exact .inl ⟨b :: x, by simp [hx, Ne.symm hb], rfl⟩
        · exact .inr ⟨hlast, cons_ne_nil _ _, by simp [hl, Ne.symm hb]⟩

/-- Lines are split where they were joined. -/
theorem splitAfter_flatten (h : Lines ls) : splitAfter ls.flatten = ls := by
  induction ls with
  | nil => rfl
  | cons l ls ih =>
    obtain ⟨⟨x, hx, rfl⟩ | ⟨rfl, hne, hl⟩, hls⟩ := h
    · rw [flatten_cons, append_assoc, singleton_append, splitAfter_line hx, ih hls]
    · rw [flatten_cons, flatten_nil, append_nil, splitAfter_last hl hne]

theorem Lines.right {b : List Bytes} (h : Lines (a ++ b)) : Lines b := by
  induction a with
  | nil => exact h
  | cons l a ih => exact ih h.2

theorem Lines.left {b : List Bytes} (h : Lines (a ++ b)) (hb : b ≠ []) : ∀ l ∈ a, IsLine l := by
  induction a with
  | nil => exact fun _ hl => nomatch hl
  | cons l a ih =>
    exact forall_mem_cons.mpr
      ⟨h.1.resolve_right fun hlast => hb (append_eq_nil_iff.mp hlast.1).2, ih h.2⟩

theorem Lines.append {b : List Bytes} (ha : ∀ l ∈ a, IsLine l) (hb : Lines b) : Lines (a ++ b) := by
  induction a with
  | nil => exact hb
  | cons l a ih =>
    exact ⟨.inl (ha l mem_cons_self), ih fun l' hl' => ha l' (mem_cons_of_mem l hl')⟩

theorem lines_of_forall (ha : ∀ l ∈ a, IsLine l) : Lines a := by
  have h := Lines.append ha (b := []) trivial
  rwa [append_nil] at h

/-- The text with a line feed at its end, unless it is empty or has one. -/
def endLine (s : Bytes) : Bytes :=
  if s ≠ [] ∧ s.getLast? ≠ some lineFeed then s ++ [lineFeed] else s

theorem dropEnd_concat : dropEnd b (s ++ [b]) = s := by
  rw [dropEnd, getLast?_concat, if_pos rfl, dropLast_concat]

theorem dropEnd_of_notMem (h : b ∉ s) : dropEnd b s = s :=
  if_neg fun hlast => h (mem_of_getLast? hlast)

/-- Ending the last line changes none of the lines but for their line feeds. -/
theorem exists_lines_endLine (h : Lines ls) :
    ∃ ls' : List Bytes, (∀ l ∈ ls', IsLine l) ∧ ls'.flatten = endLine ls.flatten ∧
      ls'.map (dropEnd lineFeed) = ls.map (dropEnd lineFeed) := by
  induction ls with
  | nil => exact ⟨[], by simp, rfl, rfl⟩
  | cons l ls ih =>
    obtain ⟨hl, hls⟩ := h
    obtain ⟨ls', hlines, hflat, hmap⟩ := ih hls
    rcases hl with ⟨x, hx, rfl⟩ | ⟨rfl, hne, hl⟩
    · refine ⟨(x ++ [lineFeed]) :: ls', ?_, ?_, by rw [map_cons, hmap, map_cons]⟩
      · exact forall_mem_cons.mpr ⟨⟨x, hx, rfl⟩, hlines⟩
      · rw [flatten_cons, hflat, flatten_cons]
        unfold endLine
        by_cases hnil : ls.flatten = []
        · rw [hnil]
          simp
        · have hlast : (x ++ [lineFeed] ++ ls.flatten).getLast? = ls.flatten.getLast? :=
            getLast?_append_of_ne_nil _ hnil
          rw [hlast]
          by_cases hend : ls.flatten.getLast? = some lineFeed
          · rw [if_neg (by simp [hend]), if_neg (by simp [hend])]
          · rw [if_pos ⟨hnil, hend⟩, if_pos ⟨by simp, hend⟩, append_assoc _ _ [lineFeed]]
    · refine ⟨[l ++ [lineFeed]], ?_, ?_, ?_⟩
      · intro l' hl'
        exact ⟨l, hl, mem_singleton.mp hl'⟩
      · have hlast : l.getLast? ≠ some lineFeed := fun h => hl (mem_of_getLast? h)
        rw [flatten_cons, flatten_cons, flatten_nil, append_nil,
          append_nil, endLine, if_pos ⟨hne, hlast⟩]
      · rw [map_cons, map_cons, dropEnd_concat, dropEnd_of_notMem hl]

end Zanskar.Go
