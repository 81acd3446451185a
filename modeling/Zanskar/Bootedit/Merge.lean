import Zanskar.Bootedit.Changes

/-!
# Changing the environment file (`Merge`)

`internal/bootedit/bootedit.go`. `Merge` replaces the lines of the changed variables and keeps
every other byte. It cuts the file into entries by rules of its own: it joins a continued line
with all the blank lines behind it, and takes the variable of an entry from its raw text.
`ParseEnvFile` ends such an entry at the first blank line, and takes the variable from the joined
line.

- `continues_of_leaves` : what the parser continues, `Merge` continues, so every entry of `Merge`
  is made of whole entries of the parser and the file is read entry by entry;
- `readFrom_parts` : the new file is read part by part, a kept entry as it was and a written line
  as what it sets.
-/

namespace Zanskar.Bootedit

open Go Lifecycle List

/-! ## Entries and lines -/

/-- The entry goes on in the next line. -/
def continues (entry : Bytes) : Bool := (entry.rdropWhile isEol).getLast? = some backslash

/-- The entries, from the one begun with these lines on. -/
def entriesFrom : List Bytes → List Bytes → List (List Bytes)
  | entry, [] => [entry]
  | entry, l :: ls =>
    if continues entry.flatten then entriesFrom (entry ++ [l]) ls else entry :: entriesFrom [l] ls

/-- The entries of a file, each as its lines. -/
def entries : List Bytes → List (List Bytes)
  | [] => []
  | l :: ls => entriesFrom [l] ls

/-- `keyOf`. -/
def keyOf (entry : Bytes) : Bytes :=
  let s := trimSpaces entry
  if s = [] ∨ s.head? = some (ascii '#') ∨ s.head? = some (ascii ';') then []
  else
    match cut (ascii '=') (dropFront (lit "export ") s) with
    | none => []
    | some (k, _) => trimSpaces k

/-- `line` without its line feed: a value with a blank or a comment character is quoted. -/
def assignment (k v : Bytes) : Bytes :=
  if v.any fun b => b ∈ lit " \t#;'" then k ++ lit "=\"" ++ v ++ lit "\"" else k ++ lit "=" ++ v

/-- `line`. -/
def line (k v : Bytes) : Bytes := assignment k v ++ [lineFeed]

/-- A part of the new file: an entry that is kept, or a line that is written. -/
inductive Part where
  | kept (entry : List Bytes)
  | put (k v : Bytes)

def Part.lines : Part → List Bytes
  | .kept entry => entry
  | .put k v => [line k v]

/-- The loop of `Merge` over the entries: the parts of the new file, and the variables that
have been written. -/
def mergeFrom (c : ChangeSet) : List Bytes → List (List Bytes) → List Part × List Bytes
  | written, [] => ([], written)
  | written, entry :: es =>
    let key := keyOf entry.flatten
    match c.lookup key with
    | none => ((mergeFrom c written es).map (.kept entry :: ·) id)
    | some v =>
      if key ∈ written ∨ v = [] then mergeFrom c written es
      else ((mergeFrom c (key :: written) es).map (.put key v :: ·) id)

/-- The changes that are added at the end, by name. -/
def added (c : ChangeSet) (written : List Bytes) : ChangeSet :=
  (c.insertionSort fun a b => a.1 ≤ b.1).filter fun kv => kv.1 ∉ written ∧ kv.2 ≠ []

/-- `Merge`. -/
def merge (file : Bytes) (c : ChangeSet) : Bytes :=
  let (parts, written) := mergeFrom c [] (entries (splitAfter file))
  (added c written).foldl (fun out kv => endLine out ++ line kv.1 kv.2)
    (parts.flatMap Part.lines).flatten

/-! ## Written lines -/

variable {k v : Bytes} {entry ls : List Bytes} {es : List (List Bytes)} {c : ChangeSet}
  {written : List Bytes}

theorem Name.front (h : Name k) (s : Bytes) : FrontTrimmed (k ++ s) := by
  obtain ⟨rest, rfl⟩ := head?_eq_some_iff.mp h.head
  exact frontTrimmed_cons (by decide)

/-- The value as the line holds it. -/
def quoted (v : Bytes) : Bytes :=
  if v.any fun b => b ∈ lit " \t#;'" then ascii '"' :: v ++ [ascii '"'] else v

theorem assignment_eq : assignment k v = k ++ ascii '=' :: quoted v := by
  have hequals : lit "=" = [ascii '='] := by decide
  have hopen : lit "=\"" = [ascii '=', ascii '"'] := by decide
  have hclose : lit "\"" = [ascii '"'] := by decide
  unfold assignment quoted
  split
  · rw [hopen, hclose]
    simp
  · rw [hequals]
    simp

section Assignment

variable (hv : Writable v)

include hv

/-- The quotes are those `ParseEnvFile` takes off again. -/
theorem unquote_quoted : unquote (quoted v) = v := by
  unfold quoted
  split
  · rw [unquote, if_pos]
    · simp
    · refine ⟨by simp, .inl ⟨by simp, ?_⟩⟩
      rw [List.getLast?_concat]
  · rename_i hplain
    rw [unquote, if_neg]
    rintro ⟨-, ⟨hhead, -⟩ | ⟨hhead, -⟩⟩
    · exact hv.noQuote (mem_of_head? hhead)
    · refine hplain (any_eq_true.mpr ⟨_, mem_of_head? hhead, ?_⟩)
      decide

theorem trimSpaces_quoted : trimSpaces (quoted v) = quoted v := by
  unfold quoted
  split
  · exact trimSpaces_of_trimmed (frontTrimmed_cons (by decide)) (endTrimmed_concat (by decide))
  · exact trimSpaces_of_trimmed hv.front hv.ends

theorem endTrimmed_assignment : EndTrimmed (assignment k v) := by
  rw [assignment_eq]
  refine endTrimmed_append (by decide) k ?_
  have hquoted := (trimSpaces_trimmed (quoted v)).2
  rwa [trimSpaces_quoted hv] at hquoted

/-- A written line sets its variable to its value. -/
theorem setting_assignment (hk : Name k) :
    setting (assignment k v) = some (k, v) := by
  have htrim : trimSpaces (assignment k v) = assignment k v :=
    trimSpaces_of_trimmed (assignment_eq ▸ hk.front _) (endTrimmed_assignment hv)
  have hkey : trimSpaces k = k :=
    trimSpaces_of_trimmed (frontTrimmed_of_visible hk.visible) (endTrimmed_of_visible hk.visible)
  have hhead : (assignment k v).head? = some (ascii 'Z') := by
    rw [assignment_eq, List.head?_append, hk.head]
    rfl
  have hexport : dropFront (lit "export ") (assignment k v) = assignment k v := by
    obtain ⟨rest, hrest⟩ := List.head?_eq_some_iff.mp hhead
    rw [hrest]
    rfl
  have hcomment : ¬ (assignment k v = [] ∨ (assignment k v).head? = some (ascii '#') ∨
      (assignment k v).head? = some (ascii ';')) := by
    rw [hhead]
    rintro (hnil | hhash | hsemicolon)
    · rw [hnil] at hhead
      cases hhead
    · revert hhash
      decide
    · revert hsemicolon
      decide
  unfold setting
  dsimp only
  rw [htrim, if_neg hcomment, hexport, assignment_eq, cut_append hk.noEquals]
  dsimp only
  have hzanskar := isPrefixOf_iff_prefix.mpr hk.zanskar
  rw [hkey, if_pos hzanskar, trimSpaces_quoted hv, unquote_quoted hv]

theorem noEol_assignment (hk : Name k) :
    ∀ b ∈ assignment k v, isEol b = false := by
  have hequals : isEol (ascii '=') = false := by decide
  have hquote : isEol (ascii '"') = false := by decide
  intro b hb
  rw [assignment_eq, mem_append, mem_cons] at hb
  rcases hb with hb | rfl | hb
  · exact not_isEol_of_visible (hk.visible b hb)
  · exact hequals
  · unfold quoted at hb
    split at hb
    · simp only [cons_append, mem_cons, mem_append, not_mem_nil, or_false] at hb
      rcases hb with rfl | hb | rfl
      · exact hquote
      · exact hv.noEol b hb
      · exact hquote
    · exact hv.noEol b hb

theorem isLine_line (hk : Name k) : IsLine (line k v) := by
  refine ⟨assignment k v, fun hmem => ?_, rfl⟩
  have := noEol_assignment hv hk _ hmem
  revert this
  decide

theorem scanText_line (hk : Name k) : scanText (line k v) = assignment k v := by
  rw [scanText, line, dropEnd_concat, dropEnd_of_notMem]
  intro hmem
  have := noEol_assignment hv hk _ hmem
  revert this
  decide

theorem length_assignment_le (hk : Name k) : (assignment k v).length ≤ 2000 := by
  have hquoted : (quoted v).length ≤ v.length + 2 := by
    unfold quoted
    split <;> simp
  have hklen := hk.short
  have hvlen := hv.short
  rw [assignment_eq, length_append, length_cons]
  omega

theorem getLast_assignment (d : Bytes) :
    (d ++ assignment k v).getLast? ≠ some backslash := by
  have hfree : backslash ∉ ascii '=' :: quoted v := by
    have hequals : backslash ≠ ascii '=' := by decide
    have hquote : backslash ≠ ascii '"' := by decide
    unfold quoted
    split
    · simp [hequals, hquote, hv.noBackslash]
    · simp [hequals, hv.noBackslash]
  intro hlast
  rw [assignment_eq, ← append_assoc, getLast?_append_of_ne_nil _ (cons_ne_nil _ _)] at hlast
  exact hfree (mem_of_getLast? hlast)

end Assignment

/-! ## Reading entries -/

/-- What the parser reads in an entry. -/
def reads (entry : List Bytes) : List Setting := readFrom [] (entry.map scanText)

/-- What an entry leaves held back. -/
def leaves (entry : List Bytes) : Bytes := heldBack [] (entry.map scanText)

theorem dropEnd_append (b : UInt8) (s : Bytes) :
    ∃ tail, s = dropEnd b s ++ tail ∧ ∀ x ∈ tail, x = b := by
  unfold dropEnd
  split
  · rename_i hlast
    obtain ⟨t, rfl⟩ := getLast?_eq_some_iff.mp hlast
    exact ⟨[b], by rw [dropLast_concat], by simp⟩
  · exact ⟨[], by rw [append_nil], by simp⟩

theorem scanText_append (l : Bytes) :
    ∃ tail, l = scanText l ++ tail ∧ ∀ x ∈ tail, isEol x := by
  obtain ⟨lf, hlf, hlfs⟩ := dropEnd_append lineFeed l
  obtain ⟨cr, hcr, hcrs⟩ := dropEnd_append carriageReturn (dropEnd lineFeed l)
  refine ⟨cr ++ lf, ?_, ?_⟩
  · rw [scanText, ← append_assoc, ← hcr, ← hlf]
  · intro x hx
    rcases mem_append.mp hx with hx | hx
    · rw [hcrs x hx]
      decide
    · rw [hlfs x hx]
      decide

theorem rdropWhile_append_of_all {p : UInt8 → Bool} {tail : Bytes} (h : ∀ x ∈ tail, p x)
    (s : Bytes) : (s ++ tail).rdropWhile p = s.rdropWhile p := by
  rw [rdropWhile, reverse_append, dropWhile_append_of_pos, rdropWhile]
  intro x hx
  exact h x (mem_reverse.mp hx)

/-- What the parser continues, `Merge` continues. -/
theorem continues_of_leaves (h : leaves entry ≠ []) : continues entry.flatten := by
  induction entry using reverseRecOn with
  | nil => exact absurd rfl h
  | append_singleton entry l ih =>
    obtain ⟨tail, hl, htail⟩ := scanText_append l
    rw [leaves, map_append, heldBack_append, map_singleton, heldBack] at h
    dsimp only [heldBack] at h
    have hflat : (entry ++ [l]).flatten = entry.flatten ++ scanText l ++ tail := by
      rw [flatten_append, flatten_singleton, append_assoc, ← hl]
    rw [continues, hflat, rdropWhile_append_of_all htail]
    split at h
    · rename_i hlast
      by_cases htext : scanText l = []
      · -- a blank line: what was held back ended in another backslash
        rw [htext, append_nil] at hlast ⊢
        refine ih fun hnone => ?_
        rw [leaves] at hnone
        rw [hnone] at hlast
        cases hlast
      · rw [getLast?_append_of_ne_nil _ htext] at hlast
        obtain ⟨t, ht⟩ := getLast?_eq_some_iff.mp hlast
        rw [ht, ← append_assoc, rdropWhile_concat_neg _ _ _ (by decide), getLast?_concat]
        exact decide_eq_true rfl
    · exact absurd rfl h

/-- The parser starts afresh behind every entry but the last. -/
def Afresh : List (List Bytes) → Prop
  | [] => True
  | entry :: es => (es = [] ∨ leaves entry = []) ∧ Afresh es

theorem afresh_entriesFrom (entry : List Bytes) : Afresh (entriesFrom entry ls) := by
  induction ls generalizing entry with
  | nil => exact ⟨.inl rfl, trivial⟩
  | cons l ls ih =>
    rw [entriesFrom]
    split
    · exact ih _
    · rename_i hends
      refine ⟨.inr ?_, ih _⟩
      by_contra hleaves
      exact hends (continues_of_leaves hleaves)

theorem flatten_entriesFrom : (entriesFrom entry ls).flatten = entry ++ ls := by
  induction ls generalizing entry with
  | nil => rfl
  | cons l ls ih =>
    rw [entriesFrom]
    split
    · rw [ih, append_assoc, singleton_append]
    · rw [flatten_cons, ih, singleton_append]

theorem ne_nil_of_mem_entriesFrom {e : List Bytes} (hentry : entry ≠ [])
    (h : e ∈ entriesFrom entry ls) : e ≠ [] := by
  induction ls generalizing entry with
  | nil => exact mem_singleton.mp h ▸ hentry
  | cons l ls ih =>
    rw [entriesFrom] at h
    split at h
    · exact ih (by simp) h
    · rcases mem_cons.mp h with rfl | hmem
      · exact hentry
      · exact ih (cons_ne_nil _ _) hmem

/-- The entries are the lines of the file, and the parser reads them one by one. -/
theorem entries_spec :
    Afresh (entries ls) ∧ (entries ls).flatten = ls ∧ ∀ e ∈ entries ls, e ≠ [] := by
  cases ls with
  | nil => exact ⟨trivial, rfl, by simp [entries]⟩
  | cons l ls =>
    exact ⟨afresh_entriesFrom [l], flatten_entriesFrom, fun e he =>
      ne_nil_of_mem_entriesFrom (cons_ne_nil _ _) he⟩

theorem readFrom_entries (h : Afresh es) :
    readFrom [] (es.flatten.map scanText) = es.flatMap reads := by
  induction es with
  | nil => rfl
  | cons entry es ih =>
    rw [flatten_cons, map_append, readFrom_append, flatMap_cons]
    rcases h.1 with rfl | hleaves
    · rfl
    · rw [leaves] at hleaves
      rw [hleaves, ih h.2]
      rfl

/-! ## The new file -/

/-- What the parser reads in a part of the new file. -/
def Part.settings : Part → List Setting
  | .kept entry => reads entry
  | .put k v => [(k, v)]

/-- An entry is kept. -/
def isKept (c : ChangeSet) (entry : List Bytes) : Bool := (c.lookup (keyOf entry.flatten)).isNone

/-- What the last entry leaves held back, if it is kept. -/
def openEnd (c : ChangeSet) : List (List Bytes) → Bytes
  | [] => []
  | entry :: es =>
    if es.isEmpty then if isKept c entry then leaves entry else [] else openEnd c es

theorem mergeFrom_cons :
    (c.lookup (keyOf entry.flatten) = none ∧
      mergeFrom c written (entry :: es) =
        (.kept entry :: (mergeFrom c written es).1, (mergeFrom c written es).2)) ∨
    (∃ v, c.lookup (keyOf entry.flatten) = some v ∧ (keyOf entry.flatten ∈ written ∨ v = []) ∧
      mergeFrom c written (entry :: es) = mergeFrom c written es) ∨
    (∃ v, c.lookup (keyOf entry.flatten) = some v ∧ keyOf entry.flatten ∉ written ∧ v ≠ [] ∧
      mergeFrom c written (entry :: es) =
        (.put (keyOf entry.flatten) v :: (mergeFrom c (keyOf entry.flatten :: written) es).1,
          (mergeFrom c (keyOf entry.flatten :: written) es).2)) := by
  rw [mergeFrom]
  split
  · rename_i hnone
    exact .inl ⟨hnone, rfl⟩
  · rename_i v hsome
    split
    · rename_i hskip
      exact .inr (.inl ⟨v, hsome, hskip, rfl⟩)
    · rename_i hput
      rw [not_or] at hput
      exact .inr (.inr ⟨v, hsome, hput.1, hput.2, rfl⟩)

theorem lookup_of_mem (hnodup : (c.map Prod.fst).Nodup) (h : (k, v) ∈ c) : c.lookup k = some v := by
  obtain ⟨before, after, rfl⟩ := append_of_mem h
  refine lookup_eq_some_iff.mpr ⟨before, after, rfl, fun kv hkv => bne_iff_ne.mpr ?_⟩
  rw [map_append, map_cons, nodup_append] at hnodup
  exact (hnodup.2.2 _ (mem_map_of_mem hkv) k mem_cons_self).symm

/-- The variables written by an accepted change can stand in a line. -/
theorem Accepted.of_lookup (hc : Accepted c) (h : c.lookup k = some v) : Name k ∧ Writable v := by
  have hmem := Lib.mem_of_lookup h
  exact ⟨name_of_changeable (hc.changeable _ hmem), hc.writable _ hmem⟩

theorem openEnd_of_changed (h : c.lookup (keyOf entry.flatten) = some v) :
    openEnd c (entry :: es) = openEnd c es := by
  rw [openEnd, isKept, h]
  cases es with
  | nil | cons => rfl

theorem openEnd_of_leaves (h : leaves entry = []) : openEnd c (entry :: es) = openEnd c es := by
  rw [openEnd, h, ite_self]
  cases es with
  | nil | cons => rfl

/-- **The new file is read part by part**, and holds back what the last entry does. -/
theorem readFrom_parts (hc : Accepted c) (h : Afresh es) (written : List Bytes) :
    readFrom [] (((mergeFrom c written es).1.flatMap Part.lines).map scanText) =
        (mergeFrom c written es).1.flatMap Part.settings ∧
      heldBack [] (((mergeFrom c written es).1.flatMap Part.lines).map scanText) =
        openEnd c es := by
  induction es generalizing written with
  | nil => exact ⟨rfl, rfl⟩
  | cons entry es ih =>
    obtain ⟨hafresh, hes⟩ := h
    rcases mergeFrom_cons with ⟨hnone, heq⟩ | ⟨v, hsome, -, heq⟩ |
      ⟨v, hsome, -, -, heq⟩
    · -- the entry is kept
      obtain ⟨hread, hheld⟩ := ih hes written
      rw [heq, flatMap_cons, map_append, readFrom_append, heldBack_append, flatMap_cons]
      rcases hafresh with rfl | hleaves
      · refine ⟨rfl, ?_⟩
        rw [openEnd, isKept, hnone]
        rfl
      · have hheld' : heldBack [] ((Part.kept entry).lines.map scanText) = [] := hleaves
        rw [hheld', hread, hheld, openEnd_of_leaves hleaves]
        exact ⟨rfl, rfl⟩
    · -- it is taken out
      rw [heq, openEnd_of_changed hsome]
      exact ih hes written
    · -- a line stands in its place
      obtain ⟨hread, hheld⟩ := ih hes (keyOf entry.flatten :: written)
      obtain ⟨hk, hv⟩ := hc.of_lookup hsome
      have hlast := getLast_assignment (k := keyOf entry.flatten) hv []
      rw [heq, flatMap_cons, flatMap_cons, Part.lines, singleton_append,
        map_cons, scanText_line hv hk, readFrom_line hlast, heldBack_line hlast,
        nil_append, setting_assignment hv hk, hread, hheld, openEnd_of_changed hsome]
      exact ⟨rfl, rfl⟩

/-- Every line of the new file's parts is a line of the file or a written one. -/
theorem mem_lines_parts {l : Bytes} (h : l ∈ (mergeFrom c written es).1.flatMap Part.lines) :
    l ∈ es.flatten ∨ ∃ k v, c.lookup k = some v ∧ l = line k v := by
  induction es generalizing written with
  | nil => cases h
  | cons entry es ih =>
    rcases mergeFrom_cons with ⟨-, heq⟩ | ⟨v, -, -, heq⟩ | ⟨v, hsome, -, -, heq⟩
    · rw [heq, flatMap_cons] at h
      rcases mem_append.mp h with hentry | hrest
      · exact .inl (mem_append_left _ hentry)
      · exact (ih hrest).imp_left (mem_append_right _)
    · rw [heq] at h
      exact (ih h).imp_left (mem_append_right _)
    · rw [heq, flatMap_cons] at h
      rcases mem_append.mp h with hput | hrest
      · exact .inr ⟨_, v, hsome, mem_singleton.mp hput⟩
      · exact (ih hrest).imp_left (mem_append_right _)

theorem lines_parts (hc : Accepted c)
    (hne : ∀ e ∈ es, e ≠ []) (h : Lines es.flatten) (written : List Bytes) :
    Lines ((mergeFrom c written es).1.flatMap Part.lines) := by
  induction es generalizing written with
  | nil => trivial
  | cons entry es ih =>
    rw [flatten_cons] at h
    have hrest : ∀ written, Lines ((mergeFrom c written es).1.flatMap Part.lines) :=
      ih (fun e he => hne e (mem_cons_of_mem entry he)) h.right
    rcases mergeFrom_cons with ⟨-, heq⟩ | ⟨v, -, -, heq⟩ | ⟨v, hsome, -, -, heq⟩
    · rw [heq, flatMap_cons]
      cases es with
      | nil =>
        rw [flatten_nil, append_nil] at h
        rw [mergeFrom, flatMap_nil, append_nil]
        exact h
      | cons next es =>
        -- only the last line of the file may have no line feed
        have hnext : (next :: es).flatten ≠ [] := fun hnil =>
          hne next (by simp) (append_eq_nil_iff.mp hnil).1
        exact Lines.append (h.left hnext) (hrest written)
    · rw [heq]
      exact hrest written
    · obtain ⟨hk, hv⟩ := hc.of_lookup hsome
      rw [heq, flatMap_cons]
      refine Lines.append (fun l hl => ?_) (hrest _)
      rw [mem_singleton.mp hl]
      exact isLine_line hv hk

theorem foldl_added (hc : ∀ kv ∈ c, IsLine (line kv.1 kv.2)) (kv : Bytes × Bytes) (out : Bytes) :
    (kv :: c).foldl (fun out kv => endLine out ++ line kv.1 kv.2) out =
      endLine out ++ ((kv :: c).map fun kv => line kv.1 kv.2).flatten := by
  induction c generalizing kv out with
  | nil => simp
  | cons next c ih =>
    have hended : endLine (endLine out ++ line kv.1 kv.2) = endLine out ++ line kv.1 kv.2 := by
      rw [endLine, if_neg]
      rintro ⟨-, hlast⟩
      rw [line, ← append_assoc, getLast?_concat] at hlast
      exact hlast rfl
    rw [foldl_cons, ih (fun kv hkv => hc kv (mem_cons_of_mem _ hkv)), hended]
    simp

/-- The lines of the new file, but for their line feeds: those of its parts, and those that
are added. -/
theorem splitAfter_merged (hls : Lines ls) (hc : ∀ kv ∈ c, IsLine (line kv.1 kv.2)) :
    (splitAfter (c.foldl (fun out kv => endLine out ++ line kv.1 kv.2) ls.flatten)).map
        (dropEnd lineFeed) =
      (ls ++ c.map fun kv => line kv.1 kv.2).map (dropEnd lineFeed) := by
  cases c with
  | nil => rw [foldl_nil, splitAfter_flatten hls, map_nil, append_nil]
  | cons kv c =>
    obtain ⟨ls', hlines, hflat, hmap⟩ := exists_lines_endLine hls
    have hadded : ∀ l ∈ (kv :: c).map fun kv => line kv.1 kv.2, IsLine l := by
      intro l hl
      obtain ⟨kv', hkv', rfl⟩ := mem_map.mp hl
      exact hc kv' hkv'
    rw [foldl_added (fun kv hkv => hc kv (mem_cons_of_mem _ hkv)), ← hflat,
      ← flatten_append, splitAfter_flatten (Lines.append hlines (lines_of_forall hadded)),
      map_append, hmap, map_append]

/-- The changes that no entry of the file is for: they are added, by name. -/
def missing (c : ChangeSet) (es : List (List Bytes)) : ChangeSet :=
  (c.insertionSort fun a b => a.1 ≤ b.1).filter fun kv =>
    (es.all fun entry => keyOf entry.flatten ≠ kv.1) ∧ kv.2 ≠ []

/-- The variables that are written in place: those with an entry and a new value. -/
theorem mem_written :
    k ∈ (mergeFrom c written es).2 ↔ k ∈ written ∨
      (∃ entry ∈ es, keyOf entry.flatten = k) ∧ ∃ v, c.lookup k = some v ∧ v ≠ [] := by
  induction es generalizing written with
  | nil => simp [mergeFrom]
  | cons entry es ih =>
    rw [exists_mem_cons_iff]
    rcases mergeFrom_cons with ⟨hnone, heq⟩ | ⟨v, hsome, hskip, heq⟩ |
      ⟨v, hsome, hnew, hne, heq⟩
    · have hother : (∃ v, c.lookup k = some v ∧ v ≠ []) → keyOf entry.flatten ≠ k := by
        rintro ⟨v, hv, -⟩ rfl
        cases hnone.symm.trans hv
      rw [heq, ih]
      generalize (∃ v, c.lookup k = some v ∧ v ≠ []) = hasValue at hother ⊢
      tauto
    · have hother : (∃ v, c.lookup k = some v ∧ v ≠ []) → keyOf entry.flatten = k →
          k ∈ written := by
        rintro ⟨v', hv', hne'⟩ rfl
        cases hsome.symm.trans hv'
        exact hskip.resolve_right hne'
      rw [heq, ih]
      generalize (∃ v, c.lookup k = some v ∧ v ≠ []) = hasValue at hother ⊢
      tauto
    · have hself : keyOf entry.flatten = k → ∃ v, c.lookup k = some v ∧ v ≠ [] := by
        rintro rfl
        exact ⟨v, hsome, hne⟩
      rw [heq, ih, mem_cons, eq_comm]
      tauto

theorem added_eq_missing (hc : Accepted c) : added c (mergeFrom c [] es).2 = missing c es := by
  refine filter_congr fun kv hkv => ?_
  have hlookup : c.lookup kv.1 = some kv.2 :=
    lookup_of_mem hc.nodup ((perm_insertionSort _ _).mem_iff.mp hkv)
  rw [decide_eq_decide, mem_written, hlookup, all_eq_true]
  simp only [not_mem_nil, false_or, decide_eq_true_eq, not_and, not_exists, Option.some.injEq]
  constructor
  · rintro ⟨hnot, hne⟩
    refine ⟨fun entry hentry hkey => ?_, hne⟩
    exact hnot ⟨entry, hentry, hkey⟩ kv.2 rfl hne
  · rintro ⟨hall, hne⟩
    exact ⟨fun ⟨entry, hentry, hkey⟩ => absurd hkey (hall entry hentry), hne⟩

theorem mem_missing {kv : Bytes × Bytes} :
    kv ∈ missing c es ↔
      kv ∈ c ∧ (∀ entry ∈ es, keyOf entry.flatten ≠ kv.1) ∧ kv.2 ≠ [] := by
  rw [missing, mem_filter, (perm_insertionSort _ _).mem_iff, decide_eq_true_eq, all_eq_true]
  simp

end Zanskar.Bootedit
