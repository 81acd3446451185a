import Zanskar.Bootedit.Merge
import Mathlib.Data.List.SplitBy

/-!
# When the changes are all that changes

`Merge` and the parser each have their own notion of a continued line, of its variable and of
the end of the file. In a file with a plain layout they agree: the entries of `Merge` are the
lines the parser joins, and each sets the variable `Merge` takes it for, or nothing
(`sets_own_key`). So the new file has the variables of the old one with the changes made
(`merge_makes_changes`).

In other files a change may take another variable with it (`master_key_goes_with_issuer`).
-/

namespace Zanskar.Bootedit

open Go Lifecycle List

/-! ## The layout of a file -/

/-- The line ends in a backslash, right before its line break. -/
def isContinued (l : Bytes) : Bool := (scanText l).getLast? = some backslash

/-- There is nothing in the line but line breaks. -/
def isBlank (l : Bytes) : Bool := l.all isEol

/-- The lines of a file, each with those it is continued in. -/
def joinedLines (file : Bytes) : List (List Bytes) :=
  (splitAfter file).splitBy fun l _ => isContinued l

/-- The text of a line and of those it is continued in, without the backslashes between them. -/
def joinedText : List Bytes → Bytes
  | [] => []
  | [l] => scanText l
  | l :: ls => (scanText l).dropLast ++ joinedText ls

/-- If the line ends in a backslash, line breaks apart, the parser continues it, and the next
one is not blank. -/
def Breaks (l next : Bytes) : Prop := continues l → isContinued l ∧ ¬isBlank next

instance : DecidableRel Breaks := fun l next =>
  inferInstanceAs (Decidable (continues l → isContinued l ∧ ¬isBlank next))

/-- The layouts that leave no room for two readings, for these changes. -/
structure PlainLayout (file : Bytes) (c : ChangeSet) : Prop where
  /-- A backslash at the end of a line stands right before its line break, and no blank line
  stands behind a continued one. -/
  breaks : (splitAfter file).IsChain Breaks
  /-- Joining a line with those it is continued in leaves its key as it is. -/
  keys : ∀ ls ∈ joinedLines file, keyOf (joinedText ls) = keyOf ls.flatten
  /-- The last line is not continued, or there is a line for every variable that is set, so
  that none is added behind it. -/
  ends : (∀ l ∈ (splitAfter file).getLast?, ¬isContinued l) ∨
    ∀ kv ∈ c, kv.2 ≠ [] → ∃ ls ∈ joinedLines file, keyOf ls.flatten = kv.1

variable {c : ChangeSet} {entry ls pre written : List Bytes} {es : List (List Bytes)}
  {k v l cont file : Bytes} {vars : Bytes → Option Bytes} {s : Setting}

theorem scanText_ne_nil (h : ¬isBlank l) : scanText l ≠ [] := by
  obtain ⟨tail, hl, htail⟩ := scanText_append l
  intro hnil
  rw [hnil, nil_append] at hl
  exact h (all_eq_true.mpr fun b hb => htail b (hl ▸ hb))

theorem continues_of_isContinued (h : isContinued l) : continues l := by
  obtain ⟨tail, hl, htail⟩ := scanText_append l
  obtain ⟨t, ht⟩ := getLast?_eq_some_iff.mp (of_decide_eq_true h)
  rw [continues, hl, rdropWhile_append_of_all htail, ht, rdropWhile_concat_neg _ _ _ (by decide),
    getLast?_concat]
  exact decide_eq_true rfl

/-- Whether an entry goes on is decided by its last line, unless that is blank. -/
theorem continues_append (h : ¬isBlank l) (s : Bytes) : continues (s ++ l) = continues l := by
  have hne : l.rdropWhile isEol ≠ [] := fun hnil =>
    h (all_eq_true.mpr (rdropWhile_eq_nil_iff.mp hnil))
  have hrev : (l.reverse.dropWhile isEol) ≠ [] := fun hnil => hne (by rw [rdropWhile, hnil]; rfl)
  have hdrop : (s ++ l).rdropWhile isEol = s ++ l.rdropWhile isEol := by
    rw [rdropWhile, reverse_append, dropWhile_append, if_neg (by simpa using hrev),
      reverse_append, reverse_reverse, rdropWhile]
  rw [continues, hdrop, getLast?_append_of_ne_nil _ hne, continues]

/-- The entries of `Merge` are continued lines, and end in one that is not continued. -/
theorem entriesFrom_runs (hbreaks : (l :: ls).IsChain Breaks)
    (hrun : (pre ++ [l]).IsChain fun l _ => isContinued l)
    (hlast : continues (pre ++ [l]).flatten = continues l) :
    (∀ m ∈ entriesFrom (pre ++ [l]) ls, m.IsChain fun l _ => isContinued l) ∧
      (entriesFrom (pre ++ [l]) ls).IsChain fun a b =>
        ∃ (ha : a ≠ []) (_ : b ≠ []), isContinued (a.getLast ha) = false := by
  induction ls generalizing pre l with
  | nil => exact ⟨by simpa [entriesFrom] using hrun, isChain_singleton _⟩
  | cons next ls ih =>
    obtain ⟨hnext, hrest⟩ := isChain_cons_cons.mp hbreaks
    rw [entriesFrom, hlast]
    split
    · rename_i hgoes
      obtain ⟨hcontinued, hblank⟩ := hnext hgoes
      refine ih hrest ?_ ?_
      · refine hrun.append (isChain_singleton _) fun x hx y hy => ?_
        rw [getLast?_concat, Option.mem_some_iff] at hx
        exact hx ▸ hcontinued
      · rw [flatten_append, flatten_singleton, continues_append hblank]
    · rename_i hends
      obtain ⟨hruns, hchain⟩ := @ih [] next hrest (isChain_singleton _) (by simp)
      refine ⟨?_, isChain_cons.mpr ⟨fun b hb => ?_, hchain⟩⟩
      · intro m hm
        rcases mem_cons.mp hm with rfl | hm
        · exact hrun
        · exact hruns m hm
      · refine ⟨by simp, ?_, ?_⟩
        · exact ne_nil_of_mem_entriesFrom (cons_ne_nil next []) (mem_of_mem_head? hb)
        · rw [getLast_append_singleton]
          exact Bool.eq_false_iff.mpr fun h => hends (continues_of_isContinued h)

/-- Both cut a file with plain breaks at the same lines. -/
theorem entries_eq_joinedLines (hbreaks : (splitAfter file).IsChain Breaks) :
    entries (splitAfter file) = joinedLines file := by
  obtain ⟨-, hflat, hne⟩ := @entries_spec (splitAfter file)
  refine (splitBy_eq_iff.mpr ⟨hflat.symm, fun hnil => hne [] hnil rfl, ?_⟩).symm
  cases hlines : splitAfter file with
  | nil => exact ⟨by simp [entries], isChain_nil⟩
  | cons l ls =>
    rw [hlines] at hbreaks
    obtain ⟨hruns, hchain⟩ := @entriesFrom_runs ls [] l hbreaks (isChain_singleton _) (by simp)
    exact ⟨hruns, hchain⟩

/-! ## What an entry sets -/

theorem key_of_setting (h : setting l = some s) : s.1 = keyOf l := by
  unfold setting at h
  unfold keyOf
  dsimp only at h ⊢
  split_ifs at h ⊢ with hcomment
  cases hcut : cut (ascii '=') (dropFront (lit "export ") (trimSpaces l)) with
  | none => simp only [hcut, reduceCtorEq] at h
  | some kv =>
    simp only [hcut, Option.ite_none_right_eq_some] at h ⊢
    obtain ⟨-, rfl⟩ := Option.some.inj h.2
    rfl

/-- The text of a line behind what is held back ends as the line does. -/
theorem getLast?_heldBack (h : cont = [] ∨ ¬isBlank l) :
    (cont ++ scanText l).getLast? = (scanText l).getLast? := by
  rcases h with rfl | hblank
  · rfl
  · exact getLast?_append_of_ne_nil _ (scanText_ne_nil hblank)

theorem dropLast_append_scanText (h : isContinued l) :
    (cont ++ scanText l).dropLast = cont ++ (scanText l).dropLast := by
  refine dropLast_append_of_ne_nil fun hnil => ?_
  rw [isContinued, hnil] at h
  cases h

/-- The parser reads a line with those it is continued in as their joined text. -/
theorem setting_of_mem_readFrom (hcont : cont = [] ∨ ¬isBlank l)
    (hbreaks : (l :: ls).IsChain Breaks) (hrun : (l :: ls).IsChain fun l _ => isContinued l)
    (h : s ∈ readFrom cont ((l :: ls).map scanText)) :
    setting (cont ++ joinedText (l :: ls)) = some s := by
  induction ls generalizing cont l with
  | nil =>
    rw [map_singleton, readFrom] at h
    split at h
    · cases h
    · rw [readFrom, append_nil] at h
      exact Option.mem_toList.mp h
  | cons next ls ih =>
    obtain ⟨hnext, hbreaks⟩ := isChain_cons_cons.mp hbreaks
    obtain ⟨hcontinued, hrun⟩ := isChain_cons_cons.mp hrun
    have hblank := (hnext (continues_of_isContinued hcontinued)).2
    rw [map_cons, readFrom, if_pos ((getLast?_heldBack hcont).trans (of_decide_eq_true hcontinued)),
      dropLast_append_scanText hcontinued] at h
    rw [joinedText, ← append_assoc]
    · exact ih (.inr hblank) hbreaks hrun h
    · simp

/-- Nothing is held back behind a line that is not continued. -/
theorem heldBack_eq_nil (hcont : cont = [] ∨ ¬isBlank l)
    (hbreaks : (l :: ls).IsChain Breaks) (hrun : (l :: ls).IsChain fun l _ => isContinued l)
    (hlast : ∀ x ∈ (l :: ls).getLast?, ¬isContinued x) :
    heldBack cont ((l :: ls).map scanText) = [] := by
  induction ls generalizing cont l with
  | nil =>
    have hends : (cont ++ scanText l).getLast? ≠ some backslash := by
      rw [getLast?_heldBack hcont]
      exact fun h => hlast l rfl (decide_eq_true h)
    rw [map_singleton, heldBack_line hends, heldBack]
  | cons next ls ih =>
    obtain ⟨hnext, hbreaks⟩ := isChain_cons_cons.mp hbreaks
    obtain ⟨hcontinued, hrun⟩ := isChain_cons_cons.mp hrun
    have hblank := (hnext (continues_of_isContinued hcontinued)).2
    rw [map_cons, heldBack, if_pos ((getLast?_heldBack hcont).trans (of_decide_eq_true hcontinued))]
    exact ih (.inr hblank) hbreaks hrun (by rwa [getLast?_cons_cons] at hlast)

theorem PlainLayout.breaks_of_mem (hlayout : PlainLayout file c)
    (hentry : entry ∈ entries (splitAfter file)) : entry.IsChain Breaks := by
  obtain ⟨-, hflat, -⟩ := @entries_spec (splitAfter file)
  have hwithin := infix_of_mem_flatten hentry
  exact IsChain.infix hlayout.breaks (hflat ▸ hwithin)

/-- **An entry sets its own variable**, or nothing. -/
theorem sets_own_key (hlayout : PlainLayout file c) (hentry : entry ∈ entries (splitAfter file))
    (h : s ∈ reads entry) : s.1 = keyOf entry.flatten := by
  obtain ⟨-, -, hne⟩ := @entries_spec (splitAfter file)
  have hjoined : entry ∈ joinedLines file := entries_eq_joinedLines hlayout.breaks ▸ hentry
  have hrun := isChain_of_mem_splitBy hjoined
  obtain ⟨l, ls, rfl⟩ := exists_cons_of_ne_nil (hne entry hentry)
  rw [← hlayout.keys _ hjoined]
  exact key_of_setting (setting_of_mem_readFrom (.inl rfl) (hlayout.breaks_of_mem hentry) hrun h)

theorem openEnd_eq_nil (h : ∀ entry ∈ es.getLast?, leaves entry = []) : openEnd c es = [] := by
  induction es with
  | nil => rfl
  | cons entry es ih =>
    rw [openEnd]
    cases es with
    | nil => simp [h entry rfl]
    | cons next es => exact ih (by rwa [getLast?_cons_cons] at h)

/-- The lines that are added begin afresh. -/
theorem PlainLayout.openEnd_or_missing (hlayout : PlainLayout file c) :
    openEnd c (entries (splitAfter file)) = [] ∨ missing c (entries (splitAfter file)) = [] := by
  have hentries := entries_eq_joinedLines hlayout.breaks
  refine hlayout.ends.imp (fun hlast => ?_) fun hall => ?_
  · obtain ⟨-, hflat, hne⟩ := @entries_spec (splitAfter file)
    refine openEnd_eq_nil fun entry hentry => ?_
    have hmem := mem_of_getLast? hentry
    have hjoined : entry ∈ joinedLines file := hentries ▸ hmem
    obtain ⟨l, ls, rfl⟩ := exists_cons_of_ne_nil (hne entry hmem)
    refine heldBack_eq_nil (.inl rfl) (hlayout.breaks_of_mem hmem)
      (isChain_of_mem_splitBy hjoined) ?_
    -- the last line of the last entry is that of the file
    obtain ⟨init, hinit⟩ := getLast?_eq_some_iff.mp hentry
    rw [← hflat, hinit, flatten_append, flatten_singleton,
      getLast?_append_of_ne_nil _ (cons_ne_nil _ _)] at hlast
    exact hlast
  · refine eq_nil_iff_forall_not_mem.mpr fun kv hkv => ?_
    obtain ⟨hmem, hentry, hne⟩ := mem_missing.mp hkv
    obtain ⟨entry, he, hkey⟩ := hall kv hmem hne
    exact hentry entry (hentries ▸ he) hkey

/-! ## What the new file sets -/

/-- The variables with the changes made. -/
def changed (c : ChangeSet) (vars : Bytes → Option Bytes) (k : Bytes) : Option Bytes :=
  match c.lookup k with
  | none => vars k
  | some v => if v = [] then none else some v

/-- What the new file sets, in order. -/
def newSettings (c : ChangeSet) (es : List (List Bytes)) : List Setting :=
  (mergeFrom c [] es).1.flatMap Part.settings ++ missing c es

theorem writable_of_missing (hc : Accepted c) :
    ∀ kv ∈ missing c es, Name kv.1 ∧ Writable kv.2 := fun kv hkv =>
  ⟨name_of_changeable (hc.changeable kv (mem_missing.mp hkv).1),
    hc.writable kv (mem_missing.mp hkv).1⟩

/-- The lines that are added are read as what they set, behind nothing that is held back. -/
theorem readFrom_missing (hc : Accepted c) (hopen : openEnd c es = [] ∨ missing c es = []) :
    readFrom (openEnd c es) ((missing c es).map fun kv => assignment kv.1 kv.2) =
      missing c es := by
  have hrest : ∀ kvs : ChangeSet, (∀ kv ∈ kvs, Name kv.1 ∧ Writable kv.2) →
      readFrom [] (kvs.map fun kv => assignment kv.1 kv.2) = kvs := by
    intro kvs hkvs
    induction kvs with
    | nil => rfl
    | cons kv kvs ih =>
      obtain ⟨hk, hv⟩ := hkvs kv mem_cons_self
      rw [map_cons, readFrom_line (getLast_assignment hv []), nil_append,
        setting_assignment hv hk, ih fun kv' h => hkvs kv' (mem_cons_of_mem kv h)]
      rfl
  rcases hopen with hopen | hmissing
  · rw [hopen, hrest _ (writable_of_missing hc)]
  · rw [hmissing]
    rfl

theorem not_tooLong_line (hk : Name k) (hv : Writable v) : tooLong (line k v) = false := by
  have hlen := length_assignment_le hv hk
  rw [tooLong, line, dropEnd_concat, decide_eq_false_iff_not, maxToken]
  omega

theorem not_tooLong_of_parse
    (h : parseEnvFile file = some vars) {l : Bytes} (hl : l ∈ splitAfter file) :
    tooLong l = false := by
  unfold parseEnvFile at h
  dsimp only at h
  split at h
  · cases h
  · rename_i hshort
    by_contra hlong
    exact hshort (any_eq_true.mpr ⟨l, hl, Bool.not_eq_false _ ▸ hlong⟩)

/-- **The new file is read**, and sets what its parts and the added lines set. -/
theorem parseEnvFile_merge (hc : Accepted c) (hfile : parseEnvFile file = some vars)
    (hopen : openEnd c (entries (splitAfter file)) = [] ∨
      missing c (entries (splitAfter file)) = []) :
    parseEnvFile (merge file c) = some (lastSet (newSettings c (entries (splitAfter file)))) := by
  obtain ⟨hafresh, hflat, hne⟩ := entries_spec
  set es := entries (splitAfter file) with hes
  have hlines : Lines ((mergeFrom c [] es).1.flatMap Part.lines) :=
    lines_parts hc hne (hflat ▸ lines_splitAfter) []
  have hgood : ∀ kv ∈ missing c es, Name kv.1 ∧ Writable kv.2 := writable_of_missing hc
  have hmerge : merge file c = (missing c es).foldl (fun out kv => endLine out ++ line kv.1 kv.2)
      ((mergeFrom c [] es).1.flatMap Part.lines).flatten := by
    rw [← added_eq_missing hc]
    rfl
  have hcontents := splitAfter_merged hlines fun kv hkv =>
    isLine_line (hgood kv hkv).2 (hgood kv hkv).1
  rw [← hmerge] at hcontents
  have hshort : ∀ l ∈ splitAfter (merge file c), tooLong l = false := by
    intro l hl
    -- without its line feed, it is a line of the file or a written one
    have hmem := mem_map_of_mem (f := dropEnd lineFeed) hl
    rw [hcontents] at hmem
    obtain ⟨l', hl', hsame⟩ := mem_map.mp hmem
    have hshort' : tooLong l' = false := by
      rcases mem_append.mp hl' with hpart | hadded
      · rcases mem_lines_parts hpart with hold | ⟨k, v, hkv, rfl⟩
        · rw [hflat] at hold
          exact not_tooLong_of_parse hfile hold
        · obtain ⟨hk, hv⟩ := hc.of_lookup hkv
          exact not_tooLong_line hk hv
      · obtain ⟨kv, hkv, rfl⟩ := mem_map.mp hadded
        exact not_tooLong_line (hgood kv hkv).1 (hgood kv hkv).2
    rw [tooLong, ← hsame]
    exact hshort'
  have htexts : (splitAfter (merge file c)).map scanText =
      ((mergeFrom c [] es).1.flatMap Part.lines).map scanText ++
        (missing c es).map fun kv => assignment kv.1 kv.2 := by
    have hscan : scanText = dropEnd carriageReturn ∘ dropEnd lineFeed := rfl
    rw [hscan, ← map_map, hcontents, map_map, ← hscan, map_append, map_map]
    congr 1
    exact map_congr_left fun kv hkv => scanText_line (hgood kv hkv).2 (hgood kv hkv).1
  obtain ⟨hread, hheld⟩ := readFrom_parts hc hafresh []
  unfold parseEnvFile
  dsimp only
  rw [if_neg (by simpa using hshort), htexts, readFrom_append, hread, hheld,
    readFrom_missing hc hopen, newSettings]

theorem vars_eq (h : parseEnvFile file = some vars) :
    vars = lastSet ((entries (splitAfter file)).flatMap reads) := by
  obtain ⟨hafresh, hflat, -⟩ := entries_spec
  rw [← readFrom_entries hafresh, hflat]
  unfold parseEnvFile at h
  dsimp only at h
  split at h
  · cases h
  · exact (Option.some.inj h).symm

section OwnKeys

variable (hown : ∀ entry ∈ es, ∀ s ∈ reads entry, s.1 = keyOf entry.flatten)
include hown

/-- A variable that is not changed is set in the parts as in the file. -/
theorem lastSet_parts_unchanged (h : c.lookup k = none) :
    lastSet ((mergeFrom c written es).1.flatMap Part.settings) k =
      lastSet (es.flatMap reads) k := by
  induction es generalizing written with
  | nil => rfl
  | cons entry es ih =>
    have hrest := fun written => @ih written fun e he => hown e (mem_cons_of_mem entry he)
    have hother : ∀ v, c.lookup (keyOf entry.flatten) = some v →
        keyOf entry.flatten ≠ k ∧ lastSet (reads entry) k = none := by
      intro v hsome
      have hne : keyOf entry.flatten ≠ k := fun hkey => by
        rw [hkey, h] at hsome
        cases hsome
      refine ⟨hne, lastSet_eq_none fun hmem => ?_⟩
      obtain ⟨s, hs, rfl⟩ := mem_map.mp hmem
      exact hne (hown entry mem_cons_self s hs).symm
    rcases mergeFrom_cons with ⟨-, heq⟩ | ⟨v, hsome, -, heq⟩ | ⟨v, hsome, -, -, heq⟩
    · rw [heq, flatMap_cons, flatMap_cons, lastSet_append, lastSet_append, hrest]
      rfl
    · rw [heq, hrest, flatMap_cons, lastSet_append, (hother v hsome).2, Option.or_none]
    · rw [heq, flatMap_cons, flatMap_cons, Part.settings, singleton_append, lastSet_cons,
        if_neg (hother v hsome).1, hrest, lastSet_append, (hother v hsome).2]

/-- A changed variable is set in the parts to its new value only. -/
theorem eq_of_mem_parts (hv : c.lookup s.1 = some v)
    (h : s ∈ (mergeFrom c written es).1.flatMap Part.settings) : s.2 = v ∧ v ≠ [] := by
  induction es generalizing written with
  | nil => cases h
  | cons entry es ih =>
    have hrest := fun written => @ih written fun e he => hown e (mem_cons_of_mem entry he)
    rcases mergeFrom_cons with ⟨hnone, heq⟩ | ⟨v', -, -, heq⟩ | ⟨v', hsome, -, hne, heq⟩
    · rw [heq, flatMap_cons] at h
      rcases mem_append.mp h with hread | h
      · rw [← hown entry mem_cons_self s hread, hv] at hnone
        cases hnone
      · exact hrest written h
    · rw [heq] at h
      exact hrest written h
    · rw [heq, flatMap_cons] at h
      rcases mem_append.mp h with hput | h
      · rw [Part.settings, mem_singleton] at hput
        subst hput
        cases hsome.symm.trans hv
        exact ⟨rfl, hne⟩
      · exact hrest _ h

end OwnKeys

/-- A variable with an entry and a new value is set in the parts. -/
theorem mem_parts (hv : c.lookup k = some v) (hne : v ≠ []) (hnew : k ∉ written)
    (hentry : ∃ entry ∈ es, keyOf entry.flatten = k) :
    (k, v) ∈ (mergeFrom c written es).1.flatMap Part.settings := by
  induction es generalizing written with
  | nil =>
    obtain ⟨entry, hmem, -⟩ := hentry
    cases hmem
  | cons entry es ih =>
    have hrest : keyOf entry.flatten ≠ k → ∃ entry ∈ es, keyOf entry.flatten = k := fun hkey =>
      ((exists_mem_cons_iff _ _ _).mp hentry).resolve_left hkey
    rcases mergeFrom_cons with ⟨hnone, heq⟩ | ⟨v', hsome, hskip, heq⟩ | ⟨v', hsome, -, -, heq⟩
    · have hkey : keyOf entry.flatten ≠ k := fun hkey => by
        rw [hkey, hv] at hnone
        cases hnone
      rw [heq, flatMap_cons]
      exact mem_append_right _ (ih hnew (hrest hkey))
    · have hkey : keyOf entry.flatten ≠ k := fun hkey => by
        rw [hkey] at hsome hskip
        cases hv.symm.trans hsome
        exact hskip.elim hnew hne
      rw [heq]
      exact ih hnew (hrest hkey)
    · rw [heq, flatMap_cons]
      by_cases hkey : keyOf entry.flatten = k
      · rw [hkey] at hsome ⊢
        cases hv.symm.trans hsome
        exact mem_append_left _ mem_cons_self
      · refine mem_append_right _ (ih ?_ (hrest hkey))
        rw [mem_cons, not_or]
        exact ⟨Ne.symm hkey, hnew⟩

/-- Every variable has the value it should have in the new file. -/
theorem lastSet_newSettings (hc : Accepted c)
    (hown : ∀ entry ∈ es, ∀ s ∈ reads entry, s.1 = keyOf entry.flatten) :
    lastSet (newSettings c es) k = changed c (lastSet (es.flatMap reads)) k := by
  have hlookup : ∀ kv ∈ missing c es, c.lookup kv.1 = some kv.2 := fun kv hkv =>
    lookup_of_mem hc.nodup (mem_missing.mp hkv).1
  unfold changed
  cases hk : c.lookup k with
  | none =>
    have hmissing : lastSet (missing c es) k = none := lastSet_eq_none fun hmem => by
      obtain ⟨kv, hkv, rfl⟩ := mem_map.mp hmem
      rw [hlookup kv hkv] at hk
      cases hk
    rw [newSettings, lastSet_append, hmissing, Option.none_or, lastSet_parts_unchanged hown hk]
  | some v =>
    have hvalue : ∀ s ∈ newSettings c es, s.1 = k → s.2 = v ∧ v ≠ [] := by
      rintro s hs rfl
      rcases mem_append.mp hs with hpart | hadded
      · exact eq_of_mem_parts hown hk hpart
      · cases (hlookup s hadded).symm.trans hk
        exact ⟨rfl, (mem_missing.mp hadded).2.2⟩
    dsimp only
    split
    · rename_i hnil
      refine lastSet_eq_none fun hmem => ?_
      obtain ⟨s, hs, hkey⟩ := mem_map.mp hmem
      exact (hvalue s hs hkey).2 hnil
    · rename_i hne
      refine lastSet_of_forall ?_ fun s hs hkey => (hvalue s hs hkey).1
      by_cases hentry : ∃ entry ∈ es, keyOf entry.flatten = k
      · exact mem_append_left _ (mem_parts hk hne not_mem_nil hentry)
      · exact mem_append_right _ (mem_missing.mpr ⟨Lib.mem_of_lookup hk,
          fun entry he hkey => hentry ⟨entry, he, hkey⟩, hne⟩)

/-- **Changing the boot file.** For every file the parser reads and all changes that are
accepted, if the layout of the file is plain, the new file has the variables of the old one with
the changes made. -/
theorem merge_makes_changes {p : Parsers} {req : Request} {c : ChangeSet} {file : Bytes}
    {vars : Bytes → Option Bytes} (hc : changes p req = .ok c)
    (hfile : parseEnvFile file = some vars) (hlayout : PlainLayout file c) :
    parseEnvFile (merge file c) = some (changed c vars) := by
  have haccepted := accepted_of_changes hc
  rw [parseEnvFile_merge haccepted hfile hlayout.openEnd_or_missing, vars_eq hfile,
    Option.some.injEq]
  funext k
  exact lastSet_newSettings haccepted fun entry hentry s hs => sets_own_key hlayout hentry hs

/-- Parsers that know printable ASCII, and no address. -/
def asciiParsers : Parsers where
  parseURL _ := none
  parseIP _ := false
  isPrint c := 0x20 ≤ c.toNat && c.toNat < 0x7F
  quote v := ascii '"' :: v ++ [ascii '"']

/-- A file with a comment, a continued value and a variable that is set twice. -/
def bootFile : Bytes :=
  lit "# boot\nexport ZANSKAR_ISSUER=\"Old name\"\r\n" ++
    lit "ZANSKAR_TLS_HOSTS=a.example,\\\n b.example\n" ++
    lit "ZANSKAR_MASTER_KEY=k\nZANSKAR_ISSUER=Older\n"

/-- The issuer is renamed, the hosts are taken out, and the log format is set. -/
def renameIssuer : Request where
  values := [(lit "ZANSKAR_ISSUER", lit " New name "), (lit "ZANSKAR_TLS_HOSTS", []),
    (lit "ZANSKAR_LOG_FORMAT", lit "json")]
  tlsMode := []

theorem rename_issuer_in_boot_file :
    ∃ c vars, changes asciiParsers renameIssuer = .ok c ∧ PlainLayout bootFile c ∧
      parseEnvFile bootFile = some vars ∧ parseEnvFile (merge bootFile c) = some (changed c vars) ∧
      changed c vars (lit "ZANSKAR_ISSUER") = some (lit "New name") ∧
      changed c vars (lit "ZANSKAR_MASTER_KEY") = some (lit "k") := by
  have hchanges : changes asciiParsers renameIssuer =
      .ok [(lit "ZANSKAR_ISSUER", lit "New name"), (lit "ZANSKAR_LOG_FORMAT", lit "json"),
        (lit "ZANSKAR_TLS_HOSTS", [])] := by decide +kernel
  have hread : (parseEnvFile bootFile).any (fun vars =>
      vars (lit "ZANSKAR_MASTER_KEY") = some (lit "k")) := by decide +kernel
  obtain ⟨vars, hfile, hkey⟩ := (Option.any_eq_true _ _).mp hread
  refine ⟨_, vars, hchanges, ?layout, hfile, merge_makes_changes hchanges hfile ?layout, rfl, ?_⟩
  · exact ⟨by decide +kernel, by decide +kernel, .inl (by decide +kernel)⟩
  · rw [changed]
    exact of_decide_eq_true hkey

/-- A continued line with a blank line behind it. -/
def blankBehindContinued : Bytes :=
  lit "ZANSKAR_ISSUER=a\\\n\nZANSKAR_MASTER_KEY=k\n"

/-- To `Merge`, the line of the master key belongs to the entry of the issuer, and goes when
the issuer is changed. -/
theorem master_key_goes_with_issuer :
    ∃ c vars vars', changes asciiParsers ⟨[(lit "ZANSKAR_ISSUER", lit "b")], []⟩ = .ok c ∧
      parseEnvFile blankBehindContinued = some vars ∧
      vars (lit "ZANSKAR_MASTER_KEY") = some (lit "k") ∧
      merge blankBehindContinued c = lit "ZANSKAR_ISSUER=b\n" ∧
      parseEnvFile (merge blankBehindContinued c) = some vars' ∧
      vars' (lit "ZANSKAR_MASTER_KEY") = none := by
  have hchanges : (changes asciiParsers ⟨[(lit "ZANSKAR_ISSUER", lit "b")], []⟩) =
      .ok [(lit "ZANSKAR_ISSUER", lit "b")] := by decide +kernel
  refine ⟨_, _, _, hchanges, rfl, by decide +kernel, by decide +kernel, rfl, by decide +kernel⟩

/-- A key that is broken over two lines: its variable is not taken out. -/
example : (parseEnvFile (merge (lit "ZANSKAR_ISS\\\nUER=a\n") [(lit "ZANSKAR_ISSUER", [])])).bind
    (· (lit "ZANSKAR_ISSUER")) = some (lit "a") := by decide +kernel

/-- A last line that is continued: what is added behind it is not set. -/
example : (parseEnvFile (merge (lit "ZANSKAR_ISSUER=a\\\n")
    [(lit "ZANSKAR_LOG_FORMAT", lit "json")])).bind (· (lit "ZANSKAR_LOG_FORMAT")) = none := by
  decide +kernel

end Zanskar.Bootedit
