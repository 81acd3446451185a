import Zanskar.Go.Text
import Zanskar.Lib.Machine
import Zanskar.Lib.Pieces

/-!
# The file a pgbouncer reads

pgbouncer takes its configuration line by line: `[name]` starts a section, `key = value` adds an
entry to it. An entry of `[databases]` names a database, and its value is a list of parameters,
`key=value` with blanks between them. A value in single quotes may hold blanks; a quote in it is
written twice, and a backslash is a character like any other.

The parameters are read one character at a time, as a machine (`Scan.step`): whatever stands in
front of a piece of text, what the piece can still add is decided by the state it finds.
-/

namespace Zanskar.Pgbouncer

open Go Lib List

abbrev Text := List Char

/-- `isspace`. -/
def isBlank (c : Char) : Bool := c = ' ' || inRange c 0x09 0x0D

def trim (s : Text) : Text := (s.dropWhile isBlank).rdropWhile isBlank

variable {w : Text} {c : Char}

theorem dropWhile_append_cons (hc : isBlank c = false) (s t : Text) :
    (s ++ c :: t).dropWhile isBlank = s.dropWhile isBlank ++ c :: t := by
  rw [dropWhile_append]
  cases hs : s.dropWhile isBlank <;> simp [hc]

theorem isBlank_of_dropWhile {s t : Text} (h : s.dropWhile isBlank = c :: t) :
    isBlank c = false := by
  simpa [h] using dropWhile_get_zero_not isBlank s (by simp [h])

/-! ## Sections and entries -/

/-- What stands on a line. -/
inductive Line
  | blank
  | header (name : Text)
  | entry (key value : Text)
  deriving DecidableEq

/-- One line of the file; nothing for one that cannot be read. -/
def readLine (line : Text) : Option Line :=
  match trim line with
  | [] => some .blank
  | '[' :: rest => if rest.getLast? = some ']' then some (.header rest.dropLast) else none
  | cs =>
    match cs.dropWhile (· ≠ '=') with
    | [] => none
    | _ :: value =>
      let key := trim (cs.takeWhile (· ≠ '='))
      if key = [] then none else some (.entry key (trim value))

/-- An entry and the section it stands in. -/
structure Setting where
  header : Text
  key : Text
  value : Text
  deriving DecidableEq

/-- The lines behind a header. -/
def readLines (header : Text) : List Text → Option (List Setting)
  | [] => some []
  | line :: lines =>
    match readLine line with
    | none => none
    | some .blank => readLines header lines
    | some (.header name) => readLines name lines
    | some (.entry key value) => (readLines header lines).map (⟨header, key, value⟩ :: ·)

/-- The whole file. Nothing is configured when a line of it cannot be read. -/
def readFile (file : Text) : Option (List Setting) := readLines [] (file.splitOn '\n')

/-- The entries of a section. -/
def entriesOf (header : Text) (file : List Setting) : List (Text × Text) :=
  (file.filter (·.header = header)).map fun e => (e.key, e.value)

/-! ## The parameters of a database -/

abbrev Params := List (Text × Text)

/-- Where in a parameter the reader is. -/
inductive Mode
  | gap
  | key (k : Text)
  /-- behind a key, before its `=` -/
  | equals (k : Text)
  /-- behind the `=`, before the value -/
  | value (k : Text)
  | bare (k v : Text)
  | quoted (k v : Text)
  /-- behind a quote that may be the first of two -/
  | quote (k v : Text)
  deriving DecidableEq

/-- The parameters read and the one being read. -/
structure Scan where
  params : Params
  mode : Mode
  deriving DecidableEq

namespace Scan

/-- One character. -/
def step (s : Scan) (c : Char) : Option Scan :=
  match s.mode with
  | .gap =>
    if isBlank c then some s
    else if c = '=' then none
    else some { s with mode := .key [c] }
  | .key k =>
    if c = '=' then some { s with mode := .value k }
    else if isBlank c then some { s with mode := .equals k }
    else some { s with mode := .key (k ++ [c]) }
  | .equals k =>
    if c = '=' then some { s with mode := .value k }
    else if isBlank c then some s
    else none
  | .value k =>
    if isBlank c then some s
    else if c = '\'' then some { s with mode := .quoted k [] }
    else some { s with mode := .bare k [c] }
  | .bare k v =>
    if isBlank c then some ⟨s.params ++ [(k, v)], .gap⟩
    else some { s with mode := .bare k (v ++ [c]) }
  | .quoted k v =>
    if c = '\'' then some { s with mode := .quote k v }
    else some { s with mode := .quoted k (v ++ [c]) }
  | .quote k v =>
    if c = '\'' then some { s with mode := .quoted k (v ++ ['\'']) }
    else if isBlank c then some ⟨s.params ++ [(k, v)], .gap⟩
    else none

/-- The end of the value. -/
def finish (s : Scan) : Option Params :=
  match s.mode with
  | .gap => some s.params
  | .bare k v => some (s.params ++ [(k, v)])
  | .quote k v => some (s.params ++ [(k, v)])
  | _ => none

end Scan

/-- The parameters a value lists; nothing when it cannot be read. -/
def readParams (value : Text) : Option Params := (exec Scan.step ⟨[], .gap⟩ value).bind Scan.finish

example : readParams "host=db port = 5432 password='it''s \\ so'".toList =
    some [("host".toList, "db".toList), ("port".toList, "5432".toList),
      ("password".toList, "it's \\ so".toList)] := by
  decide

/-! ## Reading what is well written -/

namespace Scan

variable {ps qs : Params} {k v w : Text} {c : Char} {s t : Scan} {out : Params} {read : Text}

theorem exec_cons (s : Scan) (c : Char) (w : Text) :
    exec step s (c :: w) = (step s c).bind fun t => exec step t w := rfl

/-- Characters that are all added to what is being read. -/
theorem exec_grow {f : Text → Mode}
    (h : ∀ v, ∀ c ∈ w, step ⟨ps, f v⟩ c = some ⟨ps, f (v ++ [c])⟩) :
    exec step ⟨ps, f v⟩ w = some ⟨ps, f (v ++ w)⟩ := by
  induction w generalizing v with
  | nil => rw [append_nil]; rfl
  | cons c w ih =>
    rw [exec_cons, h v c mem_cons_self]
    exact (ih fun u d hd => h u d (mem_cons_of_mem c hd)).trans (by rw [append_assoc]; rfl)

/-- A key goes on to the next blank or `=`. -/
theorem exec_key (h : ∀ c ∈ w, isBlank c = false ∧ c ≠ '=') :
    exec step ⟨ps, .key k⟩ w = some ⟨ps, .key (k ++ w)⟩ :=
  exec_grow fun v c hc => by simp [step, h c hc]

theorem exec_bare (h : ∀ c ∈ w, isBlank c = false) :
    exec step ⟨ps, .bare k v⟩ w = some ⟨ps, .bare k (v ++ w)⟩ :=
  exec_grow fun u c hc => by simp [step, h c hc]

theorem exec_quoted (h : '\'' ∉ w) :
    exec step ⟨ps, .quoted k v⟩ w = some ⟨ps, .quoted k (v ++ w)⟩ :=
  exec_grow fun u c hc => by simp [step, ne_of_mem_of_not_mem hc h]

theorem exec_quoted_append (h : '\'' ∉ w) (rest : Text) :
    exec step ⟨ps, .quoted k v⟩ (w ++ rest) = exec step ⟨ps, .quoted k (v ++ w)⟩ rest := by
  rw [exec_append, exec_quoted h]
  rfl

theorem exec_gap_dropWhile :
    exec step ⟨ps, .gap⟩ (w.dropWhile isBlank) = exec step ⟨ps, .gap⟩ w := by
  induction w with
  | nil => rfl
  | cons c w ih =>
    by_cases hc : isBlank c
    · rw [dropWhile_cons_of_pos hc, ih, exec_cons]
      simp [step, hc]
    · rw [dropWhile_cons_of_neg hc]

/-- Text that stands for itself: a key, or with an `=` allowed a bare value. -/
def Word (w : Text) : Prop := w ≠ [] ∧ w.all (fun c => !isBlank c && c ≠ '\'') = true

instance (w : Text) : Decidable (Word w) := inferInstanceAs (Decidable (_ ∧ _))

theorem Word.char (h : Word w) (hc : c ∈ w) : isBlank c = false ∧ c ≠ '\'' := by
  simpa using all_eq_true.mp h.2 c hc

theorem Word.lineFeed_notMem (h : Word w) : '\n' ∉ w := fun hmem =>
  absurd (h.char hmem).1 (by decide)

theorem exec_gap_key (hk : Word k) (hequals : '=' ∉ k) :
    exec step ⟨ps, .gap⟩ (k ++ '=' :: w) = exec step ⟨ps, .value k⟩ w := by
  obtain ⟨c, k, rfl⟩ := exists_cons_of_ne_nil hk.1
  rw [mem_cons, not_or] at hequals
  have hword : ∀ d ∈ k, isBlank d = false ∧ d ≠ '=' := fun d hd =>
    ⟨(hk.char (mem_cons_of_mem c hd)).1, fun h => hequals.2 (h ▸ hd)⟩
  rw [cons_append, exec_cons, show step ⟨ps, .gap⟩ c = some ⟨ps, .key [c]⟩ by
    simp [step, (hk.char mem_cons_self).1, Ne.symm hequals.1]]
  simp [exec_append, exec_key hword, exec_cons, step]

theorem exec_value_bare (hv : Word v) :
    exec step ⟨ps, .value k⟩ (v ++ ' ' :: w) = exec step ⟨ps ++ [(k, v)], .gap⟩ w := by
  obtain ⟨c, v, rfl⟩ := exists_cons_of_ne_nil hv.1
  obtain ⟨hblank, hquote⟩ := hv.char mem_cons_self
  have hword : ∀ d ∈ v, isBlank d = false := fun d hd => (hv.char (mem_cons_of_mem c hd)).1
  rw [cons_append, exec_cons,
    show step ⟨ps, .value k⟩ c = some ⟨ps, .bare k [c]⟩ by simp [step, hblank, hquote]]
  simp [exec_append, exec_bare hword, exec_cons, step, isBlank]

theorem exec_gap_bare (hk : Word k) (hequals : '=' ∉ k) (hv : Word v) :
    exec step ⟨ps, .gap⟩ (k ++ '=' :: (v ++ ' ' :: w)) = exec step ⟨ps ++ [(k, v)], .gap⟩ w := by
  rw [exec_gap_key hk hequals, exec_value_bare hv]

/-- A parameter with a value in quotes, up to the value. -/
theorem exec_gap_quoted (hk : Word k) (hequals : '=' ∉ k) :
    exec step ⟨ps, .gap⟩ (k ++ '=' :: '\'' :: w) = exec step ⟨ps, .quoted k []⟩ w := by
  rw [exec_gap_key hk hequals, exec_cons]
  simp [step, isBlank, inRange]

/-! ## What reading keeps -/

/-- The parameter `k` follows `ps`, with a value that begins with `v`. -/
inductive Holds (ps : Params) (k v : Text) : Scan → Prop
  | quoted (v' : Text) : Holds ps k v ⟨ps, .quoted k (v ++ v')⟩
  | quote (v' : Text) : Holds ps k v ⟨ps, .quote k (v ++ v')⟩
  | done (v' : Text) (more : Params) (m : Mode) : Holds ps k v ⟨ps ++ (k, v ++ v') :: more, m⟩

theorem Holds.step (h : Holds ps k v s) (hstep : step s c = some t) : Holds ps k v t := by
  cases h with
  | quoted v' =>
    simp only [Scan.step] at hstep
    split at hstep <;> cases hstep
    · exact .quote v'
    · rw [append_assoc]
      exact .quoted _
  | quote v' =>
    simp only [Scan.step] at hstep
    split at hstep
    · cases hstep
      rw [append_assoc]
      exact .quoted _
    · split at hstep
      · cases hstep
        exact .done v' [] .gap
      · cases hstep
  | done v' more m =>
    cases m <;> simp only [Scan.step] at hstep <;> split_ifs at hstep <;>
      cases hstep <;>
      first
        | exact .done v' more _
        | rw [append_assoc, cons_append]; exact .done v' _ _

theorem Holds.exec (h : Holds ps k v s) (hexec : exec Scan.step s w = some t) : Holds ps k v t :=
  (Run.of_exec hexec).keeps (Holds ps k v) (fun _ _ _ _ hI hstep => hI.step hstep) h

theorem Holds.finish (h : Holds ps k v s) (hout : finish s = some out) :
    ∃ v' more, out = ps ++ (k, v ++ v') :: more := by
  cases h with
  | quoted v' => cases hout
  | quote v' => exact ⟨v', [], (Option.some.inj hout).symm⟩
  | done v' more m =>
    cases m <;> simp only [Scan.finish, Option.some.injEq, reduceCtorEq] at hout <;> subst hout
    · exact ⟨v', more, rfl⟩
    all_goals
      rw [append_assoc, cons_append]
      exact ⟨v', _, rfl⟩

/-- What was read of a value in quotes is the beginning of it. -/
theorem quoted_result
    (hexec : Lib.exec step ⟨ps, .quoted k v⟩ w = some t) (hout : finish t = some out) :
    ∃ v' more, out = ps ++ (k, v ++ v') :: more := by
  have hstart : Holds ps k v ⟨ps, .quoted k v⟩ := by simpa using Holds.quoted (v := v) []
  exact (hstart.exec hexec).finish hout

/-- A step leaves the parameters as they are or adds one. -/
theorem params_step (hstep : step s c = some t) : s.params <+: t.params := by
  obtain ⟨ps, m⟩ := s
  cases m <;> simp only [step] at hstep <;> split_ifs at hstep <;>
    cases hstep <;>
    first
      | exact prefix_rfl
      | exact prefix_append _ _

theorem params_result (hexec : exec step s w = some t)
    (hout : finish t = some out) : s.params <+: out := by
  have hrun : s.params <+: t.params :=
    (Run.of_exec hexec).keeps (fun u => s.params <+: u.params)
      (fun _ _ _ _ hI hstep => hI.trans (params_step hstep)) prefix_rfl
  obtain ⟨ps, m⟩ := t
  cases m <;> simp only [finish, Option.some.injEq, reduceCtorEq] at hout <;> subst hout
  · exact hrun
  all_goals exact hrun.trans (prefix_append _ _)

/-- How many parameters there will be at the least. -/
def weight (s : Scan) : Nat := s.params.length + if s.mode = .gap then 0 else 1

theorem weight_step (hstep : step s c = some t) : s.weight ≤ t.weight := by
  obtain ⟨ps, m⟩ := s
  cases m <;> simp only [step] at hstep <;> split_ifs at hstep <;>
    cases hstep <;> simp [weight]

/-- Behind the last parameter there are blanks only. -/
theorem isBlank_of_result (hexec : exec step ⟨ps, .gap⟩ w = some t)
    (hout : finish t = some ps) : ∀ c ∈ w, isBlank c := by
  rw [← dropWhile_eq_nil_iff]
  rw [← exec_gap_dropWhile] at hexec
  cases hdrop : w.dropWhile isBlank with
  | nil => rfl
  | cons c w' =>
    have hc := isBlank_of_dropWhile hdrop
    rw [hdrop, exec_cons] at hexec
    obtain ⟨s, hstep, hexec⟩ := Option.bind_eq_some_iff.mp hexec
    have hs : s.weight = ps.length + 1 := by
      simp only [step, hc, Bool.false_eq_true, if_false] at hstep
      split_ifs at hstep
      cases hstep
      simp [weight]
    have ht : s.weight ≤ t.weight :=
      (Run.of_exec hexec).keeps (fun u => s.weight ≤ u.weight)
        (fun _ _ _ _ hI hstep => hI.trans (weight_step hstep)) le_rfl
    have hle : t.weight ≤ ps.length := by
      obtain ⟨qs, m⟩ := t
      cases m <;> simp only [finish, Option.some.injEq, reduceCtorEq] at hout <;> subst hout <;>
        simp [weight]
    omega

/-- The quotes in a value were written twice, behind the one that opens it. -/
def Counts (read : Text) (s : Scan) : Prop :=
  match s.mode with
  | .quoted _ v => 2 * v.count '\'' + 1 ≤ read.count '\''
  | .quote _ v => 2 * v.count '\'' + 2 ≤ read.count '\''
  | _ => True

theorem Counts.step (h : Counts read s) (hstep : step s c = some t) : Counts (read ++ [c]) t := by
  obtain ⟨ps, m⟩ := s
  cases m <;> simp only [Scan.step] at hstep <;> split_ifs at hstep <;>
    cases hstep <;> simp_all [Counts]
  all_goals omega

/-- A value in quotes holds fewer quotes than were read to get there. -/
theorem quoted_count (hexec : exec step ⟨ps, .gap⟩ w = some ⟨qs, .quoted k v⟩) :
    2 * v.count '\'' + 1 ≤ w.count '\'' := by
  have h : Counts w ⟨qs, .quoted k v⟩ := (Run.of_exec hexec).keeps_trace Counts
    (fun _ _ _ _ _ hI hstep => hI.step hstep) (show Counts [] ⟨ps, .gap⟩ from trivial)
  exact h

/-- What is read is made of the characters there are. -/
def Drawn (read : Text) (s : Scan) : Prop :=
  (∀ p ∈ s.params, p.2 ⊆ read) ∧
    match s.mode with
    | .bare _ v | .quoted _ v | .quote _ v => v ⊆ read
    | _ => True

theorem Drawn.step (h : Drawn read s) (hstep : step s c = some t) : Drawn (read ++ [c]) t := by
  obtain ⟨ps, m⟩ := s
  obtain ⟨hparams, hmode⟩ := h
  have hgrow : ∀ {u : Text}, u ⊆ read → u ⊆ read ++ [c] := fun hu =>
    List.Subset.trans hu (subset_append_left _ _)
  have hkept : ∀ p ∈ ps, p.2 ⊆ read ++ [c] := fun p hp => hgrow (hparams p hp)
  have hpush : ∀ {k v : Text}, v ⊆ read → ∀ p ∈ ps ++ [(k, v)], p.2 ⊆ read ++ [c] := by
    intro k v hv
    exact forall_mem_append.mpr ⟨hkept, forall_mem_singleton.mpr (hgrow hv)⟩
  have hsnoc : ∀ {v : Text} {d : Char}, v ⊆ read → c = d → v ++ [d] ⊆ read ++ [c] := by
    rintro v d hv rfl
    exact append_subset.mpr ⟨hgrow hv, subset_append_right _ _⟩
  cases m <;> simp only [Scan.step] at hstep <;> split_ifs at hstep <;>
    cases hstep <;>
    first
      | exact ⟨hkept, trivial⟩
      | exact ⟨hpush hmode, trivial⟩
      | exact ⟨hkept, hgrow hmode⟩
      | exact ⟨hkept, hsnoc hmode rfl⟩
      | exact ⟨hkept, hsnoc hmode (by assumption)⟩
      | exact ⟨hkept, hsnoc (v := []) (nil_subset _) rfl⟩
      | exact ⟨hkept, nil_subset _⟩

end Scan

variable {value name : Text}

/-- The values of the parameters are made of what is written. -/
theorem subset_of_readParams {out : Params} (h : readParams value = some out) :
    ∀ p ∈ out, p.2 ⊆ value := by
  obtain ⟨⟨ps, m⟩, hexec, hout⟩ := Option.bind_eq_some_iff.mp h
  obtain ⟨hparams, hmode⟩ : Scan.Drawn value ⟨ps, m⟩ :=
    (Run.of_exec hexec).keeps_trace Scan.Drawn (fun _ _ _ _ _ hI hstep => hI.step hstep)
      ⟨by simp, trivial⟩
  cases m <;> simp only [Scan.finish, Option.some.injEq, reduceCtorEq] at hout <;> subst hout
  · exact hparams
  all_goals exact forall_mem_append.mpr ⟨hparams, forall_mem_singleton.mpr hmode⟩

/-- Blanks around a value do not matter, when it ends in something else. -/
theorem readParams_trim (hc : isBlank c = false) :
    readParams (trim (value ++ [c])) = readParams (value ++ [c]) := by
  have htrim : trim (value ++ [c]) = (value ++ [c]).dropWhile isBlank := by
    rw [trim, dropWhile_append_cons hc, rdropWhile_concat_neg _ _ _ (by simp [hc])]
  rw [readParams, htrim, Scan.exec_gap_dropWhile, readParams]

/-! ## Reading a line -/

/-- There is something in front of a line's `=`, and it is not a bracket. -/
def Starts (name : Text) : Prop := ∃ c, (name.dropWhile isBlank).head? = some c ∧ c ≠ '['

instance (name : Text) : Decidable (Starts name) :=
  match h : (name.dropWhile isBlank).head? with
  | none => .isFalse fun ⟨_, hc, _⟩ => nomatch h.symm.trans hc
  | some c => decidable_of_iff (c ≠ '[') (by simp [Starts, h])

/-- A line up to its first `=`. -/
theorem takeWhile_ne_append (h : '=' ∉ name) :
    (name ++ '=' :: w).takeWhile (· ≠ '=') = name ∧
      (name ++ '=' :: w).dropWhile (· ≠ '=') = '=' :: w := by
  have hname : ∀ c ∈ name, decide (c ≠ '=') := fun c hc =>
    decide_eq_true fun hceq => h (hceq ▸ hc)
  rw [takeWhile_append_of_pos hname, dropWhile_append_of_pos hname]
  simp

/-- A line with an `=` that ends in neither a blank nor a bracket is an entry or nothing. -/
theorem readLine_equals (hname : '=' ∉ name) (hc : isBlank c = false) (hbracket : c ≠ ']')
    {l : Line} :
    readLine (name ++ '=' :: (value ++ [c])) = some l ↔
      Starts name ∧ l = .entry (trim name) (trim (value ++ [c])) := by
  have hsub : '=' ∉ name.dropWhile isBlank := fun h => hname ((dropWhile_sublist _).subset h)
  have htrim : trim (name ++ '=' :: (value ++ [c])) =
      name.dropWhile isBlank ++ '=' :: (value ++ [c]) := by
    rw [trim, dropWhile_append_cons (by decide), ← cons_append, ← append_assoc,
      rdropWhile_concat_neg _ _ _ (by simp [hc])]
  have hkey : trim (name.dropWhile isBlank) = trim name := by
    rw [trim, dropWhile_idempotent, trim]
  rw [readLine, htrim]
  cases hfront : name.dropWhile isBlank with
  | nil => simp [Starts, hfront, trim]
  | cons d rest =>
    rw [hfront] at hsub hkey
    have hd := isBlank_of_dropWhile hfront
    by_cases hopen : d = '['
    · subst hopen
      simp [Starts, hfront, hbracket, getLast?_append, getLast?_cons]
    · have hstarts : Starts name := ⟨d, by simp [hfront], hopen⟩
      have hne : trim name ≠ [] := by
        rw [← hkey, trim, dropWhile_cons_of_neg (by simp [hd]), Ne, rdropWhile_eq_nil_iff]
        intro hall
        simp [hd] at hall
      obtain ⟨htake, hdrop⟩ := takeWhile_ne_append hsub
      split
      · rename_i heq
        cases heq
      · rename_i heq
        exact absurd (cons.inj heq).1 hopen
      · rw [hdrop, htake, hkey]
        simp [hstarts, hne, eq_comm]

theorem trim_of_word (h : Scan.Word w) : trim w = w := by
  have hdrop : w.dropWhile isBlank = w := by
    obtain ⟨c, w, rfl⟩ := exists_cons_of_ne_nil h.1
    exact dropWhile_cons_of_neg (by simp [(h.char mem_cons_self).1])
  rw [trim, hdrop, rdropWhile_eq_self_iff]
  intro hne
  simp [(h.char (getLast_mem hne)).1]

/-- A key and a value that stand for themselves, with nothing of a header about them. -/
def IsEntry (e : Text × Text) : Prop :=
  Scan.Word e.1 ∧ Scan.Word e.2 ∧ '=' ∉ e.1 ∧ '[' ∉ e.1 ∧ ']' ∉ e.2

instance (e : Text × Text) : Decidable (IsEntry e) := inferInstanceAs (Decidable (_ ∧ _))

theorem IsEntry.readLine {k v : Text} (h : IsEntry (k, v)) :
    readLine (k ++ '=' :: v) = some (.entry k v) := by
  obtain ⟨hk, hv, hequals, hopen, hclose⟩ := h
  obtain ⟨front, c, rfl⟩ : ∃ front c, v = front ++ [c] :=
    ⟨v.dropLast, v.getLast hv.1, (dropLast_append_getLast hv.1).symm⟩
  have hc : isBlank c = false := (hv.char (by simp)).1
  have hbracket : c ≠ ']' := fun hc => hclose (by simp [hc])
  refine (readLine_equals hequals hc hbracket).mpr ⟨?_, by rw [trim_of_word hk, trim_of_word hv]⟩
  obtain ⟨d, k, rfl⟩ := exists_cons_of_ne_nil hk.1
  refine ⟨d, ?_, fun hd => hopen (hd ▸ mem_cons_self)⟩
  rw [dropWhile_cons_of_neg (by simp [(hk.char mem_cons_self).1]), head?_cons]

/-! ## Lines of a file -/

theorem trim_subset (s : Text) : trim s ⊆ s := by
  have hfront := rdropWhile_prefix isBlank (s.dropWhile isBlank)
  exact List.Subset.trans hfront.subset (dropWhile_sublist _).subset

theorem subset_of_readLine {line key : Text} (h : readLine line = some (.entry key value)) :
    value ⊆ line := by
  unfold readLine at h
  split at h
  · cases h
  · split at h <;> cases h
  · split at h
    · cases h
    · rename_i d rest hdrop
      dsimp only at h
      split at h <;> cases h
      intro c hc
      have hmem : c ∈ d :: rest := mem_cons_of_mem d (trim_subset rest hc)
      rw [← hdrop] at hmem
      exact trim_subset line ((dropWhile_sublist _).subset hmem)

theorem exists_line_of_readLines {header : Text} {lines : List Text} {out : List Setting}
    (h : readLines header lines = some out) : ∀ e ∈ out, ∃ line ∈ lines, e.value ⊆ line := by
  induction lines generalizing header out with
  | nil =>
    cases h
    exact fun e he => absurd he not_mem_nil
  | cons line lines ih =>
    have hlater : ∀ {e : Setting}, (∃ l ∈ lines, e.value ⊆ l) → ∃ l ∈ line :: lines, e.value ⊆ l :=
      fun ⟨l, hl, hsub⟩ => ⟨l, mem_cons_of_mem line hl, hsub⟩
    rw [readLines] at h
    split at h
    · cases h
    · exact fun e he => hlater (ih h e he)
    · exact fun e he => hlater (ih h e he)
    · rename_i hline
      obtain ⟨rest, hrest, rfl⟩ := Option.map_eq_some_iff.mp h
      exact forall_mem_cons.mpr ⟨⟨line, mem_cons_self, subset_of_readLine hline⟩,
        fun e he => hlater (ih hrest e he)⟩

theorem lineFeed_notMem_of_readFile {file : Text} {out : List Setting}
    (h : readFile file = some out) {e : Setting} (he : e ∈ out) : '\n' ∉ e.value := by
  obtain ⟨line, hline, hsub⟩ := exists_line_of_readLines h e he
  exact fun hmem => (of_mem_splitOn hline).1 (hsub hmem)

theorem readLines_entries (header : Text) {es : List (Text × Text)} (h : ∀ e ∈ es, IsEntry e) :
    readLines header ((es.flatMap fun e => e.1 ++ '=' :: (e.2 ++ ['\n'])).splitOn '\n') =
      some (es.map fun e => ⟨header, e.1, e.2⟩) := by
  induction es with
  | nil => rfl
  | cons e es ih =>
    obtain ⟨k, v⟩ := e
    have he := h (k, v) mem_cons_self
    have hfeed : '\n' ∉ k ++ '=' :: v := by
      simp [he.1.lineFeed_notMem, he.2.1.lineFeed_notMem]
    have hline : (k ++ '=' :: (v ++ ['\n'])) ++ es.flatMap (fun e => e.1 ++ '=' :: (e.2 ++ ['\n'])) =
        (k ++ '=' :: v) ++ '\n' :: es.flatMap fun e => e.1 ++ '=' :: (e.2 ++ ['\n']) := by
      simp
    rw [flatMap_cons, hline, splitOn_append_cons_self_of_not_mem hfeed, readLines,
      he.readLine, ih fun e' h' => h e' (mem_cons_of_mem _ h')]
    rfl

end Zanskar.Pgbouncer
