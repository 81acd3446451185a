import Zanskar.Go.JsonWrite
import Zanskar.Go.Strings

/-!
# Terminal recordings (`internal/recording/asciicast.go`)

A recording is a header line and one line for each event, a JSON array of the elapsed
seconds, the kind and the data. The bridge of a terminal session records every chunk it
reads from the target as an event of its own. `json.Marshal` takes the data for UTF-8
and writes U+FFFD for every byte that begins no character.

- `playback_is_output` : what is played back is the output of the target just when every
  chunk is UTF-8 by itself.
-/

namespace Zanskar.Recording

open Go List

/-! ## Writing -/

/-- `sink`: what has been written, what has been hashed of it and how much it is. -/
structure Sink where
  file : Bytes
  hashed : Bytes
  size : Nat
  closed : Bool
  hashed_eq : hashed = file
  size_eq : size = file.length

/-- `writeLine`. -/
def Sink.writeLine (s : Sink) (line : Bytes) : Sink where
  file := s.file ++ line ++ [lineFeed]
  hashed := s.hashed ++ line ++ [lineFeed]
  size := s.size + (line.length + 1)
  closed := s.closed
  hashed_eq := by rw [s.hashed_eq]
  size_eq := by
    rw [s.size_eq, length_append, length_append, length_singleton, Nat.add_assoc]

/-- `ErrClosed`. -/
inductive EventError where
  | closed
  deriving DecidableEq

/-- `Asciicast`: where it is written to, and whether keystrokes are recorded too. -/
structure Asciicast where
  sink : Sink
  recordInput : Bool

/-- `%d`. -/
def decimal (n : Int) : Bytes :=
  if n < 0 then ascii '-' :: itoa n.natAbs else itoa n.natAbs

/-- A member of a JSON object. -/
def member (key : String) (value : Bytes) : Bytes :=
  quoteMarks (key.toList.map some) ++ ascii ':' :: value

/-- JSON texts with commas between them. -/
def commas : List Bytes → Bytes
  | [] => []
  | [t] => t
  | t :: ts => t ++ ascii ',' :: commas ts

/-- `Header`: the environment in the order of its keys. -/
structure Header where
  width : Int
  height : Int
  timestamp : Int
  title : Bytes
  env : List (Bytes × Bytes)

/-- `json.Marshal` of a header; the title and the environment are left out when they are
empty. -/
def Header.text (h : Header) : Bytes :=
  let env := h.env.map fun (k, v) => quoteMarks (marks k) ++ ascii ':' :: quoteMarks (marks v)
  ascii '\x7b' :: commas
    ([member "version" (decimal 2), member "width" (decimal h.width),
        member "height" (decimal h.height), member "timestamp" (decimal h.timestamp)] ++
      (if h.title = [] then [] else [member "title" (quoteMarks (marks h.title))]) ++
      (if env = [] then [] else [member "env" (ascii '\x7b' :: commas env ++ [ascii '\x7d'])])) ++
    [ascii '\x7d']

/-- `NewAsciicast`, on a blob that is still empty. -/
def newAsciicast (h : Header) (recordInput : Bool) : Asciicast :=
  ⟨(⟨[], [], 0, false, rfl, rfl⟩ : Sink).writeLine h.text, recordInput⟩

/-- `json.Marshal` of an event. -/
def eventLine (elapsed : Float64) (kind data : Bytes) : Bytes :=
  ascii '[' :: (numberText (floatText elapsed) ++ ascii ',' ::
    (quoteMarks (marks kind) ++ ascii ',' :: (quoteMarks (marks data) ++ [ascii ']'])))

/-- `event`. -/
def Asciicast.event (a : Asciicast) (elapsed : Float64) (kind data : Bytes) :
    Except EventError Asciicast :=
  if a.sink.closed then .error .closed
  else .ok { a with sink := a.sink.writeLine (eventLine elapsed kind data) }

/-- The calls that record an event. -/
inductive Call where
  | output (data : Bytes)
  | input (data : Bytes)
  | resize (cols rows : Int)
  | marker (label : Bytes)

/-- `Output`, `Input`, `Resize` and `Marker`. -/
def Asciicast.record (a : Asciicast) (elapsed : Float64) : Call → Except EventError Asciicast
  | .output data => a.event elapsed (lit "o") data
  | .input data => if a.recordInput then a.event elapsed (lit "i") data else .ok a
  | .resize cols rows => a.event elapsed (lit "r") (decimal cols ++ ascii 'x' :: decimal rows)
  | .marker label => a.event elapsed (lit "m") label

/-- A recording after some calls, each with the seconds elapsed. -/
def Asciicast.recordAll (a : Asciicast) : List (Float64 × Call) → Except EventError Asciicast
  | [] => .ok a
  | (elapsed, call) :: calls => (a.record elapsed call).bind (·.recordAll calls)

/-! ## Playing back -/

/-- The lines of a file. -/
def splitLines : Bytes → List Bytes
  | [] => []
  | b :: s =>
    if b = lineFeed then [] :: splitLines s
    else
      match splitLines s with
      | [] => [[b]]
      | l :: ls => (b :: l) :: ls

/-- The data of a line that is an output event. -/
def outputText (line : Bytes) : Option Bytes :=
  match unmarshal line with
  | some (.arr [.num _, .str kind, .str data]) => if kind = ['o'] then some (utf8 data) else none
  | _ => none

/-- What is played back of a recording: the data of its output events, behind the
header. -/
def playback (file : Bytes) : Bytes := ((splitLines file).tail.filterMap outputText).flatten

/-! ## Lines -/

theorem splitLines_line {l : Bytes} (h : lineFeed ∉ l) (s : Bytes) :
    splitLines (l ++ lineFeed :: s) = l :: splitLines s := by
  induction l with
  | nil => rw [nil_append, splitLines, if_pos rfl]
  | cons b l ih =>
    have hb : b ≠ lineFeed := fun hb => h (hb ▸ mem_cons_self)
    rw [cons_append, splitLines, if_neg hb, ih fun hmem => h (mem_cons_of_mem b hmem)]

theorem splitLines_flatMap {ls : List Bytes} (h : ∀ l ∈ ls, lineFeed ∉ l) :
    splitLines (ls.flatMap (· ++ [lineFeed])) = ls := by
  induction ls with
  | nil => rfl
  | cons l ls ih =>
    rw [flatMap_cons, append_assoc, singleton_append,
      splitLines_line (h l mem_cons_self), ih fun l' h' => h l' (mem_cons_of_mem l h')]

/-- A string in quotes keeps to its line: a line feed in it is escaped. -/
theorem lineFeed_notMem_quoteMarks (ms : List (Option Char)) : lineFeed ∉ quoteMarks ms := by
  have hunicode : ∀ n, lineFeed ∉ unicodeEscape n := by
    intro n
    have hhex : ∀ k < 16, hexDigit k ≠ lineFeed := by decide
    have hdigit : ∀ m, lineFeed ≠ hexDigit (m % 16) := fun m =>
      (hhex _ (Nat.mod_lt m (by decide))).symm
    simp only [unicodeEscape, mem_cons, not_mem_nil, or_false, hdigit]
    decide
  have hmark : ∀ m, lineFeed ∉ escapeMark m := by
    intro m
    cases m with
    | none => decide
    | some c =>
      rw [escapeMark]
      cases hletter : escapeLetter c with
      | some b =>
        have htable : ∀ p ∈ shortEscapes, lineFeed ∉ [ascii '\\', p.2] := by decide
        exact htable _ (mem_shortEscapes hletter)
      | none =>
        dsimp only
        split
        · exact hunicode _
        · rename_i hneeds
          intro hmem
          have hc := toNat_of_mem_encodeRune hmem (by decide)
          have hlow : c.toNat < 0x20 := by rw [← hc]; decide
          exact hneeds (by simp [needsEscape, hlow])
  intro hmem
  rw [quoteMarks] at hmem
  simp only [mem_cons, mem_append, mem_flatMap, not_mem_nil, or_false] at hmem
  rcases hmem with hquote | ⟨m, -, hm⟩ | hquote
  · exact absurd hquote (by decide)
  · exact hmark m hm
  · exact absurd hquote (by decide)

theorem lineFeed_notMem_digits {ds : Bytes} (h : ∀ b ∈ ds, isDigit b) : lineFeed ∉ ds :=
  fun hmem => absurd (h lineFeed hmem) (by decide)

theorem lineFeed_notMem_numberText {t : NumText} (ht : t.WellFormed) : lineFeed ∉ numberText t := by
  have hint := lineFeed_notMem_digits ht.int_digits
  have hfrac : lineFeed ∉ fracText t.frac := by
    rw [fracText]
    split
    · exact not_mem_nil
    · exact not_mem_cons_of_ne_of_not_mem (by decide) (lineFeed_notMem_digits ht.frac_digits)
  have hexp : lineFeed ∉ expText t.exp := by
    cases hexp : t.exp with
    | none => exact not_mem_nil
    | some p =>
      obtain ⟨neg, ds⟩ := p
      have hds := lineFeed_notMem_digits (ht.exp_digits neg ds hexp).2
      cases neg <;> simpa [expText, hds] using (by decide)
  have hsign : lineFeed ∉ (if t.neg then [ascii '-'] else []) := by
    cases t.neg <;> decide
  simp [numberText, hint, hfrac, hexp, hsign]

variable {elapsed : Float64} {kind data : Bytes}

theorem lineFeed_notMem_eventLine : lineFeed ∉ eventLine elapsed kind data := by
  have hnumber := lineFeed_notMem_numberText (wellFormed_floatText elapsed)
  have hbracket : lineFeed ≠ ascii '[' ∧ lineFeed ≠ ascii ',' ∧ lineFeed ≠ ascii ']' := by decide
  simp [eventLine, hnumber, lineFeed_notMem_quoteMarks, hbracket]

theorem lineFeed_notMem_commas {ts : List Bytes} (h : ∀ t ∈ ts, lineFeed ∉ t) :
    lineFeed ∉ commas ts := by
  induction ts with
  | nil => exact not_mem_nil
  | cons t ts ih =>
    have ht := h t mem_cons_self
    have ih := ih fun t' h' => h t' (mem_cons_of_mem t h')
    cases ts with
    | nil => exact ht
    | cons t' ts =>
      have hcomma : lineFeed ≠ ascii ',' := by decide
      rw [commas, mem_append, mem_cons, not_or, not_or]
      · exact ⟨ht, hcomma, ih⟩
      · exact cons_ne_nil t' ts

theorem lineFeed_notMem_decimal (n : Int) : lineFeed ∉ decimal n := by
  have hdigits := lineFeed_notMem_digits fun b hb => isDigit_of_mem_itoa (n := n.natAbs) hb
  rw [decimal]
  split
  · exact not_mem_cons_of_ne_of_not_mem (by decide) hdigits
  · exact hdigits

theorem lineFeed_notMem_member {value : Bytes} (h : lineFeed ∉ value) (key : String) :
    lineFeed ∉ member key value := by
  have hcolon : lineFeed ≠ ascii ':' := by decide
  simp [member, lineFeed_notMem_quoteMarks, hcolon, h]

theorem lineFeed_notMem_header (h : Header) : lineFeed ∉ h.text := by
  have hbrace : lineFeed ≠ ascii '\x7b' ∧ lineFeed ≠ ascii '\x7d' ∧ lineFeed ≠ ascii ':' := by decide
  have henv : lineFeed ∉ commas (h.env.map fun (k, v) =>
      quoteMarks (marks k) ++ ascii ':' :: quoteMarks (marks v)) := by
    refine lineFeed_notMem_commas fun t ht => ?_
    obtain ⟨⟨k, v⟩, -, rfl⟩ := mem_map.mp ht
    simp [lineFeed_notMem_quoteMarks, hbrace]
  have hall : ∀ ts : List Bytes, (∀ t ∈ ts, lineFeed ∉ t) →
      lineFeed ∉ ascii '\x7b' :: commas ts ++ [ascii '\x7d'] := by
    intro ts hts
    simp [lineFeed_notMem_commas hts, hbrace]
  refine hall _ fun t ht => ?_
  simp only [mem_append, mem_cons, not_mem_nil, or_false] at ht
  rcases ht with ((rfl | rfl | rfl | rfl) | ht) | ht
  · exact lineFeed_notMem_member (lineFeed_notMem_decimal _) _
  · exact lineFeed_notMem_member (lineFeed_notMem_decimal _) _
  · exact lineFeed_notMem_member (lineFeed_notMem_decimal _) _
  · exact lineFeed_notMem_member (lineFeed_notMem_decimal _) _
  · split at ht
    · cases ht
    · rw [mem_singleton.mp ht]
      exact lineFeed_notMem_member (lineFeed_notMem_quoteMarks _) _
  · split at ht
    · cases ht
    · rw [mem_singleton.mp ht]
      refine lineFeed_notMem_member ?_ _
      simp [henv, hbrace]

/-! ## Events -/

/-- What a Go string is played back as: its characters, with U+FFFD for every byte that
begins none. -/
def replaced (s : Bytes) : Bytes := utf8 ((marks s).map shown)

variable {s : Bytes} {j : JsonText} {fuel : Nat} {rest : Bytes} {a : Asciicast}

theorem readElements_comma (h : readValue fuel s = some (j, ascii ',' :: rest)) :
    readElements (fuel + 1) s = (readElements fuel rest).map fun (js, t) => (j :: js, t) := by
  rw [readElements, h, Option.bind_eq_bind, Option.bind_some]
  dsimp only
  rw [skipSpaces_cons (by decide)]
  rfl

theorem readElements_bracket (h : readValue fuel s = some (j, ascii ']' :: rest)) :
    readElements (fuel + 1) s = some ([j], rest) := by
  rw [readElements, h, Option.bind_eq_bind, Option.bind_some]
  dsimp only
  rw [skipSpaces_cons (by decide)]
  rfl

theorem parse_eventLine :
    parse (eventLine elapsed kind data) =
      some (.arr [.num (floatText elapsed), .str ((marks kind).map writtenUnit),
        .str ((marks data).map writtenUnit)]) := by
  have hwell := wellFormed_floatText elapsed
  obtain ⟨b, rest, htext, hb⟩ := numberText_head hwell
  obtain ⟨hspace, hbracket, -⟩ := digit_facts hb
  obtain ⟨fuel, hfuel⟩ : ∃ k, 2 * (eventLine elapsed kind data).length + 2 = k + 5 :=
    ⟨2 * (eventLine elapsed kind data).length - 3, by
      simp only [eventLine, length_cons, length_append]
      omega⟩
  -- the elements from the last to the first
  have hdata := readElements_bracket (readValue_quoteMarks (marks data) fuel (ascii ']' :: []))
  have hkind := readElements_comma (readValue_quoteMarks (marks kind) (fuel + 1)
    (ascii ',' :: (quoteMarks (marks data) ++ [ascii ']'])))
  have hnumber := readElements_comma (readValue_numberText hwell (fuel + 2)
    (ends_comma (quoteMarks (marks kind) ++ ascii ',' :: (quoteMarks (marks data) ++ [ascii ']']))))
  rw [hdata, Option.map_some] at hkind
  rw [hkind, Option.map_some, htext, cons_append] at hnumber
  have hvalue : readValue (fuel + 5) (eventLine elapsed kind data) =
      some (.arr [.num (floatText elapsed), .str ((marks kind).map writtenUnit),
        .str ((marks data).map writtenUnit)], []) := by
    rw [eventLine, htext, cons_append, readValue, skipSpaces_cons (by decide)]
    dsimp only
    rw [if_neg (by decide), if_pos rfl, skipSpaces_cons hspace]
    dsimp only
    rw [if_neg hbracket, hnumber]
    rfl
  rw [parse, hfuel, hvalue]
  rfl

/-- **The line of an event** is read back as the seconds, the kind and the data, with the
bytes that are not UTF-8 replaced. -/
theorem unmarshal_eventLine :
    unmarshal (eventLine elapsed kind data) =
      some (.arr [.num elapsed, .str ((marks kind).map shown), .str ((marks data).map shown)]) := by
  rw [unmarshal, parse_eventLine, Option.bind_some]
  simp [Json.mapM, Json.mapElements, parseFloat_floatText, goText_writtenMarks]

/-- The data of an output event is played back, and nothing of another event. -/
theorem outputText_eventLine :
    outputText (eventLine elapsed kind data) =
      if (marks kind).map shown = ['o'] then some (replaced data) else none := by
  rw [outputText, unmarshal_eventLine]
  rfl

/-! ## Recordings -/

/-- The kind and the data of the event a call records. -/
def Call.entry (recordInput : Bool) : Call → Option (Bytes × Bytes)
  | .output data => some (lit "o", data)
  | .input data => if recordInput then some (lit "i", data) else none
  | .resize cols rows => some (lit "r", decimal cols ++ ascii 'x' :: decimal rows)
  | .marker label => some (lit "m", label)

/-- The line a call writes. -/
def callLine (recordInput : Bool) (call : Float64 × Call) : Option Bytes :=
  (call.2.entry recordInput).map fun (kind, data) => eventLine call.1 kind data

/-- The chunks of output among some calls. -/
def outputs (calls : List (Float64 × Call)) : List Bytes :=
  calls.filterMap fun call =>
    match call.2 with
    | .output data => some data
    | _ => none

theorem record_open (hopen : a.sink.closed = false) (call : Call) :
    ∃ a', a.record elapsed call = .ok a' ∧ a'.sink.closed = false ∧
      a'.recordInput = a.recordInput ∧
      a'.sink.file = a.sink.file ++
        (callLine a.recordInput (elapsed, call)).toList.flatMap (· ++ [lineFeed]) := by
  have hevent : ∀ kind data, ∃ a', a.event elapsed kind data = .ok a' ∧ a'.sink.closed = false ∧
      a'.recordInput = a.recordInput ∧
      a'.sink.file = a.sink.file ++ (eventLine elapsed kind data ++ [lineFeed]) := by
    intro kind data
    refine ⟨{ a with sink := a.sink.writeLine (eventLine elapsed kind data) }, ?_, hopen, rfl,
      append_assoc _ _ _⟩
    rw [Asciicast.event, hopen, if_neg Bool.false_ne_true]
  cases call with
  | output data => simpa [Asciicast.record, callLine, Call.entry] using hevent (lit "o") data
  | input data =>
    cases hinput : a.recordInput with
    | false =>
      exact ⟨a, by rw [Asciicast.record, hinput]; rfl, hopen, hinput,
        by simp [callLine, Call.entry]⟩
    | true =>
      simpa [Asciicast.record, callLine, Call.entry, hinput] using hevent (lit "i") data
  | resize cols rows => simpa [Asciicast.record, callLine, Call.entry] using hevent (lit "r") _
  | marker label => simpa [Asciicast.record, callLine, Call.entry] using hevent (lit "m") label

theorem recordAll_open (hopen : a.sink.closed = false) (calls : List (Float64 × Call)) :
    ∃ a', a.recordAll calls = .ok a' ∧
      a'.sink.file = a.sink.file ++
        (calls.filterMap (callLine a.recordInput)).flatMap (· ++ [lineFeed]) := by
  induction calls generalizing a with
  | nil => exact ⟨a, rfl, by simp⟩
  | cons call calls ih =>
    obtain ⟨elapsed, call⟩ := call
    obtain ⟨a₁, hrecord, hopen₁, hinput, hfile⟩ := record_open hopen call
    obtain ⟨a₂, hall, hfile₂⟩ := ih hopen₁
    refine ⟨a₂, by rw [Asciicast.recordAll, hrecord]; exact hall, ?_⟩
    rw [hfile₂, hfile, hinput, append_assoc, ← flatMap_append]
    congr 2
    rw [filterMap_cons]
    cases callLine a.recordInput (elapsed, call) <;> rfl

/-- **What is played back** of a recording: every chunk of output with its bad bytes
replaced. -/
theorem playback_record (h : Header) (recordInput : Bool) (calls : List (Float64 × Call)) :
    ∃ a, (newAsciicast h recordInput).recordAll calls = .ok a ∧
      playback a.sink.file = (outputs calls).flatMap replaced := by
  obtain ⟨a, hall, hfile⟩ := recordAll_open (a := newAsciicast h recordInput) rfl calls
  refine ⟨a, hall, ?_⟩
  have hlines : splitLines a.sink.file =
      h.text :: calls.filterMap (callLine recordInput) := by
    have hheader : (newAsciicast h recordInput).sink.file = [h.text].flatMap (· ++ [lineFeed]) := by
      simp [newAsciicast, Sink.writeLine]
    rw [hfile, hheader, ← flatMap_append, splitLines_flatMap]
    · rfl
    · refine forall_mem_append.mpr
        ⟨forall_mem_singleton.mpr (lineFeed_notMem_header h), fun l hl => ?_⟩
      obtain ⟨call, -, hcall⟩ := mem_filterMap.mp hl
      obtain ⟨entry, -, rfl⟩ := Option.map_eq_some_iff.mp hcall
      exact lineFeed_notMem_eventLine
  rw [playback, hlines, tail_cons, filterMap_filterMap, outputs, flatMap_def, map_filterMap]
  congr 2
  funext call
  obtain ⟨elapsed, call⟩ := call
  -- of the four kinds only `o` is played back
  have houtput : (marks (lit "o")).map shown = ['o'] := by decide
  have hinput : (marks (lit "i")).map shown ≠ ['o'] := by decide
  have hresize : (marks (lit "r")).map shown ≠ ['o'] := by decide
  have hmarker : (marks (lit "m")).map shown ≠ ['o'] := by decide
  cases call with
  | output data => simp only [callLine, Call.entry, Option.map_some, Option.bind_some,
      outputText_eventLine, if_pos houtput]
  | input data =>
    cases recordInput
    · rfl
    · simp [callLine, Call.entry, outputText_eventLine, if_neg hinput]
  | resize cols rows => simp only [callLine, Call.entry, Option.map_some, Option.bind_some,
      outputText_eventLine, if_neg hresize, Option.map_none]
  | marker label => simp only [callLine, Call.entry, Option.map_some, Option.bind_some,
      outputText_eventLine, if_neg hmarker, Option.map_none]

/-! ## The output of the target -/

/-- A string grows by two bytes for each of its bad ones. -/
theorem length_replaced : (replaced s).length = s.length + 2 * (marks s).count none := by
  have hlen : (encodeRune (Char.ofNat runeError)).length = 3 := by decide
  induction s using runes_induction with
  | nil => rfl
  | char c s ih =>
    rw [replaced] at ih
    rw [replaced, marks_encodeRune, map_cons, utf8_cons, length_append, ih,
      length_append, count_cons_of_ne (by simp)]
    exact (Nat.add_assoc _ _ _).symm
  | bad b s hbad ih =>
    rw [replaced] at ih
    rw [replaced, marks_bad hbad, map_cons, utf8_cons, length_append, ih,
      count_cons_self, length_cons]
    have : (encodeRune (shown none)).length = 3 := hlen
    omega

theorem replaced_of_validString (h : validString s) : replaced s = s := by
  obtain ⟨cs, rfl⟩ := (validString_iff s).mp h
  rw [replaced, marks_utf8, map_map]
  exact congrArg utf8 (map_id' cs)

theorem validString_of_count (h : (marks s).count none = 0) : validString s := by
  rw [validString, all_eq_true]
  intro m hm
  cases m with
  | none => exact absurd hm (count_eq_zero.mp h)
  | some c => rfl

/-- Chunks with their bad bytes replaced are the stream they were cut from only when there
are none. -/
theorem flatMap_replaced_eq_iff (chunks : List Bytes) :
    chunks.flatMap replaced = chunks.flatten ↔ ∀ c ∈ chunks, validString c := by
  constructor
  · intro h
    -- every bad byte would make the left side longer
    have hlen : (chunks.flatMap replaced).length =
        chunks.flatten.length + 2 * (chunks.map fun c => (marks c).count none).sum := by
      clear h
      induction chunks with
      | nil => rfl
      | cons c chunks ih =>
        rw [flatMap_cons, length_append, length_replaced, ih, flatten_cons,
          length_append, map_cons, sum_cons]
        omega
    have hsum : (chunks.map fun c => (marks c).count none).sum = 0 := by
      rw [h] at hlen
      omega
    intro c hc
    exact validString_of_count (sum_eq_zero_iff.mp hsum _ (mem_map.mpr ⟨c, hc, rfl⟩))
  · intro h
    rw [flatMap_def]
    congr 1
    rw [map_congr_left fun c hc => replaced_of_validString (h c hc), map_id']

/-- **A recording plays back the output of the target**, whatever else was recorded, if and
only if every chunk of output was UTF-8 by itself. -/
theorem playback_is_output (h : Header) (recordInput : Bool) (calls : List (Float64 × Call)) :
    ∃ a, (newAsciicast h recordInput).recordAll calls = .ok a ∧
      (playback a.sink.file = (outputs calls).flatten ↔
        ∀ chunk ∈ outputs calls, validString chunk = true) := by
  obtain ⟨a, hall, hplayback⟩ := playback_record h recordInput calls
  exact ⟨a, hall, by rw [hplayback, flatMap_replaced_eq_iff]⟩

/-- A letter of two bytes that falls on a chunk each: the stream is UTF-8, and two
replacement characters are played back for it. -/
theorem split_letter_is_lost :
    ∃ (h : Header) (calls : List (Float64 × Call)) (a : Asciicast),
      (outputs calls).flatten = [0xC3, 0xA9] ∧ validString (outputs calls).flatten = true ∧
      (newAsciicast h false).recordAll calls = .ok a ∧
      playback a.sink.file = [0xEF, 0xBF, 0xBD, 0xEF, 0xBF, 0xBD] := by
  have hzero : roundMag 0 = some 0 := by decide +kernel
  obtain ⟨a, hall, hplayback⟩ := playback_record ⟨80, 24, 1, [], []⟩ false
    [(⟨false, 0, le_refl 0, hzero⟩, .output [0xC3]), (⟨false, 0, le_refl 0, hzero⟩, .output [0xA9])]
  refine ⟨_, _, a, rfl, ?_, hall, hplayback⟩
  show validString [0xC3, 0xA9]
  decide

end Zanskar.Recording
