import Zanskar.Go.Strconv
import Zanskar.Go.Strings
import Zanskar.Lib.Machine

/-!
# Submitted lines of an SSH terminal (`sshgw/commands.go`)

`commandLog` rebuilds the lines a user submits from their keystrokes and hands each to the
recording as a marker. It cannot see whether the target echoed a line, so it looks for the
line in a buffer of recent output, a while after Enter: a line that is there is recorded, any
other is "(hidden input)".

The buffer is emptied by the timer of a submitted line and never when a line begins. It may
therefore hold output from before the line, and a line that was never echoed is found there when the
older output happens to show it (`password_on_screen_is_recorded`). `marker_was_echoed` gives the
runs in which markers are what the comment on `commandLog` promises. The state carries, beside what
the code has, the output received since each line began; no step reads it.
-/

namespace Zanskar.Gateway

open Go Lib List

/-! ## The log -/

/-- `commandLog`: the line being typed, the recent output, and whether an escape sequence is
being dropped. -/
structure CommandLog where
  line : Bytes
  out : Bytes
  esc : Bool
deriving DecidableEq, Repr

/-- The longest line kept. -/
def maxLine : Nat := 1024

/-- The most output kept. -/
def maxOut : Nat := 16 * 1024

/-- `newCommandLog`. -/
def newCommandLog : CommandLog := ⟨[], [], false⟩

/-- `output`: the target sent bytes to the browser. -/
def CommandLog.output (c : CommandLog) (data : Bytes) : CommandLog :=
  let out := c.out ++ data
  { c with out := if out.length > maxOut then out.drop (out.length - maxOut) else out }

/-- `submitLocked`: the line is taken, and a timer started for its text unless that is
empty. -/
def CommandLog.submitLocked (c : CommandLog) : CommandLog × Option Bytes :=
  let text := trimSpaces c.line
  ({ c with line := [] }, if text = [] then none else some text)

/-- One byte of `input`, and the text a timer was started for. -/
def CommandLog.inputByte (c : CommandLog) (b : UInt8) : CommandLog × Option Bytes :=
  if c.esc then
    -- the rest of an escape sequence, up to its final byte
    if 0x40 ≤ b ∧ b ≤ 0x7E ∧ b ≠ ascii '[' then ({ c with esc := false }, none) else (c, none)
  else if b = 0x0D ∨ b = 0x0A then c.submitLocked
  else if b = 0x7F ∨ b = 0x08 then ({ c with line := c.line.dropLast }, none)
  else if b = 0x03 ∨ b = 0x15 then ({ c with line := [] }, none)
  else if b = 0x1B then ({ c with esc := true }, none)
  else if b = 0x09 ∨ b < 0x20 then (c, none)
  else if c.line.length < maxLine then ({ c with line := c.line ++ [b] }, none)
  else (c, none)

/-- `input`: the browser sent bytes to the target; the texts timers were started for. -/
def CommandLog.input (c : CommandLog) : Bytes → CommandLog × List Bytes
  | [] => (c, [])
  | b :: data =>
    let (next, text) := c.inputByte b
    let (last, texts) := next.input data
    (last, text.toList ++ texts)

/-- The marker of a line that was not echoed. -/
def hiddenInput : Bytes := lit "(hidden input)"

/-- `clean`: control characters dropped and the label cut to 512 bytes. -/
def clean (s : Bytes) : Bytes :=
  let kept := utf8 (((marks s).map shown).filter fun r => !isControl r)
  if kept.length > 512 then kept.take 512 ++ encodeRune '…' else kept

/-- The timer of a submitted text: the label it hands to `mark`. -/
def CommandLog.fire (c : CommandLog) (text : Bytes) : CommandLog × Bytes :=
  let echoed := decide (text <:+: c.out)
  ({ c with out := [] }, if echoed then clean text else hiddenInput)

/-! ## A session -/

/-- A timer that has not fired: the text of its line, and the output received since the first
character of that line. -/
structure Timer where
  text : Bytes
  since : Bytes
deriving DecidableEq, Repr

/-- A marker of the recording, with the text of its line and the output received between the
line's first character and the marker. -/
structure Marker where
  label : Bytes
  text : Bytes
  since : Bytes
deriving DecidableEq, Repr

/-- A terminal session: the log, the timers that are running, the markers recorded, and the
output received since the first character of the line being typed. -/
structure Terminal where
  log : CommandLog
  since : Bytes
  timers : List Timer
  markers : List Marker
deriving DecidableEq, Repr

def newTerminal : Terminal := ⟨newCommandLog, [], [], []⟩

/-- What can happen: a byte is typed, output arrives, or one of the timers fires. Timers fire
in any order; `fire i` is the one with `i` others before it. -/
inductive TerminalEvent where
  | typed (b : UInt8)
  | output (data : Bytes)
  | fire (i : Nat)
deriving DecidableEq, Repr

/-- A byte is typed. A byte that makes an empty line not empty is the first character of a
new line. -/
def Terminal.typed (s : Terminal) (b : UInt8) : Terminal :=
  let (log, text) := s.log.inputByte b
  { s with
    log := log
    since := if s.log.line = [] then [] else s.since
    timers := s.timers ++ text.toList.map (⟨·, s.since⟩) }

/-- Output arrives; it has come since the beginning of every line not yet judged. -/
def Terminal.output (s : Terminal) (data : Bytes) : Terminal :=
  { s with
    log := s.log.output data
    since := s.since ++ data
    timers := s.timers.map fun t => { t with since := t.since ++ data } }

/-- A timer fires. -/
def Terminal.fire (s : Terminal) (i : Nat) : Option Terminal := do
  let t ← s.timers[i]?
  let (log, label) := s.log.fire t.text
  pure { s with
    log := log
    timers := s.timers.eraseIdx i
    markers := s.markers ++ [⟨label, t.text, t.since⟩] }

def Terminal.step (s : Terminal) : TerminalEvent → Option Terminal
  | .typed b => some (s.typed b)
  | .output data => some (s.output data)
  | .fire i => s.fire i

/-! ## What a line is judged by -/

/-- What the buffer holds from before the line: all but the output received since. -/
def stale (out since : Bytes) : Bytes := out.take (out.length - since.length)

/-- The older output neither holds the text nor ends in a beginning of it: no end of it and
the text begin alike. -/
def clear (old text : Bytes) : Bool :=
  old.tails.all fun tail => tail.isEmpty || !(tail.isPrefixOf text || text.isPrefixOf tail)

variable {old since out text : Bytes} {c : CommandLog} {b : UInt8} {s : Terminal}

/-- Behind older output that is clear of the text, the text can only be found in what came
since. -/
theorem infix_since (hclear : clear old text)
    (hout : out <:+ old ++ since) (htext : text <:+: out) : text <:+: since := by
  obtain ⟨a, b, hab⟩ := htext
  obtain ⟨x, hx⟩ := hout
  have hcut : (x ++ a) ++ (text ++ b) = old ++ since := by
    rw [← hx, ← hab]
    simp [List.append_assoc]
  -- the text begins in the older output, or behind it
  rcases List.append_eq_append_iff.mp hcut with ⟨tail, hold, hrest⟩ | ⟨front, -, hrest⟩
  · have hmem : tail ∈ old.tails := (List.mem_tails _ _).mpr ⟨x ++ a, hold.symm⟩
    have htail := List.all_eq_true.mp hclear tail hmem
    simp only [Bool.or_eq_true, List.isEmpty_iff, Bool.not_eq_true', Bool.or_eq_false_iff] at htail
    rcases htail with rfl | ⟨hleft, hright⟩
    · exact ⟨[], b, hrest⟩
    · have hto : text <+: tail ++ since := ⟨b, hrest⟩
      have hti : tail <+: tail ++ since := ⟨since, rfl⟩
      rcases List.prefix_or_prefix_of_prefix hto hti with h | h
      · rw [← List.isPrefixOf_iff_prefix, hright] at h
        cases h
      · rw [← List.isPrefixOf_iff_prefix, hleft] at h
        cases h
  · exact ⟨front, b, by rw [hrest, List.append_assoc]⟩

/-- The buffer ends in what came since the line, behind what is stale. -/
theorem suffix_stale (h : out <:+ old ++ since) : out <:+ stale out since ++ since := by
  have hlast : out.drop (out.length - since.length) <:+ since :=
    suffix_of_suffix_length_le ((drop_suffix _ _).trans h) (suffix_append _ _)
      (by rw [length_drop]; omega)
  by_cases hlen : out.length ≤ since.length
  · rw [Nat.sub_eq_zero_of_le hlen, drop_zero] at hlast
    exact hlast.trans (suffix_append _ _)
  · have hsince : out.drop (out.length - since.length) = since :=
      hlast.eq_of_length (by rw [length_drop]; omega)
    refine ⟨[], ?_⟩
    rw [nil_append, stale]
    calc out = out.take (out.length - since.length) ++ out.drop (out.length - since.length) :=
          (take_append_drop _ out).symm
      _ = _ := by rw [hsince]

/-! ## What holds of every session -/

/-- The timers behind a typed byte: those before it, and one for the line it submitted. -/
theorem Terminal.typed_timers (b : UInt8) {t : Timer} (ht : t ∈ (s.typed b).timers) :
    t ∈ s.timers ∨ (s.log.inputByte b).2 = some t.text ∧ t.since = s.since := by
  rcases mem_append.mp ht with hold | hnew
  · exact .inl hold
  · obtain ⟨text, htext, rfl⟩ := mem_map.mp hnew
    exact .inr ⟨Option.mem_toList.mp htext, rfl⟩

theorem CommandLog.inputByte_out : (c.inputByte b).1.out = c.out := by
  unfold CommandLog.inputByte
  split_ifs <;> rfl

/-- A text is submitted by a line that is not empty. -/
theorem CommandLog.line_of_inputByte (h : (c.inputByte b).2 = some text) : c.line ≠ [] := by
  intro hline
  have hsubmit : c.submitLocked.2 = none := by
    rw [CommandLog.submitLocked, hline]
    rfl
  unfold CommandLog.inputByte at h
  split_ifs at h
  cases hsubmit.symm.trans h

theorem CommandLog.output_suffix (data : Bytes) : (c.output data).out <:+ c.out ++ data := by
  unfold CommandLog.output
  dsimp only
  split_ifs
  · exact drop_suffix _ _
  · exact suffix_rfl

theorem CommandLog.suffix_output (h : c.out <:+ old ++ since) (data : Bytes) :
    (c.output data).out <:+ old ++ (since ++ data) := by
  obtain ⟨x, hx⟩ := h
  have hmore : c.out ++ data <:+ old ++ (since ++ data) :=
    ⟨x, by rw [← append_assoc, hx, append_assoc]⟩
  exact (c.output_suffix data).trans hmore

/-- The line submitted by the event, if any, is clear of what the buffer holds from before
it. -/
def submitsClear (s : Terminal) : TerminalEvent → Bool
  | .typed b => (s.log.inputByte b).2.all (clear (stale s.log.out s.since))
  | .output _ => true
  | .fire _ => true

/-- The buffer ends in the output since the line being typed, and every timer's text can only
be found in the output since its line. -/
structure Terminal.Judged (s : Terminal) : Prop where
  line : s.log.line ≠ [] → ∃ old, s.log.out <:+ old ++ s.since
  timers : ∀ t ∈ s.timers, ∃ old, clear old t.text = true ∧ s.log.out <:+ old ++ t.since
  markers : ∀ m ∈ s.markers, m.label = hiddenInput ∨ m.text <:+: m.since ∧ m.label = clean m.text

theorem judged_newTerminal : newTerminal.Judged where
  line h := absurd rfl h
  timers t ht := by cases ht
  markers m hm := by cases hm

theorem Terminal.Judged.typed (hs : s.Judged)
    (hclear : submitsClear s (.typed b)) : (s.typed b).Judged where
  line _ := by
    show ∃ old, (s.log.inputByte b).1.out <:+ old ++ if s.log.line = [] then [] else s.since
    rw [CommandLog.inputByte_out]
    by_cases hline : s.log.line = []
    · rw [if_pos hline]
      exact ⟨s.log.out, by rw [append_nil]⟩
    · rw [if_neg hline]
      exact hs.line hline
  timers t ht := by
    show ∃ old, clear old t.text ∧ (s.log.inputByte b).1.out <:+ old ++ t.since
    rw [CommandLog.inputByte_out]
    rcases s.typed_timers b ht with hold | ⟨htext, hsince⟩
    · exact hs.timers t hold
    · obtain ⟨old, hout⟩ := hs.line (CommandLog.line_of_inputByte htext)
      rw [submitsClear, htext] at hclear
      rw [hsince]
      exact ⟨_, hclear, suffix_stale hout⟩
  markers := hs.markers

theorem Terminal.Judged.output (hs : s.Judged) (data : Bytes) : (s.output data).Judged where
  line hline := by
    obtain ⟨old, hout⟩ := hs.line hline
    exact ⟨old, CommandLog.suffix_output hout data⟩
  timers t ht := by
    obtain ⟨t', ht', rfl⟩ := mem_map.mp ht
    obtain ⟨old, hclear, hout⟩ := hs.timers t' ht'
    exact ⟨old, hclear, CommandLog.suffix_output hout data⟩
  markers := hs.markers

theorem Terminal.Judged.fire {t : Terminal} (hs : s.Judged) {i : Nat} (h : s.fire i = some t) :
    t.Judged := by
  obtain ⟨timer, htimer, heq⟩ := Option.bind_eq_some_iff.mp h
  cases heq
  refine ⟨fun _ => ⟨[], nil_suffix⟩, fun t ht => ?_, fun m hm => ?_⟩
  · obtain ⟨old, hclear, -⟩ := hs.timers t (mem_of_mem_eraseIdx ht)
    exact ⟨old, hclear, nil_suffix⟩
  · rcases mem_append.mp hm with hold | hnew
    · exact hs.markers m hold
    · obtain rfl := mem_singleton.mp hnew
      obtain ⟨old, hclear, hout⟩ := hs.timers timer (mem_of_getElem? htimer)
      by_cases hecho : timer.text <:+: s.log.out
      · refine .inr ⟨infix_since hclear hout hecho, ?_⟩
        simp [hecho, decide_true]
      · refine .inl ?_
        simp [hecho, decide_false]

/-- **Markers.** In a session whose lines are each submitted while the output buffered from
before the line neither holds its text nor ends in a beginning of it, every marker is
"(hidden input)", or it is the text of its line and that text was in the output received
since the line's first character. -/
theorem marker_was_echoed {events : List TerminalEvent} {s : Terminal}
    (h : RunWhere Terminal.step (fun s e => submitsClear s e = true) newTerminal events s) :
    ∀ m ∈ s.markers, m.label = hiddenInput ∨ m.text <:+: m.since ∧ m.label = clean m.text := by
  have hjudged : s.Judged := by
    refine h.keeps Terminal.Judged (fun s e t hclear hs hstep => ?_) judged_newTerminal
    cases e with
    | typed b =>
      cases hstep
      exact hs.typed hclear
    | output data =>
      cases hstep
      exact hs.output data
    | fire i => exact hs.fire hstep
  exact hjudged.markers

/-- A command that is echoed as it is typed, and a password that is not. -/
def echoedThenHidden : List TerminalEvent :=
  [.output (lit "$ "), .typed (ascii 's'), .output (lit "s"), .typed (ascii 'u'), .output (lit "u"),
    .typed (ascii '\r'), .output (lit "\r\nPassword: "), .fire 0, .typed (ascii 'k'),
    .typed (ascii '9'), .typed (ascii '\r'), .output (lit "\r\n"), .fire 0]

theorem su_and_password_markers :
    ∃ s, RunWhere Terminal.step (fun s e => submitsClear s e = true) newTerminal
        echoedThenHidden s ∧ s.markers.map Marker.label = [lit "su", hiddenInput] ∧
      ∀ m ∈ s.markers, m.label = hiddenInput ∨ m.text <:+: m.since ∧ m.label = clean m.text :=
  RunWhere.exists_of_decide (P := fun s => s.markers.map Marker.label = [lit "su", hiddenInput])
    (by decide +kernel) fun _ hrun hlabels => ⟨hlabels, marker_was_echoed hrun⟩

/-- A file on the screen holds the password that is then typed at a prompt. -/
def passwordOnScreen : List TerminalEvent :=
  .output (lit "admin: k9-tango\r\n[sudo] password: ") :: (lit "k9-tango\r").map .typed ++
    [.output (lit "\r\n"), .fire 0]

/-- The target echoes none of the password; it is found in the output from before the line
and recorded in clear. -/
theorem password_on_screen_is_recorded :
    ∃ s m, Run Terminal.step newTerminal passwordOnScreen s ∧ m ∈ s.markers ∧
      m.text = lit "k9-tango" ∧ m.since = lit "\r\n" ∧ ¬ m.text <:+: m.since ∧
      m.label = lit "k9-tango" := by
  obtain ⟨s, hrun, hmarkers⟩ : ∃ s, Run Terminal.step newTerminal passwordOnScreen s ∧
      ⟨lit "k9-tango", lit "k9-tango", lit "\r\n"⟩ ∈ s.markers :=
    Run.of_exec_decide (by decide +kernel)
  exact ⟨s, _, hrun, hmarkers, rfl, rfl, by decide +kernel, rfl⟩

end Zanskar.Gateway
