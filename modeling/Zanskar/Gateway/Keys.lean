import Zanskar.Gateway.CommandLog

/-!
# The line that was typed (`sshgw/commands.go`)

What the user of a terminal edits is a line of characters; what `commandLog` keeps is a line of
bytes, with one bit for the escape sequence of a cursor or function key. A run of `typeKey` is
the line as the user sees it. `submits_typed_text` follows it in the log, for every way the bytes
are cut into messages, as long as every key keeps the two lines alike (`Key.exact`): Backspace
takes a byte off, so the character it takes must have one only, and of the sequences that begin
with `ESC O` the log drops the `O` and takes the rest as typed.
-/

namespace Zanskar.Gateway

open Go Lib List

/-! ## Keys -/

/-- What a key sends: a character, Backspace, or a cursor or function key, `ESC [` with
parameters and a final byte (the Linux console puts a second bracket there), or `ESC O` and a
final byte. -/
inductive Key where
  | char (c : Char)
  | backspace (b : UInt8)
  | csi (params : Bytes) (final : UInt8)
  | ss3 (final : UInt8)

def Key.bytes : Key → Bytes
  | .char c => encodeRune c
  | .backspace b => [b]
  | .csi params final => 0x1B :: ascii '[' :: (params ++ [final])
  | .ss3 final => [0x1B, ascii 'O', final]

/-- The bytes are those of a key. -/
def Key.valid : Key → Bool
  | .char c => !isControl c
  | .backspace b => b = 0x7F || b = 0x08
  | .csi params final =>
    (params.all fun b => (0x20 ≤ b && b ≤ 0x3F) || b = ascii '[') &&
      (0x40 ≤ final && final ≤ 0x7E && final ≠ ascii '[')
  | .ss3 final => 0x40 ≤ final && final ≤ 0x7E

/-- The line after a key. -/
def Key.edit (text : List Char) : Key → List Char
  | .char c => text ++ [c]
  | .backspace _ => text.dropLast
  | .csi _ _ => text
  | .ss3 _ => text

/-- A key is pressed, and the line stays within the limit. -/
def typeKey (text : List Char) (k : Key) : Option (List Char) :=
  if k.valid ∧ (utf8 (k.edit text)).length ≤ maxLine then some (k.edit text) else none

/-- The log's line stays that of the user: Backspace finds an ASCII character or nothing, and no
key sends `ESC O`. -/
def Key.exact (text : List Char) : Key → Bool
  | .backspace _ => text.getLast?.all (·.toNat < 0x80)
  | .ss3 _ => false
  | _ => true

/-- `input` of one message after the other. -/
def CommandLog.inputs (c : CommandLog) : List Bytes → CommandLog × List Bytes
  | [] => (c, [])
  | data :: more =>
    let (next, texts) := c.input data
    let (last, others) := next.inputs more
    (last, texts ++ others)

/-! ## The log's line -/

variable {line out s : Bytes} {text : List Char} {b : UInt8}

theorem CommandLog.input_append (c : CommandLog) (a s : Bytes) :
    c.input (a ++ s) =
      (((c.input a).1.input s).1, (c.input a).2 ++ ((c.input a).1.input s).2) := by
  induction a generalizing c with
  | nil => simp [input]
  | cons b a ih => simp [input, ih]

/-- How the bytes are cut into messages makes no difference. -/
theorem CommandLog.inputs_eq (c : CommandLog) (messages : List Bytes) :
    c.inputs messages = c.input messages.flatten := by
  induction messages generalizing c with
  | nil => rfl
  | cons data more ih => simp [inputs, input_append, ih]

/-- A byte of a character's own. -/
def isText (b : UInt8) : Prop := 0x20 ≤ b.toNat ∧ b.toNat ≠ 0x7F

theorem inputByte_text (hb : isText b) (hfits : line.length < maxLine) :
    CommandLog.inputByte ⟨line, out, false⟩ b = (⟨line ++ [b], out, false⟩, none) := by
  have hne : ∀ n : UInt8, n.toNat < 0x20 ∨ n.toNat = 0x7F → b ≠ n := by
    rintro n hn rfl
    have := hb.1
    have := hb.2
    omega
  have hlow : ¬ b < 0x20 := by
    rw [UInt8.lt_iff_toNat_lt]
    exact Nat.not_lt.mpr hb.1
  simp [CommandLog.inputByte, hne 0x0D (by decide), hne 0x0A (by decide), hne 0x7F (by decide),
    hne 0x08 (by decide), hne 0x03 (by decide), hne 0x15 (by decide), hne 0x1B (by decide),
    hne 0x09 (by decide), hlow, hfits]

theorem input_text (hs : ∀ b ∈ s, isText b) (hfits : (line ++ s).length ≤ maxLine) :
    CommandLog.input ⟨line, out, false⟩ s = (⟨line ++ s, out, false⟩, []) := by
  induction s generalizing line with
  | nil => simp [CommandLog.input]
  | cons b s ih =>
    have hfits' : (line ++ [b] ++ s).length ≤ maxLine := by simpa using hfits
    have hone : line.length < maxLine := by
      rw [length_append, length_cons] at hfits
      omega
    rw [CommandLog.input, inputByte_text (hs b mem_cons_self) hone]
    simp only
    rw [ih (fun b hb => hs b (mem_cons_of_mem _ hb)) hfits']
    simp

theorem isText_of_mem_encodeRune {ch : Char} (h : isControl ch = false)
    (hb : b ∈ encodeRune ch) : isText b := by
  simp only [isControl, inRange, Bool.or_eq_false_iff, decide_eq_false_iff_not,
    Bool.and_eq_false_iff] at h
  have hascii := toNat_of_mem_encodeRune hb
  unfold isText
  omega

/-- The parameters of a sequence are dropped, up to the final byte. -/
theorem input_params (hs : ∀ b ∈ s, (0x20 ≤ b ∧ b ≤ 0x3F) ∨ b = ascii '[') :
    CommandLog.input ⟨line, out, true⟩ s = (⟨line, out, true⟩, []) := by
  induction s with
  | nil => rfl
  | cons b s ih =>
    have hb : ¬ (0x40 ≤ b ∧ b ≤ 0x7E ∧ b ≠ ascii '[') := by
      rintro ⟨hlow, -, hne⟩
      have hhigh := ((hs b mem_cons_self).resolve_right hne).2
      rw [UInt8.le_iff_toNat_le] at hlow hhigh
      exact absurd (hlow.trans hhigh) (by decide)
    rw [CommandLog.input, CommandLog.inputByte, if_pos rfl, if_neg hb]
    simp only
    rw [ih fun b hb => hs b (mem_cons_of_mem _ hb)]
    rfl

theorem dropLast_utf8 (h : text.getLast?.all (·.toNat < 0x80)) :
    (utf8 text).dropLast = utf8 text.dropLast := by
  rcases eq_nil_or_concat' text with rfl | ⟨front, ch, rfl⟩
  · rfl
  · have hascii : ch.toNat < 0x80 := by simpa using h
    have hone : encodeRune ch = [ch.toNat.toUInt8] := by simp [encodeRune, hascii]
    simp [utf8, hone]

/-- **One key.** The log's line follows that of the user. -/
theorem input_key {k : Key} {next : List Char} (hexact : k.exact text)
    (htype : typeKey text k = some next) :
    CommandLog.input ⟨utf8 text, out, false⟩ k.bytes = (⟨utf8 next, out, false⟩, []) := by
  unfold typeKey at htype
  split at htype <;> cases htype
  rename_i hboth
  obtain ⟨hvalid, hfits⟩ := hboth
  cases k with
  | char ch =>
    have hedit : utf8 (Key.edit text (.char ch)) = utf8 text ++ encodeRune ch := by
      simp [Key.edit, utf8]
    rw [hedit] at hfits ⊢
    exact input_text
      (fun b hb => isText_of_mem_encodeRune (by simpa [Key.valid] using hvalid) hb) hfits
  | backspace b =>
    have hb : b = 0x7F ∨ b = 0x08 := by simpa [Key.valid] using hvalid
    have hdrop : (utf8 text).dropLast = _ := dropLast_utf8 hexact
    rcases hb with rfl | rfl <;>
      simp [Key.bytes, CommandLog.input, CommandLog.inputByte, hdrop, Key.edit]
  | csi params final =>
    obtain ⟨hparams, ⟨hlow, hhigh⟩, hfinal⟩ := by simpa [Key.valid] using hvalid
    have hcut : Key.bytes (.csi params final) = [0x1B] ++ ((ascii '[' :: params) ++ [final]) := rfl
    have hescape : CommandLog.input ⟨utf8 text, out, false⟩ [0x1B] = (⟨utf8 text, out, true⟩, []) :=
      rfl
    have hdropped : CommandLog.input ⟨utf8 text, out, true⟩ (ascii '[' :: params) =
        (⟨utf8 text, out, true⟩, []) := input_params (by simpa using hparams)
    rw [hcut, CommandLog.input_append, hescape, CommandLog.input_append, hdropped]
    simp [CommandLog.input, CommandLog.inputByte, hlow, hhigh, hfinal, Key.edit]
  | ss3 final => cases hexact

/-- **The typed line is submitted.** In every run of keys that keeps the two lines alike, Enter
submits the characters that were typed and not taken back, when they neither begin nor end with
white space; a line without characters is not submitted. -/
theorem submits_typed_text {keys : List Key} {messages : List Bytes} {enter : UInt8}
    (hrun : RunWhere typeKey (fun text k => k.exact text = true) [] keys text)
    (htrimmed : FrontTrimmed (utf8 text) ∧ EndTrimmed (utf8 text))
    (henter : enter = 0x0D ∨ enter = 0x0A)
    (hmessages : messages.flatten = keys.flatMap Key.bytes ++ [enter]) :
    (CommandLog.inputs ⟨[], out, false⟩ messages).2 = if text = [] then [] else [utf8 text] := by
  have hkeys : CommandLog.input ⟨[], out, false⟩ (keys.flatMap Key.bytes) =
      (⟨utf8 text, out, false⟩, []) := by
    refine hrun.keeps_trace (fun keys text => CommandLog.input ⟨[], out, false⟩
      (keys.flatMap Key.bytes) = (⟨utf8 text, out, false⟩, [])) ?_ rfl
    intro keys text k next hexact hinput htype
    rw [flatMap_append, CommandLog.input_append, hinput, flatMap_singleton, input_key hexact htype]
    rfl
  have hempty : utf8 text = [] ↔ text = [] := by
    cases text <;> simp [encodeRune_ne_nil]
  rw [CommandLog.inputs_eq, hmessages, CommandLog.input_append, hkeys]
  have hsubmits : (CommandLog.input ⟨utf8 text, out, false⟩ [enter]).2 =
      (if text = [] then none else some (utf8 text)).toList := by
    rcases henter with rfl | rfl <;>
      simp [CommandLog.input, CommandLog.inputByte, CommandLog.submitLocked,
        trimSpaces_of_trimmed htrimmed.1 htrimmed.2, hempty]
  rw [nil_append, hsubmits]
  split <;> rfl

/-- A character, one that is taken back, an arrow and another character, in two messages. -/
theorem submits_after_backspace :
    ∃ text, RunWhere typeKey (fun text k => k.exact text = true) []
        [.char 'l', .char 'z', .backspace 0x7F, .csi [] (ascii 'D'), .char 's'] text ∧
      text = ['l', 's'] ∧
      (newCommandLog.inputs [lit "lz\x7F\x1B", lit "[Ds\r"]).2 =
        if text = [] then [] else [utf8 text] :=
  have hvisible : ∀ b ∈ utf8 ['l', 's'], isVisible b = true := all_eq_true.mp (by decide +kernel)
  RunWhere.exists_of_decide (by decide) fun _ hrun htext => ⟨htext, submits_typed_text hrun
    (htext ▸ ⟨frontTrimmed_of_visible hvisible, endTrimmed_of_visible hvisible⟩) (.inl rfl) rfl⟩

/-- F1 behind a command is a letter of it, a character of two bytes is half taken back, and a
blank in front is lost. -/
theorem line_is_mistaken :
    (∃ text, Run typeKey [] [.char 'l', .char 's', .ss3 (ascii 'P')] text ∧ text = ['l', 's'] ∧
      (newCommandLog.inputs [lit "ls\x1BOP\r"]).2 = [lit "lsP"]) ∧
    (∃ text, Run typeKey [] [.char 'a', .char 'é', .backspace 0x7F] text ∧ text = ['a'] ∧
      (newCommandLog.inputs [[0x61, 0xC3, 0xA9, 0x7F, 0x0D]]).2 = [[0x61, 0xC3]]) ∧
    ∃ text, Run typeKey [] [.char ' ', .char 'l'] text ∧ text = [' ', 'l'] ∧
      (newCommandLog.inputs [lit " l\r"]).2 = [lit "l"] := by
  refine ⟨?_, ?_, ?_⟩ <;> exact Run.of_exec_decide (by decide +kernel)

end Zanskar.Gateway
