import Zanskar.Guac.Protocol

/-!
# Instructions on a stream (`internal/gateway/guac/protocol.go`, `bridge.go`)

`Reader.ReadRaw` takes the next instruction off a stream; it is how the gateway
reads guacd, and it stands for how guacd reads the gateway. The bridge judges a
browser's message with `Parse`, which has the whole message before it, and then
relays the message as it came. A message is judged as one instruction, so it has
to be one on the stream.

- `encodings_are_read_iff` : encodings one after another are read as they stand just
  when they are UTF-8;
- `message_is_one_instruction` : so is a message that `Parse` accepts, except when it
  ends in a comma.
-/

namespace Zanskar.Guac

open Go List

/-- What `ReadRaw` fails with: the end of the stream, or one of the two errors of
the package. -/
inductive ReadError where
  | eof
  | malformed
  | tooLong
  deriving DecidableEq

/-- The bound of a single instruction. -/
def maxInstruction : Nat := 8 * 2 ^ 20

/-- The loop over the runes of a value: what is written for the `n` runes at the
front (`WriteRune` writes the replacement character for a byte that begins no
sequence), and what is left of the stream; `none` where it ends before. -/
def readRunes : Nat → Bytes → Option (Bytes × Bytes)
  | 0, s => some ([], s)
  | _ + 1, [] => none
  | n + 1, b :: s => do
    let (r, width) := decodeRune (b :: s)
    let (v, rest) ← readRunes n ((b :: s).drop width)
    return (encodeRune (Char.ofNat r) ++ v, rest)

/-- The loop of `ReadRaw`, with what it has built so far. A pass takes at least the
dot, so as many passes as there are bytes are enough. The test against the bound is
an addition of two `int`s. -/
def readRawFrom : Nat → Bytes → Bytes → Except ReadError (Bytes × Bytes)
  | 0, _, _ => .error .eof
  | fuel + 1, b, s =>
    match s.findIdx? (· = ascii '.') with
    | none => .error .eof
    | some dot =>
      match atoi (s.take dot) with
      | none => .error .malformed
      | some n =>
        if n < 0 then .error .malformed
        else
          let b := b ++ s.take (dot + 1)
          if maxInstruction < b.length + n.toNat ∧ b.length + n.toNat < 2 ^ 63 then
            .error .tooLong
          else
            match readRunes n.toNat (s.drop (dot + 1)) with
            | none => .error .eof
            | some (_, []) => .error .eof
            | some (v, sep :: rest) =>
              if sep = ascii ',' then readRawFrom fuel (b ++ v ++ [sep]) rest
              else if sep = ascii ';' then .ok (b ++ v ++ [sep], rest)
              else .error .malformed

/-- `Reader.ReadRaw`: the next instruction, as it is relayed, and the stream behind
it. -/
def readRaw (s : Bytes) : Except ReadError (Bytes × Bytes) := readRawFrom s.length [] s

/-! ## A value on the stream -/

variable {rest : Bytes} {es : List Elem} {e : Elem}

/-- A value that is UTF-8 is read and written as it is. -/
theorem readRunes_utf8 (cs : List Char) :
    readRunes cs.length (utf8 cs ++ rest) = some (utf8 cs, rest) := by
  induction cs with
  | nil => rfl
  | cons c cs ih =>
    obtain ⟨b, t, hbt, -⟩ := encodeRune_head c
    have hdec := decodeRune_encodeRune c (utf8 cs ++ rest)
    have hdrop : (encodeRune c ++ (utf8 cs ++ rest)).drop (encodeRune c).length =
        utf8 cs ++ rest := drop_left
    rw [hbt, cons_append] at hdec hdrop
    rw [length_cons, utf8_cons, append_assoc, hbt, cons_append, readRunes, hdec]
    simp only [hdrop, ih, Option.bind_eq_bind, Option.bind_some, Char.ofNat_toNat,
      Option.pure_def, hbt, cons_append]

theorem readRunes_of_validString {v : Bytes} (hv : validString v) :
    readRunes (runeCount v) (v ++ rest) = some (v, rest) := by
  obtain ⟨cs, rfl⟩ := (validString_iff v).mp hv
  rw [runeCount_utf8, readRunes_utf8]

/-! ## An instruction on the stream -/

theorem validString_cons {b : UInt8} (hb : b.toNat < 0x80) (s : Bytes) :
    validString (b :: s) = validString s := by
  have hdec : decodeRune (b :: s) = (b.toNat, 1) := by simp [decodeRune, hb]
  have hne : b.toNat ≠ runeError := by rw [runeError]; omega
  rw [validString, marks, runes_cons, hdec]
  simp [hne, validString, marks]

theorem validString_spelled (hrest : Apart rest)
    (h : validString (e.size ++ ascii '.' :: (e.value ++ rest))) :
    validString e.value ∧ validString rest := by
  have hdot : (ascii '.').toNat < 0x80 := by decide
  have happ := validString_append (show Apart (ascii '.' :: (e.value ++ rest)) from hdot) e.size
  rw [happ, validString_cons hdot, validString_append hrest, Bool.and_eq_true,
    Bool.and_eq_true] at h
  exact h.2

/-- One pass of `ReadRaw` over an element: it goes on behind the comma, and ends
behind the semicolon. -/
theorem readRawFrom_elem (he : validString e.value) {fuel : Nat} {b : Bytes}
    (hmax : b.length + (e.size.length + 1) + e.value.length ≤ maxInstruction) (sep : UInt8) :
    readRawFrom (fuel + 1) b (e.size ++ ascii '.' :: (e.value ++ sep :: rest)) =
      let b := b ++ (e.size ++ ascii '.' :: (e.value ++ [sep]))
      if sep = ascii ',' then readRawFrom fuel b rest
      else if sep = ascii ';' then .ok (b, rest)
      else .error .malformed := by
  have hdrop : (e.size ++ ascii '.' :: (e.value ++ sep :: rest)).drop (e.size.length + 1) =
      e.value ++ sep :: rest := by
    rw [← drop_drop, drop_left]
    rfl
  have htake : (e.size ++ ascii '.' :: (e.value ++ sep :: rest)).take (e.size.length + 1) =
      e.size ++ [ascii '.'] := by
    rw [take_append, take_of_length_le (by omega)]
    simp
  have hcount := runeCount_le e.value
  rw [readRawFrom, findIdx?_dot (dot_notMem_of_atoi e.measured)]
  dsimp only
  rw [take_left, e.measured]
  dsimp only
  have hbound : ¬(maxInstruction < (b ++ (e.size ++ [ascii '.'])).length +
      (runeCount e.value : Int).toNat ∧
      (b ++ (e.size ++ [ascii '.'])).length + (runeCount e.value : Int).toNat < 2 ^ 63) := by
    simp only [length_append, length_singleton, Int.toNat_natCast]
    omega
  rw [if_neg (by omega), hdrop, htake, if_neg hbound, Int.toNat_natCast,
    readRunes_of_validString he]
  simp

variable {t : Bytes} {s : Bytes}

theorem validString_values (ht : Apart t) (h : validString (spell e es t)) :
    ∀ x ∈ e :: es, validString x.value := by
  obtain ⟨he, hrest⟩ := validString_spelled (apart_behind es ht) h
  refine forall_mem_cons.mpr ⟨he, ?_⟩
  induction es generalizing e with
  | nil => exact forall_mem_nil _
  | cons e' es ih =>
    rw [behind_cons, validString_cons (by decide)] at hrest
    obtain ⟨he', hrest'⟩ := validString_spelled (apart_behind es ht) hrest
    exact forall_mem_cons.mpr ⟨he', ih hrest he' hrest'⟩

/-- **Elements on the stream** are read as they stand: `ReadRaw` goes on behind a comma, and
ends behind a semicolon. -/
theorem readRawFrom_spell (e : Elem) (fuel : Nat) (b : Bytes) (sep : UInt8) (rest : Bytes)
    (hvalid : ∀ x ∈ e :: es, validString x.value)
    (hmax : b.length + (spell e es [sep]).length ≤ maxInstruction) :
    readRawFrom (fuel + (es.length + 1)) b (spell e es (sep :: rest)) =
      let b := b ++ spell e es [sep]
      if sep = ascii ',' then readRawFrom fuel b rest
      else if sep = ascii ';' then .ok (b, rest)
      else .error .malformed := by
  obtain ⟨he, hes⟩ := forall_mem_cons.mp hvalid
  simp only [spell, length_append, length_cons] at hmax
  induction es generalizing e b with
  | nil => exact readRawFrom_elem he (by omega) sep
  | cons e' es ih =>
    simp only [behind_cons, spell, length_append, length_cons] at hmax
    obtain ⟨he', hes'⟩ := forall_mem_cons.mp hes
    rw [spell, behind_cons, length_cons, ← Nat.add_assoc, readRawFrom_elem he (by omega)]
    dsimp only
    rw [if_pos rfl, ih e' _ hes he' hes' (by
      simp only [length_append, length_cons, length_nil]
      omega)]
    simp [spell, behind_cons]

theorem length_lt_spell (e : Elem) (es : List Elem) (t : Bytes) :
    es.length < (spell e es t).length := by
  have := length_behind es t
  simp only [spell, length_append, length_cons]
  omega

/-! ## Instructions one after another -/

/-- `Instruction.String`. -/
def Instruction.string (ins : Instruction) : Bytes := encode ins.opcode ins.args

/-- What a `bufio.Reader` presents of the reads of its source: the bytes in order. `ReadString`,
`ReadRune` and `ReadByte` go on reading until they have the delimiter, a full rune or a byte;
a source that reads nothing a hundred times in a row is left out. -/
def buffered (reads : List Bytes) : Bytes := reads.flatten

/-- What so many calls of `ReadRaw` return one after another, up to the first that fails. -/
def readRaws : Nat → Bytes → List Bytes
  | 0, _ => []
  | n + 1, s =>
    match readRaw s with
    | .error _ => []
    | .ok (raw, rest) => raw :: readRaws n rest

theorem length_le_string {ins : Instruction} {v : Bytes} (hv : v ∈ ins.opcode :: ins.args) :
    v.length ≤ ins.string.length := by
  rcases mem_cons.mp hv with rfl | hv
  · simp only [Instruction.string, encode, writeElem, length_append, length_cons]
    omega
  · have hle := (sublist_flatten_of_mem (mem_map_of_mem (f := fun a => ascii ',' :: writeElem a)
      hv)).length_le
    rw [← flatMap_def] at hle
    simp only [writeElem, length_cons, length_append] at hle
    simp only [Instruction.string, encode, writeElem, length_append]
    omega

theorem readRaw_string {ins : Instruction} (hmax : ins.string.length ≤ maxInstruction)
    (hvalid : validString ins.string) : readRaw (ins.string ++ rest) = .ok (ins.string, rest) := by
  obtain ⟨e, es, -, hspell⟩ := @exists_spell_eq ins.opcode ins.args fun _ hv =>
    lt_of_le_of_lt ((length_le_string hv).trans hmax) (by decide)
  have hstring : spell e es [ascii ';'] = ins.string := (hspell []).trans (append_nil _)
  rw [← hstring] at hvalid hmax
  obtain ⟨fuel, hfuel⟩ := Nat.exists_eq_add_of_le' (length_lt_spell e es (ascii ';' :: rest))
  have hread := readRawFrom_spell e fuel [] (ascii ';') rest
    (validString_values apart_semicolon hvalid) (by simpa using hmax)
  rw [readRaw, Instruction.string, ← hspell, hfuel, hread, hstring]
  rfl

theorem validString_of_readRunes {n : Nat} {v : Bytes} (h : readRunes n s = some (v, rest)) :
    validString v := by
  induction n generalizing s v with
  | zero =>
    cases h
    rfl
  | succ n ih =>
    cases s with
    | nil => cases h
    | cons b s =>
      obtain ⟨⟨v', rest'⟩, hrest, heq⟩ := Option.bind_eq_some_iff.mp h
      cases heq
      rw [validString, marks_encodeRune, all_cons]
      exact ih hrest

theorem validString_concat (hs : validString s) (ht : validString t) : validString (s ++ t) := by
  obtain ⟨cs, rfl⟩ := (validString_iff s).mp hs
  obtain ⟨ds, rfl⟩ := (validString_iff t).mp ht
  exact (validString_iff _).mpr ⟨cs ++ ds, flatMap_append.symm⟩

theorem validString_of_atoi {n : Int} (h : atoi s = some n) : validString s := by
  have hascii : ∀ b ∈ s, b.toNat < 0x80 := fun b hb => by
    rcases mem_of_atoi h hb with hdigit | rfl | rfl
    · rw [isDigit, Bool.and_eq_true, decide_eq_true_eq, decide_eq_true_eq] at hdigit
      omega
    · decide
    · decide
  clear h
  induction s with
  | nil => rfl
  | cons b s ih =>
    obtain ⟨hb, hs⟩ := forall_mem_cons.mp hascii
    rw [validString_cons hb]
    exact ih hs

/-- What `ReadRaw` returns is UTF-8, whatever it reads. -/
theorem validString_of_readRawFrom {fuel : Nat} {b raw : Bytes} (hb : validString b)
    (h : readRawFrom fuel b s = .ok (raw, rest)) : validString raw := by
  induction fuel generalizing b s with
  | zero => cases h
  | succ fuel ih =>
    rw [readRawFrom] at h
    split at h
    · cases h
    rename_i dot hdot
    split at h
    · cases h
    rename_i n hn
    split at h
    · cases h
    dsimp only at h
    split at h
    · cases h
    split at h
    · cases h
    · cases h
    rename_i v sep rest' hrunes
    have hsize : validString (s.take (dot + 1)) := by
      obtain ⟨hlt, hget, -⟩ := findIdx?_eq_some_iff_getElem.mp hdot
      rw [take_add_one, getElem?_eq_getElem hlt, of_decide_eq_true hget]
      exact validString_concat (validString_of_atoi hn) (by decide)
    have hvalue := validString_concat (validString_concat hb hsize)
      (validString_of_readRunes hrunes)
    split at h
    · rename_i hsep
      subst hsep
      exact ih (validString_concat hvalue (by decide)) h
    split at h <;> cases h
    rename_i hsep
    subst hsep
    exact validString_concat hvalue (by decide)

/-- **Instructions on a stream.** However the stream of some encodings is split into reads,
`ReadRaw` returns them one after another, byte for byte, and then fails, if and only if every
one of them is UTF-8, as it is when the opcode and the arguments are. -/
theorem encodings_are_read_iff (sent : List Instruction) (reads : List Bytes)
    (hmax : ∀ ins ∈ sent, ins.string.length ≤ maxInstruction)
    (hreads : reads.flatten = sent.flatMap Instruction.string) :
    readRaws (sent.length + 1) (buffered reads) = sent.map Instruction.string ↔
      ∀ ins ∈ sent, validString ins.string = true := by
  rw [buffered, hreads]
  clear hreads
  induction sent with
  | nil => exact iff_of_true rfl (forall_mem_nil _)
  | cons ins sent ih =>
    obtain ⟨hins, hsent⟩ := forall_mem_cons.mp hmax
    rw [forall_mem_cons, ← ih hsent, flatMap_cons, length_cons, map_cons, readRaws]
    constructor
    · intro h
      cases hread : readRaw (ins.string ++ sent.flatMap Instruction.string) with
      | error err =>
        rw [hread] at h
        cases h
      | ok r =>
        rw [hread] at h
        -- what is returned is UTF-8
        have hvalid : validString ins.string :=
          (cons.inj h).1 ▸ validString_of_readRawFrom rfl hread
        cases (readRaw_string hins hvalid).symm.trans hread
        exact ⟨hvalid, (cons.inj h).2⟩
    · rintro ⟨hvalid, hrest⟩
      rw [readRaw_string hins hvalid]
      exact congrArg _ hrest

/-- An accented letter that is split between two reads. -/
theorem split_accent_is_read :
    readRaws 3 (buffered [lit "4.size,1." ++ [0xC3], 0xA9 :: lit ";3.n", lit "op;"]) =
      [lit "4.size,1." ++ [0xC3, 0xA9] ++ lit ";", lit "3.nop;"] :=
  (encodings_are_read_iff [⟨lit "size", [[0xC3, 0xA9]]⟩, ⟨lit "nop", []⟩] _ (by decide +kernel)
    (by decide +kernel)).mpr (by decide +kernel)

/-- A byte that begins no sequence comes back as the replacement character. -/
theorem bad_byte_is_replaced :
    encode (lit "nop") [[0xFF]] = lit "3.nop,1." ++ [0xFF] ++ lit ";" ∧
      readRaws 1 (buffered [lit "3.nop,1." ++ [0xFF] ++ lit ";"]) =
        [lit "3.nop,1." ++ [0xEF, 0xBF, 0xBD] ++ lit ";"] := by
  decide +kernel

/-! ## Messages of the browser -/

/-- The limit set on the socket of a desktop session (`ws.SetReadLimit`): a longer
message ends the session instead of being read. -/
def readLimit : Nat := 4 * 2 ^ 20

/-- A message the bridge reads from the browser. -/
structure Message where
  raw : Bytes
  size : raw.length ≤ readLimit

/-- The text ends in a comma behind its last element: `Parse` accepts it without the
comma as well. -/
def trailingComma (raw : Bytes) : Bool :=
  [ascii ',', ascii ';'].isSuffixOf raw && (parse (raw.dropLast.dropLast ++ [ascii ';'])).isOk

theorem dropLast_dropLast_closed (body : Bytes) :
    (body ++ [ascii ',', ascii ';']).dropLast.dropLast = body := by
  rw [show [ascii ',', ascii ';'] = [ascii ','] ++ [ascii ';'] from rfl,
    ← append_assoc, dropLast_concat, dropLast_concat]

theorem trailingComma_iff (raw : Bytes) :
    trailingComma raw ↔
      ∃ e es t, Closing t ∧ raw = spell e es (t ++ [ascii ',', ascii ';']) := by
  rw [trailingComma, Bool.and_eq_true, isSuffixOf_iff_suffix]
  constructor
  · rintro ⟨⟨body, rfl⟩, hok⟩
    rw [dropLast_dropLast_closed] at hok
    cases hparse : parse (body ++ [ascii ';']) with
    | error err =>
      rw [hparse] at hok
      cases hok
    | ok ins =>
      obtain ⟨e, es, t, ht, heq, -⟩ := (parse_ok_iff _ _).mp hparse
      rw [← spell_append] at heq
      refine ⟨e, es, t, ht, ?_⟩
      rw [append_cancel_right heq, spell_append]
  · rintro ⟨e, es, t, ht, rfl⟩
    refine ⟨⟨spell e es t, spell_append _⟩, ?_⟩
    rw [← spell_append, dropLast_dropLast_closed, spell_append,
      (parse_ok_iff _ _).mpr ⟨e, es, t, ht, rfl, rfl⟩]
    rfl

/-- A text does not end in an element and in a comma at once. -/
theorem spell_ne_comma (e e' : Elem) (es' : List Elem) (ht : Closing t) :
    spell e es [] ≠ spell e' es' (t ++ [ascii ',']) := by
  have hcomma : Apart (t ++ [ascii ',']) := by
    rcases ht with rfl | rfl <;> exact apart_comma
  have hnone : Apart [] := trivial
  intro h
  -- both spellings are read alike, element by element
  induction es generalizing e e' es' with
  | nil =>
    have hread := readElem_spelled e' (apart_behind es' hcomma)
    rw [← spell, ← h, spell, behind, readElem_spelled e hnone] at hread
    have hnil := (Prod.mk.inj (Option.some.inj hread)).2
    cases es' with
    | nil => simp [behind] at hnil
    | cons e'' es' => cases hnil
  | cons e₁ es ih =>
    have hread := readElem_spelled e' (apart_behind es' hcomma)
    rw [← spell, ← h, spell, readElem_spelled e (apart_behind (e₁ :: es) hnone)] at hread
    have hrest := (Prod.mk.inj (Option.some.inj hread)).2
    rw [behind_cons] at hrest
    cases es' with
    | nil =>
      have hdot : ascii '.' ∈ spell e₁ es [] := by simp [spell]
      rcases ht with rfl | rfl
      · rw [(cons.inj hrest).2] at hdot
        cases hdot
      · rw [(cons.inj hrest).2] at hdot
        exact absurd hdot (by decide)
    | cons e₂ es' => exact ih e₁ e₂ es' (cons.inj hrest).2

/-- The comma that `Parse` passes over is seen in the text. -/
theorem trailingComma_spell (ht : Closing t) :
    trailingComma (spell e es (t ++ [ascii ';'])) = false ↔ t = [] := by
  constructor
  · intro h
    rcases ht with rfl | rfl
    · rfl
    · have htrue := (trailingComma_iff _).mpr ⟨e, es, [], .inl rfl, rfl⟩
      exact absurd (htrue.symm.trans h) (by decide)
  · rintro rfl
    by_contra h
    rw [Bool.not_eq_false] at h
    obtain ⟨e', es', t', ht', heq⟩ := (trailingComma_iff _).mp h
    rw [show t' ++ [ascii ',', ascii ';'] = t' ++ [ascii ','] ++ [ascii ';'] by simp,
      ← spell_append, ← spell_append] at heq
    exact spell_ne_comma e e' es' ht' (append_cancel_right heq)

/-- **One message, one instruction.** A message of the browser that is UTF-8 and that
`Parse` accepts is read off the stream as it came, and nothing is left of it, if and
only if no comma stands behind its last element. -/
theorem message_is_one_instruction (m : Message) (hutf8 : validString m.raw = true)
    {ins : Instruction} (hparse : parse m.raw = .ok ins) :
    (readRaw m.raw = .ok (m.raw, []) ∧ readRaw [] = .error .eof) ↔
      trailingComma m.raw = false := by
  obtain ⟨raw, hsize⟩ := m
  dsimp only at hutf8 hparse ⊢
  have hmax : raw.length ≤ maxInstruction := le_trans hsize (by decide)
  obtain ⟨e, es, t, ht, rfl, -⟩ := (parse_ok_iff raw ins).mp hparse
  have hvalues := validString_values (apart_append_closing ht) hutf8
  obtain ⟨fuel, hfuel⟩ := Nat.exists_eq_add_of_le' (length_lt_spell e es (t ++ [ascii ';']))
  rw [trailingComma_spell ht, readRaw, hfuel]
  rcases ht with rfl | rfl
  · have hread := readRawFrom_spell e fuel [] (ascii ';') [] hvalues (by simpa using hmax)
    exact iff_of_true ⟨hread, rfl⟩ rfl
  · -- the stream ends where the next length is read
    rw [← spell_append, length_append] at hmax
    have hread := readRawFrom_spell e fuel [] (ascii ',') [ascii ';'] hvalues (by
      simpa using Nat.le_of_add_right_le hmax)
    have hnone : ∀ b, readRawFrom fuel b [ascii ';'] = .error .eof := by
      cases fuel <;> exact fun _ => rfl
    rw [if_pos rfl, hnone] at hread
    rw [singleton_append, hread]
    simp

/-- A mouse movement. -/
theorem mouse_message_is_one_instruction :
    readRaw (lit "5.mouse,2.10,2.20,1.0;") = .ok (lit "5.mouse,2.10,2.20,1.0;", []) ∧
      readRaw [] = .error .eof := by
  have hparse : parse (lit "5.mouse,2.10,2.20,1.0;") =
      .ok ⟨lit "mouse", [lit "10", lit "20", lit "0"]⟩ := by decide +kernel
  exact (message_is_one_instruction ⟨_, by decide⟩ (by decide +kernel) hparse).mpr
    (by decide +kernel)

/-- A comma in front of the semicolon: `Parse` reads one instruction, and the stream
none. -/
theorem comma_message_is_no_instruction :
    ∃ m : Message, validString m.raw = true ∧ parse m.raw = .ok ⟨lit "nop", []⟩ ∧
      readRaw m.raw = .error .eof :=
  ⟨⟨lit "3.nop,;", by decide⟩, by decide +kernel, by decide +kernel, by decide +kernel⟩

end Zanskar.Guac
