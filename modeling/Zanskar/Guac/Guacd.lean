import Zanskar.Guac.Filter
import Zanskar.Guac.Reader

/-!
# What guacd reads of a browser's message (`internal/gateway/guac/bridge.go`)

guacd takes the wire format off a stream: a length of plain digits, a dot, as many
characters, and a comma or a semicolon. It tells how many bytes a character has from
its first byte alone, where the gateway decodes the whole sequence and counts a byte
that begins none as one character. How guacd measures is a parameter, `charsize`, of
which only what UTF-8 says of its first bytes is assumed (`LeadWidth`).

- `guacd_reads_judged_instruction` : which messages guacd reads as the one instruction
  the bridge judged;
- `cut_sequence_smuggles_instruction` : a byte that announces three more, and a refused
  instruction gets through.
-/

namespace Zanskar.Guac

open Go List

/-! ## The decoder of guacd -/

/-- A measure that goes by the first byte of each UTF-8 sequence. -/
structure LeadWidth (charsize : UInt8 → Nat) : Prop where
  pos : ∀ b, 0 < charsize b
  single : ∀ b, b.toNat < 0x80 → charsize b = 1
  sequence : ∀ b x, lead b = some x → charsize b = x.size

/-- The measure of libguac: the first byte of a sequence by its high bits, and any other
byte as one character. -/
def libguacCharsize (b : UInt8) : Nat :=
  if b.toNat < 0xC0 then 1
  else if b.toNat < 0xE0 then 2
  else if b.toNat < 0xF0 then 3
  else if b.toNat < 0xF8 then 4
  else 1

theorem libguacCharsize_leadWidth : LeadWidth libguacCharsize where
  pos b := by
    unfold libguacCharsize
    split_ifs <;> decide
  single b hb := by rw [libguacCharsize, if_pos (by omega)]
  sequence b x hx := by
    obtain ⟨-, -, ⟨hx, hb⟩ | ⟨hx, hb⟩ | ⟨hx, hb⟩⟩ := lead_spec hx
    · rw [hx, libguacCharsize, if_neg (by omega), if_pos (by omega)]
    · rw [hx, libguacCharsize, if_neg (by omega), if_neg (by omega), if_pos (by omega)]
    · rw [hx, libguacCharsize, if_neg (by omega), if_neg (by omega), if_neg (by omega),
        if_pos (by omega)]

/-- `n` characters off the front of a stream, and what is left; `none` where the
stream ends before. -/
def cutChars (charsize : UInt8 → Nat) : Nat → Bytes → Option (Bytes × Bytes)
  | 0, s => some ([], s)
  | _ + 1, [] => none
  | n + 1, b :: s =>
    if (b :: s).length < charsize b then none
    else (cutChars charsize n ((b :: s).drop (charsize b))).map fun (v, rest) =>
      ((b :: s).take (charsize b) ++ v, rest)

/-- One instruction off the stream: its elements, and what is left. A pass takes at
least the dot. -/
def instructionFrom (charsize : UInt8 → Nat) : Nat → Bytes → Option (List Bytes × Bytes)
  | 0, _ => none
  | fuel + 1, s =>
    match s.dropWhile isDigit with
    | [] => none
    | dot :: rest =>
      if dot ≠ ascii '.' then none
      else
        match cutChars charsize (natOfDigits (s.takeWhile isDigit)) rest with
        | none => none
        | some (_, []) => none
        | some (value, sep :: rest) =>
          if sep = ascii ',' then
            (instructionFrom charsize fuel rest).map fun (vs, rest) => (value :: vs, rest)
          else if sep = ascii ';' then some ([value], rest)
          else none

/-- All instructions of a stream; `none` where it does not end behind one. -/
def instructions (charsize : UInt8 → Nat) : Nat → Bytes → Option (List Instruction)
  | _, [] => some []
  | 0, _ :: _ => none
  | fuel + 1, s@(_ :: _) =>
    match instructionFrom charsize s.length s with
    | some (opcode :: args, rest) =>
      (instructions charsize fuel rest).map (⟨opcode, args⟩ :: ·)
    | _ => none

/-- What guacd decodes of a stream. -/
def guacdReads (charsize : UInt8 → Nat) (s : Bytes) : Option (List Instruction) :=
  instructions charsize s.length s

/-! ## A value as guacd measures it -/

/-- The characters the gateway counts in a value are the whole of it by first bytes too. -/
def measuredAlike (charsize : UInt8 → Nat) (v : Bytes) : Bool :=
  cutChars charsize (runeCount v) v = some (v, [])

variable {charsize : UInt8 → Nat} {rest s v : Bytes} {n : Nat} {b : UInt8} {t : Bytes} {e : Elem}
  {fuel : Nat} {es : List Elem} {ending : Bytes} {m : Parsed}

theorem cutChars_succ_eq_some (h : cutChars charsize (n + 1) s = some (v, rest)) :
    ∃ b t v', s = b :: t ∧ charsize b ≤ s.length ∧ v = s.take (charsize b) ++ v' ∧
      cutChars charsize n (s.drop (charsize b)) = some (v', rest) := by
  cases s with
  | nil => cases h
  | cons b t =>
    rw [cutChars] at h
    split at h
    · cases h
    · rename_i hlen
      obtain ⟨⟨v', rest'⟩, hcut, heq⟩ := Option.map_eq_some_iff.mp h
      cases heq
      exact ⟨b, t, v', rfl, Nat.le_of_not_lt hlen, rfl, hcut⟩

theorem cutChars_append (h : cutChars charsize n s = some (v, rest)) :
    cutChars charsize n (s ++ t) = some (v, rest ++ t) := by
  induction n generalizing s v with
  | zero =>
    cases h
    rfl
  | succ n ih =>
    obtain ⟨b, s, v', rfl, hle, rfl, hcut⟩ := cutChars_succ_eq_some h
    have hlen : ¬(b :: s ++ t).length < charsize b := by
      rw [length_append]
      omega
    rw [cons_append, cutChars, ← cons_append, if_neg hlen, drop_append_of_le_length hle,
      take_append_of_le_length hle, ih hcut]
    rfl

theorem eq_append_of_cutChars (h : cutChars charsize n s = some (v, rest)) : s = v ++ rest := by
  induction n generalizing s v with
  | zero =>
    cases h
    rfl
  | succ n ih =>
    obtain ⟨b, s, v', rfl, -, rfl, hcut⟩ := cutChars_succ_eq_some h
    rw [append_assoc, ← ih hcut, take_append_drop]

variable (hsize : LeadWidth charsize)

include hsize

/-- What stands behind the characters does not matter. -/
theorem cutChars_of_append
    (h : cutChars charsize n (v ++ rest) = some (v, rest)) :
    cutChars charsize n v = some (v, []) := by
  induction n generalizing v with
  | zero =>
    cases h
    rfl
  | succ n ih =>
    obtain ⟨b, s, v', hs, hle, hv, hcut⟩ := cutChars_succ_eq_some h
    -- the first character takes a byte at least, and no more than the value has
    have hpos := hsize.pos b
    have hwidth : charsize b ≤ v.length := by
      have hlen := congrArg length hv
      rw [length_append, length_take] at hlen
      omega
    obtain ⟨b', w, rfl⟩ : ∃ b' w, v = b' :: w := exists_cons_of_length_pos (by omega)
    obtain rfl : b' = b := (cons.inj hs).1
    rw [drop_append_of_le_length hwidth] at hcut
    have hv' := append_cancel_right (eq_append_of_cutChars hcut)
    rw [← hv'] at hcut
    rw [cutChars, if_neg (Nat.not_lt.mpr hwidth), ih hcut, Option.map_some]
    dsimp only
    rw [take_append_drop]

theorem cutChars_eq_iff (v : Bytes) :
    cutChars charsize (runeCount v) (v ++ rest) = some (v, rest) ↔
      measuredAlike charsize v := by
  rw [measuredAlike, decide_eq_true_eq]
  exact ⟨cutChars_of_append hsize, fun h => cutChars_append h⟩

/-- The width of a character is what its first byte announces. -/
theorem charsize_encodeRune (c : Char) (hbt : encodeRune c = b :: t) :
    charsize b = (encodeRune c).length := by
  have hlead : ∀ k, (k = 2 ∧ 0xC2 ≤ b.toNat ∧ b.toNat < 0xE0 ∨
      k = 3 ∧ 0xE0 ≤ b.toNat ∧ b.toNat < 0xF0 ∨ k = 4 ∧ 0xF0 ≤ b.toNat ∧ b.toNat < 0xF5) →
      charsize b = k := by
    intro k hk
    obtain ⟨x, hx⟩ := exists_lead (b := b) (by omega)
    have hspec := lead_spec hx
    rw [hsize.sequence b x hx]
    omega
  have hrange := char_range c
  unfold encodeRune at hbt ⊢
  dsimp only at hbt ⊢
  split_ifs at hbt ⊢ with hascii <;> cases hbt
  · exact hsize.single _ (by rwa [toNat_toUInt8 (by omega)])
  all_goals
    refine hlead _ ?_
    rw [toNat_toUInt8 (by omega)]
    simp only [length_cons, length_nil, true_and]
    omega

theorem cutChars_utf8 (cs : List Char) :
    cutChars charsize cs.length (utf8 cs) = some (utf8 cs, []) := by
  induction cs with
  | nil => rfl
  | cons c cs ih =>
    obtain ⟨b, t, hbt, -⟩ := encodeRune_head c
    have hwidth := charsize_encodeRune hsize c hbt
    have hdrop : (encodeRune c ++ utf8 cs).drop (encodeRune c).length = utf8 cs := drop_left
    have htake : (encodeRune c ++ utf8 cs).take (encodeRune c).length = encodeRune c := take_left
    have hlen : ¬(encodeRune c ++ utf8 cs).length < (encodeRune c).length := by simp
    rw [hbt, cons_append, ← hbt] at hdrop htake hlen
    rw [length_cons, utf8_cons, hbt, cons_append, cutChars, hwidth, if_neg hlen, hdrop,
      htake, ih, hbt]
    rfl

/-- A value that is UTF-8 is as long by first bytes as by runes. -/
theorem measuredAlike_of_validString (hv : validString v) :
    measuredAlike charsize v := by
  obtain ⟨cs, rfl⟩ := (validString_iff v).mp hv
  rw [measuredAlike, decide_eq_true_eq, runeCount_utf8]
  exact cutChars_utf8 hsize cs

/-! ## An instruction as guacd reads it -/

omit hsize

theorem natOfDigits_of_atoi (h : atoi s = some (n : Int))
    (hdigits : s.all isDigit) : natOfDigits s = n := by
  have hhead : ∀ b, isDigit b = false → s.head? ≠ some b := by
    intro b hb hhead
    rw [all_eq_true.mp hdigits b (mem_of_head? hhead)] at hb
    cases hb
  have hminus := hhead 0x2D (by decide)
  have hplus := hhead 0x2B (by decide)
  have hne : s ≠ [] := by
    rintro rfl
    cases h
  unfold atoi at h
  simp only [hminus, hplus, or_self, if_false, hne, hdigits, decide_false, Bool.not_true,
    Bool.or_self, Bool.false_eq_true] at h
  split at h
  · exact Int.ofNat_inj.mp (Option.some.inj h)
  · cases h

theorem takeWhile_digits (h : s.all isDigit) :
    (s ++ ascii '.' :: rest).takeWhile isDigit = s ∧
      (s ++ ascii '.' :: rest).dropWhile isDigit = ascii '.' :: rest := by
  have hall := all_eq_true.mp h
  constructor
  · rw [takeWhile_append_of_pos hall, takeWhile_cons_of_neg (by decide), append_nil]
  · rw [dropWhile_append_of_pos hall, dropWhile_cons_of_neg (by decide)]

theorem dropWhile_of_sign (h : e.size.all isDigit = false) :
    ∃ b s, (e.size ++ ascii '.' :: rest).dropWhile isDigit = b :: s ∧ b ≠ ascii '.' := by
  -- the first byte that is no digit is of the length, which holds no dot
  have hfirst : ∀ s : Bytes, s.all isDigit = false →
      ∃ b ∈ s, ∃ t, (s ++ ascii '.' :: rest).dropWhile isDigit = b :: t := by
    intro s hs
    induction s with
    | nil => cases hs
    | cons b s ih =>
      by_cases hb : isDigit b
      · rw [all_cons, hb, Bool.true_and] at hs
        obtain ⟨c, hc, t, ht⟩ := ih hs
        refine ⟨c, mem_cons_of_mem b hc, t, ?_⟩
        rw [cons_append, dropWhile_cons_of_pos hb, ht]
      · exact ⟨b, mem_cons_self, s ++ ascii '.' :: rest, dropWhile_cons_of_neg hb⟩
  obtain ⟨b, hb, t, ht⟩ := hfirst e.size h
  refine ⟨b, t, ht, ?_⟩
  rintro rfl
  exact dot_notMem_of_atoi e.measured hb

/-- guacd on an element: a sign is none of its digits, and the value is what it cuts. -/
theorem instructionFrom_elem :
    instructionFrom charsize (fuel + 1) (e.size ++ ascii '.' :: s) =
      if e.size.all isDigit = false then none
      else
        match cutChars charsize (runeCount e.value) s with
        | none => none
        | some (_, []) => none
        | some (value, sep :: rest) =>
          if sep = ascii ',' then
            (instructionFrom charsize fuel rest).map fun (vs, rest) => (value :: vs, rest)
          else if sep = ascii ';' then some ([value], rest)
          else none := by
  cases hdigits : e.size.all isDigit with
  | false =>
    obtain ⟨b, t, hdrop, hb⟩ := dropWhile_of_sign hdigits
    rw [instructionFrom, hdrop]
    simp [hb]
  | true =>
    obtain ⟨htake, hdrop⟩ := takeWhile_digits hdigits
    rw [instructionFrom, hdrop, htake, natOfDigits_of_atoi e.measured hdigits]
    rfl

include hsize

/-- The element in front of a delimiter, with a value that is measured alike. -/
theorem instructionFrom_alike (he : measuredAlike charsize e.value) (fuel : Nat) (sep : UInt8) :
    instructionFrom charsize (fuel + 1) (e.size ++ ascii '.' :: (e.value ++ sep :: rest)) =
      if e.size.all isDigit = false then none
      else if sep = ascii ',' then
        (instructionFrom charsize fuel rest).map fun (vs, rest) => (e.value :: vs, rest)
      else if sep = ascii ';' then some ([e.value], rest)
      else none := by
  rw [instructionFrom_elem, (cutChars_eq_iff hsize _).mpr he]

/-- **guacd on what `Parse` accepts.** A text whose values are measured alike is one
instruction with the same elements when its lengths are plain digits and no comma stands at
its end, and is none otherwise. -/
theorem instructionFrom_spell (e : Elem)
    (es : List Elem) (ht : Closing t) (fuel : Nat)
    (halike : ∀ x ∈ e :: es, measuredAlike charsize x.value) (hfuel : es.length < fuel) :
    instructionFrom charsize fuel (spell e es (t ++ [ascii ';'])) =
      if (e :: es).all (fun x => x.size.all isDigit) ∧ t = [] then
        some ((e :: es).map Elem.value, [])
      else none := by
  induction es generalizing e fuel with
  | nil =>
    obtain _ | fuel := fuel
    · cases hfuel
    have he := halike e mem_cons_self
    rcases ht with rfl | rfl
    · rw [spell, behind, nil_append, instructionFrom_alike hsize he]
      cases hdigits : e.size.all isDigit <;> simp [hdigits, show ascii ';' ≠ ascii ',' by decide]
    · have hnone : instructionFrom charsize fuel [ascii ';'] = none := by cases fuel <;> rfl
      rw [spell, behind, singleton_append, instructionFrom_alike hsize he, hnone]
      simp
  | cons e' es ih =>
    obtain _ | fuel := fuel
    · omega
    have hrest := ih e' fuel (fun x hx => halike x (mem_cons_of_mem e hx))
      (Nat.lt_of_succ_lt_succ hfuel)
    rw [spell, behind_cons, instructionFrom_alike hsize (halike e mem_cons_self), hrest, if_pos rfl]
    cases hdigits : e.size.all isDigit with
    | false => simp [hdigits]
    | true =>
      simp only [Bool.true_eq_false, if_false, all_cons, hdigits, Bool.true_and, map_cons]
      split <;> rfl

theorem instructionFrom_elem_eq_some {vs : List Bytes}
    (h : instructionFrom charsize fuel (e.size ++ ascii '.' :: (e.value ++ s)) =
      some (e.value :: vs, rest)) :
    measuredAlike charsize e.value ∧
      (vs = [] ∨ ∃ fuel s', s = ascii ',' :: s' ∧
        instructionFrom charsize fuel s' = some (vs, rest)) := by
  cases fuel with
  | zero => cases h
  | succ fuel =>
    rw [instructionFrom_elem] at h
    split at h
    · cases h
    split at h
    · cases h
    · cases h
    rename_i value sep s' hcut
    have halike : value = e.value → s = sep :: s' ∧ measuredAlike charsize e.value := by
      rintro rfl
      obtain rfl := append_cancel_left (eq_append_of_cutChars hcut)
      exact ⟨rfl, (cutChars_eq_iff hsize _).mp hcut⟩
    split at h
    · rename_i hsep
      obtain ⟨⟨vs', rest'⟩, hrest, heq⟩ := Option.map_eq_some_iff.mp h
      obtain ⟨hvalues, rfl⟩ := Prod.mk.inj heq
      obtain ⟨hvalue, rfl⟩ := cons.inj hvalues
      obtain ⟨hs, hmeasured⟩ := halike hvalue
      exact ⟨hmeasured, .inr ⟨fuel, s', hsep ▸ hs, hrest⟩⟩
    · split at h
      · obtain ⟨hvalues, -⟩ := Prod.mk.inj (Option.some.inj h)
        obtain ⟨hvalue, hnil⟩ := cons.inj hvalues
        exact ⟨(halike hvalue).2, .inl hnil.symm⟩
      · cases h

/-- guacd reads the same elements only where it measures them alike. -/
theorem measuredAlike_of_instructionFrom
    (h : instructionFrom charsize fuel (spell e es ending) =
      some ((e :: es).map Elem.value, rest)) :
    ∀ x ∈ e :: es, measuredAlike charsize x.value := by
  induction es generalizing e fuel with
  | nil =>
    intro x hx
    obtain rfl := mem_singleton.mp hx
    exact (instructionFrom_elem_eq_some hsize h).1
  | cons e' es ih =>
    obtain ⟨he, hnil | ⟨fuel, s, hs, hrest⟩⟩ := instructionFrom_elem_eq_some hsize h
    · cases hnil
    · obtain rfl := (cons.inj hs).2
      exact forall_mem_cons.mpr ⟨he, ih hrest⟩

/-! ## Messages of the browser -/

/-- The texts of the lengths of a message, as `Parse` passes them. -/
def sizesFrom : Nat → Bytes → List Bytes
  | 0, _ => []
  | fuel + 1, rest =>
    match readElem rest with
    | some (_, _ :: rest') => rest.takeWhile (· ≠ ascii '.') :: sizesFrom fuel rest'
    | _ => []

/-- No length of a message is written with a sign. -/
def plainLengths (raw : Bytes) : Bool :=
  (sizesFrom raw.length raw).all fun size => size.all isDigit

omit hsize

theorem sizesFrom_spell (e : Elem) (ht : Closing t) (fuel : Nat) (hfuel : es.length < fuel) :
    sizesFrom fuel (spell e es (t ++ [ascii ';'])) = (e :: es).map Elem.size := by
  have hend : Apart (t ++ [ascii ';']) := apart_append_closing ht
  have htake : ∀ (e : Elem) (rest : Bytes),
      (e.size ++ ascii '.' :: rest).takeWhile (· ≠ ascii '.') = e.size := by
    intro e rest
    rw [takeWhile_append_of_pos, takeWhile_cons_of_neg (by simp), append_nil]
    intro b hb
    rw [decide_eq_true_eq]
    rintro rfl
    exact dot_notMem_of_atoi e.measured hb
  induction es generalizing e fuel with
  | nil =>
    obtain _ | fuel := fuel
    · cases hfuel
    have hread := readElem_spelled e hend
    rw [spell, behind, sizesFrom, hread, htake]
    rcases ht with rfl | rfl <;> cases fuel <;> rfl
  | cons e' es ih =>
    obtain _ | fuel := fuel
    · omega
    have hread := readElem_spelled e (apart_behind (e' :: es) hend)
    rw [spell, sizesFrom, hread, htake, behind_cons]
    dsimp only
    rw [ih e' fuel (Nat.lt_of_succ_lt_succ hfuel)]
    rfl

theorem guacdReads_eq (h : s ≠ []) :
    guacdReads charsize s =
      match instructionFrom charsize s.length s with
      | some (opcode :: args, rest) =>
        (instructions charsize (s.length - 1) rest).map (⟨opcode, args⟩ :: ·)
      | _ => none := by
  obtain ⟨b, s, rfl⟩ := exists_cons_of_ne_nil h
  rfl

/-- The bridge and guacd read a message alike: no comma stands behind its last element, no
length has a sign, every element is measured alike, and the opcode, which `Opcode` cuts off by
bytes, has a byte for each character. -/
def readAlike (charsize : UInt8 → Nat) (m : Parsed) : Bool :=
  !trailingComma m.raw && plainLengths m.raw &&
    (m.ins.opcode :: m.ins.args).all (measuredAlike charsize) &&
      runeCount m.ins.opcode = m.ins.opcode.length

theorem readAlike_iff :
    readAlike charsize m ↔
      (plainLengths m.raw ∧ trailingComma m.raw = false) ∧
        (∀ v ∈ m.ins.opcode :: m.ins.args, measuredAlike charsize v) ∧
          opcode m.raw = m.ins.opcode := by
  rw [readAlike, opcode_eq_iff_runeCount, ← all_eq_true]
  simp only [Bool.and_eq_true, Bool.not_eq_true', decide_eq_true_eq]
  tauto

include hsize

/-- guacd on a message whose elements are measured alike. -/
theorem guacdReads_of_measuredAlike
    (m : Parsed) (h : ∀ v ∈ m.ins.opcode :: m.ins.args, measuredAlike charsize v) :
    guacdReads charsize m.raw =
      if plainLengths m.raw ∧ trailingComma m.raw = false then some [m.ins] else none := by
  obtain ⟨raw, ins, hparse⟩ := m
  dsimp only at h ⊢
  obtain ⟨e, es, t, ht, rfl, rfl⟩ := (parse_ok_iff raw ins).mp hparse
  have hlen := length_lt_spell e es (t ++ [ascii ';'])
  have halike : ∀ x ∈ e :: es, measuredAlike charsize x.value := fun x hx =>
    h x.value (mem_map_of_mem hx)
  have hplain : plainLengths (spell e es (t ++ [ascii ';'])) =
      (e :: es).all fun x => x.size.all isDigit := by
    rw [plainLengths, sizesFrom_spell e ht _ hlen, all_map]
    rfl
  rw [guacdReads_eq (spell_ne_nil e es _), instructionFrom_spell hsize e es ht _ halike hlen,
    hplain]
  simp only [trailingComma_spell ht]
  by_cases hcond : (e :: es).all (fun x => x.size.all isDigit) ∧ t = []
  · rw [if_pos hcond, if_pos hcond]
    simp [instructions]
  · rw [if_neg hcond, if_neg hcond]

/-- guacd reads the instruction that `Parse` has read only where it measures its elements
alike. -/
theorem measuredAlike_of_guacdReads
    (h : guacdReads charsize m.raw = some [m.ins]) :
    ∀ v ∈ m.ins.opcode :: m.ins.args, measuredAlike charsize v := by
  obtain ⟨raw, ins, hparse⟩ := m
  dsimp only at h ⊢
  obtain ⟨e, es, t, -, rfl, rfl⟩ := (parse_ok_iff raw ins).mp hparse
  rw [guacdReads_eq (spell_ne_nil e es _)] at h
  split at h
  · rename_i op args rest hfirst
    obtain ⟨more, -, heq⟩ := Option.map_eq_some_iff.mp h
    cases (cons.inj heq).1
    intro v hv
    obtain ⟨x, hx, rfl⟩ := mem_map.mp (show v ∈ (e :: es).map Elem.value from hv)
    exact measuredAlike_of_instructionFrom hsize hfirst x hx
  · cases h

theorem measuredAlike_of_validRaw (h : validString m.raw) :
    ∀ v ∈ m.ins.opcode :: m.ins.args, measuredAlike charsize v := by
  obtain ⟨raw, ins, hparse⟩ := m
  dsimp only at h ⊢
  obtain ⟨e, es, t, ht, rfl, rfl⟩ := (parse_ok_iff raw ins).mp hparse
  intro v hv
  obtain ⟨x, hx, rfl⟩ := mem_map.mp (show v ∈ (e :: es).map Elem.value from hv)
  exact measuredAlike_of_validString hsize (validString_values (apart_append_closing ht) h x hx)

/-- A message whose elements are measured alike is read as one instruction under the opcode
that was judged just when it is read alike. -/
theorem guacdReads_iff
    (h : ∀ v ∈ m.ins.opcode :: m.ins.args, measuredAlike charsize v) {args : List Bytes} :
    guacdReads charsize m.raw = some [⟨opcode m.raw, args⟩] ↔
      readAlike charsize m ∧ args = m.ins.args := by
  rw [guacdReads_of_measuredAlike hsize m h, readAlike_iff]
  split
  · rename_i hcond
    have hins : m.ins = ⟨opcode m.raw, args⟩ ↔ opcode m.raw = m.ins.opcode ∧ args = m.ins.args := by
      cases m.ins
      rw [Instruction.mk.injEq]
      exact and_congr eq_comm eq_comm
    rw [Option.some.injEq, cons.injEq, hins]
    exact ⟨fun ⟨⟨hop, hargs⟩, _⟩ => ⟨⟨hcond, h, hop⟩, hargs⟩,
      fun ⟨⟨_, _, hop⟩, hargs⟩ => ⟨⟨hop, hargs⟩, rfl⟩⟩
  · rename_i hcond
    constructor
    · intro hnone
      cases hnone
    · rintro ⟨⟨hboth, -⟩, -⟩
      exact absurd hboth hcond

omit hsize

/-- **guacd reads what the bridge judged**, as exactly one instruction, whenever the two read
the message alike. That they do is also needed: for guacd to read the instruction `Parse`
has read under the opcode that was judged, and, in a message that is UTF-8, for it to read one
instruction with that opcode at all. -/
theorem guacd_reads_judged_instruction {charsize : UInt8 → Nat} (hsize : LeadWidth charsize)
    (m : Parsed) :
    (readAlike charsize m = true →
        ∃ args, guacdReads charsize m.raw = some [⟨opcode m.raw, args⟩]) ∧
      (guacdReads charsize m.raw = some [m.ins] ∧ opcode m.raw = m.ins.opcode ↔
        readAlike charsize m = true) ∧
      (validString m.raw = true →
        ((∃ args, guacdReads charsize m.raw = some [⟨opcode m.raw, args⟩]) ↔
          readAlike charsize m = true)) := by
  have henough : readAlike charsize m →
      guacdReads charsize m.raw = some [⟨opcode m.raw, m.ins.args⟩] := fun h =>
    (guacdReads_iff hsize (readAlike_iff.mp h).2.1).mpr ⟨h, rfl⟩
  refine ⟨fun h => ⟨_, henough h⟩, ⟨?_, fun h => ?_⟩, fun hutf8 => ⟨?_, fun h => ⟨_, henough h⟩⟩⟩
  · rintro ⟨hreads, hop⟩
    have hsame : guacdReads charsize m.raw = some [⟨opcode m.raw, m.ins.args⟩] := by
      rw [hreads, hop]
    exact ((guacdReads_iff hsize (measuredAlike_of_guacdReads hsize hreads)).mp hsame).1
  · have hop := (readAlike_iff.mp h).2.2
    refine ⟨?_, hop⟩
    rw [henough h, hop]
  · rintro ⟨args, hreads⟩
    exact ((guacdReads_iff hsize (measuredAlike_of_validRaw hsize hutf8)).mp hreads).1

/-- Text outside ASCII in an argument is measured alike. -/
theorem guacd_reads_accented_clipboard :
    ∃ args, guacdReads libguacCharsize (lit "4.blob,1.0,1." ++ [0xC3, 0xA9] ++ lit ";") =
      some [⟨opcode (lit "4.blob,1.0,1." ++ [0xC3, 0xA9] ++ lit ";"), args⟩] := by
  have hparse : parse (lit "4.blob,1.0,1." ++ [0xC3, 0xA9] ++ lit ";") =
      .ok ⟨lit "blob", [lit "0", [0xC3, 0xA9]]⟩ := by decide +kernel
  exact (guacd_reads_judged_instruction libguacCharsize_leadWidth ⟨_, _, hparse⟩).1
    (readAlike_iff.mpr ⟨by dsimp only; decide +kernel, by dsimp only; decide +kernel,
      by dsimp only; decide +kernel⟩)

-- A message that is not UTF-8 may come out as one instruction by accident: guacd takes
-- the front of the next element into the first value, and what is left of it happens to
-- be an element again.
example : guacdReads libguacCharsize (lit "3.nop,1." ++ [0xF0] ++ lit ",5.,2.ab;") =
    some [⟨lit "nop", [[0xF0] ++ lit ",5.", lit "ab"]⟩] := by decide +kernel

/-- The first byte of a sequence of four, and then the next element: to the gateway the
message is one `nop` with two arguments, and it passes. guacd takes the three bytes behind
into the character, finds the semicolon of the second argument's value where the first
ends, and reads a `get` behind it, which the policy refuses. -/
theorem cut_sequence_smuggles_instruction :
    ∃ m : Parsed, m.raw = lit "3.nop,1." ++ [0xF0] ++ lit ",6.;3.get;" ∧
      LeadWidth libguacCharsize ∧ passes .client ⟨false, false⟩ [] m = true ∧
      guacdReads libguacCharsize m.raw =
        some [⟨lit "nop", [[0xF0] ++ lit ",6."]⟩, ⟨lit "get", []⟩] ∧
      (⟨false, false⟩ : Limits).allows (lit "get") = false := by
  have hparse : parse (lit "3.nop,1." ++ [0xF0] ++ lit ",6.;3.get;") =
      .ok ⟨lit "nop", [[0xF0], lit ";3.get"]⟩ := by decide +kernel
  refine ⟨⟨_, _, hparse⟩, rfl, libguacCharsize_leadWidth, ?_, by dsimp only; decide +kernel,
    by decide⟩
  show ((newStreamFilter Sender.client.opens).relay ⟨false, false⟩
    (lit "3.nop,1." ++ [0xF0] ++ lit ",6.;3.get;")).2.1
  decide +kernel

end Zanskar.Guac
