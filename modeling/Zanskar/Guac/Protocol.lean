import Zanskar.Go.Strconv
import Zanskar.Lib.Check

/-!
# The Guacamole wire format (`internal/gateway/guac/protocol.go`)

An instruction is `len.value,len.value,...;`, where `len` counts the characters
of `value` and the first element is the opcode. Values are bytes: nothing keeps
a value from holding the delimiters, or from not being UTF-8. The length is
counted by `RuneCountInString` on one side and walked by `DecodeRuneInString` on
the other.

- `parse_ok_iff` : the texts `Parse` accepts, spelled out. The lengths are whatever
  `Atoi` reads, and a comma may stand between the last element and the end.
-/

namespace Zanskar.Guac

open Go List Option

/-- One opcode with its arguments. -/
structure Instruction where
  opcode : Bytes
  args : List Bytes
  deriving DecidableEq

/-- `ErrMalformed`, the one error of `Parse`. -/
inductive ParseError where
  | malformed
  deriving DecidableEq

/-- `writeElem` of `Encode`. -/
def writeElem (s : Bytes) : Bytes := itoa (runeCount s) ++ ascii '.' :: s

/-- `Encode`: an instruction in wire format. -/
def encode (op : Bytes) (args : List Bytes) : Bytes :=
  writeElem op ++ args.flatMap (fun a => ascii ',' :: writeElem a) ++ [ascii ';']

/-- The inner loop of `Parse`: the index behind `n` runes from `idx` on, or `none`
where the text ends before. -/
def runeIndex (rest : Bytes) : Nat → Nat → Option Nat
  | 0, idx => some idx
  | n + 1, idx =>
    if idx ≥ rest.length then none
    else runeIndex rest n (idx + (decodeRune (rest.drop idx)).2)

/-- The text behind the length at its front, and the length. -/
def readLength (rest : Bytes) : Option (Nat × Bytes) := do
  let dot ← rest.findIdx? (· = ascii '.')
  let n ← atoi (rest.take dot)
  if n < 0 then none else some (n.toNat, rest.drop (dot + 1))

/-- One pass of `Parse`'s loop: an element, and the text from the byte behind it
on. -/
def readElem (rest : Bytes) : Option (Bytes × Bytes) := do
  let (n, rest) ← readLength rest
  let idx ← runeIndex rest n 0
  return (rest.take idx, rest.drop idx)

/-- The loop of `Parse`. A pass takes at least the dot, so as many passes as there
are bytes are enough. -/
def readElems : Nat → Bytes → Except ParseError (List Bytes)
  | 0, _ => .ok []
  | fuel + 1, rest =>
    if rest = [] then .ok []
    else
      match readElem rest with
      | none => .error .malformed
      | some (e, []) => .ok [e]
      | some (e, sep :: rest) =>
        if sep ≠ ascii ',' then .error .malformed
        else (readElems fuel rest).map (e :: ·)

/-- `Parse`: one instruction from its wire format. -/
def parse (raw : Bytes) : Except ParseError Instruction :=
  if raw.getLast? ≠ some (ascii ';') then .error .malformed
  else
    match readElems raw.length raw.dropLast with
    | .error e => .error e
    | .ok [] => .error .malformed
    | .ok (opcode :: args) => .ok ⟨opcode, args⟩

/-! ## Elements as they are spelled -/

/-- An element in wire format: the text of its length, which `Atoi` reads as the
number of runes of its value. -/
structure Elem where
  size : Bytes
  value : Bytes
  measured : atoi size = some (runeCount value : Int)

/-- What stands behind an element: further elements, then `ending`. -/
def behind : List Elem → Bytes → Bytes
  | [], ending => ending
  | e :: es, ending => ascii ',' :: (e.size ++ ascii '.' :: (e.value ++ behind es ending))

/-- An element, further ones, and `ending`. -/
def spell (e : Elem) (es : List Elem) (ending : Bytes) : Bytes :=
  e.size ++ ascii '.' :: (e.value ++ behind es ending)

variable {es : List Elem} {ending rest s : Bytes} {e : Elem}

theorem behind_cons : behind (e :: es) ending = ascii ',' :: spell e es ending := rfl

theorem behind_append (t : Bytes) : behind es ending ++ t = behind es (ending ++ t) := by
  induction es with
  | nil => rfl
  | cons e es ih => simp only [behind, cons_append, append_assoc, ih]

theorem spell_append (t : Bytes) : spell e es ending ++ t = spell e es (ending ++ t) := by
  simp [spell, behind_append]

theorem spell_ne_nil (e : Elem) (es : List Elem) (ending : Bytes) : spell e es ending ≠ [] := by
  simp [spell]

theorem apart_comma : Apart (ascii ',' :: s) :=
  show (ascii ',').toNat < 0x80 by decide

theorem apart_semicolon : Apart (ascii ';' :: s) :=
  show (ascii ';').toNat < 0x80 by decide

/-- What stands behind an element begins with a delimiter, so it is read apart. -/
theorem apart_behind (es : List Elem) {ending : Bytes} (h : Apart ending) :
    Apart (behind es ending) := by
  cases es with
  | nil => exact h
  | cons e es => exact apart_comma

/-! ## Reading one element -/

theorem isDigit_dot : isDigit (ascii '.') = false := by decide

variable {s t : Bytes}

/-- The text of a number holds digits, and at most a sign. -/
theorem mem_of_atoi {n : Int} (h : atoi s = some n) {b : UInt8} (hb : b ∈ s) :
    isDigit b ∨ b = 0x2D ∨ b = 0x2B := by
  have hdigits : (if s.head? = some 0x2D ∨ s.head? = some 0x2B then s.tail else s).all isDigit =
      true := by
    by_contra hall
    rw [atoi] at h
    simp [hall] at h
  cases s with
  | nil => cases hb
  | cons a s =>
    rcases mem_cons.mp hb with rfl | hb
    · by_cases hsign : b = 0x2D ∨ b = 0x2B
      · exact .inr hsign
      · rw [if_neg (by simpa using hsign)] at hdigits
        exact .inl (all_eq_true.mp hdigits b mem_cons_self)
    · refine .inl (all_eq_true.mp hdigits b ?_)
      split
      · exact hb
      · exact mem_cons_of_mem a hb

theorem dot_notMem_of_atoi {n : Int} (h : atoi s = some n) : ascii '.' ∉ s := by
  intro hmem
  rcases mem_of_atoi h hmem with hdigit | hsign | hsign
  · cases isDigit_dot.symm.trans hdigit
  · exact absurd hsign (by decide)
  · exact absurd hsign (by decide)

theorem findIdx?_dot_eq_none (h : ascii '.' ∉ s) : s.findIdx? (· = ascii '.') = none := by
  rw [findIdx?_eq_none_iff]
  intro b hb
  rw [decide_eq_false_iff_not]
  rintro rfl
  exact h hb

theorem findIdx?_dot (h : ascii '.' ∉ s) :
    (s ++ ascii '.' :: rest).findIdx? (· = ascii '.') = some s.length := by
  rw [findIdx?_append, findIdx?_dot_eq_none h]
  simp [findIdx?_cons]

/-- A text with a dot is what stands in front of the first, the dot, and the rest. -/
theorem split_dot {dot : Nat} (h : s.findIdx? (· = ascii '.') = some dot) :
    s = s.take dot ++ ascii '.' :: s.drop (dot + 1) ∧ ascii '.' ∉ s.take dot := by
  obtain ⟨hlt, hdot, hbefore⟩ := findIdx?_eq_some_iff_getElem.mp h
  have hget : s[dot] = ascii '.' := by simpa using hdot
  refine ⟨?_, ?_⟩
  · rw [← hget, ← drop_eq_getElem_cons hlt, take_append_drop]
  · intro hmem
    obtain ⟨i, hi, hval⟩ := mem_take_iff_getElem.mp hmem
    exact absurd (by simpa using hval) (by simpa using hbefore i (by omega))

theorem readLength_spelled :
    readLength (e.size ++ ascii '.' :: rest) = some (runeCount e.value, rest) := by
  have hdrop : (e.size ++ ascii '.' :: rest).drop (e.size.length + 1) = rest := by
    rw [← drop_drop, drop_left]
    rfl
  simp only [readLength, findIdx?_dot (dot_notMem_of_atoi e.measured), bind_eq_bind,
    bind_some, take_left, e.measured, hdrop, Int.toNat_natCast]
  rw [if_neg (by omega)]

/-- The walk from an index on is the walk over what stands behind it. -/
theorem runeIndex_shift (s : Bytes) (n i : Nat) :
    runeIndex s n i = (runeIndex (s.drop i) n 0).map (i + ·) := by
  induction n generalizing s i with
  | zero => rfl
  | succ n ih =>
    rw [runeIndex, runeIndex]
    by_cases hend : s.length ≤ i
    · rw [if_pos hend, if_pos (by rw [length_drop]; omega)]
      rfl
    · have hin : ¬0 ≥ (s.drop i).length := by
        rw [length_drop]
        omega
      rw [if_neg hend, if_neg hin, drop_zero, ih s, ih (s.drop i), drop_drop,
        Nat.zero_add, Option.map_map]
      congr 1
      funext k
      exact Nat.add_assoc i _ k

theorem runeIndex_cons (b : UInt8) (n : Nat) :
    runeIndex (b :: s) (n + 1) 0 =
      (runeIndex ((b :: s).drop (decodeRune (b :: s)).2) n 0).map
        ((decodeRune (b :: s)).2 + ·) := by
  rw [runeIndex, if_neg (by simp), drop_zero, Nat.zero_add, runeIndex_shift]

/-- A walk that ends in front of an ASCII byte has gone over the runes of what lies
behind it. -/
theorem runeIndex_eq_some {n idx : Nat} (h : runeIndex s n 0 = some idx)
    (hapart : Apart (s.drop idx)) : runeCount (s.take idx) = n := by
  induction n generalizing s idx with
  | zero =>
    cases h
    rfl
  | succ n ih =>
    cases s with
    | nil => simp [runeIndex] at h
    | cons b s =>
      rw [runeIndex_cons] at h
      obtain ⟨k, hk, rfl⟩ := map_eq_some_iff.mp h
      obtain ⟨w, hw⟩ : ∃ w, (decodeRune (b :: s)).2 = w + 1 :=
        ⟨_, (Nat.sub_add_cancel (decodeRune_width b s).1).symm⟩
      rw [hw] at hk hapart ⊢
      have hrest := ih hk (by rwa [drop_drop])
      have htake : (b :: s).take (w + 1 + k) = b :: s.take (w + k) := by
        rw [Nat.add_right_comm, take_succ_cons]
      -- the first rune is read the same when the text ends at the index
      have hfirst : decodeRune (b :: s.take (w + k)) = decodeRune (b :: s) := by
        rw [← decodeRune_append hapart, ← htake, take_append_drop]
      have hdrop : (b :: s.take (w + k)).drop (w + 1) = ((b :: s).drop (w + 1)).take k := by
        rw [← htake, drop_take, Nat.add_sub_cancel_left]
      rw [htake, runeCount, runes_cons, hfirst, hw, length_cons, hdrop]
      exact congrArg (· + 1) hrest

/-- The walk over the runes of `s` ends where `s` does. -/
theorem runeIndex_runeCount (ht : Apart t) (s : Bytes) :
    runeIndex (s ++ t) (runeCount s) 0 = some s.length := by
  -- along the runes of `s`
  induction hn : s.length using Nat.strong_induction_on generalizing s with
  | _ n ih =>
    cases s with
    | nil =>
      subst hn
      rfl
    | cons b s =>
      obtain ⟨hpos, hle⟩ := decodeRune_width b s
      have hrest := ih ((b :: s).drop (decodeRune (b :: s)).2).length
        (by rw [length_drop]; omega) _ rfl
      rw [runeCount, runes_cons, length_cons, cons_append, runeIndex_cons,
        ← cons_append, decodeRune_append ht, drop_append_of_le_length hle]
      rw [runeCount] at hrest
      rw [hrest, map_some, length_drop, hn]
      congr 1
      omega

/-- An element is read with what stands behind it. -/
theorem readElem_spelled (e : Elem) {rest : Bytes} (hrest : Apart rest) :
    readElem (e.size ++ ascii '.' :: (e.value ++ rest)) = some (e.value, rest) := by
  simp only [readElem, readLength_spelled, Option.bind_eq_bind, Option.bind_some,
    runeIndex_runeCount hrest, take_left, drop_left, Option.pure_def]

theorem readElem_eq_some {v : Bytes} (h : readElem s = some (v, rest)) (hrest : Apart rest) :
    ∃ e : Elem, e.value = v ∧ s = e.size ++ ascii '.' :: (e.value ++ rest) := by
  simp only [readElem, readLength, bind_eq_bind, bind_eq_some_iff,
    Option.pure_def, Option.some.injEq, Prod.mk.injEq] at h
  obtain ⟨⟨n, text⟩, ⟨dot, hdot, size, hsize, hlen⟩, idx, hidx, rfl, rfl⟩ := h
  split at hlen
  · cases hlen
  rename_i hnonneg
  cases hlen
  have hmeasured : atoi (s.take dot) =
      some (runeCount ((s.drop (dot + 1)).take idx) : Int) := by
    rw [runeIndex_eq_some hidx hrest, hsize]
    congr 1
    omega
  refine ⟨⟨s.take dot, (s.drop (dot + 1)).take idx, hmeasured⟩, rfl, ?_⟩
  dsimp only
  rw [take_append_drop]
  exact (split_dot hdot).1

/-! ## What `Parse` accepts -/

/-- The endings of the text `Parse` reads its elements from. -/
def Closing (t : Bytes) : Prop := t = [] ∨ t = [ascii ',']

theorem apart_closing (h : Closing t) : Apart t := by
  rcases h with rfl | rfl
  · trivial
  · exact apart_comma

theorem apart_append_closing (h : Closing t) : Apart (t ++ [ascii ';']) := by
  rcases h with rfl | rfl
  · exact apart_semicolon
  · exact apart_comma

/-- The loop reads the elements of a text spelled out, with a comma at its end or
without. -/
theorem readElems_spell (e : Elem) (es : List Elem) (ht : Closing t) {fuel : Nat}
    (hfuel : es.length + 1 < fuel) :
    readElems fuel (spell e es t) = .ok (e.value :: es.map Elem.value) := by
  induction es generalizing e fuel with
  | nil =>
    obtain _ | fuel := fuel
    · omega
    have hread : readElem (spell e [] t) = some (e.value, t) :=
      readElem_spelled e (apart_closing ht)
    rw [readElems, if_neg (spell_ne_nil e [] t), hread]
    rcases ht with rfl | rfl
    · rfl
    · obtain _ | fuel := fuel
      · simp at hfuel
      simp [readElems, Except.map]
  | cons e' es ih =>
    obtain _ | fuel := fuel
    · omega
    have hread : readElem (spell e (e' :: es) t) = some (e.value, ascii ',' :: spell e' es t) :=
      readElem_spelled e (apart_behind (e' :: es) (apart_closing ht))
    rw [readElems, if_neg (spell_ne_nil e _ t), hread]
    simp only [ne_eq, not_true_eq_false, if_false, ih e' (Nat.lt_of_succ_lt_succ hfuel)]
    rfl

/-- What the loop reads is spelled as elements. -/
theorem readElems_eq_ok {fuel : Nat} {vs : List Bytes}
    (h : readElems fuel s = .ok vs) (hfuel : s.length ≤ fuel) :
    s = [] ∧ vs = [] ∨
      ∃ e es t, Closing t ∧ s = spell e es t ∧ vs = e.value :: es.map Elem.value := by
  induction fuel generalizing s vs with
  | zero =>
    obtain rfl : s = [] := length_eq_zero_iff.mp (Nat.le_zero.mp hfuel)
    exact .inl ⟨rfl, (Except.ok.inj h).symm⟩
  | succ fuel ih =>
    rw [readElems] at h
    split at h
    · rename_i hnil
      exact .inl ⟨hnil, (Except.ok.inj h).symm⟩
    split at h
    · cases h
    · rename_i hread
      obtain ⟨e, rfl, hs⟩ := readElem_eq_some hread trivial
      exact .inr ⟨e, [], [], .inl rfl, hs, (Except.ok.inj h).symm⟩
    · rename_i v sep rest hread
      split at h
      · cases h
      rename_i hsep
      obtain rfl : sep = ascii ',' := not_not.mp hsep
      obtain ⟨e, rfl, hs⟩ := readElem_eq_some hread apart_comma
      obtain ⟨vs', hrest, hvs⟩ := Lib.map_eq_ok.mp h
      have hlen : rest.length ≤ fuel := by
        have := congrArg length hs
        simp only [length_append, length_cons] at this
        omega
      -- the text behind the comma is empty, or the elements go on
      rcases ih hrest hlen with ⟨rfl, rfl⟩ | ⟨e', es, t, ht, rfl, rfl⟩
      · exact .inr ⟨e, [], [ascii ','], .inr rfl, hs, hvs.symm⟩
      · exact .inr ⟨e, e' :: es, t, ht, hs, hvs.symm⟩

theorem length_behind (es : List Elem) (t : Bytes) : es.length ≤ (behind es t).length := by
  induction es with
  | nil => exact Nat.zero_le _
  | cons e es ih =>
    simp only [behind, length_cons, length_append]
    omega

/-- `Parse` accepts what is spelled as elements, with at most a comma in front of the
semicolon at the end. -/
theorem parse_ok_iff (raw : Bytes) (ins : Instruction) :
    parse raw = .ok ins ↔
      ∃ e es t, Closing t ∧ raw = spell e es (t ++ [ascii ';']) ∧
        ins = ⟨e.value, es.map Elem.value⟩ := by
  constructor
  · intro h
    rw [parse] at h
    split at h
    · cases h
    rename_i hlast
    have hraw : raw = raw.dropLast ++ [ascii ';'] :=
      (dropLast_append_getLast? _ (not_not.mp hlast)).symm
    have hlen : raw.dropLast.length ≤ raw.length := by
      rw [length_dropLast]
      omega
    split at h
    · cases h
    · cases h
    rename_i hread
    rcases readElems_eq_ok hread hlen with ⟨-, hnil⟩ | ⟨e, es, t, ht, hs, heq⟩
    · cases hnil
    · cases heq
      refine ⟨e, es, t, ht, ?_, (Except.ok.inj h).symm⟩
      rw [hraw, hs, spell_append]
  · rintro ⟨e, es, t, ht, rfl, rfl⟩
    have hraw : spell e es (t ++ [ascii ';']) = spell e es t ++ [ascii ';'] :=
      (spell_append _).symm
    -- every element has a size of one digit at least
    have hfuel : es.length + 1 < (spell e es (t ++ [ascii ';'])).length := by
      have hsize : e.size ≠ [] := by
        intro hnil
        have := e.measured
        rw [hnil] at this
        cases this
      have := length_pos_iff.mpr hsize
      have := length_behind es (t ++ [ascii ';'])
      simp only [spell, length_append, length_cons] at this ⊢
      omega
    rw [parse, hraw, getLast?_concat, dropLast_concat, ← hraw, readElems_spell e es ht hfuel]
    rfl

/-! ## Reading back an instruction -/

/-- An element as `Encode` writes it (the length of a Go string is an `int`). -/
def Elem.ofValue (s : Bytes) (hs : s.length < 2 ^ 63) : Elem where
  size := itoa (runeCount s)
  value := s
  measured := atoi_itoa (lt_of_le_of_lt (runeCount_le s) hs)

/-- The arguments as `Encode` writes them. -/
theorem exists_behind_eq {args : List Bytes} (hlen : ∀ s ∈ args, s.length < 2 ^ 63) :
    ∃ es : List Elem, es.map Elem.value = args ∧
      ∀ t, behind es t = args.flatMap (fun a => ascii ',' :: writeElem a) ++ t := by
  induction args with
  | nil => exact ⟨[], rfl, fun _ => rfl⟩
  | cons a args ih =>
    obtain ⟨es, rfl, hes⟩ := ih fun s hs => hlen s (mem_cons_of_mem a hs)
    refine ⟨Elem.ofValue a (hlen a mem_cons_self) :: es, rfl, fun t => ?_⟩
    rw [behind, hes]
    simp [Elem.ofValue, writeElem]

/-- An instruction as `Encode` writes it, in front of anything. -/
theorem exists_spell_eq {op : Bytes} {args : List Bytes}
    (hlen : ∀ s ∈ op :: args, s.length < 2 ^ 63) :
    ∃ e es, (e :: es).map Elem.value = op :: args ∧
      ∀ t, spell e es (ascii ';' :: t) = encode op args ++ t := by
  obtain ⟨es, hvalue, hwritten⟩ := exists_behind_eq fun s hs => hlen s (mem_cons_of_mem op hs)
  refine ⟨Elem.ofValue op (hlen op mem_cons_self), es, congrArg (op :: ·) hvalue, fun t => ?_⟩
  rw [encode, spell, hwritten]
  simp [writeElem, Elem.ofValue]

/-- **Round trip.** Every instruction is read back from its wire format, whatever
bytes its opcode and arguments are (the length of a Go string is an `int`). -/
theorem parse_encode (op : Bytes) (args : List Bytes) (hlen : ∀ s ∈ op :: args, s.length < 2 ^ 63) :
    parse (encode op args) = .ok ⟨op, args⟩ := by
  obtain ⟨e, es, hvalues, hspell⟩ := exists_spell_eq hlen
  obtain ⟨rfl, rfl⟩ := cons.inj hvalues
  refine (parse_ok_iff _ _).mpr ⟨e, es, [], .inl rfl, ?_, rfl⟩
  rw [← append_nil (encode _ _), ← hspell]
  rfl

/-- Bytes that are not UTF-8, and an argument that looks like elements. -/
theorem parse_encode_invalid_utf8 :
    (∀ s ∈ [lit "size", [0xFF, ascii ',', 0xC3], lit "1.5;2.a,"], s.length < 2 ^ 63) ∧
      parse (encode (lit "size") [[0xFF, ascii ',', 0xC3], lit "1.5;2.a,"]) =
        .ok ⟨lit "size", [[0xFF, ascii ',', 0xC3], lit "1.5;2.a,"]⟩ :=
  ⟨by decide, parse_encode _ _ (by decide)⟩

end Zanskar.Guac
