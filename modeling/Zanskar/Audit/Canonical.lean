import Zanskar.Audit.Chain
import Zanskar.Lib.Check

/-!
# What the hash of an event says about the event

The previous hash stands in front of the JSON without a separator and again in its
last field, so the bytes have to be cut from both ends. Behind the cut, every field
is read back: the time exactly, a text up to the bytes that are not UTF-8, written as
U+FFFD is, the details up to what decoding rewrites.

- `hash_tells_apart_iff` : a difference between two events shows in the hash exactly if
  it is not one that this rewriting removes.
-/

namespace Zanskar.Audit

open Go List

/-! ## Cutting off the previous hash -/

variable {y z : Bytes} {ms : List (Option Char)} {e e' : Event} {compact x compact' : Bytes}
  {name : String} {fields fields' : List (String × Bytes)} {f f' : String × Bytes} {v v' : GoValue}

/-- A quote in what is written for one character or byte stands behind a backslash. -/
theorem quote_escaped_mark {m : Option Char}
    (h : escapeMark m = y ++ ascii '"' :: z) : ∃ y', y = y' ++ [ascii '\\'] := by
  have hunicode : ∀ n, ascii '"' ∉ unicodeEscape n := by
    intro n hn
    have hhex : ∀ k < 16, ascii '"' ≠ hexDigit k := by decide
    simp only [unicodeEscape, mem_cons, not_mem_nil, or_false] at hn
    rcases hn with hn | hn | hn | hn | hn | hn
    · exact absurd hn (by decide)
    · exact absurd hn (by decide)
    all_goals exact hhex _ (Nat.mod_lt _ (by decide)) hn
  have hmem : ascii '"' ∈ escapeMark m := h ▸ mem_append_right _ mem_cons_self
  cases m with
  | none => exact absurd hmem (by decide)
  | some c =>
    unfold escapeMark at h hmem
    cases hletter : escapeLetter c with
    | some b =>
      simp only [hletter] at h
      cases y with
      | nil => exact absurd (cons.inj h).1 (by decide)
      | cons a y =>
        obtain ⟨rfl, h⟩ := cons.inj h
        cases y with
        | nil => exact ⟨[], rfl⟩
        | cons _ y => exact absurd (cons.inj h).2 (by simp)
    | none =>
      simp only [hletter] at hmem
      split at hmem
      · exact absurd hmem (hunicode _)
      · -- the quote itself is escaped by its letter
        have hc := toNat_of_mem_encodeRune hmem (by decide)
        have hquote : c = '"' := Char.toNat_inj.mp (hc.symm.trans (by decide))
        rw [hquote] at hletter
        exact absurd hletter (by decide)

/-- Inside a string every quote stands behind a backslash. -/
theorem quote_escaped
    (h : ms.flatMap escapeMark = y ++ ascii '"' :: z) : ∃ y', y = y' ++ [ascii '\\'] := by
  induction ms generalizing y with
  | nil => exact absurd h.symm (by simp)
  | cons m ms ih =>
    rw [flatMap_cons, append_eq_append_iff] at h
    rcases h with ⟨y₁, rfl, hrest⟩ | ⟨c, hmark, hrest⟩
    · obtain ⟨y', rfl⟩ := ih hrest
      exact ⟨escapeMark m ++ y', by rw [append_assoc]⟩
    · cases c with
      | nil =>
        obtain ⟨y', hy'⟩ := ih (y := []) hrest.symm
        exact absurd hy'.symm (by simp)
      | cons b c =>
        cases hrest
        exact quote_escaped_mark hmark

theorem escapeMark_ne_nil (m : Option Char) : escapeMark m ≠ [] := by
  cases m with
  | none => decide
  | some c =>
    simp only [escapeMark]
    split
    · exact cons_ne_nil _ _
    split
    · exact cons_ne_nil _ _
    · obtain ⟨b, s, hs, -⟩ := encodeRune_head c
      rw [hs]
      exact cons_ne_nil _ _

theorem writeFields_concat (text : Bytes) :
    ∃ u, writeFields (fields ++ [(name, text)]) =
      u ++ (fieldName name ++ (text ++ [ascii '\x7d'])) := by
  induction fields with
  | nil => exact ⟨[], rfl⟩
  | cons f fields ih =>
    obtain ⟨u, hu⟩ := ih
    refine ⟨fieldName f.1 ++ (f.2 ++ ascii ',' :: u), ?_⟩
    rw [cons_append, writeFields, hu, if_neg (by simp)]
    simp

/-- The end of the body: the previous hash in quotes. -/
theorem body_tail :
    ∃ u, e.body compact =
      (u ++ [ascii ':']) ++ (ascii '"' :: (marks e.prevHash).flatMap escapeMark) ++
        [ascii '"', ascii '\x7d'] := by
  obtain ⟨u, hu⟩ := writeFields_concat
    (quoteMarks (marks e.prevHash))
  refine ⟨ascii '\x7b' :: (u ++ ascii '"' :: (lit "prev_hash" ++ [ascii '"'])), ?_⟩
  have hcanonical : e.canonical compact =
      (e.canonical compact).take 8 ++ [("prev_hash", quoteMarks (marks e.prevHash))] := rfl
  rw [Event.body, hcanonical, hu]
  simp [fieldName, quoteMarks]

/-- A previous hash is not followed by more of itself. -/
theorem eq_nil_of_prevHash_append
    (hprev : e'.prevHash = e.prevHash ++ x) (hbody : e.body compact = x ++ e'.body compact') :
    x = [] := by
  by_contra hx
  obtain ⟨b, t, rfl⟩ := exists_cons_of_ne_nil hx
  -- what would follow begins with the brace of the body
  have hapart : Apart (b :: t) := by
    rw [← (cons.inj hbody).1]
    show (ascii '\x7b').toNat < 0x80
    decide
  have hmarks : marks e'.prevHash = marks e.prevHash ++ marks (b :: t) := by
    rw [hprev, marks_append hapart]
  obtain ⟨u, hu⟩ := body_tail
  obtain ⟨u', hu'⟩ := body_tail
  -- so the longer hash, in quotes at the end, holds a quote that nothing escapes
  have hends : (u ++ [ascii ':']) ++ (ascii '"' :: (marks e.prevHash).flatMap escapeMark) =
      ((b :: t) ++ (u' ++ [ascii ':']) ++ [ascii '"']) ++
        (marks e'.prevHash).flatMap escapeMark := by
    rw [hu, hu'] at hbody
    refine (append_left_inj [ascii '"', ascii '\x7d']).mp ?_
    simpa only [append_assoc, cons_append, nil_append] using hbody
  rcases append_eq_append_iff.mp hends with ⟨a, -, ha⟩ | ⟨c, hc, hsplit⟩
  · obtain ⟨m, ms, hms⟩ := exists_cons_of_ne_nil (marks_ne_nil hx)
    have hmark := length_pos_iff.mpr (escapeMark_ne_nil m)
    have hlen := congrArg List.length ha
    rw [hmarks, hms] at hlen
    simp only [length_cons, length_append, flatMap_append, flatMap_cons] at hlen
    have hanil : a = [] := length_eq_zero_iff.mp (by omega)
    rw [hanil, nil_append] at ha
    obtain ⟨y', hy'⟩ := quote_escaped (y := []) ha.symm
    exact absurd hy'.symm (by simp)
  · obtain ⟨y', rfl⟩ := quote_escaped hsplit
    rw [← append_assoc] at hc
    have hlast := (append_inj' hc rfl).2
    exact absurd (List.cons.inj hlast).1 (by decide)

/-- What is hashed says where the previous hash ends. -/
theorem prevHash_inj (h : e.prevHash ++ e.body compact = e'.prevHash ++ e'.body compact') :
    e.prevHash = e'.prevHash ∧ e.body compact = e'.body compact' := by
  rcases append_eq_append_iff.mp h with ⟨x, hprev, hbody⟩ | ⟨x, hprev, hbody⟩
  · obtain rfl := eq_nil_of_prevHash_append hprev hbody
    rw [append_nil] at hprev
    exact ⟨hprev.symm, hbody⟩
  · obtain rfl := eq_nil_of_prevHash_append hprev hbody
    rw [append_nil] at hprev
    exact ⟨hprev, hbody.symm⟩

/-! ## Reading the fields back -/

/-- The events agree in every field, details as JSON values. -/
structure SameFields (e e' : Event) : Prop where
  ts : e.ts = e'.ts
  actorUserID : e.actorUserID = e'.actorUserID
  actorIP : e.actorIP = e'.actorIP
  action : e.action = e'.action
  objectType : e.objectType = e'.objectType
  objectID : e.objectID = e'.objectID
  outcome : e.outcome = e'.outcome
  details : exactValue e.detailsOrEmpty = exactValue e'.detailsOrEmpty
  prevHash : e.prevHash = e'.prevHash

/-- A text as it is written: U+FFFD for every byte that is not UTF-8. -/
def writtenText (s : Bytes) : List Char := (marks s).map shown

/-- The events agree once bytes that are not UTF-8 are made U+FFFD in their texts, and
the details are decoded by Go: numbers rounded, what is no character replaced, keys
that come out alike made one. -/
structure SameRewritten (e e' : Event) : Prop where
  ts : e.ts = e'.ts
  actorUserID : writtenText e.actorUserID = writtenText e'.actorUserID
  actorIP : writtenText e.actorIP = writtenText e'.actorIP
  action : writtenText e.action = writtenText e'.action
  objectType : writtenText e.objectType = writtenText e'.objectType
  objectID : writtenText e.objectID = writtenText e'.objectID
  outcome : writtenText e.outcome = writtenText e'.outcome
  details : goValue e.detailsOrEmpty = goValue e'.detailsOrEmpty
  prevHash : e.prevHash = e'.prevHash

theorem quoteMarks_congr {s s' : Bytes} (h : writtenText s = writtenText s') :
    quoteMarks (marks s) = quoteMarks (marks s') := by
  rw [← quoteMarks_shown, ← quoteMarks_shown (marks s')]
  exact congrArg (fun cs => quoteMarks (cs.map some)) h

/-- The compact form of details, and the value they are decoded to. -/
theorem compactJSON_ok {raw : Bytes} (h : compactJSON raw = .ok compact) :
    ∃ v, unmarshal raw = some v ∧ compact = marshal v := by
  unfold compactJSON at h
  split at h
  · cases h
  · rename_i ms hms
    exact ⟨_, hms, (Except.ok.inj h).symm⟩
  · cases h

theorem goValue_eq_map (raw : Bytes) : goValue raw = (unmarshal raw).map Json.value := by
  rw [goValue, unmarshal]
  cases parse raw with
  | none | some => rfl

theorem writeFields_cons_cons (text : Bytes) :
    writeFields ((name, text) :: f :: fields) =
      fieldName name ++ (text ++ ascii ',' :: writeFields (f :: fields)) := by
  rw [writeFields, if_neg (cons_ne_nil _ _)]

theorem writeFields_quote_inj {ms' : List (Option Char)}
    (h : writeFields ((name, quoteMarks ms) :: f :: fields) =
      writeFields ((name, quoteMarks ms') :: f' :: fields')) :
    ms.map shown = ms'.map shown ∧
      writeFields (f :: fields) = writeFields (f' :: fields') := by
  rw [writeFields_cons_cons, writeFields_cons_cons] at h
  obtain ⟨hms, hrest⟩ := quoteMarks_append_inj (append_cancel_left h)
  exact ⟨hms, (List.cons.inj hrest).2⟩

theorem writeFields_marshal_inj (h : writeFields ((name, marshal v) :: f :: fields) =
      writeFields ((name, marshal v') :: f' :: fields')) :
    v.value = v'.value ∧ writeFields (f :: fields) = writeFields (f' :: fields') := by
  rw [writeFields_cons_cons, writeFields_cons_cons] at h
  obtain ⟨hv, hrest⟩ := marshal_append_inj (ends_comma _) (ends_comma _) (append_cancel_left h)
  exact ⟨hv, (List.cons.inj hrest).2⟩

theorem hashInput_ok (h : hashInput e = .ok x) :
    ∃ v, unmarshal e.detailsOrEmpty = some v ∧ x = e.prevHash ++ e.body (marshal v) := by
  obtain ⟨compact, hc, rfl⟩ := Lib.map_eq_ok.mp h
  obtain ⟨v, hv, rfl⟩ := compactJSON_ok hc
  exact ⟨v, hv, rfl⟩

/-- The body gives the fields back, up to rewriting. -/
theorem sameRewritten_of_body_eq
    (hv : unmarshal e.detailsOrEmpty = some v) (hv' : unmarshal e'.detailsOrEmpty = some v')
    (hprev : e.prevHash = e'.prevHash) (h : e.body (marshal v) = e'.body (marshal v')) :
    SameRewritten e e' := by
  have h := (List.cons.inj h).2
  obtain ⟨hts, h⟩ := writeFields_quote_inj h
  obtain ⟨hactor, h⟩ := writeFields_quote_inj h
  obtain ⟨hip, h⟩ := writeFields_quote_inj h
  obtain ⟨haction, h⟩ := writeFields_quote_inj h
  obtain ⟨htype, h⟩ := writeFields_quote_inj h
  obtain ⟨hobject, h⟩ := writeFields_quote_inj h
  obtain ⟨houtcome, h⟩ := writeFields_quote_inj h
  obtain ⟨hdetails, -⟩ := writeFields_marshal_inj h
  have hshown : ∀ cs : List Char, (cs.map some).map shown = cs := fun cs => by
    rw [map_map]
    exact map_id' cs
  rw [hshown, hshown] at hts
  exact
    { ts := rfc3339Nano_injective hts
      actorUserID := hactor
      actorIP := hip
      action := haction
      objectType := htype
      objectID := hobject
      outcome := houtcome
      details := by rw [goValue_eq_map, goValue_eq_map, hv, hv', Option.map_some, hdetails]; rfl
      prevHash := hprev }

/-- Two events are hashed over the same bytes exactly if they are the same after
rewriting. -/
theorem hashInput_eq_iff {x' : Bytes} (hx : hashInput e = .ok x)
    (hx' : hashInput e' = .ok x') : x = x' ↔ SameRewritten e e' := by
  obtain ⟨v, hv, rfl⟩ := hashInput_ok hx
  obtain ⟨v', hv', rfl⟩ := hashInput_ok hx'
  constructor
  · intro h
    obtain ⟨hprev, hbody⟩ := prevHash_inj h
    exact sameRewritten_of_body_eq hv hv' hprev hbody
  · intro h
    have hvalue := h.details
    rw [goValue_eq_map, goValue_eq_map, hv, hv', Option.map_some, Option.map_some,
      Option.some.injEq] at hvalue
    rw [Event.body, Event.body, Event.canonical, Event.canonical, marshal_congr hvalue, h.ts,
      quoteMarks_congr h.actorUserID, quoteMarks_congr h.actorIP, quoteMarks_congr h.action,
      quoteMarks_congr h.objectType, quoteMarks_congr h.objectID, quoteMarks_congr h.outcome,
      h.prevHash]

/-! ## The hash -/

theorem hex_injective : Function.Injective hex := by
  have hdigit : ∀ m < 16, ∀ n < 16, hexDigit m = hexDigit n → m = n := by decide
  intro bs bs' h
  induction bs generalizing bs' with
  | nil => cases bs' with
    | nil => rfl
    | cons b' bs' => cases h
  | cons b bs ih => cases bs' with
    | nil => cases h
    | cons b' bs' =>
      obtain ⟨hhigh, h⟩ := List.cons.inj h
      obtain ⟨hlow, h⟩ := List.cons.inj h
      have hb := b.toNat_lt
      have hb' := b'.toNat_lt
      have hhigh := hdigit _ (by omega) _ (by omega) hhigh
      have hlow := hdigit _ (by omega) _ (by omega) hlow
      rw [UInt8.toNat_inj.mp (by omega : b.toNat = b'.toNat), ih h]

/-- **What the hash tells apart.** A difference between two events shows in the bytes
that are hashed, and in the hash as long as these two inputs do not collide, exactly
if it is not one that rewriting removes. -/
theorem hash_tells_apart_iff (e e' : Event) (x x' : Bytes) (hx : hashInput e = .ok x)
    (hx' : hashInput e' = .ok x') :
    (¬SameFields e e' → x ≠ x' ∧ ∀ sha256 : Bytes → Digest, (sha256 x = sha256 x' → x = x') →
      computeHash sha256 e ≠ computeHash sha256 e') ↔
    (SameRewritten e e' → SameFields e e') := by
  have hiff := hashInput_eq_iff hx hx'
  constructor
  · intro hshows hsame
    by_contra hdiffer
    exact (hshows hdiffer).1 (hiff.mpr hsame)
  · intro hcond hdiffer
    have hne : x ≠ x' := fun heq => hdiffer (hcond (hiff.mp heq))
    refine ⟨hne, fun sha256 hcollide heq => hne (hcollide ?_)⟩
    rw [computeHash, computeHash, hx, hx'] at heq
    exact Subtype.ext (hex_injective (Except.ok.inj heq))

/-- An event with the given time and details. -/
def eventWith (ts : Int) (details : String) : Event where
  id := 1
  ts := ts
  actorUserID := lit "u1"
  actorIP := lit "10.0.0.7"
  action := lit "session.end"
  objectType := lit "session"
  objectID := lit "s1"
  outcome := lit "success"
  details := lit details
  prevHash := genesisHash
  hash := []

/-- An event a microsecond later is hashed over other bytes. -/
theorem later_event_told_apart :
    ∃ x x', hashInput (eventWith 1700000000000000000 "") = .ok x ∧
      hashInput (eventWith 1700000000000001000 "") = .ok x' ∧ x ≠ x' := by
  have hok : ∀ ts, ∃ x, hashInput (eventWith ts "") = .ok x := fun ts => ⟨_, rfl⟩
  obtain ⟨x, hx⟩ := hok 1700000000000000000
  obtain ⟨x', hx'⟩ := hok 1700000000000001000
  refine ⟨x, x', hx, hx', ?_⟩
  refine ((hash_tells_apart_iff _ _ x x' hx hx').mpr (fun hsame => ?_) (fun hsame => ?_)).1
  · exact absurd hsame.ts (by decide)
  · exact absurd hsame.ts (by decide)

/-- The number under a key. -/
def numberAt {ν τ : Type} (k : τ) : JsonValue ν τ → Option ν
  | .obj field =>
    match field k with
    | some (.num n) => some n
    | _ => none
  | _ => none

/-- **Two byte counts, one hash.** Details that differ in a number above `2 ^ 53` are
hashed over the same bytes. -/
theorem rounded_numbers_hash_alike :
    ¬SameFields (eventWith 0 "\x7b\"bytes\":9007199254740993\x7d")
        (eventWith 0 "\x7b\"bytes\":9007199254740992\x7d") ∧
      ∃ x, hashInput (eventWith 0 "\x7b\"bytes\":9007199254740993\x7d") = .ok x ∧
        hashInput (eventWith 0 "\x7b\"bytes\":9007199254740992\x7d") = .ok x := by
  refine ⟨fun hsame => ?_, ?_⟩
  · have hnum := congrArg (·.bind (numberAt ("bytes".toList.map ExactUnit.char))) hsame.details
    exact absurd hnum (by decide +kernel)
  · obtain ⟨x, hx, hx'⟩ :
        ∃ x ∈ (hashInput (eventWith 0 "\x7b\"bytes\":9007199254740993\x7d")).toOption,
          x ∈ (hashInput (eventWith 0 "\x7b\"bytes\":9007199254740992\x7d")).toOption := by
      decide +kernel
    exact ⟨x, Lib.mem_toOption.mp hx, Lib.mem_toOption.mp hx'⟩

end Zanskar.Audit
