import Zanskar.Audit.Intact

/-!
# Verify

`Verify`, `checkAnchors` and `checkSequence` of `internal/audit/store.go`: the walk, every
stored anchor and every one kept outside the database, and the id sequence.

The log and the anchor table that are verified may be anything that someone with the
database has made of them. An anchor kept elsewhere names one event and its hash, and
the chain behind that hash is fixed as far as no two canonical forms share a hash.

- `anchored_events_unchanged` : the events up to a kept anchor are those that were
  anchored.
-/

namespace Zanskar.Audit

open Go List
open Lib (Ordered Linked headHash)

/-! ## The code -/

/-- `VerifyResult`. -/
structure VerifyResult extends WalkResult where
  anchors : Nat
  lastAnchor : Option Anchor
  problems : List String
  warnings : List String
deriving DecidableEq

/-- `VerifyResult.Intact`. -/
def VerifyResult.intact (res : VerifyResult) : Bool :=
  res.broken = none && res.problems = []

/-- `maxAnchorReports`. -/
def maxAnchorReports : Nat := 20

/-- `anchoredHashes`. -/
def anchoredHashes (db : Db) (id : Int) : Option Bytes :=
  if db.anchors.rows.any fun a => a.eventID = id then (db.events.get id).map Event.hash else none

/-- The hash of a kept anchor's event, next to those that are there. -/
def addKeptHash (db : Db) (hashes : Int → Option Bytes) (a : Anchor) (id : Int) : Option Bytes :=
  match db.events.get a.eventID with
  | some e => if id = a.eventID then some e.hash else hashes id
  | none => hashes id

/-- `SELECT MAX(id) FROM audit_events`. -/
def Db.maxID (db : Db) : Option Int := db.events.newest.map Event.id

/-- What `checkAnchors` has gathered. -/
structure AnchorCheck where
  anchors : Nat
  lastAnchor : Option Anchor
  past : List (Anchor × String)
  found : List String

/-- The anchor's name in a problem. -/
def Anchor.reportName (a : Anchor) (supplied : Bool) : String :=
  if supplied then "the supplied anchor" else "anchor " ++ toString a.id

/-- The problem of an anchor with a signature of someone else. -/
def unsignedText (a : Anchor) (supplied : Bool) : String :=
  (if supplied then "the supplied anchor for event " ++ toString a.eventID
    else a.reportName supplied) ++
    " was not written by this gateway: its signature does not match"

/-- `check`, one anchor. -/
def checkAnchor (hmac : Bytes → Bytes → Digest) (key : Bytes) (hashes : Int → Option Bytes)
    (maxID : Option Int) (s : AnchorCheck) (named : Anchor × Bool) : AnchorCheck :=
  let (a, supplied) := named
  let name := a.reportName supplied
  let s := { s with anchors := s.anchors + 1 }
  if ¬a.signed hmac key then { s with found := s.found ++ [unsignedText a supplied] }
  else
    match hashes a.eventID with
    | none =>
      if a.eventID > maxID.getD 0 then { s with past := s.past ++ [(a, name)] }
      else { s with found := s.found ++ [name ++ ": event " ++ toString a.eventID ++
        " is missing — the log was truncated or edited"] }
    | some h =>
      if h ≠ a.hash then { s with found := s.found ++ [name ++ ": event " ++ toString a.eventID ++
        " has changed since it was anchored — the log was edited"] }
      else if s.lastAnchor.all fun last => a.eventID > last.eventID then
        { s with lastAnchor := some a }
      else s

/-- The anchor among those past the end that names the newest event. -/
def newestPast (p : Anchor × String) (past : List (Anchor × String)) : Anchor × String :=
  past.foldl (fun newest q => if q.1.eventID > newest.1.eventID then q else newest) p

/-- What is reported of the anchors past the end. -/
def pastText (maxID : Option Int) : List (Anchor × String) → List String
  | [] => []
  | p :: past =>
    let newest := newestPast p past
    let covers := newest.2 ++ " covers event " ++ toString newest.1.eventID
    let msg := match maxID with
      | some id => "the log ends at event " ++ toString id ++ ", but " ++ covers ++
        ": the newest events were deleted"
      | none => "the log is empty, but " ++ covers ++ ": every event was deleted"
    [if past ≠ [] then
      msg ++ " (" ++ toString (past.length + 1) ++ " anchors name events past the end)"
    else msg]

/-- What is reported of the other anchors: the first ones, and how many more. -/
def foundText (found : List String) : List String :=
  if found.length > maxAnchorReports then
    found.take maxAnchorReports ++
      ["and " ++ toString (found.length - maxAnchorReports) ++ " more anchor problem(s)"]
  else found

/-- The anchors in the order they are checked, and whether each was supplied. -/
def Db.checked (db : Db) (kept : List Anchor) : List (Anchor × Bool) :=
  db.anchors.rows.map (·, false) ++ kept.map (·, true)

/-- `checkAnchors`. -/
def checkAnchors (hmac : Bytes → Bytes → Digest) (db : Db) (key : Bytes) (kept : List Anchor)
    (res : VerifyResult) : VerifyResult :=
  let hashes := kept.foldl (addKeptHash db) (anchoredHashes db)
  let s := (db.checked kept).foldl (checkAnchor hmac key hashes db.maxID)
    ⟨res.anchors, res.lastAnchor, [], []⟩
  { res with
    anchors := s.anchors
    lastAnchor := s.lastAnchor
    problems := res.problems ++ pastText db.maxID s.past ++ foundText s.found }

/-- Where the id sequence is read from; a PostgreSQL sequence may fail to be read. -/
inductive SequenceRead where
  | sqlite
  | postgres (err : Option String)

/-- `checkSequence`. -/
def checkSequence (db : Db) (res : VerifyResult) : SequenceRead → VerifyResult
  | .postgres (some err) =>
    { res with
      warnings := res.warnings ++ ["the id sequence could not be read, so it was not compared " ++
        "with the newest event: " ++ err] }
  | .postgres none =>
    if db.eventSeq > db.maxID.getD 0 then
      { res with
        warnings := res.warnings ++ ["the id sequence is ahead of the newest event (" ++
          toString db.eventSeq ++ " vs " ++ toString (db.maxID.getD 0) ++
          "): the newest events may have been deleted, or an insert failed"] }
    else res
  | .sqlite =>
    if db.eventSeq > db.maxID.getD 0 then
      { res with
        problems := res.problems ++ ["the id sequence is ahead of the newest event (" ++
          toString db.eventSeq ++ " vs " ++ toString (db.maxID.getD 0) ++
          "): events were deleted from the end of the log"] }
    else res

/-- `Log.Verify`. -/
def verify (sha256 : Bytes → Digest) (hmac : Bytes → Bytes → Digest) (db : Db) (key : Bytes)
    (kept : List Anchor) (seqRead : SequenceRead) : Except AnchorError VerifyResult :=
  if key = [] then .error .noKey
  else
    let res := checkAnchors hmac db key kept ⟨walk sha256 db.events, 0, none, [], []⟩
    .ok (checkSequence db res seqRead)

/-! ## What an intact log says of its anchors -/

variable {sha256 : Bytes → Digest} {hmac : Bytes → Bytes → Digest} {key : Bytes} {db : Db}
  {s : AnchorCheck} {hashes : Int → Option Bytes} {kept : List Anchor} {res : VerifyResult}
  {seqRead : SequenceRead} {e : Event} {x : Bytes} {maxID : Option Int}

/-- The anchor is genuine, and its event has the hash it signed. -/
def Matches (hmac : Bytes → Bytes → Digest) (key : Bytes) (hashes : Int → Option Bytes)
    (a : Anchor) : Prop :=
  a.signed hmac key ∧ hashes a.eventID = some a.hash

/-- Nothing to report so far. -/
def AnchorCheck.clean (s : AnchorCheck) : Prop := s.past = [] ∧ s.found = []

theorem clean_checkAnchor {a : Anchor} {supplied : Bool} :
    (checkAnchor hmac key hashes maxID s (a, supplied)).clean ↔
      s.clean ∧ Matches hmac key hashes a := by
  unfold checkAnchor Matches AnchorCheck.clean
  dsimp only
  by_cases hsigned : a.signed hmac key
  · rw [if_neg (not_not.mpr hsigned)]
    cases hhash : hashes a.eventID with
    | none =>
      dsimp only
      split <;> simp
    | some h =>
      dsimp only
      split
      · rename_i hne
        simp [hne]
      · rename_i heq
        rw [not_not] at heq
        split <;> simp [hsigned, heq]
  · rw [if_pos hsigned]
    simp [hsigned]

theorem clean_foldl_checkAnchor {named : List (Anchor × Bool)} :
    (named.foldl (checkAnchor hmac key hashes maxID) s).clean ↔
      s.clean ∧ ∀ p ∈ named, Matches hmac key hashes p.1 := by
  induction named generalizing s with
  | nil => simp
  | cons p named ih => rw [foldl_cons, ih, clean_checkAnchor, forall_mem_cons, and_assoc]

theorem pastText_eq_nil {past : List (Anchor × String)} : pastText maxID past = [] ↔ past = [] := by
  cases past with
  | nil => exact ⟨fun _ => rfl, fun _ => rfl⟩
  | cons p past => exact ⟨fun h => absurd h (cons_ne_nil _ _), fun h => by cases h⟩

theorem foundText_eq_nil {found : List String} : foundText found = [] ↔ found = [] := by
  unfold foundText
  split
  · rename_i hlen
    constructor
    · intro h
      simp at h
    · rintro rfl
      exact absurd hlen (by decide)
  · exact Iff.rfl

/-- The hashes anchors are compared with are those of the log. -/
theorem hashes_of_log {id : Int} {h : Bytes}
    (hid : kept.foldl (addKeptHash db) (anchoredHashes db) id = some h) :
    ∃ e ∈ db.events.rows, e.id = id ∧ e.hash = h := by
  refine Lib.foldl_keeps (fun hashes : Int → Option Bytes => ∀ id h, hashes id = some h →
    ∃ e ∈ db.events.rows, e.id = id ∧ e.hash = h) (fun hashes a _ hI id h hh => ?_) ?_ id h hid
  · unfold addKeptHash at hh
    split at hh
    · rename_i e he
      split at hh
      · rename_i hsame
        obtain ⟨hmem, hkey⟩ := Ordered.mem_of_get he
        exact ⟨e, hmem, hkey.trans hsame.symm, Option.some.inj hh⟩
      · exact hI id h hh
    · exact hI id h hh
  · intro id h hh
    unfold anchoredHashes at hh
    split at hh
    · obtain ⟨e, he, rfl⟩ := Option.map_eq_some_iff.mp hh
      obtain ⟨hmem, hkey⟩ := Ordered.mem_of_get he
      exact ⟨e, hmem, hkey, rfl⟩
    · cases hh

theorem checkSequence_intact (h : (checkSequence db res seqRead).intact) : res.intact := by
  unfold checkSequence at h
  split at h
  · exact h
  · split at h <;> exact h
  · split at h
    · simp [VerifyResult.intact] at h
    · exact h

/-- In an intact log the walk found no break and every kept anchor names an event that
is there. -/
theorem mem_of_intact
    (h : verify sha256 hmac db key kept seqRead = .ok res) (hintact : res.intact) :
    (walk sha256 db.events).broken = none ∧
      ∀ a ∈ kept, ∃ e ∈ db.events.rows, e.id = a.eventID ∧ e.hash = a.hash := by
  unfold verify at h
  split at h
  · cases h
  cases h
  have hclean := checkSequence_intact hintact
  rw [VerifyResult.intact, Bool.and_eq_true, decide_eq_true_eq, decide_eq_true_eq] at hclean
  obtain ⟨hwalk, hproblems⟩ := hclean
  refine ⟨hwalk, fun a ha => ?_⟩
  rw [checkAnchors, nil_append, append_eq_nil_iff, pastText_eq_nil, foundText_eq_nil] at hproblems
  have hmatches := (clean_foldl_checkAnchor.mp hproblems).2 (a, true)
    (mem_append_right _ (mem_map_of_mem ha))
  exact hashes_of_log hmatches.2

/-! ## What an anchor fixes -/

/-- The canonical forms that are hashed in a log. -/
def Db.inputs (db : Db) : List Bytes := db.events.rows.filterMap fun e => (hashInput e).toOption

/-- No two of the inputs share a sum, and none has the sum that stands for the
beginning. -/
structure CollisionFree (sha256 : Bytes → Digest) (xs : List Bytes) : Prop where
  inj : ∀ x ∈ xs, ∀ y ∈ xs, sha256 x = sha256 y → x = y
  genesis : ∀ x ∈ xs, hex (sha256 x).1 ≠ genesisHash

/-- The events the walk reads, through the one with the given id. -/
def through (events : Ordered Event.id) (id : Int) : List Event :=
  (events.after 0).filter fun e => e.id ≤ id

theorem through_eq {events : Ordered Event.id} (he : e ∈ events.rows)
    (hid : 0 < e.id) : ∃ before, through events e.id = before ++ [e] ∧
      ∃ rest, events.after 0 = before ++ [e] ++ rest := by
  have hmem : e ∈ events.after 0 := mem_filter.mpr ⟨he, decide_eq_true hid⟩
  obtain ⟨before, rest, hsplit⟩ := append_of_mem hmem
  refine ⟨before, ?_, rest, by rw [hsplit, append_assoc, singleton_append]⟩
  rw [through, hsplit]
  exact Ordered.filter_le_key (hsplit ▸ events.sorted.filter _)

/-- An event with its hash, and the bytes that were hashed. -/
theorem hashInput_of_computeHash (h : computeHash sha256 e = .ok e.hash) :
    ∃ x, hashInput e = .ok x ∧ e.hash = hex (sha256 x).1 := by
  obtain ⟨x, hx, hhash⟩ := Lib.map_eq_ok.mp h
  exact ⟨x, hx, hhash.symm⟩

theorem mem_inputs (he : e ∈ db.events.rows) (hx : hashInput e = .ok x) : x ∈ db.inputs :=
  mem_filterMap.mpr ⟨e, he, by rw [hx]; rfl⟩

theorem prevHash_of_hashInput {e' : Event} (hx : hashInput e = .ok x)
    (hx' : hashInput e' = .ok x) : e.prevHash = e'.prevHash := by
  obtain ⟨v, -, rfl⟩ := hashInput_ok hx
  obtain ⟨v', -, heq⟩ := hashInput_ok hx'
  exact (prevHash_inj heq).1

/-- Two chains that end in one hash are over the same canonical forms. -/
theorem hashInputs_eq {log : Db} (hfree : CollisionFree sha256 (db.inputs ++ log.inputs))
    {es es' : List Event} (hes : ∀ e ∈ es, e ∈ db.events.rows)
    (hes' : ∀ e ∈ es', e ∈ log.events.rows) (hchain : Chained sha256 genesisHash es)
    (hchain' : Chained sha256 genesisHash es')
    (hhead : headHash Event.hash genesisHash es = headHash Event.hash genesisHash es') :
    es.map hashInput = es'.map hashInput := by
  have hinput : ∀ e ∈ es ++ es', ∃ x ∈ db.inputs ++ log.inputs,
      hashInput e = .ok x ∧ e.hash = hex (sha256 x).1 := by
    intro e he
    have he := mem_append.mp he
    obtain ⟨x, hx, hhash⟩ := hashInput_of_computeHash (he.elim (hchain.2 e) (hchain'.2 e))
    refine ⟨x, mem_append.mpr (he.imp ?_ ?_), hx, hhash⟩
    · exact fun he => mem_inputs (hes e he) hx
    · exact fun he => mem_inputs (hes' e he) hx
  refine Linked.content_eq hashInput ?_ ?_ ?_ hchain.1 hchain'.1 hhead
  · intro e he e' he' hsame
    obtain ⟨x, hxmem, hx, hhash⟩ := hinput e (mem_append_left _ he)
    obtain ⟨x', hxmem', hx', hhash'⟩ := hinput e' (mem_append_right _ he')
    rw [hhash, hhash'] at hsame
    rw [hx, hx', hfree.inj x hxmem x' hxmem' (Subtype.ext (hex_injective hsame))]
  · intro e he e' he' hsame
    obtain ⟨x, -, hx, -⟩ := hinput e (mem_append_left _ he)
    exact prevHash_of_hashInput hx (hsame ▸ hx)
  · intro e he
    obtain ⟨x, hxmem, -, hhash⟩ := hinput e he
    rw [hhash]
    exact hfree.genesis x hxmem

/-- **What a kept anchor fixes.** Let an anchor name an event of a genuine log. Whatever
was done to the tables since, if they verify as intact with that anchor, then the
events through the one it names are those of the genuine log, in their order and with
their canonical forms, and the event itself is under its id. -/
theorem anchored_events_unchanged (log db : Db) (key : Bytes) (kept : List Anchor)
    (seqRead : SequenceRead) (res : VerifyResult) (a : Anchor) (e : Event)
    (hlog : Sound sha256 log) (he : e ∈ log.events.rows) (hid : a.eventID = e.id)
    (hhash : a.hash = e.hash) (hkept : a ∈ kept)
    (hfree : CollisionFree sha256 (db.inputs ++ log.inputs))
    (hverify : verify sha256 hmac db key kept seqRead = .ok res) (hintact : res.intact) :
    (through db.events a.eventID).map hashInput =
        (log.events.rows.filter fun e => e.id ≤ a.eventID).map hashInput ∧
      ∃ e' ∈ db.events.rows, e'.id = a.eventID ∧ hashInput e' = hashInput e := by
  obtain ⟨hwalk, hthere⟩ := mem_of_intact hverify hintact
  obtain ⟨e', he', hid', hhash'⟩ := hthere a hkept
  have hpos : 0 < e.id := hlog.ids e he
  have hpos' : 0 < e'.id := by rw [hid', hid]; exact hpos
  -- both logs up to the event that is anchored
  obtain ⟨before, hthrough, rest, hrows⟩ := through_eq he hpos
  obtain ⟨before', hthrough', rest', hrows'⟩ := through_eq he' hpos'
  have hchain : Chained sha256 genesisHash (before ++ [e]) := by
    have hall := hlog.chain
    rw [← after_zero hlog.ids, hrows] at hall
    exact (chained_append.mp hall).1
  have hchain' : Chained sha256 genesisHash (before' ++ [e']) := by
    have hall := walk_intact_iff.mp hwalk
    rw [hrows'] at hall
    exact (chained_append.mp hall).1
  have hsub : ∀ {events : Ordered Event.id} {id : Int}, ∀ r ∈ through events id,
      r ∈ events.rows := fun r hr => mem_of_mem_filter (mem_of_mem_filter hr)
  have hinputs : (before' ++ [e']).map hashInput = (before ++ [e]).map hashInput := by
    refine hashInputs_eq hfree ?_ ?_ hchain' hchain ?_
    · rw [← hthrough']; exact hsub
    · rw [← hthrough]; exact hsub
    · rw [Lib.headHash_concat, Lib.headHash_concat, hhash', hhash]
  refine ⟨?_, e', he', hid', ?_⟩
  · rw [← hid', hthrough', hinputs, ← hthrough, through, after_zero hlog.ids, hid', hid]
  · rw [map_append, map_append] at hinputs
    exact (cons.inj (append_inj' hinputs rfl).2).1

/-- Two events, with ids of the sequence left out before each. -/
def twoEvents (skipped skipped' : Nat) : Db :=
  (Lib.exec (auditStep lengthSum fun _ => lengthSum) Db.empty
    [.record ⟨eventWith 0 "", 0, skipped, lit "\x7b\x7d"⟩,
      .record ⟨eventWith 1000 "", 0, skipped', lit "\x7b\x7d"⟩]).getD .empty

/-- The anchor of the newest event. -/
def keptAnchor (db : Db) : Anchor :=
  AnchorCall.anchor (fun _ => lengthSum) ⟨lit "k", 0, 0⟩ db (db.events.newest.getD (eventWith 0 ""))

/-- The ids are not part of the canonical form: the first event under another one
verifies, and is still what it was. -/
theorem renumbered_event_unchanged :
    (through (twoEvents 2 1).events 5).map hashInput =
      ((twoEvents 0 3).events.rows.filter fun e => e.id ≤ 5).map hashInput := by
  obtain ⟨res, hres, hintact⟩ : ∃ res ∈ (verify lengthSum (fun _ => lengthSum) (twoEvents 2 1)
      (lit "k") [keptAnchor (twoEvents 0 3)] .sqlite).toOption, res.intact := by
    decide +kernel
  have hids : ∀ e ∈ (twoEvents 0 3).events.rows, 0 < e.id := by decide +kernel
  have hwalk : (walk lengthSum (twoEvents 0 3).events).broken = none := by decide +kernel
  have hsound : Sound lengthSum (twoEvents 0 3) :=
    ⟨by decide +kernel, hids, after_zero hids ▸ walk_intact_iff.mp hwalk⟩
  have hfree : CollisionFree lengthSum ((twoEvents 2 1).inputs ++ (twoEvents 0 3).inputs) :=
    ⟨by decide +kernel, by decide +kernel⟩
  have hid : (keptAnchor (twoEvents 0 3)).eventID = 5 := by decide +kernel
  have hnames : ∀ db, (keptAnchor db).eventID = (db.events.newest.getD (eventWith 0 "")).id ∧
      (keptAnchor db).hash = (db.events.newest.getD (eventWith 0 "")).hash := fun _ => ⟨rfl, rfl⟩
  have hunchanged := anchored_events_unchanged (twoEvents 0 3) (twoEvents 2 1) (lit "k")
    [keptAnchor (twoEvents 0 3)] .sqlite res (keptAnchor (twoEvents 0 3))
    ((twoEvents 0 3).events.newest.getD (eventWith 0 "")) hsound (by decide +kernel) (hnames _).1
    (hnames _).2 mem_cons_self hfree (Lib.mem_toOption.mp hres) hintact
  rw [hid] at hunchanged
  exact hunchanged.1

end Zanskar.Audit
