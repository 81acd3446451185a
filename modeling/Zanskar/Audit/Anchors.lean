import Zanskar.Audit.Log

/-!
# Anchors

`internal/audit/anchor.go`. An anchor names the newest event and its hash, with a MAC
under a key derived from the master key; HMAC-SHA256 is a parameter. Together with
the log's own calls this gives the machine of the audit store, a call a step.
-/

namespace Zanskar.Audit

open Go
open Lib (Ordered)

/-! ## Signatures -/

/-- `strconv.FormatInt(n, 10)`. -/
def formatInt (n : Int) : Bytes :=
  (if n < 0 then [ascii '-'] else []) ++ itoa n.natAbs

/-- What an anchor's MAC is over. -/
def Anchor.message (a : Anchor) : Bytes :=
  lit "zanskar-audit-anchor-v1\n" ++ formatInt a.eventID ++ lit "\n" ++ a.hash ++ lit "\n" ++
    (rfc3339Nano a.createdAt).map ascii

/-- `Anchor.mac`. -/
def Anchor.macUnder (hmac : Bytes → Bytes → Digest) (key : Bytes) (a : Anchor) : Bytes :=
  hex (hmac key a.message).1

/-- `Anchor.Signed`. -/
def Anchor.signed (hmac : Bytes → Bytes → Digest) (key : Bytes) (a : Anchor) : Bool :=
  key ≠ [] && a.macUnder hmac key = a.mac

/-! ## Writing anchors -/

/-- Why no anchor is written. -/
inductive AnchorError where
  | noKey
  | keyMismatch
  | insert
deriving DecidableEq

/-- `ErrNoAnchorKey`, `ErrAnchorKeyMismatch`; what the database itself reports is left
out. -/
def AnchorError.text : AnchorError → String
  | .noKey => "audit: the anchor key is required (derive it from the master key with AnchorKey)"
  | .keyMismatch =>
    "audit: the newest stored anchor is not signed with this gateway's key; the master key was " ++
      "rotated (restart the gateway) or the anchor was edited (run audit verify)"
  | .insert => "audit: anchor: insert: "

/-- A call of `Log.Anchor`: the key of the process, the clock, and how many ids the
sequence has skipped. -/
structure AnchorCall where
  key : Bytes
  now : Int
  skipped : Nat

/-- `Anchor{}`. -/
def Anchor.zero : Anchor := ⟨0, 0, [], zeroTime, []⟩

/-- The newest stored anchor, the zero one for none. -/
def Db.lastAnchor (db : Db) : Anchor := db.anchors.newest.getD .zero

/-- The anchor a call would write for the newest event. -/
def AnchorCall.anchor (hmac : Bytes → Bytes → Digest) (c : AnchorCall) (db : Db) (head : Event) :
    Anchor :=
  let a : Anchor := ⟨db.anchorSeq + 1 + c.skipped, head.id, head.hash, timeArg c.now, []⟩
  { a with mac := a.macUnder hmac c.key }

/-- `Log.Anchor`. -/
def anchorHead (hmac : Bytes → Bytes → Digest) (db : Db) (c : AnchorCall) :
    Except AnchorError (Anchor × Db) :=
  if c.key = [] then .error .noKey
  else
    let last := db.lastAnchor
    match db.events.newest with
    | none => .ok (last, db)
    | some head =>
      if last.eventID = head.id ∧ last.hash = head.hash ∧ last.signed hmac c.key then .ok (last, db)
      else if last.id ≠ 0 ∧ ¬last.signed hmac c.key then .error .keyMismatch
      else
        let a := c.anchor hmac db head
        match db.anchors.add a with
        | none => .error .insert
        | some anchors => .ok (a, { db with anchors, anchorSeq := a.id })

variable {a : Anchor} {db db' : Db} {hmac : Bytes → Bytes → Digest} {oldKey newKey : Bytes}
  {before rest : List Anchor}

/-- What a call of `Log.Anchor` leaves: the tables as they were, or one anchor more. -/
theorem anchorHead_ok {c : AnchorCall} (h : anchorHead hmac db c = .ok (a, db')) :
    db' = db ∨ ∃ head anchors, db.events.newest = some head ∧
      (db.lastAnchor.id = 0 ∨ db.lastAnchor.signed hmac c.key) ∧
      db.anchors.add (c.anchor hmac db head) = some anchors ∧
      db' = { db with anchors, anchorSeq := db.anchorSeq + 1 + c.skipped } := by
  unfold anchorHead at h
  split at h
  · cases h
  dsimp only at h
  split at h
  · exact .inl (Prod.mk.inj (Except.ok.inj h)).2.symm
  · rename_i head hhead
    split at h
    · exact .inl (Prod.mk.inj (Except.ok.inj h)).2.symm
    split at h
    · cases h
    · rename_i hlast
      split at h
      · cases h
      · rename_i anchors hadd
        cases h
        refine .inr ⟨head, anchors, hhead, ?_, hadd, rfl⟩
        rw [not_and_or, not_not, not_not] at hlast
        exact hlast

/-! ## Signing again -/

/-- The transaction of `ResignAnchors` in progress. -/
structure Resigning where
  anchors : Ordered Anchor.id
  resigned : Nat
  skipped : Nat

/-- `UPDATE audit_anchors SET mac = ? WHERE id = ?`. -/
def setMac (anchors : Ordered Anchor.id) (mac : Bytes) (id : Int) : Ordered Anchor.id :=
  anchors.update (fun r => r.id = id) (fun r => { r with mac }) fun _ => rfl

/-- One anchor of `ResignAnchors`. -/
def resignStep (hmac : Bytes → Bytes → Digest) (oldKey newKey : Bytes) (s : Resigning)
    (a : Anchor) : Resigning :=
  if a.signed hmac newKey then s
  else if a.signed hmac oldKey then
    { s with anchors := setMac s.anchors (a.macUnder hmac newKey) a.id, resigned := s.resigned + 1 }
  else { s with skipped := s.skipped + 1 }

/-- `Log.ResignAnchors`. -/
def resignAnchors (hmac : Bytes → Bytes → Digest) (db : Db) (oldKey newKey : Bytes) :
    Except AnchorError (Nat × Nat × Db) :=
  if oldKey = [] ∨ newKey = [] then .error .noKey
  else
    let s := db.anchors.rows.foldl (resignStep hmac oldKey newKey) ⟨db.anchors, 0, 0⟩
    .ok (s.resigned, s.skipped, { db with anchors := s.anchors })

/-- What `ResignAnchors` makes of an anchor. -/
def Anchor.resigned (hmac : Bytes → Bytes → Digest) (oldKey newKey : Bytes) (a : Anchor) : Anchor :=
  if a.signed hmac newKey then a
  else if a.signed hmac oldKey then { a with mac := a.macUnder hmac newKey }
  else a

@[simp] theorem Anchor.resigned_id (a : Anchor) : (a.resigned hmac oldKey newKey).id = a.id := by
  unfold Anchor.resigned
  split
  · rfl
  split <;> rfl

theorem setMac_rows {anchors : Ordered Anchor.id}
    (hsplit : anchors.rows = before ++ a :: rest) (mac : Bytes) :
    (setMac anchors mac a.id).rows = before ++ { a with mac } :: rest := by
  show (anchors.rows.map fun r => if decide (r.id = a.id) then { r with mac } else r) = _
  rw [hsplit, Ordered.map_at_key]
  rw [← hsplit]
  exact anchors.sorted

variable {s : Resigning}

/-- One anchor of `ResignAnchors`, where it stands among the others. -/
theorem resignStep_rows (hsplit : s.anchors.rows = before ++ a :: rest) :
    (resignStep hmac oldKey newKey s a).anchors.rows =
      before ++ a.resigned hmac oldKey newKey :: rest := by
  unfold resignStep Anchor.resigned
  split
  · exact hsplit
  split
  · exact setMac_rows hsplit _
  · exact hsplit

theorem foldl_resignStep (hsplit : s.anchors.rows = before ++ rest) :
    (rest.foldl (resignStep hmac oldKey newKey) s).anchors.rows =
      before ++ rest.map (Anchor.resigned hmac oldKey newKey) := by
  induction rest generalizing s before with
  | nil => exact hsplit
  | cons a rest ih =>
    have hstep : (resignStep hmac oldKey newKey s a).anchors.rows =
        before ++ a.resigned hmac oldKey newKey :: rest := resignStep_rows hsplit
    rw [← List.singleton_append, ← List.append_assoc] at hstep
    rw [List.foldl_cons, ih hstep, List.append_assoc]
    rfl

theorem resignAnchors_ok {resigned skipped : Nat}
    (h : resignAnchors hmac db oldKey newKey = .ok (resigned, skipped, db')) :
    oldKey ≠ [] ∧ newKey ≠ [] ∧
      db'.anchors.rows = db.anchors.rows.map (Anchor.resigned hmac oldKey newKey) ∧
      db'.events = db.events ∧ db'.anchorSeq = db.anchorSeq ∧ db'.eventSeq = db.eventSeq := by
  unfold resignAnchors at h
  split at h
  · cases h
  · rename_i hkeys
    rw [not_or] at hkeys
    obtain ⟨-, h⟩ := Prod.mk.inj (Except.ok.inj h)
    cases h
    have hsplit : (⟨db.anchors, 0, 0⟩ : Resigning).anchors.rows = [] ++ db.anchors.rows := rfl
    have hrows := @foldl_resignStep hmac oldKey newKey _ _ _ hsplit
    exact ⟨hkeys.1, hkeys.2, hrows, rfl, rfl, rfl⟩

/-! ## The machine -/

/-- A call of the store. -/
inductive AuditCall where
  | record (c : RecordCall)
  | anchor (c : AnchorCall)
  | resign (oldKey newKey : Bytes)
  | reseal

/-- The database a call leaves; a call that fails is rolled back. -/
def auditStep (sha256 : Bytes → Digest) (hmac : Bytes → Bytes → Digest) (db : Db) :
    AuditCall → Option Db
  | .record c => some (match record sha256 db c with
    | .ok (_, db) => db
    | .error _ => db)
  | .anchor c => some (match anchorHead hmac db c with
    | .ok (_, db) => db
    | .error _ => db)
  | .resign oldKey newKey => some (match resignAnchors hmac db oldKey newKey with
    | .ok (_, _, db) => db
    | .error _ => db)
  | .reseal => some (match reseal sha256 db with
    | .ok (_, db) => db
    | .error _ => db)

/-- A call succeeds, and leaves `db'`. -/
def Leaves (sha256 : Bytes → Digest) (hmac : Bytes → Bytes → Digest) (db db' : Db) :
    AuditCall → Prop
  | .record c => ∃ e, record sha256 db c = .ok (e, db')
  | .anchor c => ∃ a, anchorHead hmac db c = .ok (a, db')
  | .resign oldKey newKey => ∃ resigned skipped,
      resignAnchors hmac db oldKey newKey = .ok (resigned, skipped, db')
  | .reseal => ∃ res, reseal sha256 db = .ok (res, db')

/-- A step changes nothing or is a call that succeeded. -/
theorem auditStep_cases {sha256 : Bytes → Digest} {l : AuditCall}
    (h : auditStep sha256 hmac db l = some db') : db' = db ∨ Leaves sha256 hmac db db' l := by
  cases l with
  | record | anchor | reseal =>
    cases h
    split
    · rename_i hcall
      exact .inr ⟨_, hcall⟩
    · exact .inl rfl
  | resign oldKey newKey =>
    cases h
    split
    · rename_i hcall
      exact .inr ⟨_, _, hcall⟩
    · exact .inl rfl

end Zanskar.Audit
