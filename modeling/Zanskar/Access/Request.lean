import Zanskar.Go.Time
import Zanskar.Lib.Table
import Zanskar.Protocol

/-!
# Access requests (`internal/access/access.go`, `internal/access/repo.go`)

A just-in-time access request and, once approved, the time-bounded grant it
becomes. The repository's statements are functions on the table
`access_requests`. Each of them is one atomic step of whatever runs them.

Instants are stored through `store.TimeArg`, which cuts them to the microsecond
(`timeArg`), so a comparison in SQL compares cut instants. An id that is not set
is stored as NULL, which equals nothing (`sameID`).
-/

namespace Zanskar

open Go

/-- The lifecycle state of an access request. -/
inductive Status where
  | pending
  | approved
  | denied
  | expired
  | revoked
  deriving DecidableEq

/-- An access request. Exactly one of `targetID` and `asgID` is set. -/
structure Request where
  id : String
  userID : String
  policyID : String
  grantID : String
  targetID : String
  asgID : String
  protocol : Protocol
  reason : String
  requestedMinutes : Int
  /-- What the approver granted; `none` until a decision. -/
  approvedMinutes : Option Int
  /-- The active grant this request asks to extend, or empty. -/
  extendsRequestID : String
  status : Status
  approverUserID : String
  decisionNote : String
  decidedAt : Option Int
  expiresAt : Option Int
  createdAt : Int
  updatedAt : Int
  deriving DecidableEq

/-- `Active`: an approved grant still within its window. -/
def Request.active (r : Request) (now : Int) : Bool :=
  r.status = .approved && match r.expiresAt with
    | none => false
    | some expires => now < expires

/-- A column compared with `nullStr(id)`: an id that is not set is NULL, and
equals nothing. -/
def sameID (column id : String) : Bool := id ≠ "" && column = id

/-- The table `access_requests`. -/
abbrev Requests := Lib.Table Request.id

namespace Requests

/-! ## Reads -/

/-- `HasActiveGrant`: the user holds an approved, unexpired grant for the target
(or group) and protocol. -/
def hasActiveGrant (tbl : Requests) (userID targetID asgID : String) (protocol : Protocol)
    (now : Int) : Bool :=
  tbl.rows.any fun r =>
    r.userID = userID && r.protocol = protocol && r.status = .approved &&
      (match r.expiresAt with
        | none => false
        | some expires => timeArg now < expires) &&
      (sameID r.targetID targetID || sameID r.asgID asgID)

/-- The WHERE clause of `Open`: pending, or approved and still inside its
window. -/
def opens (userID targetID asgID : String) (protocol : Protocol) (now : Int) (r : Request) : Bool :=
  r.userID = userID && r.protocol = protocol &&
    (sameID r.targetID targetID || sameID r.asgID asgID) &&
    (r.status = .pending || (r.status = .approved && match r.expiresAt with
      | none => false
      | some expires => timeArg now < expires))

/-- `ORDER BY created_at DESC LIMIT 1`. -/
def newest (rows : List Request) : Option Request :=
  rows.foldl (fun best r =>
    match best with
    | none => some r
    | some b => if b.createdAt < r.createdAt then some r else some b) none

/-- `Open`: the request that already occupies the (user, target or group,
protocol) tuple. -/
def openRequest (tbl : Requests) (userID targetID asgID : String) (protocol : Protocol)
    (now : Int) : Option Request :=
  newest (tbl.rows.filter (opens userID targetID asgID protocol now))

/-! ## Writes -/

/-- `Decide` on the row it finds: the request was pending. -/
def decided (now : Int) (approverID : String) (status : Status) (note : String)
    (expiresAt : Option Int) (approvedMinutes : Int) (r : Request) : Request :=
  { r with status := status, approverUserID := approverID, decisionNote := note
           decidedAt := some (timeArg now), expiresAt := expiresAt.map timeArg
           approvedMinutes := if approvedMinutes > 0 then some approvedMinutes else none
           updatedAt := timeArg now }

/-- `Decide`: moves a pending request to approved or denied. -/
def decide (tbl : Requests) (now : Int) (id approverID : String) (status : Status)
    (note : String) (expiresAt : Option Int) (approvedMinutes : Int) : Requests :=
  tbl.update (fun r => r.id = id && r.status = .pending)
    (decided now approverID status note expiresAt approvedMinutes) fun _ => rfl

/-- `Revoke`: ends an approved grant early. -/
def revoke (tbl : Requests) (now : Int) (id note : String) : Requests :=
  tbl.update (fun r => r.id = id && r.status = .approved)
    (fun r => { r with status := .revoked, decisionNote := note, updatedAt := timeArg now })
    fun _ => rfl

/-- The WHERE clause of `CloseForTargetTx`, with the column `targetColumn`
picks. -/
def closes (targetID asgID : String) (r : Request) : Bool :=
  (r.status = .pending || r.status = .approved) &&
    if targetID ≠ "" then r.targetID = targetID
    else sameID r.asgID asgID

/-- `CloseForTargetTx`: revokes the pending and approved requests for a target
or group being deleted. -/
def closeForTargetTx (tbl : Requests) (now : Int) (targetID asgID note : String) : Requests :=
  tbl.update (closes targetID asgID)
    (fun r => { r with status := .revoked, decisionNote := note, updatedAt := timeArg now })
    fun _ => rfl

/-- The WHERE clause of `DueForExpiry` and `ExpireDue`. -/
def due (now : Int) (r : Request) : Bool :=
  r.status = .approved && match r.expiresAt with
    | none => false
    | some expires => expires ≤ timeArg now

/-- `ExpireDue`: approved grants whose window has passed become expired. -/
def expireDue (tbl : Requests) (now : Int) : Requests :=
  tbl.update (due now) (fun r => { r with status := .expired, updatedAt := timeArg now })
    fun _ => rfl

end Requests

end Zanskar
