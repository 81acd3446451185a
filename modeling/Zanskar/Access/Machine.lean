import Zanskar.Access.Create
import Zanskar.Lib.Machine

/-!
# The statements on access requests, in any order (`internal/access`)

The handlers of `internal/access/handlers.go`, the sweeper and the deletion of a
target all work on one table, each through statements that are atomic on their
own and not together. This is the machine that takes them in any order:

- `create` reads (`check`) and then inserts (`insert`);
- `approve` reads the request (`approveGet`), then the policies and the grant it
  extends (`approveTerms`), and then decides (`approve`);
- `deny`, `revoke`, the closing of a deleted target's requests (`close`) and the
  expiry sweep (`expire`) are one write each.

A call between two of its statements is kept in the state with what it has read.
What a label does to one row is a function (`AccessLabel.onRow`), and
`accessStep_rows` says that a step does this to every row and, for an insert,
adds one; what is proved of every interleaving is proved from that.
-/

namespace Zanskar

open Go List

/-! ## Approving -/

/-- The optional body of approve, deny and revoke. -/
structure DecisionInput where
  note : String
  /-- Overrides the requested duration on approve; zero keeps it. -/
  minutes : Int

/-- `steppedUp`: refuses an approval, while the setting asks for it, from an
approver who has an authenticator and has not proved it recently. Without the
lookup (`none`) every approver counts as having one. -/
def steppedUp (asks fresh : Bool) (enrolled : Option Bool) : Option Answer :=
  if !asks || fresh then none
  else if enrolled = some false then none
  else some ⟨403, "step_up_required",
    "prove your authenticator first: approving access asks for a recent code"⟩

/-- `approve` up to its second read: the request, which must be pending. -/
def approveGet (tbl : Requests) (id : String) (asks fresh : Bool) (enrolled : Option Bool) :
    Except Answer Request :=
  match tbl.get id with
  | none => .error ⟨404, "not_found", "access request not found"⟩
  | some cur =>
    if cur.status ≠ .pending then .error ⟨409, "conflict", "request is not pending"⟩
    else
      match steppedUp asks fresh enrolled with
      | some answer => .error answer
      | none => .ok cur

/-- An approval about to be written. -/
structure Approval where
  requestID : String
  approverID : String
  note : String
  minutes : Int
  now : Int
  expires : Int
  deriving DecidableEq

/-- The expiry of the grant `cur` extends, read from the table, while that grant
is active. -/
def extendedExpiry (tbl : Requests) (cur : Request) (now : Int) : Option Int :=
  if cur.extendsRequestID = "" then none
  else
    match tbl.get cur.extendsRequestID with
    | none => none
    | some prev => if prev.active now then prev.expiresAt else none

/-- The minutes an approval grants: the approver's, or the ones asked for. -/
def grantedMinutes (cur : Request) (d : DecisionInput) : Except Answer Int :=
  if d.minutes = 0 then .ok cur.requestedMinutes
  else if d.minutes < 1 then .error (badRequest "minutes must be at least 1")
  else .ok d.minutes

/-- `approve` up to its write: eligibility and the cap by the policies as they
stand now, and the base the grant runs from. -/
def approveTerms (tbl : Requests) (cur : Request) (inv : Inventory) (pols : List Policy)
    (approverID : String) (d : DecisionInput) (now : Int) : Except Answer Approval :=
  match subject inv cur.targetID cur.asgID with
  | .error answer => .error answer
  | .ok ref =>
    match eligible pols ref cur.protocol with
    | none => .error ⟨409, "not_eligible",
        "the requester is no longer eligible: no approval-gated policy of theirs covers this target and protocol"⟩
    | some elig =>
      match grantedMinutes cur d with
      | .error answer => .error answer
      | .ok granted =>
        if granted > elig.maxMinutes then
          .error ⟨400, "duration_too_long", "granted duration exceeds the policy maximum of " ++
            toString elig.maxMinutes ++ " minutes"⟩
        else
          .ok
            { requestID := cur.id, approverID := approverID, note := d.note
              minutes := granted, now := now
              expires := (extendedExpiry tbl cur now).getD now + minutes granted }

/-! ## The machine -/

/-- The table, and the calls between two of their statements. -/
structure AccessState where
  requests : Requests
  /-- `create` calls that have read and not yet inserted. -/
  checked : List Draft
  /-- `approve` calls with the request they read. -/
  reading : List Request
  /-- `approve` calls about to decide. -/
  approvals : List Approval

/-- An empty table and no calls. -/
def AccessState.init : AccessState := ⟨.empty, [], [], []⟩

/-- The statements. -/
inductive AccessLabel where
  | check (inv : Inventory) (pols : List Policy) (userID : String) (input : CreateInput)
      (now : Int)
  | insert (d : Draft) (id : String) (now : Int)
  | approveGet (id : String) (asks fresh : Bool) (enrolled : Option Bool)
  | approveTerms (cur : Request) (inv : Inventory) (pols : List Policy) (approverID : String)
      (d : DecisionInput) (now : Int)
  | approve (a : Approval) (at_ : Int)
  | deny (id approverID note : String) (at_ : Int)
  | revoke (id note : String) (at_ : Int)
  | close (targetID asgID note : String) (at_ : Int)
  | expire (now : Int)

/-- One statement. A call that is refused is over, and so is one whose insert
fails. -/
def accessStep (s : AccessState) : AccessLabel → Option AccessState
  | .check inv pols userID input now =>
    match createCheck inv pols userID input now s.requests with
    | .error _ => some s
    | .ok d => some { s with checked := d :: s.checked }
  | .insert d id now =>
    if d ∈ s.checked then
      some { s with
        requests := (s.requests.insert (d.request id now)).getD s.requests
        checked := s.checked.erase d }
    else none
  | .approveGet id asks fresh enrolled =>
    match Zanskar.approveGet s.requests id asks fresh enrolled with
    | .error _ => some s
    | .ok cur => some { s with reading := cur :: s.reading }
  | .approveTerms cur inv pols approverID d now =>
    if cur ∈ s.reading then
      match Zanskar.approveTerms s.requests cur inv pols approverID d now with
      | .error _ => some { s with reading := s.reading.erase cur }
      | .ok a => some { s with reading := s.reading.erase cur, approvals := a :: s.approvals }
    else none
  | .approve a at_ =>
    if a ∈ s.approvals then
      some { s with
        requests := s.requests.decide at_ a.requestID a.approverID .approved a.note
          (some a.expires) a.minutes
        approvals := s.approvals.erase a }
    else none
  | .deny id approverID note at_ =>
    some { s with requests := s.requests.decide at_ id approverID .denied note none 0 }
  | .revoke id note at_ => some { s with requests := s.requests.revoke at_ id note }
  | .close targetID asgID note at_ =>
    some { s with requests := s.requests.closeForTargetTx at_ targetID asgID note }
  | .expire now => some { s with requests := s.requests.expireDue now }

/-! ## What one statement does to the rows -/

/-- A statement's effect on one row. -/
def AccessLabel.onRow (l : AccessLabel) (r : Request) : Request :=
  match l with
  | .approve a at_ =>
    if r.id = a.requestID && r.status = .pending then
      Requests.decided at_ a.approverID .approved a.note (some a.expires) a.minutes r
    else r
  | .deny id approverID note at_ =>
    if r.id = id && r.status = .pending then
      Requests.decided at_ approverID .denied note none 0 r
    else r
  | .revoke id note at_ =>
    if r.id = id && r.status = .approved then
      { r with status := .revoked, decisionNote := note, updatedAt := timeArg at_ }
    else r
  | .close targetID asgID note at_ =>
    if Requests.closes targetID asgID r then
      { r with status := .revoked, decisionNote := note, updatedAt := timeArg at_ }
    else r
  | .expire now =>
    if Requests.due now r then { r with status := .expired, updatedAt := timeArg now } else r
  | _ => r

variable {l : AccessLabel} {s s' : AccessState} {r r' : Request}

/-- **What one statement does**: its effect on every row, and, for an insert that
succeeds, one row more. -/
theorem accessStep_rows (h : accessStep s l = some s') :
    s'.requests.rows = s.requests.rows.map l.onRow ∨
      ∃ d id now, l = .insert d id now ∧ d ∈ s.checked ∧
        s'.requests.rows = s.requests.rows.map l.onRow ++ [d.request id now] ∧
        id ∉ s.requests.rows.map Request.id := by
  have hsame : ∀ rows : List Request, rows = rows.map fun r => r := fun rows => by simp
  cases l <;> simp only [accessStep] at h
  case insert d id now =>
    split at h
    case isFalse => cases h
    rename_i hd
    cases h
    unfold Lib.Table.insert
    split
    · exact .inl (hsame _)
    · rename_i hfresh
      exact .inr ⟨d, id, now, rfl, hd, congrArg (· ++ [d.request id now]) (hsame _), hfresh⟩
  case check | approveGet =>
    split at h <;> cases h <;> exact .inl (hsame _)
  case approveTerms cur inv pols approverID d now =>
    split at h
    case isFalse => cases h
    split at h <;> cases h <;> exact .inl (hsame _)
  case approve a at_ =>
    split at h
    case isFalse => cases h
    cases h
    exact .inl rfl
  all_goals
    cases h
    exact .inl rfl

theorem mem_of_approveGet {tbl : Requests} {id : String} {asks fresh : Bool}
    {enrolled : Option Bool} {cur : Request}
    (h : approveGet tbl id asks fresh enrolled = .ok cur) : cur ∈ tbl.rows := by
  unfold approveGet at h
  split at h
  · cases h
  rename_i r hget
  split at h
  · cases h
  split at h
  · cases h
  cases h
  exact (Lib.Table.mem_of_get hget).1

/-- Where the calls of a state come from: each was under way before the statement,
or the statement `l` began it, for an approval's second half with what the first
half read. -/
structure CallsFrom (l : AccessLabel) (s s' : AccessState) : Prop where
  checked : ∀ d ∈ s'.checked, d ∈ s.checked ∨
    ∃ inv pols userID input now, createCheck inv pols userID input now s.requests = .ok d
  reading : ∀ cur ∈ s'.reading, cur ∈ s.reading ∨ cur ∈ s.requests.rows
  approvals : ∀ a ∈ s'.approvals, a ∈ s.approvals ∨ ∃ cur ∈ s.reading,
    ∃ inv pols approverID d now, l = .approveTerms cur inv pols approverID d now ∧
      approveTerms s.requests cur inv pols approverID d now = .ok a

/-- **What one statement does to the calls.** -/
theorem accessStep_calls (h : accessStep s l = some s') : CallsFrom l s s' := by
  cases l <;> simp only [accessStep] at h
  case check inv pols userID input now =>
    split at h
    · cases h
      exact ⟨fun _ => .inl, fun _ => .inl, fun _ => .inl⟩
    · rename_i d hd
      cases h
      exact ⟨forall_mem_cons.mpr ⟨.inr ⟨inv, pols, userID, input, now, hd⟩, fun _ => .inl⟩,
        fun _ => .inl, fun _ => .inl⟩
  case insert d id now =>
    split at h
    case isFalse => cases h
    cases h
    exact ⟨fun d' hd' => .inl (mem_of_mem_erase hd'), fun _ => .inl, fun _ => .inl⟩
  case approveGet id asks fresh enrolled =>
    split at h
    · cases h
      exact ⟨fun _ => .inl, fun _ => .inl, fun _ => .inl⟩
    · rename_i cur hcur
      cases h
      exact ⟨fun _ => .inl, forall_mem_cons.mpr ⟨.inr (mem_of_approveGet hcur), fun _ => .inl⟩,
        fun _ => .inl⟩
  case approveTerms cur inv pols approverID d now =>
    split at h
    case isFalse => cases h
    rename_i hcur
    have hreading : ∀ c ∈ s.reading.erase cur, c ∈ s.reading ∨ c ∈ s.requests.rows :=
      fun c hc => .inl (mem_of_mem_erase hc)
    split at h
    · cases h
      exact ⟨fun _ => .inl, hreading, fun _ => .inl⟩
    · rename_i a ha
      cases h
      exact ⟨fun _ => .inl, hreading, forall_mem_cons.mpr
        ⟨.inr ⟨cur, hcur, inv, pols, approverID, d, now, rfl, ha⟩, fun _ => .inl⟩⟩
  case approve a at_ =>
    split at h
    case isFalse => cases h
    cases h
    exact ⟨fun _ => .inl, fun _ => .inl, fun b hb => .inl (mem_of_mem_erase hb)⟩
  all_goals
    -- the other statements are whole calls
    cases h
    exact ⟨fun _ => .inl, fun _ => .inl, fun _ => .inl⟩

/-- A statement that ends a grant, or a request still open: a revocation of it,
or the closing of its target or group. -/
def AccessLabel.Withdraws (r : Request) : AccessLabel → Prop
  | .revoke id _ _ => r.id = id
  | .close targetID asgID _ _ =>
    (if targetID ≠ "" then decide (r.targetID = targetID) else sameID r.asgID asgID) = true
  | _ => False

/-- What a statement can make of a row: leave it, decide it when it is pending,
or end it when it is open. -/
inductive Fate (l : AccessLabel) (r : Request) : Request → Prop
  | kept (h : r.status = .approved → ¬l.Withdraws r) : Fate l r r
  | approved (a : Approval) (at_ : Int) (hl : l = .approve a at_) (hid : r.id = a.requestID)
      (hp : r.status = .pending) :
      Fate l r
        (Requests.decided at_ a.approverID .approved a.note (some a.expires) a.minutes r)
  | denied (approverID note : String) (at_ : Int) (hp : r.status = .pending) :
      Fate l r (Requests.decided at_ approverID .denied note none 0 r)
  | ended (status : Status) (note : String) (at_ : Int)
      (hs : status = .revoked ∨ status = .expired)
      (hopen : r.status = .pending ∨ r.status = .approved) :
      Fate l r { r with status := status, decisionNote := note, updatedAt := at_ }

theorem AccessLabel.onRow_fate (l : AccessLabel) (r : Request) : Fate l r (l.onRow r) := by
  cases l <;> simp only [onRow]
  case approve a at_ =>
    split
    · rename_i h
      rw [Bool.and_eq_true, decide_eq_true_eq, decide_eq_true_eq] at h
      exact .approved a at_ rfl h.1 h.2
    · exact .kept fun _ h => h
  case deny id approverID note at_ =>
    split
    · rename_i h
      rw [Bool.and_eq_true, decide_eq_true_eq, decide_eq_true_eq] at h
      exact .denied approverID note at_ h.2
    · exact .kept fun _ h => h
  case revoke id note at_ =>
    split
    · rename_i h
      rw [Bool.and_eq_true, decide_eq_true_eq, decide_eq_true_eq] at h
      exact .ended .revoked note (timeArg at_) (.inl rfl) (.inr h.2)
    · rename_i h
      exact .kept fun hs hw => h (by simp [hs, show r.id = id from hw])
  case close targetID asgID note at_ =>
    split
    · rename_i h
      rw [Requests.closes, Bool.and_eq_true, Bool.or_eq_true, decide_eq_true_eq,
        decide_eq_true_eq] at h
      exact .ended .revoked note (timeArg at_) (.inl rfl) h.1
    · rename_i h
      refine .kept fun hs hw => h ?_
      rw [Requests.closes, Bool.and_eq_true]
      exact ⟨by simp [hs], hw⟩
  case expire now =>
    split
    · rename_i h
      rw [Requests.due, Bool.and_eq_true, decide_eq_true_eq] at h
      exact .ended .expired r.decisionNote (timeArg now) (.inr rfl) (.inr h.1)
    · exact .kept fun _ h => h
  all_goals exact .kept fun _ h => h

/-- What no statement writes on a row that is there. -/
theorem Fate.fixed (h : Fate l r r') :
    r'.id = r.id ∧ r'.tuple = r.tuple ∧ r'.createdAt = r.createdAt ∧
      r'.requestedMinutes = r.requestedMinutes ∧
      r'.extendsRequestID = r.extendsRequestID := by
  cases h <;> exact ⟨rfl, rfl, rfl, rfl, rfl⟩

theorem Fate.pending (h : Fate l r r') (hp : r'.status = .pending) : r.status = .pending := by
  cases h with
  | kept => exact hp
  | approved | denied => cases hp
  | ended status note at_ hs =>
    rcases hs with rfl | rfl <;> cases hp

/-! ## A policy to run it with -/

/-- A policy that makes `u` eligible for ssh on the host `h`, by approval. -/
def hourPolicy : Policy where
  id := "p"
  name := "p"
  description := ""
  enabled := true
  subjects := [⟨.user, "u"⟩]
  grants := [{
    id := "g"
    kind := .host
    targets := [⟨"h", [.ssh]⟩]
    tags := none
    access := .approval
    signIn := .target
    requireMFA := false
    allowClipboard := false
    allowFileTransfer := false
    allowDevTools := false
    idleTimeoutMinutes := 15
    maxSessionMinutes := none
    timeWindows := []
    retentionDays := none }]
  createdBy := ""
  createdAt := 0
  updatedAt := 0
  reviewedAt := none
  reviewedBy := ""

end Zanskar
