import Zanskar.Access.Request
import Zanskar.Httpx
import Zanskar.Policy.Basic

/-!
# Asking for access (`internal/access/handlers.go`, `create`)

A call of `create` makes two statements on the table of requests: it reads the
request that already occupies its (user, target or group, protocol) tuple
(`Open`), and, unless that refuses it, inserts a pending one (`Create`). The
first, with every check before it, is `createCheck`; what it hands to the second
is a `Draft`.
-/

namespace Zanskar

open Go List

/-! ## Eligibility -/

/-- The live targets and autoscaling groups a request may name. -/
structure Inventory where
  /-- A target's kind and tags. -/
  target : String → Option (Kind × TagMap)
  /-- An autoscaling group's tags. -/
  group : String → Option TagMap

/-- The body of a request for access. -/
structure CreateInput where
  targetID : String
  asgID : String
  protocol : Protocol
  reason : String
  minutes : Int
  extendsRequestID : String

/-- `subject`: the target or group a request names, as its eligibility is judged
on. -/
def subject (inv : Inventory) (targetID asgID : String) : Except Answer TargetRef :=
  if targetID ≠ "" then
    match inv.target targetID with
    | none => .error ⟨404, "not_found", "target not found"⟩
    | some (kind, tags) => .ok ⟨kind, targetID, "", tags⟩
  else
    match inv.group asgID with
    | none => .error ⟨404, "not_found", "autoscaling group not found"⟩
    | some tags => .ok ⟨.autoscaling, "", asgID, tags⟩

/-- Caps a grant when the eligible policy sets no maximum of its own. -/
def defaultMaxGrantMinutes : Int := 480

/-- What admits a request: the approval grant whose maximum caps it. -/
structure Eligibility where
  policy : Policy
  grant : Grant
  maxMinutes : Int

/-- The cap one grant sets. -/
def Grant.most (g : Grant) : Int :=
  match g.maxSessionMinutes with
  | some max => if max > 0 then max else defaultMaxGrantMinutes
  | none => defaultMaxGrantMinutes

/-- The body of the inner loop of `eligible`. -/
def eligibleGrant (ref : TargetRef) (proto : Protocol) (p : Policy)
    (best : Option Eligibility) (g : Grant) : Option Eligibility :=
  if g.access ≠ .approval ∨ g.covers ref proto = false then best
  else
    match best with
    | none => some ⟨p, g, g.most⟩
    | some b => if g.most < b.maxMinutes then some ⟨p, g, g.most⟩ else some b

/-- `eligible`: of the approval grants that cover the target and protocol, the
one with the shortest maximum; ties go to the first. -/
def eligible (pols : List Policy) (ref : TargetRef) (proto : Protocol) : Option Eligibility :=
  pols.foldl (fun best p =>
    if p.enabled = false then best
    else p.grants.foldl (eligibleGrant ref proto p) best) none

/-! ## The two statements of a call -/

/-- The (user, target or group, protocol) tuple of a request. -/
structure Tuple where
  userID : String
  targetID : String
  asgID : String
  protocol : Protocol
  deriving DecidableEq

/-- A request about to be inserted. -/
structure Draft where
  userID : String
  policyID : String
  grantID : String
  targetID : String
  asgID : String
  protocol : Protocol
  reason : String
  requestedMinutes : Int
  extendsRequestID : String
  deriving DecidableEq

def Draft.tuple (d : Draft) : Tuple := ⟨d.userID, d.targetID, d.asgID, d.protocol⟩

def Request.tuple (r : Request) : Tuple := ⟨r.userID, r.targetID, r.asgID, r.protocol⟩

/-- The row `Create` inserts. -/
def Draft.request (d : Draft) (id : String) (now : Int) : Request where
  id := id
  userID := d.userID
  policyID := d.policyID
  grantID := d.grantID
  targetID := d.targetID
  asgID := d.asgID
  protocol := d.protocol
  reason := d.reason
  requestedMinutes := d.requestedMinutes
  approvedMinutes := none
  extendsRequestID := d.extendsRequestID
  status := .pending
  approverUserID := ""
  decisionNote := ""
  decidedAt := none
  expiresAt := none
  createdAt := timeArg now
  updatedAt := timeArg now

/-- What the open request of the tuple, if any, answers. -/
def occupied (open_ : Option Request) (extendsRequestID : String) : Option Answer :=
  match open_ with
  | some r =>
    if r.status = .pending then
      some ⟨409, "duplicate_request",
        "you already have a pending request for this target and protocol; wait for the decision"⟩
    else if extendsRequestID = "" then
      some ⟨409, "already_granted", "you already hold access to this target until " ++
        rfc3339 (r.expiresAt.getD 0) ++ "; extend that grant instead"⟩
    else if r.id ≠ extendsRequestID then
      some ⟨409, "not_extendable",
        "that grant is not active for this target and protocol; request access afresh"⟩
    else none
  | none =>
    if extendsRequestID ≠ "" then
      some ⟨409, "not_extendable",
        "that grant is not active for this target and protocol; request access afresh"⟩
    else none

/-- `create` up to its insert: the checks of the input, eligibility, and the
read of the tuple's open request. -/
def createCheck (inv : Inventory) (pols : List Policy) (userID : String)
    (input : CreateInput) (now : Int) (tbl : Requests) : Except Answer Draft :=
  let reason := trimSpace input.reason
  if (input.targetID = "") = (input.asgID = "") ∨ input.protocol.text = "" then
    .error (badRequest "protocol and exactly one of target_id and asg_id are required")
  else if reason = "" then .error (badRequest "a reason is required")
  else if input.minutes < 1 then .error (badRequest "minutes must be at least 1")
  else
    match subject inv input.targetID input.asgID with
    | .error answer => .error answer
    | .ok ref =>
      match eligible pols ref input.protocol with
      | none => .error ⟨403, "not_eligible",
          "no approval-gated policy makes you eligible for this target and protocol"⟩
      | some elig =>
        if input.minutes > elig.maxMinutes then
          .error ⟨400, "duration_too_long",
            "requested duration exceeds the policy maximum of " ++
              toString elig.maxMinutes ++ " minutes"⟩
        else
          match occupied (tbl.openRequest userID ref.id ref.asgID input.protocol now)
              input.extendsRequestID with
          | some answer => .error answer
          | none => .ok
              { userID := userID, policyID := elig.policy.id, grantID := elig.grant.id
                targetID := ref.id, asgID := ref.asgID, protocol := input.protocol
                reason := reason, requestedMinutes := input.minutes
                extendsRequestID := input.extendsRequestID }

/-! ## What the check lets through -/

/-- Exactly one of the target and the group is set. -/
def Tuple.Placed (t : Tuple) : Prop := (t.targetID = "") ≠ (t.asgID = "")

/-- On placed tuples, the WHERE clause asks for the tuple itself. -/
theorem sameID_iff {t t' : Tuple} (h : t.Placed) (h' : t'.Placed) :
    t = t' ↔ t.userID = t'.userID ∧ t.protocol = t'.protocol ∧
      (sameID t.targetID t'.targetID || sameID t.asgID t'.asgID) := by
  obtain ⟨u, target, asg, p⟩ := t
  obtain ⟨u', target', asg', p'⟩ := t'
  simp only [Tuple.Placed, ne_eq, eq_iff_iff] at h h'
  simp only [Tuple.mk.injEq, sameID, Bool.or_eq_true, Bool.and_eq_true, decide_eq_true_eq]
  grind

/-- The newest row is the first of those with the latest time. -/
theorem newest_eq_argmax (rows : List Request) :
    Requests.newest rows = rows.argmax Request.createdAt := by
  unfold Requests.newest argmax
  congr
  funext best r
  cases best <;> rfl

variable {inv : Inventory}

/-- The ref of what is asked for has the ids asked for: one of them is empty, and
stays so. -/
theorem subject_ids {targetID asgID : String} {ref : TargetRef}
    (hxor : (targetID = "") ≠ (asgID = "")) (href : subject inv targetID asgID = .ok ref) :
    ref.id = targetID ∧ ref.asgID = asgID := by
  unfold subject at href
  by_cases htarget : targetID = ""
  · rw [if_neg (not_not.mpr htarget)] at href
    split at href <;> cases href
    exact ⟨htarget.symm, rfl⟩
  · have hasg : asgID = "" := by
      by_contra hne
      exact hxor (by simp [htarget, hne])
    rw [if_pos htarget] at href
    split at href <;> cases href
    exact ⟨rfl, hasg.symm⟩

/-- The input that passes names exactly one of a target and a group, the draft
has its tuple and asks for at least a minute, and the tuple's open request did
not refuse it. -/
theorem createCheck_ok {pols : List Policy} {userID : String}
    {input : CreateInput} {now : Int} {tbl : Requests} {d : Draft}
    (h : createCheck inv pols userID input now tbl = .ok d) :
    d.tuple.Placed ∧
      d.tuple = ⟨userID, input.targetID, input.asgID, input.protocol⟩ ∧
      1 ≤ d.requestedMinutes ∧
      occupied (tbl.openRequest userID input.targetID input.asgID input.protocol now)
        input.extendsRequestID = none := by
  unfold createCheck at h
  simp only at h
  split_ifs at h with hplace hreason hmin
  split at h
  · cases h
  rename_i ref href
  split at h
  · cases h
  split_ifs at h
  split at h
  · cases h
  rename_i hocc
  cases h
  have hxor : (input.targetID = "") ≠ (input.asgID = "") := fun he => hplace (Or.inl he)
  obtain ⟨hid, hasg⟩ := subject_ids hxor href
  rw [hid, hasg] at hocc
  refine ⟨?_, ?_, ?_, hocc⟩
  · show (ref.id = "") ≠ (ref.asgID = "")
    rwa [hid, hasg]
  · show Tuple.mk userID ref.id ref.asgID input.protocol = _
    rw [hid, hasg]
  · show 1 ≤ input.minutes
    omega

end Zanskar
