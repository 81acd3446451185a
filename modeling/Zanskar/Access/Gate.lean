import Zanskar.Connect.Endpoint
import Zanskar.Policy.Terms

/-!
# The gate (`internal/access/gate.go`)

The admission every session passes, when it is asked for and again when it
starts: the caller's policies must allow the protocol on the target now, an
approval-gated grant must be live, and a policy that requires an authenticator
must find one enrolled. `admitLive` is the same gate for a session already
running, with every time window counted as open.

What the gate asks of the stores is a field of `Gate`, so that each group of
results says what stands behind it; a failure of a store is not a refusal.
-/

namespace Zanskar

/-- The refusal codes, as the API answers them. -/
inductive GateCode where
  | policyDenied
  | approvalRequired
  | mfaRequired
  deriving DecidableEq

def GateCode.text : GateCode → String
  | .policyDenied => "policy_denied"
  | .approvalRequired => "approval_required"
  | .mfaRequired => "mfa_required_by_policy"

structure Gate where
  /-- `Policies.ForUser`. -/
  forUser : String → Except Failure (List Policy)
  /-- `Grants.HasActiveGrant` by user, target, group, protocol and instant;
  `none` leaves every approval-gated policy standing. -/
  grants : Option (String → String → String → Protocol → Int → Except Failure Bool)
  /-- Whether the user has an authenticator; `none` skips the check. -/
  mfaEnrolled : Option (String → Except Failure Bool)

/-- What the gate returns: the decision, with the code and message of a
refusal. -/
structure Admission where
  d : Decision
  refusal : Option (GateCode × String)

namespace Gate

/-- The approval check, passed by a decision that needs none. -/
def granted (g : Gate) (d : Decision) (userID : String) (ref : TargetRef) (proto : Protocol)
    (now : Int) : Except Failure Bool :=
  match g.grants with
  | none => .ok true
  | some hasActiveGrant =>
    if d.requireApproval then hasActiveGrant userID ref.id ref.asgID proto now else .ok true

/-- The authenticator check, passed by a decision that asks for none. -/
def enrolled (g : Gate) (d : Decision) (userID : String) : Except Failure Bool :=
  match g.mfaEnrolled with
  | none => .ok true
  | some has => if d.requireMFA then has userID else .ok true

/-- The checks of `admit` on a decision. -/
def check (g : Gate) (d : Decision) (userID : String) (ref : TargetRef) (proto : Protocol)
    (now : Int) : Except Failure Admission :=
  if d.allowed = false then .ok ⟨d, some (.policyDenied, d.reason)⟩
  else
    match g.granted d userID ref proto now with
    | .error e => .error e
    | .ok false =>
      .ok ⟨d, some (.approvalRequired, "access to this target requires an approved request")⟩
    | .ok true =>
      match g.enrolled d userID with
      | .error e => .error e
      | .ok false =>
        .ok ⟨d, some (.mfaRequired, "this policy requires an enrolled authenticator")⟩
      | .ok true => .ok ⟨d, none⟩

/-- `admit`, with windows honoured or not. -/
def admitWith (g : Gate) (zones : Zones) (windows : Bool) (userID : String) (ref : TargetRef)
    (proto : Protocol) (now : Int) : Except Failure Admission :=
  match g.forUser userID with
  | .error e => .error e
  | .ok pols => g.check (evaluate zones pols ref proto now windows) userID ref proto now

/-- `Admit`, at the instant, with windows honoured. -/
def admitNow (g : Gate) (zones : Zones) (userID : String) (ref : TargetRef) (proto : Protocol)
    (now : Int) : Except Failure Admission :=
  g.admitWith zones true userID ref proto now

/-- `AdmitLive`, with every window counted as open. -/
def admitLive (g : Gate) (zones : Zones) (userID : String) (ref : TargetRef)
    (proto : Protocol) (now : Int) : Except Failure Admission :=
  g.admitWith zones false userID ref proto now

/-! ## Who passes -/

variable {g : Gate} {d : Decision} {userID : String} {ref : TargetRef} {proto : Protocol}
  {now : Int}

/-- The checks pass exactly when each of them does. -/
theorem check_eq_admitted_iff {a : Admission} :
    g.check d userID ref proto now = .ok a ∧ a.refusal = none ↔
      a = ⟨d, none⟩ ∧ d.allowed ∧ g.granted d userID ref proto now = .ok true ∧
        g.enrolled d userID = .ok true := by
  unfold check
  constructor
  · rintro ⟨h, href⟩
    split at h
    · cases h
      cases href
    rename_i hall
    split at h
    · cases h
    · cases h
      cases href
    rename_i hgranted
    split at h
    · cases h
    · cases h
      cases href
    rename_i henrolled
    cases h
    exact ⟨rfl, by simpa using hall, hgranted, henrolled⟩
  · rintro ⟨rfl, hall, hgranted, henrolled⟩
    simp [hall, hgranted, henrolled]

/-- The user has an authenticator, or none is looked for. -/
def passesMFA (g : Gate) (userID : String) : Bool :=
  match g.mfaEnrolled with
  | none => true
  | some has =>
    match has userID with
    | .ok true => true
    | _ => false

theorem enrolled_eq_true_iff :
    g.enrolled d userID = .ok true ↔ (d.requireMFA → g.passesMFA userID) := by
  unfold enrolled passesMFA
  cases g.mfaEnrolled with
  | none => simp
  | some has =>
    cases d.requireMFA with
    | false => simp
    | true =>
      simp only [if_true, forall_const]
      split
      · rename_i heq
        simp [heq]
      · rename_i hne
        simpa using hne

theorem admitWith_eq {zones : Zones} {windows : Bool} {pols : List Policy}
    (h : g.forUser userID = .ok pols) :
    g.admitWith zones windows userID ref proto now =
      g.check (evaluate zones pols ref proto now windows) userID ref proto now := by
  unfold admitWith
  rw [h]

/-- The gate answers only on policies it could read. -/
theorem forUser_of_admitWith {zones : Zones} {windows : Bool} {a : Admission}
    (h : g.admitWith zones windows userID ref proto now = .ok a) :
    ∃ pols, g.forUser userID = .ok pols := by
  unfold admitWith at h
  cases hpols : g.forUser userID with
  | error e =>
    rw [hpols] at h
    cases h
  | ok pols => exact ⟨pols, rfl⟩

end Gate

end Zanskar
