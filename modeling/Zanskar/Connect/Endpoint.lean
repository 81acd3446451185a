import Zanskar.Policy.Basic

/-!
# Endpoints (`internal/connect/endpoint.go`)

A connect reaches an endpoint: a static target, or one instance of an autoscaling
group. The two kinds share the policy, pinning and session code, which work on
what is resolved here.

The rows come from the stores by id. `Endpoints` carries that as its invariant:
whatever the rows hold, the endpoint resolved for an id names that id, which is
what lets a session's row stand for the endpoint its ticket was for
(`resolveGrant_own`).
-/

namespace Zanskar

open Go

/-- An infrastructure failure. -/
abbrev Failure := String

/-- The default ports by protocol; 0 where a protocol has none. -/
def defaultPorts : Protocol → Int
  | .ssh => 22
  | .rdp => 3389
  | .vnc => 5900
  | .winrm => 5986
  | _ => 0

/-- A database engine's default port. -/
def engineDefaultPorts : String → Int
  | "postgres" => 5432
  | "mysql" => 3306
  | "mariadb" => 3306
  | _ => 0

/-- `ServableEngine`: the engines a session can be brokered for. -/
def servableEngine (e : String) : Bool :=
  ["postgres", "mysql", "mariadb"].contains (toLower (trimSpace e))

/-- A resolved connection target: a static target or one instance of an
autoscaling group. -/
structure Endpoint where
  targetID : String
  asgID : String
  asgInstanceID : String
  engine : String
  appUpstream : String
  tags : TagMap
  /-- What the registry indexes live sessions by: the target's id, or the
  instance's. -/
  liveKey : String
  active : Bool
  ports : Protocol → Option Int
  credentials : Protocol → String
  hostKeyFingerprint : String
  hostKeyTrusted : Bool
  tlsFingerprint : String
  winRMTLSFingerprint : String
  /-- The target's recording retention override; 0 for none. -/
  retentionDays : Int

/-- `port`. -/
def Endpoint.port (e : Endpoint) (p : Protocol) : Int :=
  match e.ports p with
  | some n =>
    if n > 0 then n
    else if p = .database then engineDefaultPorts e.engine
    else defaultPorts p
  | none => if p = .database then engineDefaultPorts e.engine else defaultPorts p

/-- `policyRef`: the endpoint in the policy engine's terms. -/
def Endpoint.policyRef (e : Endpoint) : TargetRef where
  kind :=
    if e.asgID ≠ "" then .autoscaling
    else if e.engine ≠ "" then .database
    else if e.appUpstream ≠ "" then .application
    else .host
  id := e.targetID
  asgID := e.asgID
  tags := e.tags

/-- The endpoints the stores hold. A target is loaded by its id, an instance by
its own, so what is resolved for an id carries it. -/
structure Endpoints where
  resolveTarget : String → Except Failure Endpoint
  resolveInstance : String → Except Failure Endpoint
  target_id : ∀ {id : String} {ep : Endpoint}, resolveTarget id = .ok ep →
    ep.targetID = id ∧ ep.asgInstanceID = ""
  instance_id : ∀ {id : String} {ep : Endpoint}, resolveInstance id = .ok ep →
    ep.asgInstanceID = id

/-- `resolveGrant`, of the target and the autoscaling instance a ticket or a
session's row names. -/
def Endpoints.resolveGrant (es : Endpoints) (targetID asgInstanceID : String) :
    Except Failure Endpoint :=
  if asgInstanceID ≠ "" then es.resolveInstance asgInstanceID else es.resolveTarget targetID

/-- What an endpoint names is resolved as what it was resolved from, by the stores
of any later moment. -/
theorem Endpoints.resolveGrant_own {es : Endpoints} {targetID asgInstanceID : String}
    {ep : Endpoint} (h : es.resolveGrant targetID asgInstanceID = .ok ep) (es' : Endpoints) :
    es'.resolveGrant ep.targetID ep.asgInstanceID =
      es'.resolveGrant targetID asgInstanceID := by
  unfold resolveGrant at h ⊢
  by_cases hinst : asgInstanceID ≠ ""
  · rw [if_pos hinst] at h
    rw [es.instance_id h, if_pos hinst, if_pos hinst]
  · rw [if_neg hinst] at h
    obtain ⟨hid, hnone⟩ := es.target_id h
    rw [hid, hnone, if_neg (fun hne => hne rfl), if_neg hinst]

end Zanskar
