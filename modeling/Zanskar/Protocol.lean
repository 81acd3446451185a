import Mathlib.Tactic

/-!
# Kinds and protocols (`internal/protocol/protocol.go`)

The ways of reaching a target, and the kinds of thing an access policy grants.
The source spells both as strings; here they are enumerations whose last
constructor holds any other string, so that a field of a request or of a stored
row keeps every value it can carry and no unknown kind or protocol is read as a
known one.
-/

namespace Zanskar

/-- Protocols, as policies, grants and sessions store them. -/
inductive Protocol where
  | ssh
  | rdp
  | vnc
  | winrm
  | database
  | http
  | other (name : String)
  deriving DecidableEq

/-- How a protocol is stored. -/
def Protocol.text : Protocol → String
  | .ssh => "ssh"
  | .rdp => "rdp"
  | .vnc => "vnc"
  | .winrm => "winrm"
  | .database => "database"
  | .http => "http"
  | .other name => name

/-- Kinds of thing an access policy grants. -/
inductive Kind where
  | host
  | database
  | application
  | autoscaling
  | other (name : String)
  deriving DecidableEq

/-- How a kind is stored. -/
def Kind.text : Kind → String
  | .host => "host"
  | .database => "database"
  | .application => "application"
  | .autoscaling => "autoscaling"
  | .other name => name

/-- Every kind, in the order the console offers them (`Kinds`). -/
def kinds : List Kind := [.host, .database, .application, .autoscaling]

/-- What each kind can serve; nothing, for a name that is no kind. -/
def kindProtocols : Kind → List Protocol
  | .host => [.ssh, .rdp, .vnc, .winrm]
  | .autoscaling => [.ssh, .rdp, .vnc, .winrm]
  | .database => [.database]
  | .application => [.http]
  | .other _ => []

/-- `ValidKind`: the name is a key of the table. -/
def validKind : Kind → Bool
  | .other _ => false
  | _ => true

/-- `KindServes`: a thing of kind `k` can serve protocol `p`. -/
def kindServes (k : Kind) (p : Protocol) : Bool := (kindProtocols k).contains p

variable {p : Protocol} {k : Kind}

theorem mem_kindProtocols : p ∈ kindProtocols k ↔ kindServes k p := by
  rw [kindServes, List.contains_iff_mem]

theorem mem_kinds_of_kindServes (h : kindServes k p) : k ∈ kinds := by
  cases k with
  | other name => cases h
  | _ => decide

end Zanskar
