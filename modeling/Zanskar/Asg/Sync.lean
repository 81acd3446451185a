import Zanskar.Asg.Instance
import Zanskar.Gateway.Registry
import Zanskar.Lib.Machine

/-!
# Polling an autoscaling group (`internal/asg/sync.go`)

One poll reads the group's snapshot from the cloud and its rows from the database, probes the
instances the cloud calls healthy, stores each one as it is reached, and at the end flags the
rows whose instance is no longer listed. What was stored before the poll decides what is
pinned: a host key or certificate of the previous row is compared, never replaced.

Polls of one group do not overlap (the `running` guard), so a poll is one step of the machine.
What the outside answers during it is part of its label: the snapshot, and for each listing the
probe's result, the console's answer and whether each statement fails. Between polls sessions
are opened and closed.

`State.writes` and `State.asked` are records of the rows written and of what the console was
asked, kept for the statements about runs; nothing reads them.
-/

namespace Zanskar.Asg

open Go Lib

/-! ## The group and its probe -/

/-- `Group`: what the loop reads of one. -/
structure Group where
  name : String
  ports : Protocol → Option Int
  capabilities : List Protocol
  /-- `AddressPreference` is `public`. -/
  preferPublic : Bool

/-- `Group.Port`. -/
def Group.port (g : Group) (p : Protocol) : Int :=
  match g.ports p with
  | some n => if n > 0 then n else defaultPorts p
  | none => defaultPorts p

/-- `Group.Address`. -/
def Group.address (g : Group) (r : Instance) : String :=
  if g.preferPublic && decide (r.publicIP ≠ "") then r.publicIP
  else if r.privateIP ≠ "" then r.privateIP
  else r.publicIP

/-- The ports a probe of the group tries. -/
def Group.probePorts (g : Group) : List (Protocol × Int) :=
  g.capabilities.map fun p => (p, g.port p)

/-- `target.ProbeResult`: the protocols reached, and the fingerprints of what was presented. An
SSH server that never got to its key is there with an empty fingerprint. -/
structure ProbeResult where
  reachable : Protocol → Bool
  sshHostKey : Option String
  tls : Option String
  winRMTLS : Option String

/-- The fingerprint presented; empty for none. -/
def ProbeResult.fingerprint (res : ProbeResult) : Pin → String
  | .hostKey => res.sshHostKey.getD ""
  | .rdp => res.tls.getD ""
  | .winrm => res.winRMTLS.getD ""

/-! ## What a poll changes -/

/-- Audit events of the loop, with their details. -/
inductive Action where
  | instanceJoined (healthy : Bool) (hostKeySource : HostKeySource)
  | instanceUnhealthy (lifecycle lb : String) (probe : ProbeHealth)
  | instanceLeft
  | hostKeyChanged (pinned observed : String)
  | hostKeyMismatch (console : List String) (observed : String)
  | certificateChanged (protocol : Protocol) (pinned observed : String)
  deriving DecidableEq

/-- The event says that an instance left the healthy pool. -/
def Action.departs : Action → Bool
  | .instanceUnhealthy .. => true
  | .instanceLeft => true
  | _ => false

/-- An event as recorded: about the row `targetID`, of the group and instance named in its
details. -/
structure Record where
  action : Action
  targetID : String
  asg : String
  instanceID : String
  deriving DecidableEq

/-- `Summary`. -/
structure Summary where
  seen : Nat
  healthy : Nat
  joined : Nat
  left : Nat
  retired : Nat
  hostKeyMismatches : Nat
  certificateMismatches : Nat
  deriving DecidableEq

/-- A row written: what was there, what is there now, how long the audit log was then, and the
sessions running on the instance then. -/
structure Write where
  before : Option Instance
  after : Instance
  audited : Nat
  live : List String

/-- A question to the serial console: the instance, the key that was observed, and the answer. -/
structure Asked where
  instanceID : String
  observed : String
  answer : Option (List String)

structure State where
  rows : Rows
  /-- The mismatches already audited. -/
  reported : List String
  audit : List Record
  registry : Registry
  sum : Summary
  writes : List Write
  asked : List Asked
  /-- Every session id given out. -/
  used : List String

/-- What a listing of the snapshot meets: the probe's answer at an address and ports (nothing
for a failed one), the console's answer (nothing for an error), the database's at the upsert,
and the audit events that cannot be written. -/
structure Listing where
  ci : CloudInstance
  probe : String → List (Protocol × Int) → Option ProbeResult
  console : Option (List String)
  db : Upsert
  recordFails : Action → Bool

/-- One poll: the snapshot (nothing when the provider or the description fails), whether the
rows can be read at its start and again by `MarkTerminated`, which of `MarkTerminated`'s updates
fails, counted from 0, and the audit events of the rows marked and the final `RecordSync` that
cannot be written. -/
structure Poll where
  snapshot : Option (List Listing)
  rowsRead : Bool
  allRead : Bool
  markFailsAt : Option Nat
  now : Int
  leftFails : String → Bool
  syncFails : Bool

/-- The loop's configuration: the database it runs on, and whether it has a prober. -/
structure Syncer where
  dialect : Dialect
  prober : Bool

namespace State

/-- `record`: a failure is logged only. -/
def record (s : State) (fails : Action → Bool) (g : Group) (r : Instance) (a : Action) : State :=
  if fails a then s
  else { s with audit := s.audit ++ [⟨a, r.id, g.name, r.instanceID⟩] }

/-- The key a mismatch is remembered under. -/
def sighting (instanceID kind observed : String) : String :=
  instanceID ++ "\x00" ++ kind ++ "\x00" ++ observed

/-- `cleared`: forgets the mismatches of a kind on an instance, of all kinds when it is empty. -/
def cleared (s : State) (instanceID kind : String) : State :=
  { s with
    reported := s.reported.filter fun k =>
      !(instanceID ++ "\x00" ++ kind).toList.isPrefixOf k.toList }

/-- `firstSighting`, and the event that is recorded on one. -/
def reportOnce (s : State) (fails : Action → Bool) (g : Group) (instanceID kind observed : String)
    (subject : Instance) (a : Action) : State :=
  if s.reported.contains (sighting instanceID kind observed) then s
  else
    { s with reported := sighting instanceID kind observed :: s.reported }.record fails g subject a

/-- `retire`: ends the live sessions on an instance. -/
def retire (s : State) (r : Instance) : State :=
  { s with registry := s.registry.terminateTarget r.id .targetLost }

/-- The sessions running on a row's instance. -/
def liveOn (s : State) (id : String) : List String :=
  (s.registry.running.filter fun l => l.targetID = id).map Live.sessionID

/-- A row written. -/
def wrote (s : State) (rows : Rows) (after : Instance) : State :=
  { s with
    rows := rows
    writes := s.writes ++
      [⟨s.rows.byCloudID after.instanceID, after, s.audit.length, s.liveOn after.id⟩] }

end State

/-! ## The probe -/

/-- `pin`, of one listener's certificate: kept as first seen. A different one makes the instance
unhealthy. -/
def pinCertificate (l : Listing) (g : Group) (proto : Protocol) (observed pinned : String)
    (set : Instance → String → Instance) (r : Instance) (s : State) : Instance × State :=
  if pinned = "" then (set r observed, s)
  else if observed = "" ∨ observed = pinned then
    (set r pinned,
      if observed = pinned then s.cleared r.instanceID ("cert:" ++ proto.text) else s)
  else
    (set { r with probeHealth := .unhealthy } pinned,
      { s with sum.certificateMismatches := s.sum.certificateMismatches + 1 }.reportOnce
        l.recordFails g r.instanceID ("cert:" ++ proto.text) observed r
        (.certificateChanged proto pinned observed))

def Instance.setTLS (r : Instance) (v : String) : Instance := { r with tlsFingerprint := v }

def Instance.setWinRMTLS (r : Instance) (v : String) : Instance :=
  { r with winRMTLSFingerprint := v }

/-- What the previous row has pinned. -/
def pinnedBefore (prev : Option Instance) (k : Pin) : String := prev.elim "" fun r => r.pin k

/-- One listener: left alone where nothing was presented and nothing is pinned. -/
def pinListener (l : Listing) (g : Group) (proto : Protocol) (seen : Option String)
    (pinned : String) (set : Instance → String → Instance) (r : Instance) (s : State) :
    Instance × State :=
  if seen.isSome ∨ pinned ≠ "" then pinCertificate l g proto (seen.getD "") pinned set r s
  else (r, s)

/-- `pinCertificates`. -/
def pinCertificates (l : Listing) (g : Group) (r : Instance) (prev : Option Instance)
    (res : ProbeResult) (s : State) : Instance × State :=
  let (r, s) := pinListener l g .rdp res.tls (pinnedBefore prev .rdp) Instance.setTLS r s
  pinListener l g .winrm res.winRMTLS (pinnedBefore prev .winrm) Instance.setWinRMTLS r s

/-- The host key of an instance that has one pinned: compared, and kept. -/
def compareHostKey (l : Listing) (g : Group) (r p : Instance) (res : ProbeResult) (s : State) :
    Instance × State :=
  let kept (r : Instance) : Instance :=
    { r with hostKeyFingerprint := p.hostKeyFingerprint, hostKeySource := p.hostKeySource }
  match res.sshHostKey with
  | none => (kept r, s)
  | some observed =>
    if observed ≠ p.hostKeyFingerprint then
      (kept { r with probeHealth := .unhealthy },
        { s with sum.hostKeyMismatches := s.sum.hostKeyMismatches + 1 }.reportOnce
          l.recordFails g r.instanceID "hostkey" observed p
          (.hostKeyChanged p.hostKeyFingerprint observed))
    else (kept r, s.cleared r.instanceID "hostkey")

/-- The host key of an instance that has none pinned: checked against the serial console where
the cloud publishes it, trusted on first use otherwise. -/
def pinHostKey (l : Listing) (g : Group) (r : Instance) (res : ProbeResult) (s : State) :
    Instance × State :=
  if res.fingerprint .hostKey = "" then (r, s)
  else
    let observed := res.fingerprint .hostKey
    let s := { s with asked := s.asked ++ [⟨r.instanceID, observed, l.console⟩] }
    match l.console with
    | some consoleKeys =>
      if consoleKeys.contains observed then
        ({ r with hostKeyFingerprint := observed, hostKeySource := .console },
          s.cleared r.instanceID "console")
      else
        ({ r with probeHealth := .unhealthy },
          { s with sum.hostKeyMismatches := s.sum.hostKeyMismatches + 1 }.reportOnce
            l.recordFails g r.instanceID "console" observed r
            (.hostKeyMismatch consoleKeys observed))
    | none => ({ r with hostKeyFingerprint := observed, hostKeySource := .tofu }, s)

/-- The host key of an instance, by what the previous row has pinned. -/
def judgeHostKey (l : Listing) (g : Group) (r : Instance) (prev : Option Instance)
    (res : ProbeResult) (s : State) : Instance × State :=
  match prev with
  | some p =>
    if p.hostKeyFingerprint ≠ "" then compareHostKey l g r p res s else pinHostKey l g r res s
  | none => pinHostKey l g r res s

/-- What `probe` does with the prober's result. -/
def judge (l : Listing) (g : Group) (r : Instance) (prev : Option Instance) (res : ProbeResult)
    (s : State) : Instance × State :=
  let r :=
    { r with probeHealth := if g.capabilities.all res.reachable then .healthy else .unhealthy }
  let (r, s) := pinCertificates l g r prev res s
  judgeHostKey l g r prev res s

/-- The prober's result, where there is a prober and an address to probe. -/
def Listing.probed (l : Listing) (sy : Syncer) (g : Group) (r : Instance) : Option ProbeResult :=
  if g.address r = "" ∨ sy.prober = false then none else l.probe (g.address r) g.probePorts

/-- `probe`. -/
def probe (sy : Syncer) (g : Group) (l : Listing) (r : Instance) (prev : Option Instance)
    (s : State) : Instance × State :=
  match l.probed sy g r with
  | none => ({ r with probeHealth := .unhealthy }, s)
  | some res => judge l g r prev res s

/-! ## The poll -/

/-- The instance a listing starts from. -/
def Listing.row (l : Listing) : Instance where
  id := ""
  instanceID := l.ci.id
  privateIP := l.ci.privateIP
  publicIP := l.ci.publicIP
  availabilityZone := l.ci.availabilityZone
  lifecycleState := l.ci.lifecycleState
  lbHealth := l.ci.lbHealth
  probeHealth := .unknown
  hostKeyFingerprint := ""
  hostKeySource := .none
  tlsFingerprint := ""
  winRMTLSFingerprint := ""
  launchedAt := l.ci.launchedAt
  firstSeenAt := 0
  lastSeenAt := 0
  terminatedAt := none

/-- The fingerprint a poll observes of a listing: what the probe was presented, where there is a
probe. -/
def Listing.observed (l : Listing) (sy : Syncer) (g : Group) (k : Pin) : Option String :=
  if cloudHealthy l.ci.lifecycleState l.ci.lbHealth then
    ((l.probed sy g l.row).map fun res => res.fingerprint k).filter fun fp => decide (fp ≠ "")
  else none

/-- What is to be stored of a listing: probed where the cloud's view is healthy. -/
def observe (sy : Syncer) (g : Group) (prev : Option Instance) (l : Listing) (s : State) :
    Instance × State :=
  if cloudHealthy l.ci.lifecycleState l.ci.lbHealth then probe sy g l l.row prev s
  else ({ l.row with probeHealth := .unhealthy }, s)

/-- What follows a row stored. -/
def settle (g : Group) (prev : Option Instance) (l : Listing) (stored : Instance) (isNew : Bool)
    (s : State) : State :=
  let s := if stored.healthy then { s with sum.healthy := s.sum.healthy + 1 } else s
  if isNew then
    { s with sum.joined := s.sum.joined + 1 }.record l.recordFails g stored
      (.instanceJoined stored.healthy stored.hostKeySource)
  else if prev.any Instance.healthy ∧ stored.healthy = false then
    ({ s with sum.retired := s.sum.retired + 1 }.record l.recordFails g stored
      (.instanceUnhealthy stored.lifecycleState stored.lbHealth stored.probeHealth)).retire stored
  else s

/-- One listing of the snapshot; `false` when its upsert failed. -/
def visit (sy : Syncer) (g : Group) (previous : Rows) (l : Listing) (s : State) : State × Bool :=
  let prev := previous.byCloudID l.ci.id
  let (r, s) := observe sy g prev l { s with sum.seen := s.sum.seen + 1 }
  match upsertInstance s.rows l.db r with
  | none => (s, false)
  | some (rows, stored, isNew) => (settle g prev l stored isNew (s.wrote rows stored), true)

/-- The listings in order, up to one whose upsert fails. -/
def visitAll (sy : Syncer) (g : Group) (previous : Rows) : List Listing → State → State × Bool
  | [], s => (s, true)
  | l :: ls, s =>
    match visit sy g previous l s with
    | (s, true) => visitAll sy g previous ls s
    | (s, false) => (s, false)

/-- The loop of `MarkTerminated` over the rows it read, up to an update that fails: the rows
marked before it stay marked, and the list of them is lost. -/
def markEach (now : Int) (keep : List String) :
    Option Nat → List Instance → State → State × Option (List Instance)
  | _, [], s => (s, some [])
  | failsAt, r :: rest, s =>
    if keep.contains r.instanceID ∨ r.terminatedAt.isSome then markEach now keep failsAt rest s
    else if failsAt = some 0 then (s, none)
    else
      match markEach now keep (failsAt.map (· - 1)) rest
          (s.wrote (s.rows.markRow r.id now) (r.terminated now)) with
      | (t, some gone) =>
        (t, some ({ r with terminatedAt := some now, lifecycleState := "Terminated" } :: gone))
      | (t, none) => (t, none)

/-- What follows a row marked. -/
def leave (g : Group) (p : Poll) (s : State) (r : Instance) : State :=
  (({ s with sum.left := s.sum.left + 1 }.record (fun _ => p.leftFails r.id) g r
    .instanceLeft).retire r).cleared r.instanceID ""

/-- `SyncGroup`: the state after one poll, and whether it succeeded. -/
def syncGroup (sy : Syncer) (g : Group) (p : Poll) (s : State) : State × Bool :=
  let s := { s with sum := ⟨0, 0, 0, 0, 0, 0, 0⟩ }
  match p.snapshot with
  | none => (s, false)
  | some listings =>
    if p.rowsRead = false then (s, false)
    else
      match visitAll sy g s.rows listings s with
      | (s, false) => (s, false)
      | (s, true) =>
        if p.allRead = false then (s, false)
        else
          match markEach p.now (listings.map fun l => l.ci.id) p.markFailsAt
              (s.rows.instances sy.dialect) s with
          | (s, none) => (s, false)
          | (s, some gone) => (gone.foldl (leave g p) s, !p.syncFails)

/-- Steps: a poll, or a session opened or closed between polls. Session ids are given out once. -/
inductive Label where
  | poll (p : Poll)
  | opened (l : Live)
  | closed (sessionID : String)

def step (sy : Syncer) (g : Group) (s : State) : Label → Option State
  | .poll p => some (syncGroup sy g p s).1
  | .opened l =>
    if s.used.contains l.sessionID ∨ l.ended.isSome then none
    else some { s with registry := s.registry.add l, used := l.sessionID :: s.used }
  | .closed sessionID => some { s with registry := s.registry.remove sessionID }

/-- No rows and no sessions. -/
def State.initial : State where
  rows := .empty
  reported := []
  audit := []
  registry := .empty
  sum := ⟨0, 0, 0, 0, 0, 0, 0⟩
  writes := []
  asked := []
  used := []

end Zanskar.Asg
