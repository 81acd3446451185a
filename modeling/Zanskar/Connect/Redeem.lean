import Zanskar.Connect.Issue

/-!
# What a redemption reads (`internal/connect/connect.go`, `endpoint.go`)

A ticket's endpoint is read twice: by `redeem`, which asks the gate about it, and by the bridge,
which opens it. Each read goes to the database on its own and may fail on its own (`Stores`), and
so may the reads of the gate. A read that fails in `redeem` is taken for a target that is gone,
which the bridge will say; the gate is then not asked (`redeemAsking`).

- `admitted_iff_endpoint_read` : who starts was admitted, exactly when `redeem` reads every endpoint
  the bridge opens;
- `failed_read_skips_the_gate` : one read that fails lets a user in whom no policy admits.
-/

namespace Zanskar

/-! ## The stores -/

/-- A target's row, as far as an endpoint is made of it. -/
structure TargetRow where
  id : String
  status : String
  tags : TagMap
  ports : Protocol → Option Int
  credentials : Protocol → String
  hostKeyTrusted : Bool
  hostKeyFingerprint : Option String
  tlsFingerprint : Option String
  winRMTLSFingerprint : Option String
  engine : String
  appUpstream : String
  retentionDays : Option Int

/-- An autoscaling group's row. -/
structure GroupRow where
  id : String
  status : String
  tags : TagMap
  ports : Protocol → Option Int
  credentials : Protocol → String

/-- An autoscaling instance's row. -/
structure InstanceRow where
  id : String
  groupID : String
  healthy : Bool
  hostKeyFingerprint : String
  tlsFingerprint : String
  winRMTLSFingerprint : String

/-- `fromTarget`. -/
def fromTarget (t : TargetRow) : Endpoint where
  targetID := t.id
  asgID := ""
  asgInstanceID := ""
  engine := t.engine
  appUpstream := t.appUpstream
  tags := t.tags
  liveKey := t.id
  active := t.status = "active"
  ports := t.ports
  credentials := t.credentials
  hostKeyFingerprint := t.hostKeyFingerprint.getD ""
  hostKeyTrusted := t.hostKeyTrusted
  tlsFingerprint := t.tlsFingerprint.getD ""
  winRMTLSFingerprint := t.winRMTLSFingerprint.getD ""
  retentionDays := t.retentionDays.getD 0

/-- `fromInstance`. -/
def fromInstance (g : GroupRow) (i : InstanceRow) : Endpoint where
  targetID := ""
  asgID := g.id
  asgInstanceID := i.id
  engine := ""
  appUpstream := ""
  tags := g.tags
  liveKey := i.id
  active := g.status = "active" && i.healthy
  ports := g.ports
  credentials := g.credentials
  hostKeyFingerprint := i.hostKeyFingerprint
  hostKeyTrusted := i.hostKeyFingerprint ≠ ""
  tlsFingerprint := i.tlsFingerprint
  winRMTLSFingerprint := i.winRMTLSFingerprint
  retentionDays := 0

/-- What the reads for one endpoint return, each of them on its own. A row is read by its id. -/
structure Stores where
  getTarget : (id : String) → Except Failure { t : TargetRow // t.id = id }
  /-- `h.ASGs`, if it is set. -/
  getInstance : Option ((id : String) → Except Failure { i : InstanceRow // i.id = id })
  getGroup : (id : String) → Except Failure { g : GroupRow // g.id = id }

namespace Stores

/-- `resolveTarget`. -/
def resolveTarget (s : Stores) (id : String) : Except Failure Endpoint :=
  match s.getTarget id with
  | .error e => .error e
  | .ok t => .ok (fromTarget t.1)

/-- `resolveInstance`. -/
def resolveInstance (s : Stores) (id : String) : Except Failure Endpoint :=
  match s.getInstance with
  | none => .error "asg: not found"
  | some getInstance =>
    match getInstance id with
    | .error e => .error e
    | .ok i =>
      match s.getGroup i.1.groupID with
      | .error e => .error e
      | .ok g => .ok (fromInstance g.1 i.1)

/-- The endpoints these reads give. -/
def endpoints (s : Stores) : Endpoints where
  resolveTarget := s.resolveTarget
  resolveInstance := s.resolveInstance
  target_id := by
    intro id ep h
    unfold resolveTarget at h
    split at h <;> cases h
    rename_i t _
    exact ⟨t.2, rfl⟩
  instance_id := by
    intro id ep h
    unfold resolveInstance at h
    split at h
    · cases h
    split at h
    · cases h
    rename_i i _
    split at h <;> cases h
    exact i.2

end Stores

/-! ## One redemption -/

namespace ConnectHandler

/-- The last part of `redeem`: the gate is asked about the endpoint of the grant, where that can be
read. What it answered is returned beside. -/
def askGate (h : ConnectHandler) (now : Int) (g : Ticket.Grant) :
    Except Answer Ticket.Grant × List (Except Failure Admission) :=
  match h.endpoints.resolveGrant g.targetID g.asgInstanceID with
  | .error _ => (.ok g, [])
  | .ok ep =>
    match h.admits g.userID ep g.protocol now with
    | .error e => (.error internalError, [.error e])
    | .ok ⟨d, some (code, msg)⟩ =>
      (.error ⟨codeStatus code.text, code.text, msg⟩, [.ok ⟨d, some (code, msg)⟩])
    | .ok ⟨d, none⟩ => (.ok g, [.ok ⟨d, none⟩])

/-- `redeem`, with what the gate answered when it was asked. -/
def redeemAsking (h : ConnectHandler) (now stamp : Int) (tok ip : String) (p : Option Principal)
    (store : Ticket.Store) : Except Answer Ticket.Grant × List (Except Failure Admission) :=
  if h.draining then (.error ⟨503, "restarting", restartingMsg⟩, [])
  else
    match (store.redeem tok ip ((p.map Principal.sessionID).getD "") stamp).1 with
    | none => (.error ⟨401, "invalid_ticket", "invalid or expired ticket"⟩, [])
    | some g =>
      if (p.map Principal.canConnect).getD false = false then
        (.error ⟨403, "review_only",
          "this account is review-only; the user role is required to reach targets"⟩, [])
      else h.askGate now g

theorem redeemAsking_fst (h : ConnectHandler) (now stamp : Int) (tok ip : String)
    (p : Option Principal) (store : Ticket.Store) :
    (h.redeemAsking now stamp tok ip p store).1 = (h.redeem now stamp tok ip p store).1 := by
  unfold redeemAsking redeem
  split
  · rfl
  dsimp only
  rcases store.redeem tok ip ((p.map Principal.sessionID).getD "") stamp with ⟨_ | g, store'⟩
  · rfl
  dsimp only
  split
  · rfl
  unfold askGate
  cases h.endpoints.resolveGrant g.targetID g.asgInstanceID with
  | error e => rfl
  | ok ep =>
    dsimp only
    rcases h.admits g.userID ep g.protocol now with e | ⟨d, _ | ⟨code, msg⟩⟩ <;> rfl

variable {g : Ticket.Grant} {h : ConnectHandler} {now : Int}

/-- The gate is passed, or the endpoint could not be read, or nothing starts. -/
theorem askGate_ok {g' : Ticket.Grant} (hask : (h.askGate now g).1 = .ok g') :
    g' = g ∧ ((∃ e, h.endpoints.resolveGrant g.targetID g.asgInstanceID = .error e) ∨
      ∃ d, .ok ⟨d, none⟩ ∈ (h.askGate now g).2) := by
  unfold askGate at hask ⊢
  split at hask
  · rename_i e hread
    exact ⟨(Except.ok.inj hask).symm, .inl ⟨e, hread⟩⟩
  split at hask
  · cases hask
  · cases hask
  · rename_i d _
    exact ⟨(Except.ok.inj hask).symm, .inr ⟨d, List.mem_singleton_self _⟩⟩

theorem askGate_of_error {e : Failure}
    (hread : h.endpoints.resolveGrant g.targetID g.asgInstanceID = .error e) :
    h.askGate now g = (.ok g, []) := by
  rw [askGate, hread]

theorem openGrant_ok_iff {b : Bridge} {ep : Endpoint} :
    h.openGrant b g = .ok ep ↔
      g.protocol ∈ b.serves ∧ ¬(b = .desktop ∧ h.guacd = "") ∧
        h.endpoints.resolveGrant g.targetID g.asgInstanceID = .ok ep ∧
        (ep.active && b.ready ep) := by
  constructor
  · intro hopen
    have hread := resolve_of_openGrant hopen
    unfold openGrant at hopen
    split at hopen
    · cases hopen
    rename_i hserves
    split at hopen
    · cases hopen
    rename_i hguacd
    rw [hread] at hopen
    dsimp only at hopen
    split at hopen
    · rename_i hready
      exact ⟨not_not.mp hserves, hguacd, hread, hready⟩
    · cases hopen
  · rintro ⟨hserves, hguacd, hread, hready⟩
    rw [openGrant, if_neg (not_not.mpr hserves), if_neg hguacd, hread]
    dsimp only
    rw [if_pos hready]

end ConnectHandler

/-- A redemption, with what its reads return: the first ones in `redeem`, with the gate's, the
second ones in the bridge. -/
structure Redemption where
  handler : ConnectHandler
  first : Stores
  second : Stores
  bridge : ConnectHandler.Bridge
  principal : Option Principal
  tok : String
  ip : String
  now : Int
  stamp : Int
  store : Ticket.Store
  /-- What follows the bridge's read (the address, the credential, the upgrade, the session's row)
  succeeds. -/
  rest : Bool

namespace Redemption

variable (r : Redemption)

/-- `redeem`, over the first reads. -/
def redeemed : Except Answer Ticket.Grant × List (Except Failure Admission) :=
  ConnectHandler.redeemAsking { r.handler with endpoints := r.first.endpoints } r.now r.stamp r.tok
    r.ip r.principal r.store

/-- The bridge, over the second reads: the endpoint of the session that starts. -/
def started : Option Endpoint :=
  match r.redeemed.1 with
  | .error _ => none
  | .ok g =>
    match ConnectHandler.openGrant { r.handler with endpoints := r.second.endpoints } r.bridge g with
    | .error _ => none
    | .ok ep => if r.rest then some ep else none

/-- The account held the role, and the gate was asked in this redemption and admitted the user. -/
def Admitted : Prop :=
  (r.principal.map Principal.canConnect).getD false = true ∧ ∃ d, .ok ⟨d, none⟩ ∈ r.redeemed.2

/-- The grant of the ticket, once the ticket, the sign-in and its role are checked. -/
def ticket : Option Ticket.Grant :=
  if r.handler.draining || !((r.principal.map Principal.canConnect).getD false) then none
  else (r.store.redeem r.tok r.ip ((r.principal.map Principal.sessionID).getD "") r.stamp).1

/-- The bridge opens the endpoint for the grant, and nothing fails after that. -/
def Opens (g : Ticket.Grant) (ep : Endpoint) : Prop :=
  g.protocol ∈ r.bridge.serves ∧ ¬(r.bridge = .desktop ∧ r.handler.guacd = "") ∧
    r.second.endpoints.resolveGrant g.targetID g.asgInstanceID = .ok ep ∧
    (ep.active && r.bridge.ready ep) = true ∧ r.rest = true

/-- What the bridge opens, `redeem` could read. -/
def EndpointRead : Prop :=
  ∀ g ep, r.ticket = some g → r.Opens g ep →
    ∃ ep', r.first.endpoints.resolveGrant g.targetID g.asgInstanceID = .ok ep'

variable {r : Redemption} {g : Ticket.Grant}

/-- The handler as `redeem` meets it. -/
theorem redeemed_of_ticket (h : r.ticket = some g) :
    r.redeemed =
      ConnectHandler.askGate { r.handler with endpoints := r.first.endpoints } r.now g := by
  unfold ticket at h
  split at h
  · cases h
  rename_i hchecks
  rw [Bool.or_eq_true, not_or, Bool.not_eq_true', Bool.not_eq_false] at hchecks
  rw [redeemed, ConnectHandler.redeemAsking, if_neg hchecks.1, h]
  dsimp only
  rw [if_neg (by rw [hchecks.2]; decide)]

theorem ticket_of_redeemed (h : r.redeemed.1 = .ok g) : r.ticket = some g := by
  unfold redeemed ConnectHandler.redeemAsking at h
  unfold ticket
  split at h
  · cases h
  rename_i hdraining
  have hserving : r.handler.draining = false := by simpa using hdraining
  split at h
  · cases h
  rename_i g' hstored
  split at h
  · cases h
  rename_i hrole
  have hallowed : (r.principal.map Principal.canConnect).getD false := by simpa using hrole
  obtain ⟨rfl, -⟩ := ConnectHandler.askGate_ok h
  rw [if_neg (by rw [hserving, hallowed]; decide)]
  exact hstored

theorem canConnect_of_ticket (h : r.ticket = some g) :
    (r.principal.map Principal.canConnect).getD false := by
  unfold ticket at h
  split at h
  · cases h
  · rename_i hchecks
    rw [Bool.or_eq_true, not_or, Bool.not_eq_true', Bool.not_eq_false] at hchecks
    exact hchecks.2

/-- **What a session that starts passed**: the checks of the ticket, the bridge's of the endpoint,
and the gate's where the endpoint could be read for it. -/
theorem started_iff {ep : Endpoint} :
    r.started = some ep ↔ ∃ g, r.redeemed.1 = .ok g ∧ r.Opens g ep := by
  unfold started
  constructor
  · intro h
    split at h
    · cases h
    rename_i g hredeemed
    split at h
    · cases h
    rename_i ep' hopen
    split at h <;> cases h
    rename_i hrest
    obtain ⟨hserves, hguacd, hread, hready⟩ := ConnectHandler.openGrant_ok_iff.mp hopen
    exact ⟨g, hredeemed, hserves, hguacd, hread, hready, hrest⟩
  · rintro ⟨g, hredeemed, hserves, hguacd, hread, hready, hrest⟩
    have hopen : ConnectHandler.openGrant { r.handler with endpoints := r.second.endpoints }
        r.bridge g = .ok ep :=
      ConnectHandler.openGrant_ok_iff.mpr ⟨hserves, hguacd, hread, hready⟩
    rw [hredeemed]
    dsimp only
    rw [hopen]
    dsimp only
    rw [if_pos hrest]

/-- **The gate is asked.** Whatever the reads of a redemption return, over every protocol: a session
starts only if the gate was asked in the redemption and admitted the user, exactly when `redeem`
could read every endpoint that the bridge then opens. -/
theorem admitted_iff_endpoint_read (r : Redemption) :
    (∀ ep, r.started = some ep → r.Admitted) ↔ r.EndpointRead := by
  constructor
  · intro hadmitted g ep hticket hopens
    cases hread : r.first.endpoints.resolveGrant g.targetID g.asgInstanceID with
    | ok ep' => exact ⟨ep', rfl⟩
    | error e =>
      -- the gate is not asked, and the session starts
      have hask : r.redeemed = (.ok g, []) := by
        rw [redeemed_of_ticket hticket]
        exact ConnectHandler.askGate_of_error hread
      have hstarted : r.started = some ep := started_iff.mpr ⟨g, by rw [hask], hopens⟩
      obtain ⟨-, d, hd⟩ := hadmitted ep hstarted
      rw [hask] at hd
      cases hd
  · intro hread ep hstarted
    obtain ⟨g, hredeemed, hopens⟩ := started_iff.mp hstarted
    have hticket := ticket_of_redeemed hredeemed
    have hask := redeemed_of_ticket hticket
    rw [hask] at hredeemed
    obtain ⟨-, ⟨e, herror⟩ | ⟨d, hd⟩⟩ := ConnectHandler.askGate_ok hredeemed
    · obtain ⟨ep', hep'⟩ := hread g ep hticket hopens
      cases herror.symm.trans hep'
    · rw [Admitted, hask]
      exact ⟨canConnect_of_ticket hticket, d, hd⟩

end Redemption

/-! ## A read that fails -/

/-- Reads that find an active host with a trusted key under each id. -/
def hostStores : Stores where
  getTarget id :=
    .ok ⟨⟨id, "active", ∅, fun _ => none, fun _ => "c", true, some "SHA256:k", none, none, "", "",
      none⟩, rfl⟩
  getInstance := none
  getGroup _ := .error "asg: not found"

/-- Reads that do not reach the database. -/
def failingStores : Stores where
  getTarget _ := .error "connection reset by peer"
  getInstance := none
  getGroup _ := .error "connection reset by peer"

/-- The ticket store once `u` was issued a ticket for ssh on the host `h`. -/
def issuedStore : Ticket.Store :=
  match (clipboardHandler true).issueTicket 0 0 principalU "ip" endpointH .ssh none "" "t" ∅ with
  | .ok store => store
  | .error _ => ∅

/-- The ticket is redeemed after every policy was withdrawn. -/
def lateRedemption (first : Stores) : Redemption where
  handler := { clipboardHandler true with gate := ⟨fun _ => .ok [], none, none⟩ }
  first := first
  second := hostStores
  bridge := .terminal
  principal := some principalU
  tok := "t"
  ip := "ip"
  now := 1000000000
  stamp := 1000000000
  store := issuedStore
  rest := true

/-- The first read of the endpoint fails and the second does not: the session starts, and the gate,
which denies it, was not asked. -/
theorem failed_read_skips_the_gate :
    (lateRedemption failingStores).started.isSome = true ∧
      ¬(lateRedemption failingStores).Admitted ∧
      ∃ a, (lateRedemption hostStores).redeemed.2 = [.ok a] ∧
        (a.refusal.map Prod.fst) = some .policyDenied := by
  refine ⟨rfl, ?_, _, rfl, rfl⟩
  rintro ⟨-, d, hd⟩
  have hnone : (lateRedemption failingStores).redeemed.2 = [] := rfl
  rw [hnone] at hd
  cases hd

end Zanskar
