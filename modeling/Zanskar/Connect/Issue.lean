import Zanskar.Connect.Recheck
import Zanskar.Connect.Ticket
import Zanskar.Httpx

/-!
# From a ticket to a session (`internal/connect/connect.go`, `run.go`)

A connect asks the gate twice. `issueTicket` runs the policy, pinning and
credential checks and fixes the session's terms in the ticket; `redeem`, up to
thirty seconds later, asks the gate again and throws its decision away, so the
session that starts (`start`) runs with the switches of the first decision.

`ticket_switches_iff` compares them with the second, whatever happened between
the two calls.
-/

namespace Zanskar

/-- Who a request comes from: the account, its sign-in and its roles' answer. -/
structure Principal where
  userID : String
  username : String
  sessionID : String
  /-- `CanConnect`: the account holds the user or the admin role now. -/
  canConnect : Bool

/-- Credential types the checks tell apart. -/
inductive CredentialType where
  | sshCA
  | ec2InstanceConnect
  | other (name : String)
  deriving DecidableEq

inductive CredentialMode where
  | vaulted
  | userSupplied
  | other (name : String)
  deriving DecidableEq

/-- What the checks read of a vault entry. -/
structure Credential where
  type : CredentialType
  mode : CredentialMode
  username : String
  certificatePrincipals : List String

/-- `PermitsPrincipal`: no list permits every login user. -/
def Credential.permitsPrincipal (c : Credential) (loginUser : String) : Bool :=
  c.certificatePrincipals.isEmpty || c.certificatePrincipals.contains loginUser

/-- `caLoginUser`. -/
def caLoginUser (c : Credential) (zanskarUser : String) : String :=
  if c.username ≠ "" then c.username else zanskarUser

/-- A login the user brings. -/
structure UserCredential where
  username : String
  password : String
  privateKey : String
  passphrase : String

def maxUserKey : Nat := 16 * 1024

def maxUserPassphrase : Nat := 1024

/-- How `UnlockPrivateKey` fails. -/
inductive KeyError where
  | passphrase
  | unreadable

/-- The connect handler with what issuing and redeeming a ticket read besides
the gate. -/
structure ConnectHandler extends Handler where
  /-- A restart is in progress. -/
  draining : Bool
  /-- The guacd address, empty when desktops are off. -/
  guacd : String
  /-- `Vault.Get`. -/
  vault : String → Except Failure Credential
  /-- Cloud access is configured. -/
  cloud : Bool
  /-- `credential.UnlockPrivateKey`. -/
  unlockPrivateKey : String → String → Except KeyError String

/-- Why no ticket was issued: a refusal the user is told, or a failure. -/
inductive Refused where
  | refused (code message : String)
  | failed (e : Failure)

def restartingMsg : String :=
  "the gateway is restarting to apply a configuration change; try again in a minute"

/-- `codeStatus`. -/
def codeStatus (code : String) : Nat :=
  if ["policy_denied", "mfa_required_by_policy", "approval_required",
      "login_user_not_permitted"].contains code then 403
  else if ["credential_required", "credential_invalid", "address_forbidden"].contains code then 422
  else if ["protocol_unavailable", "credential_mode_unavailable",
      "engine_unavailable"].contains code then 501
  else if code = "not_found" then 404
  else 409

/-! ## Issuing -/

/-- The checks of `issueTicket` by protocol: what must be pinned or configured
before a credential is looked at. -/
def Endpoint.pinCheck (ep : Endpoint) : Protocol → Option (String × String)
  | .ssh =>
    if ep.hostKeyTrusted = false ∨ ep.hostKeyFingerprint = "" then
      if ep.asgID ≠ "" then
        some ("host_key_unverified",
          "the instance's host key has not been verified yet; try again after the next sync")
      else
        some ("host_key_untrusted", "the target's host key has not been trusted by an admin")
    else none
  | .rdp =>
    if ep.tlsFingerprint = "" then
      some ("certificate_unpinned",
        "the target's RDP certificate has not been captured; probe it first")
    else none
  | .winrm =>
    if ep.port .winrm = 5985 then
      some ("tls_required",
        "winrm over plain HTTP is not allowed; use the HTTPS listener (5986)")
    else if ep.winRMTLSFingerprint = "" then
      some ("certificate_unpinned",
        "the target's WinRM certificate has not been captured; probe it first")
    else none
  | .database =>
    if ep.engine = "" then some ("not_a_database", "target is not a database")
    else if servableEngine ep.engine = false then
      some ("engine_unavailable", ep.engine ++ " database access ships in a later release")
    else none
  | .http =>
    if ep.appUpstream = "" then some ("not_an_application", "target is not an application")
    else none
  | _ => none

/-- What signs the session in: a vault entry, or the user's own login. -/
structure Login where
  credentialID : String
  username : String
  userSecret : String
  userKey : String

/-- `retentionDays`: the target's override, else the decision's. -/
def retentionDays (ep : Endpoint) (d : Decision) : Int :=
  if ep.retentionDays > 0 then ep.retentionDays else d.retentionDays

/-- The grant a ticket carries: who, where, and the decision's terms. -/
def ticketGrant (p : Principal) (ep : Endpoint) (proto : Protocol) (d : Decision)
    (ip failoverFrom : String) (login : Login) : Ticket.Grant where
  userID := p.userID
  username := login.username
  sessionID := p.sessionID
  targetID := ep.targetID
  asgID := ep.asgID
  asgInstanceID := ep.asgInstanceID
  protocol := proto
  credentialID := login.credentialID
  policyID := (d.policy.map Policy.id).getD ""
  idleTimeout := d.idleTimeout
  maxSession := d.maxSession
  retentionDays := retentionDays ep d
  allowClipboard := d.allowClipboard
  allowFileTransfer := d.allowFileTransfer
  allowDevTools := d.allowDevTools
  clientIP := ip
  failoverFrom := failoverFrom
  userSecret := login.userSecret
  userKey := login.userKey
  issuedAt := 0
  expiresAt := 0

namespace ConnectHandler

/-- `admits`: the gate, for a user reaching an endpoint. -/
def admits (h : ConnectHandler) (userID : String) (ep : Endpoint) (proto : Protocol)
    (now : Int) : Except Failure Admission :=
  h.gate.admitNow h.zones userID ep.policyRef proto now

/-- The user's own login: a password, or over ssh a private key, unlocked here. -/
def userLogin (h : ConnectHandler) (proto : Protocol) (uc : Option UserCredential)
    (credentialID : String) : Except Refused Login :=
  match uc with
  | none => .error (.refused "credential_required" "this target needs your username and password")
  | some uc =>
    if uc.username = "" ∨ (uc.password = "" ∧ uc.privateKey = "") then
      .error (.refused "credential_required" "this target needs your username and password")
    else if uc.privateKey = "" then .ok ⟨credentialID, uc.username, uc.password, ""⟩
    else if proto ≠ .ssh then
      .error (.refused "credential_required"
        "a private key signs in over SSH only; give your password")
    else if uc.privateKey.utf8ByteSize > maxUserKey ∨
        uc.passphrase.utf8ByteSize > maxUserPassphrase then
      .error (.refused "credential_invalid" "the private key is too large")
    else
      match h.unlockPrivateKey uc.privateKey uc.passphrase with
      | .error .passphrase =>
        .error (.refused "credential_invalid"
          "the key is encrypted, and its passphrase is missing or wrong")
      | .error .unreadable =>
        .error (.refused "credential_invalid"
          "that is not a private key this gateway can read (OpenSSH, PKCS#8 or PKCS#1)")
      | .ok key => .ok ⟨credentialID, uc.username, "", key⟩

/-- A vault entry's login, by its mode. -/
def vaultLogin (h : ConnectHandler) (p : Principal) (ep : Endpoint) (proto : Protocol)
    (uc : Option UserCredential) (credentialID : String) (cred : Credential) :
    Except Refused Login :=
  match cred.mode with
  | .vaulted =>
    if cred.type = .ec2InstanceConnect ∧ (ep.asgID = "" ∨ h.cloud = false) then
      .error (.refused "credential_mode_unavailable"
        "ec2 instance connect only applies to autoscaling instances")
    else if cred.type = .sshCA ∧ cred.permitsPrincipal (caLoginUser cred p.username) = false then
      .error (.refused "login_user_not_permitted"
        ("this certificate authority does not issue certificates for login user " ++
          caLoginUser cred p.username))
    else .ok ⟨credentialID, p.username, "", ""⟩
  | .userSupplied => h.userLogin proto uc credentialID
  | .other _ =>
    .error (.refused "credential_mode_unavailable" "credential mode not supported yet")

/-- How the person signs in: the target's slot decides when a deciding grant lets
it; their own login is asked for when every deciding grant says so, and used when
they bring it where a grant allows it. An application needs none. -/
def login (h : ConnectHandler) (p : Principal) (ep : Endpoint) (proto : Protocol)
    (uc : Option UserCredential) (d : Decision) : Except Refused Login :=
  if proto = .http then .ok ⟨"", p.username, "", ""⟩
  else if d.signInTarget = false ∨ (uc.isSome ∧ d.signInOwn = true) then h.userLogin proto uc ""
  else if ep.credentials proto = "" then
    .error (.refused "no_credential"
      ("no credential is configured for " ++ proto.text ++ " on this target"))
  else
    match h.vault (ep.credentials proto) with
    | .error e => .error (.failed e)
    | .ok cred => h.vaultLogin p ep proto uc (ep.credentials proto) cred

/-- `issueTicket`: the policy, pinning and credential checks for an endpoint, and
the store with the ticket. The gate reads the clock before the store does. -/
def issueTicket (h : ConnectHandler) (now stamp : Int) (p : Principal) (ip : String)
    (ep : Endpoint) (proto : Protocol) (uc : Option UserCredential)
    (failoverFrom tok : String) (store : Ticket.Store) : Except Refused Ticket.Store :=
  if h.draining then .error (.refused "restarting" restartingMsg)
  else if ep.active = false then
    if ep.asgInstanceID ≠ "" then
      .error (.refused "instance_unhealthy" "the instance is no longer healthy")
    else .error (.refused "target_disabled" "target is disabled")
  else if ep.asgID ≠ "" ∧ proto = .database then
    .error (.refused "protocol_unavailable"
      "database access is configured per endpoint, not per autoscaling group")
  else
    match h.admits p.userID ep proto now with
    | .error e => .error (.failed e)
    | .ok ⟨_, some (code, msg)⟩ => .error (.refused code.text msg)
    | .ok ⟨d, none⟩ =>
      match ep.pinCheck proto with
      | some (code, msg) => .error (.refused code msg)
      | none =>
        match h.login p ep proto uc d with
        | .error r => .error r
        | .ok login =>
          .ok (store.issue tok (ticketGrant p ep proto d ip failoverFrom login) stamp)

/-! ## Redeeming and starting -/

/-- `redeem`: the ticket's grant for a bridge, with the store as the call leaves
it. The gate is asked again, and only its refusal is used. -/
def redeem (h : ConnectHandler) (now stamp : Int) (tok ip : String) (p : Option Principal)
    (store : Ticket.Store) : Except Answer Ticket.Grant × Ticket.Store :=
  if h.draining then (.error ⟨503, "restarting", restartingMsg⟩, store)
  else
    let sessionID := (p.map Principal.sessionID).getD ""
    match store.redeem tok ip sessionID stamp with
    | (none, store) => (.error ⟨401, "invalid_ticket", "invalid or expired ticket"⟩, store)
    | (some g, store) =>
      if (p.map Principal.canConnect).getD false = false then
        (.error ⟨403, "review_only",
          "this account is review-only; the user role is required to reach targets"⟩, store)
      else
        match h.endpoints.resolveGrant g.targetID g.asgInstanceID with
        -- where the target itself is gone, the bridge says so
        | .error _ => (.ok g, store)
        | .ok ep =>
          match h.admits g.userID ep g.protocol now with
          | .error _ => (.error internalError, store)
          | .ok ⟨_, some (code, msg)⟩ => (.error ⟨codeStatus code.text, code.text, msg⟩, store)
          | .ok ⟨_, none⟩ => (.ok g, store)

/-- The socket routes. -/
inductive Bridge where
  | terminal
  | desktop
  | winrm
  | database
  deriving DecidableEq

/-- The protocols a route serves, and its answer to a ticket for another. -/
def Bridge.serves : Bridge → List Protocol
  | .terminal => [.ssh]
  | .desktop => [.rdp, .vnc, .http]
  | .winrm => [.winrm]
  | .database => [.database]

def Bridge.notFor : Bridge → String
  | .terminal => "ticket is not for ssh"
  | .desktop => "ticket is not for a desktop protocol"
  | .winrm => "ticket is not for winrm"
  | .database => "ticket is not for database"

/-- What a route asks of an endpoint it is about to open, besides being active. -/
def Bridge.ready (b : Bridge) (ep : Endpoint) : Bool :=
  match b with
  | .terminal => ep.hostKeyTrusted && ep.hostKeyFingerprint ≠ ""
  | .database => ep.engine ≠ ""
  | _ => true

/-- A route's checks on a redeemed grant, before it dials. -/
def openGrant (h : ConnectHandler) (b : Bridge) (g : Ticket.Grant) : Except Answer Endpoint :=
  if g.protocol ∉ b.serves then .error ⟨400, "bad_request", b.notFor⟩
  else if b = .desktop ∧ h.guacd = "" then
    .error ⟨501, "protocol_unavailable", "desktop sessions are not configured on this gateway"⟩
  else
    match h.endpoints.resolveGrant g.targetID g.asgInstanceID with
    | .error _ => .error ⟨409, "target_unavailable", "target is no longer available"⟩
    | .ok ep =>
      if ep.active && b.ready ep then .ok ep
      else .error ⟨409, "target_unavailable", "target is no longer available"⟩

/-- `live`: the session as the registry holds it, with the ticket's switches. -/
def liveSession (sessionID : String) (g : Ticket.Grant) (ep : Endpoint) : Live where
  sessionID := sessionID
  userID := g.userID
  targetID := ep.liveKey
  protocol := g.protocol
  policyID := g.policyID
  allowClipboard := g.allowClipboard
  allowFileTransfer := g.allowFileTransfer
  allowDevTools := g.allowDevTools
  ended := none

/-- A session start that nothing else stops: the ticket redeemed, the endpoint
opened, the session registered. -/
def start (h : ConnectHandler) (b : Bridge) (sessionID : String) (now stamp : Int)
    (tok ip : String) (p : Option Principal) (store : Ticket.Store) : Option Live :=
  match (h.redeem now stamp tok ip p store).1 with
  | .error _ => none
  | .ok g =>
    match h.openGrant b g with
    | .error _ => none
    | .ok ep => some (liveSession sessionID g ep)

/-! ## What a ticket and a start say of the gate -/

variable {h : ConnectHandler} {now stamp : Int} {p : Principal} {ip tok failoverFrom : String}
  {ep : Endpoint} {proto : Protocol} {uc : Option UserCredential} {store store' : Ticket.Store}
  {g : Ticket.Grant} {q : Option Principal} {b : Bridge}

/-- **A ticket carries the decision it was issued on**: who and where it was asked
for, and the switches of an allowing decision of the gate. -/
theorem issueTicket_ok
    (hissue : h.issueTicket now stamp p ip ep proto uc failoverFrom tok store = .ok store') :
    ∃ d login, h.admits p.userID ep proto now = .ok ⟨d, none⟩ ∧
      store' = store.issue tok (ticketGrant p ep proto d ip failoverFrom login) stamp := by
  unfold issueTicket at hissue
  split at hissue
  · cases hissue
  split at hissue
  · split at hissue <;> cases hissue
  split at hissue
  · cases hissue
  split at hissue
  · cases hissue
  · cases hissue
  rename_i d hadmits
  split at hissue
  · cases hissue
  split at hissue
  · cases hissue
  rename_i login _
  exact ⟨d, login, hadmits, (Except.ok.inj hissue).symm⟩

/-- A redemption that succeeds gives the grant the store held; where its endpoint
resolves, the gate admits it now. -/
theorem redeem_ok (hredeem : (h.redeem now stamp tok ip q store).1 = .ok g) :
    (∃ sessionID, (store.redeem tok ip sessionID stamp).1 = some g) ∧
      ∀ ep, h.endpoints.resolveGrant g.targetID g.asgInstanceID = .ok ep →
        ∃ d, h.admits g.userID ep g.protocol now = .ok ⟨d, none⟩ := by
  unfold redeem at hredeem
  split at hredeem
  · cases hredeem
  dsimp only at hredeem
  split at hredeem
  · cases hredeem
  rename_i g' store' hstored
  split at hredeem
  · cases hredeem
  split at hredeem
  · rename_i e hres
    cases hredeem
    refine ⟨⟨_, by rw [hstored]⟩, fun ep hep => ?_⟩
    cases hres.symm.trans hep
  · rename_i ep hres
    split at hredeem
    · cases hredeem
    · cases hredeem
    rename_i d hadmits
    cases hredeem
    refine ⟨⟨_, by rw [hstored]⟩, fun ep' hep' => ⟨d, ?_⟩⟩
    cases hres.symm.trans hep'
    exact hadmits

theorem resolve_of_openGrant (hopen : h.openGrant b g = .ok ep) :
    h.endpoints.resolveGrant g.targetID g.asgInstanceID = .ok ep := by
  unfold openGrant at hopen
  split at hopen
  · cases hopen
  split at hopen
  · cases hopen
  split at hopen
  · cases hopen
  rename_i ep' hres
  split at hopen
  · rwa [← Except.ok.inj hopen]
  · cases hopen

theorem start_eq_some {sid : String} {l : Live}
    (hstart : h.start b sid now stamp tok ip q store = some l) :
    ∃ g ep, (h.redeem now stamp tok ip q store).1 = .ok g ∧ h.openGrant b g = .ok ep ∧
      l = liveSession sid g ep := by
  unfold start at hstart
  split at hstart
  · cases hstart
  rename_i g hredeem
  split at hstart
  · cases hstart
  rename_i ep hopen
  exact ⟨g, ep, hredeem, hopen, (Option.some.inj hstart).symm⟩

/-! ## Two decisions -/

/-- Every switch that one of the grants deciding now turns off was off in one of
the grants that decided before. -/
structure SwitchesOffBefore (before now : List Decider) : Prop where
  clipboard : ∀ c ∈ now, c.g.allowClipboard = false →
    ∃ c' ∈ before, c'.g.allowClipboard = false
  fileTransfer : ∀ c ∈ now, c.g.allowFileTransfer = false →
    ∃ c' ∈ before, c'.g.allowFileTransfer = false
  devTools : ∀ c ∈ now, c.g.allowDevTools = false →
    ∃ c' ∈ before, c'.g.allowDevTools = false

/-- **The switches of a session and the decision at redemption.** A ticket is
issued under one state of the gateway, other requests use the ticket store, and
under another state, whatever it is, a session starts from the ticket: its
switches are no broader than the gate's decision then exactly when every switch
that a grant deciding then turns off was off in a grant that decided at issue. -/
theorem ticket_switches_iff (h₁ h₂ : ConnectHandler) {now₁ now₂ stamp₁ stamp₂ : Int}
    {p : Principal} {q : Option Principal} {ip ip' tok failoverFrom sid : String}
    {ep₁ ep₂ : Endpoint} {proto : Protocol} {uc : Option UserCredential} {b : Bridge}
    {store store₁ store₂ : Ticket.Store} {calls : List Ticket.Store.Call}
    {pols₁ pols₂ : List Policy} {l : Live}
    (hissue : h₁.issueTicket now₁ stamp₁ p ip ep₁ proto uc failoverFrom tok store = .ok store₁)
    (hcalls : Lib.RunWhere Ticket.Store.step (fun _ call => call.Spares tok) store₁ calls store₂)
    (hstart : h₂.start b sid now₂ stamp₂ tok ip' q store₂ = some l)
    (hep₂ : h₂.endpoints.resolveGrant ep₁.targetID ep₁.asgInstanceID = .ok ep₂)
    (hpols₁ : h₁.gate.forUser p.userID = .ok pols₁)
    (hpols₂ : h₂.gate.forUser p.userID = .ok pols₂) :
    (∃ d, h₂.admits p.userID ep₂ proto now₂ = .ok ⟨d, none⟩ ∧ Handler.broader l d = false) ↔
      SwitchesOffBefore (deciding h₁.zones ep₁.policyRef proto now₁ true pols₁)
        (deciding h₂.zones ep₂.policyRef proto now₂ true pols₂) := by
  obtain ⟨d₁, login, hadmitted₁, rfl⟩ := issueTicket_ok hissue
  obtain ⟨g, ep, hredeem, hopen, hl⟩ := start_eq_some hstart
  obtain ⟨⟨sessionID, hstored⟩, hasked⟩ := redeem_ok hredeem
  -- the store gives back the grant that was issued, so its terms are the first
  -- decision's, and the gate was asked about the same user and protocol
  obtain rfl := Ticket.Store.redeem_issued hcalls hstored
  obtain ⟨d₂, hadmitted₂⟩ := hasked ep₂ hep₂
  obtain ⟨hd₁, hcand₁, -, -⟩ := Handler.admitted_of_admitWith hpols₁ hadmitted₁
  obtain ⟨hd₂, hcand₂, -, -⟩ := Handler.admitted_of_admitWith hpols₂ hadmitted₂
  have hswitches : Handler.broader l d₂ = false ↔
      (d₁.allowClipboard → d₂.allowClipboard) ∧
        (d₁.allowFileTransfer → d₂.allowFileTransfer) ∧
        (d₁.allowDevTools → d₂.allowDevTools) := by
    rw [hl]
    exact Handler.broader_eq_false_iff
  have hdecision : (∃ d, h₂.admits p.userID ep₂ proto now₂ = .ok ⟨d, none⟩ ∧
      Handler.broader l d = false) ↔ Handler.broader l d₂ = false := by
    constructor
    · rintro ⟨d, hd, hbroad⟩
      cases hd.symm.trans hadmitted₂
      exact hbroad
    · exact fun hbroad => ⟨d₂, hadmitted₂, hbroad⟩
  obtain ⟨hclip₁, hfile₁, hdev₁⟩ := evaluate_switches hcand₁
  obtain ⟨hclip₂, hfile₂, hdev₂⟩ := evaluate_switches hcand₂
  rw [hdecision, hswitches, hd₁, hd₂, hclip₁, hclip₂, hfile₁, hfile₂, hdev₁, hdev₂,
    on_imp_on_iff Grant.allowClipboard, on_imp_on_iff Grant.allowFileTransfer,
    on_imp_on_iff Grant.allowDevTools]
  exact ⟨fun ⟨hc, hf, hv⟩ => ⟨hc, hf, hv⟩, fun ⟨hc, hf, hv⟩ => ⟨hc, hf, hv⟩⟩

end ConnectHandler

/-! ## A clipboard switched off in between -/

/-- A policy of `u` with one grant, ssh on the host `h` with the clipboard as
given. -/
def clipboardPolicy (clipboard : Bool) : Policy :=
  { officePolicy clipboard clipboard with grants := [windowGrant clipboard []] }

/-- The gateway with that policy alone. -/
def clipboardHandler (clipboard : Bool) : ConnectHandler where
  zones := sundayNoon
  gate := ⟨fun _ => .ok [clipboardPolicy clipboard], none, none⟩
  session _ := .error "session: not found"
  endpoints := plainEndpoints
  draining := false
  guacd := ""
  vault _ := .ok ⟨.other "password", .vaulted, "root", []⟩
  cloud := false
  unlockPrivateKey _ _ := .error .unreadable

/-- The user `u`, signed in. -/
def principalU : Principal := ⟨"u", "u", "browser", true⟩

/-- The endpoint of the host `h`. -/
def endpointH : Endpoint :=
  ⟨"h", "", "", "", "", ∅, "h", true, fun _ => none, fun _ => "c", "SHA256:k", true, "", "", 0⟩

/-- A ticket is issued with the clipboard on; an administrator switches it off; a
second later the ticket is redeemed. The gate's decision then has the clipboard
off, and the session starts with it on. -/
theorem narrowed_ticket_keeps_clipboard :
    ∃ store l d, (clipboardHandler true).issueTicket 0 0 principalU "ip" endpointH .ssh none ""
        "t" ∅ = .ok store ∧
      (clipboardHandler false).start .terminal "s" 1000000000 1000000000 "t" "ip"
        (some principalU) store = some l ∧
      (clipboardHandler false).admits "u" endpointH .ssh 1000000000 = .ok ⟨d, none⟩ ∧
      l.allowClipboard = true ∧ d.allowClipboard = false :=
  ⟨_, _, _, rfl, rfl, rfl, rfl, rfl⟩

/-- With nothing changed in between, the session starts as the gate decides. -/
theorem ticket_switches_unchanged :
    ∃ store l, (clipboardHandler true).issueTicket 0 0 principalU "ip" endpointH .ssh none ""
        "t" ∅ = .ok store ∧
      (clipboardHandler true).start .terminal "s" 1000000000 1000000000 "t" "ip"
        (some principalU) store = some l ∧
      ((∃ d, (clipboardHandler true).admits "u" endpointH .ssh 1000000000 = .ok ⟨d, none⟩ ∧
          Handler.broader l d = false) ↔
        ConnectHandler.SwitchesOffBefore
          (deciding sundayNoon endpointH.policyRef .ssh 0 true
            [clipboardPolicy true])
          (deciding sundayNoon endpointH.policyRef .ssh 1000000000 true
            [clipboardPolicy true])) := by
  refine ⟨?store, ?l, ?issue, ?start, ConnectHandler.ticket_switches_iff _ _ ?issue .nil ?start rfl
    rfl rfl⟩
  case issue => rfl
  case start => rfl

end Zanskar
