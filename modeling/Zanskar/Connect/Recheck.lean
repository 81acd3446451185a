import Zanskar.Access.Gate
import Zanskar.Gateway.Registry

/-!
# Re-checking live sessions (`internal/connect/revoke.go`)

A policy, group or membership change re-checks every live session of the users
it touches against the access they hold now, through the gate a fresh connect
passes (`recheck`): a session ends when it would be refused, or when its
clipboard, file transfer or developer tools would now be off. A session that
cannot be checked is kept.

`Handler.Holds` is what a re-check asks of one session; `mem_running_recheck` says
exactly which sessions one leaves running. The rest of the module compares the
re-check with the gate that admitted the session. Admission honours time windows,
and the re-check counts every window as open, so a grant whose window is shut
enters the deciding grants only there. Its terms are then met with the others'
(`recheck_keeps_iff`).
-/

namespace Zanskar

open List

/-- One switch, on in all of the first set only if in all of the second. -/
theorem on_imp_on_iff {before now : List Decider} (switch : Grant → Bool) :
    ((∀ c ∈ before, switch c.g) → ∀ c ∈ now, switch c.g) ↔
      ∀ c ∈ now, switch c.g = false → ∃ c' ∈ before, switch c'.g = false := by
  constructor
  · intro himp c hc hoff
    by_contra hnone
    push Not at hnone
    have hon := himp (fun c' hc' => by simpa using hnone c' hc') c hc
    cases hoff.symm.trans hon
  · intro hoff hon c hc
    by_contra hc_off
    obtain ⟨c', hc', hc'_off⟩ := hoff c hc (by simpa using hc_off)
    rw [hon c' hc'] at hc'_off
    cases hc'_off

/-- What a session's row names: its target or autoscaling instance. -/
structure SessionRow where
  targetID : String
  asgInstanceID : String

/-- The connect handler: the gate, and the lookups it makes. -/
structure Handler where
  zones : Zones
  gate : Gate
  /-- `Sessions.Get`. -/
  session : String → Except Failure SessionRow
  /-- The targets and autoscaling instances. -/
  endpoints : Endpoints

namespace Handler

/-- `sessionRef`: what a live session is connected to. -/
def sessionRef (h : Handler) (sessionID : String) : Except Failure TargetRef :=
  match h.session sessionID with
  | .error e => .error e
  | .ok s =>
    match h.endpoints.resolveGrant s.targetID s.asgInstanceID with
    | .error e => .error e
    | .ok ep => .ok ep.policyRef

/-- The session runs with a switch on that the decision has off. -/
def broader (l : Live) (d : Decision) : Bool :=
  (l.allowClipboard && !d.allowClipboard) || (l.allowFileTransfer && !d.allowFileTransfer) ||
    (l.allowDevTools && !d.allowDevTools)

/-- The body of `Recheck`'s loop: whether the session is withdrawn. -/
def withdraws (h : Handler) (now : Int) (l : Live) : Bool :=
  match h.sessionRef l.sessionID with
  | .error _ => false
  | .ok ref =>
    match h.gate.admitLive h.zones l.userID ref l.protocol now with
    | .error _ => false
    | .ok a => a.refusal.isSome || broader l a.d

/-- `Recheck`: re-checks every live session of the users, and ends the ones
withdrawn. -/
def recheck (h : Handler) (userIDs : List String) (now : Int) (reg : Registry) : Registry :=
  let sessions := reg.live.filter fun l => userIDs.contains l.userID
  let withdrawn := sessions.filter (h.withdraws now)
  withdrawn.foldl (fun r l => r.terminateWithCause l.sessionID .policyRevoked) reg

/-- `UserRevoked`: ends every live session of the user. -/
def userRevoked (userID : String) (reg : Registry) : Registry := reg.terminateUser userID

/-- The session is admitted by `AdmitLive`, with switches no broader than the
live decision. -/
def Holds (h : Handler) (now : Int) (l : Live) : Prop :=
  ∃ ref a, h.sessionRef l.sessionID = .ok ref ∧
    h.gate.admitLive h.zones l.userID ref l.protocol now = .ok a ∧ a.refusal = none ∧
    broader l a.d = false

/-! ## Which sessions a re-check leaves -/

variable {h : Handler} {now : Int} {reg : Registry} {l : Live}

theorem withdraws_of_holds (hold : h.Holds now l) : h.withdraws now l = false := by
  obtain ⟨ref, a, href, ha, hnone, hbroad⟩ := hold
  simp [withdraws, href, ha, hnone, hbroad]

theorem holds_iff_withdraws {ref : TargetRef} {a : Admission}
    (href : h.sessionRef l.sessionID = .ok ref)
    (ha : h.gate.admitLive h.zones l.userID ref l.protocol now = .ok a) :
    h.Holds now l ↔ h.withdraws now l = false := by
  refine ⟨withdraws_of_holds, fun hw => ⟨ref, a, href, ha, ?_⟩⟩
  simp only [withdraws, href, ha, Bool.or_eq_false_iff] at hw
  exact ⟨by simpa using hw.1, hw.2⟩

theorem mem_running_foldl_terminate (ws : List Live) (cause : Cause) :
    l ∈ (ws.foldl (fun r w => r.terminateWithCause w.sessionID cause) reg).running ↔
      l ∈ reg.running ∧ ∀ w ∈ ws, l.sessionID ≠ w.sessionID := by
  induction ws generalizing reg with
  | nil => simp
  | cons w ws ih =>
    rw [foldl_cons, ih, Registry.terminateWithCause, Registry.mem_running_terminateWhere,
      forall_mem_cons, decide_eq_false_iff_not, and_assoc]

/-- **What a re-check leaves running**: every session of other users, and those
of the users that are not withdrawn. -/
theorem mem_running_recheck {userIDs : List String} :
    l ∈ (h.recheck userIDs now reg).running ↔
      l ∈ reg.running ∧ (l.userID ∈ userIDs → h.withdraws now l = false) := by
  unfold recheck
  rw [mem_running_foldl_terminate]
  refine and_congr_right fun hrun => ?_
  have hl := (Registry.mem_running.mp hrun).1
  simp only [mem_filter, contains_iff_mem, and_imp]
  constructor
  · intro hall huser
    by_contra hw
    exact hall l hl huser (by simpa using hw) rfl
  · intro hkeep w hw huser hwith heq
    obtain rfl := Registry.eq_of_sessionID_eq hl hw heq
    rw [hkeep huser] at hwith
    cases hwith

/-! ## A re-check at the instant of admission -/

/-- The grants whose window is shut now, and that decide once windows are not
counted, ask for no authenticator the user lacks. -/
def ShutGrantsEnrolled (h : Handler) (userID : String) (ref : TargetRef)
    (proto : Protocol) (now : Int) (pols : List Policy) : Prop :=
  ∀ c ∈ deciding h.zones ref proto now false pols,
    c.g.windowOpen h.zones now true = false → c.g.requireMFA = true →
      h.gate.passesMFA userID = true

/-- The grants whose window is shut now, and that decide once windows are not
counted, take nothing away: they ask for no authenticator the user lacks, and
turn off no switch that the grants deciding now leave on. -/
structure ShutGrantsAgree (h : Handler) (userID : String) (ref : TargetRef)
    (proto : Protocol) (now : Int) (pols : List Policy) : Prop where
  mfa : h.ShutGrantsEnrolled userID ref proto now pols
  clipboard : ∀ c ∈ deciding h.zones ref proto now false pols,
    c.g.windowOpen h.zones now true = false → c.g.allowClipboard = false →
      ∃ c' ∈ deciding h.zones ref proto now true pols, c'.g.allowClipboard = false
  fileTransfer : ∀ c ∈ deciding h.zones ref proto now false pols,
    c.g.windowOpen h.zones now true = false → c.g.allowFileTransfer = false →
      ∃ c' ∈ deciding h.zones ref proto now true pols, c'.g.allowFileTransfer = false
  devTools : ∀ c ∈ deciding h.zones ref proto now false pols,
    c.g.windowOpen h.zones now true = false → c.g.allowDevTools = false →
      ∃ c' ∈ deciding h.zones ref proto now true pols, c'.g.allowDevTools = false

section SameInstant

variable {ref : TargetRef} {pols : List Policy} {d : Decision} {proto : Protocol} {userID : String}

/-- One switch of a session admitted now, against the live decision. -/
theorem switch_kept_iff (zones : Zones) (switch : Grant → Bool) :
    ((∀ c ∈ deciding zones ref proto now true pols, switch c.g) →
      ∀ c ∈ deciding zones ref proto now false pols, switch c.g) ↔
    ∀ c ∈ deciding zones ref proto now false pols,
      c.g.windowOpen zones now true = false → switch c.g = false →
        ∃ c' ∈ deciding zones ref proto now true pols, switch c'.g = false := by
  rw [on_imp_on_iff]
  refine ⟨fun h c hc _ hoff => h c hc hoff, fun h c hc hoff => ?_⟩
  cases hopen : c.g.windowOpen zones now true with
  | true => exact ⟨c, mem_deciding_of_open hc hopen, hoff⟩
  | false => exact h c hc hopen hoff

/-- A session with the switches of a decision is broader than another decision
exactly when a switch is on in the first and off in the second. -/
theorem broader_eq_false_iff :
    broader l d = false ↔ (l.allowClipboard → d.allowClipboard) ∧
      (l.allowFileTransfer → d.allowFileTransfer) ∧
      (l.allowDevTools → d.allowDevTools) := by
  unfold broader
  cases l.allowClipboard <;> cases l.allowFileTransfer <;> cases l.allowDevTools <;>
    simp [and_assoc]

theorem candidates_live_ne_nil (hcand : candidates h.zones ref proto now true pols ≠ []) :
    candidates h.zones ref proto now false pols ≠ [] := by
  obtain ⟨c, hc⟩ := exists_mem_of_ne_nil _ hcand
  exact ne_nil_of_mem (mem_candidates_live hc)

theorem admitted_of_admitWith {windows : Bool} (hpols : h.gate.forUser userID = .ok pols)
    (hadmitted : h.gate.admitWith h.zones windows userID ref proto now = .ok ⟨d, none⟩) :
    d = evaluate h.zones pols ref proto now windows ∧
      candidates h.zones ref proto now windows pols ≠ [] ∧
      h.gate.granted d userID ref proto now = .ok true ∧
      h.gate.enrolled d userID = .ok true := by
  rw [Gate.admitWith_eq hpols] at hadmitted
  obtain ⟨heq, hall, hgranted, henrolled⟩ := Gate.check_eq_admitted_iff.mp ⟨hadmitted, rfl⟩
  cases heq
  exact ⟨rfl, evaluate_allowed_iff.mp hall, hgranted, henrolled⟩

/-- **What admission says of the live gate.** Where the gate admits now, the live
gate does exactly when the grants with a shut window ask for no authenticator the
user lacks. -/
theorem admitLive_iff_of_admitNow (hpols : h.gate.forUser userID = .ok pols)
    (hadmitted : h.gate.admitNow h.zones userID ref proto now = .ok ⟨d, none⟩) :
    h.gate.admitLive h.zones userID ref proto now =
        .ok ⟨evaluate h.zones pols ref proto now false, none⟩ ↔
      h.ShutGrantsEnrolled userID ref proto now pols := by
  obtain ⟨hd, hcand, hgranted, henrolled⟩ := admitted_of_admitWith hpols hadmitted
  have hlive := candidates_live_ne_nil hcand
  -- approval: where no standing grant decides without windows, none does with
  -- them, and the grant that was active for admission is active still
  have happroved : h.gate.granted (evaluate h.zones pols ref proto now false) userID
      ref proto now = .ok true := by
    unfold Gate.granted at hgranted ⊢
    cases hg : h.gate.grants with
    | none => rfl
    | some has =>
      rw [hg] at hgranted
      dsimp only at hgranted ⊢
      split
      · rename_i hreq
        rw [evaluate_requireApproval hlive, List.isEmpty_iff] at hreq
        rwa [hd, evaluate_requireApproval hcand, standing_eq_nil_of_live hreq,
          isEmpty_nil, if_pos rfl] at hgranted
      · rfl
  have hmfa : h.gate.admitLive h.zones userID ref proto now =
        .ok ⟨evaluate h.zones pols ref proto now false, none⟩ ↔
      ((evaluate h.zones pols ref proto now false).requireMFA →
        h.gate.passesMFA userID) := by
    rw [← Gate.enrolled_eq_true_iff, Gate.admitLive, Gate.admitWith_eq hpols]
    constructor
    · intro ha
      obtain ⟨-, -, -, henr⟩ := Gate.check_eq_admitted_iff.mp ⟨ha, rfl⟩
      exact henr
    · intro henr
      exact (Gate.check_eq_admitted_iff.mpr
        ⟨rfl, evaluate_allowed_iff.mpr hlive, happroved, henr⟩).1
  rw [hmfa, evaluate_requireMFA_iff hlive]
  constructor
  · intro hasked c hcl _ hreq
    exact hasked ⟨c, hcl, hreq⟩
  · rintro hshut ⟨c, hcl, hreq⟩
    cases hopen : c.g.windowOpen h.zones now true with
    | false => exact hshut c hcl hopen hreq
    | true =>
      -- an open grant that asks was asked about at admission
      rw [hd, Gate.enrolled_eq_true_iff, evaluate_requireMFA_iff hcand] at henrolled
      exact henrolled ⟨c, mem_deciding_of_open hcl hopen, hreq⟩

/-- **A session admitted now holds now** exactly when the grants with a shut
window agree. -/
theorem holds_iff_shutGrantsAgree (href : h.sessionRef l.sessionID = .ok ref)
    (hpols : h.gate.forUser l.userID = .ok pols)
    (hadmitted : h.gate.admitNow h.zones l.userID ref l.protocol now = .ok ⟨d, none⟩)
    (hclip : l.allowClipboard = d.allowClipboard)
    (hfile : l.allowFileTransfer = d.allowFileTransfer) (hdev : l.allowDevTools = d.allowDevTools) :
    h.Holds now l ↔ h.ShutGrantsAgree l.userID ref l.protocol now pols := by
  obtain ⟨hd, hcand, -, -⟩ := admitted_of_admitWith hpols hadmitted
  have hlive := candidates_live_ne_nil hcand
  have hholds : h.Holds now l ↔
      h.ShutGrantsEnrolled l.userID ref l.protocol now pols ∧
      broader l (evaluate h.zones pols ref l.protocol now false) = false := by
    rw [← admitLive_iff_of_admitNow hpols hadmitted]
    constructor
    · rintro ⟨ref', ⟨dl, _⟩, href', ha, rfl, hbroad⟩
      cases href'.symm.trans href
      obtain ⟨hlived, -, -, -⟩ := admitted_of_admitWith hpols ha
      rw [hlived] at ha hbroad
      exact ⟨ha, hbroad⟩
    · rintro ⟨ha, hbroad⟩
      exact ⟨ref, _, href, ha, rfl, hbroad⟩
  obtain ⟨hclipNow, hfileNow, hdevNow⟩ := evaluate_switches hcand
  obtain ⟨hclipLive, hfileLive, hdevLive⟩ := evaluate_switches hlive
  rw [hholds, broader_eq_false_iff, hclip, hfile, hdev, hd, hclipNow, hclipLive, hfileNow,
    hfileLive, hdevNow, hdevLive, switch_kept_iff _ Grant.allowClipboard,
    switch_kept_iff _ Grant.allowFileTransfer, switch_kept_iff _ Grant.allowDevTools]
  constructor
  · rintro ⟨hmfa, hc, hf, hv⟩
    exact ⟨hmfa, hc, hf, hv⟩
  · rintro ⟨hmfa, hc, hf, hv⟩
    exact ⟨hmfa, hc, hf, hv⟩

/-- **A re-check at the instant of admission.** A session that `Admit` admits now,
registered with the decision's switches, is admitted by `AdmitLive` with switches
no broader than the live decision, and a re-check of its user leaves it running,
exactly when the grants with a shut window agree. -/
theorem recheck_keeps_iff (h : Handler) (reg : Registry) (l : Live) (userIDs : List String)
    (now : Int) {ref : TargetRef} {pols : List Policy} {d : Decision}
    (href : h.sessionRef l.sessionID = .ok ref) (hpols : h.gate.forUser l.userID = .ok pols)
    (hadmitted : h.gate.admitNow h.zones l.userID ref l.protocol now = .ok ⟨d, none⟩)
    (hclip : l.allowClipboard = d.allowClipboard)
    (hfile : l.allowFileTransfer = d.allowFileTransfer)
    (hdev : l.allowDevTools = d.allowDevTools) (hlive : l.ended = none) :
    h.Holds now l ∧ l ∈ (h.recheck userIDs now (reg.add l)).running ↔
      h.ShutGrantsAgree l.userID ref l.protocol now pols := by
  rw [← holds_iff_shutGrantsAgree href hpols hadmitted hclip hfile hdev]
  refine ⟨fun hboth => hboth.1, fun hholds => ⟨hholds, mem_running_recheck.mpr ⟨?_, ?_⟩⟩⟩
  · exact Registry.mem_running.mpr ⟨Registry.mem_add.mpr (Or.inr rfl), hlive⟩
  · exact fun _ => withdraws_of_holds hholds

end SameInstant

end Handler

/-! ## Office hours -/

/-- Sunday noon in every zone. -/
def sundayNoon : Zones :=
  ⟨fun _ => some fun _ => ⟨⟨12, by decide⟩, ⟨0, by decide⟩, ⟨0, by decide⟩⟩⟩

/-- ssh on the host `h`, standing, with the clipboard as given and the windows as
given. -/
def windowGrant (clipboard : Bool) (windows : List TimeWindow) : Grant where
  id := "g"
  kind := .host
  targets := [⟨"h", [.ssh]⟩]
  tags := none
  access := .standing
  signIn := .target
  requireMFA := false
  allowClipboard := clipboard
  allowFileTransfer := false
  allowDevTools := false
  idleTimeoutMinutes := 15
  maxSessionMinutes := none
  timeWindows := windows
  retentionDays := none

/-- A policy of `u` with one grant at any time and one in office hours. -/
def officePolicy (anytime office : Bool) : Policy where
  id := "p"
  name := "p"
  description := ""
  enabled := true
  subjects := [⟨.user, "u"⟩]
  grants := [windowGrant anytime [],
    windowGrant office [⟨["mon", "tue", "wed", "thu", "fri"], "09:00", "17:00", "UTC"⟩]]
  createdBy := ""
  createdAt := 0
  updatedAt := 0
  reviewedAt := none
  reviewedBy := ""

/-- A host under each id, its key trusted and a credential bound to it, and no
autoscaling group. -/
def plainEndpoints : Endpoints where
  resolveTarget id :=
    .ok ⟨id, "", "", "", "", ∅, id, true, fun _ => none, fun _ => "c", "SHA256:k", true, "", "", 0⟩
  resolveInstance _ := .error "asg: not found"
  target_id := by
    rintro id ep h
    cases h
    exact ⟨rfl, rfl⟩
  instance_id := by
    rintro id ep h
    cases h

/-- The handler over that policy. -/
def officeHandler (anytime office : Bool) : Handler where
  zones := sundayNoon
  gate := ⟨fun _ => .ok [officePolicy anytime office], none, none⟩
  session _ := .ok ⟨"h", ""⟩
  endpoints := plainEndpoints

/-- A session of `u` on `h`. -/
def officeSession (clipboard : Bool) : Live :=
  ⟨"s", "u", "h", .ssh, "p", clipboard, false, false, none⟩

/-- On a Sunday the grant at any time admits with the clipboard on; the re-check
also counts the office-hours grant, whose clipboard is off, and ends the session
it was admitted to a moment ago. -/
theorem shut_window_ends_session :
    (∃ d, (officeHandler true false).gate.admitNow sundayNoon "u" ⟨.host, "h", "", ∅⟩ .ssh 0 =
        .ok ⟨d, none⟩ ∧ d.allowClipboard = true ∧ d.allowFileTransfer = false ∧
          d.allowDevTools = false) ∧
      officeSession true ∉ ((officeHandler true false).recheck ["u"] 0
        (Registry.empty.add (officeSession true))).running := by
  refine ⟨⟨_, rfl, rfl, rfl, rfl⟩, ?_⟩
  rw [Handler.mem_running_recheck]
  rintro ⟨-, hkeep⟩
  have hgone : (officeHandler true false).withdraws 0 (officeSession true) := by rfl
  rw [hkeep mem_cons_self] at hgone
  cases hgone

/-- With the clipboard off at any time too, the session is kept. -/
theorem recheck_keeps_office_session :
    ∃ d, (officeHandler false false).gate.admitNow sundayNoon "u" ⟨.host, "h", "", ∅⟩ .ssh 0 =
        .ok ⟨d, none⟩ ∧
      ((officeHandler false false).Holds 0 (officeSession false) ∧
          officeSession false ∈ ((officeHandler false false).recheck ["u"] 0
            (Registry.empty.add (officeSession false))).running ↔
        (officeHandler false false).ShutGrantsAgree "u" ⟨.host, "h", "", ∅⟩ .ssh 0
          [officePolicy false false]) :=
  ⟨_, rfl, Handler.recheck_keeps_iff (officeHandler false false) .empty (officeSession false)
    ["u"] 0 rfl rfl rfl rfl rfl rfl rfl⟩

end Zanskar
