import Zanskar.Connect.Issue

/-!
# Session starts and re-checks, interleaved

A session start takes several steps: the ticket is redeemed and the gate asked,
the row is written, the target is dialled (for minutes, where an image is
pulled), and only then the session enters the registry. An administrator's change
takes several too: it is committed, then the re-check lists the live sessions of
the users it touched, checks them one by one and ends the ones withdrawn. The
machine below takes these steps in any order, for any number of starts, changes
and re-checks.

A re-check sees only sessions in the registry. A start whose gate check came
before the commit and whose registration comes after the re-check listed the
sessions is seen by neither (`start_outruns_recheck`).

`no_refused_session` is what holds where a start registers only if its gate check
saw the access of its user as it is, or a re-check of the user is still to begin
(`Orderly`).
-/

namespace Zanskar

open Lib List

/-! ## Who is refused -/

namespace Handler

/-- `AdmitLive` refuses the user the endpoint that the two ids name. -/
def refusesAt (h : Handler) (now : Int) (userID targetID asgInstanceID : String)
    (proto : Protocol) : Bool :=
  match h.endpoints.resolveGrant targetID asgInstanceID with
  | .error _ => false
  | .ok ep =>
    match h.gate.admitLive h.zones userID ep.policyRef proto now with
    | .error _ => false
    | .ok a => a.refusal.isSome

/-- `AdmitLive` refuses the live session. -/
def refuses (h : Handler) (now : Int) (l : Live) : Bool :=
  match h.session l.sessionID with
  | .error _ => false
  | .ok row => h.refusesAt now l.userID row.targetID row.asgInstanceID l.protocol

variable {now : Int} {h : Handler} {now' : Int}

theorem withdraws_of_refuses {l : Live}
    (hrefused : h.refuses now l) : h.withdraws now l := by
  unfold refuses refusesAt at hrefused
  unfold withdraws sessionRef
  cases hrow : h.session l.sessionID with
  | error e => simp [hrow] at hrefused
  | ok row =>
    cases hep : h.endpoints.resolveGrant row.targetID row.asgInstanceID with
    | error e => simp [hrow, hep] at hrefused
    | ok ep =>
      cases ha : h.gate.admitLive h.zones l.userID ep.policyRef l.protocol now with
      | error e => simp [hrow, hep, ha] at hrefused
      | ok a =>
        simp only [hrow, hep, ha] at hrefused ⊢
        rw [hrefused, Bool.true_or]

/-- The approvals answer alike at the two instants. -/
def SameApprovals (g : Gate) (now now' : Int) : Prop :=
  ∀ has, g.grants = some has → ∀ userID targetID asgID proto,
    has userID targetID asgID proto now' = has userID targetID asgID proto now

/-- The clock matters to the live gate through approvals alone. -/
theorem refusesAt_now (hsame : SameApprovals h.gate now now')
    (userID targetID asgInstanceID : String) (proto : Protocol) :
    h.refusesAt now' userID targetID asgInstanceID proto =
      h.refusesAt now userID targetID asgInstanceID proto := by
  have hgranted : ∀ d ref, h.gate.granted d userID ref proto now' =
      h.gate.granted d userID ref proto now := by
    intro d ref
    unfold Gate.granted
    cases hg : h.gate.grants with
    | none => rfl
    | some has =>
      dsimp only
      rw [hsame has hg]
  have hlive : ∀ ref, h.gate.admitLive h.zones userID ref proto now' =
      h.gate.admitLive h.zones userID ref proto now := by
    intro ref
    unfold Gate.admitLive Gate.admitWith
    cases h.gate.forUser userID with
    | error e => rfl
    | ok pols =>
      -- the live decision does not read the clock
      show h.gate.check (evaluate h.zones pols ref proto now false) userID ref proto now' = _
      unfold Gate.check
      rw [hgranted]
  unfold refusesAt
  simp [hlive]

theorem refuses_now (hsame : SameApprovals h.gate now now')
    (l : Live) : h.refuses now' l = h.refuses now l := by
  unfold refuses
  cases h.session l.sessionID with
  | error e => rfl
  | ok row => exact refusesAt_now hsame _ _ _ _

end Handler

/-! ## The machine -/

/-- How far a start has come: its ticket redeemed, or its row written under an id
for an endpoint. -/
inductive Phase where
  | redeemed
  | started (sessionID : String) (ep : Endpoint)

/-- A session start in progress. -/
structure Start where
  bridge : ConnectHandler.Bridge
  grant : Ticket.Grant
  phase : Phase
  /-- An access change that touches the user was committed since the gate was
  asked. -/
  stale : Bool

/-- A re-check in progress: the sessions it listed and has not checked, and those
it found withdrawn. -/
structure Sweep where
  now : Int
  todo : List Live
  withdrawn : List Live

/-- The gateway. -/
structure ConnectState where
  /-- What the gate and the checks read, as committed. -/
  handler : ConnectHandler
  now : Int
  tickets : Ticket.Store
  starts : List Start
  /-- The users that committed changes touched and whose re-check has not begun,
  once for each change. -/
  pending : List String
  sweeps : List Sweep
  registry : Registry

/-- One step of one request. -/
inductive ConnectLabel where
  | issue (p : Principal) (ip : String) (ep : Endpoint) (proto : Protocol)
      (uc : Option UserCredential) (failoverFrom tok : String)
  | redeem (b : ConnectHandler.Bridge) (tok ip : String) (p : Option Principal)
  /-- The endpoint is opened and the session's row written. -/
  | startRun (i : Nat) (sessionID : String)
  /-- The dial, the recording or the client failed. -/
  | abandon (i : Nat)
  | register (i : Nat)
  /-- The bridge of a session returned. -/
  | finish (sessionID : String)
  /-- An access change is committed, whose request re-checks the users. -/
  | commit (after : ConnectHandler) (touched : List String)
  | beginRecheck (userIDs : List String)
  | checkNext (i : Nat)
  | revoke (i : Nat)
  | userRevoked (userID : String)
  | tick (now : Int)

namespace ConnectState

/-- The id is used by no session, registered or starting. -/
def freshID (s : ConnectState) (sessionID : String) : Bool :=
  s.registry.live.all (fun l => l.sessionID ≠ sessionID) &&
    s.starts.all fun st =>
      match st.phase with
      | .redeemed => true
      | .started id _ => id ≠ sessionID

/-- The sessions table with a new row. -/
def insertRow (h : ConnectHandler) (sessionID : String) (row : SessionRow) : ConnectHandler :=
  { h with session := fun id => if id = sessionID then .ok row else h.session id }

/-- The redemption of a ticket, with the gate's check: the beginning of a start. -/
def redeemed (s : ConnectState) (b : ConnectHandler.Bridge) (tok ip : String)
    (p : Option Principal) : ConnectState :=
  match s.handler.redeem s.now s.now tok ip p s.tickets with
  | (.error _, tickets) => { s with tickets := tickets }
  | (.ok g, tickets) =>
    { s with tickets := tickets, starts := s.starts ++ [⟨b, g, .redeemed, false⟩] }

/-- A committed change: the sessions table is not part of it, and the starts of
the users it touches asked the gate too early. -/
def committed (s : ConnectState) (after : ConnectHandler) (touched : List String) : ConnectState :=
  { s with
    handler := { after with session := s.handler.session }
    starts := s.starts.map fun st =>
      { st with stale := st.stale || touched.contains st.grant.userID }
    pending := s.pending ++ touched }

/-- The listing a re-check begins with. -/
def listed (s : ConnectState) (userIDs : List String) : ConnectState :=
  { s with
    pending := s.pending.diff userIDs
    sweeps := s.sweeps ++
      [⟨s.now, s.registry.live.filter (fun l => userIDs.contains l.userID), []⟩] }

/-- One session of a re-check. -/
def checked (s : ConnectState) (i : Nat) (w : Sweep) (l : Live) (rest : List Live) : ConnectState :=
  let withdrawn := if s.handler.withdraws w.now l then w.withdrawn ++ [l] else w.withdrawn
  { s with sweeps := s.sweeps.set i ⟨w.now, rest, withdrawn⟩ }

/-- The end of a re-check: the sessions withdrawn are ended. -/
def revoked (s : ConnectState) (i : Nat) (w : Sweep) : ConnectState :=
  { s with
    sweeps := s.sweeps.eraseIdx i
    registry := w.withdrawn.foldl
      (fun r l => r.terminateWithCause l.sessionID .policyRevoked) s.registry }

/-- One step. -/
def step (s : ConnectState) : ConnectLabel → Option ConnectState
  | .issue p ip ep proto uc failoverFrom tok =>
    match s.handler.issueTicket s.now s.now p ip ep proto uc failoverFrom tok s.tickets with
    | .error _ => some s
    | .ok tickets => some { s with tickets := tickets }
  | .redeem b tok ip p => some (s.redeemed b tok ip p)
  | .startRun i sessionID =>
    match s.starts[i]? with
    | some ⟨b, g, .redeemed, stale⟩ =>
      match s.handler.openGrant b g with
      | .error _ => some { s with starts := s.starts.eraseIdx i }
      | .ok ep =>
        if s.freshID sessionID then
          some { s with
            handler := insertRow s.handler sessionID ⟨ep.targetID, ep.asgInstanceID⟩
            starts := s.starts.set i ⟨b, g, .started sessionID ep, stale⟩ }
        else none
    | _ => none
  | .abandon i => some { s with starts := s.starts.eraseIdx i }
  | .register i =>
    match s.starts[i]? with
    | some ⟨_, g, .started sessionID ep, _⟩ =>
      some { s with
        starts := s.starts.eraseIdx i
        registry := s.registry.add (ConnectHandler.liveSession sessionID g ep) }
    | _ => none
  | .finish sessionID => some { s with registry := s.registry.remove sessionID }
  | .commit after touched => some (s.committed after touched)
  | .beginRecheck userIDs => some (s.listed userIDs)
  | .checkNext i =>
    match s.sweeps[i]? with
    | some ⟨now, l :: rest, withdrawn⟩ => some (s.checked i ⟨now, l :: rest, withdrawn⟩ l rest)
    | _ => none
  | .revoke i =>
    match s.sweeps[i]? with
    | some ⟨now, [], withdrawn⟩ => some (s.revoked i ⟨now, [], withdrawn⟩)
    | _ => none
  | .userRevoked userID =>
    some { s with
      pending := s.pending.erase userID
      registry := Handler.userRevoked userID s.registry }
  | .tick now => some { s with now := now }

/-! ## Orderly runs -/

/-- The condition on a step.

- A redemption: the grants with a shut window ask for no authenticator the user
  lacks, so that what the gate admits now the live gate admits too.
- A registration: the gate was asked under the access of the user as it is, or a
  re-check of the user is still to begin.
- A commit: the users it makes the live gate refuse are re-checked by its request,
  and the approvals of the new state answer alike at the instants in play.
- The clock: no approval begins or lapses. -/
def Orderly (s : ConnectState) : ConnectLabel → Prop
  | .redeem _ tok _ _ => ∀ g ep pols, s.tickets[tok]? = some g →
      s.handler.endpoints.resolveGrant g.targetID g.asgInstanceID = .ok ep →
      s.handler.gate.forUser g.userID = .ok pols →
      s.handler.ShutGrantsEnrolled g.userID ep.policyRef g.protocol s.now pols
  | .register i => ∀ st, s.starts[i]? = some st → st.stale = true → st.grant.userID ∈ s.pending
  | .commit after touched =>
    (∀ userID targetID asgInstanceID proto,
      after.refusesAt s.now userID targetID asgInstanceID proto = true →
      userID ∈ touched ∨
        s.handler.refusesAt s.now userID targetID asgInstanceID proto = true) ∧
    ∀ w ∈ s.sweeps, Handler.SameApprovals after.gate w.now s.now
  | .tick now => Handler.SameApprovals s.handler.gate s.now now
  | _ => True

/-- Nothing in progress, and no live session that the live gate refuses. -/
structure Settled (s : ConnectState) : Prop where
  starts : s.starts = []
  pending : s.pending = []
  sweeps : s.sweeps = []
  running : ∀ l ∈ s.registry.running, s.handler.refuses s.now l = false

/-- What every step keeps. -/
structure Inv (s : ConnectState) : Prop where
  /-- A start that asked the gate under the access as it is, is not refused. -/
  starts : ∀ st ∈ s.starts, st.stale = false →
    s.handler.refusesAt s.now st.grant.userID st.grant.targetID st.grant.asgInstanceID
      st.grant.protocol = false
  /-- The row of a started session names what its ticket was for. -/
  rows : ∀ st ∈ s.starts, ∀ sessionID ep, st.phase = .started sessionID ep →
    s.handler.session sessionID = .ok ⟨ep.targetID, ep.asgInstanceID⟩ ∧
      ∀ es : Endpoints, es.resolveGrant ep.targetID ep.asgInstanceID =
        es.resolveGrant st.grant.targetID st.grant.asgInstanceID
  /-- A running session that is refused waits for a re-check, one to begin or one
  in progress. -/
  running : ∀ l ∈ s.registry.running, s.handler.refuses s.now l = true →
    l.userID ∈ s.pending ∨ ∃ w ∈ s.sweeps, l ∈ w.todo ∨ l ∈ w.withdrawn
  /-- The re-checks in progress see the approvals of the present. -/
  clocks : ∀ w ∈ s.sweeps, Handler.SameApprovals s.handler.gate w.now s.now

variable {s t : ConnectState} {g : Ticket.Grant} {b : ConnectHandler.Bridge} {ip tok : String}
  {p : Option Principal} {now : Int} {sessionID : String} {l : Live} {ep : Endpoint} {stale : Bool}
  {i : Nat} {touched : List String} {after : ConnectHandler} {withdrawn : List Live}

theorem Settled.inv (h : s.Settled) : s.Inv := by
  constructor
  · intro st hst
    rw [h.starts] at hst
    cases hst
  · intro st hst
    rw [h.starts] at hst
    cases hst
  · intro l hl hrefused
    rw [h.running l hl] at hrefused
    cases hrefused
  · intro w hw
    rw [h.sweeps] at hw
    cases hw

/-- A state with the same access and fewer starts and sessions. -/
theorem Inv.of_fewer (h : s.Inv) (hhandler : t.handler = s.handler)
    (hnow : t.now = s.now) (hpending : t.pending = s.pending) (hsweeps : t.sweeps = s.sweeps)
    (hstarts : ∀ st ∈ t.starts, st ∈ s.starts)
    (hrunning : ∀ l ∈ t.registry.running, l ∈ s.registry.running) : t.Inv := by
  constructor
  · intro st hst
    rw [hhandler, hnow]
    exact h.starts st (hstarts st hst)
  · intro st hst
    rw [hhandler]
    exact h.rows st (hstarts st hst)
  · intro l hl
    rw [hhandler, hnow, hpending, hsweeps]
    exact h.running l (hrunning l hl)
  · rw [hhandler, hnow, hsweeps]
    exact h.clocks

/-! ## One step at a time -/

/-- What the gate admits at a redemption the live gate admits. -/
theorem refusesAt_of_redeem (hord : s.Orderly (.redeem b tok ip p))
    (hredeem : (s.handler.redeem s.now s.now tok ip p s.tickets).1 = .ok g) :
    s.handler.refusesAt s.now g.userID g.targetID g.asgInstanceID g.protocol = false := by
  obtain ⟨⟨sessionID, hstored⟩, hasked⟩ := ConnectHandler.redeem_ok hredeem
  have hticket := (Ticket.Store.redeem_eq_some hstored).1
  unfold Handler.refusesAt
  cases hep : s.handler.endpoints.resolveGrant g.targetID g.asgInstanceID with
  | error e => rfl
  | ok ep =>
    obtain ⟨d, hadmits⟩ := hasked ep hep
    obtain ⟨pols, hpols⟩ := Gate.forUser_of_admitWith hadmits
    have hlive := (Handler.admitLive_iff_of_admitNow hpols hadmits).mpr
      (hord g ep pols hticket hep hpols)
    simp [hlive]

theorem redeemed_inv
    (h : s.Inv) (hord : s.Orderly (.redeem b tok ip p)) : (s.redeemed b tok ip p).Inv := by
  unfold redeemed
  split
  · exact h.of_fewer rfl rfl rfl rfl (fun _ hst => hst) (fun _ hl => hl)
  · rename_i g tickets hredeem
    have hnot : s.handler.refusesAt s.now g.userID g.targetID g.asgInstanceID g.protocol =
        false := refusesAt_of_redeem hord (by rw [hredeem])
    refine ⟨?_, ?_, h.running, h.clocks⟩
    · exact forall_mem_append.mpr ⟨h.starts, forall_mem_singleton.mpr fun _ => hnot⟩
    · refine forall_mem_append.mpr ⟨h.rows, forall_mem_singleton.mpr fun sessionID ep hphase => ?_⟩
      cases hphase

/-- A new row is seen by no session that has another id. -/
theorem refuses_insertRow {hd : ConnectHandler} {row : SessionRow} (hne : l.sessionID ≠ sessionID) :
    (insertRow hd sessionID row).refuses now l = hd.refuses now l := by
  unfold Handler.refuses
  show (match (if l.sessionID = sessionID then Except.ok row else hd.session l.sessionID) with
    | .error _ => false
    | .ok row => hd.refusesAt now l.userID row.targetID row.asgInstanceID l.protocol) = _
  rw [if_neg hne]

/-- The row of a session is written, and it is not yet live. -/
theorem startRun_inv (h : s.Inv) (hst : s.starts[i]? = some ⟨b, g, .redeemed, stale⟩)
    (hopen : s.handler.openGrant b g = .ok ep) (hfresh : s.freshID sessionID) :
    Inv { s with
      handler := insertRow s.handler sessionID ⟨ep.targetID, ep.asgInstanceID⟩
      starts := s.starts.set i ⟨b, g, .started sessionID ep, stale⟩ } := by
  rw [freshID, Bool.and_eq_true, all_eq_true, all_eq_true] at hfresh
  obtain ⟨hlive, hstarts⟩ := hfresh
  constructor
  · intro st hmem hnot
    rcases mem_or_eq_of_mem_set hmem with hold | rfl
    · exact h.starts st hold hnot
    · exact h.starts ⟨b, g, .redeemed, stale⟩ (mem_of_getElem? hst) hnot
  · intro st hmem id ep' hphase
    rcases mem_or_eq_of_mem_set hmem with hold | rfl
    · -- the id is fresh, so the new row is not another start's
      have hne : id ≠ sessionID := by simpa [hphase] using hstarts st hold
      refine ⟨?_, (h.rows st hold id ep' hphase).2⟩
      show (if id = sessionID then _ else s.handler.session id) = _
      rw [if_neg hne]
      exact (h.rows st hold id ep' hphase).1
    · cases hphase
      refine ⟨if_pos rfl, fun es => ?_⟩
      exact Endpoints.resolveGrant_own (ConnectHandler.resolve_of_openGrant hopen) es
  · intro l hl hrefused
    have hne : l.sessionID ≠ sessionID := by
      simpa using hlive l (Registry.mem_running.mp hl).1
    rw [refuses_insertRow hne] at hrefused
    exact h.running l hl hrefused
  · exact h.clocks

/-- A registered session is refused only if its start was stale. -/
theorem refuses_liveSession (h : s.Inv) (hst : ⟨b, g, .started sessionID ep, stale⟩ ∈ s.starts)
    (hrefused : s.handler.refuses s.now (ConnectHandler.liveSession sessionID g ep)) :
    stale := by
  by_contra hnot
  obtain ⟨hrow, hres⟩ := h.rows _ hst sessionID ep rfl
  have hgrant := h.starts _ hst (by simpa using hnot)
  unfold Handler.refuses at hrefused
  rw [show (ConnectHandler.liveSession sessionID g ep).sessionID = sessionID from rfl, hrow]
    at hrefused
  unfold Handler.refusesAt at hrefused hgrant
  dsimp only at hrefused
  rw [hres] at hrefused
  exact absurd (hrefused.symm.trans hgrant) (by decide)

theorem register_inv (h : s.Inv) (hord : s.Orderly (.register i))
    (hst : s.starts[i]? = some ⟨b, g, .started sessionID ep, stale⟩) :
    Inv { s with
      starts := s.starts.eraseIdx i
      registry := s.registry.add (ConnectHandler.liveSession sessionID g ep) } := by
  refine ⟨fun st hmem => h.starts st (mem_of_mem_eraseIdx hmem),
    fun st hmem => h.rows st (mem_of_mem_eraseIdx hmem), ?_, h.clocks⟩
  intro l hl hrefused
  rcases Registry.mem_running_of_add hl with hold | rfl
  · exact h.running l hold hrefused
  · have hstale := refuses_liveSession h (mem_of_getElem? hst) hrefused
    exact .inl (hord _ hst hstale)

/-- The users a commit does not touch are refused only what they were refused. -/
theorem refuses_committed (hord : s.Orderly (.commit after touched))
    (hrefused : (s.committed after touched).handler.refuses s.now l) :
    l.userID ∈ touched ∨ s.handler.refuses s.now l := by
  unfold Handler.refuses at hrefused ⊢
  rw [show (s.committed after touched).handler.session = s.handler.session from rfl] at hrefused
  split at hrefused
  · cases hrefused
  · exact hord.1 _ _ _ _ hrefused

/-- A change of access, with its re-checks still to come. -/
theorem committed_inv (h : s.Inv)
    (hord : s.Orderly (.commit after touched)) : (s.committed after touched).Inv := by
  constructor
  · intro st' hmem hfresh
    obtain ⟨st, hst, rfl⟩ := mem_map.mp hmem
    -- a start still fresh is of a user the commit does not touch
    obtain ⟨hnot, huntouched⟩ : st.stale = false ∧ st.grant.userID ∉ touched := by
      simpa using hfresh
    rw [Bool.eq_false_iff]
    intro hrefused
    rcases hord.1 _ _ _ _ hrefused with htouched | hbefore
    · exact huntouched htouched
    · exact absurd (hbefore.symm.trans (h.starts st hst hnot)) (by decide)
  · intro st' hmem
    obtain ⟨st, hst, rfl⟩ := mem_map.mp hmem
    exact h.rows st hst
  · intro l hl hrefused
    rcases refuses_committed hord hrefused with htouched | hbefore
    · exact .inl (mem_append_right _ htouched)
    · rcases h.running l hl hbefore with hpending | hswept
      · exact .inl (mem_append_left _ hpending)
      · exact .inr hswept
  · exact hord.2

theorem listed_inv {userIDs : List String} (h : s.Inv) : (s.listed userIDs).Inv := by
  refine ⟨h.starts, h.rows, ?_, ?_⟩
  · intro l hl hrefused
    by_cases huser : l.userID ∈ userIDs
    · -- every session of the users is listed, refused or not
      refine .inr ⟨_, mem_append_right _ (mem_singleton.mpr rfl), .inl ?_⟩
      refine mem_filter.mpr ⟨(Registry.mem_running.mp hl).1, ?_⟩
      exact contains_iff_mem.mpr huser
    · rcases h.running l hl hrefused with hpending | ⟨w, hw, hwait⟩
      · exact .inl (mem_diff_of_mem hpending huser)
      · exact .inr ⟨w, mem_append_left _ hw, hwait⟩
  · exact forall_mem_append.mpr
      ⟨h.clocks, forall_mem_singleton.mpr fun _ _ _ _ _ _ => rfl⟩

theorem mem_set_or_getElem? {α : Type*} {xs : List α} {x y : α} (h : x ∈ xs) (i : Nat) :
    x ∈ xs.set i y ∨ xs[i]? = some x := by
  obtain ⟨j, hj⟩ := mem_iff_getElem?.mp h
  by_cases hij : i = j
  · exact .inr (hij ▸ hj)
  · exact .inl (mem_of_getElem? (by rw [getElem?_set_ne hij]; exact hj))

theorem mem_eraseIdx_or_getElem? {α : Type*} {xs : List α} {x : α} (h : x ∈ xs) (i : Nat) :
    x ∈ xs.eraseIdx i ∨ xs[i]? = some x := by
  obtain ⟨j, hj⟩ := mem_iff_getElem?.mp h
  by_cases hij : j = i
  · exact .inr (hij ▸ hj)
  · exact .inl (mem_eraseIdx_iff_getElem?.mpr ⟨j, hij, hj⟩)

/-- The session at the head of a re-check is found withdrawn if it is refused. -/
theorem checked_inv {rest : List Live} (h : s.Inv)
    (hw : s.sweeps[i]? = some ⟨now, l :: rest, withdrawn⟩) :
    (s.checked i ⟨now, l :: rest, withdrawn⟩ l rest).Inv := by
  have hclock := h.clocks _ (mem_of_getElem? hw)
  have hi : i < s.sweeps.length := (List.getElem?_eq_some_iff.mp hw).1
  refine ⟨h.starts, h.rows, ?_, ?_⟩
  · intro k hk hrefused
    rcases h.running k hk hrefused with hpending | ⟨w, hmem, hwait⟩
    · exact .inl hpending
    right
    rcases mem_set_or_getElem? hmem i with hold | hthis
    · exact ⟨w, hold, hwait⟩
    cases hw.symm.trans hthis
    refine ⟨_, mem_set hi _, ?_⟩
    rcases hwait with htodo | hgone
    · rcases mem_cons.mp htodo with rfl | hlater
      · -- the head: the instant of the re-check sees it refused too
        right
        have hearly : s.handler.refuses now k := by
          rw [← Handler.refuses_now hclock]
          exact hrefused
        dsimp only
        rw [if_pos (Handler.withdraws_of_refuses hearly)]
        exact mem_append_right _ (mem_singleton.mpr rfl)
      · exact .inl hlater
    · right
      dsimp only
      split
      · exact mem_append_left _ hgone
      · exact hgone
  · intro w hmem
    rcases mem_or_eq_of_mem_set hmem with hold | rfl
    · exact h.clocks w hold
    · exact hclock

/-- The end of a re-check ends the sessions it found. -/
theorem revoked_inv (h : s.Inv) (hw : s.sweeps[i]? = some ⟨now, [], withdrawn⟩) :
    (s.revoked i ⟨now, [], withdrawn⟩).Inv := by
  refine ⟨h.starts, h.rows, ?_, fun w hmem => h.clocks w (mem_of_mem_eraseIdx hmem)⟩
  intro l hl hrefused
  obtain ⟨hrun, hkept⟩ := (Handler.mem_running_foldl_terminate _ _).mp hl
  rcases h.running l hrun hrefused with hpending | ⟨w, hmem, hwait⟩
  · exact .inl hpending
  right
  rcases mem_eraseIdx_or_getElem? hmem i with hold | hthis
  · exact ⟨w, hold, hwait⟩
  · -- this re-check has nothing left to check, and what it found is ended
    cases hw.symm.trans hthis
    rcases hwait with htodo | hgone
    · cases htodo
    · exact absurd rfl (hkept l hgone)

theorem userRevoked_inv {userID : String} (h : s.Inv) :
    Inv { s with
      pending := s.pending.erase userID
      registry := Handler.userRevoked userID s.registry } := by
  refine ⟨h.starts, h.rows, ?_, h.clocks⟩
  intro l hl hrefused
  obtain ⟨hrun, hother⟩ := Registry.mem_running_terminateWhere.mp hl
  rcases h.running l hrun hrefused with hpending | hswept
  · exact .inl ((mem_erase_of_ne (by simpa using hother)).mpr hpending)
  · exact .inr hswept

theorem tick_inv (h : s.Inv) (hord : s.Orderly (.tick now)) : Inv { s with now := now } := by
  have hsame : Handler.SameApprovals s.handler.gate s.now now := hord
  constructor
  · intro st hst hfresh
    show s.handler.refusesAt now _ _ _ _ = false
    rw [Handler.refusesAt_now hsame]
    exact h.starts st hst hfresh
  · exact h.rows
  · intro l hl hrefused
    have hbefore : s.handler.refuses s.now l := by
      rw [← Handler.refuses_now hsame]
      exact hrefused
    exact h.running l hl hbefore
  · intro w hw has hhas u t a p
    exact (hsame has hhas u t a p).trans (h.clocks w hw has hhas u t a p)

/-! ## Runs -/

/-- **One step** of an orderly run keeps the invariant. -/
theorem step_inv {l : ConnectLabel} (hord : s.Orderly l) (h : s.Inv)
    (hstep : s.step l = some t) : t.Inv := by
  cases l <;> simp only [step] at hstep
  case issue p ip ep proto uc failoverFrom tok =>
    split at hstep <;> cases hstep
    · exact h
    · exact h.of_fewer rfl rfl rfl rfl (fun _ hst => hst) (fun _ hl => hl)
  case redeem b tok ip p =>
    cases hstep
    exact redeemed_inv h hord
  case startRun i sessionID =>
    split at hstep
    · rename_i b g stale hst
      split at hstep
      · cases hstep
        exact h.of_fewer rfl rfl rfl rfl (fun _ => mem_of_mem_eraseIdx) (fun _ hl => hl)
      · rename_i ep hopen
        split at hstep <;> cases hstep
        rename_i hfresh
        exact startRun_inv h hst hopen hfresh
    · cases hstep
  case abandon i =>
    cases hstep
    exact h.of_fewer rfl rfl rfl rfl (fun _ => mem_of_mem_eraseIdx) (fun _ hl => hl)
  case register i =>
    split at hstep <;> cases hstep
    rename_i hst
    exact register_inv h hord hst
  case finish sessionID =>
    cases hstep
    exact h.of_fewer rfl rfl rfl rfl (fun _ hst => hst) (fun _ => Registry.mem_running_of_remove)
  case commit after touched =>
    cases hstep
    exact committed_inv h hord
  case beginRecheck userIDs =>
    cases hstep
    exact listed_inv h
  case checkNext i =>
    split at hstep <;> cases hstep
    rename_i hw
    exact checked_inv h hw
  case revoke i =>
    split at hstep <;> cases hstep
    rename_i hw
    exact revoked_inv h hw
  case userRevoked userID =>
    cases hstep
    exact userRevoked_inv h
  case tick now =>
    cases hstep
    exact tick_inv h hord

/-- **No refused session.** In every orderly run from a settled state, once every
re-check has finished, whatever starts are still in progress, no live session
remains that `AdmitLive` refuses. -/
theorem no_refused_session {s t : ConnectState} {ls : List ConnectLabel} (hs : s.Settled)
    (hrun : RunWhere step Orderly s ls t) (hpending : t.pending = [])
    (hsweeps : t.sweeps = []) : ∀ l ∈ t.registry.running, t.handler.refuses t.now l = false := by
  have hinv : t.Inv := hrun.keeps Inv (fun _ _ _ hord h hstep => step_inv hord h hstep) hs.inv
  intro l hl
  rw [Bool.eq_false_iff]
  intro hrefused
  rcases hinv.running l hl hrefused with hwaiting | ⟨w, hw, -⟩
  · rw [hpending] at hwaiting
    cases hwaiting
  · rw [hsweeps] at hw
    cases hw

end ConnectState

/-! ## A policy withdrawn while a session starts -/

/-- The gateway, with ssh on the host `h` granted to `u` or not. -/
def grantHandler (granted : Bool) : ConnectHandler :=
  { clipboardHandler true with
    gate := ⟨fun userID =>
      .ok (if userID = "u" ∧ granted then [clipboardPolicy true] else []), none, none⟩ }

/-- Nothing in progress and no session. -/
def quietGateway : ConnectState := ⟨grantHandler true, 0, ∅, [], [], [], .empty⟩

/-- `u` asks for a ticket and redeems it, and the start writes its row. -/
def startOfU : List ConnectLabel :=
  [.issue principalU "ip" endpointH .ssh none "" "t",
    .redeem .terminal "t" "ip" (some principalU), .startRun 0 "s"]

/-- While the target is dialled, an administrator withdraws the policy and the
re-check of `u` finds no session; then the session is registered. Both requests
are finished, and the live gate refuses a session that runs on. -/
theorem start_outruns_recheck :
    ∃ t, Run ConnectState.step quietGateway
        (startOfU ++ [.commit (grantHandler false) ["u"], .beginRecheck ["u"], .revoke 0,
          .register 0]) t ∧
      t.starts = [] ∧ t.pending = [] ∧ t.sweeps = [] ∧
      ∃ l ∈ t.registry.running, t.handler.refuses t.now l = true :=
  ⟨_, Run.of_exec rfl, rfl, rfl, rfl, _, mem_cons_self, rfl⟩

theorem quietGateway_settled : quietGateway.Settled :=
  ⟨rfl, rfl, rfl, fun _ hl => by cases hl⟩

/-- Withdrawing the policy of `u` touches nobody else. -/
theorem grantHandler_others {now : Int} {userID targetID asgInstanceID : String} {proto : Protocol}
    (h : (grantHandler false).refusesAt now userID targetID asgInstanceID proto) :
    userID ∈ ["u"] ∨
      (grantHandler true).refusesAt now userID targetID asgInstanceID proto := by
  by_cases hu : userID = "u"
  · exact .inl (mem_singleton.mpr hu)
  · right
    have hnone : (grantHandler true).gate.forUser userID =
        (grantHandler false).gate.forUser userID := by
      show Except.ok (if userID = "u" ∧ true then _ else _) =
        Except.ok (if userID = "u" ∧ false then _ else _)
      rw [if_neg fun hboth => hu hboth.1, if_neg fun hboth => hu hboth.1]
    unfold Handler.refusesAt Gate.admitLive Gate.admitWith at h ⊢
    rw [hnone]
    exact h

/-- The same change after the session is registered: the re-check finds it. -/
theorem recheck_finds_registered :
    ∃ t, RunWhere ConnectState.step ConnectState.Orderly quietGateway
        (startOfU ++ [.register 0, .commit (grantHandler false) ["u"], .beginRecheck ["u"],
          .checkNext 0, .revoke 0]) t ∧
      ∀ l ∈ t.registry.running, t.handler.refuses t.now l = false := by
  refine RunWhere.exists_imp (P := fun t => t.pending = [] ∧ t.sweeps = [])
    (fun _ hrun ht => ConnectState.no_refused_session quietGateway_settled hrun ht.1 ht.2)
    ⟨_, .cons trivial rfl (.cons ?_ rfl (.cons trivial rfl (.cons ?_ rfl (.cons ?_ rfl
      (.cons trivial rfl (.cons trivial rfl (.cons trivial rfl .nil))))))), rfl, rfl⟩
  · exact fun _ _ _ _ _ _ _ _ _ _ => rfl
  · rintro st hst hstale
    cases hst
    cases hstale
  · exact ⟨fun _ _ _ _ h => grantHandler_others h, fun _ hw => by cases hw⟩

end Zanskar
