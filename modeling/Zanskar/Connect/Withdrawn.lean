import Zanskar.Connect.Holds

/-!
# Grants revoked and expired (`internal/connect/revoke.go`)

When a just-in-time grant is revoked or expires, the user's live sessions over its protocol on its
target or group are checked, and those withdrawn end. The check is not that of `Recheck`: it asks
the gate of a fresh connect, which honours time windows, and does not look at the switches a
session runs with.

- `grant_withdrawn_like_recheck` : the sessions that end are those a re-check would end, where the
  grants agree (`GrantsAgree`): one that decides is open, and none turns off what a session has on;
- `grant_revoked_by_the_clock` : a shut window ends a session here, and a clipboard that would now
  be off does not.

Lookups that fail are left out: both checks keep a session they cannot check.
-/

namespace Zanskar

open List

/-! ## Who passes the gate -/

/-- The user passes the gate by the grants they are offered: one admits them, an approval is active
where only approval grants do, and those that decide ask for no authenticator they lack. -/
structure Gate.Passes (g : Gate) (zones : Zones) (windows : Bool) (pols : List Policy)
    (userID : String) (ref : TargetRef) (proto : Protocol) (now : Int) : Prop where
  offered : ∃ x, Offers pols x ∧ x.admits zones ref proto now windows = true
  approved : (∀ x, Offers pols x → x.admits zones ref proto now windows = true →
    x.access = .approval) → g.Approved userID ref proto now
  enrolled : ∀ x, Decides zones now windows pols ref proto x → x.requireMFA = true →
    g.passesMFA userID = true

section Gate

variable {g : Gate} {zones : Zones} {windows : Bool} {pols : List Policy} {userID : String}
  {ref : TargetRef} {proto : Protocol} {now : Int}

theorem candidates_ne_nil_iff :
    candidates zones ref proto now windows pols ≠ [] ↔
      ∃ x, Offers pols x ∧ x.admits zones ref proto now windows := by
  constructor
  · intro hne
    obtain ⟨c, hc⟩ := exists_mem_of_ne_nil _ hne
    exact ⟨c.g, (exists_candidate_admits_iff windows).mp ⟨c, hc, rfl⟩⟩
  · rintro ⟨x, hx⟩
    obtain ⟨c, hc, -⟩ := (exists_candidate_admits_iff windows).mpr hx
    exact ne_nil_of_mem hc

/-- **Who passes**, by the grants the user is offered. -/
theorem Gate.admitted_iff_passes (hpols : g.forUser userID = .ok pols) :
    (∃ a, g.admitWith zones windows userID ref proto now = .ok a ∧ a.refusal = none) ↔
      g.Passes zones windows pols userID ref proto now := by
  rw [Gate.admitWith_eq hpols]
  simp only [Gate.check_eq_admitted_iff, exists_eq_left]
  rw [evaluate_allowed_iff]
  constructor
  · rintro ⟨hne, hgranted, henrolled⟩
    rw [Gate.granted_eq_true_iff, evaluate_requireApproval hne, List.isEmpty_iff,
      standing_eq_nil_iff] at hgranted
    rw [Gate.enrolled_eq_true_iff, evaluate_requireMFA_iff hne] at henrolled
    refine ⟨candidates_ne_nil_iff.mp hne, hgranted, fun x hx hreq => henrolled ?_⟩
    obtain ⟨c, hc, rfl⟩ := (exists_deciding_decides_iff windows).mpr hx
    exact ⟨c, hc, hreq⟩
  · rintro ⟨hoffered, happroved, henrolled⟩
    have hne := candidates_ne_nil_iff.mpr hoffered
    refine ⟨hne, ?_, ?_⟩
    · rw [Gate.granted_eq_true_iff, evaluate_requireApproval hne, List.isEmpty_iff,
        standing_eq_nil_iff]
      exact happroved
    · rw [Gate.enrolled_eq_true_iff, evaluate_requireMFA_iff hne]
      rintro ⟨c, hc, hreq⟩
      exact henrolled c.g ((exists_deciding_decides_iff windows).mp ⟨c, hc, rfl⟩) hreq

end Gate

/-! ## The revocations -/

namespace Handler

/-- The body of the loop of `grantWithdrawn`: the session is on the group, and the gate refuses. -/
def refusedNow (h : Handler) (userID asgID : String) (proto : Protocol) (now : Int) (l : Live) :
    Bool :=
  match h.sessionRef l.sessionID with
  | .error _ => false
  | .ok ref =>
    if asgID ≠ "" ∧ ref.asgID ≠ asgID then false
    else
      match h.gate.admitNow h.zones userID ref proto now with
      | .error _ => false
      | .ok a => a.refusal.isSome

/-- `grantWithdrawn`. -/
def grantWithdrawn (h : Handler) (userID targetID asgID : String) (proto : Protocol)
    (cause : Cause) (now : Int) (reg : Registry) : Registry :=
  let sessions := reg.live.filter fun l =>
    l.userID = userID && l.protocol = proto && (targetID = "" || l.targetID = targetID)
  let withdrawn := sessions.filter (h.refusedNow userID asgID proto now)
  withdrawn.foldl (fun r l => r.terminateWithCause l.sessionID cause) reg

/-- `GrantRevoked`. -/
def grantRevoked (h : Handler) (userID targetID asgID : String) (proto : Protocol) (now : Int)
    (reg : Registry) : Registry :=
  h.grantWithdrawn userID targetID asgID proto .grantRevoked now reg

/-- `GrantExpired`. -/
def grantExpired (h : Handler) (userID targetID asgID : String) (proto : Protocol) (now : Int)
    (reg : Registry) : Registry :=
  h.grantWithdrawn userID targetID asgID proto .grantExpired now reg

variable {h : Handler} {userID targetID asgID : String} {proto : Protocol} {now : Int}
  {reg : Registry} {l : Live} {cause : Cause} {pols : List Policy} {ref : TargetRef}

/-- Ending a selection of the registered sessions. -/
theorem mem_running_foldl_filter (keep : Live → Bool) :
    l ∈ ((reg.live.filter keep).foldl (fun r w => r.terminateWithCause w.sessionID cause)
        reg).running ↔ l ∈ reg.running ∧ keep l = false := by
  rw [mem_running_foldl_terminate]
  refine and_congr_right fun hrun => ?_
  have hl := (Registry.mem_running.mp hrun).1
  constructor
  · intro hall
    by_contra hkeep
    exact hall l (mem_filter.mpr ⟨hl, by simpa using hkeep⟩) rfl
  · intro hkeep w hw heq
    obtain ⟨hw, hsel⟩ := mem_filter.mp hw
    obtain rfl := Registry.eq_of_sessionID_eq hl hw heq
    cases hkeep.symm.trans hsel

/-- What `grantWithdrawn` leaves running. -/
theorem mem_running_grantWithdrawn :
    l ∈ (h.grantWithdrawn userID targetID asgID proto cause now reg).running ↔
      l ∈ reg.running ∧ (h.refusedNow userID asgID proto now l &&
        (l.userID = userID && l.protocol = proto && (targetID = "" || l.targetID = targetID))) =
          false := by
  unfold grantWithdrawn
  dsimp only
  rw [filter_filter, mem_running_foldl_filter]

/-- The session is the user's, over the protocol, on the target or group. -/
structure OnGrant (h : Handler) (userID targetID asgID : String) (proto : Protocol) (l : Live) :
    Prop where
  user : l.userID = userID
  protocol : l.protocol = proto
  target : targetID = "" ∨ l.targetID = targetID
  group : asgID = "" ∨ ∃ ref, h.sessionRef l.sessionID = .ok ref ∧ ref.asgID = asgID

/-- No lookup for the user's sessions fails. -/
structure LookupsSucceed (h : Handler) (userID : String) (now : Int) (reg : Registry)
    (pols : List Policy) : Prop where
  policies : h.gate.forUser userID = .ok pols
  sessions : ∀ l ∈ reg.live, l.userID = userID → ∃ ref, h.sessionRef l.sessionID = .ok ref
  grants : ∀ has, h.gate.grants = some has → ∀ targetID asgID proto, ∃ b,
    has userID targetID asgID proto now = .ok b
  mfa : ∀ has, h.gate.mfaEnrolled = some has → ∃ b, has userID = .ok b

theorem LookupsSucceed.admitWith (hlook : h.LookupsSucceed userID now reg pols) (windows : Bool)
    (ref : TargetRef) (proto : Protocol) :
    ∃ a, h.gate.admitWith h.zones windows userID ref proto now = .ok a := by
  rw [Gate.admitWith_eq hlook.policies]
  generalize evaluate h.zones pols ref proto now windows = d
  have hgranted : ∃ b, h.gate.granted d userID ref proto now = .ok b := by
    unfold Gate.granted
    cases hgrants : h.gate.grants with
    | none => exact ⟨true, rfl⟩
    | some has =>
      dsimp only
      split
      · exact hlook.grants has hgrants ref.id ref.asgID proto
      · exact ⟨true, rfl⟩
  have henrolled : ∃ b, h.gate.enrolled d userID = .ok b := by
    unfold Gate.enrolled
    cases hmfa : h.gate.mfaEnrolled with
    | none => exact ⟨true, rfl⟩
    | some has =>
      dsimp only
      split
      · exact hlook.mfa has hmfa
      · exact ⟨true, rfl⟩
  obtain ⟨granted, hgranted⟩ := hgranted
  obtain ⟨enrolled, henrolled⟩ := henrolled
  unfold Gate.check
  rw [hgranted, henrolled]
  split
  · exact ⟨_, rfl⟩
  · cases granted with
    | false => exact ⟨_, rfl⟩
    | true =>
      cases enrolled with
      | false | true => exact ⟨_, rfl⟩

/-- What `grantWithdrawn` ends, when no lookup fails. -/
theorem not_mem_running_grantWithdrawn (hlook : h.LookupsSucceed userID now reg pols)
    (hrun : l ∈ reg.running) :
    l ∉ (h.grantWithdrawn userID targetID asgID proto cause now reg).running ↔
      h.OnGrant userID targetID asgID proto l ∧
        ∀ ref, h.sessionRef l.sessionID = .ok ref →
          ¬h.gate.Passes h.zones true pols userID ref proto now := by
  have hl := (Registry.mem_running.mp hrun).1
  rw [mem_running_grantWithdrawn, and_iff_right hrun, Bool.not_eq_false, Bool.and_eq_true,
    Bool.and_eq_true, Bool.and_eq_true, Bool.or_eq_true, decide_eq_true_iff, decide_eq_true_iff,
    decide_eq_true_iff, decide_eq_true_iff]
  constructor
  · rintro ⟨hrefused, ⟨huser, hproto⟩, htarget⟩
    obtain ⟨ref, href⟩ := hlook.sessions l hl huser
    rw [refusedNow, href] at hrefused
    dsimp only at hrefused
    split at hrefused
    · cases hrefused
    -- the session is of the group, or no group was named
    rename_i hgroup
    obtain ⟨a, ha⟩ := hlook.admitWith true ref proto
    rw [Gate.admitNow, ha] at hrefused
    refine ⟨⟨huser, hproto, htarget, ?_⟩, fun ref' href' hpasses => ?_⟩
    · by_cases hasg : asgID = ""
      · exact .inl hasg
      · exact .inr ⟨ref, href, by_contra fun hne => hgroup ⟨hasg, hne⟩⟩
    · cases href.symm.trans href'
      obtain ⟨a', ha', hnone⟩ := (Gate.admitted_iff_passes hlook.policies).mpr hpasses
      cases ha.symm.trans ha'
      dsimp only at hrefused
      rw [hnone] at hrefused
      cases hrefused
  · rintro ⟨⟨huser, hproto, htarget, hgroup⟩, hrefused⟩
    refine ⟨?_, ⟨huser, hproto⟩, htarget⟩
    obtain ⟨ref, href⟩ := hlook.sessions l hl huser
    obtain ⟨a, ha⟩ := hlook.admitWith true ref proto
    rw [refusedNow, href]
    dsimp only
    rw [if_neg, Gate.admitNow, ha]
    · dsimp only
      cases hrefusal : a.refusal with
      | some why => rfl
      | none =>
        exact absurd ((Gate.admitted_iff_passes hlook.policies).mp ⟨a, ha, hrefusal⟩)
          (hrefused ref href)
    · rintro ⟨hasg, hne⟩
      rcases hgroup with hempty | ⟨ref', href', hasg'⟩
      · exact hasg hempty
      · cases href.symm.trans href'
        exact hne hasg'

/-- What a re-check of the user leaves running, when no lookup fails. -/
theorem mem_running_recheck_iff_holds (hlook : h.LookupsSucceed userID now reg pols)
    (hrun : l ∈ reg.running) (huser : l.userID = userID) :
    l ∉ (h.recheck [userID] now reg).running ↔ ¬h.Holds now l := by
  obtain ⟨ref, href⟩ := hlook.sessions l (Registry.mem_running.mp hrun).1 huser
  obtain ⟨a, ha⟩ := hlook.admitWith false ref l.protocol
  rw [mem_running_recheck, holds_iff_withdraws href (by rw [huser]; exact ha), huser]
  simp [hrun]

/-- The grants that decide for the session with windows not counted take nothing from it now: if
there are any, one is open, and each of them asks for no authenticator the user lacks and turns off
no switch the session runs with. -/
structure GrantsAgree (h : Handler) (now : Int) (pols : List Policy) (ref : TargetRef) (l : Live) :
    Prop where
  opens : ∀ g, DecidesLive pols ref l.protocol g →
    ∃ g', DecidesLive pols ref l.protocol g' ∧ g'.windowOpen h.zones now true = true
  agrees : ∀ g, DecidesLive pols ref l.protocol g → h.Agrees l g

theorem covers_of_admits {zones : Zones} {windows : Bool} {g : Grant}
    (hadm : g.admits zones ref proto now windows = true) : g.covers ref proto = true := by
  rw [Grant.admits, Bool.and_eq_true] at hadm
  exact hadm.1

/-- Where a grant covers, some grant decides. -/
theorem exists_decidesLive {g : Grant} (hoff : Offers pols g) (hcov : g.covers ref proto = true) :
    ∃ g', DecidesLive pols ref proto g' := by
  by_cases hall : ∀ g', Offers pols g' → g'.covers ref proto = true → g'.access = .approval
  · exact ⟨g, hoff, hcov, fun _ => hall⟩
  · push Not at hall
    obtain ⟨g', hoff', hcov', hstanding⟩ := hall
    exact ⟨g', hoff', hcov', fun happ => absurd happ hstanding⟩

/-- Where the grants agree, the gate of a fresh connect and a re-check answer alike. -/
theorem GrantsAgree.passes_iff_holds (hagree : h.GrantsAgree now pols ref l)
    (href : h.sessionRef l.sessionID = .ok ref) (hpols : h.gate.forUser l.userID = .ok pols) :
    h.gate.Passes h.zones true pols l.userID ref l.protocol now ↔ h.Holds now l := by
  rw [holds_iff_decides href hpols]
  constructor
  · intro hnow
    obtain ⟨x, hoff, hadm⟩ := hnow.offered
    exact ⟨⟨x, hoff, covers_of_admits hadm⟩, fun hall => hnow.approved fun y hy hadm' =>
      hall y hy (covers_of_admits hadm'), hagree.agrees⟩
  · rintro ⟨⟨x, hoff, hcov⟩, happroved, hall⟩
    obtain ⟨y, hy⟩ := exists_decidesLive hoff hcov
    obtain ⟨z, hz, hopen⟩ := hagree.opens y hy
    have hadm : z.admits h.zones ref l.protocol now true = true := by
      rw [Grant.admits, hz.2.1, hopen, Bool.and_self]
    -- `z` decides and is open: where only approval grants are open, only they cover
    refine ⟨⟨z, hz.1, hadm⟩, fun honly => happroved (hz.2.2 (honly z hz.1 hadm)), fun g hg => ?_⟩
    exact (hall g ⟨hg.1, covers_of_admits hg.2.1, fun happ =>
      hz.2.2 (hg.2.2 happ z hz.1 hadm)⟩).mfa

/-- The registry after a revocation: of the sessions on the grant exactly those ended that a
re-check of the user would end, and no other. -/
def EndsLikeRecheck (h : Handler) (userID targetID asgID : String) (proto : Protocol) (now : Int)
    (reg after : Registry) : Prop :=
  ∀ l ∈ reg.running, l ∉ after.running ↔
    h.OnGrant userID targetID asgID proto l ∧ l ∉ (h.recheck [userID] now reg).running

/-- Exactly where the two gates answer alike for each session on the grant. -/
theorem grantWithdrawn_endsLikeRecheck_iff (hlook : h.LookupsSucceed userID now reg pols) :
    h.EndsLikeRecheck userID targetID asgID proto now reg
        (h.grantWithdrawn userID targetID asgID proto cause now reg) ↔
      ∀ l ∈ reg.running, h.OnGrant userID targetID asgID proto l →
        ∀ ref, h.sessionRef l.sessionID = .ok ref →
          (h.gate.Passes h.zones true pols userID ref proto now ↔ h.Holds now l) := by
  refine forall₂_congr fun l hrun => ?_
  rw [not_mem_running_grantWithdrawn hlook hrun]
  constructor
  · intro hends hon ref href
    rw [← not_iff_not, ← mem_running_recheck_iff_holds hlook hrun hon.user]
    refine ⟨fun hrefused => (hends.mp ⟨hon, fun ref' href' => ?_⟩).2, fun hgone =>
      (hends.mpr ⟨hon, hgone⟩).2 ref href⟩
    cases href.symm.trans href'
    exact hrefused
  · intro hall
    refine and_congr_right fun hon => ?_
    rw [mem_running_recheck_iff_holds hlook hrun hon.user]
    obtain ⟨ref, href⟩ := hlook.sessions l (Registry.mem_running.mp hrun).1 hon.user
    constructor
    · exact fun hrefused hholds => hrefused ref href ((hall hon ref href).mpr hholds)
    · exact fun hgone ref href hpasses => hgone ((hall hon ref href).mp hpasses)

/-- **A grant is withdrawn like a re-check.** For all policies, access requests and live sessions,
at every instant, no lookup failing: `GrantRevoked` and `GrantExpired` end exactly those of the
user's live sessions over the protocol on the target or group that a `Recheck` of the user would
end, if the grants agree with each of these sessions. Both halves of that are needed: the switches
for a session that a fresh connect would be admitted to, and an open window for one that standing
access holds. -/
theorem grant_withdrawn_like_recheck (hlook : h.LookupsSucceed userID now reg pols) :
    ((∀ l ∈ reg.running, h.OnGrant userID targetID asgID proto l →
        ∀ ref, h.sessionRef l.sessionID = .ok ref → h.GrantsAgree now pols ref l) →
      h.EndsLikeRecheck userID targetID asgID proto now reg
          (h.grantRevoked userID targetID asgID proto now reg) ∧
        h.EndsLikeRecheck userID targetID asgID proto now reg
          (h.grantExpired userID targetID asgID proto now reg)) ∧
    (h.EndsLikeRecheck userID targetID asgID proto now reg
        (h.grantRevoked userID targetID asgID proto now reg) ∨
      h.EndsLikeRecheck userID targetID asgID proto now reg
        (h.grantExpired userID targetID asgID proto now reg) →
      ∀ l ∈ reg.running, h.OnGrant userID targetID asgID proto l →
        ∀ ref, h.sessionRef l.sessionID = .ok ref →
          (h.gate.Passes h.zones true pols userID ref proto now →
            ∀ g, DecidesLive pols ref proto g → h.Agrees l g) ∧
          (h.Holds now l → ¬h.gate.Approved userID ref proto now →
            ∃ g, DecidesLive pols ref proto g ∧ g.windowOpen h.zones now true = true)) := by
  rw [grantRevoked, grantExpired, grantWithdrawn_endsLikeRecheck_iff hlook,
    grantWithdrawn_endsLikeRecheck_iff hlook, and_self, or_self]
  have hpols {l : Live} (hon : h.OnGrant userID targetID asgID proto l) :
      h.gate.forUser l.userID = .ok pols := hon.user ▸ hlook.policies
  constructor
  · intro hagree l hrun hon ref href
    rw [← (hagree l hrun hon ref href).passes_iff_holds href (hpols hon), hon.user, hon.protocol]
  · intro hsame l hrun hon ref href
    have hiff := hsame l hrun hon ref href
    constructor
    · intro hpasses
      have hholds := hiff.mp hpasses
      rw [holds_iff_decides href (hpols hon), hon.protocol] at hholds
      exact hholds.2.2
    · intro hholds hnone
      have hpasses := hiff.mpr hholds
      by_contra hshut
      -- nothing open stands, so the gate would have asked for the approval
      refine hnone (hpasses.approved fun g hoff hadm => by_contra fun hstanding => hshut ?_)
      exact ⟨g, ⟨hoff, covers_of_admits hadm, fun happ => absurd happ hstanding⟩,
        (Bool.and_eq_true _ _ ▸ hadm).2⟩

end Handler

/-! ## A shut window, and a switch -/

/-- A policy of `u` with one standing grant, ssh on the host `h`. -/
def shiftPolicy (clipboard : Bool) (windows : List TimeWindow) : Policy :=
  { officePolicy clipboard clipboard with grants := [windowGrant clipboard windows] }

/-- The handler over that policy. -/
def shiftHandler (clipboard : Bool) (windows : List TimeWindow) : Handler :=
  { officeHandler clipboard clipboard with
    gate := ⟨fun _ => .ok [shiftPolicy clipboard windows], none, none⟩ }

def officeHours : List TimeWindow :=
  [⟨["mon", "tue", "wed", "thu", "fri"], "09:00", "17:00", "UTC"⟩]

/-- The session of `u` on `h`, alone. -/
def oneSession : Registry := Registry.empty.add (officeSession true)

theorem officeSession_running : officeSession true ∈ oneSession.running :=
  Registry.mem_running.mpr ⟨Registry.mem_add.mpr (.inr rfl), rfl⟩

theorem shiftHandler_lookups (clipboard : Bool) (windows : List TimeWindow) :
    (shiftHandler clipboard windows).LookupsSucceed "u" 0 oneSession
      [shiftPolicy clipboard windows] where
  policies := rfl
  sessions _ _ _ := ⟨_, rfl⟩
  grants _ hhas := nomatch hhas
  mfa _ hhas := nomatch hhas

/-- With a standing grant at any time whose clipboard is on, a grant is withdrawn like a
re-check. -/
theorem grant_withdrawn_like_recheck_anytime :
    (shiftHandler true []).LookupsSucceed "u" 0 oneSession [shiftPolicy true []] ∧
    (shiftHandler true []).EndsLikeRecheck "u" "h" "" .ssh 0 oneSession
      ((shiftHandler true []).grantRevoked "u" "h" "" .ssh 0 oneSession) := by
  have hlook := shiftHandler_lookups true []
  refine ⟨hlook, ((Handler.grant_withdrawn_like_recheck hlook).1 fun l hrun _ ref _ => ?_).1⟩
  obtain rfl : l = officeSession true :=
    (Registry.mem_add.mp (Registry.mem_running.mp hrun).1).resolve_left (by simp [Registry.empty])
  have hone : ∀ g, DecidesLive [shiftPolicy true []] ref .ssh g → g = windowGrant true [] := by
    rintro g ⟨⟨p, hp, -, hg⟩, -⟩
    rw [mem_singleton.mp hp] at hg
    exact mem_singleton.mp hg
  refine ⟨fun g hg => ⟨g, hg, ?_⟩, fun g hg => ?_⟩ <;> rw [hone g hg]
  · rfl
  · exact ⟨by decide, fun _ => rfl, by decide, by decide⟩

/-- On a Sunday a session that office hours admitted is kept by a re-check, and ended when some
just-in-time grant for its target is revoked. A session whose clipboard would now be off is ended by
a re-check, and kept. -/
theorem grant_revoked_by_the_clock :
    (officeSession true ∈ ((shiftHandler true officeHours).recheck ["u"] 0 oneSession).running ∧
      officeSession true ∉
        ((shiftHandler true officeHours).grantRevoked "u" "h" "" .ssh 0 oneSession).running) ∧
    (officeSession true ∉ ((shiftHandler false []).recheck ["u"] 0 oneSession).running ∧
      officeSession true ∈
        ((shiftHandler false []).grantRevoked "u" "h" "" .ssh 0 oneSession).running) := by
  refine ⟨⟨?_, ?_⟩, ?_, ?_⟩
  · exact Handler.mem_running_recheck.mpr ⟨officeSession_running, fun _ => rfl⟩
  · intro hkept
    exact Bool.noConfusion (Handler.mem_running_grantWithdrawn.mp hkept).2
  · intro hkept
    exact Bool.noConfusion ((Handler.mem_running_recheck.mp hkept).2 mem_cons_self)
  · exact Handler.mem_running_grantWithdrawn.mpr ⟨officeSession_running, rfl⟩

end Zanskar
