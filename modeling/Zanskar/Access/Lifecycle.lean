import Zanskar.Access.Machine

/-!
# The life of an access request, in every interleaving (ADR 0018)

A request is pending until a decision; approved, it is a grant until it is
revoked, closed with its target or expired; denied, expired and revoked are
final. Five statements write the table, each guarding its transition with its
own condition, and an approval starts from reads made before it, of the request,
of the policies and of the grant it extends. `accessRequest_lifecycle` says what
survives any interleaving of them.

The invariant `Lives` follows each approval from the reads that computed it to
the row that carries it.
-/

namespace Zanskar

open Go Lib List

/-! ## Final statuses -/

/-- Denied, expired and revoked. -/
def Status.terminal : Status → Bool
  | .denied => true
  | .expired => true
  | .revoked => true
  | .pending => false
  | .approved => false

variable {r r' : Request} {a : Approval} {now : Int} {cur : Request} {tbl : Requests}
  {l : AccessLabel} {s : AccessState}

theorem Fate.terminal (h : Fate l r r') (ht : r.status.terminal) : r'.status = r.status := by
  cases h with
  | kept => rfl
  | approved a at_ hl hid hp => rw [hp] at ht; cases ht
  | denied approverID note at_ hp => rw [hp] at ht; cases ht
  | ended status note at_ hs hopen => rcases hopen with hp | hp <;> rw [hp] at ht <;> cases ht

/-- Every row is there after a statement, as the statement left it. -/
theorem mem_of_accessStep {s' : AccessState} (h : accessStep s l = some s')
    (hr : r ∈ s.requests.rows) : l.onRow r ∈ s'.requests.rows := by
  rcases accessStep_rows h with hrows | ⟨d, id, now, -, -, hrows, -⟩
  · rw [hrows]
    exact mem_map_of_mem hr
  · rw [hrows]
    exact mem_append_left _ (mem_map_of_mem hr)

/-- **A final status is final**, from any state and along any run. -/
theorem terminal_run {s' : AccessState} {ls : List AccessLabel} (h : Run accessStep s ls s')
    (hr : r ∈ s.requests.rows) (ht : r.status.terminal) :
    ∃ r' ∈ s'.requests.rows, r'.id = r.id ∧ r'.status = r.status := by
  refine h.keeps (fun t => ∃ r' ∈ t.requests.rows, r'.id = r.id ∧ r'.status = r.status)
    (fun t l u _ ih hstep => ?_) ⟨r, hr, rfl, rfl⟩
  obtain ⟨q, hq, hid, hst⟩ := ih
  have hfate := l.onRow_fate q
  exact ⟨l.onRow q, mem_of_accessStep hstep hq, hfate.fixed.1.trans hid,
    (hfate.terminal (hst ▸ ht)).trans hst⟩

/-! ## What an approval computes -/

/-- The approval of the request `r`, computed from these policies and this table, is within its
bounds: the minutes within the cap of the policies for what `r` asks for, and the expiry no later
than those minutes after the approval, or after the expiry of the grant `r` extends, if the table
has that grant and it is still active. -/
structure Approval.Sound (tbl : Requests) (inv : Inventory) (pols : List Policy) (a : Approval)
    (r : Request) : Prop where
  cap : ∃ ref elig, subject inv r.targetID r.asgID = .ok ref ∧
    eligible pols ref r.protocol = some elig ∧ a.minutes ≤ elig.maxMinutes
  minutes : 1 ≤ a.minutes
  expires : a.expires ≤ a.now + a.minutes * minute ∨
    ∃ prev ∈ tbl.rows, prev.id = r.extendsRequestID ∧ prev.active a.now = true ∧
      ∃ expiry, prev.expiresAt = some expiry ∧ a.expires ≤ max a.now expiry + a.minutes * minute

/-- The two requests ask for the same: the parts no statement writes. -/
def Request.SameAsk (r r' : Request) : Prop :=
  r.id = r'.id ∧ r.tuple = r'.tuple ∧ r.requestedMinutes = r'.requestedMinutes ∧
    r.extendsRequestID = r'.extendsRequestID

theorem Fate.sameAsk (h : Fate l r r') : r'.SameAsk r :=
  ⟨h.fixed.1, h.fixed.2.1, h.fixed.2.2.2.1, h.fixed.2.2.2.2⟩

theorem Request.SameAsk.trans {r'' : Request} (h : r.SameAsk r') (h' : r'.SameAsk r'') :
    r.SameAsk r'' :=
  ⟨h.1.trans h'.1, h.2.1.trans h'.2.1, h.2.2.1.trans h'.2.2.1, h.2.2.2.trans h'.2.2.2⟩

theorem Approval.Sound.sameAsk {inv : Inventory} {pols : List Policy}
    (h : a.Sound tbl inv pols r) (hsame : r'.SameAsk r) : a.Sound tbl inv pols r' := by
  obtain ⟨-, htuple, -, hext⟩ := hsame
  have hproto : r'.protocol = r.protocol := congrArg Tuple.protocol htuple
  have htarget : r'.targetID = r.targetID := congrArg Tuple.targetID htuple
  have hgroup : r'.asgID = r.asgID := congrArg Tuple.asgID htuple
  exact ⟨by rw [hproto, htarget, hgroup]; exact h.cap, h.minutes, hext ▸ h.expires⟩

theorem extendedExpiry_spec {expiry : Int} (h : extendedExpiry tbl cur now = some expiry) :
    ∃ prev ∈ tbl.rows, prev.id = cur.extendsRequestID ∧ prev.active now ∧
      prev.expiresAt = some expiry := by
  unfold extendedExpiry at h
  split at h
  · cases h
  split at h
  · cases h
  rename_i prev hprev
  obtain ⟨hmem, hid⟩ := Table.mem_of_get hprev
  split at h
  · rename_i hact
    exact ⟨prev, hmem, hid, hact, h⟩
  · cases h

/-- **What `approve` computes is within its bounds.** -/
theorem approveTerms_sound {inv : Inventory}
    {pols : List Policy} {approverID : String} {d : DecisionInput}
    (h : approveTerms tbl cur inv pols approverID d now = .ok a)
    (hasked : 1 ≤ cur.requestedMinutes) :
    a.requestID = cur.id ∧ a.now = now ∧ a.Sound tbl inv pols cur := by
  unfold approveTerms at h
  split at h
  · cases h
  rename_i ref href
  split at h
  · cases h
  rename_i elig helig
  split at h
  · cases h
  rename_i granted hgranted
  split at h
  · cases h
  rename_i hcap
  cases h
  have hone : 1 ≤ granted := by
    unfold grantedMinutes at hgranted
    split at hgranted
    · exact Except.ok.inj hgranted ▸ hasked
    · split at hgranted
      · cases hgranted
      · rw [← Except.ok.inj hgranted]
        omega
  refine ⟨rfl, rfl, ⟨ref, elig, href, helig, by simpa using hcap⟩, hone, ?_⟩
  -- a duration that wraps is only shorter
  have hwrap := minutes_le (show (0 : Int) ≤ granted by omega)
  cases hext : extendedExpiry tbl cur now with
  | none =>
    refine .inl ?_
    show now + Go.minutes granted ≤ now + granted * minute
    omega
  | some expiry =>
    obtain ⟨prev, hprev, hid, hact, hexp⟩ := extendedExpiry_spec hext
    refine .inr ⟨prev, hprev, hid, hact, expiry, hexp, ?_⟩
    show expiry + Go.minutes granted ≤ max now expiry + granted * minute
    have hbase := le_max_right now expiry
    omega

/-! ## The invariant -/

/-- The row carries what the approval wrote. -/
def Request.GrantedBy (r : Request) (a : Approval) : Prop :=
  a.requestID = r.id ∧ r.expiresAt = some (timeArg a.expires) ∧
    r.approvedMinutes = some a.minutes

/-- A step of the run computed the approval, from the table and the policies as they stood. -/
def Approval.ComputedIn (ls : List AccessLabel) (a : Approval) (r : Request) : Prop :=
  ∃ pre cur inv pols approverID d post m,
    ls = pre ++ .approveTerms cur inv pols approverID d a.now :: post ∧
      Run accessStep .init pre m ∧ a.Sound m.requests inv pols r

/-- Some decision of the run approved the request, within the bounds computed before it, and
while it is approved nothing since has withdrawn it. -/
def Request.Granted (r : Request) (ls : List AccessLabel) : Prop :=
  ∃ pre a at_ post, ls = pre ++ .approve a at_ :: post ∧ r.GrantedBy a ∧ a.ComputedIn pre r ∧
    (r.status = .approved → ∀ l ∈ post, ¬l.Withdraws r)

/-- What every interleaving keeps: each approval, from the reads that computed
it to the row that carries it. -/
structure Lives (ls : List AccessLabel) (s : AccessState) : Prop where
  run : Run accessStep .init ls s
  drafted : ∀ d ∈ s.checked, 1 ≤ d.requestedMinutes
  asked : ∀ r ∈ s.requests.rows, 1 ≤ r.requestedMinutes
  read : ∀ cur ∈ s.reading, ∃ r ∈ s.requests.rows, r.SameAsk cur
  computed : ∀ a ∈ s.approvals, ∃ r ∈ s.requests.rows, r.id = a.requestID ∧ a.ComputedIn ls r
  granted : ∀ r ∈ s.requests.rows, r.status = .approved ∨ r.approvedMinutes ≠ none →
    r.Granted ls

theorem lives_init : Lives [] AccessState.init where
  run := .nil
  drafted := fun _ h => by cases h
  asked := fun _ h => by cases h
  read := fun _ h => by cases h
  computed := fun _ h => by cases h
  granted := fun _ h => by cases h

/-- Whether a statement withdraws a request depends on what it asks for. -/
theorem Request.SameAsk.withdraws (h : r'.SameAsk r) (l : AccessLabel) :
    l.Withdraws r' ↔ l.Withdraws r := by
  obtain ⟨hid, htuple, -, -⟩ := h
  have ht : r'.targetID = r.targetID := congrArg Tuple.targetID htuple
  have ha : r'.asgID = r.asgID := congrArg Tuple.asgID htuple
  cases l <;> simp only [AccessLabel.Withdraws, hid, ht, ha]

section Step

variable {ls : List AccessLabel} {s : AccessState} {l : AccessLabel} {r : Request}
  {s' : AccessState}

theorem Approval.ComputedIn.sameAsk (h : a.ComputedIn ls r) (hsame : r'.SameAsk r) :
    a.ComputedIn ls r' := by
  obtain ⟨pre, cur, inv, pols, approverID, d, post, m, hls, hrun, hsound⟩ := h
  exact ⟨pre, cur, inv, pols, approverID, d, post, m, hls, hrun, hsound.sameAsk hsame⟩

theorem Approval.ComputedIn.snoc (h : a.ComputedIn ls r) (l : AccessLabel) :
    a.ComputedIn (ls ++ [l]) r := by
  obtain ⟨pre, cur, inv, pols, approverID, d, post, m, rfl, hrun, hsound⟩ := h
  exact ⟨pre, cur, inv, pols, approverID, d, post ++ [l], m, by simp, hrun, hsound⟩

/-- A granted request stays so, one statement later, unless the statement ends
it. -/
theorem Request.Granted.snoc (h : r.Granted ls) (hsame : r'.SameAsk r)
    (hexp : r'.expiresAt = r.expiresAt) (hmin : r'.approvedMinutes = r.approvedMinutes)
    (hopen : r'.status = .approved → r.status = .approved ∧ ¬l.Withdraws r) :
    r'.Granted (ls ++ [l]) := by
  obtain ⟨pre, a, at_, post, rfl, ⟨hid, he, hm⟩, hcomputed, hpost⟩ := h
  refine ⟨pre, a, at_, post ++ [l], by simp, ⟨hid.trans hsame.1.symm, hexp.trans he,
    hmin.trans hm⟩, hcomputed.sameAsk hsame, fun hs => ?_⟩
  obtain ⟨hsr, hnot⟩ := hopen hs
  simp only [hsame.withdraws]
  exact forall_mem_append.mpr ⟨hpost hsr, forall_mem_singleton.mpr hnot⟩

theorem Lives.granted_onRow (h : Lives ls s)
    (happrovals : ∀ a at_, l = .approve a at_ → a ∈ s.approvals) (hr : r ∈ s.requests.rows)
    (hgr : (l.onRow r).status = .approved ∨ (l.onRow r).approvedMinutes ≠ none) :
    (l.onRow r).Granted (ls ++ [l]) := by
  have hfate := l.onRow_fate r
  have hsame := hfate.sameAsk
  generalize l.onRow r = r' at hgr hfate hsame ⊢
  cases hfate with
  | kept hw =>
    exact (h.granted r hr hgr).snoc hsame rfl rfl fun hs => ⟨hs, hw hs⟩
  | approved a at_ hl hid hp =>
    -- the decision itself: the row its approval was computed for is this one
    obtain ⟨r₀, hr₀, hid₀, hcomputed⟩ := h.computed a (happrovals a at_ hl)
    obtain rfl := Table.eq_of_key_eq hr₀ hr (hid₀.trans hid.symm)
    refine ⟨ls, a, at_, [], by rw [hl], ⟨hid.symm, rfl, ?_⟩, hcomputed.sameAsk hsame,
      fun _ k hk => by cases hk⟩
    obtain ⟨_, _, _, _, _, _, _, _, _, _, hsound⟩ := hcomputed
    exact if_pos hsound.minutes
  | denied approverID note at_ hp => simp [Requests.decided] at hgr
  | ended status note at_ hs hopen =>
    have hne : status ≠ .approved := by rcases hs with rfl | rfl <;> simp
    have hmin : r.approvedMinutes ≠ none := hgr.resolve_left hne
    exact (h.granted r hr (.inr hmin)).snoc hsame rfl rfl fun hst => absurd hst hne

theorem Draft.request_undecided (d : Draft) (id : String) (now : Int) :
    ¬((d.request id now).status = .approved ∨ (d.request id now).approvedMinutes ≠ none) := by
  simp [Draft.request]

theorem Lives.rows (h : Lives ls s) (happrovals : ∀ a at_, l = .approve a at_ → a ∈ s.approvals)
    (hstep : accessStep s l = some s') :
    (∀ r ∈ s'.requests.rows, 1 ≤ r.requestedMinutes) ∧
      (∀ r ∈ s'.requests.rows, r.status = .approved ∨ r.approvedMinutes ≠ none →
        r.Granted (ls ++ [l])) := by
  have hmap : ∀ r' ∈ s.requests.rows.map l.onRow, 1 ≤ r'.requestedMinutes ∧
      (r'.status = .approved ∨ r'.approvedMinutes ≠ none → r'.Granted (ls ++ [l])) := by
    intro r' hr'
    obtain ⟨r, hr, rfl⟩ := mem_map.mp hr'
    have hfixed := (l.onRow_fate r).fixed
    exact ⟨hfixed.2.2.2.1 ▸ h.asked r hr, h.granted_onRow happrovals hr⟩
  rcases accessStep_rows hstep with hrows | ⟨d, id, now, -, hd, hrows, -⟩
  · rw [hrows]
    exact ⟨fun r hr => (hmap r hr).1, fun r hr => (hmap r hr).2⟩
  · rw [hrows]
    constructor
    · exact forall_mem_append.mpr
        ⟨fun r hr => (hmap r hr).1, forall_mem_singleton.mpr (h.drafted d hd)⟩
    · exact forall_mem_append.mpr ⟨fun r hr => (hmap r hr).2, forall_mem_singleton.mpr
        fun hgr => absurd hgr (d.request_undecided id now)⟩

/-- What is read of a row is still of some row one statement later, and so is an
approval computed for one. -/
theorem sameAsk_kept (hstep : accessStep s l = some s')
    (hr : r ∈ s.requests.rows) (hsame : r.SameAsk cur) : ∃ r' ∈ s'.requests.rows, r'.SameAsk cur :=
  ⟨l.onRow r, mem_of_accessStep hstep hr, (l.onRow_fate r).sameAsk.trans hsame⟩

theorem computed_kept (hstep : accessStep s l = some s') (hr : r ∈ s.requests.rows)
    (hid : r.id = a.requestID) (hcomputed : a.ComputedIn ls r) :
    ∃ r' ∈ s'.requests.rows, r'.id = a.requestID ∧ a.ComputedIn ls r' := by
  have hsame := (l.onRow_fate r).sameAsk
  exact ⟨l.onRow r, mem_of_accessStep hstep hr, hsame.1.trans hid, hcomputed.sameAsk hsame⟩

/-- **One statement keeps the invariant.** -/
theorem Lives.step (h : Lives ls s) (hstep : accessStep s l = some s') : Lives (ls ++ [l]) s' := by
  have happrovals : ∀ a at_, l = .approve a at_ → a ∈ s.approvals := by
    rintro a at_ rfl
    simp only [accessStep] at hstep
    split at hstep
    · assumption
    · cases hstep
  obtain ⟨hasked, hgranted⟩ := h.rows happrovals hstep
  obtain ⟨hchecked, hreading, happrovals⟩ := accessStep_calls hstep
  refine ⟨.snoc h.run trivial hstep, fun d hd => ?_, hasked, fun cur hcur => ?_, fun a ha => ?_,
    hgranted⟩
  · rcases hchecked d hd with hold | ⟨inv, pols, userID, input, now, hnew⟩
    · exact h.drafted d hold
    · exact (createCheck_ok hnew).2.2.1
  · rcases hreading cur hcur with hold | hrow
    · obtain ⟨r, hr, hsame⟩ := h.read cur hold
      exact sameAsk_kept hstep hr hsame
    · exact sameAsk_kept hstep hrow ⟨rfl, rfl, rfl, rfl⟩
  · rcases happrovals a ha with hold | ⟨cur, hcur, inv, pols, approverID, d, now, hl, hnew⟩
    · obtain ⟨r, hr, hid, hcomputed⟩ := h.computed a hold
      exact computed_kept hstep hr hid (hcomputed.snoc l)
    · -- the second half computes from what the first half read of a row
      obtain ⟨r, hr, hsame⟩ := h.read cur hcur
      obtain ⟨hid, rfl, hsound⟩ := approveTerms_sound hnew (hsame.2.2.1 ▸ h.asked r hr)
      exact computed_kept hstep hr (hsame.1.trans hid.symm)
        ⟨ls, cur, inv, pols, approverID, d, [], s, by rw [hl], h.run, hsound.sameAsk hsame⟩

end Step

/-! ## Every interleaving -/

theorem lives_run {ls : List AccessLabel} (h : Run accessStep AccessState.init ls s) :
    Lives ls s :=
  h.keeps_trace Lives (fun _ _ _ _ _ ih hstep => ih.step hstep) lives_init

theorem Requests.hasActiveGrant_iff {userID targetID asgID : String} {protocol : Protocol} :
    tbl.hasActiveGrant userID targetID asgID protocol now ↔
      ∃ r ∈ tbl.rows, r.userID = userID ∧ r.protocol = protocol ∧ r.status = .approved ∧
        (∃ expiry, r.expiresAt = some expiry ∧ timeArg now < expiry) ∧
        (sameID r.targetID targetID || sameID r.asgID asgID) := by
  simp only [Requests.hasActiveGrant, any_eq_true, Bool.and_eq_true, decide_eq_true_eq]
  refine exists_congr fun r => and_congr_right fun _ => ?_
  cases r.expiresAt with
  | none => simp
  | some expiry => simp [and_assoc]

/-- **The life of access requests, in every interleaving** of their statements,
from an empty table: a final status never changes again; an active grant was
approved by a decision of the run, has not been withdrawn since and expires after
the instant asked about; and what was granted, and until when, is within the bounds
that a step of the run computed from the policies and the table as they stood then. -/
theorem accessRequest_lifecycle {ls : List AccessLabel} {s : AccessState}
    (h : Run accessStep AccessState.init ls s) :
    (∀ (ls' : List AccessLabel) (s' : AccessState), Run accessStep s ls' s' →
      ∀ r ∈ s.requests.rows, r.status.terminal = true →
        ∃ r' ∈ s'.requests.rows, r'.id = r.id ∧ r'.status = r.status) ∧
    (∀ (userID targetID asgID : String) (protocol : Protocol) (now : Int),
      s.requests.hasActiveGrant userID targetID asgID protocol now = true →
        ∃ r ∈ s.requests.rows, r.userID = userID ∧ r.protocol = protocol ∧
          (sameID r.targetID targetID || sameID r.asgID asgID) = true ∧
          (∃ expiry, r.expiresAt = some expiry ∧ now < expiry) ∧
          ∃ pre a at_ post, ls = pre ++ .approve a at_ :: post ∧ a.requestID = r.id ∧
            ∀ l ∈ post, ¬l.Withdraws r) ∧
    (∀ r ∈ s.requests.rows, ∀ granted, r.approvedMinutes = some granted →
      ∃ pre cur inv pols approverID d mid a at_ post m,
        ls = pre ++ .approveTerms cur inv pols approverID d a.now :: (mid ++ .approve a at_ :: post) ∧
        Run accessStep .init pre m ∧ a.requestID = r.id ∧ granted = a.minutes ∧
        r.expiresAt = some (timeArg a.expires) ∧ a.Sound m.requests inv pols r) := by
  have hlives := lives_run h
  refine ⟨fun ls' s' hrun r hr ht => terminal_run hrun hr ht, ?_, ?_⟩
  · intro userID targetID asgID protocol now hactive
    obtain ⟨r, hr, hu, hp, hs, ⟨expiry, hexp, hlt⟩, hplace⟩ :=
      Requests.hasActiveGrant_iff.mp hactive
    obtain ⟨pre, a, at_, post, hls, ⟨hid, he, -⟩, -, hpost⟩ := hlives.granted r hr (.inl hs)
    -- the stored expiry is cut to the microsecond, so the cut instant being
    -- before it puts the instant itself before it
    have hcut : expiry = timeArg a.expires := Option.some.inj (hexp.symm.trans he)
    have hnow : now < expiry := by
      rw [hcut] at hlt ⊢
      unfold timeArg at hlt ⊢
      omega
    exact ⟨r, hr, hu, hp, hplace, ⟨expiry, hexp, hnow⟩, pre, a, at_, post, hls, hid, hpost hs⟩
  · intro r hr granted hgranted
    obtain ⟨-, a, at_, post, rfl, ⟨hid, he, hm⟩,
        ⟨pre, cur, inv, pols, approverID, d, mid, m, rfl, hrun, hsound⟩, -⟩ :=
      hlives.granted r hr (.inr (by simp [hgranted]))
    exact ⟨pre, cur, inv, pols, approverID, d, mid, a, at_, post, m, by simp, hrun, hid,
      Option.some.inj (hgranted.symm.trans hm), he, hsound⟩

/-- An hour of ssh on the host `h`, asked for by `u` and approved by `admin`. -/
def approvedHour : List AccessLabel :=
  let inv : Inventory := ⟨fun _ => some (.host, ∅), fun _ => none⟩
  let draft : Draft := ⟨"u", "p", "g", "h", "", .ssh, "maintenance", 60, ""⟩
  [.check inv [hourPolicy] "u" ⟨"h", "", .ssh, "maintenance", 60, ""⟩ 0,
    .insert draft "r" 1000, .approveGet "r" false false none,
    .approveTerms (draft.request "r" 1000) inv [hourPolicy] "admin" ⟨"", 0⟩ 2000,
    .approve ⟨"r", "admin", "", 60, 2000, 2000 + 60 * minute⟩ 3000]

/-- The grant is active right after, by that decision. -/
theorem accessRequest_approved_hour :
    ∃ s, Run accessStep .init approvedHour s ∧
      s.requests.hasActiveGrant "u" "h" "" .ssh 4000 = true ∧
      ∃ r ∈ s.requests.rows, ∃ expiry, r.expiresAt = some expiry ∧ 4000 < expiry := by
  refine RunWhere.exists_imp (fun s hrun hactive => ⟨hactive, ?_⟩)
    ⟨_, Run.of_exec rfl, by rfl⟩
  obtain ⟨r, hr, -, -, -, hexp, -⟩ := (accessRequest_lifecycle hrun).2.1 _ _ _ _ _ hactive
  exact ⟨r, hr, hexp⟩

/-! ## Decided once -/

/-- Who decided a request and when, for how long and until when. -/
def Request.decision (r : Request) : String × Option Int × Option Int × Option Int :=
  (r.approverUserID, r.decidedAt, r.approvedMinutes, r.expiresAt)

/-- What becomes of a request: it asks for the same, and a decided one keeps its decision and at
most ends. -/
structure Request.Becomes (r r' : Request) : Prop where
  same : r'.SameAsk r
  pending : r'.status = .pending → r.status = .pending
  decided : r.status ≠ .pending →
    r'.decision = r.decision ∧ (r'.status = .approved → r.status = .approved)

theorem Fate.becomes (h : Fate l r r') : r.Becomes r' := by
  refine ⟨h.sameAsk, h.pending, fun hne => ?_⟩
  cases h with
  | kept => exact ⟨rfl, id⟩
  | approved a at_ hl hid hp => exact absurd hp hne
  | denied approverID note at_ hp => exact absurd hp hne
  | ended status note at_ hs =>
    refine ⟨rfl, fun happroved => ?_⟩
    rcases hs with rfl | rfl <;> cases happroved

theorem Request.Becomes.trans {r'' : Request} (h : r.Becomes r') (h' : r'.Becomes r'') :
    r.Becomes r'' := by
  refine ⟨h'.same.trans h.same, fun hp => h.pending (h'.pending hp), fun hne => ?_⟩
  obtain ⟨hkept, hended⟩ := h.decided hne
  obtain ⟨hkept', hended'⟩ := h'.decided fun hp => hne (h.pending hp)
  exact ⟨hkept'.trans hkept, fun happroved => hended (hended' happroved)⟩

/-- **A request is decided once.** From any table, in every interleaving of the five statements: no
request is lost and each goes on asking for what it asked; none is pending again; and once one is
decided, who decided it and when, for how long and until when stay as they are. -/
theorem requests_decided_once {s' : AccessState} {ls : List AccessLabel}
    (h : Run accessStep s ls s') :
    ∀ r ∈ s.requests.rows, ∃ r' ∈ s'.requests.rows, r.Becomes r' := by
  intro r hr
  refine h.keeps (fun t => ∃ r' ∈ t.requests.rows, r.Becomes r') (fun t l u _ ih hstep => ?_)
    ⟨r, hr, ⟨rfl, rfl, rfl, rfl⟩, id, fun _ => ⟨rfl, id⟩⟩
  obtain ⟨q, hq, hbecomes⟩ := ih
  exact ⟨l.onRow q, mem_of_accessStep hstep hq, hbecomes.trans (l.onRow_fate q).becomes⟩

/-- The hour is revoked, as the hour that was granted. -/
theorem revoked_hour_decided_once :
    ∃ s t, Run accessStep .init approvedHour s ∧ Run accessStep s [.revoke "r" "" 4000] t ∧
      (t.requests.rows.any fun r => r.status = .revoked) ∧
      ∀ r ∈ s.requests.rows, ∃ r' ∈ t.requests.rows, r.Becomes r' := by
  obtain ⟨s, hs, h⟩ : ∃ s, Run accessStep .init approvedHour s ∧
      (exec accessStep s [.revoke "r" "" 4000]).any fun t =>
        t.requests.rows.any fun r => r.status = .revoked := Run.of_exec_any rfl
  obtain ⟨t, ht, hrevoked⟩ := Run.of_exec_any h
  exact ⟨s, t, hs, ht, hrevoked, requests_decided_once ht⟩

end Zanskar
