import Zanskar.Policy.Terms

/-!
# Overlap: adding a grant never loosens (ADR 0036, "Overlap")

"Adding a grant can add access; it never loosens a term of access that already
exists." The statement relates two evaluations. Inserting a policy or a grant
anywhere leaves every earlier candidate a candidate (`Inserted.candidates`), so
access that was allowed stays allowed and standing access stays standing. Where
the same class of grants decides before and after, the deciding grants only
grow, and the terms of the larger set are at least as strict
(`settle_noLooser`).

Bounds on a grant's terms matter here (`Grant.validate` has narrower ones): they
keep the durations from wrapping, and a maximum from coming to the zero that
means none.

The two loops come to `referenceDecision`, which takes each term over all
deciding grants at once: the order of policies and grants does not matter.
-/

namespace Zanskar

open Go List

/-- `m'` is not longer than `m`, a maximum of zero being none, the longest. -/
def NoLonger (m' m : Int) : Prop := m = 0 ∨ (m' ≠ 0 ∧ m' ≤ m)

/-- Every term of `d'` is at least as strict as the same term of `d`. -/
structure Decision.NoLooser (d' d : Decision) : Prop where
  idleTimeout : d'.idleTimeout ≤ d.idleTimeout
  maxSession : NoLonger d'.maxSession d.maxSession
  allowClipboard : d'.allowClipboard = true → d.allowClipboard = true
  allowFileTransfer : d'.allowFileTransfer = true → d.allowFileTransfer = true
  allowDevTools : d'.allowDevTools = true → d.allowDevTools = true
  requireMFA : d.requireMFA = true → d'.requireMFA = true
  retentionDays : d.retentionDays ≤ d'.retentionDays

/-- The minutes of the grant fit a duration, and a maximum is at least one. -/
structure Grant.TermsInBounds (g : Grant) : Prop where
  idle : 0 ≤ g.idleTimeoutMinutes ∧ g.idleTimeoutMinutes ≤ 153722867
  maxSession : ∀ max, g.maxSessionMinutes = some max → 1 ≤ max ∧ max ≤ 153722867

/-- A maximum that is set in bounds is not the zero that means none. -/
theorem Grant.TermsInBounds.minutes_ne_zero {g : Grant} (h : g.TermsInBounds) {max : Int}
    (hmax : g.maxSessionMinutes = some max) : minutes max ≠ 0 := by
  obtain ⟨hlo, hhi⟩ := h.maxSession max hmax
  exact Go.minutes_ne_zero hlo (by omega)

variable {set set' : List Decider} {zones : Zones} {t : TargetRef} {proto : Protocol} {now : Int}
  {windows : Bool} {before after : List Policy}

/-- The strictest maximum is not longer than one it is below, as long as no
maximum comes to zero. -/
theorem noLonger_of_le {M : WithTop Int} (hle : (strictest set).maxSession ≤ M)
    (hne : ∀ c ∈ set, ∀ max, c.g.maxSessionMinutes = some max → minutes max ≠ 0) :
    NoLonger ((strictest set).maxSession.untopD 0) (M.untopD 0) := by
  cases M with
  | top => exact .inl rfl
  | coe x =>
    obtain ⟨y, hy, hyx⟩ := WithTop.le_coe_iff.mp hle
    obtain ⟨c, hc, max, hmax, rfl⟩ := strictest_maxSession hy
    rw [hy]
    exact .inr ⟨hne c hc max hmax, hyx⟩

theorem settle_idleTimeout_le (hne : set ≠ [])
    (hsub : GrantsAmong set set') (hb : ∀ c ∈ set', c.g.TermsInBounds) (r r' : Bool) :
    (settle set' r').idleTimeout ≤ (settle set r).idleTimeout := by
  obtain ⟨c, hc⟩ := exists_mem_of_ne_nil set hne
  obtain ⟨c', hc', hg⟩ := hsub c hc
  obtain ⟨i, hi, hidle⟩ := settle_idleTimeout set r hne
  obtain ⟨i', hi', hidle'⟩ := settle_idleTimeout set' r' (ne_nil_of_mem hc')
  have hle : (strictest set').idle ≤ (strictest set).idle := (strictest_anti hsub).idle
  have hlo : ((0 : Int) : WithTop Int) ≤ (strictest set').idle :=
    le_strictest_idle fun d hd => (hb d hd).idle.1
  have hhi : (strictest set).idle ≤ (c.g.idleTimeoutMinutes : Int) := (strictest_le hc).idle
  rw [hi, hi', WithTop.coe_le_coe] at hle
  rw [hi', WithTop.coe_le_coe] at hlo
  rw [hi, WithTop.coe_le_coe] at hhi
  have hcap : c.g.idleTimeoutMinutes ≤ 153722867 := hg ▸ (hb c' hc').idle.2
  rw [hidle, hidle']
  exact minutes_le_minutes (by omega) hle (by omega)

/-- **More deciding grants, no looser terms.** -/
theorem settle_noLooser (hne : set ≠ [])
    (hsub : GrantsAmong set set') (hb : ∀ c ∈ set', c.g.TermsInBounds) (r r' : Bool) :
    (settle set' r').NoLooser (settle set r) := by
  have hanti := strictest_anti hsub
  have hterms := settle_carries set r
  have hterms' := settle_carries set' r'
  refine ⟨settle_idleTimeout_le hne hsub hb r r', ?_, ?_, ?_, ?_, ?_, ?_⟩
  · rw [hterms.maxSession, hterms'.maxSession]
    exact noLonger_of_le hanti.maxSession fun c hc max hmax =>
      (hb c hc).minutes_ne_zero hmax
  · rw [hterms.clipboard, hterms'.clipboard]
    exact hanti.clipboard
  · rw [hterms.fileTransfer, hterms'.fileTransfer]
    exact hanti.fileTransfer
  · rw [hterms.devTools, hterms'.devTools]
    exact hanti.devTools
  · rw [hterms.mfa, hterms'.mfa]
    exact hanti.mfa
  · rw [hterms.retention, hterms'.retention]
    exact_mod_cast hanti.retention

/-! ## Inserting a policy or a grant -/

/-- `after` is `before` with one policy, or one grant of one policy, inserted
somewhere. -/
inductive Inserted : List Policy → List Policy → Prop
  | policy (l r : List Policy) (p : Policy) : Inserted (l ++ r) (l ++ p :: r)
  | grant (l r : List Policy) (p : Policy) (gl gr : List Grant) (g : Grant)
      (hgrants : p.grants = gl ++ gr) :
      Inserted (l ++ p :: r) (l ++ { p with grants := gl ++ g :: gr } :: r)

/-- A candidate stays one: the policy that holds it may have gained a grant. -/
theorem Inserted.candidates (h : Inserted before after) :
    GrantsAmong (candidates zones t proto now windows before)
      (candidates zones t proto now windows after) := by
  intro c hc
  obtain ⟨hp, hen, hg, hadm⟩ := mem_candidates.mp hc
  cases h with
  | policy l r p =>
    refine ⟨c, mem_candidates.mpr ⟨?_, hen, hg, hadm⟩, rfl⟩
    rcases mem_append.mp hp with hl | hr
    · exact mem_append_left _ hl
    · exact mem_append_right _ (mem_cons_of_mem p hr)
  | grant l r p gl gr g hgrants =>
    rcases mem_append.mp hp with hl | hr
    · exact ⟨c, mem_candidates.mpr ⟨mem_append_left _ hl, hen, hg, hadm⟩, rfl⟩
    rcases mem_cons.mp hr with rfl | hr
    · -- the policy the grant was inserted into: its other grants are all there
      refine ⟨⟨{ c.p with grants := gl ++ g :: gr }, c.g⟩, mem_candidates.mpr
        ⟨mem_append_right _ mem_cons_self, hen, ?_, hadm⟩, rfl⟩
      rw [hgrants] at hg
      rcases mem_append.mp hg with hgl | hgr
      · exact mem_append_left _ hgl
      · exact mem_append_right _ (mem_cons_of_mem g hgr)
    · exact ⟨c, mem_candidates.mpr ⟨mem_append_right _ (mem_cons_of_mem _ hr), hen, hg, hadm⟩, rfl⟩

theorem Inserted.standing (h : Inserted before after) :
    GrantsAmong (standing zones t proto now windows before)
      (standing zones t proto now windows after) := by
  intro c hc
  obtain ⟨hcand, hacc⟩ := mem_standing.mp hc
  obtain ⟨c', hc', hg⟩ := h.candidates c hcand
  exact ⟨c', mem_standing.mpr ⟨hc', hg ▸ hacc⟩, hg⟩

theorem Inserted.approval (h : Inserted before after) :
    GrantsAmong (approval zones t proto now windows before)
      (approval zones t proto now windows after) := by
  intro c hc
  obtain ⟨hcand, hacc⟩ := mem_approval.mp hc
  obtain ⟨c', hc', hg⟩ := h.candidates c hcand
  exact ⟨c', mem_approval.mpr ⟨hc', hg ▸ hacc⟩, hg⟩

theorem GrantsAmong.ne_nil (h : GrantsAmong set set') (hne : set ≠ []) : set' ≠ [] := by
  obtain ⟨c, hc⟩ := exists_mem_of_ne_nil set hne
  obtain ⟨c', hc', -⟩ := h c hc
  exact ne_nil_of_mem hc'

/-- The deciding grants only grow while the same class decides. -/
theorem Inserted.deciding (h : Inserted before after)
    (hsame : (Zanskar.standing zones t proto now windows after).isEmpty =
      (Zanskar.standing zones t proto now windows before).isEmpty) :
    GrantsAmong (deciding zones t proto now windows before)
      (deciding zones t proto now windows after) := by
  unfold Zanskar.deciding
  rw [hsame]
  split
  · exact h.approval
  · exact h.standing

/-- **Adding a policy or a grant never loosens.** For every list of policies and
every policy or grant inserted anywhere in it, every target, protocol and
instant (with windows honoured or, for a live session, not): access that was
allowed stays allowed, approval does not come to be required for it, and when
approval is required as before, every term is at least as strict. -/
theorem evaluate_inserted_noLooser (zones : Zones) (t : TargetRef) (proto : Protocol)
    (now : Int) (windows : Bool) {before after : List Policy} (h : Inserted before after)
    (hbounds : ∀ p ∈ after, ∀ g ∈ p.grants, g.TermsInBounds)
    (hallowed : (evaluate zones before t proto now windows).allowed = true) :
    (evaluate zones after t proto now windows).allowed = true ∧
      ((evaluate zones before t proto now windows).requireApproval = false →
        (evaluate zones after t proto now windows).requireApproval = false) ∧
      ((evaluate zones after t proto now windows).requireApproval =
          (evaluate zones before t proto now windows).requireApproval →
        (evaluate zones after t proto now windows).NoLooser
          (evaluate zones before t proto now windows)) := by
  have hb := evaluate_allowed_iff.mp hallowed
  have ha : candidates zones t proto now windows after ≠ [] := h.candidates.ne_nil hb
  refine ⟨evaluate_allowed_iff.mpr ha, ?_, ?_⟩
  · rw [evaluate_requireApproval hb, evaluate_requireApproval ha]
    intro hs
    rw [Bool.eq_false_iff, Ne, List.isEmpty_iff] at hs ⊢
    exact h.standing.ne_nil hs
  · rw [evaluate_requireApproval hb, evaluate_requireApproval ha]
    intro hsame
    rw [evaluate_eq_settle hb, evaluate_eq_settle ha]
    refine settle_noLooser (fun hnil => hb (deciding_eq_nil_iff.mp hnil))
      (h.deciding hsame) (fun c hc => ?_) _ _
    obtain ⟨hp, -, hg, -⟩ := mem_candidates.mp (mem_candidates_of_mem_deciding hc)
    exact hbounds c.p hp c.g hg

/-- A grant of ssh on the host `h`, with its terms. -/
def sampleGrant (clipboard : Bool) (idle : Int) (max : Option Int) : Grant where
  id := "g"
  kind := .host
  targets := [⟨"h", [.ssh]⟩]
  tags := none
  access := .standing
  signIn := .target
  requireMFA := false
  allowClipboard := clipboard
  allowFileTransfer := true
  allowDevTools := false
  idleTimeoutMinutes := idle
  maxSessionMinutes := max
  timeWindows := []
  retentionDays := none

/-- A policy of one grant. -/
def samplePolicy (id : String) (g : Grant) : Policy where
  id := id
  name := id
  description := ""
  enabled := true
  subjects := [⟨.user, "u"⟩]
  grants := [g]
  createdBy := ""
  createdAt := 0
  updatedAt := 0
  reviewedAt := none
  reviewedBy := ""

/-- A second policy, inserted in front, turns the clipboard off and sets a
maximum. -/
theorem evaluate_inserted_second_policy :
    (evaluate ⟨fun _ => none⟩
        [samplePolicy "b" (sampleGrant true 30 none)] ⟨.host, "h", "", ∅⟩ .ssh 0 true).allowed =
      true ∧
    (evaluate ⟨fun _ => none⟩
        [samplePolicy "a" (sampleGrant false 15 (some 60)),
          samplePolicy "b" (sampleGrant true 30 none)] ⟨.host, "h", "", ∅⟩ .ssh 0 true).NoLooser
      (evaluate ⟨fun _ => none⟩
        [samplePolicy "b" (sampleGrant true 30 none)] ⟨.host, "h", "", ∅⟩ .ssh 0 true) := by
  refine ⟨by rfl, (evaluate_inserted_noLooser _ _ _ _ _
    (Inserted.policy [] [samplePolicy "b" (sampleGrant true 30 none)] _) ?_ (by rfl)).2.2
      (by rfl)⟩
  intro p hp g hg
  rcases mem_cons.mp hp with rfl | hp
  · rw [mem_singleton.mp hg]
    exact ⟨by decide, fun max h => Option.some.inj h ▸ by decide⟩
  · rw [mem_singleton.mp hp] at hg
    rw [mem_singleton.mp hg]
    exact ⟨by decide, nofun⟩

/-! ## The reference decision -/

/-- A decision without the policy and the grants it names and the text of a denial. -/
def Decision.unlabelled (d : Decision) : Decision :=
  { d with reason := "", policy := none, grantID := "", grants := [] }

/-- The terms of the grants that decide: each limit the strictest of those set, a switch only
where every grant allows it, the sign-in choices of all. -/
def referenceTerms (set : List Grant) (requireApproval : Bool) : Decision where
  allowed := true
  requireApproval := requireApproval
  idleTimeout := minutes ((set.map Grant.idleTimeoutMinutes).min?.getD 0)
  maxSession := ((set.filterMap Grant.maxSessionMinutes).map minutes).min?.getD 0
  retentionDays := (set.filterMap Grant.retentionDays).foldr max 0
  allowClipboard := set.all Grant.allowClipboard
  allowFileTransfer := set.all Grant.allowFileTransfer
  allowDevTools := set.all Grant.allowDevTools
  requireMFA := set.any Grant.requireMFA
  signInTarget := set.any fun g => g.signIn ≠ .own
  signInOwn := set.any fun g => g.signIn = .own

/-- Of the grants that let a caller in, the standing ones decide, or else the approval ones. -/
def referenceOf (grants : List Grant) : Decision :=
  if grants.isEmpty then {}
  else
    let standing := grants.filter fun g => g.access ≠ .approval
    if standing.isEmpty then referenceTerms grants true else referenceTerms standing false

/-- The reference decision: over the enabled grants that cover the target and protocol and have
a window open, or none. -/
def referenceDecision (zones : Zones) (policies : List Policy) (t : TargetRef) (proto : Protocol)
    (now : Int) : Decision :=
  referenceOf <| policies.flatMap fun p =>
    if p.enabled then
      p.grants.filter fun g =>
        g.covers t proto && (g.timeWindows.isEmpty || anyOpen zones g.timeWindows now)
    else []

/-- The same policies in another order, and in each of them the same grants in another order. -/
def Rearranged (policies policies' : List Policy) : Prop :=
  ∃ mid, Forall₂ (fun p q => q = { p with grants := q.grants } ∧ p.grants.Perm q.grants)
    policies mid ∧ mid.Perm policies'

/-- The least of some limits, zero for none. -/
theorem untopD_eq_min {l : List Int} {x : WithTop Int} (hle : ∀ b ∈ l, x ≤ b)
    (hmem : ∀ i : Int, x = i → i ∈ l) : x.untopD 0 = l.min?.getD 0 := by
  cases x with
  | top =>
    obtain rfl : l = [] := eq_nil_iff_forall_not_mem.mpr fun b hb =>
      WithTop.not_top_le_coe b (hle b hb)
    rfl
  | coe i =>
    rw [min?_eq_some_iff.mpr ⟨hmem i rfl, fun b hb => WithTop.coe_le_coe.mp (hle b hb)⟩]
    rfl

theorem strictest_retention : ((strictest set).retention : Int) =
    ((set.map Decider.g).filterMap Grant.retentionDays).foldr max 0 := by
  induction set with
  | nil => rfl
  | cons c set ih =>
    rw [strictest_cons, map_cons]
    show ((max (c.g.retentionDays.getD 0).toNat (strictest set).retention : Nat) : Int) = _
    cases hdays : c.g.retentionDays with
    | none => rw [filterMap_cons_none hdays, ← ih]; simp
    | some days =>
      rw [filterMap_cons_some hdays, foldr_cons, ← ih, Option.getD_some]
      omega

theorem Merge.signIn_foldl (set : List Decider) (m : Merge) :
    (set.foldl Merge.add m).d.signInTarget =
        (m.d.signInTarget || set.any fun c => c.g.signIn ≠ .own) ∧
      (set.foldl Merge.add m).d.signInOwn =
        (m.d.signInOwn || set.any fun c => c.g.signIn = .own) := by
  induction set generalizing m with
  | nil => simp
  | cons c set ih =>
    rw [foldl_cons, (ih _).1, (ih _).2, any_cons, any_cons, ← Bool.or_assoc, ← Bool.or_assoc]
    exact ⟨rfl, rfl⟩

/-- The second loop comes to the reference terms. -/
theorem settle_unlabelled (hne : set ≠ []) (requireApproval : Bool) :
    (settle set requireApproval).unlabelled =
      referenceTerms (set.map Decider.g) requireApproval := by
  obtain ⟨idle, hidle, hfield⟩ := settle_idleTimeout set requireApproval hne
  have hterms := settle_carries set requireApproval
  have hsign := Merge.signIn_foldl set (Merge.start requireApproval)
  rw [Decision.unlabelled, referenceTerms, Decision.mk.injEq]
  refine ⟨settle_allowed _ _, rfl, rfl, rfl, rfl, ?idle, ?max, ?retention, ?clipboard, ?file,
    ?devTools, ?mfa, settle_requireApproval _ _, ?target, ?own⟩
  case idle =>
    rw [hfield, map_map, ← @untopD_eq_min _ idle]
    · rfl
    · intro b hb
      obtain ⟨c, hc, rfl⟩ := mem_map.mp hb
      exact hidle ▸ (strictest_le hc).idle
    · -- the strictest term is one of the grants'
      intro i hi
      obtain ⟨c, hc, hx⟩ := strictest_limit Terms.idle rfl (fun _ _ => rfl) (hidle.trans hi)
      exact mem_map.mpr ⟨c, hc, WithTop.coe_inj.mp hx⟩
  case max =>
    rw [hterms.maxSession, filterMap_map]
    refine untopD_eq_min (fun b hb => ?_) fun i hi => ?_
    · obtain ⟨max, hmax, rfl⟩ := mem_map.mp hb
      obtain ⟨c, hc, hset⟩ := mem_filterMap.mp hmax
      have hle := (strictest_le hc).maxSession
      rwa [Grant.terms, show c.g.maxSessionMinutes = some max from hset] at hle
    · obtain ⟨c, hc, max, hmax, rfl⟩ := strictest_maxSession hi
      exact mem_map_of_mem (mem_filterMap.mpr ⟨c, hc, hmax⟩)
  case retention => rw [hterms.retention, strictest_retention]
  case clipboard =>
    rw [hterms.clipboard, all_map]
    exact strictest_switch Terms.clipboard rfl (fun _ _ => rfl)
  case file =>
    rw [hterms.fileTransfer, all_map]
    exact strictest_switch Terms.fileTransfer rfl (fun _ _ => rfl)
  case devTools =>
    rw [hterms.devTools, all_map]
    exact strictest_switch Terms.devTools rfl (fun _ _ => rfl)
  case mfa =>
    rw [hterms.mfa, any_map]
    exact strictest_mfa
  case target =>
    rw [any_map]
    unfold settle Merge.finish
    split <;> exact hsign.1
  case own =>
    rw [any_map]
    unfold settle Merge.finish
    split <;> exact hsign.2

theorem evaluate_unlabelled (policies : List Policy) :
    (evaluateNow zones policies t proto now).unlabelled =
      referenceDecision zones policies t proto now := by
  have hgrants : (candidates zones t proto now true policies).map Decider.g =
      policies.flatMap fun p => if p.enabled then p.grants.filter fun g =>
        g.covers t proto && (g.timeWindows.isEmpty || anyOpen zones g.timeWindows now) else [] := by
    rw [candidates, map_flatMap]
    congr 1
    funext p
    split
    · rw [map_map]
      exact map_id' _
    · rfl
  have hstanding : ((candidates zones t proto now true policies).map Decider.g).filter
      (fun g => g.access ≠ .approval) =
        (standing zones t proto now true policies).map Decider.g := by
    rw [filter_map, standing]
    congr 2
    funext c
    simp [Decider.gated]
  rw [referenceDecision, ← hgrants, referenceOf, isEmpty_map]
  dsimp only
  rw [hstanding, isEmpty_map]
  split
  · rename_i hnone
    rw [List.isEmpty_iff, ← deciding_eq_nil_iff] at hnone
    rw [evaluateNow, evaluate_eq, hnone]
    rfl
  · rename_i hsome
    rw [List.isEmpty_iff] at hsome
    have hne := mt deciding_eq_nil_iff.mp hsome
    rw [evaluateNow, evaluate_eq_settle hsome, settle_unlabelled hne, deciding]
    split
    · rename_i hs
      rw [approval_eq_candidates (isEmpty_iff.mp hs), hs]
    · rename_i hs
      rw [Bool.eq_false_iff.mpr hs]

theorem min?_perm {l l' : List Int} (h : l.Perm l') : l.min? = l'.min? := by
  refine Option.ext fun a => ?_
  rw [min?_eq_some_iff, min?_eq_some_iff]
  simp only [h.mem_iff]

theorem referenceTerms_perm {l l' : List Grant} (h : l.Perm l') (requireApproval : Bool) :
    referenceTerms l requireApproval = referenceTerms l' requireApproval := by
  unfold referenceTerms
  rw [min?_perm (h.map _), min?_perm ((h.filterMap _).map _), (h.filterMap _).foldr_op_eq,
    h.all_eq, h.all_eq, h.all_eq, h.any_eq, h.any_eq, h.any_eq]

theorem referenceOf_perm {l l' : List Grant} (h : l.Perm l') : referenceOf l = referenceOf l' := by
  unfold referenceOf
  dsimp only
  rw [h.isEmpty_eq, (h.filter _).isEmpty_eq, referenceTerms_perm h,
    referenceTerms_perm (h.filter _)]

/-- What a rearrangement leaves of the grants, in another order. -/
theorem Rearranged.flatMap_perm {policies policies' : List Policy}
    (h : Rearranged policies policies') (keep : Grant → Bool) :
    (policies.flatMap fun p => if p.enabled then p.grants.filter keep else []).Perm
      (policies'.flatMap fun p => if p.enabled then p.grants.filter keep else []) := by
  obtain ⟨mid, hinner, houter⟩ := h
  refine Perm.trans ?_ (houter.flatMap_right _)
  clear houter
  induction hinner with
  | nil => exact .nil
  | cons hpq _ ih =>
    obtain ⟨hq, hperm⟩ := hpq
    rw [flatMap_cons, flatMap_cons, hq]
    refine Perm.append ?_ ih
    split
    · exact hperm.filter keep
    · exact .nil

/-- **The reference.** For all policies, targets, protocols and times the decision is the
reference decision, and it stays the same in any order of the policies and of their grants, its
labels and the text of a denial apart. -/
theorem evaluate_is_reference (zones : Zones) (policies : List Policy) (t : TargetRef)
    (proto : Protocol) (now : Int) :
    (evaluateNow zones policies t proto now).unlabelled =
        referenceDecision zones policies t proto now ∧
      ∀ policies', Rearranged policies policies' →
        (evaluateNow zones policies' t proto now).unlabelled =
          (evaluateNow zones policies t proto now).unlabelled := by
  refine ⟨evaluate_unlabelled policies, fun policies' h => ?_⟩
  rw [evaluate_unlabelled, evaluate_unlabelled]
  exact (referenceOf_perm (h.flatMap_perm _)).symm

end Zanskar
