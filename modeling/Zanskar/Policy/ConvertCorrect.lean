import Zanskar.Lib.Check
import Zanskar.Policy.ConvertCover

/-!
# The conversion keeps access (ADR 0036)

"Converted policies evaluate, for every target and protocol, as the legacy ones
did." `Agrees` is what the converter's own test checks of one evaluation, as a
proposition:

- allowed and approval required are the same;
- where one legacy policy admits, every term is the same;
- where several admit, each new term is at least as strict, by the overlap rule
  the ADR changes on purpose;
- a protocol the kind does not serve is never allowed.

The argument is a correspondence of deciding sets. Each candidate grant was made
from an admitting policy and carries its conditions, and each admitting policy
makes a candidate (`candidates_correspond`). So the same class decides on both
sides.

Two things in the code limit this. `canonical` writes some different tag maps
alike, and then `convert` merges selectors that are not the same. And a maximum
of `2 ^ 53` minutes wraps to the duration zero, which the merge takes as the
shortest and the decision reads as none. `convert_agrees_iff` says that nothing
else does.
-/

namespace Zanskar

open Go List

/-! ## What is compared -/

/-- Valid terms: an idle timeout and, when set, a maximum of at least 1. -/
structure LegacyPolicy.ValidTerms (p : LegacyPolicy) : Prop where
  idle : 1 ≤ p.idleTimeoutMinutes
  maxSession : ∀ max, p.maxSessionMinutes = some max → 1 ≤ max

/-- Every term equal; file transfer where files can move. -/
structure Decision.SameTerms (d : Decision) (old : LegacyDecision) (kind : Kind) : Prop where
  idleTimeout : d.idleTimeout = old.idleTimeout
  maxSession : d.maxSession = old.maxSession
  allowClipboard : d.allowClipboard = old.allowClipboard
  allowFileTransfer : kind = .host ∨ kind = .autoscaling →
    d.allowFileTransfer = old.allowFileTransfer
  requireMFA : d.requireMFA = old.requireMFA
  retentionDays : d.retentionDays = old.retentionDays

/-- Every term at least as strict as the legacy one. -/
structure Decision.NoLooserThan (d : Decision) (old : LegacyDecision) : Prop where
  idleTimeout : d.idleTimeout ≤ old.idleTimeout
  maxSession : NoLonger d.maxSession old.maxSession
  allowClipboard : d.allowClipboard = true → old.allowClipboard = true
  allowFileTransfer : d.allowFileTransfer = true → old.allowFileTransfer = true
  requireMFA : old.requireMFA = true → d.requireMFA = true
  retentionDays : old.retentionDays ≤ d.retentionDays

/-- One evaluation of the converted policies against the legacy ones. -/
structure Agrees (zones : Zones) (inv : LegacyInventory) (legacy : List LegacyPolicy)
    (newID : Nat → String) (t : TargetRef) (proto : Protocol) (now : Int) : Prop where
  allowed : kindServes t.kind proto = true →
    (evaluateNow zones (convertAll inv legacy newID) t proto now).allowed =
      (legacyEvaluate zones legacy t proto now).allowed
  requireApproval : kindServes t.kind proto = true →
    (evaluateNow zones (convertAll inv legacy newID) t proto now).requireApproval =
      (legacyEvaluate zones legacy t proto now).requireApproval
  one : kindServes t.kind proto = true →
    (legacyAdmitting zones t proto now legacy).length = 1 →
      (evaluateNow zones (convertAll inv legacy newID) t proto now).SameTerms
        (legacyEvaluate zones legacy t proto now) t.kind
  several : kindServes t.kind proto = true →
    2 ≤ (legacyAdmitting zones t proto now legacy).length →
      (evaluateNow zones (convertAll inv legacy newID) t proto now).NoLooserThan
        (legacyEvaluate zones legacy t proto now)
  unserved : kindServes t.kind proto = false →
    (evaluateNow zones (convertAll inv legacy newID) t proto now).allowed = false

/-! ## Grants made from a policy -/

/-- The grant carries the policy's conditions. -/
def Grant.MadeFrom (g : Grant) (p : LegacyPolicy) : Prop :=
  ∃ id kind targets tags,
    g = { p.conditions id kind with targets := targets, tags := tags }

/-- The terms a legacy policy's grants set. -/
def LegacyPolicy.terms (p : LegacyPolicy) : Terms := (p.conditions "" .host).terms

section MadeFrom

variable {g : Grant} {p : LegacyPolicy}

theorem Grant.MadeFrom.terms (h : g.MadeFrom p) : g.terms = p.terms := by
  obtain ⟨id, kind, targets, tags, rfl⟩ := h
  rfl

theorem Grant.MadeFrom.timeWindows (h : g.MadeFrom p) : g.timeWindows = p.timeWindows := by
  obtain ⟨id, kind, targets, tags, rfl⟩ := h
  rfl

theorem Grant.MadeFrom.idle (h : g.MadeFrom p) : g.idleTimeoutMinutes = p.idleTimeoutMinutes := by
  obtain ⟨id, kind, targets, tags, rfl⟩ := h
  rfl

theorem Grant.MadeFrom.maxSession (h : g.MadeFrom p) :
    g.maxSessionMinutes = p.maxSessionMinutes := by
  obtain ⟨id, kind, targets, tags, rfl⟩ := h
  rfl

theorem Grant.MadeFrom.gated {c : Decider} (h : c.g.MadeFrom p) :
    c.gated = p.requireApproval := by
  obtain ⟨id, kind, targets, tags, heq⟩ := h
  cases hreq : p.requireApproval <;> simp [Decider.gated, heq, LegacyPolicy.conditions, hreq]

end MadeFrom

/-- Each policy is converted to one with its switch and the grants `convert` makes. -/
theorem convertAll_forall₂ (inv : LegacyInventory) (legacy : List LegacyPolicy)
    (newID : Nat → String) :
    Forall₂ (fun p q => q.enabled = p.enabled ∧ ∃ ids, q.grants = (convert p inv ids).grants)
      legacy (convertAll inv legacy newID) := by
  induction legacy generalizing newID with
  | nil => exact .nil
  | cons p ps ih => exact .cons ⟨rfl, newID, rfl⟩ (ih _)

/-! ## The deciding sets correspond -/

/-- The selectors' tags are in `T`. -/
def LegacyPolicy.TagsIn (T : Set TagMap) (p : LegacyPolicy) : Prop :=
  ∀ pr ∈ p.pairs, pr.TagsIn T

/-- `canonical` tells the policy's tag maps apart. -/
def LegacyPolicy.TagsApart (p : LegacyPolicy) : Prop :=
  ∃ T : Set TagMap, Set.InjOn canonical T ∧ p.TagsIn T

variable {p : LegacyPolicy}

section Correspond

variable {zones : Zones} {inv : LegacyInventory}
  {legacy : List LegacyPolicy} {newID : Nat → String} {t : TargetRef} {proto : Protocol}
  {now : Int}

/-- A grant made from a policy has a window open exactly when the policy has. -/
theorem Grant.MadeFrom.windowOpen {g : Grant} (h : g.MadeFrom p) :
    g.windowOpen zones now true =
      (p.timeWindows.isEmpty || anyOpen zones p.timeWindows now) := by
  unfold Grant.windowOpen
  rw [h.timeWindows, Bool.not_true, Bool.false_or]

theorem mem_legacyAdmitting :
    p ∈ legacyAdmitting zones t proto now legacy ↔
      p ∈ legacy ∧ p.enabled ∧ p.covers t proto ∧
        (p.timeWindows.isEmpty || anyOpen zones p.timeWindows now) := by
  simp [legacyAdmitting, LegacyPolicy.admits, and_assoc]

/-- The deciding grants and the deciding policies, as far as a decision goes. -/
structure Corresponds (set : List Decider) (ps : List LegacyPolicy) : Prop where
  made : ∀ c ∈ set, ∃ p ∈ ps, c.g.MadeFrom p
  makes : ∀ p ∈ ps, ∃ c ∈ set, c.g.MadeFrom p

theorem Corresponds.isEmpty {set : List Decider} {ps : List LegacyPolicy}
    (h : Corresponds set ps) : set.isEmpty = ps.isEmpty := by
  rw [Bool.eq_iff_iff, List.isEmpty_iff, List.isEmpty_iff]
  constructor
  · rintro rfl
    refine List.eq_nil_iff_forall_not_mem.mpr fun p hp => ?_
    obtain ⟨c, hc, -⟩ := h.makes p hp
    cases hc
  · rintro rfl
    refine List.eq_nil_iff_forall_not_mem.mpr fun c hc => ?_
    obtain ⟨p, hp, -⟩ := h.made c hc
    cases hp

theorem Corresponds.filter {set : List Decider} {ps : List LegacyPolicy} {f : Decider → Bool}
    {f' : LegacyPolicy → Bool} (h : Corresponds set ps)
    (hsame : ∀ c p, c.g.MadeFrom p → f c = f' p) : Corresponds (set.filter f) (ps.filter f') := by
  refine ⟨fun c hc => ?_, fun p hp => ?_⟩
  · obtain ⟨hmem, hf⟩ := mem_filter.mp hc
    obtain ⟨p, hp, hmade⟩ := h.made c hmem
    exact ⟨p, mem_filter.mpr ⟨hp, hsame c p hmade ▸ hf⟩, hmade⟩
  · obtain ⟨hmem, hf⟩ := mem_filter.mp hp
    obtain ⟨c, hc, hmade⟩ := h.makes p hmem
    exact ⟨c, mem_filter.mpr ⟨hc, hsame c p hmade ▸ hf⟩, hmade⟩

theorem mem_legacyStanding :
    p ∈ legacyStanding zones t proto now legacy ↔
      p ∈ legacyAdmitting zones t proto now legacy ∧ p.requireApproval ≠ true := by
  simp [legacyStanding]

theorem mem_legacyGated :
    p ∈ legacyGated zones t proto now legacy ↔
      p ∈ legacyAdmitting zones t proto now legacy ∧ p.requireApproval := by
  simp [legacyGated]

theorem mem_legacyAdmitting_of_deciding (h : p ∈ legacyDeciding zones t proto now legacy) :
    p ∈ legacyAdmitting zones t proto now legacy := by
  unfold legacyDeciding at h
  split at h
  · exact (mem_legacyGated.mp h).1
  · exact (mem_legacyStanding.mp h).1

theorem legacyDeciding_eq_nil_iff :
    legacyDeciding zones t proto now legacy = [] ↔
      legacyAdmitting zones t proto now legacy = [] := by
  unfold legacyDeciding
  constructor
  · intro h
    refine eq_nil_iff_forall_not_mem.mpr fun p hp => ?_
    split at h
    · rename_i hs
      cases hreq : p.requireApproval with
      | true => exact ne_nil_of_mem (mem_legacyGated.mpr ⟨hp, hreq⟩) h
      | false =>
        exact ne_nil_of_mem (mem_legacyStanding.mpr ⟨hp, by simp [hreq]⟩) (isEmpty_iff.mp hs)
    · rename_i hs
      exact hs (isEmpty_iff.mpr h)
  · intro h
    simp [legacyStanding, legacyGated, h]

theorem legacyDeciding_of_admitting (h : legacyAdmitting zones t proto now legacy = [p]) :
    legacyDeciding zones t proto now legacy = [p] := by
  unfold legacyDeciding legacyStanding legacyGated
  rw [h]
  cases hreq : p.requireApproval <;> simp [hreq]

section

variable (hT : ∀ p ∈ legacy, p.TagsApart) (hcons : inv.Consistent t)
  (hserves : kindServes t.kind proto)
include hT hcons hserves

/-- Each candidate was made from an admitting policy, and each of those makes one. -/
theorem candidates_correspond :
    Corresponds (candidates zones t proto now true (convertAll inv legacy newID))
      (legacyAdmitting zones t proto now legacy) := by
  have hall := convertAll_forall₂ inv legacy newID
  refine ⟨fun c hc => ?_, fun p h => ?_⟩
  · obtain ⟨hq, hen, hg, hadm⟩ := mem_candidates.mp hc
    obtain ⟨p, hp, hsame, ids, hgrants⟩ := Lib.exists_of_forall₂ hall hq
    rw [hgrants] at hg
    have hmade : c.g.MadeFrom p := conditions_of_mem_convert hg
    rw [Grant.admits, Bool.and_eq_true, hmade.windowOpen] at hadm
    obtain ⟨T, hinj, hTp⟩ := hT p hp
    have hcov := (convert_covers_iff hinj hTp hcons hserves).mp ⟨c.g, hg, hadm.1⟩
    exact ⟨p, mem_legacyAdmitting.mpr ⟨hp, hsame ▸ hen, hcov, hadm.2⟩, hmade⟩
  · obtain ⟨hp, hen, hcov, hwin⟩ := mem_legacyAdmitting.mp h
    obtain ⟨q, hq, hsame, ids, hgrants⟩ := Lib.exists_of_forall₂ hall.flip hp
    obtain ⟨T, hinj, hTp⟩ := hT p hp
    obtain ⟨g, hg, hgcov⟩ := (convert_covers_iff hinj hTp hcons hserves).mpr hcov
    have hmade : g.MadeFrom p := conditions_of_mem_convert hg
    refine ⟨⟨q, g⟩, mem_candidates.mpr ⟨hq, hsame ▸ hen, hgrants ▸ hg, ?_⟩, hmade⟩
    rw [Grant.admits, Bool.and_eq_true, hmade.windowOpen]
    exact ⟨hgcov, hwin⟩

/-- The same standing ones, the same approval ones. -/
theorem standing_corresponds :
    Corresponds (standing zones t proto now true (convertAll inv legacy newID))
        (legacyStanding zones t proto now legacy) ∧
      Corresponds (approval zones t proto now true (convertAll inv legacy newID))
        (legacyGated zones t proto now legacy) := by
  constructor
  · exact (candidates_correspond hT hcons hserves).filter fun c p hmade => by rw [hmade.gated]
  · exact (candidates_correspond hT hcons hserves).filter fun c p hmade => hmade.gated

/-- **The deciding sets correspond.** -/
theorem deciding_corresponds :
    Corresponds (deciding zones t proto now true (convertAll inv legacy newID))
      (legacyDeciding zones t proto now legacy) := by
  unfold deciding legacyDeciding
  rw [(standing_corresponds hT hcons hserves).1.isEmpty]
  split
  · exact (standing_corresponds hT hcons hserves).2
  · exact (standing_corresponds hT hcons hserves).1

end

end Correspond

/-! ## The terms -/

section Terms

variable {set : List Decider} {ps : List LegacyPolicy}

/-- The strictest grant terms are at least as strict as each policy's. -/
theorem Corresponds.strictest_le (h : Corresponds set ps) (hp : p ∈ ps) :
    strictest set ≤ p.terms := by
  obtain ⟨c, hc, hmade⟩ := h.makes p hp
  exact hmade.terms ▸ Zanskar.strictest_le hc

/-- The shortest idle timeout is the same on both sides. -/
theorem Corresponds.idle (h : Corresponds set ps) {best : LegacyPolicy} (hbest : best ∈ ps)
    (hmin : ∀ p ∈ ps, best.idleTimeoutMinutes ≤ p.idleTimeoutMinutes) :
    (strictest set).idle = (best.idleTimeoutMinutes : Int) := by
  refine le_antisymm (h.strictest_le hbest).idle (le_strictest_idle fun c hc => ?_)
  obtain ⟨p, hp, hmade⟩ := h.made c hc
  rw [hmade.idle]
  exact hmin p hp

/-- A maximum on the legacy side, read as the decision writes it. -/
theorem LegacyPolicy.terms_maxSession (p : LegacyPolicy) :
    p.terms.maxSession.untopD 0 = match p.maxSessionMinutes with
      | none => 0
      | some max => minutes max := by
  unfold LegacyPolicy.terms Grant.terms LegacyPolicy.conditions
  cases p.maxSessionMinutes <;> rfl

/-- The legacy retention is kept by one of the policies. -/
theorem LegacyGrantSet.Summary.retention_le {g : LegacyGrantSet} (hsum : g.Summary ps)
    (h : Corresponds set ps) : g.retention ≤ (strictest set).retention := by
  rcases hsum.retention with h0 | ⟨p, hp, hdays⟩
  · omega
  · have hle := (h.strictest_le hp).retention
    have hret : p.terms.retention = g.retention.toNat := by
      unfold LegacyPolicy.terms Grant.terms LegacyPolicy.conditions
      rw [hdays]
      rfl
    omega

/-- Several policies: each term of the grants is at least as strict. -/
theorem Corresponds.noLooserThan (h : Corresponds set ps) (hne : ps ≠ [])
    (hmax : ∀ p ∈ ps, ∀ max, p.maxSessionMinutes = some max → minutes max ≠ 0)
    (r : Bool) (reason : String) :
    (settle set r).NoLooserThan ((LegacyGrantSet.of ps).decision r reason) := by
  have hsum := LegacyGrantSet.of_summary ps
  have hset : set ≠ [] := by
    have hemp := h.isEmpty
    rw [Bool.eq_iff_iff, List.isEmpty_iff, List.isEmpty_iff] at hemp
    exact fun h0 => hne (hemp.mp h0)
  cases hbest : (LegacyGrantSet.of ps).best with
  | none => exact absurd (hsum.none hbest) hne
  | some best =>
    have hmem := hsum.mem best hbest
    have hle := h.strictest_le hmem
    obtain ⟨idle, hidle, hfield⟩ := settle_idleTimeout set r hset
    rw [h.idle hmem (hsum.shortest best hbest), WithTop.coe_inj] at hidle
    unfold LegacyGrantSet.decision
    rw [hbest]
    have hterms := settle_carries set r
    refine ⟨?_, ?_, hterms.clipboard ▸ hle.clipboard, hterms.fileTransfer ▸ hle.fileTransfer,
      hterms.mfa ▸ hle.mfa, hterms.retention ▸ hsum.retention_le h⟩
    · rw [hfield, ← hidle]
    · show NoLonger _ (match best.maxSessionMinutes with
        | none => 0
        | some max => minutes max)
      rw [hterms.maxSession, ← best.terms_maxSession]
      refine noLonger_of_le hle.maxSession fun c hc max hc' => ?_
      obtain ⟨p, hp, hmade⟩ := h.made c hc
      exact hmax p hp max (hmade.maxSession ▸ hc')

theorem Corresponds.sameTerms (h : Corresponds set [p]) (r : Bool) (reason : String) (kind : Kind) :
    (settle set r).SameTerms ((LegacyGrantSet.of [p]).decision r reason) kind := by
  obtain ⟨c, hc, -⟩ := h.makes p mem_cons_self
  have hset := ne_nil_of_mem hc
  have hall : strictest set = p.terms := by
    refine strictest_eq_of_forall hset fun c hc => ?_
    obtain ⟨q, hq, hmade⟩ := h.made c hc
    rw [hmade.terms, mem_singleton.mp hq]
  obtain ⟨idle, hidle, hfield⟩ := settle_idleTimeout set r hset
  rw [hall] at hidle
  have hidle' : p.idleTimeoutMinutes = idle := WithTop.coe_inj.mp hidle
  have hterms : (settle set r).Carries p.terms := hall ▸ settle_carries set r
  refine ⟨?_, hterms.maxSession.trans p.terms_maxSession, hterms.clipboard,
    fun _ => hterms.fileTransfer, hterms.mfa, ?_⟩
  · rw [hfield, ← hidle']
    rfl
  · rw [hterms.retention]
    show ((p.retentionDays.getD 0).toNat : Int) = match p.retentionDays with
      | none => 0
      | some days => if days > 0 then days else 0
    cases p.retentionDays with
    | none => rfl
    | some days =>
      simp only [Option.getD_some]
      split <;> omega

end Terms

/-! ## Agreement -/

section Agree

variable {zones : Zones} {inv : LegacyInventory}
  {legacy : List LegacyPolicy} {newID : Nat → String} {t : TargetRef} {proto : Protocol}
  {now : Int}

theorem evaluate_unserved {policies : List Policy} {windows : Bool}
    (h : kindServes t.kind proto = false) :
    (evaluate zones policies t proto now windows).allowed = false := by
  rw [Bool.eq_false_iff, Ne, evaluate_allowed_iff, not_not]
  refine eq_nil_iff_forall_not_mem.mpr fun c hc => ?_
  obtain ⟨-, -, -, hadm⟩ := mem_candidates.mp hc
  rw [Grant.admits, Bool.and_eq_true] at hadm
  have hserves := (Grant.kindServes_of_covers hadm.1).2
  cases h.symm.trans hserves

/-- **Agreement**, where `canonical` tells the policies' tag maps apart and no
maximum comes to zero. -/
theorem agrees (hT : ∀ p ∈ legacy, p.TagsApart)
    (hmax : ∀ p ∈ legacy, ∀ max, p.maxSessionMinutes = some max → minutes max ≠ 0)
    (hcons : inv.Consistent t) : Agrees zones inv legacy newID t proto now := by
  cases hserves : kindServes t.kind proto with
  | false =>
    have hno : kindServes t.kind proto ≠ true := by simp [hserves]
    exact ⟨fun h => absurd h hno, fun h => absurd h hno, fun h => absurd h hno,
      fun h => absurd h hno, fun _ => evaluate_unserved hserves⟩
  | true =>
    -- the deciding grants are those made from the deciding legacy policies
    have hcorr : Corresponds (deciding zones t proto now true (convertAll inv legacy newID))
        (legacyDeciding zones t proto now legacy) :=
      deciding_corresponds hT hcons hserves
    have hstand : (standing zones t proto now true (convertAll inv legacy newID)).isEmpty =
        (legacyStanding zones t proto now legacy).isEmpty :=
      (standing_corresponds hT hcons hserves).1.isEmpty
    obtain ⟨reason, hold⟩ := legacyEvaluate_eq zones t proto now legacy
    have hnew := evaluate_eq zones t proto now true (convertAll inv legacy newID)
    rw [hcorr.isEmpty, hstand] at hnew
    have hun : kindServes t.kind proto = false →
        (evaluateNow zones (convertAll inv legacy newID) t proto now).allowed = false :=
      fun h => absurd (hserves.symm.trans h) (by simp)
    by_cases hnil : legacyDeciding zones t proto now legacy = []
    · -- nothing admits on either side
      have hadm := legacyDeciding_eq_nil_iff.mp hnil
      rw [hnil, List.isEmpty_nil, if_pos rfl] at hnew
      rw [hnil] at hold
      refine ⟨fun _ => ?_, fun _ => ?_, fun _ h => ?_, fun _ h => ?_, hun⟩
      · rw [evaluateNow, hnew, hold]
        rfl
      · rw [evaluateNow, hnew, hold]
        rfl
      · simp [hadm] at h
      · simp [hadm] at h
    · rw [if_neg (by rwa [List.isEmpty_iff])] at hnew
      have hsum := LegacyGrantSet.of_summary (legacyDeciding zones t proto now legacy)
      have hall : (legacyEvaluate zones legacy t proto now).allowed ∧
          (legacyEvaluate zones legacy t proto now).requireApproval =
            (legacyStanding zones t proto now legacy).isEmpty := by
        rw [hold, LegacyGrantSet.decision]
        cases hbest : (LegacyGrantSet.of (legacyDeciding zones t proto now legacy)).best with
        | none => exact absurd (hsum.none hbest) hnil
        | some best => exact ⟨rfl, rfl⟩
      refine ⟨fun _ => ?_, fun _ => ?_, fun _ h => ?_, fun _ _ => ?_, hun⟩
      · rw [evaluateNow, hnew, settle_allowed, hall.1]
      · rw [evaluateNow, hnew, settle_requireApproval, hall.2]
      · -- one policy admits: every deciding grant carries its terms
        obtain ⟨p, hp⟩ := List.length_eq_one_iff.mp h
        rw [legacyDeciding_of_admitting hp] at hcorr hold
        rw [evaluateNow, hnew, hold]
        exact hcorr.sameTerms _ _ _
      · rw [evaluateNow, hnew, hold]
        refine hcorr.noLooserThan hnil (fun p hp => ?_) _ _
        exact hmax p (mem_legacyAdmitting.mp (mem_legacyAdmitting_of_deciding hp)).1

end Agree

/-! ## Selectors that are merged and are not the same -/

/-- One policy with two rules by tags: ssh on the first, rdp on the second. -/
def twoRules (first second : TagMap) : LegacyPolicy where
  id := "p"
  name := "p"
  enabled := true
  groupID := ""
  userID := "u"
  selector := ⟨[], [], ∅⟩
  protocols := []
  rules := [⟨⟨[], [], first⟩, [.ssh]⟩, ⟨⟨[], [], second⟩, [.rdp]⟩]
  timeWindows := []
  maxSessionMinutes := none
  idleTimeoutMinutes := 15
  retentionDays := none
  allowClipboard := false
  allowFileTransfer := false
  requireMFA := false
  requireApproval := false

theorem twoRules_pairs (first second : TagMap) : (twoRules first second).pairs =
    [⟨⟨[], [], first⟩, [.ssh]⟩, ⟨⟨[], [], second⟩, [.rdp]⟩] := rfl

theorem twoRules_validTerms (first second : TagMap) : (twoRules first second).ValidTerms :=
  ⟨show (1 : Int) ≤ 15 by decide, fun max hmax => by cases hmax⟩

theorem twoRules_tagsIn {T : Set TagMap} {first second : TagMap} (hfirst : first ∈ T)
    (hsecond : second ∈ T) : (twoRules first second).TagsIn T := by
  rw [LegacyPolicy.TagsIn, twoRules_pairs]
  exact forall_mem_cons.mpr ⟨fun _ => hfirst, forall_mem_singleton.mpr fun _ => hsecond⟩

/-- An inventory of one live host. -/
def oneHost : LegacyInventory := readInventory [("h", "", "")] []

/-- The host, with its tags. -/
def hostRef (tags : TagMap) : TargetRef := ⟨.host, "h", "", tags⟩

theorem oneHost_consistent (tags : TagMap) : oneHost.Consistent (hostRef tags) :=
  .target rfl rfl

section Collide

variable {first second : TagMap}

/-- Two maps written alike are merged: the second rule's protocols go to the
first rule's tags. -/
theorem twoRules_gather (hne : first ≠ ∅) (hne' : second ≠ ∅)
    (hcanon : canonical first = canonical second) :
    ((twoRules first second).gather oneHost).tags (tagKey .host first) =
      some ⟨.host, singleValues first, [.ssh, .rdp]⟩ := by
  have hkey : ∀ kind, tagKey kind second = tagKey kind first := fun kind => by
    rw [tagKey, tagKey, hcanon]
  have hsep : tagKey .host first ≠ tagKey .autoscaling first := fun h =>
    Kind.noConfusion (tagKey_inj (by decide) (by decide) h).1
  have hemp : first.isEmpty = false := by simpa using hne
  have hemp' : second.isEmpty = false := by simpa using hne'
  simp [LegacyPolicy.gather, twoRules_pairs, ConvertState.addPair, ConvertState.addTagged, kinds,
    servable, union, kindProtocols, hkey, hsep, hsep.symm, hemp, hemp']

/-- Before, rdp was open only on the second rule's tags. -/
theorem twoRules_not_covers (h : ¬Carries second first) :
    (twoRules first second).covers (hostRef first) .rdp = false := by
  rw [Bool.eq_false_iff, Ne, LegacyPolicy.covers_iff]
  rintro ⟨pr, hpr, hmatch, hp⟩
  rw [twoRules_pairs] at hpr
  rcases mem_cons.mp hpr with rfl | hpr
  · simp at hp
  · rw [mem_singleton.mp hpr, LegacySelector.matches_iff] at hmatch
    rcases hmatch with ⟨-, hm⟩ | ⟨-, hm⟩ | ⟨-, hm⟩
    · simp at hm
    · simp at hm
    · exact h hm

/-- Two maps written alike, the second not among the first's tags: the converted
policy opens rdp where the legacy one did not. -/
theorem twoRules_not_agrees (hne : first ≠ ∅) (hne' : second ≠ ∅)
    (hcanon : canonical first = canonical second) (hcarry : ¬Carries second first)
    (zones : Zones) (newID : Nat → String) (now : Int) :
    ¬Agrees zones oneHost [twoRules first second] newID (hostRef first) .rdp now := by
  intro h
  have hinv := (twoRules first second).gather_inv (T := Set.univ) oneHost
    fun _ _ _ => Set.mem_univ _
  have hcov : Covered (hostRef first) .rdp
      (convert (twoRules first second) oneHost newID).grants := by
    refine (covered_grants hinv).mpr (.inr ⟨_, _,
      twoRules_gather hne hne' hcanon, rfl, rfl, by simp, ?_⟩)
    rw [singleValues_matches]
    exact ⟨hne, fun _ _ hv => hv⟩
  have hnew : (evaluateNow zones (convertAll oneHost [twoRules first second] newID)
      (hostRef first) .rdp now).allowed := by
    obtain ⟨g, hg, hgcov⟩ := hcov
    have hmade : g.MadeFrom (twoRules first second) := conditions_of_mem_convert hg
    refine evaluate_allowed_iff.mpr (ne_nil_of_mem (a := ⟨_, g⟩)
      (mem_candidates.mpr ⟨mem_cons_self, rfl, hg, ?_⟩))
    rw [Grant.admits, Bool.and_eq_true, hmade.windowOpen]
    exact ⟨hgcov, rfl⟩
  have hold : (legacyEvaluate zones [twoRules first second] (hostRef first) .rdp
      now).allowed = false := by
    have hadm : legacyAdmitting zones (hostRef first) .rdp now
        [twoRules first second] = [] := by
      simp [legacyAdmitting, LegacyPolicy.admits, twoRules_not_covers hcarry]
    obtain ⟨reason, heq⟩ := legacyEvaluate_eq zones (hostRef first) .rdp now [twoRules first second]
    rw [heq, legacyDeciding_eq_nil_iff.mpr hadm]
    rfl
  have := h.allowed rfl
  rw [hnew, hold] at this
  cases this

theorem Carries.antisymm (h : Carries first second) (h' : Carries second first) :
    first = second := by
  refine Std.ExtTreeMap.ext_getElem? fun k => ?_
  cases hf : first[k]? with
  | some v => exact (h k v hf).symm
  | none =>
    cases hs : second[k]? with
    | none => rfl
    | some v =>
      rw [h' k v hs] at hf
      cases hf

end Collide

/-! ## A maximum that wraps -/

/-- A policy on the one host, with its idle timeout and maximum. -/
def hostPolicy (id : String) (idle max : Int) : LegacyPolicy where
  id := id
  name := id
  enabled := true
  groupID := ""
  userID := "u"
  selector := ⟨["h"], [], ∅⟩
  protocols := [.ssh]
  rules := []
  timeWindows := []
  maxSessionMinutes := some max
  idleTimeoutMinutes := idle
  retentionDays := none
  allowClipboard := false
  allowFileTransfer := false
  requireMFA := false
  requireApproval := false

/-- A maximum of one minute on the policy with the shorter idle timeout, and one
of `2 ^ 53` minutes on the other. -/
def wrapping : List LegacyPolicy := [hostPolicy "a" 1 1, hostPolicy "b" 2 (2 ^ 53)]

theorem hostPolicy_tagsIn (id : String) (idle max : Int) : (hostPolicy id idle max).TagsIn ∅ :=
  forall_mem_singleton.mpr fun hne => absurd rfl hne

theorem wrapping_validTerms : ∀ p ∈ wrapping, p.ValidTerms := by
  refine forall_mem_cons.mpr ⟨⟨by decide, fun max hmax => ?_⟩,
    forall_mem_singleton.mpr ⟨by decide, fun max hmax => ?_⟩⟩ <;>
  · cases hmax
    decide

theorem wrapping_tagsIn : ∀ p ∈ wrapping, p.TagsIn ∅ :=
  forall_mem_cons.mpr ⟨hostPolicy_tagsIn _ _ _, forall_mem_singleton.mpr (hostPolicy_tagsIn _ _ _)⟩

theorem wrapping_max : ∀ p ∈ wrapping, ∀ max, p.maxSessionMinutes = some max → max ≤ 2 ^ 53 := by
  refine forall_mem_cons.mpr ⟨fun max hmax => ?_, forall_mem_singleton.mpr fun max hmax => ?_⟩
  · cases hmax
    decide
  · exact (Option.some.inj hmax).ge

/-- The second maximum comes to the duration zero: the merge takes it for the
shortest, and the decision has no maximum where the legacy one had a minute. -/
theorem wrapping_not_agrees (zones : Zones) :
    ¬Agrees zones oneHost wrapping (fun _ => "") (hostRef ∅) .ssh 0 := by
  intro h
  have hle := (h.several rfl (Nat.le_refl 2)).maxSession
  have hnew : (evaluateNow zones (convertAll oneHost wrapping fun _ => "") (hostRef ∅) .ssh
      0).maxSession = 0 := by rfl
  have hold : (legacyEvaluate zones wrapping (hostRef ∅) .ssh 0).maxSession = minute := by rfl
  rw [hnew, hold] at hle
  rcases hle with h0 | ⟨h0, -⟩
  · exact absurd h0 (by decide)
  · exact h0 rfl

/-! ## Exactly when the conversion keeps access -/

/-- **The conversion keeps access exactly when the key tells tag maps apart and
no maximum wraps to zero.** Let each policy take its selectors' tags from one of
the sets in `families`, and let maxima go up to `longest`. The converted policies
agree with the legacy ones, for every inventory, policies with valid terms, ref
the inventory knows, protocol and instant, if and only if `canonical` writes no
two maps of one set alike and `longest` is below `2 ^ 53` minutes. -/
theorem convert_agrees_iff (families : Set (Set TagMap)) (longest : Int) :
    (∀ (zones : Zones) (inv : LegacyInventory) (legacy : List LegacyPolicy)
        (newID : Nat → String) (t : TargetRef) (proto : Protocol) (now : Int),
      (∀ p ∈ legacy, p.ValidTerms) →
      (∀ p ∈ legacy, p.TagsIn ∅ ∨ ∃ T ∈ families, p.TagsIn T) →
      (∀ p ∈ legacy, ∀ max, p.maxSessionMinutes = some max → max ≤ longest) →
      inv.Consistent t → Agrees zones inv legacy newID t proto now) ↔
    (∀ T ∈ families, Set.InjOn canonical T) ∧ longest < 2 ^ 53 := by
  constructor
  · intro h
    have hzones : Zones := ⟨fun _ => none⟩
    refine ⟨fun T hT first hfirst second hsecond hcanon => ?_, ?_⟩
    · -- a pair written alike, taken in the order in which the second is not
      -- among the first's tags, is a failing input
      have hfail : ∀ m ∈ T, ∀ m' ∈ T, canonical m = canonical m' → m ≠ ∅ → m' ≠ ∅ →
          Carries m' m := by
        intro m hm m' hm' hc hne hne'
        by_contra hcarry
        refine twoRules_not_agrees hne hne' hc hcarry hzones (fun _ => "") 0
          (h hzones oneHost _ _ _ _ 0 ?_ ?_ ?_ (oneHost_consistent m))
        · exact forall_mem_singleton.mpr (twoRules_validTerms m m')
        · exact forall_mem_singleton.mpr (.inr ⟨T, hT, twoRules_tagsIn hm hm'⟩)
        · exact forall_mem_singleton.mpr fun max hmax => nomatch hmax
      by_cases hne : first = ∅
      · have hnil : canonical second = "" := by rw [← hcanon, hne]; rfl
        rw [hne, canonical_eq_empty_iff.mp hnil]
      · have hne' : second ≠ ∅ := by
          rintro rfl
          exact hne (canonical_eq_empty_iff.mp hcanon)
        exact (hfail second hsecond first hfirst hcanon.symm hne' hne).antisymm
          (hfail first hfirst second hsecond hcanon hne hne')
    · -- a bound that allows the wrapping maximum allows the failing policies
      by_contra hlong
      refine wrapping_not_agrees hzones (h hzones oneHost wrapping _ _ _ 0 wrapping_validTerms
        (fun p hp => .inl (wrapping_tagsIn p hp)) (fun p hp max hmax => ?_)
        (oneHost_consistent ∅))
      have hle := wrapping_max p hp max hmax
      omega
  · rintro ⟨hinj, hlong⟩ zones inv legacy newID t proto now hvalid hT hmax hcons
    refine agrees (fun p hp => ?_) (fun p hp max hset => ?_) hcons
    · rcases hT p hp with hnone | ⟨T, hTf, hTp⟩
      · exact ⟨∅, Set.injOn_empty canonical, hnone⟩
      · exact ⟨T, hinj T hTf, hTp⟩
    · have hlo := (hvalid p hp).maxSession max hset
      have hhi := hmax p hp max hset
      exact minutes_ne_zero hlo (by omega)

/-- Two rules, ssh on a = b and c = d, rdp on a = "b NUL c NUL d": they are
written alike, and the converted policy opens rdp on a host tagged a = b and
c = d. -/
theorem convert_merges_different_tags :
    (twoRules (Std.ExtTreeMap.ofList [("a", "b"), ("c", "d")])
        (Std.ExtTreeMap.ofList [("a", "b\x00c\x00d")])).ValidTerms ∧
      oneHost.Consistent (hostRef (Std.ExtTreeMap.ofList [("a", "b"), ("c", "d")])) ∧
      ¬Agrees ⟨fun _ => none⟩ oneHost
        [twoRules (Std.ExtTreeMap.ofList [("a", "b"), ("c", "d")])
          (Std.ExtTreeMap.ofList [("a", "b\x00c\x00d")])]
        (fun _ => "g") (hostRef (Std.ExtTreeMap.ofList [("a", "b"), ("c", "d")])) .rdp 0 := by
  refine ⟨twoRules_validTerms _ _, oneHost_consistent _,
    twoRules_not_agrees (by decide) (by decide) (by decide) (fun h => ?_) _ _ _⟩
  exact absurd (h "a" "b\x00c\x00d" (by decide)) (by decide)

end Zanskar
