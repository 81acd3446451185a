import Zanskar.Lib.Fold
import Zanskar.Policy.Overlap

/-!
# The policy model before ADR 0036 (`internal/policy/legacy.go`)

The frozen model the data step converts from: one subject, a selector with its
protocols, extra rules, and one set of conditions. Standing policies decide when
any applies, approval-gated ones otherwise, and of those the one with the
shortest idle timeout sets every term but retention, which is the longest.

As for the new evaluator, the loop is the source's, and what it computes is said
once without accumulators (`legacyEvaluate_eq`).
-/

namespace Zanskar

open Go List

/-- A target matched when its id was listed, its group's id was listed, or every
tag was present on it with the same value. -/
structure LegacySelector where
  targets : List String
  asgs : List String
  tags : TagMap

/-- `empty`. -/
def LegacySelector.empty (s : LegacySelector) : Bool :=
  s.targets.isEmpty && s.asgs.isEmpty && s.tags.isEmpty

/-- `matches`. -/
def LegacySelector.matches (s : LegacySelector) (t : TargetRef) : Bool :=
  if t.id ≠ "" ∧ s.targets.contains t.id then true
  else if t.asgID ≠ "" ∧ s.asgs.contains t.asgID then true
  else if s.tags.isEmpty then false
  else s.tags.toList.all fun kv => t.tags[kv.1]? = some kv.2

structure LegacyRule where
  selector : LegacySelector
  protocols : List Protocol

/-- One stored row before ADR 0036. -/
structure LegacyPolicy where
  id : String
  name : String
  enabled : Bool
  groupID : String
  userID : String
  selector : LegacySelector
  protocols : List Protocol
  rules : List LegacyRule
  timeWindows : List TimeWindow
  maxSessionMinutes : Option Int
  idleTimeoutMinutes : Int
  retentionDays : Option Int
  allowClipboard : Bool
  allowFileTransfer : Bool
  requireMFA : Bool
  requireApproval : Bool

/-- `covers`. -/
def LegacyPolicy.covers (p : LegacyPolicy) (t : TargetRef) (proto : Protocol) : Bool :=
  (p.selector.matches t && p.protocols.contains proto) ||
    p.rules.any fun r => r.selector.matches t && r.protocols.contains proto

/-- `matchesAnyRule`. -/
def LegacyPolicy.matchesAnyRule (p : LegacyPolicy) (t : TargetRef) : Bool :=
  p.rules.any fun r => r.selector.matches t

structure LegacyDecision where
  allowed : Bool := false
  reason : String := ""
  policy : Option LegacyPolicy := none
  idleTimeout : Int := 0
  maxSession : Int := 0
  retentionDays : Int := 0
  allowClipboard : Bool := false
  allowFileTransfer : Bool := false
  requireMFA : Bool := false
  requireApproval : Bool := false

/-- The policies that apply, as far as the decision needs them. -/
structure LegacyGrantSet where
  best : Option LegacyPolicy := none
  retention : Int := 0

/-- `add`. -/
def LegacyGrantSet.add (g : LegacyGrantSet) (p : LegacyPolicy) : LegacyGrantSet where
  best := match g.best with
    | none => some p
    | some b => if p.idleTimeoutMinutes < b.idleTimeoutMinutes then some p else some b
  retention := match p.retentionDays with
    | none => g.retention
    | some days => if days > g.retention then days else g.retention

/-- What the loop of `legacyEvaluate` has gathered. -/
structure LegacyCandidates where
  reason : String := "no policy grants access to this target"
  standing : LegacyGrantSet := {}
  gated : LegacyGrantSet := {}

section Loop

variable (zones : Zones) (t : TargetRef) (proto : Protocol) (now : Int)

/-- The body of the loop. -/
def LegacyCandidates.offer (c : LegacyCandidates) (p : LegacyPolicy) : LegacyCandidates :=
  if p.enabled = false then c
  else if p.covers t proto = false then
    if p.selector.matches t || p.matchesAnyRule t then
      { c with reason := "protocol not allowed by policy" }
    else c
  else if !p.timeWindows.isEmpty && !anyOpen zones p.timeWindows now then
    { c with reason := "outside the policy's access window" }
  else if p.requireApproval then { c with gated := c.gated.add p }
  else { c with standing := c.standing.add p }

/-- The policies that apply: on, covering, with a window open or none. -/
def LegacyPolicy.admits (p : LegacyPolicy) : Bool :=
  p.enabled && p.covers t proto &&
    (p.timeWindows.isEmpty || anyOpen zones p.timeWindows now)

end Loop

/-- What is written from the deciding set. -/
def LegacyGrantSet.decision (set : LegacyGrantSet) (requireApproval : Bool)
    (reason : String) : LegacyDecision :=
  match set.best with
  | none => { reason := reason }
  | some best =>
    { allowed := true
      policy := some best
      idleTimeout := minutes best.idleTimeoutMinutes
      allowClipboard := best.allowClipboard
      allowFileTransfer := best.allowFileTransfer
      requireMFA := best.requireMFA
      requireApproval := requireApproval
      retentionDays := set.retention
      maxSession := match best.maxSessionMinutes with
        | none => 0
        | some max => minutes max }

/-- `legacyEvaluate`. -/
def legacyEvaluate (zones : Zones) (policies : List LegacyPolicy) (t : TargetRef)
    (proto : Protocol) (now : Int) : LegacyDecision :=
  let c : LegacyCandidates := policies.foldl (fun c p => c.offer zones t proto now p) {}
  if c.standing.best.isNone then c.gated.decision true c.reason
  else c.standing.decision false c.reason

/-! ## What the loop computes -/

section Spec

variable (zones : Zones) (t : TargetRef) (proto : Protocol) (now : Int)

/-- The policies that apply, in order. -/
def legacyAdmitting (policies : List LegacyPolicy) : List LegacyPolicy :=
  policies.filter fun p => p.admits zones t proto now

/-- The standing ones. -/
def legacyStanding (policies : List LegacyPolicy) : List LegacyPolicy :=
  (legacyAdmitting zones t proto now policies).filter fun p => !p.requireApproval

/-- The approval-gated ones. -/
def legacyGated (policies : List LegacyPolicy) : List LegacyPolicy :=
  (legacyAdmitting zones t proto now policies).filter fun p => p.requireApproval

/-- The policies that decide: the standing ones, else the gated ones. -/
def legacyDeciding (policies : List LegacyPolicy) : List LegacyPolicy :=
  if (legacyStanding zones t proto now policies).isEmpty then
    legacyGated zones t proto now policies
  else legacyStanding zones t proto now policies

/-- A set with these policies in it. -/
def LegacyGrantSet.of (ps : List LegacyPolicy) : LegacyGrantSet :=
  ps.foldl LegacyGrantSet.add {}

/-- One policy either joins its set or leaves both as they are. -/
theorem LegacyCandidates.offer_eq (c : LegacyCandidates) (p : LegacyPolicy) :
    ∃ reason, c.offer zones t proto now p =
      ⟨reason,
        if p.admits zones t proto now && !p.requireApproval then c.standing.add p
          else c.standing,
        if p.admits zones t proto now && p.requireApproval then c.gated.add p
          else c.gated⟩ := by
  unfold LegacyCandidates.offer LegacyPolicy.admits
  cases p.enabled with
  | false => exact ⟨c.reason, by simp⟩
  | true =>
    cases p.covers t proto with
    | false =>
      by_cases hs : (p.selector.matches t || p.matchesAnyRule t)
      · exact ⟨_, by simp [hs]; rfl⟩
      · exact ⟨c.reason, by simp [hs]⟩
    | true =>
      cases hw : p.timeWindows.isEmpty || anyOpen zones p.timeWindows now with
      | false =>
        have hshut : (!p.timeWindows.isEmpty && !anyOpen zones p.timeWindows now) := by
          rw [← Bool.not_or, hw, Bool.not_false]
        exact ⟨_, by simp [hshut]; rfl⟩
      | true =>
        have hopen : (!p.timeWindows.isEmpty && !anyOpen zones p.timeWindows now) = false := by
          rw [← Bool.not_or, hw, Bool.not_true]
        refine ⟨c.reason, ?_⟩
        cases p.requireApproval <;> simp [hopen]

theorem LegacyCandidates.foldl_offer (policies : List LegacyPolicy) (c : LegacyCandidates) :
    (policies.foldl (fun c p => c.offer zones t proto now p) c).standing =
        (legacyStanding zones t proto now policies).foldl LegacyGrantSet.add c.standing ∧
      (policies.foldl (fun c p => c.offer zones t proto now p) c).gated =
        (legacyGated zones t proto now policies).foldl LegacyGrantSet.add c.gated := by
  induction policies generalizing c with
  | nil => exact ⟨rfl, rfl⟩
  | cons p ps ih =>
    obtain ⟨reason, hoffer⟩ := c.offer_eq zones t proto now p
    obtain ⟨hs, hg⟩ := ih (c.offer zones t proto now p)
    rw [foldl_cons, hs, hg, hoffer]
    unfold legacyStanding legacyGated legacyAdmitting
    cases hadm : p.admits zones t proto now <;> cases hreq : p.requireApproval <;> simp [hadm, hreq]

end Spec

namespace LegacyGrantSet

/-- What a set keeps of the policies in it: the one with the shortest idle
timeout, and the longest retention. -/
structure Summary (set : LegacyGrantSet) (ps : List LegacyPolicy) :
    Prop where
  none : set.best = none → ps = []
  mem : ∀ b, set.best = some b → b ∈ ps
  shortest : ∀ b, set.best = some b → ∀ p ∈ ps, b.idleTimeoutMinutes ≤ p.idleTimeoutMinutes
  retention : set.retention = 0 ∨ ∃ p ∈ ps, p.retentionDays = some set.retention

variable {set : LegacyGrantSet} {ps : List LegacyPolicy}

/-- The policy kept is the one with the shortest idle timeout, the earliest where
they are alike. -/
theorem of_best : (of ps).best = ps.argmin LegacyPolicy.idleTimeoutMinutes := by
  refine (foldl_hom best fun g p => ?_).symm
  obtain ⟨best, retention⟩ := g
  cases best <;> rfl

theorem of_retention : (of ps).retention = 0 ∨
    ∃ p ∈ ps, p.retentionDays = some (of ps).retention := by
  refine Lib.foldl_keeps (fun set : LegacyGrantSet =>
    set.retention = 0 ∨ ∃ p ∈ ps, p.retentionDays = some set.retention)
    (fun set p hp h => ?_) (.inl rfl)
  unfold add
  cases hdays : p.retentionDays with
  | none => exact h
  | some days =>
    by_cases hlt : days > set.retention
    · exact .inr ⟨p, hp, by simp [hlt, hdays]⟩
    · simpa [hlt] using h

theorem of_summary (ps : List LegacyPolicy) : (of ps).Summary ps where
  none h := argmin_eq_none.mp (of_best ▸ h)
  mem _ h := argmin_mem (of_best ▸ h)
  shortest _ h _ hp := le_of_mem_argmin hp (of_best ▸ h)
  retention := of_retention

theorem of_best_isNone (ps : List LegacyPolicy) : (of ps).best.isNone = ps.isEmpty := by
  have h := of_summary ps
  cases hb : (of ps).best with
  | none => rw [h.none hb]; rfl
  | some b =>
    have hne := ne_nil_of_mem (h.mem b hb)
    cases ps with
    | nil => exact absurd rfl hne
    | cons p ps => rfl

end LegacyGrantSet

/-- **The legacy decision** is read off the set of the deciding policies. -/
theorem legacyEvaluate_eq (zones : Zones) (t : TargetRef) (proto : Protocol) (now : Int)
    (policies : List LegacyPolicy) :
    ∃ reason, legacyEvaluate zones policies t proto now =
      (LegacyGrantSet.of (legacyDeciding zones t proto now policies)).decision
        (legacyStanding zones t proto now policies).isEmpty reason := by
  obtain ⟨hs, hg⟩ := LegacyCandidates.foldl_offer zones t proto now policies {}
  refine ⟨(policies.foldl (fun c p => LegacyCandidates.offer zones t proto now c p) {}).reason, ?_⟩
  unfold legacyEvaluate legacyDeciding
  simp only [hs, hg]
  have hnone := LegacyGrantSet.of_best_isNone (legacyStanding zones t proto now policies)
  unfold LegacyGrantSet.of at hnone ⊢
  rw [hnone]
  cases (legacyStanding zones t proto now policies).isEmpty <;> simp

end Zanskar
