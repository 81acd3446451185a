import Zanskar.Policy.Basic

/-!
# Evaluation (`internal/policy/policy.go`, `evaluate`)

`evaluate` decides access from the caller's policies, given in name order. It
collects the grants of enabled policies that cover the target and protocol and
have a window open now (or none), standing and approval apart (`collect`). If
any is standing, the standing ones decide and no approval is needed; otherwise
the approval ones decide. A second loop merges the deciding grants into the
decision's terms (`settle`).

The loops are the source's, with their accumulators. What they compute is said
once, without accumulators (`candidates`, `deciding`, `evaluate_eq`), and
everything else is derived from that.
-/

namespace Zanskar

open Go List

/-- A grant that may decide, with its policy. -/
structure Decider where
  p : Policy
  g : Grant

/-- Names one grant that decided an evaluation. -/
structure GrantRef where
  policyID : String
  policyName : String
  grantID : String
  deriving DecidableEq

/-- The outcome of an evaluation. -/
structure Decision where
  allowed : Bool := false
  /-- When denied. -/
  reason : String := ""
  /-- The policy of the deciding grant with the shortest idle timeout. -/
  policy : Option Policy := none
  grantID : String := ""
  /-- Every grant that decided. -/
  grants : List GrantRef := []
  idleTimeout : Int := 0
  /-- Zero is no maximum. -/
  maxSession : Int := 0
  /-- Zero leaves the global retention policy in charge. -/
  retentionDays : Int := 0
  allowClipboard : Bool := false
  allowFileTransfer : Bool := false
  allowDevTools : Bool := false
  requireMFA : Bool := false
  requireApproval : Bool := false
  signInTarget : Bool := false
  signInOwn : Bool := false

/-! ## The first loop: who may decide -/

/-- What the first loop has gathered: why access would be denied, and the
grants that may decide. -/
structure Candidates where
  reason : String
  standing : List Decider
  approval : List Decider

section Loops

variable (zones : Zones) (t : TargetRef) (proto : Protocol) (now : Int) (windows : Bool)

/-- The body of the first loop, on grant `g` of the enabled policy `p`. -/
def Candidates.offer (c : Candidates) (p : Policy) (g : Grant) : Candidates :=
  if g.covers t proto = false then
    if g.selects t then { c with reason := "protocol not allowed by policy" } else c
  else if windows && !g.timeWindows.isEmpty && !anyOpen zones g.timeWindows now then
    { c with reason := "outside the policy's access window" }
  else if g.access = .approval then
    { c with approval := c.approval ++ [⟨p, g⟩] }
  else
    { c with standing := c.standing ++ [⟨p, g⟩] }

/-- One policy of the first loop: its grants in order, none when it is off. -/
def Candidates.offerAll (c : Candidates) (p : Policy) : Candidates :=
  if p.enabled = false then c
  else p.grants.foldl (fun c g => c.offer zones t proto now windows p g) c

/-- The first loop. -/
def collect (policies : List Policy) : Candidates :=
  policies.foldl (fun c p => c.offerAll zones t proto now windows p)
    ⟨"no policy grants access to this target", [], []⟩

end Loops

/-! ## The second loop: the terms -/

/-- What the second loop has merged. -/
structure Merge where
  d : Decision
  best : Option Decider
  maxSet : Bool

/-- `best == nil || g.IdleTimeoutMinutes < best.g.IdleTimeoutMinutes`. -/
def Merge.better (m : Merge) (c : Decider) : Bool :=
  match m.best with
  | none => true
  | some b => c.g.idleTimeoutMinutes < b.g.idleTimeoutMinutes

/-- The maximum after one more grant, and whether one is set. -/
def Merge.bound (m : Merge) (g : Grant) : Int × Bool :=
  match g.maxSessionMinutes with
  | none => (m.d.maxSession, m.maxSet)
  | some max =>
    if !m.maxSet || minutes max < m.d.maxSession then (minutes max, true)
    else (m.d.maxSession, m.maxSet)

/-- The retention after one more grant. -/
def Merge.retain (m : Merge) (g : Grant) : Int :=
  match g.retentionDays with
  | none => m.d.retentionDays
  | some days => if days > m.d.retentionDays then days else m.d.retentionDays

/-- The body of the second loop. -/
def Merge.add (m : Merge) (c : Decider) : Merge where
  d := { m.d with
    grants := m.d.grants ++ [⟨c.p.id, c.p.name, c.g.id⟩]
    allowClipboard := m.d.allowClipboard && c.g.allowClipboard
    allowFileTransfer := m.d.allowFileTransfer && c.g.allowFileTransfer
    allowDevTools := m.d.allowDevTools && c.g.allowDevTools
    requireMFA := m.d.requireMFA || c.g.requireMFA
    maxSession := (m.bound c.g).1
    retentionDays := m.retain c.g
    signInOwn := m.d.signInOwn || decide (c.g.signIn = .own)
    signInTarget := m.d.signInTarget || decide (c.g.signIn ≠ .own) }
  best := if m.better c then some c else m.best
  maxSet := (m.bound c.g).2

/-- The decision before the second loop. -/
def Merge.start (requireApproval : Bool) : Merge where
  d := { allowed := true, requireApproval := requireApproval,
         allowClipboard := true, allowFileTransfer := true, allowDevTools := true }
  best := none
  maxSet := false

/-- What is written from the best grant once the second loop is done. -/
def Merge.finish (m : Merge) : Decision :=
  match m.best with
  | none => m.d
  | some b =>
    { m.d with policy := some b.p, grantID := b.g.id,
               idleTimeout := minutes b.g.idleTimeoutMinutes }

/-- The second loop over the deciding grants. -/
def settle (set : List Decider) (requireApproval : Bool) : Decision :=
  (set.foldl Merge.add (Merge.start requireApproval)).finish

/-- `evaluate`: with `windows` false every time window counts as open. -/
def evaluate (zones : Zones) (policies : List Policy) (t : TargetRef)
    (proto : Protocol) (now : Int) (windows : Bool) : Decision :=
  let c := collect zones t proto now windows policies
  let set := if c.standing.isEmpty then c.approval else c.standing
  let requireApproval := c.standing.isEmpty
  if set.isEmpty then { reason := c.reason } else settle set requireApproval

/-- `Evaluate`: windows are honoured. -/
def evaluateNow (zones : Zones) (policies : List Policy) (t : TargetRef)
    (proto : Protocol) (now : Int) : Decision :=
  evaluate zones policies t proto now true

/-- `EvaluateLive`: for a session already running, every window counts as
open. -/
def evaluateLive (zones : Zones) (policies : List Policy) (t : TargetRef)
    (proto : Protocol) (now : Int) : Decision :=
  evaluate zones policies t proto now false

/-! ## What the loops compute -/

section Spec

variable (zones : Zones) (t : TargetRef) (proto : Protocol) (now : Int) (windows : Bool)

/-- The grant has a window open now, or none to honour. -/
def Grant.windowOpen (g : Grant) : Bool :=
  !windows || g.timeWindows.isEmpty || anyOpen zones g.timeWindows now

/-- The grant is collected: it covers the target and protocol, inside a
window. -/
def Grant.admits (g : Grant) : Bool :=
  g.covers t proto && g.windowOpen zones now windows

/-- The grants the first loop collects. -/
def candidates (policies : List Policy) : List Decider :=
  policies.flatMap fun p =>
    if p.enabled then
      (p.grants.filter fun g => g.admits zones t proto now windows).map (⟨p, ·⟩)
    else []

/-- An enabled policy of the list holds the grant. -/
def Offers (pols : List Policy) (g : Grant) : Prop :=
  ∃ p ∈ pols, p.enabled = true ∧ g ∈ p.grants

/-- The decider's grant asks for approval. -/
def Decider.gated (c : Decider) : Bool := decide (c.g.access = .approval)

/-- The standing grants among the candidates. -/
def standing (policies : List Policy) : List Decider :=
  (candidates zones t proto now windows policies).filter fun c => !c.gated

/-- The approval grants among the candidates. -/
def approval (policies : List Policy) : List Decider :=
  (candidates zones t proto now windows policies).filter fun c => c.gated

/-- The grants that decide: the standing ones, else the approval ones. -/
def deciding (policies : List Policy) : List Decider :=
  if (standing zones t proto now windows policies).isEmpty then
    approval zones t proto now windows policies
  else standing zones t proto now windows policies

end Spec

section Loops

variable (zones : Zones) (t : TargetRef) (proto : Protocol) (now : Int) (windows : Bool)

/-- The loop's condition for passing a grant over is that no window is open. -/
theorem Grant.windowOpen_eq (g : Grant) : g.windowOpen zones now windows =
    !(windows && !g.timeWindows.isEmpty && !anyOpen zones g.timeWindows now) := by
  simp [Grant.windowOpen, Bool.not_and, Bool.or_assoc]

/-- One grant either joins its list or leaves both as they are. -/
theorem Candidates.offer_eq (c : Candidates) (p : Policy) (g : Grant) :
    ∃ reason, c.offer zones t proto now windows p g =
      ⟨reason,
        c.standing ++ if g.admits zones t proto now windows && !(g.access = .approval)
          then [⟨p, g⟩] else [],
        c.approval ++ if g.admits zones t proto now windows && (g.access = .approval)
          then [⟨p, g⟩] else []⟩ := by
  unfold Candidates.offer Grant.admits
  rw [Grant.windowOpen_eq]
  cases g.covers t proto with
  | false =>
    by_cases hs : g.selects t
    · exact ⟨_, by simp [hs]; rfl⟩
    · exact ⟨c.reason, by simp [hs]⟩
  | true =>
    cases windows && !g.timeWindows.isEmpty && !anyOpen zones g.timeWindows now with
    | true => exact ⟨_, by simp; rfl⟩
    | false =>
      refine ⟨c.reason, ?_⟩
      by_cases ha : g.access = .approval <;> simp [ha]

/-- The grants of one enabled policy, gathered onto what is there. -/
theorem Candidates.foldl_offer_eq (p : Policy) (gs : List Grant) (c : Candidates) :
    ∃ reason, gs.foldl (fun c g => c.offer zones t proto now windows p g) c =
      ⟨reason,
        c.standing ++ ((gs.filter fun g => g.admits zones t proto now windows).map
          (Decider.mk p)).filter (fun c => !c.gated),
        c.approval ++ ((gs.filter fun g => g.admits zones t proto now windows).map
          (Decider.mk p)).filter (fun c => c.gated)⟩ := by
  induction gs generalizing c with
  | nil => exact ⟨c.reason, by simp⟩
  | cons g gs ih =>
    obtain ⟨r, hr⟩ := c.offer_eq zones t proto now windows p g
    obtain ⟨reason, hreason⟩ := ih (c.offer zones t proto now windows p g)
    refine ⟨reason, ?_⟩
    rw [foldl_cons, hreason, hr]
    by_cases hadm : g.admits zones t proto now windows <;>
      by_cases ha : g.access = .approval <;> simp [hadm, ha, Decider.gated]

/-- The first loop gathers exactly the candidates, standing and approval
apart. -/
theorem collect_eq (policies : List Policy) :
    (collect zones t proto now windows policies).standing =
        standing zones t proto now windows policies ∧
      (collect zones t proto now windows policies).approval =
        approval zones t proto now windows policies := by
  have key : ∀ (ps : List Policy) (c : Candidates),
      (ps.foldl (fun c p => c.offerAll zones t proto now windows p) c).standing =
          c.standing ++ standing zones t proto now windows ps ∧
        (ps.foldl (fun c p => c.offerAll zones t proto now windows p) c).approval =
          c.approval ++ approval zones t proto now windows ps := by
    intro ps
    induction ps with
    | nil => intro c; simp [standing, approval, candidates]
    | cons p ps ih =>
      intro c
      rw [foldl_cons]
      obtain ⟨hs, ha⟩ := ih (c.offerAll zones t proto now windows p)
      rw [hs, ha]
      unfold Candidates.offerAll standing approval candidates
      by_cases hp : p.enabled
      · obtain ⟨reason, hfold⟩ := Candidates.foldl_offer_eq zones t proto now windows p p.grants c
        simp [hp, hfold]
      · simp [hp]
  unfold collect
  simpa using key policies ⟨"no policy grants access to this target", [], []⟩

/-- **The decision**: a denial when nothing decides, otherwise the deciding
grants settled, with approval required exactly when no standing grant is among
the candidates. -/
theorem evaluate_eq (policies : List Policy) :
    evaluate zones policies t proto now windows =
      if (deciding zones t proto now windows policies).isEmpty then
        { reason := (collect zones t proto now windows policies).reason }
      else
        settle (deciding zones t proto now windows policies)
          (standing zones t proto now windows policies).isEmpty := by
  obtain ⟨hs, ha⟩ := collect_eq zones t proto now windows policies
  simp only [evaluate, hs, ha]
  rfl

end Loops

variable {zones : Zones} {t : TargetRef} {proto : Protocol} {now : Int} {windows : Bool}
  {c : Decider} {policies : List Policy}

theorem mem_candidates :
    c ∈ candidates zones t proto now windows policies ↔
      c.p ∈ policies ∧ c.p.enabled ∧ c.g ∈ c.p.grants ∧
        c.g.admits zones t proto now windows := by
  obtain ⟨p, g⟩ := c
  simp only [candidates, mem_flatMap]
  constructor
  · rintro ⟨q, hq, hmem⟩
    by_cases hen : q.enabled
    · rw [if_pos hen, mem_map] at hmem
      obtain ⟨g', hg', heq⟩ := hmem
      cases heq
      exact ⟨hq, hen, mem_of_mem_filter hg', of_mem_filter hg'⟩
    · rw [if_neg hen] at hmem
      cases hmem
  · rintro ⟨hp, hen, hg, hadm⟩
    refine ⟨p, hp, ?_⟩
    rw [if_pos hen]
    exact mem_map_of_mem (mem_filter.mpr ⟨hg, hadm⟩)

theorem mem_standing :
    c ∈ standing zones t proto now windows policies ↔
      c ∈ candidates zones t proto now windows policies ∧ c.g.access ≠ .approval := by
  simp [standing, Decider.gated]

theorem mem_approval :
    c ∈ approval zones t proto now windows policies ↔
      c ∈ candidates zones t proto now windows policies ∧ c.g.access = .approval := by
  simp [approval, Decider.gated]

theorem approval_eq_candidates (h : standing zones t proto now windows policies = []) :
    approval zones t proto now windows policies =
      candidates zones t proto now windows policies := by
  rw [standing, filter_eq_nil_iff] at h
  exact filter_eq_self.mpr fun c hc => by simpa using h c hc

theorem deciding_eq_nil_iff :
    deciding zones t proto now windows policies = [] ↔
      candidates zones t proto now windows policies = [] := by
  unfold deciding
  split
  · rename_i hs
    rw [approval_eq_candidates (List.isEmpty_iff.mp hs)]
  · rename_i hs
    rw [List.isEmpty_iff] at hs
    refine ⟨fun h => absurd h hs, fun h => ?_⟩
    exact absurd (by simp [standing, h]) hs

theorem mem_candidates_of_mem_deciding (h : c ∈ deciding zones t proto now windows policies) :
    c ∈ candidates zones t proto now windows policies := by
  unfold deciding at h
  split at h
  · exact (mem_approval.mp h).1
  · exact (mem_standing.mp h).1

/-! ## Fields of the decision that the loops only pass on -/

theorem Merge.foldl_add_allowed (set : List Decider) (m : Merge) :
    (set.foldl Merge.add m).d.allowed = m.d.allowed ∧
      (set.foldl Merge.add m).d.requireApproval = m.d.requireApproval := by
  induction set generalizing m with
  | nil => exact ⟨rfl, rfl⟩
  | cons c set ih => exact ih (m.add c)

@[simp] theorem settle_allowed (set : List Decider) (requireApproval : Bool) :
    (settle set requireApproval).allowed := by
  have h := (Merge.foldl_add_allowed set (Merge.start requireApproval)).1
  unfold settle Merge.finish
  split <;> exact h

@[simp] theorem settle_requireApproval (set : List Decider) (requireApproval : Bool) :
    (settle set requireApproval).requireApproval = requireApproval := by
  have h := (Merge.foldl_add_allowed set (Merge.start requireApproval)).2
  unfold settle Merge.finish
  split <;> exact h

theorem evaluate_allowed_iff :
    (evaluate zones policies t proto now windows).allowed ↔
      candidates zones t proto now windows policies ≠ [] := by
  rw [evaluate_eq]
  split
  · rename_i h
    rw [List.isEmpty_iff, deciding_eq_nil_iff] at h
    simp [h]
  · rename_i h
    rw [List.isEmpty_iff, deciding_eq_nil_iff] at h
    simp [h]

theorem evaluate_eq_settle (h : candidates zones t proto now windows policies ≠ []) :
    evaluate zones policies t proto now windows =
      settle (deciding zones t proto now windows policies)
        (standing zones t proto now windows policies).isEmpty := by
  rw [evaluate_eq, if_neg]
  rwa [List.isEmpty_iff, deciding_eq_nil_iff]

/-- When access is allowed, approval is required exactly when no standing grant
is a candidate. -/
theorem evaluate_requireApproval (h : candidates zones t proto now windows policies ≠ []) :
    (evaluate zones policies t proto now windows).requireApproval =
      (standing zones t proto now windows policies).isEmpty := by
  rw [evaluate_eq_settle h, settle_requireApproval]

/-! ## With windows and without -/

section Windows

variable {policies : List Policy} {c : Decider}

/-- A candidate with windows honoured is one without them. -/
theorem mem_candidates_live (h : c ∈ candidates zones t proto now true policies) :
    c ∈ candidates zones t proto now false policies := by
  obtain ⟨hp, hen, hg, hadm⟩ := mem_candidates.mp h
  rw [Grant.admits, Bool.and_eq_true] at hadm
  exact mem_candidates.mpr ⟨hp, hen, hg, by simp [Grant.admits, Grant.windowOpen, hadm.1]⟩

/-- A candidate without windows is one with them when its own is open. -/
theorem mem_candidates_of_open (h : c ∈ candidates zones t proto now false policies)
    (hopen : c.g.windowOpen zones now true) :
    c ∈ candidates zones t proto now true policies := by
  obtain ⟨hp, hen, hg, hadm⟩ := mem_candidates.mp h
  rw [Grant.admits, Bool.and_eq_true] at hadm
  exact mem_candidates.mpr ⟨hp, hen, hg, by simp [Grant.admits, hadm.1, hopen]⟩

/-- Standing access with windows honoured is standing access without them. -/
theorem standing_eq_nil_of_live (h : standing zones t proto now false policies = []) :
    standing zones t proto now true policies = [] := by
  refine eq_nil_iff_forall_not_mem.mpr fun c hc => ?_
  obtain ⟨hcand, hacc⟩ := mem_standing.mp hc
  exact not_mem_nil (h ▸ mem_standing.mpr ⟨mem_candidates_live hcand, hacc⟩)

/-- A grant that decides without windows decides with them when its own is
open. -/
theorem mem_deciding_of_open (h : c ∈ deciding zones t proto now false policies)
    (hopen : c.g.windowOpen zones now true) :
    c ∈ deciding zones t proto now true policies := by
  unfold deciding at h ⊢
  by_cases hs : standing zones t proto now false policies = []
  · rw [if_pos (isEmpty_iff.mpr hs)] at h
    rw [if_pos (isEmpty_iff.mpr (standing_eq_nil_of_live hs))]
    obtain ⟨hcand, hacc⟩ := mem_approval.mp h
    exact mem_approval.mpr ⟨mem_candidates_of_open hcand hopen, hacc⟩
  · rw [if_neg (fun he => hs (isEmpty_iff.mp he))] at h
    obtain ⟨hcand, hacc⟩ := mem_standing.mp h
    have hmem := mem_standing.mpr ⟨mem_candidates_of_open hcand hopen, hacc⟩
    rw [if_neg (fun he => ne_nil_of_mem hmem (isEmpty_iff.mp he))]
    exact hmem

end Windows

end Zanskar
