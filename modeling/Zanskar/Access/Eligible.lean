import Zanskar.Access.Create
import Zanskar.Access.Gate
import Zanskar.Policy.Overlap

/-!
# Who is told to ask may ask (`internal/access/gate.go`, `internal/access/handlers.go`)

A connect that finds approval grants only is answered `approval_required`, and the
person is expected to request access. The request is judged by `eligible`, another
reading of the same policies: it looks at approval grants whatever their windows,
and keeps the one with the shortest maximum.

- `eligible_eq` : it keeps the first of the shortest among the approval candidates,
  every window counted as open;
- `approval_required_is_eligible` : the gate and the request handler agree.
-/

namespace Zanskar

open Go Lib List

/-- What a request is capped by when this grant admits it. -/
def Decider.eligibility (c : Decider) : Eligibility := ⟨c.p, c.g, c.g.most⟩

/-- One more approval grant that covers the target. -/
def Decider.keep (best : Option Eligibility) (c : Decider) : Option Eligibility :=
  match best with
  | none => some c.eligibility
  | some b => if c.g.most < b.maxMinutes then some c.eligibility else some b

section Eligible

variable (zones : Zones) (pols : List Policy) (ref : TargetRef) (proto : Protocol) (now : Int)

/-- The two loops of `eligible` pass over the approval candidates. -/
theorem eligible_eq_foldl :
    eligible pols ref proto =
      (approval zones ref proto now false pols).foldl Decider.keep none := by
  rw [approval, foldl_filter, candidates, foldl_flatMap]
  refine foldl_ext _ _ _ fun best p _ => ?_
  by_cases hen : p.enabled
  · simp only [hen, Bool.true_eq_false, if_false, if_true, foldl_map, foldl_filter]
    refine foldl_ext _ _ _ fun best g _ => ?_
    unfold eligibleGrant Grant.admits Grant.windowOpen
    by_cases happ : g.access = .approval <;> by_cases hcov : g.covers ref proto <;>
      simp [happ, hcov, Decider.gated]
    rfl
  · simp [hen]

theorem eligible_eq :
    eligible pols ref proto =
      ((approval zones ref proto now false pols).argmin (·.g.most)).map Decider.eligibility := by
  have hstep : ∀ best c, Decider.keep (best.map Decider.eligibility) c =
      (argAux (fun c b : Decider => c.g.most < b.g.most) best c).map Decider.eligibility := by
    intro best c
    cases best with
    | none => rfl
    | some b => by_cases hlt : c.g.most < b.g.most <;>
        simp [Decider.keep, argAux, Decider.eligibility, hlt]
  rw [eligible_eq_foldl zones pols ref proto now]
  show (approval zones ref proto now false pols).foldl Decider.keep
    (Option.map Decider.eligibility none) = _
  exact foldl_hom (Option.map Decider.eligibility) hstep

end Eligible

variable {zones : Zones} {pols : List Policy} {ref : TargetRef} {proto : Protocol} {now : Int}
  {gate : Gate} {userID : String}

theorem Grant.most_pos (g : Grant) : 0 < g.most := by
  unfold Grant.most defaultMaxGrantMinutes
  split
  · split <;> omega
  · decide

/-- Who is told that approval is required has approval grants to decide, and no
other. -/
theorem Gate.approval_of_required {a : Admission} {msg : String}
    (hpols : gate.forUser userID = .ok pols)
    (h : gate.admitNow zones userID ref proto now = .ok a)
    (href : a.refusal = some (.approvalRequired, msg)) :
    a.d = settle (approval zones ref proto now true pols) true ∧
      approval zones ref proto now true pols ≠ [] := by
  have hd : a.d = evaluate zones pols ref proto now true ∧ a.d.allowed ∧ a.d.requireApproval := by
    rw [Gate.admitNow, Gate.admitWith, hpols] at h
    dsimp only at h
    unfold Gate.check at h
    split at h
    · cases h
      cases href
    rename_i hall
    split at h
    · cases h
    · rename_i hgranted
      cases h
      refine ⟨rfl, by simpa using hall, ?_⟩
      by_contra hno
      unfold Gate.granted at hgranted
      split at hgranted
      · cases hgranted
      · rw [if_neg hno] at hgranted
        cases hgranted
    · split at h <;> cases h <;> cases href
  obtain ⟨heq, hall, hreq⟩ := hd
  rw [heq] at hall hreq ⊢
  have hcand := evaluate_allowed_iff.mp hall
  rw [evaluate_requireApproval hcand] at hreq
  have hdec : deciding zones ref proto now true pols = approval zones ref proto now true pols :=
    if_pos hreq
  exact ⟨by rw [evaluate_eq_settle hcand, hdec, hreq],
    fun hnil => hcand (deciding_eq_nil_iff.mp (hdec.trans hnil))⟩

/-- **Who is told to ask may ask.** Where the gate answers that approval is required,
the request handler finds a grant for the same user, target and protocol, and caps
the request at no more than the decision's maximum, when it has one; and whom the
handler finds a grant for, a running session of theirs is allowed. A maximum that is
set must be at least one minute and fit a duration. -/
theorem approval_required_is_eligible
    (hmax : ∀ p ∈ pols, ∀ g ∈ p.grants, ∀ max, g.maxSessionMinutes = some max →
      1 ≤ max ∧ max ≤ 153722867)
    (hpols : gate.forUser userID = .ok pols) :
    (∀ a msg, gate.admitNow zones userID ref proto now = .ok a →
        a.refusal = some (.approvalRequired, msg) →
      ∃ e, eligible pols ref proto = some e ∧
        (a.d.maxSession ≠ 0 → minutes e.maxMinutes ≤ a.d.maxSession)) ∧
      ∀ e, eligible pols ref proto = some e →
        (evaluateLive zones pols ref proto now).allowed := by
  have hlive : ∀ c ∈ approval zones ref proto now true pols,
      c ∈ approval zones ref proto now false pols := fun c hc =>
    mem_approval.mpr ⟨mem_candidates_live (mem_approval.mp hc).1, (mem_approval.mp hc).2⟩
  rw [eligible_eq zones pols ref proto now]
  constructor
  · intro a msg h href
    obtain ⟨hd, hne⟩ := Gate.approval_of_required hpols h href
    obtain ⟨c, hc⟩ := exists_mem_of_ne_nil _ hne
    cases hm : (approval zones ref proto now false pols).argmin (·.g.most) with
    | none => exact absurd (argmin_eq_none.mp hm) (ne_nil_of_mem (hlive c hc))
    | some m =>
    refine ⟨m.eligibility, rfl, fun hset => ?_⟩
    rw [hd, (settle_carries _ _).maxSession] at hset ⊢
    cases hx : (strictest (approval zones ref proto now true pols)).maxSession with
    | top => exact absurd (by rw [hx]; rfl) hset
    | coe x =>
      -- one of the deciding grants sets the maximum, and the cap is not above it
      obtain ⟨c, hc, max, hsome, rfl⟩ := strictest_maxSession hx
      obtain ⟨hp, -, hg, -⟩ := mem_candidates.mp (mem_approval.mp hc).1
      obtain ⟨hlo, hhi⟩ := hmax c.p hp c.g hg max hsome
      have hmost : c.g.most = max := by
        rw [Grant.most, hsome]
        exact if_pos hlo
      have hle := le_of_mem_argmin (hlive c hc) hm
      exact minutes_le_minutes m.g.most_pos.le (hle.trans_eq hmost) hhi
  · intro e he
    obtain ⟨m, hm, -⟩ := Option.map_eq_some_iff.mp he
    exact evaluate_allowed_iff.mpr (ne_nil_of_mem (mem_approval.mp (argmin_mem hm)).1)

/-- A policy with one approval grant, of an hour. -/
def askPolicy : Policy := samplePolicy "p" { sampleGrant false 15 (some 60) with access := .approval }

theorem ask_policy_is_eligible :
    ∃ e, eligible [askPolicy] ⟨.host, "h", "", ∅⟩ .ssh = some e ∧
      minutes e.maxMinutes ≤ minutes 60 := by
  have hmax : ∀ p ∈ [askPolicy], ∀ g ∈ p.grants, ∀ max, g.maxSessionMinutes = some max →
      1 ≤ max ∧ max ≤ 153722867 :=
    forall_mem_singleton.mpr (forall_mem_singleton.mpr fun _ h => Option.some.inj h ▸ by decide)
  obtain ⟨e, he, hle⟩ := (@approval_required_is_eligible ⟨fun _ => none⟩ [askPolicy]
    ⟨.host, "h", "", ∅⟩ .ssh 0 ⟨fun _ => .ok [askPolicy], some fun _ _ _ _ _ => .ok false, none⟩ "u"
    hmax rfl).1 _ _ rfl rfl
  exact ⟨e, he, hle (by decide)⟩

end Zanskar
