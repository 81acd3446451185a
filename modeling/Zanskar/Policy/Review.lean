import Zanskar.Lib.Machine
import Zanskar.Policy.Admin

/-!
# Reviews and updates, interleaved (`internal/policy/review.go`, `handlers.go`)

A review and an update each read a policy in one statement and write it in
another. The machine below takes these reads and writes in any order, for any
number of requests.

A review writes back the whole policy it read, without the subjects it removes and as
`Validate` makes it. `review_only_subjects_iff` says when that leaves everything else as
it was; `review_restores_update` is a run in which it does not.
-/

namespace Zanskar

open Go Lib List

/-! ## The machine -/

/-- A review in progress. -/
structure Review where
  ctx : AdminContext
  input : ReviewInput
  /-- The policy as the review read it. -/
  old : Policy
  /-- Its write is done, or it removes nobody and has none. -/
  written : Bool

/-- An update in progress: the policy it read, and the one it will write. -/
structure Update where
  ctx : AdminContext
  old : Policy
  p : Policy

structure EditState where
  site : Site
  reviews : List Review
  updates : List Update

/-- One statement of one request, or a request that ends early. -/
inductive EditLabel where
  | readReview (ctx : AdminContext) (id : String) (input : ReviewInput)
  | writeReview (i : Nat) (now : Int)
  | stampReview (i : Nat) (now : Int)
  | dropReview (i : Nat)
  | readUpdate (ctx : AdminContext) (id : String) (input : PolicyInput)
  | writeUpdate (i : Nat) (now : Int)
  | dropUpdate (i : Nat)
  | create (ctx : AdminContext) (input : PolicyInput) (now : Int)
  | delete (id : String) (now : Int)

/-- The step belongs to a review. -/
def EditLabel.ofReview : EditLabel → Bool
  | .readReview _ _ _ | .writeReview _ _ | .stampReview _ _ | .dropReview _ => true
  | _ => false

namespace EditState

/-- A review's read, with the checks that follow it. -/
def readReview (s : EditState) (ctx : AdminContext) (id : String) (input : ReviewInput) :
    EditState :=
  if (trimSpace input.note).utf8ByteSize > 2000 then s
  else
    match Repo.get s.site.policies id with
    | none => s
    | some old =>
      match input.refusal old with
      | some _ => s
      | none => { s with reviews := s.reviews ++ [⟨ctx, input, old, decide (input.remove = [])⟩] }

/-- An update's read, with the checks that follow it. -/
def readUpdate (s : EditState) (ctx : AdminContext) (id : String) (input : PolicyInput) :
    EditState :=
  match Repo.get s.site.policies id with
  | none => s
  | some old =>
    match s.site.checkedEdit old input with
    | .error _ => s
    | .ok p => { s with updates := s.updates ++ [⟨ctx, old, p⟩] }

/-- One step. A write or a stamp that is refused is the end of its request. -/
def step (s : EditState) : EditLabel → Option EditState
  | .readReview ctx id input => some (s.readReview ctx id input)
  | .writeReview i now =>
    match s.reviews[i]? with
    | some ⟨ctx, input, old, false⟩ =>
      match Repo.update s.site.policies (s.site.writeContext ctx now) (input.written old) with
      | .error _ => none
      | .ok (_, policies) =>
        some { s with
          site := ({ s.site with policies := policies }).recheck old.subjects now
          reviews := s.reviews.set i ⟨ctx, input, old, true⟩ }
    | _ => none
  | .stampReview i now =>
    match s.reviews[i]? with
    | some ⟨ctx, _, old, true⟩ =>
      match Repo.reviewed s.site.policies old.id ctx.userID now with
      | .error _ => none
      | .ok policies =>
        some { s with
          site := { s.site with policies := policies }
          reviews := s.reviews.eraseIdx i }
    | _ => none
  | .dropReview i => some { s with reviews := s.reviews.eraseIdx i }
  | .readUpdate ctx id input => some (s.readUpdate ctx id input)
  | .writeUpdate i now =>
    match s.updates[i]? with
    | some ⟨ctx, old, p⟩ =>
      match Repo.update s.site.policies (s.site.writeContext ctx now) p with
      | .error _ => none
      | .ok (p', policies) =>
        some { s with
          site := ({ s.site with policies := policies }).recheck (old.subjects ++ p'.subjects) now
          updates := s.updates.eraseIdx i }
    | none => none
  | .dropUpdate i => some { s with updates := s.updates.eraseIdx i }
  | .create ctx input now => some { s with site := (s.site.create ctx now input).1 }
  | .delete id now => some { s with site := (s.site.del now id).1 }

/-! ## What a step did -/

variable {s t : EditState} {i : Nat} {now : Int} {id : String} {set : Policy → Policy}
  {p : Policy} {l : EditLabel}

/-- A review's write that runs found its review unwritten, and wrote back what the
review read. -/
theorem writeReview_eq_some (h : s.step (.writeReview i now) = some t) :
    ∃ ctx input old p' policies, s.reviews[i]? = some ⟨ctx, input, old, false⟩ ∧
      Repo.update s.site.policies (s.site.writeContext ctx now) (input.written old) =
        .ok (p', policies) ∧
      t = { s with
        site := ({ s.site with policies := policies }).recheck old.subjects now
        reviews := s.reviews.set i ⟨ctx, input, old, true⟩ } := by
  simp only [step] at h
  split at h
  · rename_i ctx input old hr
    split at h
    · cases h
    · rename_i p' policies hupdate
      exact ⟨ctx, input, old, p', policies, hr, hupdate, (Option.some.inj h).symm⟩
  · cases h

theorem stampReview_eq_some (h : s.step (.stampReview i now) = some t) :
    ∃ ctx input old policies, s.reviews[i]? = some ⟨ctx, input, old, true⟩ ∧
      Repo.reviewed s.site.policies old.id ctx.userID now = .ok policies ∧
      t = { s with
        site := { s.site with policies := policies }
        reviews := s.reviews.eraseIdx i } := by
  simp only [step] at h
  split at h
  · rename_i ctx input old hr
    split at h
    · cases h
    · rename_i policies hreviewed
      exact ⟨ctx, input, old, policies, hr, hreviewed, (Option.some.inj h).symm⟩
  · cases h

/-! ## What a review changes -/

/-- The same name, description, enabled flag and grants. -/
def SameTerms (p q : Policy) : Prop :=
  q.name = p.name ∧ q.description = p.description ∧ q.enabled = p.enabled ∧ q.grants = p.grants

/-- The row is the one before, but for its subjects, its review stamp and the time
of its last write. -/
def SameButSubjects (row row' : Policy) : Prop :=
  row'.id = row.id ∧ SameTerms row row' ∧ row'.createdBy = row.createdBy ∧
    row'.createdAt = row.createdAt

/-- The policy a review's step is about. -/
def reviewedID (s : EditState) : EditLabel → Option String
  | .readReview _ id _ => some id
  | .writeReview i _ | .stampReview i _ | .dropReview i => s.reviews[i]?.map fun r => r.old.id
  | _ => none

/-- From one state to the next, only the subjects and the review stamp of the
policy under review change. -/
def OnlySubjects (s t : EditState) (l : EditLabel) : Prop :=
  List.Forall₂
    (fun row row' => row' = row ∨ (some row.id = s.reviewedID l ∧ SameButSubjects row row'))
    s.site.policies.rows t.site.policies.rows

/-- Where the step is a review's write, the policy has the terms that `Validate` makes of what
the review read. -/
def StillAsRead (s : EditState) : EditLabel → Prop
  | .writeReview i _ => ∀ r valid, s.reviews[i]? = some r →
      (r.input.written r.old).validate s.site.zones = .ok valid →
      ∀ row ∈ s.site.policies.rows, row.id = r.old.id →
        SameTerms row { valid with grants := encodeGrants r.ctx.grantID valid.grants }
  | _ => True

theorem onlySubjects_of_eq (h : t.site.policies = s.site.policies) : s.OnlySubjects t l := by
  unfold OnlySubjects
  rw [h]
  exact forall₂_same.mpr fun row _ => .inl rfl

/-- A write of the policy under review changes only subjects and the stamp exactly
when what it writes has the terms of the row it overwrites. -/
theorem onlySubjects_update_iff {hid : ∀ r, (set r).id = r.id} (hl : s.reviewedID l = some id)
    (ht : t.site.policies = s.site.policies.update (fun r => r.id = id) set hid)
    (hcreated : ∀ r, (set r).createdBy = r.createdBy ∧ (set r).createdAt = r.createdAt) :
    s.OnlySubjects t l ↔ ∀ row ∈ s.site.policies.rows, row.id = id → SameTerms row (set row) := by
  unfold OnlySubjects
  rw [ht, hl]
  simp only [Table.update, forall₂_map_right_iff, forall₂_same, decide_eq_true_eq]
  refine forall₂_congr fun row hrow => ?_
  by_cases hc : row.id = id
  · rw [if_pos hc]
    constructor
    · rintro (hsame | ⟨-, -, hterms, -⟩) -
      · rw [hsame]
        exact ⟨rfl, rfl, rfl, rfl⟩
      · exact hterms
    · exact fun hterms => .inr ⟨congrArg some hc, hid row, hterms hc, hcreated row⟩
  · rw [if_neg hc]
    exact ⟨fun _ h => absurd h hc, fun _ => .inl rfl⟩

theorem writeReview_iff (hstep : s.step (.writeReview i now) = some t) :
    s.OnlySubjects t (.writeReview i now) ↔ s.StillAsRead (.writeReview i now) := by
  obtain ⟨ctx, input, old, p', policies, hr, hupdate, rfl⟩ := writeReview_eq_some hstep
  obtain ⟨valid, hvalid, rfl, -, hpolicies⟩ := Repo.update_eq_ok hupdate
  have hl : s.reviewedID (.writeReview i now) = some old.id := by
    simp [reviewedID, hr]
  refine (onlySubjects_update_iff hl hpolicies fun _ => by exact ⟨rfl, rfl⟩).trans ?_
  constructor
  · intro hterms r valid' hr' hvalid' row hrow hid
    cases hr.symm.trans hr'
    cases hvalid.symm.trans hvalid'
    exact hterms row hrow hid
  · exact fun hread row hrow hid => hread _ valid hr hvalid row hrow hid

/-- A review's other steps change nothing but the stamp. -/
theorem onlySubjects_of_review (hl : l.ofReview)
    (hwrite : ∀ i now, l ≠ .writeReview i now) (hstep : s.step l = some t) :
    s.OnlySubjects t l := by
  cases l with
  | readReview ctx id input =>
    cases hstep
    refine onlySubjects_of_eq ?_
    unfold readReview
    split
    · rfl
    split
    · rfl
    split <;> rfl
  | writeReview i now => exact absurd rfl (hwrite i now)
  | stampReview i now =>
    obtain ⟨ctx, input, old, policies, hr, hreviewed, rfl⟩ := stampReview_eq_some hstep
    have hid : s.reviewedID (.stampReview i now) = some old.id := by
      simp [reviewedID, hr]
    rw [onlySubjects_update_iff hid (Repo.reviewed_eq_ok hreviewed) fun _ => ⟨rfl, rfl⟩]
    exact fun row _ _ => ⟨rfl, rfl, rfl, rfl⟩
  | dropReview i =>
    cases hstep
    exact onlySubjects_of_eq rfl
  | readUpdate | writeUpdate | dropUpdate | create | delete => cases hl

/-- A step of a review changes only the subjects and the stamp of its policy. -/
def ReviewKeeps (s : EditState) (l : EditLabel) : Prop :=
  l.ofReview = true → ∀ t, s.step l = some t → s.OnlySubjects t l

theorem reviewKeeps_iff (hstep : s.step l = some t) :
    s.ReviewKeeps l ↔ s.StillAsRead l := by
  by_cases hwrite : ∃ i now, l = .writeReview i now
  · obtain ⟨i, now, rfl⟩ := hwrite
    constructor
    · exact fun hkeeps => (writeReview_iff hstep).mp (hkeeps rfl t hstep)
    · exact fun hread _ t' hstep' => (writeReview_iff hstep').mpr hread
  · push Not at hwrite
    constructor
    · intro _
      cases l with
      | writeReview i now => exact absurd rfl (hwrite i now)
      | _ => exact trivial
    · exact fun _ hl t' hstep' => onlySubjects_of_review hl hwrite hstep'

/-- **What reviews change.** In every run of reviews, updates, creates and deletes, from
whatever policies are stored, all steps of reviews change only the subjects and the review
stamp of their policy exactly when each write of a review finds the policy with the terms
that `Validate` makes of what the review read. -/
theorem review_only_subjects_iff {s₀ t : EditState} {ls : List EditLabel} :
    RunWhere step ReviewKeeps s₀ ls t ↔ RunWhere step StillAsRead s₀ ls t :=
  RunWhere.congr fun _ _ _ hstep => reviewKeeps_iff hstep

end EditState

/-! ## A review around an update -/

/-- A policy of `u` and `v` with two grants. -/
def sharedPolicy : Policy where
  id := "p"
  name := "p"
  description := ""
  enabled := true
  subjects := [⟨.user, "u"⟩, ⟨.user, "v"⟩]
  grants := [windowGrant true [], { windowGrant false [] with id := "k" }]
  createdBy := "admin"
  createdAt := 0
  updatedAt := 0
  reviewedAt := none
  reviewedBy := ""

/-- The gateway with that policy, and nobody at work on it. -/
def sharedState : EditState where
  site := { smallSite with policies := ⟨[sharedPolicy], nodup_singleton _⟩ }
  reviews := []
  updates := []

/-- The administrator whose requests these are, and ids for new grants. -/
def adminContext : AdminContext :=
  ⟨"admin", "", fun i => String.ofList (replicate (i + 1) 'n')⟩

/-- The review that takes `v` out. -/
def withoutV : ReviewInput := ⟨[⟨.user, "v"⟩], ""⟩

/-- The update that switches the policy off and takes its second grant away. -/
def switchedOff : PolicyInput where
  name := "p"
  description := ""
  enabled := some false
  subjects := [⟨.user, "u"⟩, ⟨.user, "v"⟩]
  grants := [⟨windowGrant true [], some false⟩]

/-- The update runs between the review's read and its write: the policy is off with
one grant, and the review's write brings the flag and the grant back. -/
theorem review_restores_update :
    ∃ s t : EditState,
      Run EditState.step sharedState
        [.readReview adminContext "p" withoutV, .readUpdate adminContext "p" switchedOff,
          .writeUpdate 0 1000] s ∧
      s.step (.writeReview 0 2000) = some t ∧
      s.site.policies.rows.map (fun row => (row.enabled, row.grants.map Grant.id)) =
        [(false, ["g"])] ∧
      t.site.policies.rows.map (fun row => (row.enabled, row.grants.map Grant.id)) =
        [(true, ["g", "k"])] :=
  ⟨_, _, Run.of_exec rfl, rfl, rfl, rfl⟩

/-- With nothing in between, the review changes only the subjects and the stamp. -/
theorem review_alone_only_subjects :
    ∃ t, RunWhere EditState.step EditState.ReviewKeeps sharedState
      [.readReview adminContext "p" withoutV, .writeReview 0 2000, .stampReview 0 3000] t := by
  refine ⟨_, EditState.review_only_subjects_iff.mpr
    (.cons trivial rfl (.cons ?_ rfl (.cons trivial rfl .nil)))⟩
  intro r valid hr hvalid row hrow _
  cases hr
  cases hvalid
  obtain rfl := mem_singleton.mp hrow
  exact ⟨rfl, rfl, rfl, rfl⟩

end Zanskar
