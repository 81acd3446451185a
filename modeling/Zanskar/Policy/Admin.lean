import Zanskar.Access.Request
import Zanskar.Connect.Holds
import Zanskar.Httpx
import Zanskar.Policy.Store

/-!
# The administration of policies (`internal/policy/handlers.go`, `review.go`)

An administrator creates, updates, deletes and reviews access policies. Each
handler that changes one re-checks the live sessions of the users it touches: the
new policy's for a create, the old and the new subjects' for an update, the ones
read before the delete, the old subjects' for a review.

`Site` is the gateway with its stores, and `Site.run` a request run to completion.
`run_holding` says that those are the right users. The argument is a frame
(`holding_recheck`): users outside the ones re-checked are offered the same grants
as before, and the re-check ends the sessions of the others that no longer hold.
-/

namespace Zanskar

open Go Lib List

/-! ## The gateway and its stores -/

/-- What the handlers read of an account. -/
structure Account where
  username : String
  /-- `CanConnect`: not review-only. -/
  canConnect : Bool

/-- A group; one that an identity provider syncs carries its id. -/
structure Group where
  id : String
  idpID : String
  deriving DecidableEq

/-- The gateway with its stores. -/
structure Site where
  zones : Zones
  policies : Policies
  members : List Member
  users : String → Option Account
  groups : List Group
  /-- `Inventory.TargetKind`: the kind of a live target. -/
  targetKind : String → Option Kind
  /-- `Inventory.GroupExists`: a live autoscaling group. -/
  groupExists : String → Bool
  requests : Requests
  /-- The user has a second factor. -/
  secondFactor : String → Bool
  session : String → Except Failure SessionRow
  endpoints : Endpoints
  registry : Registry

namespace Site

/-- The gate over the stores. -/
def gate (s : Site) : Gate where
  forUser userID := .ok (forUser s.policies s.members userID)
  grants := some fun userID targetID asgID proto now =>
    .ok (s.requests.hasActiveGrant userID targetID asgID proto now)
  mfaEnrolled := some fun userID => .ok (s.secondFactor userID)

/-- The connect handler over the stores. -/
def handler (s : Site) : Handler := ⟨s.zones, s.gate, s.session, s.endpoints⟩

/-- Every live session is admitted by `AdmitLive` with switches no broader than
the live decision. -/
def Holding (s : Site) (now : Int) : Prop := ∀ l ∈ s.registry.running, s.handler.Holds now l

/-- The group or user exists. -/
def subjectExists (s : Site) (sub : Subject) : Bool :=
  if sub.kind = .group then s.groups.any fun g => g.id = sub.id else (s.users sub.id).isSome

/-- `Revoker.Recheck`. -/
def recheckUsers (s : Site) (userIDs : List String) (now : Int) : Site :=
  { s with registry := s.handler.recheck userIDs now s.registry }

/-- `recheck`: the sessions of everyone the subjects reach. -/
def recheck (s : Site) (subjects : List Subject) (now : Int) : Site :=
  s.recheckUsers (usersCovered s.members subjects) now

end Site

/-! ## Requests -/

/-- A grant as it is sent: an authenticator is asked for unless the body says
otherwise. -/
structure GrantInput where
  grant : Grant
  requireMFA : Option Bool

/-- The body of a create or an update. -/
structure PolicyInput where
  name : String
  description : String
  enabled : Option Bool
  subjects : List Subject
  grants : List GrantInput

/-- `apply`. -/
def PolicyInput.apply (input : PolicyInput) (p : Policy) : Policy :=
  { p with
    name := input.name
    description := input.description
    subjects := input.subjects
    enabled := input.enabled.getD true
    grants := input.grants.map fun g => { g.grant with requireMFA := g.requireMFA.getD true } }

theorem PolicyInput.apply_id (input : PolicyInput) (p : Policy) :
    (input.apply p).id = p.id := rfl

/-- `strings.TrimPrefix`. -/
def trimStart (s start : String) : String :=
  match s.toList.dropPrefix? start.toList with
  | some rest => String.ofList rest
  | none => s

/-- `fail`: the answer to an error. -/
def fail (e : PolicyError) : Answer :=
  match e.cls with
  | .notFound => ⟨404, "not_found", "policy not found"⟩
  | .duplicate => ⟨409, "conflict", "a policy with that name exists"⟩
  | .protocolNotForKind => ⟨400, "protocol_not_for_kind", e.text⟩
  | .unknownSubject => ⟨422, "invalid_subject", e.text⟩
  | .invalidInput => badRequest (trimStart e.text "policy: invalid input: ")

/-- A user subject must be there and able to connect. -/
def Site.subjectRefusal (s : Site) (sub : Subject) : Option Answer :=
  if sub.kind ≠ .user then none
  else
    match s.users sub.id with
    | none => some ⟨422, "invalid_subject", "user " ++ sub.id ++ " not found"⟩
    | some u =>
      if u.canConnect then none
      else some ⟨422, "review_only_subject", u.username ++
        " holds only the auditor role and is review-only; " ++
        "grant it the user role before naming it in a policy"⟩

/-- A named id must be a live target or group of its grant's kind. -/
def Site.targetRefusal (s : Site) (i : Nat) (g : Grant) (t : GrantTarget) : Option Answer :=
  let found : Option Kind :=
    if g.kind = .autoscaling then (if s.groupExists t.id then some .autoscaling else none)
    else s.targetKind t.id
  match found with
  | none => some ⟨422, "unknown_target",
      "grant " ++ toString (i + 1) ++ ": " ++ t.id ++ " is not a live " ++ g.kind.text⟩
  | some kind =>
    if kind ≠ g.kind then
      some ⟨422, "kind_mismatch", "grant " ++ toString (i + 1) ++ ": " ++ t.id ++ " is a " ++
        kind.text ++ ", not a " ++ g.kind.text⟩
    else none

/-- `checkWrite`: the policy as validated, or the refusal. -/
def Site.checkWrite (s : Site) (p : Policy) : Except Answer Policy :=
  match p.validate s.zones with
  | .error e => .error (fail e)
  | .ok p =>
    match p.subjects.findSome? s.subjectRefusal with
    | some a => .error a
    | none =>
      match p.grants.zipIdx.findSome? fun gi =>
          gi.1.targets.findSome? (s.targetRefusal gi.2 gi.1) with
      | some a => .error a
      | none => .ok p

/-- Who asks, and the ids drawn for the request. -/
structure AdminContext where
  userID : String
  policyID : String
  grantID : Nat → String

def Site.writeContext (s : Site) (ctx : AdminContext) (now : Int) : WriteContext :=
  ⟨s.zones, s.subjectExists, ctx.policyID, ctx.grantID, now⟩

/-- A policy with nothing in it yet. -/
def blankPolicy : Policy := ⟨"", "", "", false, [], [], "", 0, 0, none, ""⟩

namespace Site

/-- The checks of `create`: the new policy as validated. -/
def checkedNew (s : Site) (ctx : AdminContext) (input : PolicyInput) : Except Answer Policy :=
  let p := input.apply { blankPolicy with createdBy := ctx.userID }
  if p.subjects = [] then .error (badRequest "a policy needs at least one group or user")
  else
    match p.grants.zipIdx.find? fun gi => gi.1.id ≠ "" with
    | some gi => .error ⟨422, "unknown_grant",
        "grant " ++ toString (gi.2 + 1) ++ ": a new policy's grants carry no id"⟩
    | none => s.checkWrite p

/-- `create`. -/
def create (s : Site) (ctx : AdminContext) (now : Int) (input : PolicyInput) :
    Site × Except Answer Policy :=
  match s.checkedNew ctx input with
  | .error a => (s, .error a)
  | .ok p =>
    match Repo.create s.policies (s.writeContext ctx now) p with
    | .error e => (s, .error (fail e))
    | .ok (p, policies) => (({ s with policies := policies }).recheck p.subjects now, .ok p)

/-- The checks of `update` against the policy it read: the edited policy as
validated. -/
def checkedEdit (s : Site) (old : Policy) (input : PolicyInput) : Except Answer Policy :=
  let p := input.apply
    { blankPolicy with id := old.id, createdBy := old.createdBy, createdAt := old.createdAt }
  -- a grant sent with an id must be one the policy has
  let known := old.grants.map Grant.id
  match p.grants.zipIdx.find? fun gi => gi.1.id ≠ "" && !known.contains gi.1.id with
  | some gi => .error ⟨422, "unknown_grant",
      "grant " ++ toString (gi.2 + 1) ++ ": id " ++ gi.1.id ++ " is not a grant of this policy"⟩
  | none => s.checkWrite p

/-- `update`. -/
def update (s : Site) (ctx : AdminContext) (now : Int) (id : String) (input : PolicyInput) :
    Site × Except Answer Policy :=
  match Repo.get s.policies id with
  | none => (s, .error (fail errNotFound))
  | some old =>
    match s.checkedEdit old input with
    | .error a => (s, .error a)
    | .ok p =>
      match Repo.update s.policies (s.writeContext ctx now) p with
      | .error e => (s, .error (fail e))
      | .ok (p, policies) =>
        (({ s with policies := policies }).recheck (old.subjects ++ p.subjects) now, .ok p)

/-- `del`. Whom the policy covered is read before the delete. -/
def del (s : Site) (now : Int) (id : String) : Site × Except Answer Unit :=
  match Repo.get s.policies id with
  | none => (s, .error (fail errNotFound))
  | some p =>
    let covered := usersCovered s.members p.subjects
    match Repo.delete s.policies p.id with
    | .error e => (s, .error (fail e))
    | .ok policies => (({ s with policies := policies }).recheckUsers covered now, .ok ())

end Site

/-- The body of a review: the subjects that no longer need the policy. -/
structure ReviewInput where
  remove : List Subject
  note : String

/-- The subjects a review keeps. -/
def ReviewInput.kept (input : ReviewInput) (old : Policy) : List Subject :=
  old.subjects.filter fun s => !input.remove.contains s

/-- The checks of `completeReview` on its body and the policy it read. -/
def ReviewInput.refusal (input : ReviewInput) (old : Policy) : Option Answer :=
  (input.remove.find? fun s => !old.subjects.contains s).map fun s =>
    ⟨422, "unknown_subject",
      "remove: " ++ s.kind.text ++ " " ++ s.id ++ " is not a subject of this policy"⟩

/-- The policy a review writes back: what it read, without the subjects removed. -/
def ReviewInput.written (input : ReviewInput) (old : Policy) : Policy :=
  { old with subjects := input.kept old, updatedAt := 0, reviewedAt := none, reviewedBy := "" }

namespace Site

/-- The stamp a review ends with. -/
def stamp (s : Site) (ctx : AdminContext) (now : Int) (id : String) : Site × Except Answer Unit :=
  match Repo.reviewed s.policies id ctx.userID now with
  | .error e => (s, .error (fail e))
  | .ok policies => ({ s with policies := policies }, .ok ())

/-- `completeReview`. -/
def completeReview (s : Site) (ctx : AdminContext) (now : Int) (id : String)
    (input : ReviewInput) : Site × Except Answer Unit :=
  if (trimSpace input.note).utf8ByteSize > 2000 then
    (s, .error (badRequest "note: at most 2000 characters"))
  else
    match Repo.get s.policies id with
    | none => (s, .error (fail errNotFound))
    | some old =>
      match input.refusal old with
      | some a => (s, .error a)
      | none =>
        if input.remove = [] then s.stamp ctx now old.id
        else
          match Repo.update s.policies (s.writeContext ctx now) (input.written old) with
          | .error e => (s, .error (fail e))
          | .ok (_, policies) =>
            (({ s with policies := policies }).recheck old.subjects now).stamp ctx now old.id

/-- A request of an administrator. -/
inductive Edit where
  | create (ctx : AdminContext) (input : PolicyInput)
  | update (ctx : AdminContext) (id : String) (input : PolicyInput)
  | delete (id : String)
  | review (ctx : AdminContext) (id : String) (input : ReviewInput)

/-- A request run to completion. -/
def run (s : Site) (now : Int) : Edit → Site
  | .create ctx input => (s.create ctx now input).1
  | .update ctx id input => (s.update ctx now id input).1
  | .delete id => (s.del now id).1
  | .review ctx id input => (s.completeReview ctx now id input).1

/-! ## The frame -/

variable {s : Site} {now : Int} {l : Live} {policies : Policies} {ctx : AdminContext} {id : String}
  {input : PolicyInput} {p old p' : Policy}

theorem admitLive_total (userID : String) (ref : TargetRef) (proto : Protocol) (now : Int) :
    ∃ a, s.handler.gate.admitLive s.handler.zones userID ref proto now = .ok a := by
  show ∃ a, s.gate.check (evaluate s.zones (forUser s.policies s.members userID) ref proto now
    false) userID ref proto now = .ok a
  unfold Gate.check
  split
  · exact ⟨_, rfl⟩
  · have hgranted : ∀ d, ∃ b, s.gate.granted d userID ref proto now = .ok b := by
      intro d
      unfold Gate.granted
      dsimp only [gate]
      split <;> exact ⟨_, rfl⟩
    have henrolled : ∀ d, ∃ b, s.gate.enrolled d userID = .ok b := by
      intro d
      unfold Gate.enrolled
      dsimp only [gate]
      split <;> exact ⟨_, rfl⟩
    obtain ⟨b, hb⟩ := hgranted (evaluate s.zones (forUser s.policies s.members userID) ref proto
      now false)
    obtain ⟨c, hc⟩ := henrolled (evaluate s.zones (forUser s.policies s.members userID) ref proto
      now false)
    rw [hb, hc]
    cases b <;> cases c <;> exact ⟨_, rfl⟩

/-- A session that is left by a re-check of its user, and can be resolved, holds. -/
theorem holds_of_not_withdrawn {ref : TargetRef} (href : s.handler.sessionRef l.sessionID = .ok ref)
    (hkept : s.handler.withdraws now l = false) : s.handler.Holds now l := by
  obtain ⟨a, ha⟩ := s.admitLive_total l.userID ref l.protocol now
  exact (Handler.holds_iff_withdraws href ha).mpr hkept

/-- Other policies that offer the user the same grants hold the same sessions. -/
theorem holds_of_offers (hbefore : s.handler.Holds now l)
    (hoffers : ∀ g, Offers (forUser policies s.members l.userID) g ↔
      Offers (forUser s.policies s.members l.userID) g) :
    Handler.Holds (handler { s with policies := policies }) now l := by
  have hresolved := hbefore
  obtain ⟨ref, -, href, -, -, -⟩ := hresolved
  have href' : (handler { s with policies := policies }).sessionRef l.sessionID = .ok ref := href
  exact (Handler.holds_congr href rfl href' rfl rfl rfl hoffers).mpr hbefore

/-- **The frame.** A change of the policies, after which the users not re-checked
are offered the grants they were, keeps every session holding. -/
theorem holding_recheck {userIDs : List String} (h : s.Holding now)
    (hframe : ∀ userID ∉ userIDs, ∀ g,
      Offers (forUser policies s.members userID) g ↔
        Offers (forUser s.policies s.members userID) g) :
    Holding (recheckUsers { s with policies := policies } userIDs now) now := by
  intro l hl
  obtain ⟨hrun, hkept⟩ := Handler.mem_running_recheck.mp hl
  by_cases huser : l.userID ∈ userIDs
  · -- it held before, so it can be resolved, and the re-check that left it decides
    obtain ⟨ref, -, href, -, -, -⟩ := h l hrun
    exact holds_of_not_withdrawn (s := { s with policies := policies }) href (hkept huser)
  · exact holds_of_offers (s := s) (h l hrun) (hframe l.userID huser)

theorem holding_stamp (h : s.Holding now) : (s.stamp ctx now id).1.Holding now := by
  unfold stamp
  split
  · exact h
  · rename_i policies hreviewed
    exact fun l hl => holds_of_offers (h l hl) (Repo.offers_reviewed hreviewed)

/-! ## The requests -/

theorem holding_create (h : s.Holding now) : (s.create ctx now input).1.Holding now := by
  unfold create
  split
  · exact h
  split
  · exact h
  rename_i p policies hcreate
  refine holding_recheck h fun userID hnot g => Repo.offers_create hcreate (fun sub hsub => ?_)
  obtain ⟨valid, hvalid, rfl, -⟩ := Repo.create_eq_ok hcreate
  rw [mem_usersCovered (subjects_of_validate hvalid).2] at hnot
  rw [← Bool.not_eq_true]
  exact fun hreach => hnot ⟨sub, hsub, hreach⟩

theorem offers_of_update {userID : String}
    {wctx : WriteContext} (hget : Repo.get s.policies id = some old)
    (hupdate : Repo.update s.policies wctx p = .ok (p', policies)) (hid : p.id = old.id)
    (hold : userID ∉ usersCovered s.members old.subjects)
    (hnew : userID ∉ usersCovered s.members p.subjects) (g : Grant) :
    Offers (forUser policies s.members userID) g ↔
      Offers (forUser s.policies s.members userID) g := by
  obtain ⟨valid, hvalid, rfl, -, rfl⟩ := Repo.update_eq_ok hupdate
  obtain ⟨hsubjects, hkinds⟩ := subjects_of_validate hvalid
  have hsame : old.id = id := by
    obtain ⟨row, -, hrow, rfl⟩ := Repo.get_eq_some hget
    exact hrow
  -- the row written reached the user neither with its old subjects nor with its new
  refine Repo.offers_update (fun r hr hc => ?_) (fun r hr hc => ?_)
  · refine Repo.reaches_of_get hget hold r hr ?_
    rw [decide_eq_true_eq] at hc
    rw [hc, hid, hsame]
  · rw [← hsubjects, mem_usersCovered hkinds] at hnew
    rw [← Bool.not_eq_true, reaches_eq_true]
    rintro ⟨sub, hsub, hreach⟩
    exact hnew ⟨sub, mem_readOrder.mp hsub, hreach⟩

theorem id_of_checkWrite (h : s.checkWrite p = .ok p') : p'.id = p.id := by
  unfold checkWrite at h
  split at h
  · cases h
  rename_i valid hvalid
  obtain ⟨-, -, -, -, grants, -, rfl⟩ := Policy.validate_eq_ok.mp hvalid
  split at h
  · cases h
  split at h
  · cases h
  · rw [← Except.ok.inj h]

theorem id_of_checkedEdit (h : s.checkedEdit old input = .ok p) : p.id = old.id := by
  unfold checkedEdit at h
  dsimp only at h
  split at h
  · cases h
  · rw [id_of_checkWrite h, PolicyInput.apply_id]

theorem holding_update (h : s.Holding now) : (s.update ctx now id input).1.Holding now := by
  unfold update
  split
  · exact h
  rename_i old hget
  split
  · exact h
  rename_i p hcheck
  split
  · exact h
  rename_i p' policies hupdate
  have hid : p.id = old.id := id_of_checkedEdit hcheck
  have hsubjects : p'.subjects = p.subjects := by
    obtain ⟨valid, hvalid, rfl, -, -⟩ := Repo.update_eq_ok hupdate
    exact (subjects_of_validate hvalid).1
  show Holding (recheckUsers { s with policies := policies }
    (usersCovered s.members (old.subjects ++ p'.subjects)) now) now
  refine holding_recheck h fun userID hnot g => ?_
  refine offers_of_update hget hupdate hid (fun hin => hnot ?_) (fun hin => hnot ?_) g
  · exact usersCovered_mono (fun sub hsub => mem_append_left _ hsub) hin
  · rw [← hsubjects] at hin
    exact usersCovered_mono (fun sub hsub => mem_append_right _ hsub) hin

theorem holding_del (h : s.Holding now) : (s.del now id).1.Holding now := by
  unfold del
  split
  · exact h
  rename_i old hget
  dsimp only
  split
  · exact h
  rename_i policies hdelete
  refine holding_recheck h fun userID hnot g => ?_
  obtain rfl := Repo.delete_eq_ok hdelete
  refine Repo.offers_delete (fun r hr hc => ?_)
  obtain ⟨row, -, hrow, rfl⟩ := Repo.get_eq_some hget
  refine Repo.reaches_of_get hget hnot r hr ?_
  rw [decide_eq_true_eq] at hc
  exact hc.trans hrow

theorem holding_completeReview {input : ReviewInput}
    (h : s.Holding now) : (s.completeReview ctx now id input).1.Holding now := by
  unfold completeReview
  split
  · exact h
  split
  · exact h
  rename_i old hget
  split
  · exact h
  split
  · exact holding_stamp h
  split
  · exact h
  rename_i p' policies hupdate
  -- the subjects kept are among those read, so the re-check of those covers both
  have hchecked : Holding (recheck { s with policies := policies } old.subjects now) now := by
    refine holding_recheck h fun userID hnot g => ?_
    refine offers_of_update hget hupdate rfl hnot (fun hin => hnot ?_) g
    exact usersCovered_mono (fun sub hsub => mem_of_mem_filter hsub) hin
  exact holding_stamp hchecked

/-- **Policy edits keep every live session holding.** Where each live session is
admitted by `AdmitLive` with switches no broader than the live decision, each is
after any create, update, delete or review of a policy run to completion. -/
theorem run_holding {s : Site} {now : Int} (h : s.Holding now) (edit : Edit) :
    (s.run now edit).Holding now := by
  cases edit with
  | create ctx input => exact holding_create h
  | update ctx id input => exact holding_update h
  | delete id => exact holding_del h
  | review ctx id input => exact holding_completeReview h

end Site

/-! ## A clipboard switched off under a session -/

/-- A gateway with one policy of `u`, and the session of `u` on `h`. -/
def smallSite : Site where
  zones := sundayNoon
  policies := ⟨[officePolicy true true], nodup_singleton _⟩
  members := []
  users userID := some ⟨userID, true⟩
  groups := []
  targetKind _ := some .host
  groupExists _ := false
  requests := .empty
  secondFactor _ := false
  session _ := .ok ⟨"h", ""⟩
  endpoints := plainEndpoints
  registry := Registry.empty.add (officeSession true)

/-- The policy of `u` without the clipboard, sent as an update. -/
def clipboardOff : PolicyInput where
  name := "p"
  description := ""
  enabled := none
  subjects := [⟨.user, "u"⟩]
  grants := [⟨windowGrant false [], some false⟩]

/-- The session holds before the update, so whatever is live holds after it. -/
theorem update_keeps_smallSite_holding :
    smallSite.Holding 0 ∧
      (smallSite.run 0 (.update ⟨"admin", "", fun _ => "g"⟩ "p" clipboardOff)).Holding 0 := by
  have hholding : smallSite.Holding 0 := by
    intro l hl
    obtain rfl : l = officeSession true := mem_singleton.mp hl
    exact ⟨_, _, rfl, rfl, rfl, rfl⟩
  exact ⟨hholding, Site.run_holding hholding _⟩

end Zanskar
