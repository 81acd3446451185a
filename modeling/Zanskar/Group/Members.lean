import Zanskar.Policy.Admin

/-!
# Groups and their members (`internal/group/group.go`, `handlers.go`)

The table `group_members`, and the statements that change it: `SetMembers` for the
console, `AddMember` and `RemoveMember` for the sign-ins of an identity provider.
The console's handler re-checks the live sessions of the members it took out.

A member put in is not re-checked, and a membership can take away: the terms of a
session are the strictest of all grants that cover it. The last section says what
that leaves open, for any way of changing the table (`holds_iff_gainsAgree`).
-/

namespace Zanskar

open Go Lib List

/-- The package's errors. -/
inductive GroupErrorClass where
  | notFound
  | duplicate
  | invalidInput
  | synced
  | unknownUser
  deriving DecidableEq

structure GroupError where
  cls : GroupErrorClass
  text : String

/-- What `SetMembers` did: the ids added and removed, and the table. -/
structure MembersSet where
  added : List String
  removed : List String
  members : List Member

namespace GroupRepo

def errNotFound : GroupError := ⟨.notFound, "group: not found"⟩

def errSynced : GroupError := ⟨.synced, "group: membership is managed by an identity provider"⟩

/-- A row whose user is not there. -/
def errNoUser (userID : String) : GroupError :=
  ⟨.invalidInput, "group: invalid input: unknown user " ++ userID⟩

/-- `Get`. -/
def get (groups : List Group) (id : String) : Except GroupError Group :=
  match groups.find? fun g => g.id = id with
  | none => .error errNotFound
  | some g => .ok g

/-- The check every change of members begins with: the group is there, and no
identity provider owns its membership. -/
def editable (groups : List Group) (groupID : String) : Except GroupError Unit :=
  match get groups groupID with
  | .error e => .error e
  | .ok g => if g.idpID ≠ "" then .error errSynced else .ok ()

/-- `SetMembers`. Both maps are taken in the order of the lists they are made
from. -/
def setMembers (groups : List Group) (userExists : String → Bool) (members : List Member)
    (groupID : String) (userIDs : List String) : Except GroupError MembersSet :=
  match editable groups groupID with
  | .error e => .error e
  | .ok () =>
    let want := (userIDs.filter fun id => id ≠ "").dedup
    let have_ := (members.filter fun m => m.groupID = groupID).map Member.userID
    let removed := have_.filter fun id => !want.contains id
    let added := want.filter fun id => !have_.contains id
    match added.find? fun id => !userExists id with
    | some id => .error (errNoUser id)
    | none =>
      .ok ⟨added, removed,
        (members.filter fun m => !(m.groupID = groupID && removed.contains m.userID)) ++
          added.map fun id => ⟨groupID, id⟩⟩

/-- `AddMember`; adding an existing member is a no-op. -/
def addMember (groups : List Group) (userExists : String → Bool) (members : List Member)
    (groupID userID : String) : Except GroupError (List Member) :=
  match editable groups groupID with
  | .error e => .error e
  | .ok () =>
    if members.contains ⟨groupID, userID⟩ then .ok members
    else if userExists userID then .ok (members ++ [⟨groupID, userID⟩])
    else .error (errNoUser userID)

/-- `RemoveMember`; removing a non-member is a no-op. -/
def removeMember (groups : List Group) (members : List Member) (groupID userID : String) :
    Except GroupError (List Member) :=
  match editable groups groupID with
  | .error e => .error e
  | .ok () => .ok (members.filter fun m => m ≠ ⟨groupID, userID⟩)

/-- `GroupIDsForUser`. -/
def groupIDsForUser (members : List Member) (userID : String) : List String :=
  (members.filter fun m => m.userID = userID).map Member.groupID

/-- `fail`: the answer to an error. -/
def fail (e : GroupError) : Answer :=
  match e.cls with
  | .notFound => ⟨404, "not_found", "no such group"⟩
  | .duplicate => ⟨409, "conflict", "group name already exists"⟩
  | .synced => ⟨409, "synced", "membership is managed by an identity provider"⟩
  | .unknownUser => ⟨422, "invalid_user", e.text⟩
  | .invalidInput => badRequest (trimStart e.text "group: invalid input: ")

/-! ## What a set of members asks for -/

/-- The users to put into the group: those asked for who are not in it. -/
def newMembers (members : List Member) (groupID : String) (userIDs : List String) : List String :=
  (userIDs.filter fun id => id ≠ "").dedup.filter fun id => !members.contains ⟨groupID, id⟩

/-- The rows to keep: those of other groups, and of the users asked for. -/
def keptRows (members : List Member) (groupID : String) (userIDs : List String) : List Member :=
  members.filter fun m => m.groupID ≠ groupID || (m.userID ≠ "" && userIDs.contains m.userID)

/-- The set is accepted: the group can be edited, and the users to put in exist. -/
def acceptsMembers (groups : List Group) (userExists : String → Bool) (members : List Member)
    (groupID : String) (userIDs : List String) : Bool :=
  match editable groups groupID with
  | .error _ => false
  | .ok () => (newMembers members groupID userIDs).all userExists

/-! ## The rows after a change -/

variable {groups : List Group} {userExists : String → Bool} {members : List Member}
  {groupID userID : String} {r : MembersSet} {userIDs : List String} {m : Member}

theorem mem_current {id : String} :
    id ∈ (members.filter fun m => m.groupID = groupID).map Member.userID ↔
      ⟨groupID, id⟩ ∈ members := by
  simp only [mem_map, mem_filter, decide_eq_true_eq]
  constructor
  · rintro ⟨m, ⟨hm, rfl⟩, rfl⟩
    exact hm
  · intro hm
    exact ⟨⟨groupID, id⟩, ⟨hm, rfl⟩, rfl⟩

/-- The members `SetMembers` finds to add are those to put in. -/
theorem added_eq :
    ((userIDs.filter fun id => id ≠ "").dedup.filter fun id =>
        !((members.filter fun m => m.groupID = groupID).map Member.userID).contains id) =
      newMembers members groupID userIDs := by
  unfold newMembers
  refine filter_congr fun id _ => ?_
  rw [Bool.not_inj_iff, Bool.eq_iff_iff, contains_iff_mem, contains_iff_mem, mem_current]

/-- The rows it leaves when it takes members out are those to keep. -/
theorem kept_eq :
    (members.filter fun m => !(m.groupID = groupID &&
        (((members.filter fun m => m.groupID = groupID).map Member.userID).filter fun id =>
          !(userIDs.filter fun id => id ≠ "").dedup.contains id).contains m.userID)) =
      keptRows members groupID userIDs := by
  unfold keptRows
  refine filter_congr fun m hm => ?_
  by_cases hgroup : m.groupID = groupID
  · subst hgroup
    have hcurrent := mem_current.mpr hm
    rw [Bool.eq_iff_iff]
    simp only [decide_true, Bool.true_and, Bool.not_eq_true', ← Bool.not_eq_true,
      contains_iff_mem, mem_filter, hcurrent, true_and, mem_dedup,
      ne_eq, not_true_eq_false, decide_false, Bool.false_or, Bool.and_eq_true,
      decide_eq_true_eq]
    tauto
  · simp [hgroup]

/-- **What a set does**: refused where it is not accepted, it otherwise keeps the
rows to keep and puts the new members in. -/
theorem setMembers_eq_ok (h : setMembers groups userExists members groupID userIDs = .ok r) :
    acceptsMembers groups userExists members groupID userIDs ∧
      r.added = newMembers members groupID userIDs ∧
      r.members = keptRows members groupID userIDs ++
        (newMembers members groupID userIDs).map fun id => ⟨groupID, id⟩ := by
  unfold setMembers at h
  unfold acceptsMembers
  split at h
  · cases h
  dsimp only at h ⊢
  rw [added_eq, kept_eq] at h
  split at h
  · cases h
  rename_i hexist
  cases h
  refine ⟨?_, rfl, rfl⟩
  rw [all_eq_true]
  intro id hid
  simpa using find?_eq_none.mp hexist id hid

theorem setMembers_eq_error {e : GroupError}
    (h : setMembers groups userExists members groupID userIDs = .error e) :
    acceptsMembers groups userExists members groupID userIDs = false := by
  unfold setMembers at h
  unfold acceptsMembers
  split at h
  · rfl
  dsimp only at h ⊢
  rw [added_eq] at h
  split at h
  · rename_i id hid
    rw [all_eq_false]
    exact ⟨id, mem_of_find?_eq_some hid, by simpa using find?_some hid⟩
  · cases h

theorem mem_removed_of_setMembers (h : setMembers groups userExists members groupID userIDs = .ok r)
    (hm : m ∈ members) (hout : m ∉ r.members) : m.userID ∈ r.removed := by
  unfold setMembers at h
  split at h
  · cases h
  dsimp only at h
  split at h
  · cases h
  cases h
  rw [mem_append, not_or, mem_filter, not_and, Bool.not_eq_true', Bool.not_eq_false,
    Bool.and_eq_true, contains_iff_mem] at hout
  exact (hout.1 hm).2

theorem mem_of_mem_setMembers (h : setMembers groups userExists members groupID userIDs = .ok r)
    (hm : m ∈ r.members) : m ∈ members ∨ m ∈ r.added.map fun id => (⟨groupID, id⟩ : Member) := by
  obtain ⟨-, hadded, hmembers⟩ := setMembers_eq_ok h
  rw [hmembers, mem_append] at hm
  rcases hm with hkept | hnew
  · exact .inl (mem_of_mem_filter hkept)
  · rw [hadded]
    exact .inr hnew

end GroupRepo

/-! ## What a membership offers -/

section Offered

variable {tbl : Policies} {members more : List Member} {userID : String}

theorem Subject.reaches_mono {sub : Subject}
    (hmore : ∀ gid, ⟨gid, userID⟩ ∈ members → ⟨gid, userID⟩ ∈ more)
    (h : sub.reaches members userID) : sub.reaches more userID := by
  unfold Subject.reaches at h ⊢
  split at h
  · rename_i hkind
    rw [if_pos hkind, contains_iff_mem]
    exact hmore _ (contains_iff_mem.mp h)
  · rename_i hkind
    rw [if_neg hkind]
    exact h

theorem offers_mono {g : Grant} (hmore : ∀ gid, ⟨gid, userID⟩ ∈ members → ⟨gid, userID⟩ ∈ more)
    (h : Offers (forUser tbl members userID) g) : Offers (forUser tbl more userID) g := by
  obtain ⟨p, hp, hen, hreach, hg⟩ := offers_forUser.mp h
  obtain ⟨sub, hsub, hsubreach⟩ := reaches_eq_true.mp hreach
  exact offers_forUser.mpr
    ⟨p, hp, hen, reaches_eq_true.mpr ⟨sub, hsub, Subject.reaches_mono hmore hsubreach⟩, hg⟩

end Offered

namespace Site

/-- `setMembers`. The members it took out are re-checked. -/
def setMembers (s : Site) (now : Int) (id : String) (userIDs : Option (List String)) :
    Site × Except Answer Unit :=
  match userIDs with
  | none => (s, .error (badRequest "user_ids is required"))
  | some ids =>
    match GroupRepo.setMembers s.groups (fun id => (s.users id).isSome) s.members id ids with
    | .error e => (s, .error (GroupRepo.fail e))
    | .ok r =>
      let s := { s with members := r.members }
      (if r.removed = [] then s else s.recheckUsers r.removed now, .ok ())

/-! ## Sessions under memberships added since -/

/-- The session was found to hold with some of its user's memberships; the user's
other memberships are among the rows added. -/
def HeldWith (s : Site) (now : Int) (added : List Member) (l : Live) : Prop :=
  ∃ checked : List Member,
    (∀ gid, ⟨gid, l.userID⟩ ∈ checked → ⟨gid, l.userID⟩ ∈ s.members) ∧
    (∀ gid, ⟨gid, l.userID⟩ ∈ s.members → ⟨gid, l.userID⟩ ∉ added → ⟨gid, l.userID⟩ ∈ checked) ∧
    Handler.Holds (handler { s with members := checked }) now l

/-- The user is offered the grant, and would not be without the rows added. -/
def Gains (s : Site) (added : List Member) (userID : String) (g : Grant) : Prop :=
  Offers (forUser s.policies s.members userID) g ∧
    ¬ Offers (forUser s.policies (s.members.filter fun m => m ∉ added) userID) g

/-- Every grant that the session's user gains through the rows added, and that
decides for the session, agrees with it. -/
def GainsAgree (s : Site) (added : List Member) (l : Live) : Prop :=
  ∀ ref, s.handler.sessionRef l.sessionID = .ok ref → ∀ g, s.Gains added l.userID g →
    DecidesLive (forUser s.policies s.members l.userID) ref l.protocol g → s.handler.Agrees l g

variable {s : Site} {now : Int} {added : List Member} {l : Live}

/-- A session that holds now was found to hold with all memberships. -/
theorem heldWith_of_holds (h : s.handler.Holds now l) : s.HeldWith now added l :=
  ⟨s.members, fun _ hm => hm, fun _ hm _ => hm, h⟩

/-- **Memberships added since.** A session found to hold before them holds now
exactly when each grant gained through them agrees with it. -/
theorem holds_iff_gainsAgree (h : s.HeldWith now added l) :
    s.handler.Holds now l ↔ s.GainsAgree added l := by
  obtain ⟨checked, hsub, hrest, hheld⟩ := h
  obtain ⟨ref, -, href, -, -, -⟩ := id hheld
  have href' : s.handler.sessionRef l.sessionID = .ok ref := href
  constructor
  · intro hholds ref' href'' g _ hdecides
    cases href''.symm.trans href'
    exact ((Handler.holds_iff_decides href' rfl).mp hholds).2.2 g hdecides
  · intro hagree
    refine (Handler.holds_gained_iff href rfl href' rfl rfl rfl (fun g => offers_mono hsub)
      hheld).mpr ?_
    intro g hoffered hnot hdecides
    refine hagree ref href' g ⟨hoffered, fun hwithout => hnot ?_⟩ hdecides
    -- what the rows not added offer was offered when the session was found to hold
    refine offers_mono (fun gid hm => ?_) hwithout
    obtain ⟨hmem, hnew⟩ := mem_filter.mp hm
    exact hrest gid hmem (of_decide_eq_true hnew)

end Site

end Zanskar
