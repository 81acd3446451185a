import Zanskar.Lib.Table
import Zanskar.Policy.Validate

/-!
# The policy repository (`internal/policy/repo.go`)

The tables `access_policies` and `access_policy_subjects`, as rows that carry
their subjects in the order a read gives them, and `group_members`. The statements
of the repository are functions on them.

Two reads must agree for a change to be safe: `forUser`, whose policies the gate
evaluates for a user, and `usersCovered`, whose users a change re-checks. Both
follow direct subjects and group membership. `mem_usersCovered` puts them side by
side, and the `offers_` lemmas say what each write changes.
-/

namespace Zanskar

open Go Lib List

/-- A row of `group_members`. -/
structure Member where
  groupID : String
  userID : String
  deriving DecidableEq

/-- The table `access_policies`. -/
abbrev Policies := Table Policy.id

/-- What a write reads besides the policy: which subjects exist, for the foreign
keys, and the ids drawn for it. -/
structure WriteContext where
  zones : Zones
  /-- The group or user exists. -/
  exists_ : Subject → Bool
  /-- `store.NewID`, for the policy. -/
  policyID : String
  /-- `store.NewID`, for the grant at a position. -/
  grantID : Nat → String
  now : Int

/-- The order of `attachSubjects`: groups first, each kind by id. -/
def Subject.before (s t : Subject) : Bool :=
  if s.kind = t.kind then s.id ≤ t.id else s.kind = .group

/-- A subject as a read returns it: a row holds a group's id, or else a user's. -/
def Subject.read (s : Subject) : Subject := if s.kind = .group then s else ⟨.user, s.id⟩

/-- The subjects in the order a read returns them. -/
def readOrder (subjects : List Subject) : List Subject :=
  subjects.insertionSort fun s t => s.before t = true

variable {g : Grant} {s : Subject}

theorem mem_readOrder {subjects : List Subject} : s ∈ readOrder subjects ↔ s ∈ subjects := by
  simp [readOrder]

/-- `encodeGrants`, from the grant at a position on: every grant without an id gets
one. -/
def encodeFrom (grantID : Nat → String) : Nat → List Grant → List Grant
  | _, [] => []
  | i, g :: gs =>
    (if g.id = "" then { g with id := grantID i } else g) :: encodeFrom grantID (i + 1) gs

/-- `encodeGrants`. -/
def encodeGrants (grantID : Nat → String) (grants : List Grant) : List Grant :=
  encodeFrom grantID 0 grants

variable {zones : Zones} {row : Policy} {members : List Member} {p : Policy} {userID : String}

/-- The error of `writeSubjects` for a subject that is not there. -/
def unknownSubject (s : Subject) : PolicyError :=
  ⟨.unknownSubject, "policy: invalid input: subject not found: " ++ s.kind.text ++ " " ++ s.id ++
    " not found"⟩

def errDuplicate : PolicyError := ⟨.duplicate, "policy: name already exists"⟩

def errNotFound : PolicyError := ⟨.notFound, "policy: not found"⟩

namespace Repo

/-- `writeSubjects`: the foreign keys. -/
def subjectsError (ctx : WriteContext) (subjects : List Subject) : Option PolicyError :=
  (subjects.find? fun s => !ctx.exists_ s).map unknownSubject

/-- The row of a new policy. -/
def newRow (p : Policy) : Policy :=
  { p with
    subjects := readOrder p.subjects
    createdAt := timeArg p.createdAt
    updatedAt := timeArg p.updatedAt
    reviewedAt := none
    reviewedBy := "" }

/-- `Create`: the policy with its ids and timestamps, and the table. -/
def create (tbl : Policies) (ctx : WriteContext) (p : Policy) :
    Except PolicyError (Policy × Policies) :=
  match p.validate ctx.zones with
  | .error e => .error e
  | .ok valid =>
    let p : Policy :=
      { valid with
        id := ctx.policyID
        grants := encodeGrants ctx.grantID valid.grants
        createdAt := ctx.now
        updatedAt := ctx.now }
    -- the unique index on the name
    if tbl.rows.any fun q => q.name = p.name then .error errDuplicate
    else
      match tbl.insert (newRow p) with
      | none => .error errDuplicate
      | some tbl =>
        -- the transaction is rolled back where a subject is not there
        match subjectsError ctx p.subjects with
        | some e => .error e
        | none => .ok (p, tbl)

/-- What `Update` writes over a row: every editable field, the subjects included. -/
def overwrite (p row : Policy) : Policy :=
  { row with
    name := p.name
    description := p.description
    enabled := p.enabled
    grants := p.grants
    updatedAt := timeArg p.updatedAt
    subjects := readOrder p.subjects }

/-- `Update`: the policy with the ids of its new grants, and the table. -/
def update (tbl : Policies) (ctx : WriteContext) (p : Policy) :
    Except PolicyError (Policy × Policies) :=
  match p.validate ctx.zones with
  | .error e => .error e
  | .ok valid =>
    let p : Policy :=
      { valid with
        grants := encodeGrants ctx.grantID valid.grants
        updatedAt := ctx.now }
    match tbl.get p.id with
    | none => .error errNotFound
    | some _ =>
      if tbl.rows.any fun q => q.id ≠ p.id && q.name = p.name then .error errDuplicate
      else
        match subjectsError ctx p.subjects with
        | some e => .error e
        | none => .ok (p, tbl.update (fun r => r.id = p.id) (overwrite p) fun _ => rfl)

/-- `Get`. -/
def get (tbl : Policies) (id : String) : Option Policy :=
  (Table.get tbl id).map fun p => { p with subjects := p.subjects.map Subject.read }

/-- `Delete`. -/
def delete (tbl : Policies) (id : String) : Except PolicyError Policies :=
  match tbl.get id with
  | none => .error errNotFound
  | some _ => .ok (tbl.delete fun r => r.id = id)

/-- `Reviewed`: stamps the policy's access review. -/
def reviewed (tbl : Policies) (id reviewerID : String) (at_ : Int) : Except PolicyError Policies :=
  match tbl.get id with
  | none => .error errNotFound
  | some _ =>
    .ok (tbl.update (fun r => r.id = id)
      (fun r => { r with reviewedAt := some (timeArg at_), reviewedBy := reviewerID })
      fun _ => rfl)

end Repo

/-! ## Who a policy reaches -/

/-- The subject's row reaches the user, directly or through a group: a row's
`group_id` is set for a group, its `user_id` for anything else. -/
def Subject.reaches (members : List Member) (userID : String) (s : Subject) : Bool :=
  if s.kind = .group then members.contains ⟨s.id, userID⟩ else s.id = userID

/-- One of the policy's subjects reaches the user. -/
def Policy.reaches (members : List Member) (userID : String) (p : Policy) : Bool :=
  p.subjects.any (Subject.reaches members userID)

/-- `ForUser`: the enabled policies that apply to the user, in name order. -/
def forUser (tbl : Policies) (members : List Member) (userID : String) : List Policy :=
  (tbl.rows.filter fun p => p.enabled && p.reaches members userID).insertionSort
    fun p q => p.name ≤ q.name

/-- `UsersCovered`: the users named, and every member of the groups named, sorted
and once each. A subject that is no user counts as a group. -/
def usersCovered (members : List Member) (subjects : List Subject) : List String :=
  let named := (subjects.filter fun s => s.kind = .user).map Subject.id
  let groups := (subjects.filter fun s => s.kind ≠ .user).map Subject.id
  let through := (members.filter fun m => groups.contains m.groupID).map Member.userID
  (named ++ through).dedup.insertionSort (· ≤ ·)

theorem mem_forUser {tbl : Policies} :
    p ∈ forUser tbl members userID ↔
      p ∈ tbl.rows ∧ p.enabled ∧ p.reaches members userID := by
  simp [forUser]

variable {subjects : List Subject}

/-- Who is covered: the users named, and the members of what is no user. -/
theorem mem_usersCovered_iff :
    userID ∈ usersCovered members subjects ↔
      ∃ s ∈ subjects, (s.kind = .user ∧ s.id = userID) ∨
        (s.kind ≠ .user ∧ ⟨s.id, userID⟩ ∈ members) := by
  unfold usersCovered
  simp only [mem_insertionSort, mem_dedup, mem_append, mem_map, mem_filter,
    contains_iff_mem, decide_eq_true_eq]
  constructor
  · rintro (⟨s, ⟨hs, hkind⟩, hid⟩ | ⟨m, ⟨hm, s, ⟨hs, hkind⟩, hgroup⟩, rfl⟩)
    · exact ⟨s, hs, .inl ⟨hkind, hid⟩⟩
    · exact ⟨s, hs, .inr ⟨hkind, hgroup ▸ hm⟩⟩
  · rintro ⟨s, hs, ⟨hkind, hid⟩ | ⟨hkind, hm⟩⟩
    · exact .inl ⟨s, ⟨hs, hkind⟩, hid⟩
    · exact .inr ⟨_, ⟨hm, s, ⟨hs, hkind⟩, rfl⟩, rfl⟩

theorem usersCovered_mono {more : List Subject} (hsub : ∀ s ∈ subjects, s ∈ more)
    (h : userID ∈ usersCovered members subjects) : userID ∈ usersCovered members more := by
  obtain ⟨s, hs, hcase⟩ := mem_usersCovered_iff.mp h
  exact mem_usersCovered_iff.mpr ⟨s, hsub s hs, hcase⟩

/-- **The two reads agree**: the users covered by groups and users are those whom
one of them reaches. -/
theorem mem_usersCovered (hkinds : ∀ s ∈ subjects, s.kind = .group ∨ s.kind = .user) :
    userID ∈ usersCovered members subjects ↔
      ∃ s ∈ subjects, s.reaches members userID := by
  rw [mem_usersCovered_iff]
  refine exists_congr fun s => and_congr_right fun hs => ?_
  unfold Subject.reaches
  rcases hkinds s hs with hk | hk <;> simp [hk]

/-! ## What a write changes for a user -/

theorem offers_forUser {tbl : Policies} :
    Offers (forUser tbl members userID) g ↔
      ∃ p ∈ tbl.rows, p.enabled ∧ p.reaches members userID ∧ g ∈ p.grants := by
  constructor
  · rintro ⟨p, hp, hen, hg⟩
    obtain ⟨hrow, -, hreach⟩ := mem_forUser.mp hp
    exact ⟨p, hrow, hen, hreach, hg⟩
  · rintro ⟨p, hrow, hen, hreach, hg⟩
    exact ⟨p, mem_forUser.mpr ⟨hrow, hen, hreach⟩, hen, hg⟩

/-- A policy reaches a user through its subjects, in whatever order. -/
theorem reaches_eq_true :
    p.reaches members userID ↔ ∃ s ∈ p.subjects, s.reaches members userID := by
  simp [Policy.reaches]

/-- A subject as read reaches whom its row does, and is a group or a user. -/
theorem Subject.reaches_read : s.read.reaches members userID = s.reaches members userID := by
  unfold Subject.read
  split
  · rfl
  · rename_i hkind
    rw [Subject.reaches, Subject.reaches, if_neg (by simp), if_neg hkind]

theorem Subject.kind_read : s.read.kind = .group ∨ s.read.kind = .user := by
  unfold Subject.read
  split
  · rename_i hkind
    exact .inl hkind
  · exact .inr rfl

namespace Repo

variable {tbl tbl' : Policies} {ctx : WriteContext} {p p' : Policy} {members : List Member}
  {userID id : String} {old : Policy} {reviewerID : String} {at_ : Int} {cond : Policy → Bool}

/-- What a `Get` returns is a row, with its subjects as read. -/
theorem get_eq_some (h : get tbl id = some old) :
    ∃ row ∈ tbl.rows, row.id = id ∧ old = { row with subjects := row.subjects.map Subject.read } := by
  obtain ⟨row, hrow, rfl⟩ := Option.map_eq_some_iff.mp h
  obtain ⟨hmem, hid⟩ := Table.mem_of_get hrow
  exact ⟨row, hmem, hid, rfl⟩

/-- The users covered by the subjects a `Get` returns are those the rows under its
id reach. -/
theorem reaches_of_get (h : get tbl id = some old)
    (hnot : userID ∉ usersCovered members old.subjects) :
    ∀ row ∈ tbl.rows, row.id = id → row.reaches members userID = false := by
  intro row' hrow' hid'
  obtain ⟨row, hrow, hid, rfl⟩ := get_eq_some h
  obtain rfl := Table.eq_of_key_eq hrow' hrow (hid'.trans hid.symm)
  rw [mem_usersCovered] at hnot
  · rw [← Bool.not_eq_true, reaches_eq_true]
    rintro ⟨sub, hsub, hreach⟩
    rw [← Subject.reaches_read] at hreach
    exact hnot ⟨sub.read, mem_map_of_mem hsub, hreach⟩
  · intro sub hsub
    obtain ⟨sub₀, -, rfl⟩ := mem_map.mp hsub
    exact Subject.kind_read

theorem create_eq_ok (h : create tbl ctx p = .ok (p', tbl')) :
    ∃ valid, p.validate ctx.zones = .ok valid ∧
      p' = { valid with
        id := ctx.policyID
        grants := encodeGrants ctx.grantID valid.grants
        createdAt := ctx.now
        updatedAt := ctx.now } ∧
      tbl.insert (newRow p') = some tbl' := by
  unfold create at h
  split at h
  · cases h
  rename_i valid hvalid
  dsimp only at h
  split at h
  · cases h
  split at h
  · cases h
  rename_i tbl₁ hinsert
  split at h
  · cases h
  cases h
  exact ⟨valid, hvalid, rfl, hinsert⟩

theorem update_eq_ok (h : update tbl ctx p = .ok (p', tbl')) :
    ∃ valid, p.validate ctx.zones = .ok valid ∧
      p' = { valid with grants := encodeGrants ctx.grantID valid.grants, updatedAt := ctx.now } ∧
      (∃ row, tbl.get p.id = some row) ∧
      tbl' = tbl.update (fun r => r.id = p.id) (overwrite p') (fun _ => rfl) := by
  unfold update at h
  split at h
  · cases h
  rename_i valid hvalid
  have hid : valid.id = p.id := by
    obtain ⟨-, -, -, -, grants, -, rfl⟩ := Policy.validate_eq_ok.mp hvalid
    rfl
  dsimp only at h
  split at h
  · cases h
  rename_i row hrow
  split at h
  · cases h
  split at h
  · cases h
  cases h
  rw [hid] at hrow
  refine ⟨valid, hvalid, rfl, ⟨row, hrow⟩, ?_⟩
  rw [← hid]

theorem delete_eq_ok (h : delete tbl id = .ok tbl') : tbl' = tbl.delete fun r => r.id = id := by
  unfold delete at h
  split at h
  · cases h
  · exact (Except.ok.inj h).symm

theorem reviewed_eq_ok (h : reviewed tbl id reviewerID at_ = .ok tbl') :
    tbl' = tbl.update (fun r => r.id = id)
      (fun r => { r with reviewedAt := some (timeArg at_), reviewedBy := reviewerID })
      (fun _ => rfl) := by
  unfold reviewed at h
  split at h
  · cases h
  · exact (Except.ok.inj h).symm

theorem offers_create (h : create tbl ctx p = .ok (p', tbl'))
    (hnew : ∀ s ∈ p'.subjects, s.reaches members userID = false) :
    Offers (forUser tbl' members userID) g ↔ Offers (forUser tbl members userID) g := by
  obtain ⟨-, -, -, hinsert⟩ := create_eq_ok h
  rw [offers_forUser, offers_forUser]
  constructor
  · rintro ⟨q, hq, hen, hreach, hg⟩
    rcases (Table.mem_insert hinsert).mp hq with hold | rfl
    · exact ⟨q, hold, hen, hreach, hg⟩
    -- the new row reaches the user through none of its subjects
    · obtain ⟨s, hs, hsreach⟩ := reaches_eq_true.mp hreach
      rw [hnew s (mem_readOrder.mp hs)] at hsreach
      cases hsreach
  · rintro ⟨q, hq, rest⟩
    exact ⟨q, (Table.mem_insert hinsert).mpr (.inl hq), rest⟩

/-- A conditional update that concerns nobody whom its rows reach before or after
offers the user what they were. -/
theorem offers_update {set : Policy → Policy} {hid : ∀ r, (set r).id = r.id}
    (hold : ∀ r ∈ tbl.rows, cond r → r.reaches members userID = false)
    (hnew : ∀ r ∈ tbl.rows, cond r → (set r).reaches members userID = false) :
    Offers (forUser (tbl.update cond set hid) members userID) g ↔
      Offers (forUser tbl members userID) g := by
  rw [offers_forUser, offers_forUser]
  refine Table.exists_mem_update_iff fun r hr hc => ?_
  rw [hold r hr hc, hnew r hr hc]
  simp

theorem offers_delete (hold : ∀ r ∈ tbl.rows, cond r → r.reaches members userID = false) :
    Offers (forUser (tbl.delete cond) members userID) g ↔
      Offers (forUser tbl members userID) g := by
  rw [offers_forUser, offers_forUser]
  constructor
  · rintro ⟨q, hq, rest⟩
    exact ⟨q, (Table.mem_delete.mp hq).1, rest⟩
  · rintro ⟨q, hq, hen, hreach, hg⟩
    refine ⟨q, Table.mem_delete.mpr ⟨hq, ?_⟩, hen, hreach, hg⟩
    rw [← Bool.not_eq_true]
    intro hc
    rw [hold q hq hc] at hreach
    cases hreach

theorem offers_reviewed (h : reviewed tbl id reviewerID at_ = .ok tbl') (g : Grant) :
    Offers (forUser tbl' members userID) g ↔ Offers (forUser tbl members userID) g := by
  obtain rfl := reviewed_eq_ok h
  rw [offers_forUser, offers_forUser]
  exact Table.exists_mem_update_iff fun _ _ _ => Iff.rfl

end Repo

end Zanskar
