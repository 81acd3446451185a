import Zanskar.Group.Members
import Zanskar.Lib.Fold

/-!
# Membership changes (`internal/idp/idp.go`, `internal/group/handlers.go`)

At every sign-in `syncGroups` brings the user's mapped memberships in line with the
groups the provider asserts: it goes through the mapping in the order of its keys,
puts the user into a group or takes them out of it, and re-checks their live
sessions after each removal. A group that cannot be changed is left as it is.

`Site.change` is a membership change of either kind, the console's or a sign-in's.
`change_holds_iff` says which live sessions still hold after one. The loop's
invariant is `HeldWith` for every session: an add leaves what the sessions were last
found to hold with, and a removal is followed by a re-check, so that the sessions of
the user left running hold with the table as it then is.

`syncGroups_agrees_iff` says when the memberships come out as asserted. Each name of
a group adds or removes on its own, so of several names of one group the last in
order decides (`first_of_two_names_is_undone`).
-/

namespace Zanskar

open Go Lib List

/-! ## Asserted groups -/

/-- What a provider asserts of a user's groups: their names, and from a directory
their distinguished names. -/
structure Identity where
  groups : List String
  groupDNs : List String

/-- The library functions that group names are compared with: `strings.ToLower`,
and the directory's distinguished names. -/
structure NameRules where
  toLower : String → String
  DN : Type
  parseDN : String → Option DN
  /-- `want.EqualFold`. -/
  equalFold : DN → DN → Bool

/-- `GroupMapping`: the group of each external name, in the order of the names. -/
abbrev GroupMapping := Std.ExtTreeMap String String

/-- `holds`: the asserted groups include the mapping key. -/
def holds (rules : NameRules) (key : String) (names : List String) (dns : List rules.DN) : Bool :=
  if key.toList.contains '=' then
    match rules.parseDN key with
    | none => false
    | some want => dns.any (rules.equalFold want)
  else names.contains (rules.toLower key)

/-- The mapped groups in the order of their keys, each with whether it is
asserted. -/
def mappedGroups (rules : NameRules) (mapping : GroupMapping) (id : Identity) :
    List (String × Bool) :=
  mapping.toList.map fun entry =>
    (entry.2, holds rules entry.1 (id.groups.map rules.toLower)
      (id.groupDNs.filterMap rules.parseDN))

/-! ## The loop -/

/-- The memberships as the loop changes them. -/
structure Memberships where
  members : List Member
  /-- The groups the user is in. -/
  before : List String
  groupsAdded : List String
  groupsRemoved : List String

/-- What the loop does about one mapped group, with the table after it. -/
inductive SyncOp where
  | keep
  | add (members : List Member)
  | remove (members : List Member)

/-- The user is put in where the group is asserted and they are not in it, and
taken out where it is not asserted and they are. -/
def Memberships.op (t : Memberships) (s : Site) (userID gid : String) (asserted : Bool) : SyncOp :=
  if asserted then
    if t.before.contains gid then .keep
    else
      match GroupRepo.addMember s.groups (fun id => (s.users id).isSome) t.members gid userID with
      | .error _ => .keep
      | .ok members => .add members
  else if t.before.contains gid then
    match GroupRepo.removeMember s.groups t.members gid userID with
    | .error _ => .keep
    | .ok members => .remove members
  else .keep

/-- What the loop records of it. -/
def Memberships.record (t : Memberships) (gid : String) : SyncOp → Memberships
  | .keep => t
  | .add members =>
    { t with
      members := members
      before := gid :: t.before
      groupsAdded := t.groupsAdded ++ [gid] }
  | .remove members =>
    { t with
      members := members
      before := t.before.filter fun id => id ≠ gid
      groupsRemoved := t.groupsRemoved ++ [gid] }

variable {gid userID : String} {t : Memberships}

/-- What the loop does: nothing only where the membership is as asserted, or cannot be
changed. -/
theorem Memberships.op_spec (s : Site) (userID gid : String) (asserted : Bool) :
    match t.op s userID gid asserted with
    | .keep => (s.users userID).isSome → (GroupRepo.editable s.groups gid).isOk →
        (asserted ↔ gid ∈ t.before)
    | .add members => ((GroupRepo.editable s.groups gid).isOk ∧ asserted) ∧
        ∀ m, m ∈ members ↔ m ∈ t.members ∨ m = ⟨gid, userID⟩
    | .remove members => ((GroupRepo.editable s.groups gid).isOk ∧ asserted = false) ∧
        ∀ m, m ∈ members ↔ m ∈ t.members ∧ m ≠ ⟨gid, userID⟩ := by
  unfold op GroupRepo.addMember GroupRepo.removeMember
  by_cases hin : gid ∈ t.before <;> cases asserted <;>
    simp only [contains_iff_mem, hin, if_true, if_false, Bool.false_eq_true]
  · cases GroupRepo.editable s.groups gid <;> simp [Except.isOk, Except.toBool]
  · simp
  · simp
  · cases GroupRepo.editable s.groups gid
    · simp [Except.isOk, Except.toBool]
    · by_cases hrow : ⟨gid, userID⟩ ∈ t.members
      · simp [hrow, Except.isOk, Except.toBool]
      · by_cases huser : (s.users userID).isSome <;>
          simp [hrow, huser, Except.isOk, Except.toBool]

/-- One mapped group, sessions aside. -/
def Memberships.step (t : Memberships) (s : Site) (userID : String) (group : String × Bool) :
    Memberships :=
  t.record group.1 (t.op s userID group.1 group.2)

/-- The loop's state: the memberships, and the live sessions. -/
structure Syncing where
  table : Memberships
  registry : Registry

/-- The body of the loop: a removal is followed by a re-check of the user. -/
def Syncing.step (st : Syncing) (s : Site) (userID : String) (now : Int)
    (group : String × Bool) : Syncing where
  table := st.table.step s userID group
  registry :=
    match st.table.op s userID group.1 group.2 with
    | .remove members =>
      (Site.handler { s with members := members }).recheck [userID] now st.registry
    | _ => st.registry

/-- The loop's copy of the memberships is the table's. -/
def Memberships.Synced (t : Memberships) (userID : String) : Prop :=
  ∀ gid, gid ∈ t.before ↔ ⟨gid, userID⟩ ∈ t.members

namespace Site

/-- The memberships the loop begins with. -/
def memberships (s : Site) (userID : String) : Memberships :=
  ⟨s.members, GroupRepo.groupIDsForUser s.members userID, [], []⟩

/-- `syncGroups`. -/
def syncGroups (s : Site) (rules : NameRules) (now : Int) (mapping : GroupMapping) (id : Identity)
    (userID : String) : Syncing :=
  (mappedGroups rules mapping id).foldl (fun st group => st.step s userID now group)
    ⟨s.memberships userID, s.registry⟩

/-! ## Membership changes -/

/-- A change of memberships: an administrator's, or a sign-in's. -/
inductive MembershipChange where
  | setMembers (groupID : String) (userIDs : Option (List String))
  | syncGroups (mapping : GroupMapping) (id : Identity) (userID : String)

/-- A change with its re-checks. -/
def change (s : Site) (rules : NameRules) (now : Int) : MembershipChange → Site
  | .setMembers groupID userIDs => (s.setMembers now groupID userIDs).1
  | .syncGroups mapping id userID =>
    let st := s.syncGroups rules now mapping id userID
    { s with members := st.table.members, registry := st.registry }

/-- What a change does to the table: the rows after it, and the rows it added. -/
structure Outcome where
  members : List Member
  added : List Member

/-- The table after a change that is asked for, sessions aside. -/
def outcome (s : Site) (rules : NameRules) : MembershipChange → Outcome
  | .setMembers _ none => ⟨s.members, []⟩
  | .setMembers groupID (some userIDs) =>
    let rows := (GroupRepo.newMembers s.members groupID userIDs).map fun id => ⟨groupID, id⟩
    if GroupRepo.acceptsMembers s.groups (fun id => (s.users id).isSome) s.members groupID
      userIDs then ⟨GroupRepo.keptRows s.members groupID userIDs ++ rows, rows⟩
    else ⟨s.members, []⟩
  | .syncGroups mapping id userID =>
    let t := (mappedGroups rules mapping id).foldl (fun t group => t.step s userID group)
      (s.memberships userID)
    ⟨t.members, t.groupsAdded.map fun gid => ⟨gid, userID⟩⟩

variable {s : Site} {rules : NameRules} {now : Int} {l : Live} {groupID : String}
  {userIDs : List String}

/-- The sessions aside, the loop is the loop over the memberships. -/
theorem table_syncGroups (mapping : GroupMapping) (id : Identity) :
    (s.syncGroups rules now mapping id userID).table =
      (mappedGroups rules mapping id).foldl (fun t group => t.step s userID group)
        (s.memberships userID) := by
  unfold syncGroups
  exact (foldl_hom Syncing.table fun st group => rfl).symm

/-- A set that is accepted, or not, against its outcome. -/
theorem outcome_of_ok {r : MembersSet}
    (h : GroupRepo.setMembers s.groups (fun id => (s.users id).isSome) s.members groupID userIDs =
      .ok r) :
    s.outcome rules (.setMembers groupID (some userIDs)) =
      ⟨r.members, r.added.map fun id => ⟨groupID, id⟩⟩ := by
  obtain ⟨haccepts, hadded, hmembers⟩ := GroupRepo.setMembers_eq_ok h
  simp [outcome, haccepts, hadded, hmembers]

theorem outcome_of_error {e : GroupError}
    (h : GroupRepo.setMembers s.groups (fun id => (s.users id).isSome) s.members groupID userIDs =
      .error e) :
    s.outcome rules (.setMembers groupID (some userIDs)) = ⟨s.members, []⟩ := by
  simp [outcome, GroupRepo.setMembers_eq_error h]

/-- The handler after a change is the one over the table of its outcome. -/
theorem handler_change (c : MembershipChange) :
    (s.change rules now c).handler = handler { s with members := (s.outcome rules c).members } := by
  cases c with
  | setMembers groupID userIDs =>
    cases userIDs with
    | none => rfl
    | some ids =>
      simp only [change, setMembers]
      cases hset : GroupRepo.setMembers s.groups (fun id => (s.users id).isSome) s.members groupID
          ids with
      | error e =>
        rw [outcome_of_error hset]
      | ok r =>
        rw [outcome_of_ok hset]
        dsimp only
        split <;> rfl
  | syncGroups mapping id userID =>
    show handler { s with members := (s.syncGroups rules now mapping id userID).table.members } = _
    rw [table_syncGroups]
    rfl

/-! ## Which sessions a change leaves holding -/

/-- A set of members: the sessions of the members taken out are re-checked, and the
others keep the memberships they held with. -/
theorem heldWith_setMembers {userIDs : Option (List String)}
    (h : s.Holding now) (hl : l ∈ (s.setMembers now groupID userIDs).1.registry.running) :
    HeldWith { s with members := (s.outcome rules (.setMembers groupID userIDs)).members } now
      (s.outcome rules (.setMembers groupID userIDs)).added l := by
  cases userIDs with
  | none => exact heldWith_of_holds (h l hl)
  | some ids =>
    simp only [setMembers] at hl
    cases hset : GroupRepo.setMembers s.groups (fun id => (s.users id).isSome) s.members groupID
        ids with
    | error e =>
      rw [hset] at hl
      rw [outcome_of_error hset]
      exact heldWith_of_holds (h l hl)
    | ok r =>
      rw [hset] at hl
      rw [outcome_of_ok hset]
      have hrecheck : l ∈ s.registry.running ∧ (l.userID ∈ r.removed →
          (handler { s with members := r.members }).withdraws now l = false) := by
        dsimp only at hl
        split at hl
        · rename_i hnone
          rw [hnone]
          exact ⟨hl, fun hin => absurd hin not_mem_nil⟩
        · exact Handler.mem_running_recheck.mp hl
      obtain ⟨hrun, hkept⟩ := hrecheck
      by_cases hout : l.userID ∈ r.removed
      · obtain ⟨ref, -, href, -, -, -⟩ := h l hrun
        exact heldWith_of_holds
          (holds_of_not_withdrawn (s := { s with members := r.members }) href (hkept hout))
      · -- none of its user's rows was taken out, and any that is new was added
        refine ⟨s.members, fun gid hm => ?_, fun gid hm hnew => ?_, h l hrun⟩
        · by_contra hgone
          exact hout (GroupRepo.mem_removed_of_setMembers hset hm hgone)
        · exact (GroupRepo.mem_of_mem_setMembers hset hm).resolve_right hnew

/-- Every live session was found to hold with some of its user's memberships, and
the others are rows the loop added: the loop's invariant. -/
def SyncInv (s : Site) (userID : String) (now : Int) (st : Syncing) : Prop :=
  ∀ l ∈ st.registry.running, HeldWith { s with members := st.table.members } now
    (st.table.groupsAdded.map fun gid => ⟨gid, userID⟩) l

/-- **One mapped group** keeps the invariant. -/
theorem step_syncInv {st : Syncing} (group : String × Bool)
    (h : s.SyncInv userID now st) : s.SyncInv userID now (st.step s userID now group) := by
  obtain ⟨gid, asserted⟩ := group
  intro l hl
  have hspec := st.table.op_spec s userID gid asserted
  cases hop : st.table.op s userID gid asserted <;> rw [hop] at hspec <;>
    simp only [Syncing.step, Memberships.step, hop, Memberships.record] at hl ⊢
  case keep => exact h l hl
  case add members =>
    obtain ⟨-, hrows⟩ := hspec
    -- the session was found to hold with what it was found to hold with before
    obtain ⟨checked, hsub, hrest, hheld⟩ := h l hl
    refine ⟨checked, fun id hm => (hrows _).mpr (Or.inl (hsub id hm)), fun id hm hnew => ?_, hheld⟩
    rw [map_append, mem_append, not_or, map_singleton, mem_singleton] at hnew
    exact hrest id (((hrows _).mp hm).resolve_right hnew.2) hnew.1
  case remove members =>
    obtain ⟨-, hrows⟩ := hspec
    obtain ⟨hrun, hkept⟩ := Handler.mem_running_recheck.mp hl
    obtain ⟨checked, hsub, hrest, hheld⟩ := h l hrun
    by_cases huser : l.userID = userID
    · -- the re-check found it to hold with the table as it is
      obtain ⟨ref, -, href, -, -, -⟩ := hheld
      exact heldWith_of_holds (holds_of_not_withdrawn (s := { s with members := members }) href
        (hkept (mem_singleton.mpr huser)))
    · -- the removal is not of its user
      refine ⟨checked, fun id hm => ?_, fun id hm hnew => ?_, hheld⟩
      · exact (hrows _).mpr ⟨hsub id hm, fun heq => huser (congrArg Member.userID heq)⟩
      · exact hrest id ((hrows _).mp hm).1 hnew

theorem syncGroups_syncInv (h : s.Holding now) (mapping : GroupMapping) (id : Identity) :
    s.SyncInv userID now (s.syncGroups rules now mapping id userID) := by
  unfold syncGroups
  refine foldl_keeps (s.SyncInv userID now) (fun st group _ hst => step_syncInv group hst) ?_
  exact fun l hl => heldWith_of_holds (h l hl)

/-- **Membership changes.** Where every live session is admitted by `AdmitLive` with
switches no broader than the live decision, a session live after a change, an
administrator's or a sign-in's, with its re-checks still is exactly when each grant
that its user gains through the memberships added agrees with it. -/
theorem change_holds_iff {s : Site} {rules : NameRules} {now : Int} {l : Live} (h : s.Holding now)
    (c : MembershipChange) (hl : l ∈ (s.change rules now c).registry.running) :
    (s.change rules now c).handler.Holds now l ↔
      GainsAgree { s with members := (s.outcome rules c).members } (s.outcome rules c).added l := by
  rw [handler_change]
  refine holds_iff_gainsAgree ?_
  cases c with
  | setMembers groupID userIDs => exact heldWith_setMembers h hl
  | syncGroups mapping id userID =>
    have hinv := syncGroups_syncInv h mapping id l hl
    rw [table_syncGroups] at hinv
    exact hinv

/-! ## Who is a member afterwards -/

variable {mapping : GroupMapping} {id : Identity}

/-- The mapped group is the one meant, and can be edited. -/
def reaches (s : Site) (gid : String) (group : String × Bool) : Bool :=
  group.1 = gid && (GroupRepo.editable s.groups gid).isOk

/-- A mapped group that can be edited gets what its name asserts; the others stay. -/
theorem step_spec (huser : (s.users userID).isSome) (h : t.Synced userID)
    (group : String × Bool) : (t.step s userID group).Synced userID ∧
      ∀ gid, gid ∈ (t.step s userID group).before ↔
        if s.reaches gid group then group.2 = true else gid ∈ t.before := by
  obtain ⟨g, asserted⟩ := group
  have hspec := t.op_spec s userID g asserted
  simp only [Memberships.step, reaches, Bool.and_eq_true, decide_eq_true_eq]
  cases hop : t.op s userID g asserted <;> rw [hop] at hspec
  case keep =>
    refine ⟨h, fun gid => ?_⟩
    split
    · rename_i hreaches
      obtain ⟨rfl, hok⟩ := hreaches
      exact (hspec huser hok).symm
    · rfl
  case add members =>
    obtain ⟨⟨hok, rfl⟩, hrows⟩ := hspec
    refine ⟨fun gid => ?_, fun gid => ?_⟩
    · simp [Memberships.record, hrows, h gid, or_comm]
    · rcases eq_or_ne gid g with rfl | hne
      · simp [Memberships.record, hok]
      · simp [Memberships.record, hne, hne.symm]
  case remove members =>
    obtain ⟨⟨hok, rfl⟩, hrows⟩ := hspec
    refine ⟨fun gid => ?_, fun gid => ?_⟩
    · simp [Memberships.record, hrows, h gid]
    · rcases eq_or_ne gid g with rfl | hne
      · simp [Memberships.record, hok]
      · simp [Memberships.record, hne, hne.symm]

/-- After the loop: what the last name of the group asserts, or what was before. -/
theorem mem_syncGroups (huser : (s.users userID).isSome) :
    ⟨gid, userID⟩ ∈ (s.syncGroups rules now mapping id userID).table.members ↔
      ((mappedGroups rules mapping id).reverse.find? (s.reaches gid)).elim
        (⟨gid, userID⟩ ∈ s.members) (·.2) := by
  have hloop : ∀ groups : List (String × Bool),
      (groups.foldl (fun t group => t.step s userID group) (s.memberships userID)).Synced userID ∧
        ∀ gid, gid ∈ (groups.foldl (fun t group => t.step s userID group)
          (s.memberships userID)).before ↔
            (groups.reverse.find? (s.reaches gid)).elim (⟨gid, userID⟩ ∈ s.members) (·.2) := by
    intro groups
    induction groups using List.reverseRecOn with
    | nil =>
      have hstart : (s.memberships userID).Synced userID := fun gid => by
        simp only [memberships, GroupRepo.groupIDsForUser, mem_map, mem_filter, decide_eq_true_eq]
        constructor
        · rintro ⟨m, ⟨hm, rfl⟩, rfl⟩
          exact hm
        · exact fun hm => ⟨_, ⟨hm, rfl⟩, rfl⟩
      exact ⟨hstart, hstart⟩
    | append_singleton groups group ih =>
      obtain ⟨hsynced, hbefore⟩ := step_spec huser ih.1 group
      rw [foldl_concat]
      refine ⟨hsynced, fun gid => ?_⟩
      rw [hbefore, reverse_append, reverse_singleton, singleton_append, find?_cons, ih.2 gid]
      cases s.reaches gid group <;> rfl
  rw [table_syncGroups, ← (hloop _).1 gid, (hloop _).2 gid]

/-- **The last name of a group decides.** After a sign-in the user is a member of the
mapped groups of which a name is asserted, and of the others as before, exactly when:
of the names of a group that can be edited, the last is asserted if any is, and the
user was in a group that cannot be edited just if one of its names is asserted. -/
theorem syncGroups_agrees_iff (huser : (s.users userID).isSome) :
    ((∀ gid asserted, (gid, asserted) ∈ mappedGroups rules mapping id →
        (⟨gid, userID⟩ ∈ (s.syncGroups rules now mapping id userID).table.members ↔
          (gid, true) ∈ mappedGroups rules mapping id)) ∧
      ∀ gid, (∀ asserted, (gid, asserted) ∉ mappedGroups rules mapping id) →
        (⟨gid, userID⟩ ∈ (s.syncGroups rules now mapping id userID).table.members ↔
          ⟨gid, userID⟩ ∈ s.members)) ↔
      ∀ gid asserted, (gid, asserted) ∈ mappedGroups rules mapping id →
        if (GroupRepo.editable s.groups gid).isOk then
          (gid, true) ∈ mappedGroups rules mapping id →
            (mappedGroups rules mapping id).reverse.find? (·.1 = gid) = some (gid, true)
        else ⟨gid, userID⟩ ∈ s.members ↔ (gid, true) ∈ mappedGroups rules mapping id := by
  simp only [mem_syncGroups huser]
  generalize mappedGroups rules mapping id = groups
  have hrest : ∀ gid, (∀ asserted, (gid, asserted) ∉ groups) →
      groups.reverse.find? (s.reaches gid) = none := by
    refine fun gid hgid => find?_eq_none.mpr fun group hgroup hreaches => ?_
    simp only [reaches, Bool.and_eq_true, decide_eq_true_eq] at hreaches
    exact hgid group.2 (hreaches.1 ▸ mem_reverse.mp hgroup)
  rw [and_iff_left fun gid hgid => by rw [hrest gid hgid]; rfl]
  refine forall₃_congr fun gid asserted hmem => ?_
  cases hok : (GroupRepo.editable s.groups gid).isOk with
  | true =>
    have hreaches : s.reaches gid = fun group => decide (group.1 = gid) := by
      simp [funext_iff, reaches, hok]
    -- of the calls about the group the last one stands
    obtain ⟨⟨_, last⟩, hlast⟩ : ∃ group, groups.reverse.find? (·.1 = gid) = some group :=
      Option.isSome_iff_exists.mp (find?_isSome.mpr ⟨_, mem_reverse.mpr hmem, by simp⟩)
    obtain rfl : _ = gid := by simpa using find?_some hlast
    have hin := mem_reverse.mp (mem_of_find?_eq_some hlast)
    rw [hreaches, hlast, if_pos rfl]
    cases last
    · simp
    · simp [hin]
  | false =>
    -- no call gets through to a group that cannot be edited
    have hreaches : s.reaches gid = fun _ => false := by simp [funext_iff, reaches, hok]
    rw [hreaches, find?_eq_none.mpr (by simp)]
    simp

end Site

/-! ## A member put into a stricter group -/

/-- A policy of the group `staff` on the host of `officePolicy`. -/
def staffPolicy (clipboard : Bool) : Policy :=
  { officePolicy true true with
    id := "q"
    name := "q"
    subjects := [⟨.group, "staff"⟩]
    grants := [windowGrant clipboard []] }

/-- The gateway of `smallSite` with that group, which `u` is not in. -/
def staffSite (clipboard : Bool) : Site :=
  { smallSite with
    policies := ⟨[officePolicy true true, staffPolicy clipboard], by simp [officePolicy, staffPolicy]⟩
    groups := [⟨"staff", ""⟩] }

/-- Names without a directory. -/
def plainNames : NameRules := ⟨toLower, Unit, fun _ => none, fun _ _ => false⟩

theorem staffSite_holding (clipboard : Bool) : (staffSite clipboard).Holding 0 := by
  intro l hl
  obtain rfl : l = officeSession true := mem_singleton.mp hl
  exact ⟨_, _, rfl, rfl, rfl, rfl⟩

/-- The session of `u` runs with the clipboard. The group's policy has it off, and
`u` is put into the group, by an administrator or by a sign-in: the session runs on
with a switch the live decision has off. -/
theorem added_member_keeps_clipboard :
    (staffSite false).Holding 0 ∧
      ∀ c ∈ [Site.MembershipChange.setMembers "staff" (some ["u"]),
          .syncGroups (Std.ExtTreeMap.ofList [("employees", "staff")]) ⟨["Employees"], []⟩ "u"],
        officeSession true ∈ ((staffSite false).change plainNames 0 c).registry.running ∧
          ¬ ((staffSite false).change plainNames 0 c).handler.Holds 0 (officeSession true) := by
  refine ⟨staffSite_holding false, ?_⟩
  intro c hc
  have hwithdrawn : ((staffSite false).change plainNames 0 c).handler.withdraws 0
      (officeSession true) ∧
      ((staffSite false).change plainNames 0 c).registry.running = [officeSession true] := by
    rcases mem_cons.mp hc with rfl | htail
    · exact ⟨rfl, rfl⟩
    · obtain rfl := mem_singleton.mp htail
      exact ⟨rfl, rfl⟩
  rw [hwithdrawn.2]
  refine ⟨mem_singleton_self _, fun hholds => ?_⟩
  rw [Handler.withdraws_of_holds hholds] at hwithdrawn
  cases hwithdrawn.1

/-- With the clipboard on in the group's policy too, the grant gained agrees. -/
theorem added_member_agrees :
    (staffSite true).Holding 0 ∧
      Site.GainsAgree
        { staffSite true with
          members := ((staffSite true).outcome plainNames
            (.setMembers "staff" (some ["u"]))).members }
        ((staffSite true).outcome plainNames (.setMembers "staff" (some ["u"]))).added
        (officeSession true) := by
  have hlive : officeSession true ∈
      ((staffSite true).change plainNames 0 (.setMembers "staff" (some ["u"]))).registry.running :=
    mem_singleton_self _
  have hholds : ((staffSite true).change plainNames 0
      (.setMembers "staff" (some ["u"]))).handler.Holds 0 (officeSession true) :=
    ⟨_, _, rfl, rfl, rfl, rfl⟩
  exact ⟨staffSite_holding true, (Site.change_holds_iff (staffSite_holding true) _ hlive).mp hholds⟩

/-! ## Two names of one group -/

/-- A mapping with these names of the group `staff`. -/
def staffNames (names : List String) : GroupMapping :=
  Std.ExtTreeMap.ofList (names.map (·, "staff"))

/-- The provider asserts `a` and not `b`: the first name puts `u` in, and the second
takes them out again. -/
theorem first_of_two_names_is_undone :
    ("staff", true) ∈ mappedGroups plainNames (staffNames ["a", "b"]) ⟨["a"], []⟩ ∧
      ⟨"staff", "u"⟩ ∉ ((staffSite true).syncGroups plainNames 0 (staffNames ["a", "b"])
        ⟨["a"], []⟩ "u").table.members :=
  ⟨by decide, by decide⟩

/-- With one name the group is as asserted. -/
theorem one_name_is_followed : ((staffSite true).users "u").isSome ∧
    ⟨"staff", "u"⟩ ∈ ((staffSite true).syncGroups plainNames 0 (staffNames ["a"])
      ⟨["a"], []⟩ "u").table.members := by
  have hmapped : mappedGroups plainNames (staffNames ["a"]) ⟨["a"], []⟩ = [("staff", true)] := rfl
  refine ⟨rfl, (((Site.syncGroups_agrees_iff rfl).mpr ?_).1 "staff" true ?_).mpr ?_⟩
  · rw [hmapped]
    intro gid asserted hin
    cases mem_singleton.mp hin
    exact (if_pos rfl).mpr fun _ => rfl
  all_goals exact hmapped ▸ mem_singleton_self _

end Zanskar
