import Zanskar.Idp.Lifecycle
import Zanskar.Lib.Machine
import Zanskar.User.Admin

/-!
# The last administrator

Four paths can take an active administrator away: `SetRoles`, `Delete`, an
administrator's edit of a status, and the directory's `Lifecycle.Leave`
(`internal/idp/lifecycle.go`). Each has a guard of its own, and in each the guard
reads before the write: a count of the other administrators, or, for the edit, that
the caller is an administrator and not the account. "The last active administrator
is never disabled" is then a property of runs:

- `two_admins_disable_each_other` : two administrators who edit each other at the
  same time leave none;
- `someAdmin_of_calm` : where no write changes who is one between another call's check
  and its write, there is always one.

The count and the write of `SetRoles` are in one transaction: on SQLite nothing
runs between them, on PostgreSQL (read committed) other commits do, so they are two
steps here.
-/

namespace Zanskar

open Go Lib List Option

/-! ## The machine -/

/-- A call between two of its statements. -/
inductive AdminCall where
  /-- `SetRoles` has counted. -/
  | setRoles (id : String) (roles : List Role)
  /-- `Delete` has read an account with admin and is about to count. -/
  | deleting (u : User)
  /-- `Delete` is about to delete. -/
  | delete (id : String)
  /-- The caller of an edit has been let in as an administrator. -/
  | authorized (callerID : String)
  /-- The edit is about to be written. -/
  | update (p : PendingUpdate)
  /-- The account has been read for `Leave`: by the listing of the sync, or by the
  SCIM endpoint. -/
  | leaving (u : User)
  /-- `Leave` is about to disable. -/
  | leave (id : String)
  deriving DecidableEq

structure AdminState where
  users : Users
  calls : List AdminCall

/-- The statements. -/
inductive AdminLabel where
  | setRolesCheck (id : String) (roles : List Role)
  | setRoles (id : String) (roles : List Role) (now : Int)
  | deleteRead (id : String)
  | deleteCount (u : User)
  | delete (id : String)
  | authorize (callerID : String)
  | updateRead (holds : Option ProviderHolds) (callerID id : String) (req : UpdateRequest)
  | update (p : PendingUpdate) (now : Int)
  | leaveRead (id : String)
  | leaveCount (u : User)
  | leave (id : String) (at_ : Int)

variable [Casing] in
/-- One statement. A call that is refused is over. -/
def adminStep (s : AdminState) : AdminLabel → Option AdminState
  | .setRolesCheck id roles =>
    match UserRepo.setRolesCheck s.users id roles with
    | .error _ => some s
    | .ok _ => some { s with calls := .setRoles id roles :: s.calls }
  | .setRoles id roles now =>
    if .setRoles id roles ∈ s.calls then
      some ⟨UserRepo.setRoles s.users now id roles, s.calls.erase (.setRoles id roles)⟩
    else none
  | .deleteRead id =>
    match s.users.get id with
    | none => some s
    | some u =>
      if u.hasRole .admin then some { s with calls := .deleting u :: s.calls }
      else some { s with calls := .delete u.id :: s.calls }
  | .deleteCount u =>
    if .deleting u ∈ s.calls then
      match UserRepo.deleteCheck s.users u with
      | .error _ => some { s with calls := s.calls.erase (.deleting u) }
      | .ok _ => some { s with calls := .delete u.id :: s.calls.erase (.deleting u) }
    else none
  | .delete id =>
    if .delete id ∈ s.calls then
      some ⟨UserRepo.delete s.users id, s.calls.erase (.delete id)⟩
    else none
  | .authorize callerID =>
    if adminCaller s.users callerID then
      some { s with calls := .authorized callerID :: s.calls }
    else some s
  | .updateRead holds callerID id req =>
    if .authorized callerID ∈ s.calls then
      match updateCheck s.users holds callerID id req with
      | .error _ => some { s with calls := s.calls.erase (.authorized callerID) }
      | .ok p => some { s with calls := .update p :: s.calls.erase (.authorized callerID) }
    else none
  | .update p now =>
    if .update p ∈ s.calls then
      match p.write s.users now with
      | .error _ => some { s with calls := s.calls.erase (.update p) }
      | .ok users => some ⟨users, s.calls.erase (.update p)⟩
    else none
  | .leaveRead id =>
    match s.users.get id with
    | none => some s
    | some u => some { s with calls := .leaving u :: s.calls }
  | .leaveCount u =>
    if .leaving u ∈ s.calls then
      if leaveCheck s.users u then
        some { s with calls := .leave u.id :: s.calls.erase (.leaving u) }
      else some { s with calls := s.calls.erase (.leaving u) }
    else none
  | .leave id at_ =>
    if .leave id ∈ s.calls then
      some ⟨UserRepo.disableRemoved s.users id at_, s.calls.erase (.leave id)⟩
    else none

/-! ## What is claimed, and when -/

/-- The account is an active administrator. -/
def IsActiveAdmin (tbl : Users) (id : String) : Prop :=
  ∃ u ∈ tbl.rows, u.id = id ∧ u.activeAdmin = true

/-- There is an active administrator. -/
def SomeAdmin (tbl : Users) : Prop := ∃ id, IsActiveAdmin tbl id

/-- The write makes an account an active administrator or stops it being one. -/
def Shifts (tbl : Users) : AdminLabel → Prop
  | .setRoles id roles _ =>
    ∃ u ∈ tbl.rows, u.id = id ∧ u.status = .active ∧ u.hasRole .admin ≠ roles.contains .admin
  | .delete id => IsActiveAdmin tbl id
  | .update p _ =>
    ∃ u ∈ tbl.rows, u.id = p.existing.id ∧ u.hasRole .admin = true ∧
      (u.status = .active ↔ p.status ≠ .known .active)
  | .leave id _ => IsActiveAdmin tbl id
  | _ => False

/-- The call whose write a label is. -/
def AdminLabel.writes : AdminLabel → Option AdminCall
  | .setRoles id roles _ => some (.setRoles id roles)
  | .delete id => some (.delete id)
  | .update p _ => some (.update p)
  | .leave id _ => some (.leave id)
  | _ => none

/-- A write that changes who is an active administrator runs while no other call is
between its check and its write. -/
def Calm (s : AdminState) (l : AdminLabel) : Prop :=
  Shifts s.users l → ∀ c, l.writes = some c → s.calls = [c]

/-! ## Who is an active administrator after a write -/

/-- The write leaves all accounts but one as they were, for this count. -/
def Spares (tbl tbl' : Users) (id : String) : Prop :=
  ∀ a, a ≠ id → IsActiveAdmin tbl a → IsActiveAdmin tbl' a

/-- Taking the account out leaves an active administrator, or takes none away. -/
def Safe (tbl : Users) (id : String) : Prop :=
  (∃ a, a ≠ id ∧ IsActiveAdmin tbl a) ∨ ¬IsActiveAdmin tbl id

variable {s : AdminState} {id : String} {tbl : Users}

theorem SomeAdmin.of_safe {tbl' : Users} (h : SomeAdmin tbl) (hspares : Spares tbl tbl' id)
    (hsafe : Safe tbl id) : SomeAdmin tbl' := by
  rcases hsafe with ⟨a, hne, ha⟩ | hnot
  · exact ⟨a, hspares a hne ha⟩
  · obtain ⟨a, ha⟩ := h
    have hne : a ≠ id := by
      rintro rfl
      exact hnot ha
    exact ⟨a, hspares a hne ha⟩

section Update

variable {tbl : Users} {cond : User → Bool} {set : User → User} {hkey : ∀ u, (set u).id = u.id}
  {a id : String}

/-- An update keeps an active administrator it leaves alone or keeps one. -/
theorem IsActiveAdmin.update (h : IsActiveAdmin tbl a)
    (hkeeps : ∀ u ∈ tbl.rows, u.id = a → cond u → u.activeAdmin →
      (set u).activeAdmin) : IsActiveAdmin (tbl.update cond set hkey) a := by
  obtain ⟨u, hu, rfl, hadmin⟩ := h
  by_cases hc : cond u
  · exact ⟨set u, Table.mem_update.mpr ⟨u, hu, .inl ⟨hc, rfl⟩⟩, hkey u,
      hkeeps u hu rfl hc hadmin⟩
  · exact ⟨u, Table.mem_update.mpr ⟨u, hu, .inr ⟨Bool.eq_false_iff.mpr hc, rfl⟩⟩, rfl, hadmin⟩

theorem spares_update (hcond : ∀ u, cond u → u.id = id) :
    Spares tbl (tbl.update cond set hkey) id := fun _ hne h =>
  h.update fun u _ hid hc => absurd (hid.symm.trans (hcond u hc)) hne

/-- An update that makes nobody an active administrator and stops nobody being one. -/
theorem isActiveAdmin_update_iff
    (h : ∀ u ∈ tbl.rows, cond u → (set u).activeAdmin = u.activeAdmin) :
    IsActiveAdmin (tbl.update cond set hkey) a ↔ IsActiveAdmin tbl a :=
  Table.exists_mem_update_iff fun u hu hc => by rw [hkey, h u hu hc]

end Update

theorem contains_normalizeRoles (roles : List Role) :
    (normalizeRoles roles).contains .admin = roles.contains .admin := by
  unfold normalizeRoles
  split
  · rename_i h
    rw [h]
    rfl
  · rename_i h
    rw [Bool.not_eq_true] at h
    rw [h, Bool.eq_false_iff]
    simp [validRole]

/-! ## What the checks find -/

theorem safe_of_otherAdmins (h : UserRepo.otherAdmins tbl id ≠ 0) : Safe tbl id := by
  obtain ⟨u, hu, hother⟩ := countP_pos_iff.mp (Nat.pos_of_ne_zero h)
  rw [Bool.and_eq_true, decide_eq_true_iff] at hother
  exact .inl ⟨u.id, hother.2, u, hu, rfl, hother.1⟩

/-- Two counted by `CountAdmins` are two accounts: ids are not repeated. -/
theorem safe_of_countAdmins (h : 1 < UserRepo.countAdmins tbl) : Safe tbl id := by
  by_contra hunsafe
  unfold Safe at hunsafe
  push Not at hunsafe
  have hone : ∀ a ∈ (tbl.rows.filter User.activeAdmin).map User.id, a = id := by
    intro a ha
    obtain ⟨u, hu, rfl⟩ := mem_map.mp ha
    obtain ⟨hmem, hadmin⟩ := mem_filter.mp hu
    by_contra hne
    exact hunsafe.1 u.id hne ⟨u, hmem, rfl, hadmin⟩
  have hnodup : ((tbl.rows.filter User.activeAdmin).map User.id).Nodup :=
    tbl.nodup.sublist (filter_sublist.map User.id)
  rw [eq_replicate_of_mem hone, nodup_replicate, length_map, ← countP_eq_length_filter] at hnodup
  exact absurd hnodup (Nat.not_le.mpr h)

/-- What a call knows of the accounts between its statements, as long as nobody
becomes an active administrator or stops being one. -/
def AdminCall.Found (tbl : Users) : AdminCall → Prop
  | .setRoles id roles => roles.contains .admin = true ∨ Safe tbl id
  | .deleting _ => True
  | .delete id => Safe tbl id
  | .authorized callerID => IsActiveAdmin tbl callerID
  | .update p => p.status = .known .active ∨ Safe tbl p.existing.id
  | .leaving u => u.hasRole .admin = true ∨ ¬IsActiveAdmin tbl u.id
  | .leave id => Safe tbl id

variable {c : AdminCall} {u : User} {callerID : String} {calls : List AdminCall}

theorem AdminCall.found_congr {tbl' : Users} (h : ∀ a, IsActiveAdmin tbl' a ↔ IsActiveAdmin tbl a) :
    c.Found tbl' ↔ c.Found tbl := by
  cases c <;> simp only [AdminCall.Found, Safe, h]

theorem found_setRoles {roles : List Role} (h : UserRepo.setRolesCheck tbl id roles = .ok ()) :
    (AdminCall.setRoles id roles).Found tbl := by
  unfold UserRepo.setRolesCheck at h
  split at h
  · cases h
  split at h
  · rename_i hadmin
    exact .inl hadmin
  split at h
  · cases h
  rename_i hcount
  rw [Bool.and_eq_true, decide_eq_true_iff, not_and_or, Bool.not_eq_true] at hcount
  refine .inr ?_
  rcases hcount with hother | hnot
  · exact safe_of_otherAdmins hother
  · refine .inr ?_
    rintro ⟨u, hu, hid, hadmin⟩
    have hfalse := any_eq_false.mp hnot u hu
    simp [hid, ((activeAdmin_iff u).mp hadmin).1] at hfalse

theorem found_delete (h : UserRepo.deleteCheck tbl u = .ok ()) :
    (AdminCall.delete u.id).Found tbl := by
  unfold UserRepo.deleteCheck at h
  split at h
  · cases h
  rename_i hother
  exact safe_of_otherAdmins hother

theorem not_isActiveAdmin_of_get (h : tbl.get id = some u) (hrole : ¬u.hasRole .admin) :
    ¬IsActiveAdmin tbl u.id := by
  rintro ⟨v, hv, hid, hadmin⟩
  obtain rfl := tbl.eq_of_key_eq hv (Table.mem_of_get h).1 hid
  exact hrole ((activeAdmin_iff v).mp hadmin).1

/-- A caller let in as an administrator is an active one: a disabled or locked
account has no session. -/
theorem found_authorized (h : adminCaller tbl callerID) :
    (AdminCall.authorized callerID).Found tbl := by
  unfold adminCaller at h
  split at h
  · cases h
  rename_i u hget
  obtain ⟨hmem, hid⟩ := Table.mem_of_get hget
  rw [Bool.and_eq_true] at h
  refine ⟨u, hmem, hid, (activeAdmin_iff u).mpr ⟨h.2, ?_⟩⟩
  cases hstatus : u.status <;> simp [User.isBlocked, hstatus] at h ⊢

/-- The edit's guard: its caller is an active administrator, and not the account. -/
theorem found_update {holds : Option ProviderHolds} {req : UpdateRequest} {p : PendingUpdate}
    (hcaller : IsActiveAdmin tbl callerID) (h : updateCheck tbl holds callerID id req = .ok p) :
    (AdminCall.update p).Found tbl := by
  obtain ⟨-, -, rfl, -, hactive | hne⟩ := updateCheck_ok h
  · exact .inl hactive
  · exact .inr (.inl ⟨callerID, hne, hcaller⟩)

theorem found_leave (h : leaveCheck tbl u) (hread : (AdminCall.leaving u).Found tbl) :
    (AdminCall.leave u.id).Found tbl := by
  rw [leaveCheck, Bool.and_eq_true, Bool.or_eq_true, Bool.not_eq_true', decide_eq_true_iff] at h
  rcases h.2 with hrole | hcount
  · rcases hread with hadmin | hnot
    · cases hrole.symm.trans hadmin
    · exact .inr hnot
  · exact safe_of_countAdmins (of_decide_eq_true hcount)

/-! ## The invariant -/

/-- There is an active administrator, and what each call has found still holds. -/
structure AdminState.Inv (s : AdminState) : Prop where
  some : SomeAdmin s.users
  found : ∀ c ∈ s.calls, c.Found s.users

/-- A call goes on to its next statement with what it found. -/
theorem AdminState.Inv.call (h : s.Inv) (hc : c.Found s.users) (hcalls : calls ⊆ s.calls) :
    AdminState.Inv { s with calls := c :: calls } := by
  exact ⟨h.some, forall_mem_cons.mpr ⟨hc, fun d hd => h.found d (hcalls hd)⟩⟩

theorem AdminState.Inv.refused (h : s.Inv) (hcalls : calls ⊆ s.calls) :
    AdminState.Inv { s with calls := calls } :=
  ⟨h.some, fun d hd => h.found d (hcalls hd)⟩

/-- A write: nobody becomes an active administrator or stops being one, or the call
is the only one. -/
theorem AdminState.Inv.write {users : Users} {P : Prop} (h : s.Inv) (hcalm : P → s.calls = [c])
    (hsame : ¬P → ∀ a, IsActiveAdmin users a ↔ IsActiveAdmin s.users a) (hsome : SomeAdmin users) :
    AdminState.Inv ⟨users, s.calls.erase c⟩ := by
  refine ⟨hsome, fun d hd => ?_⟩
  by_cases hshift : P
  · rw [hcalm hshift] at hd
    simp at hd
  · exact (AdminCall.found_congr (hsame hshift)).mpr (h.found d (mem_of_mem_erase hd))

section Writes

variable {s : AdminState} {now : Int}

theorem AdminState.Inv.setRoles {roles : List Role} (h : s.Inv)
    (hcalm : Calm s (.setRoles id roles now)) (hc : .setRoles id roles ∈ s.calls) :
    AdminState.Inv ⟨UserRepo.setRoles s.users now id roles, s.calls.erase (.setRoles id roles)⟩ := by
  refine h.write (fun hshift => hcalm hshift _ rfl) (fun hnot a => ?_) ?_
  · refine isActiveAdmin_update_iff fun u hu hid => ?_
    rw [Bool.eq_iff_iff, activeAdmin_iff, activeAdmin_iff]
    refine and_congr_left fun hactive => ?_
    by_contra hne
    refine hnot ⟨u, hu, of_decide_eq_true hid, hactive, fun heq => hne ?_⟩
    rw [heq, ← contains_normalizeRoles]
    rfl
  · rcases h.found _ hc with hadmin | hsafe
    · obtain ⟨a, ha⟩ := h.some
      refine ⟨a, ha.update fun u _ _ _ hu => (activeAdmin_iff _).mpr ⟨?_, ?_⟩⟩
      · exact (contains_normalizeRoles roles).trans hadmin
      · exact ((activeAdmin_iff u).mp hu).2
    · exact h.some.of_safe (spares_update fun _ => of_decide_eq_true) hsafe

theorem AdminState.Inv.delete (h : s.Inv) (hcalm : Calm s (.delete id))
    (hc : .delete id ∈ s.calls) :
    AdminState.Inv ⟨UserRepo.delete s.users id, s.calls.erase (.delete id)⟩ := by
  have hspares : Spares s.users (UserRepo.delete s.users id) id := by
    rintro a hne ⟨u, hu, rfl, hadmin⟩
    exact ⟨u, Table.mem_delete.mpr ⟨hu, decide_eq_false hne⟩, rfl, hadmin⟩
  refine h.write (fun hshift => hcalm hshift _ rfl) (fun hnot a => ⟨?_, fun ha => ?_⟩) ?_
  · rintro ⟨u, hu, rfl, hadmin⟩
    exact ⟨u, (Table.mem_delete.mp hu).1, rfl, hadmin⟩
  · refine hspares a ?_ ha
    rintro rfl
    exact hnot ha
  · exact h.some.of_safe hspares (h.found _ hc)

variable [Casing] in
theorem AdminState.Inv.update {p : PendingUpdate} {users : Users} (h : s.Inv)
    (hcalm : Calm s (.update p now)) (hc : .update p ∈ s.calls)
    (hwrite : p.write s.users now = .ok users) :
    AdminState.Inv ⟨users, s.calls.erase (.update p)⟩ := by
  obtain ⟨status, hstatus, -, rfl⟩ := UserRepo.update_ok hwrite
  refine h.write (fun hshift => hcalm hshift _ rfl) (fun hnot a => ?_) ?_
  · refine isActiveAdmin_update_iff fun u hu hid => ?_
    rw [Bool.eq_iff_iff, UserRepo.activeAdmin_updated, activeAdmin_iff]
    refine and_congr_right fun hadmin => ?_
    by_contra hne
    refine hnot ⟨u, hu, of_decide_eq_true hid, hadmin, ?_⟩
    rw [hstatus]
    simp only [ne_eq, StatusText.known.injEq]
    exact (not_iff.mp hne).symm
  · rcases h.found _ hc with hactive | hsafe
    · obtain rfl : status = .active := by
        rw [hstatus] at hactive
        exact StatusText.known.inj hactive
      obtain ⟨a, ha⟩ := h.some
      refine ⟨a, ha.update fun u _ _ _ hu => ?_⟩
      exact (UserRepo.activeAdmin_updated ..).mpr ⟨((activeAdmin_iff u).mp hu).1, rfl⟩
    · exact h.some.of_safe (spares_update fun _ => of_decide_eq_true) hsafe

theorem AdminState.Inv.leave {at_ : Int} (h : s.Inv) (hcalm : Calm s (.leave id at_))
    (hc : .leave id ∈ s.calls) :
    AdminState.Inv ⟨UserRepo.disableRemoved s.users id at_, s.calls.erase (.leave id)⟩ := by
  have hwhere : ∀ u : User, (u.id = id && u.status = .active) →
      u.id = id ∧ u.status = .active := by
    simp
  refine h.write (fun hshift => hcalm hshift _ rfl) (fun hnot a => ?_) ?_
  · refine isActiveAdmin_update_iff fun u hu hid => ?_
    rw [Bool.eq_iff_iff, activeAdmin_iff]
    refine iff_of_false (fun hdisabled => nomatch hdisabled.2) fun hadmin => ?_
    exact hnot ⟨u, hu, (hwhere u hid).1, hadmin⟩
  · exact h.some.of_safe (spares_update fun u hu => (hwhere u hu).1) (h.found _ hc)

end Writes

variable [Casing] in
/-- **One statement.** -/
theorem adminStep_inv {s' : AdminState} {l : AdminLabel} (hcalm : Calm s l) (h : s.Inv)
    (hstep : adminStep s l = some s') : s'.Inv := by
  have hself : s.calls ⊆ s.calls := List.Subset.refl _
  cases l <;> simp only [adminStep, ite_none_right_eq_some] at hstep
  case setRolesCheck id roles =>
    split at hstep <;> cases hstep
    · exact h
    · rename_i hcheck
      exact h.call (found_setRoles hcheck) hself
  case setRoles id roles now =>
    obtain ⟨hc, ⟨⟩⟩ := hstep
    exact h.setRoles hcalm hc
  case deleteRead id =>
    split at hstep
    · cases hstep
      exact h
    rename_i u hget
    split at hstep <;> cases hstep
    · exact h.call trivial hself
    · rename_i hrole
      exact h.call (.inr (not_isActiveAdmin_of_get hget hrole)) hself
  case deleteCount u =>
    obtain ⟨-, hstep⟩ := hstep
    split at hstep <;> cases hstep
    · exact h.refused erase_subset
    · rename_i hcheck
      exact h.call (found_delete hcheck) erase_subset
  case delete id =>
    obtain ⟨hc, ⟨⟩⟩ := hstep
    exact h.delete hcalm hc
  case authorize callerID =>
    split at hstep <;> cases hstep
    · rename_i hcaller
      exact h.call (found_authorized hcaller) hself
    · exact h
  case updateRead holds callerID id req =>
    obtain ⟨hc, hstep⟩ := hstep
    split at hstep <;> cases hstep
    · exact h.refused erase_subset
    · rename_i hcheck
      exact h.call (found_update (h.found _ hc) hcheck) erase_subset
  case update p now =>
    obtain ⟨hc, hstep⟩ := hstep
    split at hstep <;> cases hstep
    · exact h.refused erase_subset
    · rename_i hwrite
      exact h.update hcalm hc hwrite
  case leaveRead id =>
    split at hstep <;> cases hstep
    · exact h
    · rename_i u hget
      refine h.call ?_ hself
      -- who is no administrator leaves without a count
      by_cases hrole : u.hasRole .admin
      · exact .inl hrole
      · exact .inr (not_isActiveAdmin_of_get hget hrole)
  case leaveCount u =>
    obtain ⟨hc, hstep⟩ := hstep
    split at hstep <;> cases hstep
    · rename_i hcheck
      exact h.call (found_leave hcheck (h.found _ hc)) erase_subset
    · exact h.refused erase_subset
  case leave id at_ =>
    obtain ⟨hc, ⟨⟩⟩ := hstep
    exact h.leave hcalm hc

/-! ## Runs -/

variable [Casing] in
/-- In every run from a state with an active administrator, in which no write changes
who is one while another call is between its check and its write, there is an active
administrator in every state. -/
theorem someAdmin_of_calm {users : Users} {ls : List AdminLabel} {s : AdminState}
    (hinit : SomeAdmin users) (h : RunWhere adminStep Calm ⟨users, []⟩ ls s) :
    SomeAdmin s.users := by
  have hinv : AdminState.Inv ⟨users, []⟩ := ⟨hinit, fun _ hc => nomatch hc⟩
  exact (h.keeps AdminState.Inv (fun _ _ _ => adminStep_inv) hinv).some

/-! ## Two administrators who disable each other -/

/-- An active administrator. -/
def administrator (id : String) : User where
  id := id
  username := id
  email := ""
  displayName := id
  passwordHash := ""
  status := .active
  roles := [.admin]
  idpID := ""
  externalID := ""
  lockedUntil := none
  directoryRemovedAt := none
  updatedAt := 0

/-- Two administrators and nobody else. -/
def twoAdmins : Users := ⟨[administrator "a", administrator "b"], by decide⟩

/-- The edit by which one disables the other. -/
def disabling (callerID id : String) : PendingUpdate :=
  ⟨callerID, administrator id, id, "", .known .disabled⟩

/-- Both are let in and read the other's account while both are administrators; both
edits are written, and nobody is one. -/
theorem two_admins_disable_each_other :
    SomeAdmin twoAdmins ∧
    ∃ s, Run adminStep ⟨twoAdmins, []⟩
        [.authorize "a", .authorize "b",
          .updateRead none "a" "b" ⟨"", none, some (.known .disabled)⟩,
          .updateRead none "b" "a" ⟨"", none, some (.known .disabled)⟩,
          .update (disabling "a" "b") 0, .update (disabling "b" "a") 0] s ∧
      ¬SomeAdmin s.users := by
  refine ⟨⟨"a", administrator "a", mem_cons_self, rfl, rfl⟩, _, Run.of_exec rfl, ?_⟩
  rintro ⟨id, u, hu, -, hadmin⟩
  revert u
  decide

/-- One of them disables the other and stays. -/
theorem one_admin_disables_other :
    ∃ s, RunWhere adminStep Calm ⟨twoAdmins, []⟩
        [.authorize "a", .updateRead none "a" "b" ⟨"", none, some (.known .disabled)⟩,
          .update (disabling "a" "b") 0] s ∧ SomeAdmin s.users := by
  have hinit : SomeAdmin twoAdmins := ⟨"a", administrator "a", mem_cons_self, rfl, rfl⟩
  refine RunWhere.exists_imp (P := fun _ => True) (fun _ hrun _ => someAdmin_of_calm hinit hrun)
    ⟨_, .cons ?_ rfl (.cons ?_ rfl (.cons ?_ rfl .nil)), trivial⟩
  · exact fun hshift => hshift.elim
  · exact fun hshift => hshift.elim
  · intro _ c hc
    cases hc
    rfl

end Zanskar
