import Zanskar.Idp.Lifecycle
import Zanskar.Lib.Machine
import Zanskar.User.Admin

/-!
# Directory syncs and sign-ins beside the administrators

`sync` (`internal/idp/sync.go`) reads the accounts of a provider once and then goes
through the people the directory lists; `Resolve` (`internal/idp/idp.go`) reads the
account of the person who signs in. Both write a changed name or address back with
`Update`, which sets the status too: to that of the copy they read. An
administrator's edit may come between.

- `disabled_account_set_active` : a sync that read the account before undoes the
  disabling;
- `disabled_by_admin_stays` : where no profile is written over a status other than the
  one it was read with, and no administrator's disabling meets an account the directory
  had just disabled itself, it stands.

The second condition is there because `Update` keeps the directory's mark when the
status does not change, so that the next `Return` enables the account.
-/

namespace Zanskar

open Go Lib List

section

variable [Casing]

/-! ## Syncs -/

/-- Where a sync is. -/
inductive SyncStage where
  /-- At the next person of the listing. -/
  | people
  /-- `keep`, after `Return`. -/
  | keeping (u : User) (person : Person)
  /-- `join`: `adopt` has read the account and goes on to link it. -/
  | adopting (u : User) (person : Person)
  /-- `join`: there is no account to adopt. -/
  | creating (person : Person)
  /-- At the next of the accounts whose people have left. -/
  | leaving (gone : List User)
  /-- `Leave` has counted and goes on to disable. -/
  | disabling (u : User) (gone : List User)

/-- One run of `sync`. -/
structure SyncRun where
  provider : OpenedProvider
  force : Bool
  /-- How many people the directory listed. -/
  listed : Nat
  /-- The people still to come. -/
  people : List Person
  /-- The accounts, as they were read and as the sync has changed its copies. -/
  linked : List User
  seen : List String
  kept : List String
  stage : SyncStage

/-- The listing and `ListByIdP`. -/
def SyncRun.start (tbl : Users) (provider : OpenedProvider) (force : Bool)
    (people : List Person) : SyncRun where
  provider := provider
  force := force
  listed := people.length
  people := people.insertionSort fun a b => a.username ≤ b.username
  linked := UserRepo.listByIdP tbl provider.id
  seen := []
  kept := []
  stage := .people

/-- `byExternal`: the copy of the account linked to the subject. -/
def SyncRun.byExternal (w : SyncRun) (externalID : String) : Option User :=
  w.linked.reverse.find? fun u => u.externalID = externalID

/-- `keep` up to the end of `Return`. -/
def SyncRun.keep (w : SyncRun) (tbl : Users) (now : Int) (u : User) (person : Person) :
    Users × SyncRun :=
  let w := { w with kept := u.id :: w.kept }
  if u.awaitsReturn && tbl.rows.any (UserRepo.returns u.id) then
    (UserRepo.enableReturned tbl now u.id,
      { w with
        linked := w.linked.map fun v => if v.id = u.id then v.returned else v
        stage := .keeping u.returned person })
  else (tbl, { w with stage := .keeping u person })

/-- `join` up to the end of `adopt`'s read. -/
def SyncRun.join (w : SyncRun) (tbl : Users) (now : Int) (person : Person) : SyncRun :=
  if !validUsername person.username then w
  else
    match UserRepo.getByUsername tbl person.username with
    | none => { w with stage := .creating person }
    | some u =>
      match adoptCheck w.provider now u with
      | .error _ => w
      | .ok _ => { w with stage := .adopting u person }

/-- The next statement of a sync, with the time of it and the id it would draw; no
sync is left when it is over. -/
def SyncRun.next (w : SyncRun) (tbl : Users) (now : Int) (newID : String) :
    Users × Option SyncRun :=
  match w.stage with
  | .people =>
    match w.people with
    | [] => (tbl, some { w with stage := .leaving (goneFrom w.linked w.kept w.listed w.force) })
    | person :: rest =>
      let w := { w with people := rest }
      if person.externalID = "" || w.seen.contains person.externalID then (tbl, some w)
      else
        let w := { w with seen := person.externalID :: w.seen }
        match w.byExternal person.externalID with
        | some u =>
          let (tbl, w) := w.keep tbl now u person
          (tbl, some w)
        | none => (tbl, some (w.join tbl now person))
  | .keeping u person =>
    if person.keepWrites u then
      match person.writeProfile tbl now u with
      | .ok tbl => (tbl, some { w with stage := .people })
      | .error .duplicate => (tbl, some { w with stage := .people })
      | .error _ => (tbl, none)
    else (tbl, some { w with stage := .people })
  | .adopting u person =>
    match UserRepo.linkExternal tbl now u.id w.provider.id person.externalID with
    | .ok tbl => (tbl, some { w with kept := u.id :: w.kept, stage := .people })
    | .error .notFound => (tbl, some { w with stage := .creating person })
    | .error _ => (tbl, some { w with stage := .people })
  | .creating person =>
    if !w.provider.autoProvision then (tbl, some { w with stage := .people })
    else
      match UserRepo.create tbl now newID (person.account w.provider) with
      | .ok tbl => (tbl, some { w with stage := .people })
      | .error .duplicate => (tbl, some { w with stage := .people })
      | .error _ => (tbl, none)
  | .leaving [] => (tbl, none)
  | .leaving (u :: gone) =>
    if leaveCheck tbl u then (tbl, some { w with stage := .disabling u gone })
    else (tbl, some { w with stage := .leaving gone })
  | .disabling u gone =>
    (UserRepo.disableRemoved tbl u.id now, some { w with stage := .leaving gone })

/-! ## Sign-ins -/

/-- Where a sign-in is. -/
inductive SignInStage where
  | start
  /-- Nobody is linked to the subject. -/
  | adopt
  /-- `adopt` has read the account and goes on to link it. -/
  | adopting (u : User)
  /-- There is no account to adopt. -/
  | creating
  /-- The account is resolved; its name and address are next. -/
  | resolved (u : User)

/-- One call of `Resolve`. -/
structure SignInRun where
  provider : OpenedProvider
  person : Person
  stage : SignInStage

/-- The next statement of a sign-in, up to the last that changes an account. -/
def SignInRun.next (w : SignInRun) (tbl : Users) (now : Int) (newID : String) :
    Users × Option SignInRun :=
  match w.stage with
  | .start =>
    if !validUsername w.person.username then (tbl, none)
    else
      match UserRepo.getByExternalID tbl w.provider.id w.person.externalID with
      | some u => (tbl, some { w with stage := .resolved u })
      | none => (tbl, some { w with stage := .adopt })
  | .adopt =>
    match UserRepo.getByUsername tbl w.person.username with
    | none => (tbl, some { w with stage := .creating })
    | some u =>
      match adoptCheck w.provider now u with
      | .error _ => (tbl, none)
      | .ok _ => (tbl, some { w with stage := .adopting u })
  | .adopting u =>
    match UserRepo.linkExternal tbl now u.id w.provider.id w.person.externalID with
    | .ok tbl => (tbl, some { w with stage := .resolved (u.linked w.provider w.person) })
    | .error .notFound => (tbl, some { w with stage := .creating })
    | .error _ => (tbl, none)
  | .creating =>
    if !w.provider.autoProvision then (tbl, none)
    else
      match UserRepo.create tbl now newID (w.person.account w.provider) with
      | .ok tbl => (tbl, none)
      | .error _ => (tbl, none)
  | .resolved u =>
    if w.person.signInWrites u then
      match w.person.writeProfile tbl now u with
      | .ok tbl => (tbl, none)
      -- the error is dropped
      | .error _ => (tbl, none)
    else (tbl, none)

/-! ## The machine -/

structure DirectoryState where
  users : Users
  /-- The syncs; `none` is one that is over. -/
  syncs : List (Option SyncRun)
  signIns : List (Option SignInRun)
  /-- The administrators let in to edit. -/
  authorized : List String
  edits : List PendingUpdate
  /-- The accounts an administrator has disabled. -/
  byAdmin : List String

/-- Nothing runs. The accounts that are disabled without the directory's mark are
the ones an administrator disabled. -/
def DirectoryState.init (users : Users) : DirectoryState where
  users := users
  syncs := []
  signIns := []
  authorized := []
  edits := []
  byAdmin :=
    (users.rows.filter fun u => u.status = .disabled && u.directoryRemovedAt.isNone).map User.id

/-- The statements. A sync or a sign-in also stops where a statement of it fails. -/
inductive DirectoryLabel where
  | list (provider : OpenedProvider) (force : Bool) (people : List Person)
  | sync (i : Nat) (now : Int) (newID : String)
  | syncFails (i : Nat)
  | resolve (provider : OpenedProvider) (person : Person)
  | signIn (i : Nat) (now : Int) (newID : String)
  | signInFails (i : Nat)
  | authorize (callerID : String)
  | editRead (holds : Option ProviderHolds) (callerID id : String) (req : UpdateRequest)
  | edit (p : PendingUpdate) (now : Int)

/-- An edit disables: the account was read with another status. -/
def PendingUpdate.disables (p : PendingUpdate) : Bool :=
  p.status = .known .disabled && p.existing.status ≠ .disabled

/-- Who is disabled by an administrator after an edit. -/
def PendingUpdate.mark (p : PendingUpdate) (byAdmin : List String) : List String :=
  if p.status ≠ .known .disabled then byAdmin.filter fun id => id ≠ p.existing.id
  else if p.disables then p.existing.id :: byAdmin
  else byAdmin

/-- One statement. -/
def directoryStep (s : DirectoryState) : DirectoryLabel → Option DirectoryState
  | .list provider force people =>
    some { s with syncs := s.syncs ++ [some (.start s.users provider force people)] }
  | .sync i now newID =>
    match s.syncs[i]? with
    | some (some w) =>
      let (users, w) := w.next s.users now newID
      some { s with users := users, syncs := s.syncs.set i w }
    | _ => none
  | .syncFails i => some { s with syncs := s.syncs.set i none }
  | .resolve provider person =>
    some { s with signIns := s.signIns ++ [some ⟨provider, person, .start⟩] }
  | .signIn i now newID =>
    match s.signIns[i]? with
    | some (some w) =>
      let (users, w) := w.next s.users now newID
      some { s with users := users, signIns := s.signIns.set i w }
    | _ => none
  | .signInFails i => some { s with signIns := s.signIns.set i none }
  | .authorize callerID =>
    if adminCaller s.users callerID then
      some { s with authorized := callerID :: s.authorized }
    else some s
  | .editRead holds callerID id req =>
    if callerID ∈ s.authorized then
      match updateCheck s.users holds callerID id req with
      | .error _ => some { s with authorized := s.authorized.erase callerID }
      | .ok p =>
        some { s with authorized := s.authorized.erase callerID, edits := p :: s.edits }
    else none
  | .edit p now =>
    if p ∈ s.edits then
      match p.write s.users now with
      | .error _ => some { s with edits := s.edits.erase p }
      | .ok users =>
        some { s with users := users, edits := s.edits.erase p, byAdmin := p.mark s.byAdmin }
    else none

/-! ## What is claimed, and when -/

/-- No account an administrator has disabled is active. -/
def DirectoryState.Stands (s : DirectoryState) : Prop :=
  ∀ u ∈ s.users.rows, u.id ∈ s.byAdmin → u.status ≠ .active

/-- The account has the status the copy was read with. -/
def Fresh (tbl : Users) (u : User) : Prop := ∀ v ∈ tbl.rows, v.id = u.id → v.status = u.status

/-- Profiles are written over the status they were read with, and an
administrator's disabling does not meet an account the directory has disabled
since it was read. -/
def Settled (s : DirectoryState) : DirectoryLabel → Prop
  | .sync i _ _ => ∀ w u person, s.syncs[i]? = some (some w) → w.stage = .keeping u person →
      person.keepWrites u = true → Fresh s.users u
  | .signIn i _ _ => ∀ w u, s.signIns[i]? = some (some w) → w.stage = .resolved u →
      w.person.signInWrites u = true → Fresh s.users u
  | .edit p _ => p.disables = true → ∀ v ∈ s.users.rows, v.id = p.existing.id →
      v.awaitsReturn = false
  | _ => True

/-! ## What one statement of the directory can do -/

/-- The changes a statement of a sync or a sign-in makes: a profile is written for copies
that meet `F` only, and the accounts that are created are those of a person. -/
inductive WriteEffect (F : User → Prop) (tbl : Users) : Users → Prop
  | nothing : WriteEffect F tbl tbl
  | enable (now : Int) (id : String) : WriteEffect F tbl (UserRepo.enableReturned tbl now id)
  | disable (now : Int) (id : String) : WriteEffect F tbl (UserRepo.disableRemoved tbl id now)
  | link {tbl' : Users} {now : Int} {id idpID externalID : String}
      (h : UserRepo.linkExternal tbl now id idpID externalID = .ok tbl') : WriteEffect F tbl tbl'
  | create {tbl' : Users} {now : Int} {newID : String} {provider : OpenedProvider}
      {person : Person}
      (h : UserRepo.create tbl now newID (person.account provider) = .ok tbl') :
      WriteEffect F tbl tbl'
  | profile {tbl' : Users} {now : Int} {u : User} {person : Person} (hF : F u)
      (h : person.writeProfile tbl now u = .ok tbl') : WriteEffect F tbl tbl'

variable {tbl tbl' : Users} {F : User → Prop} {id : String} {u : User} {now : Int}
  {s : DirectoryState} {users : Users}

theorem SyncRun.keep_writes (w : SyncRun) (person : Person) :
    WriteEffect F tbl (w.keep tbl now u person).1 := by
  unfold SyncRun.keep
  dsimp only
  split
  · exact .enable now u.id
  · exact .nothing

theorem SyncRun.next_writes {w : SyncRun} (now : Int) (newID : String)
    (hF : ∀ u person, w.stage = .keeping u person → person.keepWrites u → F u) :
    WriteEffect F tbl (w.next tbl now newID).1 := by
  unfold SyncRun.next
  split
  · split
    · exact .nothing
    dsimp only
    split
    · exact .nothing
    split
    · exact SyncRun.keep_writes ..
    · exact .nothing
  · rename_i u person hstage
    split
    · rename_i hwrites
      split
      · rename_i hwrite
        exact .profile (hF u person hstage hwrites) hwrite
      · exact .nothing
      · exact .nothing
    · exact .nothing
  · split
    · rename_i hlink
      exact .link hlink
    · exact .nothing
    · exact .nothing
  · split
    · exact .nothing
    split
    · rename_i hcreate
      exact .create hcreate
    · exact .nothing
    · exact .nothing
  · exact .nothing
  · split
    · exact .nothing
    · exact .nothing
  · exact .disable now _

theorem SignInRun.next_writes {w : SignInRun} (now : Int)
    (newID : String) (hF : ∀ u, w.stage = .resolved u → w.person.signInWrites u → F u) :
    WriteEffect F tbl (w.next tbl now newID).1 := by
  unfold SignInRun.next
  split
  · split
    · exact .nothing
    split
    · exact .nothing
    · exact .nothing
  · split
    · exact .nothing
    split
    · exact .nothing
    · exact .nothing
  · split
    · rename_i hlink
      exact .link hlink
    · exact .nothing
    · exact .nothing
  · split
    · exact .nothing
    split
    · rename_i hcreate
      exact .create hcreate
    · exact .nothing
  · rename_i u hstage
    split
    · rename_i hwrites
      split
      · rename_i hwrite
        exact .profile (hF u hstage hwrites) hwrite
      · exact .nothing
    · exact .nothing

/-! ## An account an administrator has disabled -/

/-- Disabled, without the directory's mark. -/
def User.Barred (u : User) : Prop := u.status = .disabled ∧ u.directoryRemovedAt = none

/-- The account is there and barred. -/
def Held (tbl : Users) (id : String) : Prop := ∃ u ∈ tbl.rows, u.id = id ∧ u.Barred

omit [Casing] in
theorem Held.update {cond : User → Bool} {set : User → User}
    {hkey : ∀ u, (set u).id = u.id} (h : Held tbl id)
    (hkeeps : ∀ u ∈ tbl.rows, u.id = id → cond u → u.Barred → (set u).Barred) :
    Held (tbl.update cond set hkey) id := by
  obtain ⟨u, hu, rfl, hbarred⟩ := h
  cases hc : cond u with
  | true =>
    exact ⟨set u, Table.mem_update.mpr ⟨u, hu, .inl ⟨hc, rfl⟩⟩, hkey u,
      hkeeps u hu rfl hc hbarred⟩
  | false => exact ⟨u, Table.mem_update.mpr ⟨u, hu, .inr ⟨hc, rfl⟩⟩, rfl, hbarred⟩

/-- `Update` bars an account it disables, unless the directory has disabled it. -/
theorem barred_updated {displayName email : String} (h : u.awaitsReturn = false) :
    (UserRepo.updated now displayName email .disabled u).Barred := by
  unfold User.Barred UserRepo.updated
  refine ⟨rfl, ?_⟩
  dsimp only
  split
  · rfl
  · rename_i hstatus
    rw [not_not] at hstatus
    simpa [User.awaitsReturn, hstatus] using h

omit [Casing] in
theorem User.Barred.awaitsReturn_eq (h : u.Barred) : u.awaitsReturn = false := by
  simp [User.awaitsReturn, h.2]

/-- No statement of a sync or a sign-in enables it: `EnableReturned` asks for the
mark, and a profile is written with the status the account has. -/
theorem Held.effect (h : Held tbl id) (heffect : WriteEffect (Fresh tbl) tbl tbl') :
    Held tbl' id := by
  cases heffect with
  | nothing => exact h
  | enable now id' =>
    refine h.update fun u _ _ hc hbarred => ?_
    simp [UserRepo.returns, hbarred.2] at hc
  | disable now id' =>
    refine h.update fun u _ _ hc hbarred => ?_
    simp [hbarred.1] at hc
  | link hlink =>
    obtain ⟨-, -, rfl⟩ := UserRepo.linkExternal_ok hlink
    exact h.update fun u _ _ _ hbarred => hbarred
  | create hcreate =>
    obtain ⟨u, hu, hid, hbarred⟩ := h
    exact ⟨u, UserRepo.mem_of_create hcreate hu, hid, hbarred⟩
  | profile hfresh hwrite =>
    obtain ⟨status, hstatus, -, rfl⟩ := UserRepo.update_ok hwrite
    cases hstatus
    refine h.update fun v hv _ hc hbarred => ?_
    rw [← hfresh v hv (of_decide_eq_true hc), hbarred.1]
    exact barred_updated hbarred.awaitsReturn_eq

/-! ## Runs -/

/-- Every account an administrator has disabled is held. -/
def DirectoryState.Inv (s : DirectoryState) : Prop := ∀ id ∈ s.byAdmin, Held s.users id

omit [Casing] in
theorem DirectoryState.inv_init (users : Users) : (DirectoryState.init users).Inv := by
  intro id hid
  obtain ⟨u, hu, rfl⟩ := mem_map.mp hid
  obtain ⟨hmem, hbarred⟩ := mem_filter.mp hu
  rw [Bool.and_eq_true, decide_eq_true_iff, Option.isNone_iff_eq_none] at hbarred
  exact ⟨u, hmem, rfl, hbarred⟩

theorem DirectoryState.Inv.effect (h : s.Inv)
    (heffect : WriteEffect (Fresh s.users) s.users users) : ∀ id ∈ s.byAdmin, Held users id :=
  fun id hid => (h id hid).effect heffect

theorem DirectoryState.Inv.edit {p : PendingUpdate} (h : s.Inv) (hcond : Settled s (.edit p now))
    (hwrite : p.write s.users now = .ok users) : ∀ id ∈ p.mark s.byAdmin, Held users id := by
  obtain ⟨status, hstatus, ⟨u, hu, hid⟩, hupdate⟩ := UserRepo.update_ok hwrite
  have hother : ∀ id ∈ s.byAdmin, id ≠ p.existing.id → Held users id := by
    intro id hid hne
    rw [hupdate]
    exact (h id hid).update fun v _ hv hc => absurd (hv.symm.trans (of_decide_eq_true hc)) hne
  unfold PendingUpdate.mark
  intro id hmem
  split at hmem
  · obtain ⟨hmem, hne⟩ := mem_filter.mp hmem
    exact hother id hmem (of_decide_eq_true hne)
  rename_i hdisabled
  rw [not_not] at hdisabled
  cases hstatus.symm.trans hdisabled
  by_cases hne : id = p.existing.id
  · subst hne
    rw [hupdate]
    refine ⟨UserRepo.updated now p.displayName p.email .disabled u,
      Table.mem_update.mpr ⟨u, hu, .inl ⟨decide_eq_true hid, rfl⟩⟩,
      (UserRepo.updated_id ..).trans hid, barred_updated ?_⟩
    by_cases hdis : p.disables
    · exact hcond hdis u hu hid
    · rw [if_neg hdis] at hmem
      obtain ⟨v, hv, hvid, hbarred⟩ := h _ hmem
      obtain rfl := s.users.eq_of_key_eq hu hv (hid.trans hvid.symm)
      exact hbarred.awaitsReturn_eq
  · split at hmem
    · exact hother id ((mem_cons.mp hmem).resolve_left hne) hne
    · exact hother id hmem hne

/-- **One step.** -/
theorem directoryStep_inv {s' : DirectoryState} {l : DirectoryLabel} (hcond : Settled s l)
    (h : s.Inv) (hstep : directoryStep s l = some s') : s'.Inv := by
  cases l <;> simp only [directoryStep, Option.ite_none_right_eq_some] at hstep
  case list | signInFails => exact Option.some.inj hstep ▸ h
  case sync i now newID =>
    split at hstep <;> cases hstep
    rename_i w hw
    exact h.effect (SyncRun.next_writes now newID fun u person => hcond w u person hw)
  case syncFails | resolve => exact Option.some.inj hstep ▸ h
  case signIn i now newID =>
    split at hstep <;> cases hstep
    rename_i w hw
    exact h.effect (SignInRun.next_writes now newID fun u => hcond w u hw)
  case authorize callerID =>
    split at hstep <;> exact Option.some.inj hstep ▸ h
  case editRead holds callerID id req =>
    obtain ⟨-, hstep⟩ := hstep
    split at hstep <;> exact Option.some.inj hstep ▸ h
  case edit p now =>
    obtain ⟨-, hstep⟩ := hstep
    split at hstep <;> cases hstep
    · exact h
    · rename_i hwrite
      exact h.edit hcond hwrite

/-- **An administrator's disabling stands** beside every sync and sign-in, in every
interleaving of any number of them from any accounts, whose steps are settled. -/
theorem disabled_by_admin_stays {users : Users} {ls : List DirectoryLabel} {s : DirectoryState}
    (h : RunWhere directoryStep Settled (.init users) ls s) : s.Stands := by
  have hinv := h.keeps DirectoryState.Inv (fun _ _ _ => directoryStep_inv)
    (DirectoryState.inv_init users)
  intro u hu hid hactive
  obtain ⟨v, hv, hvid, hbarred⟩ := hinv u.id hid
  obtain rfl := s.users.eq_of_key_eq hv hu hvid
  rw [hbarred.1] at hactive
  cases hactive

end

/-! ## A name written over an administrator's disabling -/

/-- An account of the directory's. -/
def ann : User where
  id := "ann"
  username := "ann"
  email := ""
  displayName := "Ann"
  passwordHash := ""
  status := .active
  roles := [.user]
  idpID := "ad"
  externalID := "s-1"
  lockedUntil := none
  directoryRemovedAt := none
  updatedAt := 0

/-- The administrator. -/
def root : User :=
  { ann with
    id := "root"
    username := "root"
    displayName := "Root"
    roles := [.admin]
    idpID := ""
    externalID := "" }

/-- The two accounts. -/
def annAndRoot : Users := ⟨[ann, root], by decide⟩

/-- The directory has a new name for Ann. -/
def renamed : List Person := [⟨"s-1", "ann", "Ann B", ""⟩]

/-- The administrator's edit, of the account as it was read. -/
def disableAnn : PendingUpdate := ⟨"root", ann, "Ann", "", .known .disabled⟩

/-- The sync has read the account; it is disabled; the sync writes the new name and
the status it read. -/
theorem disabled_account_set_active :
    ∃ s, Run directoryStep (.init annAndRoot)
        [.list ⟨"ad", false, [.user]⟩ false renamed, .sync 0 0 "",
          .authorize "root", .editRead none "root" "ann" ⟨"", none, some (.known .disabled)⟩,
          .edit disableAnn 0, .sync 0 0 ""] s ∧
      "ann" ∈ s.byAdmin ∧ ∃ u ∈ s.users.rows, u.id = "ann" ∧ u.status = .active := by
  refine ⟨_, Run.of_exec rfl, mem_cons_self, _, mem_cons_self, rfl, rfl⟩

/-- A sync that starts afterwards writes the name and leaves the account disabled. -/
theorem renamed_account_stays_disabled :
    ∃ s, RunWhere directoryStep Settled (.init annAndRoot)
        [.authorize "root", .editRead none "root" "ann" ⟨"", none, some (.known .disabled)⟩,
          .edit disableAnn 0, .list ⟨"ad", false, [.user]⟩ false renamed, .sync 0 0 "",
          .sync 0 0 ""] s ∧
      "ann" ∈ s.byAdmin ∧ s.Stands := by
  refine RunWhere.exists_imp (P := ("ann" ∈ ·.byAdmin))
    (fun _ hrun hmem => ⟨hmem, disabled_by_admin_stays hrun⟩)
    ⟨_, .cons trivial rfl (.cons trivial rfl (.cons ?_ rfl (.cons trivial rfl
      (.cons ?_ rfl (.cons ?_ rfl .nil))))), mem_cons_self⟩
  · intro _
    decide
  · -- the sync has read nothing yet
    rintro w u person hw hstage
    cases hw
    cases hstage
  · rintro w u person hw hstage _
    cases hw
    cases hstage
    unfold Fresh
    decide

end Zanskar
