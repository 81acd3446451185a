import Zanskar.Idp.Lifecycle

/-!
# Accounts pushed over SCIM (`internal/idp/scim/scim.go`)

A provider pushes its people: it creates an account, replaces or patches one it
provisions, or deletes it. `PushRun.next` is one statement of such a request, from
the first read of an account on; a request that answers with an error is over. The
columns `scim_external_id` and `scim_deleted_at`, which nothing else reads, are kept
beside the accounts, under the account's id.

What a body asks for is given as it was read from the JSON (`desired`), a patch as
the attributes it sets in their order.
-/

namespace Zanskar

open Go

/-- The two columns of `users` that are the SCIM client's. -/
structure ScimColumns where
  externalID : String
  deletedAt : Option Int
  deriving DecidableEq

/-- The table `users` with its SCIM columns. -/
structure Accounts where
  users : Users
  scim : String → ScimColumns

namespace Accounts

/-- `SetSCIM`. -/
def setSCIM (a : Accounts) (now : Int) (id externalID : String) (deleted : Option Int) :
    Except UserError Accounts :=
  if (a.users.get id).isNone then .error .notFound
  else
    .ok {
      users := a.users.update (fun u => u.id = id) (fun u => { u with updatedAt := timeArg now })
        fun _ => rfl
      scim := Function.update a.scim id ⟨externalID, deleted.map timeArg⟩ }

/-- `ListProvisioned` by id: the account, if the provider provisions it and has not
deleted it. -/
def find (a : Accounts) (idpID id : String) : Option User :=
  a.users.rows.find? fun u => u.idpID = idpID && (a.scim u.id).deletedAt.isNone && u.id = id

end Accounts

variable [Casing]

/-! ## What a provider says of an account -/

/-- `desired`: a field that was not sent is left as it is. -/
structure Desired where
  userName : String
  given : String
  family : String
  formatted : String
  display : String
  email : String
  emailSet : Bool
  externalID : String
  externalIDSet : Bool
  active : Option Bool

/-- `displayName`. -/
def Desired.displayName (d : Desired) : String :=
  if d.display ≠ "" then d.display
  else if d.formatted ≠ "" then d.formatted
  else if trimSpace (d.given ++ " " ++ d.family) ≠ "" then trimSpace (d.given ++ " " ++ d.family)
  else ""

/-- The name `apply` gives the account. -/
def Desired.nameFor (d : Desired) (u : User) : String :=
  if d.displayName = "" then u.displayName else d.displayName

/-- The address `apply` gives the account. -/
def Desired.emailFor (d : Desired) (u : User) : String := if d.emailSet then d.email else u.email

/-- One attribute a patch sets; a removal sets it to the empty text. -/
inductive PatchSet where
  | userName (text : String)
  | display (text : String)
  | given (text : String)
  | family (text : String)
  | formatted (text : String)
  | externalID (text : String)
  | active (value : Bool)
  | email (text : String)
  /-- An attribute nothing is kept of. -/
  | other

/-- `setPath`; `none` is a refusal. -/
def PatchSet.apply (d : Desired) : PatchSet → Option Desired
  | .userName text =>
    if validUsername (Casing.toLower text) then some { d with userName := Casing.toLower text }
    else none
  | .display text => some { d with display := text }
  | .given text => some { d with given := text }
  | .family text => some { d with family := text }
  | .formatted text => some { d with formatted := text }
  | .externalID text => some { d with externalID := text, externalIDSet := true }
  | .active value => some { d with active := some value }
  | .email text => some { d with email := Casing.toLower text, emailSet := true }
  | .other => some d

/-- `patched`: the patch over the account's current state, its display name apart. -/
def patched (u : User) (columns : ScimColumns) (sets : List PatchSet) : Option Desired :=
  if sets.isEmpty then none
  else
    sets.foldlM PatchSet.apply
      { userName := u.username, given := "", family := "", formatted := "", display := "",
        email := u.email, emailSet := false, externalID := columns.externalID,
        externalIDSet := false, active := none }

/-- The account `createUser` asks for: no subject yet. -/
def Desired.account (p : OpenedProvider) (want : Desired) : User where
  id := ""
  username := want.userName
  email := want.email
  displayName := if want.displayName = "" then want.userName else want.displayName
  passwordHash := ""
  status := .active
  roles := p.defaultRoles
  idpID := p.id
  externalID := ""
  lockedUntil := none
  directoryRemovedAt := none
  updatedAt := 0

/-! ## Requests -/

/-- A request the guard has let through, with what its body asks for. -/
inductive PushRequest where
  | create (want : Desired)
  | replace (id : String) (want : Desired)
  | patch (id : String) (sets : List PatchSet)
  | delete (id : String)

/-- Where a request is. The copies are those the handler holds. -/
inductive PushStage where
  | received
  /-- `createUser`: the provider had deleted the account, and creates it again. -/
  | reviving (u : User) (want : Desired)
  /-- `createUser`: an administrator made the account, with no password. -/
  | provisioning (u : User) (want : Desired)
  /-- `createUser`: there is no such account. -/
  | creating (want : Desired)
  /-- `apply`, at the username. -/
  | naming (u : User) (columns : ScimColumns) (want : Desired)
  /-- `apply`, at the name and the address. -/
  | updating (u : User) (columns : ScimColumns) (want : Desired)
  /-- `apply`, at the provider's own id for the person. -/
  | marking (u : User) (columns : ScimColumns) (want : Desired)
  /-- `apply`, at the activity. -/
  | activating (u : User) (want : Desired)
  /-- `Leave`; a deletion goes on to hide the account. -/
  | leaving (u : User) (hides : Option ScimColumns)
  /-- `Leave` has counted and goes on to disable. -/
  | disabling (u : User) (hides : Option ScimColumns)
  /-- `deleteUser`, at its mark. -/
  | concealing (u : User) (columns : ScimColumns)

/-- One request. -/
structure PushRun where
  provider : OpenedProvider
  request : PushRequest
  stage : PushStage

namespace PushRun

/-- What follows `Leave`. -/
def afterLeave (w : PushRun) (u : User) : Option ScimColumns → Option PushRun
  | none => none
  | some columns => some { w with stage := .concealing u columns }

/-- `createUser` up to the end of its read. -/
def lookUp (w : PushRun) (a : Accounts) (want : Desired) : Option PushRun :=
  if !validUsername want.userName then none
  else
    match UserRepo.getByUsername a.users want.userName with
    | none => some { w with stage := .creating want }
    | some existing =>
      if existing.idpID = w.provider.id then
        if (a.scim existing.id).deletedAt.isSome then
          -- a create means active unless it says otherwise
          some { w with
            stage := .reviving existing { want with active := some (want.active.getD true) } }
        else none
      else if existing.idpID = "" ∧ existing.passwordHash = "" then
        some { w with stage := .provisioning existing want }
      else none

/-- The first statement of a request: the account is looked up. -/
def receive (w : PushRun) (a : Accounts) : Option PushRun :=
  match w.request with
  | .create want => w.lookUp a want
  | .replace id want =>
    match a.find w.provider.id id with
    | none => none
    | some u =>
      if !validUsername want.userName then none
      else some { w with stage := .naming u (a.scim u.id) want }
  | .patch id sets =>
    match a.find w.provider.id id with
    | none => none
    | some u => (patched u (a.scim u.id) sets).map fun want =>
        { w with stage := .naming u (a.scim u.id) want }
  | .delete id =>
    (a.find w.provider.id id).map fun u => { w with stage := .leaving u (some (a.scim u.id)) }

/-- The next statement of a request, with the time of it and the id it would draw; no
request is left when it has answered, its last read apart. -/
def next (w : PushRun) (a : Accounts) (now : Int) (newID : String) : Accounts × Option PushRun :=
  match w.stage with
  | .received => (a, w.receive a)
  | .reviving u want =>
    match a.setSCIM now u.id want.externalID none with
    | .error _ => (a, none)
    | .ok a => (a, some { w with stage := .naming u ⟨want.externalID, none⟩ want })
  | .provisioning u want =>
    match UserRepo.provision a.users now u.id w.provider.id with
    | .error _ => (a, none)
    | .ok users =>
      let columns := { a.scim u.id with externalID := want.externalID }
      ({ users := users, scim := Function.update a.scim u.id columns },
        some { w with stage := .naming { u with idpID := w.provider.id } columns want })
  | .creating want =>
    if !w.provider.autoProvision then (a, none)
    else
      match UserRepo.create a.users now newID (want.account w.provider) with
      | .error _ => (a, none)
      | .ok users =>
        ({ users := users, scim := Function.update a.scim newID ⟨want.externalID, none⟩ },
          if want.active = some false then
            some { w with
              stage := .leaving (UserRepo.created now newID (want.account w.provider)) none }
          else none)
  | .naming u columns want =>
    if want.userName ≠ "" ∧ want.userName ≠ u.username then
      match UserRepo.rename a.users now u.id want.userName with
      | .error _ => (a, none)
      | .ok users =>
        ({ a with users := users },
          some { w with stage := .updating { u with username := want.userName } columns want })
    else (a, some { w with stage := .updating u columns want })
  | .updating u columns want =>
    if want.nameFor u ≠ u.displayName ∨ want.emailFor u ≠ u.email then
      match UserRepo.update a.users now u.id (want.nameFor u) (want.emailFor u)
          (.known u.status) with
      | .error _ => (a, none)
      | .ok users =>
        ({ a with users := users },
          some { w with
            stage := .marking { u with displayName := want.nameFor u, email := want.emailFor u }
              columns want })
    else (a, some { w with stage := .marking u columns want })
  | .marking u columns want =>
    if want.externalIDSet ∧ want.externalID ≠ columns.externalID then
      match a.setSCIM now u.id want.externalID columns.deletedAt with
      | .error _ => (a, none)
      | .ok a => (a, some { w with stage := .activating u want })
    else (a, some { w with stage := .activating u want })
  | .activating u want =>
    match want.active with
    | none => (a, none)
    | some true =>
      if u.awaitsReturn then
        ({ a with users := UserRepo.enableReturned a.users now u.id }, none)
      else (a, none)
    | some false => (a, some { w with stage := .leaving u none })
  | .leaving u hides =>
    if u.status ≠ .active then (a, w.afterLeave u hides)
    else if leaveCheck a.users u then (a, some { w with stage := .disabling u hides })
    -- the last active administrator
    else (a, none)
  | .disabling u hides =>
    ({ a with users := UserRepo.disableRemoved a.users u.id now }, w.afterLeave u hides)
  | .concealing u columns =>
    match a.setSCIM now u.id columns.externalID (some now) with
    | .error _ => (a, none)
    | .ok a => (a, none)

end PushRun

/-! ## What one statement of a request can do -/

/-- The changes a statement of a request makes to the accounts. -/
inductive PushEffect (tbl : Users) : Users → Prop
  | nothing : PushEffect tbl tbl
  | stamp (now : Int) (id : String) :
      PushEffect tbl (tbl.update (fun u => u.id = id)
        (fun u => { u with updatedAt := timeArg now }) fun _ => rfl)
  | provision {tbl' : Users} {now : Int} {id idpID : String}
      (h : UserRepo.provision tbl now id idpID = .ok tbl') : PushEffect tbl tbl'
  | create {tbl' : Users} {now : Int} {newID : String} {provider : OpenedProvider}
      {want : Desired}
      (h : UserRepo.create tbl now newID (want.account provider) = .ok tbl') :
      PushEffect tbl tbl'
  | rename {tbl' : Users} {now : Int} {id username : String}
      (h : UserRepo.rename tbl now id username = .ok tbl') : PushEffect tbl tbl'
  | profile {tbl' : Users} {now : Int} {id displayName email : String} {status : StatusText}
      (h : UserRepo.update tbl now id displayName email status = .ok tbl') : PushEffect tbl tbl'
  | enable (now : Int) (id : String) : PushEffect tbl (UserRepo.enableReturned tbl now id)
  | disable (now : Int) (id : String) : PushEffect tbl (UserRepo.disableRemoved tbl id now)

theorem Accounts.setSCIM_effect {a a' : Accounts} {now : Int} {id externalID : String}
    {deleted : Option Int} (h : a.setSCIM now id externalID deleted = .ok a') :
    PushEffect a.users a'.users := by
  unfold Accounts.setSCIM at h
  split at h <;> cases h
  exact .stamp now id

/-- What a statement of a push can do to the accounts. -/
theorem PushRun.next_effect (w : PushRun) (a : Accounts) (now : Int) (newID : String) :
    PushEffect a.users (w.next a now newID).1.users := by
  unfold PushRun.next
  cases w.stage <;> dsimp only
  case received => exact .nothing
  case reviving | concealing =>
    split
    · exact .nothing
    · rename_i hset
      exact Accounts.setSCIM_effect hset
  case provisioning u want =>
    split
    · exact .nothing
    · rename_i hprovision
      exact .provision hprovision
  case creating want =>
    split
    · exact .nothing
    split
    · exact .nothing
    · rename_i hcreate
      exact .create hcreate
  case naming u columns want =>
    split
    · split
      · exact .nothing
      · rename_i hrename
        exact .rename hrename
    · exact .nothing
  case updating u columns want =>
    split
    · split
      · exact .nothing
      · rename_i hupdate
        exact .profile hupdate
    · exact .nothing
  case marking u columns want =>
    split
    · split
      · exact .nothing
      · rename_i hset
        exact Accounts.setSCIM_effect hset
    · exact .nothing
  case activating u want =>
    split
    · exact .nothing
    · split
      · exact .enable now u.id
      · exact .nothing
    · exact .nothing
  case leaving u hides =>
    split
    · exact .nothing
    · split <;> exact .nothing
  case disabling u hides => exact .disable now u.id

end Zanskar
