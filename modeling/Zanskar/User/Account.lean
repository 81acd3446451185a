import Zanskar.Go.Text
import Zanskar.Go.Time
import Zanskar.Lib.Table

/-!
# Accounts (`internal/user/user.go`, `internal/user/repo.go`)

The accounts and the statements on the tables `users` and `user_roles`. The roles
of an account are kept in its row here: a role row goes with its account, and no
statement of this development reads one without the other. Each statement is one
atomic step of whatever runs it; a method that makes several (`SetRoles`,
`Delete`) is given in its parts.
-/

namespace Zanskar

open Go

/-- The roles; any other text is refused by `ValidRole`. -/
inductive Role where
  | admin
  | auditor
  | user
  | other (text : String)
  deriving DecidableEq

/-- `ValidRole`. -/
def validRole : Role → Bool
  | .other _ => false
  | _ => true

/-- `NormalizeRoles`: the roles as they are kept, admin alone when it is there. -/
def normalizeRoles (roles : List Role) : List Role :=
  if roles.contains .admin then [.admin]
  else
    [Role.auditor, Role.user].filter roles.contains ++
      (roles.filter fun r => !validRole r).dedup

/-- The letters and digits of a username. -/
def isAlnum (c : Char) : Bool :=
  ('a' ≤ c && c ≤ 'z') || ('A' ≤ c && c ≤ 'Z') || ('0' ≤ c && c ≤ '9')

/-- A letter or digit and then at most 63 of the characters. -/
def namePart (other : Char → Bool) (cs : List Char) : Bool :=
  cs.head?.any isAlnum && cs.length ≤ 64 && cs.all fun c => isAlnum c || other c

/-- A label of a host name: letters, digits and inner hyphens, at most 63. -/
def hostLabel (cs : List Char) : Bool :=
  cs.head?.any isAlnum && cs.getLast?.any isAlnum && cs.length ≤ 63 &&
    cs.all fun c => isAlnum c || c = '-'

/-- `usernameRe`. -/
def usernameRe (cs : List Char) : Bool :=
  namePart (fun c => c = '.' || c = '_' || c = '-') cs && 2 ≤ cs.length

/-- `emailUsernameRe`: a name, and a host of at least two labels. -/
def emailUsernameRe (cs : List Char) : Bool :=
  match cs.splitOn '@' with
  | [name, host] =>
    namePart (fun c => c = '.' || c = '_' || c = '+' || c = '-') name &&
      2 ≤ (host.splitOn '.').length && (host.splitOn '.').all hostLabel
  | _ => false

/-- `ValidUsername`. The address form is ASCII, so its bytes are its characters. -/
def validUsername (s : String) : Bool :=
  usernameRe s.toList || (s.toList.length ≤ 254 && emailUsernameRe s.toList)

/-- The status of an account; the table keeps no other (its CHECK). -/
inductive AccountStatus where
  | active
  | disabled
  | locked
  deriving DecidableEq

/-- A status as a caller of `Update` gives it; any other text is refused there. -/
inductive StatusText where
  | known (status : AccountStatus)
  | other (text : String)
  deriving DecidableEq

/-- An account. -/
structure User where
  id : String
  username : String
  email : String
  displayName : String
  passwordHash : String
  status : AccountStatus
  roles : List Role
  idpID : String
  externalID : String
  lockedUntil : Option Int
  /-- When the directory sync disabled the account because the person left. -/
  directoryRemovedAt : Option Int
  updatedAt : Int
  deriving DecidableEq

/-- `HasRole`. -/
def User.hasRole (u : User) (r : Role) : Bool := u.roles.contains r

/-- `IsBlocked`: an administrator has disabled or locked the account. -/
def User.isBlocked (u : User) : Bool := u.status = .locked || u.status = .disabled

/-- `IsLocked`: the account may not sign in now. -/
def User.isLocked (u : User) (now : Int) : Bool :=
  u.isBlocked || match u.lockedUntil with
    | none => false
    | some until_ => now < until_

/-- An active account that holds admin. -/
def User.activeAdmin (u : User) : Bool := u.hasRole .admin && u.status = .active

theorem activeAdmin_iff (u : User) :
    u.activeAdmin ↔ u.hasRole .admin ∧ u.status = .active := by
  simp [User.activeAdmin]

/-- Why the repository refuses. -/
inductive UserError where
  | notFound
  | duplicate
  | lastAdmin
  | invalidRole
  | usernameShape
  | invalidInput (what : String)
  deriving DecidableEq

/-- The text of an error. -/
def UserError.text : UserError → String
  | .notFound => "user: not found"
  | .duplicate => "user: username or email already exists"
  | .lastAdmin => "user: cannot remove the last admin"
  | .invalidRole => "user: invalid role"
  | .usernameShape => "user: username must be 2-64 characters of letters, digits, '.', '_' or '-', or an email address"
  | .invalidInput what => "user: invalid input: " ++ what

/-- The tables `users` and `user_roles`. -/
abbrev Users := Lib.Table User.id

namespace UserRepo

/-! ## Reads -/

variable [Casing] in
/-- `GetByUsername`, in any case. -/
def getByUsername (tbl : Users) (username : String) : Option User :=
  tbl.rows.find? fun u => Casing.dbLower u.username = Casing.dbLower username

/-- `GetByExternalID`. -/
def getByExternalID (tbl : Users) (idpID externalID : String) : Option User :=
  tbl.rows.find? fun u => u.idpID = idpID && u.externalID = externalID

/-- `ListByIdP`, `ORDER BY id`. -/
def listByIdP (tbl : Users) (idpID : String) : List User :=
  (tbl.rows.filter fun u => u.idpID = idpID).insertionSort fun u v => u.id ≤ v.id

/-- `CountAdmins`: the active accounts that hold admin. -/
def countAdmins (tbl : Users) : Nat := tbl.rows.countP User.activeAdmin

/-- The count of `SetRoles` and `Delete`: the active administrators other than the
account. -/
def otherAdmins (tbl : Users) (id : String) : Nat :=
  tbl.rows.countP fun u => u.activeAdmin && u.id ≠ id

/-- The second count of `SetRoles`: the account holds admin. -/
def isAdmin (tbl : Users) (id : String) : Bool :=
  tbl.rows.any fun u => u.id = id && u.hasRole .admin

/-! ## Writes -/

variable {id : String} {tbl tbl' : Users} {now : Int} {newID : String} {u : User} {idpID : String}

section Update

variable [Casing] {displayName email : String}

/-- The row `Update` leaves. A change of status takes the account over from the
directory sync: the mark that the sync disabled it goes. -/
def updated (now : Int) (displayName email : String) (status : AccountStatus) (u : User) : User :=
  { u with
    displayName := displayName
    email := Casing.toLower (trimSpace email)
    status := status
    updatedAt := timeArg now
    directoryRemovedAt := if u.status ≠ status then none else u.directoryRemovedAt }

theorem updated_id (now : Int) (status : AccountStatus) (u : User) :
    (updated now displayName email status u).id = u.id := by
  unfold updated
  rfl

/-- An update gives nobody the role of an administrator. -/
theorem activeAdmin_updated (now : Int) (status : AccountStatus) (u : User) :
    (updated now displayName email status u).activeAdmin ↔
      u.hasRole .admin ∧ status = .active := by
  rw [activeAdmin_iff]
  simp [updated, User.hasRole]

/-- Another account has the address. -/
def emailTaken (tbl : Users) (id email : String) : Bool :=
  email ≠ "" && tbl.rows.any fun u => u.id ≠ id && u.email ≠ "" &&
    Casing.dbLower u.email = Casing.dbLower email

/-- `Update`: changes display name, email and status. -/
def update (tbl : Users) (now : Int) (id displayName email : String) (status : StatusText) :
    Except UserError Users :=
  if trimSpace displayName = "" then .error (.invalidInput "display name required")
  else
    match status with
    | .other _ => .error (.invalidInput "bad status")
    | .known status =>
      if emailTaken tbl id (Casing.toLower (trimSpace email)) then .error .duplicate
      else if (tbl.get id).isNone then .error .notFound
      else
        .ok (tbl.update (fun u => u.id = id) (updated now displayName email status)
          (updated_id now status))

/-- An update that succeeds found the account, and was given a known status. -/
theorem update_ok {status : StatusText}
    (h : update tbl now id displayName email status = .ok tbl') :
    ∃ st, status = .known st ∧ (∃ u ∈ tbl.rows, u.id = id) ∧
      tbl' = tbl.update (fun u => u.id = id) (updated now displayName email st)
        (updated_id now st) := by
  unfold update at h
  split at h
  · cases h
  split at h
  · cases h
  · split at h
    · cases h
    split at h
    · cases h
    rename_i hget
    rw [Option.isNone_iff_eq_none, ← ne_eq, Option.ne_none_iff_exists'] at hget
    obtain ⟨u, hu⟩ := hget
    exact ⟨_, rfl, ⟨u, Lib.Table.mem_of_get hu⟩, (Except.ok.inj h).symm⟩

end Update

/-- `SetRoles` up to its write: the roles are known, and taking admin away leaves
an active administrator. -/
def setRolesCheck (tbl : Users) (id : String) (roles : List Role) : Except UserError Unit :=
  if roles.any fun r => !validRole r then .error .invalidRole
  else if roles.contains .admin then .ok ()
  else if otherAdmins tbl id = 0 && isAdmin tbl id then .error .lastAdmin
  else .ok ()

/-- `SetRoles`' write: `setRolesTx` and the stamp. -/
def setRoles (tbl : Users) (now : Int) (id : String) (roles : List Role) : Users :=
  tbl.update (fun u => u.id = id)
    (fun u => { u with roles := normalizeRoles roles, updatedAt := timeArg now }) fun _ => rfl

/-- `Delete`'s count, for an account read with admin. -/
def deleteCheck (tbl : Users) (u : User) : Except UserError Unit :=
  if otherAdmins tbl u.id = 0 then .error .lastAdmin else .ok ()

/-- `Delete`'s write. -/
def delete (tbl : Users) (id : String) : Users := tbl.delete fun u => u.id = id

/-- `DisableRemoved`: disables an active account whose person has left the
directory, and marks it. -/
def disableRemoved (tbl : Users) (id : String) (at_ : Int) : Users :=
  tbl.update (fun u => u.id = id && u.status = .active)
    (fun u => { u with
      status := .disabled
      directoryRemovedAt := some (timeArg at_)
      updatedAt := timeArg at_ })
    fun _ => rfl

/-- The WHERE clause of `EnableReturned`. -/
def returns (id : String) (u : User) : Bool :=
  u.id = id && u.status = .disabled && u.directoryRemovedAt.isSome

/-- `EnableReturned`: enables an account the directory sync disabled. -/
def enableReturned (tbl : Users) (now : Int) (id : String) : Users :=
  tbl.update (returns id)
    (fun u => { u with
      status := .active
      directoryRemovedAt := none
      updatedAt := timeArg now })
    fun _ => rfl

/-- The WHERE clause of `LinkExternal`: no password, and no provider or this one
with nobody signed in yet. -/
def linkable (id idpID : String) (u : User) : Bool :=
  u.id = id && u.passwordHash = "" &&
    (u.idpID = "" || (u.idpID = idpID && u.externalID = ""))

/-- `LinkExternal`: ties the account to a provider's subject. -/
def linkExternal (tbl : Users) (now : Int) (id idpID externalID : String) :
    Except UserError Users :=
  if tbl.rows.any (linkable id idpID) then
    if tbl.rows.any fun u => u.id ≠ id && u.idpID = idpID && u.externalID = externalID then
      .error .duplicate
    else
      .ok (tbl.update (linkable id idpID)
        (fun u => { u with idpID := idpID, externalID := externalID, updatedAt := timeArg now })
        fun _ => rfl)
  else if (tbl.get id).isSome then .error .duplicate
  else .error .notFound

section Create

variable [Casing]

/-- The row `Create` inserts. -/
def created (now : Int) (newID : String) (u : User) : User :=
  { u with
    id := newID
    username := Casing.toLower u.username
    email := Casing.toLower (trimSpace u.email)
    roles := normalizeRoles u.roles
    updatedAt := timeArg now }

/-- The unique indexes on username, address and the subject at a provider. -/
def clashes (u v : User) : Bool :=
  Casing.dbLower v.username = Casing.dbLower u.username ||
    (u.email ≠ "" && v.email ≠ "" && Casing.dbLower v.email = Casing.dbLower u.email) ||
    (u.idpID ≠ "" && u.externalID ≠ "" && v.idpID = u.idpID && v.externalID = u.externalID)

/-- `Create`, under the id `NewID` drew. -/
def create (tbl : Users) (now : Int) (newID : String) (u : User) : Except UserError Users :=
  if !validUsername u.username then .error .usernameShape
  else if trimSpace u.displayName = "" then .error (.invalidInput "display name required")
  else if u.roles.any fun r => !validRole r then .error .invalidRole
  else if tbl.rows.any (clashes (created now newID u)) then .error .duplicate
  else
    match tbl.insert (created now newID u) with
    | none => .error .duplicate
    | some tbl' => .ok tbl'

/-- What `Create` does when it succeeds: the row is added, and it clashes with none. -/
theorem create_ok (h : create tbl now newID u = .ok tbl') :
    (∀ v ∈ tbl.rows, clashes (created now newID u) v = false) ∧
      ∀ v, v ∈ tbl'.rows ↔ v ∈ tbl.rows ∨ v = created now newID u := by
  unfold create at h
  split at h
  · cases h
  split at h
  · cases h
  split at h
  · cases h
  split at h
  · cases h
  rename_i hclash
  split at h
  · cases h
  rename_i hinsert
  cases h
  exact ⟨by simpa using hclash, fun v => Lib.Table.mem_insert hinsert⟩

theorem mem_of_create {v : User}
    (h : create tbl now newID u = .ok tbl') (hv : v ∈ tbl.rows) : v ∈ tbl'.rows :=
  ((create_ok h).2 v).mpr (Or.inl hv)

end Create

/-- A link that succeeds is of an account nobody else's subject names. -/
theorem linkExternal_ok {externalID : String}
    (h : linkExternal tbl now id idpID externalID = .ok tbl') :
    (∃ u ∈ tbl.rows, linkable id idpID u) ∧
      (∀ u ∈ tbl.rows, u.idpID = idpID → u.externalID = externalID → u.id = id) ∧
      tbl' = tbl.update (linkable id idpID)
        (fun u => { u with idpID := idpID, externalID := externalID, updatedAt := timeArg now })
        fun _ => rfl := by
  unfold linkExternal at h
  split at h
  · rename_i hany
    split at h
    · cases h
    rename_i hother
    obtain ⟨u, hu, hlinkable⟩ := List.any_eq_true.mp hany
    refine ⟨⟨u, hu, hlinkable⟩, ?_, (Except.ok.inj h).symm⟩
    intro v hv hidp hext
    -- the index on provider and subject would have refused the row
    by_contra hne
    exact hother (List.any_eq_true.mpr ⟨v, hv, by simp [hne, hidp, hext]⟩)
  · split at h <;> cases h

/-! ## Provisioning and passwords -/

/-- Why `Provision` fails: the index on provider and subject refuses the row, or the
account is gone, or it has a password or a provider by now. -/
inductive ProvisionError where
  | uniqueViolation
  | notFound
  | duplicate
  deriving DecidableEq

/-- The WHERE clause of `Provision`. -/
def provisionable (id : String) (u : User) : Bool :=
  u.id = id && u.idpID = "" && u.passwordHash = ""

/-- `Provision` as far as `users` goes: links an account nobody has signed in to yet
to a provider. A subject the row still has is left as it is. -/
def provision (tbl : Users) (now : Int) (id idpID : String) : Except ProvisionError Users :=
  if tbl.rows.any (provisionable id) then
    if tbl.rows.any fun u => provisionable id u && u.externalID ≠ "" &&
        tbl.rows.any fun v => v.id ≠ id && v.idpID = idpID && v.externalID = u.externalID then
      .error .uniqueViolation
    else
      .ok (tbl.update (provisionable id)
        (fun u => { u with idpID := idpID, updatedAt := timeArg now }) fun _ => rfl)
  else if (tbl.get id).isSome then .error .duplicate
  else .error .notFound

/-- Provisioning keeps subjects apart, like a link. -/
theorem provision_ok (h : provision tbl now id idpID = .ok tbl') :
    (∀ u ∈ tbl.rows, provisionable id u → u.externalID ≠ "" →
      ∀ v ∈ tbl.rows, v.idpID = idpID → v.externalID = u.externalID → v.id = id) ∧
      tbl' = tbl.update (provisionable id)
        (fun u => { u with idpID := idpID, updatedAt := timeArg now }) fun _ => rfl := by
  unfold provision at h
  split at h
  · split at h
    · cases h
    rename_i hother
    refine ⟨?_, (Except.ok.inj h).symm⟩
    intro u hu hprov hext v hv hidp hsame
    -- the subject the row still has meets the same index
    by_contra hne
    refine hother (List.any_eq_true.mpr ⟨u, hu, ?_⟩)
    rw [Bool.and_eq_true, Bool.and_eq_true]
    exact ⟨⟨hprov, by simp [hext]⟩, List.any_eq_true.mpr ⟨v, hv, by simp [hne, hidp, hsame]⟩⟩
  · split at h <;> cases h

variable [Casing] in
/-- `Rename`, under the index on the username in any case. -/
def rename (tbl : Users) (now : Int) (id username : String) : Except UserError Users :=
  let username := Casing.toLower (trimSpace username)
  if !validUsername username then .error .usernameShape
  else if (tbl.get id).isNone then .error .notFound
  else if tbl.rows.any fun u => u.id ≠ id && Casing.dbLower u.username = Casing.dbLower username then
    .error .duplicate
  else
    .ok (tbl.update (fun u => u.id = id)
      (fun u => { u with username := username, updatedAt := timeArg now }) fun _ => rfl)

/-- `SetPasswordHash`; it clears the lock too. -/
def setPasswordHash (tbl : Users) (now : Int) (id hash : String) : Except UserError Users :=
  if (tbl.get id).isNone then .error .notFound
  else
    .ok (tbl.update (fun u => u.id = id)
      (fun u => { u with passwordHash := hash, lockedUntil := none, updatedAt := timeArg now })
      fun _ => rfl)

end UserRepo

end Zanskar
