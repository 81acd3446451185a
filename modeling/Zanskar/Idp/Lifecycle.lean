import Zanskar.User.Account

/-!
# What a provider does to accounts (`internal/idp/lifecycle.go`, `idp.go`, `sync.go`)

A provider's word about a person reaches an account in three ways: `Lifecycle`
disables it when they leave and enables it when they return, `adopt` and `create`
give a person with no linked account one, and the name and address the provider has
are written over those of the account. Every one of them works on an account that
was read before, so each is given here as a function of that copy; the statements
it then makes are those of `UserRepo`.
-/

namespace Zanskar

open Go

/-- What a provider asserts of a person, its groups apart. -/
structure Person where
  externalID : String
  username : String
  displayName : String
  email : String
  deriving DecidableEq

/-- The provider, as far as accounts depend on it. -/
structure OpenedProvider where
  id : String
  autoProvision : Bool
  defaultRoles : List Role

/-- `firstNonEmpty`. -/
def firstNonEmpty (a b : String) : String := if a ≠ "" then a else b

/-! ## Leaving and returning -/

/-- `Leave` up to its write: whether it goes on to disable. An account that was not
active stays, and so does the last active administrator. -/
def leaveCheck (tbl : Users) (u : User) : Bool :=
  u.status = .active && (!u.hasRole .admin || 1 < UserRepo.countAdmins tbl)

/-- `Return` tries to enable the account. -/
def User.awaitsReturn (u : User) : Bool := u.status = .disabled && u.directoryRemovedAt.isSome

/-- The copy `Return` leaves when it enabled the account. -/
def User.returned (u : User) : User := { u with status := .active, directoryRemovedAt := none }

/-! ## Accounts for people without one -/

/-- Why an account is not resolved. -/
inductive ResolveError where
  | conflict (what : String)
  | locked
  deriving DecidableEq

/-- `adopt` between its read and its write: the account with the person's username
is theirs to take when it has no password and nobody's subject. -/
def adoptCheck (p : OpenedProvider) (now : Int) (u : User) : Except ResolveError Unit :=
  if u.passwordHash ≠ "" then
    .error (.conflict ("a local account named " ++ quote u.username ++
      " has a password; remove it or rename one of them"))
  else if u.idpID = p.id ∧ u.externalID = "" then
    if u.isLocked now then .error .locked else .ok ()
  else if u.idpID = p.id then
    .error (.conflict ("the local account " ++ quote u.username ++
      " is linked to a different identity at this provider"))
  else if u.idpID ≠ "" then
    .error (.conflict ("the local account " ++ quote u.username ++
      " is linked to another identity provider"))
  else if u.isLocked now then .error .locked
  else .ok ()

/-- The copy `adopt` leaves when it linked the account. -/
def User.linked (u : User) (p : OpenedProvider) (person : Person) : User :=
  { u with idpID := p.id, externalID := person.externalID }

/-- The account `create` asks for. -/
def Person.account (p : OpenedProvider) (person : Person) : User where
  id := ""
  username := person.username
  email := person.email
  displayName := if person.displayName = "" then person.username else person.displayName
  passwordHash := ""
  status := .active
  roles := p.defaultRoles
  idpID := p.id
  externalID := person.externalID
  lockedUntil := none
  directoryRemovedAt := none
  updatedAt := 0

/-! ## Names and addresses -/

/-- The name written over the account's. -/
def Person.nameFor (person : Person) (u : User) : String :=
  if person.displayName = "" then u.displayName else person.displayName

/-- `keep` writes the profile. -/
def Person.keepWrites (person : Person) (u : User) : Bool :=
  person.nameFor u ≠ u.displayName || firstNonEmpty person.email u.email ≠ u.email

/-- `Resolve` writes the profile. -/
def Person.signInWrites (person : Person) (u : User) : Bool :=
  u.displayName ≠ person.displayName || (person.email ≠ "" && u.email ≠ person.email)

variable [Casing] in
/-- The profile write of both, with the status the copy has. -/
def Person.writeProfile (person : Person) (tbl : Users) (now : Int) (u : User) :
    Except UserError Users :=
  UserRepo.update tbl now u.id (person.nameFor u) (firstNonEmpty person.email u.email)
    (.known u.status)

/-! ## Who has left -/

/-- `leave` up to its loop: the active accounts the listing does not account for,
unless a guard holds the removals back. -/
def goneFrom (linked : List User) (kept : List String) (listed : Nat) (force : Bool) : List User :=
  let active := linked.filter fun u => u.status = .active
  let gone := active.filter fun u => !kept.contains u.id
  if listed = 0 ∧ force = false then []
  else if force = false ∧ 3 < gone.length ∧ active.length < 2 * gone.length then []
  else gone

end Zanskar
