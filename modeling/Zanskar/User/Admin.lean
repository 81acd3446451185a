import Zanskar.Httpx
import Zanskar.Policy.Validate
import Zanskar.User.Account

/-!
# An administrator's edit of an account (`internal/user/adminapi/handlers.go`)

`PUT /api/v1/users/{id}` reads its caller (`RequireRole`), then the account, and
then writes it, in statements of their own. `updateCheck` is everything from the
read of the account up to the write: the account as it was read, and the refusals
that rest on it. A field the request leaves out keeps the value that was read, the
status too.
-/

namespace Zanskar

open Go

/-- `updateRequest`: what it names changes. -/
structure UpdateRequest where
  displayName : String
  /-- `none` where the request leaves the address out. -/
  email : Option String
  /-- `none` where the request leaves the status out. -/
  status : Option StatusText
  deriving DecidableEq

/-- `ProviderHolds`: whether a provider still decides who its people are, with its
name. `none` is an error of the lookup. -/
abbrev ProviderHolds := String → Option (String × Bool)

/-- `fail`. -/
def UserError.answer : UserError → Answer
  | .notFound => ⟨404, "not_found", "no such user"⟩
  | .duplicate => ⟨409, "conflict", "username or email already exists"⟩
  | .lastAdmin => ⟨409, "last_admin", "this is the last active admin"⟩
  | e => badRequest e.text

/-- The edit about to be written, with the account it read. -/
structure PendingUpdate where
  callerID : String
  existing : User
  displayName : String
  email : String
  status : StatusText
  deriving DecidableEq

/-- `RequireRole(admin)`: the caller's account, by the session, is not blocked and
holds admin. -/
def adminCaller (tbl : Users) (callerID : String) : Bool :=
  match tbl.get callerID with
  | none => false
  | some u => !u.isBlocked && u.hasRole .admin

/-- The account was taken away by a provider that still holds its people. -/
def heldByProvider (holds : Option ProviderHolds) (existing : User) (status : StatusText) :
    Option Answer :=
  match holds with
  | none => none
  | some holds =>
    if status ≠ .known existing.status ∧ existing.directoryRemovedAt.isSome ∧ existing.idpID ≠ "" then
      match holds existing.idpID with
      | none => some internalError
      | some (name, true) => some ⟨409, "left_provider",
          name ++ " no longer has this person; the account is enabled again when it does"⟩
      | some (_, false) => none
    else none

/-- `update` up to its write. -/
def updateCheck (tbl : Users) (holds : Option ProviderHolds) (callerID id : String)
    (req : UpdateRequest) : Except Answer PendingUpdate :=
  match tbl.get id with
  | none => .error UserError.notFound.answer
  | some existing =>
    let status := req.status.getD (.known existing.status)
    if req.displayName ≠ "" ∧ (textError req.displayName false).isSome then
      .error (badRequest ("name " ++ (textError req.displayName false).getD ""))
    else if status ≠ .known .active ∧ callerID = id then
      .error ⟨409, "self", "you cannot disable or lock your own account"⟩
    else
      match heldByProvider holds existing status with
      | some answer => .error answer
      | none => .ok
          { callerID := callerID
            existing := existing
            displayName := if req.displayName = "" then existing.displayName else req.displayName
            email := req.email.getD existing.email
            status := status }

variable [Casing] in
/-- `update`'s write. -/
def PendingUpdate.write (p : PendingUpdate) (tbl : Users) (now : Int) : Except UserError Users :=
  UserRepo.update tbl now p.existing.id p.displayName p.email p.status

/-- What a pending edit rests on: the account is one that was read, and nobody takes
their own account out. -/
theorem updateCheck_ok {tbl : Users} {holds : Option ProviderHolds} {callerID id : String}
    {req : UpdateRequest} {p : PendingUpdate} (h : updateCheck tbl holds callerID id req = .ok p) :
    p.callerID = callerID ∧ p.existing ∈ tbl.rows ∧ p.existing.id = id ∧
      p.status = req.status.getD (.known p.existing.status) ∧
      (p.status = .known .active ∨ callerID ≠ id) := by
  unfold updateCheck at h
  split at h
  · cases h
  rename_i existing hget
  dsimp only at h
  split at h
  · cases h
  split at h
  · cases h
  rename_i hself
  split at h
  · cases h
  cases h
  obtain ⟨hmem, hid⟩ := Lib.Table.mem_of_get hget
  refine ⟨rfl, hmem, hid, rfl, ?_⟩
  by_cases hactive : req.status.getD (.known existing.status) = .known .active
  · exact .inl hactive
  · exact .inr fun he => hself ⟨hactive, he⟩

end Zanskar
