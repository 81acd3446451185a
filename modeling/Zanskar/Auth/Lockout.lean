import Zanskar.Lib.Machine
import Zanskar.User.Account

/-!
# Sign-in attempts and the account lock (`login`, `completeLogin`)

The password sign-ins of one account, one label for each statement. An attempt reads the
account and is refused while the lock runs; then the password is compared, which takes a
while, and the attempt counts a failure or completes. The lock is not read again: what
completes an attempt clears the lock whoever set it meanwhile.

- `lock_holds` : where a lock that still runs at an attempt's write was there at its read, it holds
  until it has run out;
- `right_password_clears_lock` : an attempt that read the account before the failures were counted
  clears the lock they set.

A new hash of the password (`SetPasswordHash` on the way) clears the lock as well, also when
the sign-in then still owes a second factor.
-/

namespace Zanskar.Auth

open Lib List

/-- The account as the sign-in reads it. -/
structure Account extends User where
  failedLogins : Int
  mustResetOnLogin : Bool
deriving DecidableEq

/-- What the handler is set up with: `VerifyPassword` and `NeedsRehash`, whether there are
directories to ask, and the budget of failures. -/
structure SignInConfig where
  verifyPassword : String → String → Bool
  needsRehash : String → Bool
  externalLogin : Bool
  maxFailures : Int
  lockFor : Int

/-! ## Statements on the account -/

/-- `RecordLoginFailure`: the failure is counted, and the account locked when it was one too
many. -/
def Account.recordLoginFailure (c : SignInConfig) (now : Int) (a : Account) : Account × Bool :=
  let failed := a.failedLogins + 1
  if failed < c.maxFailures then ({ a with failedLogins := failed }, false)
  else ({ a with failedLogins := 0, lockedUntil := some (now + c.lockFor) }, true)

/-- `RecordLoginSuccess`. -/
def Account.recordLoginSuccess (a : Account) : Account :=
  { a with failedLogins := 0, lockedUntil := none }

/-- `SetPasswordHash`. -/
def Account.setPasswordHash (hash : String) (mustChange : Bool) (a : Account) : Account :=
  { a with
    passwordHash := hash
    mustResetOnLogin := mustChange
    failedLogins := 0
    lockedUntil := none }

/-! ## Attempts -/

/-- An attempt between two of its statements, with the account it read. -/
inductive Attempt where
  /-- The password is being compared. -/
  | comparing (u : Account) (password : String)
  /-- A directory is being asked; the name was that of the account, or it was unknown. -/
  | asking (u : Option Account)
  /-- A directory has vouched for the account, which was not locked. -/
  | resolved (u : Account)
  /-- The password was wrong; the failure has not been counted. -/
  | failed
  /-- The password was right, and its new hash is to be stored. -/
  | storing (u : Account) (hash : String)
  /-- `completeLogin`. -/
  | completing (u : Account) (mustReset : Bool)
  /-- The sign-in is complete, and `RecordLoginSuccess` is due. -/
  | clearing (u : Account)
  /-- The session is to be issued, verified or not. -/
  | issuing (u : Account) (complete : Bool)
deriving DecidableEq

/-- The account as the attempt read it, when it found it not locked. -/
def Attempt.read : Attempt → Option Account
  | .comparing u _ => some u
  | .asking u => u
  | .resolved u => some u
  | .failed => none
  | .storing u _ => some u
  | .completing u _ => some u
  | .clearing u => some u
  | .issuing u _ => some u

/-- The account, the attempts in flight, the clock, and every instant until which counted
failures have locked the account. -/
structure SignIns where
  account : Account
  attempts : List Attempt
  clock : Int
  locks : List Int
deriving DecidableEq

/-- The statements; those that read the clock carry what it shows. -/
inductive SignInLabel where
  /-- `login` finds the account by its name. -/
  | read (password : String) (now : Int)
  /-- `login` finds no account by the name that was typed. -/
  | unknown
  | compare (i : Nat) (rehash : Option String)
  /-- No directory vouches for the credentials: they are wrong, or it could not say. -/
  | directoryRefuses (i : Nat) (wrong : Bool)
  /-- `Resolve` finds the account of the identity a directory vouches for. -/
  | resolve (i : Nat) (now : Int)
  /-- `Resolve` reads the account once more. -/
  | reload (i : Nat)
  | recordLoginFailure (i : Nat) (now : Int)
  | setPasswordHash (i : Nat) (now : Int)
  /-- `completeLogin` reads whether an authenticator is enrolled and whether one is due. -/
  | enrolled (i : Nat) (enrolled require : Bool)
  | recordLoginSuccess (i : Nat) (now : Int)
  | createSession (i : Nat) (now : Int)
  /-- An attempt ends in an error, or finds no slot to hash in. -/
  | giveUp (i : Nat)
deriving DecidableEq

/-- The `i`-th attempt has ended. -/
def SignIns.ended (s : SignIns) (i : Nat) : SignIns := { s with attempts := s.attempts.eraseIdx i }

/-- The `i`-th attempt goes on. -/
def SignIns.goesOn (s : SignIns) (i : Nat) (a : Attempt) : SignIns :=
  { s with attempts := s.attempts.set i a }

/-- The clock shows this, and never less again. -/
def SignIns.at_ (s : SignIns) (now : Int) : Option SignIns :=
  if s.clock ≤ now then some { s with clock := now } else none

section

variable (c : SignInConfig)

/-- What `login` does with the account it found. -/
def SignIns.login (s : SignIns) (password : String) (now : Int) : SignIns :=
  let u := s.account
  if u.passwordHash ≠ "" then
    if u.isLocked now then s
    else { s with attempts := s.attempts ++ [.comparing u password] }
  else if c.externalLogin then
    if u.isLocked now then s else { s with attempts := s.attempts ++ [.asking (some u)] }
  else s

/-- One statement. -/
def signInStep (s : SignIns) : SignInLabel → Option SignIns
  | .read password now => (s.at_ now).map fun s => s.login c password now
  | .unknown =>
    some (if c.externalLogin then { s with attempts := s.attempts ++ [.asking none] } else s)
  | .compare i rehash =>
    match s.attempts[i]? with
    | some (.comparing u password) =>
      if c.verifyPassword u.passwordHash password then
        match rehash with
        | some hash =>
          if c.needsRehash u.passwordHash then some (s.goesOn i (.storing u hash)) else none
        | none => some (s.goesOn i (.completing u u.mustResetOnLogin))
      else some (s.goesOn i .failed)
    | _ => none
  | .directoryRefuses i wrong =>
    match s.attempts[i]? with
    -- wrong credentials count against an account that was found by its name
    | some (.asking u) => some (if wrong && u.isSome then s.goesOn i .failed else s.ended i)
    | _ => none
  | .resolve i now =>
    match s.attempts[i]? with
    | some (.asking _) =>
      (s.at_ now).map fun s =>
        if s.account.isLocked now then s.ended i else s.goesOn i (.resolved s.account)
    | _ => none
  | .reload i =>
    match s.attempts[i]? with
    | some (.resolved u) => some (s.goesOn i (.completing u s.account.mustResetOnLogin))
    | _ => none
  | .recordLoginFailure i now =>
    match s.attempts[i]? with
    | some .failed =>
      (s.at_ now).map fun s =>
        let (account, locked) := s.account.recordLoginFailure c now
        { s.ended i with
          account := account
          locks := if locked then s.locks ++ [now + c.lockFor] else s.locks }
    | _ => none
  | .setPasswordHash i now =>
    match s.attempts[i]? with
    | some (.storing u hash) =>
      (s.at_ now).map fun s =>
        { s.goesOn i (.completing u u.mustResetOnLogin) with
          account := s.account.setPasswordHash hash u.mustResetOnLogin }
    | _ => none
  | .enrolled i enrolled require =>
    match s.attempts[i]? with
    | some (.completing u mustReset) =>
      let full := (enrolled || !require) && !mustReset
      some (s.goesOn i (if full && !enrolled then .clearing u else .issuing u false))
    | _ => none
  | .recordLoginSuccess i now =>
    match s.attempts[i]? with
    | some (.clearing u) =>
      (s.at_ now).map fun s =>
        { s.goesOn i (.issuing u true) with account := s.account.recordLoginSuccess }
    | _ => none
  | .createSession i now =>
    match s.attempts[i]? with
    | some (.issuing _ _) => (s.at_ now).map fun s => s.ended i
    | _ => none
  | .giveUp i => if i < s.attempts.length then some (s.ended i) else none

end

variable {c : SignInConfig} {s t : SignIns} {l : SignInLabel} {now : Int} {locks : List Int}
  {account : Account} {clock : Int} {i : Nat} {b : Attempt} {u : Account}

/-! ## What a statement does -/

/-- The statement clears the lock or completes a sign-in: the account as the attempt read it,
and the instant. -/
def SignIns.unlocks (s : SignIns) : SignInLabel → Option (Account × Int)
  | .setPasswordHash i now =>
    match s.attempts[i]? with
    | some (.storing u _) => some (u, now)
    | _ => none
  | .recordLoginSuccess i now =>
    match s.attempts[i]? with
    | some (.clearing u) => some (u, now)
    | _ => none
  | .createSession i now =>
    match s.attempts[i]? with
    | some (.issuing u true) => some (u, now)
    | _ => none
  | _ => none

/-- What a statement does to the lock: nothing, or it locks the account, or it clears the
lock. -/
inductive LockEffect (c : SignInConfig) (s : SignIns) (l : SignInLabel) (t : SignIns) : Prop
  | kept (hlock : t.account.lockedUntil = s.account.lockedUntil) (hlocks : t.locks = s.locks)
      (hclock : s.clock ≤ t.clock)
  | locked (hlock : t.account.lockedUntil = some (t.clock + c.lockFor))
      (hlocks : t.locks = s.locks ++ [t.clock + c.lockFor]) (hclock : s.clock ≤ t.clock)
  | cleared (u : Account) (hunlocks : s.unlocks l = some (u, t.clock))
      (hlock : t.account.lockedUntil = none) (hlocks : t.locks = s.locks)
      (hclock : s.clock ≤ t.clock)

/-- The attempts behind a statement read the account before it, or found it not locked. -/
def Reads (s t : SignIns) : Prop :=
  ∀ a ∈ t.attempts, ∀ u, a.read = some u →
    (∃ b ∈ s.attempts, b.read = some u) ∨ u.isLocked t.clock = false

theorem map_at_eq_some {f : SignIns → SignIns} (h : (s.at_ now).map f = some t) :
    s.clock ≤ now ∧ t = f { s with clock := now } := by
  unfold SignIns.at_ at h
  split at h <;> cases h
  rename_i hle
  exact ⟨hle, rfl⟩

theorem reads_same :
    Reads s ⟨account, s.attempts, clock, locks⟩ := fun a ha _ hu => .inl ⟨a, ha, hu⟩

theorem reads_ended :
    Reads s ⟨account, s.attempts.eraseIdx i, clock, locks⟩ := fun a ha _ hu =>
  .inl ⟨a, mem_of_mem_eraseIdx ha, hu⟩

theorem reads_goesOn {a : Attempt} (ha : s.attempts[i]? = some a)
    (hread : ∀ u, b.read = some u → a.read = some u) :
    Reads s ⟨account, s.attempts.set i b, clock, locks⟩ := by
  intro a' ha' u hu
  rcases mem_or_eq_of_mem_set ha' with hold | rfl
  · exact .inl ⟨a', hold, hu⟩
  · exact .inl ⟨a, mem_of_getElem? ha, hread u hu⟩

/-- An attempt begins, or goes on after another read, with an account that is not locked. -/
theorem reads_append (hfree : ∀ u, b.read = some u → u.isLocked clock = false) :
    Reads s ⟨account, s.attempts ++ [b], clock, locks⟩ := by
  intro a ha u hu
  rcases mem_append.mp ha with hold | hnew
  · exact .inl ⟨a, hold, hu⟩
  · obtain rfl := mem_singleton.mp hnew
    exact .inr (hfree u hu)

theorem reads_again (hfree : ∀ u, b.read = some u → u.isLocked clock = false) :
    Reads s ⟨account, s.attempts.set i b, clock, locks⟩ := by
  intro a ha u hu
  rcases mem_or_eq_of_mem_set ha with hold | rfl
  · exact .inl ⟨a, hold, hu⟩
  · exact .inr (hfree u hu)

theorem login_effect {password : String} (hle : s.clock ≤ now) :
    LockEffect c s (.read password now) (SignIns.login c { s with clock := now } password now) ∧
      Reads s (SignIns.login c { s with clock := now } password now) := by
  have hkept : LockEffect c s (.read password now) { s with clock := now } := .kept rfl rfl hle
  unfold SignIns.login
  dsimp only
  split
  · split
    · exact ⟨hkept, reads_same⟩
    · rename_i hfree
      refine ⟨.kept rfl rfl hle, reads_append fun u hu => ?_⟩
      cases hu
      exact Bool.eq_false_iff.mpr hfree
  · split
    · split
      · exact ⟨hkept, reads_same⟩
      · rename_i hfree
        refine ⟨.kept rfl rfl hle, reads_append fun u hu => ?_⟩
        cases hu
        exact Bool.eq_false_iff.mpr hfree
    · exact ⟨hkept, reads_same⟩

/-- What a statement does to the lock, and what the attempts behind it have read. -/
theorem step_effect (h : signInStep c s l = some t) : LockEffect c s l t ∧ Reads s t := by
  cases l <;> rw [signInStep] at h
  case read password now =>
    obtain ⟨hle, rfl⟩ := map_at_eq_some h
    exact login_effect hle
  case unknown =>
    cases h
    split
    · exact ⟨.kept rfl rfl le_rfl, reads_append fun _ h => nomatch h⟩
    · exact ⟨.kept rfl rfl le_rfl, reads_same⟩
  case compare i rehash =>
    split at h
    · rename_i u password ha
      split at h
      · split at h
        · split at h
          · cases h
            exact ⟨.kept rfl rfl le_rfl, reads_goesOn ha fun _ h => h⟩
          · cases h
        · cases h
          exact ⟨.kept rfl rfl le_rfl, reads_goesOn ha fun _ h => h⟩
      · cases h
        exact ⟨.kept rfl rfl le_rfl, reads_goesOn ha fun _ h => nomatch h⟩
    · cases h
  case directoryRefuses i wrong =>
    split at h <;> cases h
    rename_i u ha
    split
    · exact ⟨.kept rfl rfl le_rfl, reads_goesOn ha fun _ h => nomatch h⟩
    · exact ⟨.kept rfl rfl le_rfl, reads_ended⟩
  case resolve i now =>
    split at h
    · obtain ⟨hle, rfl⟩ := map_at_eq_some h
      split
      · exact ⟨.kept rfl rfl hle, reads_ended⟩
      · rename_i hfree
        refine ⟨.kept rfl rfl hle, reads_again fun u hu => ?_⟩
        cases hu
        exact Bool.eq_false_iff.mpr hfree
    · cases h
  case reload i =>
    split at h <;> cases h
    rename_i u ha
    exact ⟨.kept rfl rfl le_rfl, reads_goesOn ha fun _ h => h⟩
  case recordLoginFailure i now =>
    split at h
    · obtain ⟨hle, rfl⟩ := map_at_eq_some h
      refine ⟨?_, reads_ended⟩
      -- the failure that reaches the limit sets the lock
      by_cases hfew : s.account.failedLogins + 1 < c.maxFailures
      · simp only [Account.recordLoginFailure, hfew, if_true]
        exact .kept rfl rfl hle
      · simp only [Account.recordLoginFailure, hfew, if_false]
        exact .locked rfl rfl hle
    · cases h
  case setPasswordHash | recordLoginSuccess =>
    split at h
    · rename_i ha
      obtain ⟨hle, rfl⟩ := map_at_eq_some h
      -- both clear the lock with the counter
      exact ⟨.cleared _ (by rw [SignIns.unlocks, ha]; rfl) rfl rfl hle,
        reads_goesOn ha fun _ h => h⟩
    · cases h
  case enrolled i enrolled require =>
    split at h <;> cases h
    rename_i u mustReset ha
    refine ⟨.kept rfl rfl le_rfl, reads_goesOn ha fun _ h => ?_⟩
    split at h <;> exact h
  case createSession i now =>
    split at h
    · obtain ⟨hle, rfl⟩ := map_at_eq_some h
      exact ⟨.kept rfl rfl hle, reads_ended⟩
    · cases h
  case giveUp i =>
    split at h <;> cases h
    exact ⟨.kept rfl rfl le_rfl, reads_ended⟩

/-! ## The lock holds -/

/-- A lock that still runs at the instant of the statement was there when the attempt read the
account: no counted failure has locked the account in between. -/
def lockWasRead (s : SignIns) (l : SignInLabel) : Bool :=
  (s.unlocks l).all fun (u, now) =>
    s.account.lockedUntil.all fun until_ => until_ ≤ now || u.lockedUntil = some until_

/-- A lock that has not run out is in the row, none is longer than `lockFor` from now, and the
locks that attempts in flight have read have run out. -/
structure SignIns.Locked (c : SignInConfig) (s : SignIns) : Prop where
  row : ∀ until_ ∈ s.locks, until_ ≤ s.clock ∨
    ∃ later, s.account.lockedUntil = some later ∧ until_ ≤ later
  bounded : ∀ until_ ∈ s.locks, until_ ≤ s.clock + c.lockFor
  read : ∀ a ∈ s.attempts, ∀ u, a.read = some u → ∀ until_, u.lockedUntil = some until_ →
    until_ ≤ s.clock

theorem SignIns.Locked.run_out (hs : s.Locked c)
    (hread : lockWasRead s l) (hunlocks : s.unlocks l = some (u, now))
    (hle : s.clock ≤ now) (hu : ∀ until_, u.lockedUntil = some until_ → until_ ≤ s.clock) :
    ∀ until_ ∈ s.locks, until_ ≤ now := by
  intro until_ hmem
  rcases hs.row until_ hmem with hpast | ⟨later, hrow, hlater⟩
  · exact hpast.trans hle
  · rw [lockWasRead, hunlocks, Option.all_some, hrow] at hread
    dsimp only at hread
    rw [Option.all_some, Bool.or_eq_true, decide_eq_true_eq, decide_eq_true_eq] at hread
    rcases hread with hnow | hwas
    · exact hlater.trans hnow
    · exact hlater.trans ((hu later hwas).trans hle)

/-- The statements that clear the lock or complete a sign-in, the attempt they are of, and
when. -/
theorem unlocks_eq_some (h : s.unlocks l = some (u, now)) :
    (∃ i hash, l = .setPasswordHash i now ∧ s.attempts[i]? = some (.storing u hash)) ∨
    (∃ i, l = .recordLoginSuccess i now ∧ s.attempts[i]? = some (.clearing u)) ∨
    (∃ i, l = .createSession i now ∧ s.attempts[i]? = some (.issuing u true)) := by
  unfold SignIns.unlocks at h
  split at h
  · split at h <;> cases h
    exact .inl ⟨_, _, rfl, ‹_›⟩
  · split at h <;> cases h
    exact .inr (.inl ⟨_, rfl, ‹_›⟩)
  · split at h <;> cases h
    exact .inr (.inr ⟨_, rfl, ‹_›⟩)
  · cases h

theorem read_of_unlocks (h : s.unlocks l = some (u, now)) : ∃ a ∈ s.attempts, a.read = some u := by
  rcases unlocks_eq_some h with ⟨i, hash, -, ha⟩ | ⟨i, -, ha⟩ | ⟨i, -, ha⟩ <;>
  exact ⟨_, mem_of_getElem? ha, rfl⟩

/-- They are not taken before the instant of the statement before them. -/
theorem clock_le_of_unlocks (hunlocks : s.unlocks l = some (u, now))
    (h : signInStep c s l = some t) : s.clock ≤ now := by
  rcases unlocks_eq_some hunlocks with ⟨i, hash, rfl, ha⟩ | ⟨i, rfl, ha⟩ | ⟨i, rfl, ha⟩ <;>
  · rw [signInStep, ha] at h
    exact (map_at_eq_some h).1

theorem until_le_of_not_locked {until_ : Int} (h : u.isLocked now = false)
    (hu : u.lockedUntil = some until_) : until_ ≤ now := by
  rw [User.isLocked, Bool.or_eq_false_iff, hu] at h
  simpa using h.2

/-- **One statement** keeps the lock. -/
theorem SignIns.Locked.step (hs : s.Locked c) (hread : lockWasRead s l)
    (h : signInStep c s l = some t) : t.Locked c := by
  obtain ⟨heffect, hreads⟩ := step_effect h
  have hclock : s.clock ≤ t.clock := by
    cases heffect with
    | kept _ _ hclock | locked _ _ hclock | cleared _ _ _ _ hclock => exact hclock
  refine ⟨?_, ?_, fun a ha u hu until_ huntil => ?_⟩
  · intro until_ hmem
    cases heffect with
    | kept hlock hlocks _ =>
      rw [hlocks] at hmem
      rw [hlock]
      exact (hs.row until_ hmem).imp_left (·.trans hclock)
    | locked hlock hlocks _ =>
      rw [hlocks] at hmem
      refine .inr ⟨_, hlock, ?_⟩
      rcases mem_append.mp hmem with hold | hnew
      · exact (hs.bounded until_ hold).trans (Int.add_le_add_right hclock _)
      · exact (mem_singleton.mp hnew).le
    | cleared u hunlocks _ hlocks _ =>
      rw [hlocks] at hmem
      obtain ⟨a, ha, hau⟩ := read_of_unlocks hunlocks
      exact .inl (hs.run_out hread hunlocks hclock (hs.read a ha u hau) until_ hmem)
  · intro until_ hmem
    have hold : ∀ until_ ∈ s.locks, until_ ≤ t.clock + c.lockFor := fun until_ hmem =>
      (hs.bounded until_ hmem).trans (Int.add_le_add_right hclock _)
    cases heffect with
    | kept _ hlocks _ | cleared _ _ _ hlocks _ => exact hold until_ (hlocks ▸ hmem)
    | locked _ hlocks _ =>
      rw [hlocks] at hmem
      rcases mem_append.mp hmem with hmem | hnew
      · exact hold until_ hmem
      · exact (mem_singleton.mp hnew).le
  · rcases hreads a ha u hu with ⟨b, hb, hbu⟩ | hfree
    · exact (hs.read b hb u hbu until_ huntil).trans hclock
    · exact until_le_of_not_locked hfree huntil

/-- No attempts, and no lock set yet. -/
def newSignIns (account : Account) (clock : Int) : SignIns := ⟨account, [], clock, []⟩

theorem locked_newSignIns : (newSignIns account clock).Locked c where
  row _ hmem := nomatch hmem
  bounded _ hmem := nomatch hmem
  read _ ha := nomatch ha

/-- **The lock.** In every run in which a lock that still runs when an attempt writes was there
when the attempt read the account: an account that counted failures have locked stays locked
in its row until the lock has run out, and no attempt completes or clears the lock before. -/
theorem lock_holds {account : Account} {clock : Int} {ls : List SignInLabel}
    (hrun : RunWhere (signInStep c) (fun s l => lockWasRead s l = true)
      (newSignIns account clock) ls s) :
    (∀ until_ ∈ s.locks, until_ ≤ s.clock ∨
      ∃ later, s.account.lockedUntil = some later ∧ until_ ≤ later) ∧
    ∀ l t u now, lockWasRead s l = true → signInStep c s l = some t →
      s.unlocks l = some (u, now) → ∀ until_ ∈ s.locks, until_ ≤ now := by
  have hlocked : s.Locked c :=
    hrun.keeps (SignIns.Locked c) (fun _ _ _ hread hs hstep => hs.step hread hstep)
      locked_newSignIns
  refine ⟨hlocked.row, fun l t u now hread hstep hunlocks => ?_⟩
  obtain ⟨a, ha, hau⟩ := read_of_unlocks hunlocks
  exact hlocked.run_out hread hunlocks (clock_le_of_unlocks hunlocks hstep)
    (hlocked.read a ha u hau)

/-- Two failures lock the account for a quarter of an hour; the password is the hash. -/
def smallBudget : SignInConfig where
  verifyPassword hash password := hash = password
  needsRehash _ := false
  externalLogin := false
  maxFailures := 2
  lockFor := 900

def exampleAccount : Account where
  id := "u1"
  username := "dana"
  email := ""
  displayName := "Dana"
  passwordHash := "correct horse"
  status := .active
  roles := [.user]
  idpID := ""
  externalID := ""
  lockedUntil := none
  directoryRemovedAt := none
  updatedAt := 0
  failedLogins := 0
  mustResetOnLogin := false

/-- Two wrong passwords, the right one while the lock runs, and again when it has run out. -/
def lockedOut : List SignInLabel :=
  [.read "x" 1, .compare 0 none, .recordLoginFailure 0 2, .read "y" 3, .compare 0 none,
    .recordLoginFailure 0 4, .read "correct horse" 500, .read "correct horse" 904,
    .compare 0 none, .enrolled 0 false false]

theorem locked_out_until_lock_ran_out :
    ∃ s t, RunWhere (signInStep smallBudget) (fun s l => lockWasRead s l = true)
        (newSignIns exampleAccount 0) lockedOut s ∧ s.locks = [904] ∧
      signInStep smallBudget s (.recordLoginSuccess 0 905) = some t ∧
      t.account.lockedUntil = none ∧ ∀ until_ ∈ s.locks, until_ ≤ 905 := by
  obtain ⟨s, hrun, hlocks, hread, ⟨⟨u, now⟩, hunlocks, hnow⟩, t, hstep, hlock⟩ : ∃ s,
      RunWhere (signInStep smallBudget) (fun s l => lockWasRead s l)
        (newSignIns exampleAccount 0) lockedOut s ∧
      s.locks = [904] ∧ lockWasRead s (.recordLoginSuccess 0 905) ∧
      (∃ v ∈ s.unlocks (.recordLoginSuccess 0 905), v.2 = 905) ∧
      ∃ t ∈ signInStep smallBudget s (.recordLoginSuccess 0 905), t.account.lockedUntil = none :=
    RunWhere.exists_of_decide (by decide +kernel) fun _ _ h => h
  cases hnow
  exact ⟨s, t, hrun, hlocks, hstep, hlock, (lock_holds hrun).2 _ t u 905 hread hstep hunlocks⟩

/-- The right password is read before two wrong ones are counted. -/
def rightPasswordInFlight : List SignInLabel :=
  [.read "correct horse" 1, .read "x" 1, .read "y" 1, .compare 1 none, .compare 2 none,
    .recordLoginFailure 1 2, .recordLoginFailure 1 3, .compare 0 none, .enrolled 0 false false]

/-- The account is locked until 903; the attempt that read it at 1 completes at 4, and clears
the lock. -/
theorem right_password_clears_lock :
    ∃ s t u, Run (signInStep smallBudget) (newSignIns exampleAccount 0) rightPasswordInFlight s ∧
      903 ∈ s.locks ∧ s.account.lockedUntil = some 903 ∧
      signInStep smallBudget s (.recordLoginSuccess 0 4) = some t ∧
      s.unlocks (.recordLoginSuccess 0 4) = some (u, 4) ∧ t.account.lockedUntil = none := by
  obtain ⟨s, hrun, hlocks, huntil, ⟨⟨u, now⟩, hunlocks, hnow⟩, t, hstep, hlock⟩ : ∃ s,
      Run (signInStep smallBudget) (newSignIns exampleAccount 0) rightPasswordInFlight s ∧
      903 ∈ s.locks ∧ s.account.lockedUntil = some 903 ∧
      (∃ v ∈ s.unlocks (.recordLoginSuccess 0 4), v.2 = 4) ∧
      ∃ t ∈ signInStep smallBudget s (.recordLoginSuccess 0 4), t.account.lockedUntil = none :=
    Run.of_exec_decide (by decide +kernel)
  cases hnow
  exact ⟨s, t, u, hrun, hlocks, huntil, hstep, hunlocks, hlock⟩

end Zanskar.Auth
