import Zanskar.Auth.Lockout

/-!
# Second-factor checks (`checkCode` in `internal/auth/handlers.go`)

Any number of half-finished sign-ins of one account send codes. A check waits for the account's lock
and holds it over three statements: it reads the account, compares the code, and counts a wrong one
or completes the sign-in. Time passes between any two of them.
-/

namespace Zanskar.Auth

open Lib

/-- Where the check that holds the account's lock is. -/
inductive CodeCheck where
  /-- The account is to be read. -/
  | reading
  /-- The code is to be compared. -/
  | comparing
  /-- It was wrong, and is to be counted. -/
  | counting
  /-- It was right. -/
  | completing
deriving DecidableEq

structure CodeChecks where
  account : Account
  /-- The checks that wait for the lock. -/
  waiting : Nat
  inside : Option CodeCheck
  clock : Int
  /-- The wrong codes compared since a sign-in was completed or a lock ran out. -/
  wrong : Nat
deriving DecidableEq

inductive CodeLabel where
  /-- A half-finished sign-in sends a code. -/
  | arrives
  | lock
  /-- `GetByID` and `IsLocked`. -/
  | read (found : Bool)
  /-- `check`: the code is right or wrong, or could not be compared. -/
  | check (right : Option Bool)
  | recordLoginFailure
  | recordLoginSuccess
  | passes (now : Int)
deriving DecidableEq

/-- A lock of the account runs out between the two instants. -/
def Account.runsOut (a : Account) (clock now : Int) : Bool :=
  a.lockedUntil.any fun until_ => clock < until_ && until_ ≤ now

/-- One statement, or time that passes. -/
def codeStep (c : SignInConfig) (s : CodeChecks) : CodeLabel → Option CodeChecks
  | .arrives => some { s with waiting := s.waiting + 1 }
  | .lock =>
    if s.inside = none ∧ 0 < s.waiting then
      some { s with waiting := s.waiting - 1, inside := some .reading }
    else none
  | .read found =>
    if s.inside = some .reading then
      some { s with
        inside := if found && !s.account.isLocked s.clock then some .comparing else none }
    else none
  | .check right =>
    if s.inside = some .comparing then
      match right with
      | some true => some { s with inside := some .completing }
      | some false => some { s with inside := some .counting, wrong := s.wrong + 1 }
      | none => some { s with inside := none }
    else none
  | .recordLoginFailure =>
    if s.inside = some .counting then
      some { s with account := (s.account.recordLoginFailure c s.clock).1, inside := none }
    else none
  | .recordLoginSuccess =>
    if s.inside = some .completing then
      some { s with account := s.account.recordLoginSuccess, inside := none, wrong := 0 }
    else none
  | .passes now =>
    if s.clock ≤ now then
      some { s with
        clock := now
        wrong := if s.account.runsOut s.clock now then 0 else s.wrong }
    else none

/-- The wrong codes that were compared and are to be counted. -/
def CodeChecks.due (s : CodeChecks) : Nat := if s.inside = some .counting then 1 else 0

/-- The lock that counted failures set runs. -/
def CodeChecks.Shut (s : CodeChecks) : Prop := ∃ until_ ∈ s.account.lockedUntil, s.clock < until_

/-- A check that has read the account found it not locked; and the wrong codes are counted, or
have locked the account. -/
structure CodeChecks.Inv (c : SignInConfig) (s : CodeChecks) : Prop where
  nonneg : 0 ≤ s.account.failedLogins
  free : s.inside ≠ none → s.inside ≠ some .reading → s.account.isLocked s.clock = false
  budget : s.Shut ∧ s.wrong ≤ c.maxFailures ∨
    s.wrong ≤ s.account.failedLogins + s.due ∧ s.wrong < c.maxFailures + s.due

variable {c : SignInConfig} {s t : CodeChecks} {l : CodeLabel}

theorem isLocked_iff {u : Account} {now : Int} :
    u.isLocked now ↔ u.isBlocked ∨ ∃ until_ ∈ u.lockedUntil, now < until_ := by
  rw [User.isLocked, Bool.or_eq_true]
  cases u.lockedUntil <;> simp

namespace CodeChecks.Inv

variable (h : s.Inv c)

include h

/-- A check that has read the account is in an account that no failures have locked. -/
theorem counted (hinside : s.inside ≠ none) (hread : s.inside ≠ some .reading) :
    s.wrong ≤ s.account.failedLogins + s.due ∧ s.wrong < c.maxFailures + s.due := by
  refine h.budget.resolve_left fun ⟨hshut, _⟩ => ?_
  exact Bool.noConfusion ((h.free hinside hread).symm.trans (isLocked_iff.mpr (.inr hshut)))

/-- The checks move on, and none is to be counted. -/
theorem moves {waiting : Nat} {inside : Option CodeCheck} (hbefore : s.inside ≠ some .counting)
    (hafter : inside ≠ some .counting)
    (hfree : inside ≠ none → inside ≠ some .reading → s.account.isLocked s.clock = false) :
    Inv c { s with waiting := waiting, inside := inside } where
  nonneg := h.nonneg
  free := hfree
  budget := by
    have hbudget := h.budget
    rw [due, if_neg hbefore] at hbudget
    rw [due, if_neg hafter]
    exact hbudget

/-- A code is wrong, and is to be counted. -/
theorem compared (hinside : s.inside = some .comparing) :
    Inv c { s with inside := some .counting, wrong := s.wrong + 1 } := by
  have hread : s.inside ≠ none ∧ s.inside ≠ some .reading := by simp [hinside]
  refine ⟨h.nonneg, fun _ _ => h.free hread.1 hread.2, .inr ?_⟩
  have hcounted := h.counted hread.1 hread.2
  simp only [due, hinside, reduceCtorEq, if_false, Option.some.injEq] at hcounted
  simp only [due, if_true]
  omega

theorem recordLoginFailure (hfor : 0 < c.lockFor) (hinside : s.inside = some .counting) :
    Inv c { s with account := (s.account.recordLoginFailure c s.clock).1, inside := none } := by
  have hcounted := h.counted (by simp [hinside]) (by simp [hinside])
  have hnonneg := h.nonneg
  simp only [due, hinside, if_true] at hcounted
  unfold Account.recordLoginFailure
  dsimp only
  split
  · refine ⟨?_, fun hnone => absurd rfl hnone, .inr ?_⟩
    · dsimp only
      omega
    · simp only [due, reduceCtorEq, if_false]
      omega
  · refine ⟨le_rfl, fun hnone => absurd rfl hnone, .inl ⟨⟨_, rfl, ?_⟩, ?_⟩⟩
    · dsimp only
      omega
    · dsimp only
      omega

theorem passes (hmax : 0 < c.maxFailures) {now : Int} (hle : s.clock ≤ now) :
    Inv c { s with
      clock := now
      wrong := if s.account.runsOut s.clock now then 0 else s.wrong } := by
  refine ⟨h.nonneg, fun hinside hread => ?_, ?_⟩
  · have hfree := h.free hinside hread
    rw [← Bool.not_eq_true, isLocked_iff] at hfree ⊢
    refine fun hlocked => hfree (hlocked.imp_right ?_)
    rintro ⟨until_, huntil, hlt⟩
    exact ⟨until_, huntil, hle.trans_lt hlt⟩
  · have hnonneg := h.nonneg
    split
    · refine .inr ?_
      dsimp only
      omega
    · rename_i hruns
      refine h.budget.imp_left ?_
      rintro ⟨⟨until_, huntil, hlt⟩, hwrong⟩
      refine ⟨⟨until_, huntil, not_le.mp fun hout => hruns ?_⟩, hwrong⟩
      rw [Account.runsOut, show s.account.lockedUntil = some until_ from huntil]
      simpa using ⟨hlt, hout⟩

/-- **One step.** -/
theorem step (hmax : 0 < c.maxFailures) (hfor : 0 < c.lockFor) (hstep : codeStep c s l = some t) :
    t.Inv c := by
  cases l with
  | arrives =>
    cases hstep
    exact ⟨h.nonneg, h.free, h.budget⟩
  | _ => ?_
  all_goals
    simp only [codeStep] at hstep
    split at hstep
  case lock.isTrue hinside =>
    cases hstep
    exact h.moves (by simp [hinside.1]) (by simp) fun _ hread => absurd rfl hread
  case read.isTrue found hinside =>
    cases hstep
    refine h.moves (by simp [hinside]) (by split <;> simp) fun hnone _ => ?_
    split at hnone
    · rename_i hfound
      exact (by simpa using hfound : _ ∧ _).2
    · exact absurd rfl hnone
  case check.isTrue right hinside =>
    split at hstep <;> cases hstep
    · refine h.moves (by simp [hinside]) (by simp) fun _ _ => ?_
      exact h.free (by simp [hinside]) (by simp [hinside])
    · exact h.compared hinside
    · exact h.moves (by simp [hinside]) (by simp) fun hnone => absurd rfl hnone
  case recordLoginFailure.isTrue hinside =>
    cases hstep
    exact h.recordLoginFailure hfor hinside
  case recordLoginSuccess.isTrue hinside =>
    cases hstep
    refine ⟨le_rfl, fun hnone => absurd rfl hnone, .inr ?_⟩
    simpa [due, Account.recordLoginSuccess] using hmax
  case passes.isTrue now hle =>
    cases hstep
    exact h.passes hmax hle
  all_goals cases hstep

end CodeChecks.Inv

/-- No code was sent yet. -/
def newCodeChecks (account : Account) (clock : Int) : CodeChecks := ⟨account, 0, none, clock, 0⟩

/-- **The budget.** In every interleaving of second-factor checks of one account: since a sign-in
was completed or a lock ran out at most `MaxFailures` wrong codes have been compared; when that
many have, the account is locked, or the last of them is about to be counted; and no code is
compared while the account is locked. -/
theorem codes_within_budget {account : Account} {clock : Int} {ls : List CodeLabel}
    (hmax : 0 < c.maxFailures) (hfor : 0 < c.lockFor) (hcount : 0 ≤ account.failedLogins)
    (hrun : Run (codeStep c) (newCodeChecks account clock) ls s) :
    s.wrong ≤ c.maxFailures ∧
    (s.wrong = c.maxFailures → s.inside = some .counting ∨ s.account.isLocked s.clock = true) ∧
    ∀ right t, codeStep c s (.check right) = some t → s.account.isLocked s.clock = false := by
  have h : s.Inv c := hrun.keeps (CodeChecks.Inv c)
    (fun _ _ _ _ hinv hstep => hinv.step hmax hfor hstep)
    ⟨hcount, fun hnone => absurd rfl hnone, .inr ⟨by simpa [newCodeChecks, CodeChecks.due], by
      simpa [newCodeChecks, CodeChecks.due] using hmax⟩⟩
  have hdue : s.inside ≠ some .counting → s.due = 0 := fun hinside => if_neg hinside
  refine ⟨?_, fun hwrong => ?_, fun right t hstep => ?_⟩
  · rcases h.budget with hshut | hcounted
    · exact hshut.2
    · have : s.due ≤ 1 := by unfold CodeChecks.due; split <;> omega
      omega
  · rcases h.budget with hshut | hcounted
    · exact .inr (isLocked_iff.mpr (.inr hshut.1))
    · by_contra hnot
      have := hdue fun hinside => hnot (.inl hinside)
      omega
  · simp only [codeStep] at hstep
    split at hstep
    · rename_i hinside
      exact h.free (by simp [hinside]) (by simp [hinside])
    · cases hstep

/-- Three codes are sent at once. Two are wrong and counted, and the third is not compared. -/
def threeCodes : List CodeLabel :=
  [.arrives, .arrives, .arrives, .lock, .read true, .check (some false), .recordLoginFailure,
    .lock, .read true, .check (some false), .recordLoginFailure, .lock, .read true]

theorem third_code_not_compared :
    ∃ s, Run (codeStep smallBudget) (newCodeChecks exampleAccount 0) threeCodes s ∧
      (s.wrong = 2 ∧ s.inside = none) ∧ s.wrong ≤ smallBudget.maxFailures ∧
      (s.inside = some .counting ∨ s.account.isLocked s.clock = true) :=
  Run.exists_of_decide (P := fun s => s.wrong = 2 ∧ s.inside = none) (by decide +kernel)
    fun s hrun hs => by
      have h := codes_within_budget (by decide) (by decide) (by decide) hrun
      exact ⟨hs, h.1, h.2.1 (by rw [hs.1]; rfl)⟩

end Zanskar.Auth
