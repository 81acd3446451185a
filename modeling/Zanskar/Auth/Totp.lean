import Zanskar.Audit.Chain
import Zanskar.Go.Strings
import Zanskar.Lib.Machine
import Zanskar.Lib.Table

/-!
# One-time passwords (`internal/auth/totp.go`)

The authenticator and the recovery codes of one user, and the calls in flight on them. A call
reads in one statement and writes in another, so each is a label of its own and a run is one
interleaving of the statements of all calls.

- `used_codes_stay_used` : no code is accepted twice: the update in `claim` is guarded by the step
  accepted last, the one in `consumeRecovery` by the code being unused.
- `confirmed_is_kept` : a confirmed authenticator goes only by `Reset`, where what a call checked
  still holds when its transaction runs. The transactions of `Enroll` and `Confirm` are not guarded
  (`confirmed_is_swapped`).
-/

namespace Zanskar.Auth

open Go Lib List Option
open Audit (Digest hex)

/-- What is computed elsewhere: `totp.GenerateCodeCustom` of a secret at a Unix time (nothing
for a secret that is not base32), and SHA-256. -/
structure Otp where
  generateCode : Bytes → Int → Option Bytes
  sha256 : Bytes → Digest

/-- Why a call is refused. -/
inductive TotpError where
  | notEnrolled
  | alreadyEnrolled
  | badCode
  | reused
deriving DecidableEq

def TotpError.text : TotpError → String
  | .notEnrolled => "auth: totp not enrolled"
  | .alreadyEnrolled => "auth: totp already enrolled; reset it first"
  | .badCode => "auth: invalid code"
  | .reused => "auth: invalid code: already used"

/-- `recoveryCodeCount`. -/
def recoveryCodeCount : Nat := 8

/-- `totpPeriod`: seconds per code. -/
def totpPeriod : Int := 30

/-! ## Tables and calls -/

/-- A code that was compared, the secret it was compared with, and when. -/
structure Comparison where
  secret : Bytes
  code : Bytes
  now : Int
deriving DecidableEq

/-- The row of `mfa_totp`, with the secret as the key ring opens it. `confirmedBy` is history:
what the `Confirm` that confirmed it had compared. -/
structure Authenticator where
  secret : Bytes
  confirmedAt : Option Int
  lastStep : Option Int
  confirmedBy : Option Comparison
deriving DecidableEq

/-- A row of `mfa_recovery_codes`. -/
structure RecoveryCode where
  id : Bytes
  codeHash : Bytes
  usedAt : Option Int
deriving DecidableEq

/-- A call between two of its statements. -/
inductive TotpCall where
  /-- `Enroll` has found no confirmed authenticator and generated a secret. -/
  | enrolling (secret : Bytes)
  /-- `Confirm` has found a code right, for this step. -/
  | confirming (seen : Comparison) (step : Int)
  /-- `Verify` has found a code right, for this step. -/
  | claiming (step : Int)
  /-- `Verify` takes the code for a recovery code. -/
  | recovering (code : Bytes)
  /-- `consumeRecovery` has found the row of the code. -/
  | consuming (id : Bytes)
deriving DecidableEq

/-- What was accepted: the code of a step, or the recovery code of a row. -/
inductive Acceptance where
  | code (step : Int)
  | recovery (id : Bytes)
deriving DecidableEq

/-- The rows of one user, the calls in flight, and what has been accepted so far. -/
structure Totp where
  authenticator : Option Authenticator
  recovery : Table RecoveryCode.id
  calls : List TotpCall
  accepted : List Acceptance

/-- A user who has never enrolled. -/
def newTotp : Totp := ⟨none, .empty, [], []⟩

section

variable (p : Otp)

/-! ## The statements of the calls -/

/-- `hashRecovery`. -/
def hashRecovery (code : Bytes) : Bytes := hex (p.sha256 (lit "recovery:" ++ code)).1

/-- `validate`: the step among the current one and its neighbours that the code is of. -/
def validate (secret code : Bytes) (now : Int) : Option Int :=
  if code.length ≠ 6 then none
  else
    let step := now.tdiv totpPeriod
    [step - 1, step, step + 1].find? fun step =>
      p.generateCode secret (step * totpPeriod) = some code

/-- `Enrolled`: there is a confirmed authenticator. -/
def Totp.enrolled (s : Totp) : Bool := s.authenticator.any fun a => a.confirmedAt.isSome

/-- `secret`: the secret, and whether it is confirmed. -/
def Totp.secret (s : Totp) : Except TotpError (Bytes × Bool) :=
  match s.authenticator with
  | none => .error .notEnrolled
  | some a => .ok (a.secret, a.confirmedAt.isSome)

/-- What `Enroll` does before its transaction. -/
def Totp.enroll (s : Totp) (generated : Bytes) : Except TotpError TotpCall :=
  if s.enrolled then .error .alreadyEnrolled else .ok (.enrolling generated)

/-- The transaction of `Enroll`: the row goes, whatever it is, and a new one comes. -/
def Totp.enrollTx (s : Totp) (secret : Bytes) : Totp :=
  { s with authenticator := some ⟨secret, none, none, none⟩ }

/-- What `Confirm` does before its transaction. -/
def Totp.confirm (s : Totp) (code : Bytes) (now : Int) : Except TotpError TotpCall :=
  match s.secret with
  | .error e => .error e
  | .ok (secret, confirmed) =>
    if confirmed then .error .alreadyEnrolled
    else
      match validate p secret code now with
      | none => .error .badCode
      | some step => .ok (.confirming ⟨secret, code, now⟩ step)

/-- The transaction of `Confirm`: the row is confirmed, whatever its secret is now, and the
recovery codes are replaced. The ids and codes are drawn at random; an id drawn twice is
refused by the primary key, and everything is rolled back. -/
def Totp.confirmTx (s : Totp) (seen : Comparison) (step now : Int)
    (draws : List (Bytes × Bytes)) : Option Totp :=
  let rows : List RecoveryCode := draws.map fun (id, code) => ⟨id, hashRecovery p code, none⟩
  if h : (rows.map RecoveryCode.id).Nodup then
    some { s with
      authenticator := s.authenticator.map fun a =>
        { a with confirmedAt := some now, lastStep := some step, confirmedBy := some seen }
      recovery := ⟨rows, h⟩
      accepted := s.accepted ++ [.code step] }
  else none

/-- `Reset`. -/
def Totp.reset (s : Totp) : Totp := { s with authenticator := none, recovery := .empty }

/-- What `Verify` does before it writes or looks at the recovery codes. -/
def Totp.verify (s : Totp) (code : Bytes) (now : Int) : Except TotpError TotpCall :=
  match s.secret with
  | .error e => .error e
  | .ok (secret, confirmed) =>
    if !confirmed then .error .notEnrolled
    else
      let code := removeAll (ascii ' ') (trimSpaces code)
      match validate p secret code now with
      | some step => .ok (.claiming step)
      | none => .ok (.recovering code)

/-- The update of `claim`: the step becomes the last one, unless it or a later one was. -/
def Totp.claim (s : Totp) (step : Int) : Except TotpError Totp :=
  match s.authenticator with
  | some a =>
    if a.lastStep.all (· < step) then
      .ok { s with
        authenticator := some { a with lastStep := some step }
        accepted := s.accepted ++ [.code step] }
    else .error .reused
  | none => .error .reused

/-- The query of `consumeRecovery`: the last unused row with the hash of the code. -/
def Totp.selectRecovery (s : Totp) (code : Bytes) : Except TotpError TotpCall :=
  let code := toUpper (removeAll (ascii '-') code)
  if code.length ≠ 10 then .error .badCode
  else
    match (s.recovery.rows.filter fun r =>
        r.usedAt.isNone && r.codeHash = hashRecovery p code).getLast? with
    | some r => .ok (.consuming r.id)
    | none => .error .badCode

/-- The update of `consumeRecovery`: the row becomes used, unless it was. -/
def Totp.consumeRecovery (s : Totp) (id : Bytes) (now : Int) : Except TotpError Totp :=
  let unused (r : RecoveryCode) : Bool := r.id = id && r.usedAt.isNone
  if s.recovery.rows.any unused then
    .ok { s with
      recovery := s.recovery.update unused (fun r => { r with usedAt := some now }) fun _ => rfl
      accepted := s.accepted ++ [.recovery id] }
  else .error .badCode

/-! ## The machine -/

/-- The statements. A call begins with `enroll`, `confirm` or `verify`; the others take the
`i`-th call in flight on. -/
inductive TotpLabel where
  | enroll (generated : Bytes)
  | enrollTx (i : Nat)
  | confirm (code : Bytes) (now : Int)
  | confirmTx (i : Nat) (now : Int) (draws : List (Bytes × Bytes))
  | reset
  | verify (code : Bytes) (now : Int)
  | claim (i : Nat)
  | selectRecovery (i : Nat)
  | consumeRecovery (i : Nat) (now : Int)
  /-- A call ends in an error of the database or the key ring. -/
  | giveUp (i : Nat)
deriving DecidableEq

/-- A call is in flight, or has been refused. -/
def Totp.begin_ (s : Totp) : Except TotpError TotpCall → Totp
  | .ok call => { s with calls := s.calls ++ [call] }
  | .error _ => s

/-- The `i`-th call has ended. -/
def Totp.ended (s : Totp) (i : Nat) : Totp := { s with calls := s.calls.eraseIdx i }

def totpStep (s : Totp) : TotpLabel → Option Totp
  | .enroll generated => some (s.begin_ (s.enroll generated))
  | .enrollTx i =>
    match s.calls[i]? with
    | some (.enrolling secret) => some ((s.enrollTx secret).ended i)
    | _ => none
  | .confirm code now => some (s.begin_ (s.confirm p code now))
  | .confirmTx i now draws =>
    match s.calls[i]? with
    | some (.confirming seen step) =>
      if draws.length = recoveryCodeCount then
        some (((s.confirmTx p seen step now draws).getD s).ended i)
      else none
    | _ => none
  | .reset => some s.reset
  | .verify code now => some (s.begin_ (s.verify p code now))
  | .claim i =>
    match s.calls[i]? with
    | some (.claiming step) =>
      match s.claim step with
      | .ok t => some (t.ended i)
      | .error _ => some (s.ended i)
    | _ => none
  | .selectRecovery i =>
    match s.calls[i]? with
    | some (.recovering code) => some ((s.ended i).begin_ (s.selectRecovery p code))
    | _ => none
  | .consumeRecovery i now =>
    match s.calls[i]? with
    | some (.consuming id) =>
      match s.consumeRecovery id now with
      | .ok t => some (t.ended i)
      | .error _ => some (s.ended i)
    | _ => none
  | .giveUp i => if i < s.calls.length then some (s.ended i) else none

end

variable {p : Otp} {s t : Totp} {l : TotpLabel} {c : TotpCall} {r : Except TotpError TotpCall}
  {i : Nat} {now : Int} {id : Bytes} {seen : Comparison} {draws : List (Bytes × Bytes)}
  {code : Bytes} {k : Int} {later : List Acceptance} {a : Authenticator}

/-! ## What a statement does -/

@[simp]
theorem begin_authenticator : (s.begin_ r).authenticator = s.authenticator := by cases r <;> rfl

@[simp]
theorem begin_recovery : (s.begin_ r).recovery = s.recovery := by cases r <;> rfl

@[simp]
theorem begin_accepted : (s.begin_ r).accepted = s.accepted := by cases r <;> rfl

theorem mem_calls_begin : c ∈ (s.begin_ r).calls ↔ c ∈ s.calls ∨ r = .ok c := by
  cases r with
  | error e => simp [Totp.begin_]
  | ok call => simp [Totp.begin_, eq_comm]

theorem mem_calls_ended (h : c ∈ (s.ended i).calls) : c ∈ s.calls :=
  mem_of_mem_eraseIdx h

/-- A claim is of a later step than the last one. -/
theorem claim_eq_ok {step : Int} (h : s.claim step = .ok t) :
    ∃ a, s.authenticator = some a ∧ (∀ last, a.lastStep = some last → last < step) ∧
      t = { s with
        authenticator := some { a with lastStep := some step }
        accepted := s.accepted ++ [.code step] } := by
  unfold Totp.claim at h
  split at h
  · rename_i a ha
    split at h <;> cases h
    rename_i hlast
    refine ⟨a, ha, fun last hsome => ?_, rfl⟩
    rw [hsome] at hlast
    simpa using hlast
  · cases h

/-- A recovery code is consumed once. -/
theorem consumeRecovery_eq_ok (h : s.consumeRecovery id now = .ok t) :
    (∃ r ∈ s.recovery.rows, r.id = id ∧ r.usedAt = none) ∧
      t.authenticator = s.authenticator ∧ t.calls = s.calls ∧
      t.accepted = s.accepted ++ [.recovery id] ∧
      ∀ r' ∈ t.recovery.rows, ∃ r ∈ s.recovery.rows, r'.id = r.id ∧
        ((r.id = id ∨ r.usedAt ≠ none) → r'.usedAt ≠ none) := by
  unfold Totp.consumeRecovery at h
  dsimp only at h
  split at h <;> cases h
  rename_i hany
  obtain ⟨r, hr, hunused⟩ := any_eq_true.mp hany
  rw [Bool.and_eq_true, decide_eq_true_eq, isNone_iff_eq_none] at hunused
  refine ⟨⟨r, hr, hunused⟩, rfl, rfl, rfl, fun r' hr' => ?_⟩
  dsimp only at hr'
  rw [Table.mem_update] at hr'
  obtain ⟨r, hr, ⟨-, rfl⟩ | ⟨hcond, rfl⟩⟩ := hr'
  · exact ⟨r, hr, rfl, fun _ => some_ne_none _⟩
  · refine ⟨r', hr, rfl, fun hor => ?_⟩
    rw [Bool.and_eq_false_iff, decide_eq_false_iff_not, isNone_eq_false_iff,
      isSome_iff_ne_none] at hcond
    rcases hcond with hid | hused
    · exact hor.resolve_left hid
    · exact hused

theorem confirmTx_eq_some {step : Int} (h : s.confirmTx p seen step now draws = some t) :
    t.authenticator = s.authenticator.map (fun a =>
        { a with confirmedAt := some now, lastStep := some step, confirmedBy := some seen }) ∧
      t.calls = s.calls ∧ t.accepted = s.accepted ++ [.code step] := by
  unfold Totp.confirmTx at h
  dsimp only at h
  split at h <;> cases h
  exact ⟨rfl, rfl, rfl⟩

/-- What a call is that has just begun or read on: a `Confirm` has found a code of the secret
it read. -/
def TotpCall.Sound (p : Otp) : TotpCall → Prop
  | .confirming seen step => validate p seen.secret seen.code seen.now = some step
  | _ => True

theorem sound_of_enroll {generated : Bytes} (h : s.enroll generated = .ok c) : c.Sound p := by
  unfold Totp.enroll at h
  split at h <;> cases h
  trivial

theorem sound_of_confirm (h : s.confirm p code now = .ok c) : c.Sound p := by
  unfold Totp.confirm at h
  split at h
  · cases h
  · split at h
    · cases h
    · split at h
      · cases h
      · rename_i hvalid
        cases h
        exact hvalid

theorem sound_of_verify (h : s.verify p code now = .ok c) : c.Sound p := by
  unfold Totp.verify at h
  split at h
  · cases h
  · split at h
    · cases h
    · dsimp only at h
      split at h <;>
      · cases h
        trivial

theorem sound_of_selectRecovery (h : s.selectRecovery p code = .ok c) : c.Sound p := by
  unfold Totp.selectRecovery at h
  dsimp only at h
  split at h
  · cases h
  · split at h
    · cases h
      trivial
    · cases h

/-- What a statement does to the rows: nothing, or what one of the writes does. -/
inductive TotpEffect (s t : Totp) : TotpLabel → Prop
  | idle {l : TotpLabel} (authenticator : t.authenticator = s.authenticator)
      (recovery : t.recovery = s.recovery) (accepted : t.accepted = s.accepted) : TotpEffect s t l
  | enrolled {i : Nat} {secret : Bytes} (call : s.calls[i]? = some (.enrolling secret))
      (authenticator : t.authenticator = some ⟨secret, none, none, none⟩) :
      TotpEffect s t (.enrollTx i)
  | confirmed {i : Nat} {now : Int} {draws : List (Bytes × Bytes)} {seen : Comparison} {step : Int}
      (call : s.calls[i]? = some (.confirming seen step))
      (authenticator : t.authenticator = s.authenticator.map fun a =>
        { a with confirmedAt := some now, lastStep := some step, confirmedBy := some seen })
      (accepted : t.accepted = s.accepted ++ [.code step]) : TotpEffect s t (.confirmTx i now draws)
  | reset (authenticator : t.authenticator = none) : TotpEffect s t .reset
  | claimed {i : Nat} {a : Authenticator} {step : Int} (found : s.authenticator = some a)
      (guard : ∀ last, a.lastStep = some last → last < step)
      (authenticator : t.authenticator = some { a with lastStep := some step })
      (recovery : t.recovery = s.recovery) (accepted : t.accepted = s.accepted ++ [.code step]) :
      TotpEffect s t (.claim i)
  | consumed {i : Nat} {now : Int} {id : Bytes}
      (unused : ∃ r ∈ s.recovery.rows, r.id = id ∧ r.usedAt = none)
      (authenticator : t.authenticator = s.authenticator)
      (accepted : t.accepted = s.accepted ++ [.recovery id])
      (rows : ∀ r' ∈ t.recovery.rows, ∃ r ∈ s.recovery.rows, r'.id = r.id ∧
        ((r.id = id ∨ r.usedAt ≠ none) → r'.usedAt ≠ none)) : TotpEffect s t (.consumeRecovery i now)

theorem effect_begin : TotpEffect s (s.begin_ r) l :=
  .idle begin_authenticator begin_recovery begin_accepted

/-- The calls after a statement: those before, and one that is sound. -/
def SoundCalls (p : Otp) (s t : Totp) : Prop := ∀ c ∈ t.calls, c ∈ s.calls ∨ c.Sound p

theorem soundCalls_begin (h : ∀ c, r = .ok c → c.Sound p) :
    SoundCalls p s (s.begin_ r) := fun c hc => (mem_calls_begin.mp hc).imp_right (h c)

theorem soundCalls_ended (hcalls : t.calls = s.calls) : SoundCalls p s (t.ended i) :=
  fun _ hc => .inl (hcalls ▸ mem_calls_ended hc)

/-- **One statement.** -/
theorem step_spec (h : totpStep p s l = some t) : TotpEffect s t l ∧ SoundCalls p s t := by
  -- the call that ends is in none of the fields an effect is about
  have hidle : ∀ i, TotpEffect s (s.ended i) l := fun _ => .idle rfl rfl rfl
  cases l <;> rw [totpStep] at h
  case enroll generated =>
    cases h
    exact ⟨effect_begin, soundCalls_begin fun _ => sound_of_enroll⟩
  case confirm code now =>
    cases h
    exact ⟨effect_begin, soundCalls_begin fun _ => sound_of_confirm⟩
  case verify code now =>
    cases h
    exact ⟨effect_begin, soundCalls_begin fun _ => sound_of_verify⟩
  case reset =>
    cases h
    exact ⟨.reset rfl, fun _ hc => .inl hc⟩
  case giveUp i =>
    split at h <;> cases h
    exact ⟨hidle i, soundCalls_ended rfl⟩
  case enrollTx i =>
    split at h <;> cases h
    rename_i secret hcall
    exact ⟨.enrolled hcall rfl, soundCalls_ended rfl⟩
  case confirmTx i now draws =>
    split at h
    · rename_i seen step hcall
      split at h <;> cases h
      cases htx : s.confirmTx p seen step now draws with
      | none => exact ⟨hidle i, soundCalls_ended rfl⟩
      | some u =>
        obtain ⟨hauth, hcalls, haccepted⟩ := confirmTx_eq_some htx
        exact ⟨.confirmed hcall hauth haccepted, soundCalls_ended hcalls⟩
    · cases h
  case claim i =>
    split at h
    · split at h
      · rename_i hclaim
        cases h
        obtain ⟨a, ha, hlast, rfl⟩ := claim_eq_ok hclaim
        exact ⟨.claimed ha hlast rfl rfl rfl, soundCalls_ended rfl⟩
      · cases h
        exact ⟨hidle i, soundCalls_ended rfl⟩
    · cases h
  case selectRecovery i =>
    split at h <;> cases h
    refine ⟨.idle begin_authenticator begin_recovery begin_accepted, fun c hc => ?_⟩
    rcases mem_calls_begin.mp hc with hold | hnew
    · exact .inl (mem_calls_ended hold)
    · exact .inr (sound_of_selectRecovery hnew)
  case consumeRecovery i now =>
    split at h
    · split at h
      · rename_i hconsume
        cases h
        obtain ⟨hunused, hauth, hcalls, haccepted, hrows⟩ := consumeRecovery_eq_ok hconsume
        exact ⟨.consumed hunused hauth haccepted hrows, soundCalls_ended hcalls⟩
      · cases h
        exact ⟨hidle i, soundCalls_ended rfl⟩
    · cases h

/-! ## Codes are accepted once -/

/-- The statements of `Verify`, and its end. -/
def TotpLabel.verifying : TotpLabel → Bool
  | .verify _ _ => true
  | .claim _ => true
  | .selectRecovery _ => true
  | .consumeRecovery _ _ => true
  | .giveUp _ => true
  | _ => false

/-- The steps whose codes were accepted, in order. -/
def codeSteps (accepted : List Acceptance) : List Int :=
  accepted.filterMap fun
    | .code step => some step
    | .recovery _ => none

/-- The rows whose recovery codes were accepted. -/
def recovered (accepted : List Acceptance) : List Bytes :=
  accepted.filterMap fun
    | .code _ => none
    | .recovery id => some id

theorem codeSteps_code (accepted : List Acceptance) (step : Int) :
    codeSteps (accepted ++ [.code step]) = codeSteps accepted ++ [step] := by
  rw [codeSteps, filterMap_append]
  rfl

theorem codeSteps_recovery (accepted : List Acceptance) :
    codeSteps (accepted ++ [.recovery id]) = codeSteps accepted := by
  rw [codeSteps, filterMap_append]
  exact append_nil _

theorem recovered_code (accepted : List Acceptance) (step : Int) :
    recovered (accepted ++ [.code step]) = recovered accepted := by
  rw [recovered, filterMap_append]
  exact append_nil _

theorem recovered_recovery (accepted : List Acceptance) :
    recovered (accepted ++ [.recovery id]) = recovered accepted ++ [id] := by
  rw [recovered, filterMap_append]
  rfl

/-- What has been accepted since a `Confirm` of the step: codes of later and later steps, up
to the step in the row, and recovery codes that are used now. -/
structure AcceptedSince (k : Int) (later : List Acceptance) (s : Totp) : Prop where
  increasing : (k :: codeSteps later).Pairwise (· < ·)
  last : ∀ a, s.authenticator = some a →
    ∃ last, a.lastStep = some last ∧ ∀ step ∈ k :: codeSteps later, step ≤ last
  nodup : (recovered later).Nodup
  used : ∀ r ∈ s.recovery.rows, r.id ∈ recovered later → r.usedAt ≠ none

theorem AcceptedSince.claimed {step : Int} (h : AcceptedSince k later s)
    (ha : s.authenticator = some a) (hguard : ∀ last, a.lastStep = some last → last < step)
    (hauth : t.authenticator = some { a with lastStep := some step })
    (hrecovery : t.recovery = s.recovery) : AcceptedSince k (later ++ [.code step]) t := by
  obtain ⟨last, hlast, hle⟩ := h.last a ha
  have hlt : ∀ earlier ∈ k :: codeSteps later, earlier < step := fun earlier hearlier =>
    (hle earlier hearlier).trans_lt (hguard last hlast)
  refine ⟨?_, fun a' ha' => ?_, ?_, fun r hr hid => ?_⟩
  · rw [codeSteps_code, ← cons_append]
    refine pairwise_append.mpr ⟨h.increasing, pairwise_singleton _ _, ?_⟩
    intro earlier hearlier step' hstep'
    obtain rfl := mem_singleton.mp hstep'
    exact hlt earlier hearlier
  · cases hauth.symm.trans ha'
    refine ⟨step, rfl, fun earlier hearlier => ?_⟩
    rw [codeSteps_code, ← cons_append] at hearlier
    rcases mem_append.mp hearlier with hold | hnew
    · exact (hlt earlier hold).le
    · exact (mem_singleton.mp hnew).le
  · rw [recovered_code]
    exact h.nodup
  · rw [recovered_code] at hid
    rw [hrecovery] at hr
    exact h.used r hr hid

theorem AcceptedSince.consumed (h : AcceptedSince k later s)
    (hunused : ∃ r ∈ s.recovery.rows, r.id = id ∧ r.usedAt = none)
    (hauth : t.authenticator = s.authenticator)
    (hrows : ∀ r' ∈ t.recovery.rows, ∃ r ∈ s.recovery.rows, r'.id = r.id ∧
      ((r.id = id ∨ r.usedAt ≠ none) → r'.usedAt ≠ none)) :
    AcceptedSince k (later ++ [.recovery id]) t := by
  refine ⟨?_, fun a ha => ?_, ?_, fun r' hr' hid => ?_⟩
  · rw [codeSteps_recovery]
    exact h.increasing
  · rw [codeSteps_recovery]
    exact h.last a (hauth ▸ ha)
  · -- an unused row has not been accepted before
    obtain ⟨r, hr, rfl, hnone⟩ := hunused
    rw [recovered_recovery]
    refine nodup_append.mpr ⟨h.nodup, nodup_singleton _, ?_⟩
    rintro id hid id' hid' rfl
    obtain rfl := mem_singleton.mp hid'
    exact h.used r hr hid hnone
  · obtain ⟨r, hr, hsame, hused⟩ := hrows r' hr'
    rw [recovered_recovery, hsame] at hid
    rcases mem_append.mp hid with hold | hnew
    · exact hused (.inr (h.used r hr hold))
    · exact hused (.inl (mem_singleton.mp hnew))

/-- A statement of `Verify` accepts nothing, or something new. -/
theorem AcceptedSince.step (h : AcceptedSince k later s) (hstep : totpStep p s l = some t)
    (hl : l.verifying) :
    ∃ more, t.accepted = s.accepted ++ more ∧ AcceptedSince k (later ++ more) t := by
  cases (step_spec hstep).1 with
  | idle hauth hrecovery haccepted =>
    refine ⟨[], by rw [haccepted, append_nil], ?_⟩
    rw [append_nil]
    exact ⟨h.increasing, hauth ▸ h.last, h.nodup, hrecovery ▸ h.used⟩
  | enrolled | confirmed | reset => cases hl
  | claimed ha hguard hauth hrecovery haccepted =>
    exact ⟨_, haccepted, h.claimed ha hguard hauth hrecovery⟩
  | consumed hunused hauth haccepted hrows =>
    exact ⟨_, haccepted, h.consumed hunused hauth hrows⟩

/-- **Codes are used once.** Whatever the statements of the `Verify` calls after a `Confirm`
interleave to, and whatever the clock shows them: the steps whose codes are accepted, that of
the `Confirm` first, increase, and no recovery code is accepted twice. -/
theorem used_codes_stay_used {s₀ : Totp} {i : Nat} {now : Int} {draws : List (Bytes × Bytes)}
    {ls : List TotpLabel} (hconfirm : totpStep p s₀ (.confirmTx i now draws) = some s)
    (haccepted : s.accepted = s₀.accepted ++ [.code k])
    (hrun : RunWhere (totpStep p) (fun _ l => l.verifying = true) s ls t) :
    ∃ later, t.accepted = s.accepted ++ later ∧ (k :: codeSteps later).Pairwise (· < ·) ∧
      (recovered later).Nodup := by
  have hstart : AcceptedSince k [] s := by
    refine ⟨pairwise_singleton _ _, fun a ha => ?_, nodup_nil, fun r _ hid => nomatch hid⟩
    cases (step_spec hconfirm).1 with
    | idle _ _ hsame =>
      rw [haccepted] at hsame
      exact absurd hsame (by simp)
    | confirmed _ hauth hcode =>
      obtain ⟨a₀, -, rfl⟩ := map_eq_some_iff.mp (hauth.symm.trans ha)
      rw [haccepted] at hcode
      obtain rfl := by simpa using hcode
      exact ⟨k, rfl, fun step hstep => (mem_singleton.mp hstep).le⟩
  have hkeeps : ∃ later, t.accepted = s.accepted ++ later ∧ AcceptedSince k later t := by
    refine hrun.keeps (fun t => ∃ later, t.accepted = s.accepted ++ later ∧ AcceptedSince k later t)
      (fun t l u hl ⟨later, hlater, hsince⟩ hstep => ?_) ⟨[], (append_nil _).symm, hstart⟩
    obtain ⟨more, hmore, hsince⟩ := hsince.step hstep hl
    exact ⟨later ++ more, by rw [hmore, hlater, append_assoc], hsince⟩
  obtain ⟨later, hlater, hsince⟩ := hkeeps
  exact ⟨later, hlater, hsince.increasing, hsince.nodup⟩

/-- Codes that can be read: the length of the secret, and the number of the step. -/
def plainOtp : Otp where
  generateCode secret time := some (itoa (100000 * secret.length + (time / totpPeriod).toNat))
  sha256 text := ⟨(text.drop 9 ++ replicate 32 0).take 32, by simp⟩

/-- Eight recovery codes. -/
def plainDraws : List (Bytes × Bytes) :=
  (range recoveryCodeCount).map fun n => (itoa n, lit "CODE" ++ itoa (100000 + n))

/-- Two calls with one code, one with a code of the step before, and two with one recovery
code, after the code of step 6 has confirmed the authenticator. -/
def verifyCalls : List TotpLabel :=
  [.verify (lit "100007") 210, .verify (lit "100007") 210, .verify (lit "100006") 210, .claim 1,
    .claim 0, .claim 0, .verify (lit "code1-00003") 240, .verify (lit "CODE1-00003") 240,
    .selectRecovery 0, .selectRecovery 0, .consumeRecovery 1 241, .consumeRecovery 0 242]

theorem verify_calls_use_codes_once :
    ∃ s₀ s t later, totpStep plainOtp s₀ (.confirmTx 0 200 plainDraws) = some s ∧
      s.accepted = s₀.accepted ++ [.code 6] ∧
      RunWhere (totpStep plainOtp) (fun _ l => l.verifying = true) s verifyCalls t ∧
      t.accepted = s.accepted ++ later ∧ (6 :: codeSteps later).Pairwise (· < ·) ∧
      (recovered later).Nodup ∧ later = [.code 7, .recovery (itoa 3)] := by
  obtain ⟨s₀, s, -, hconfirm, haccepted, hcalls⟩ : ∃ s₀ s, Run (totpStep plainOtp) newTotp
      [.enroll (lit "A"), .enrollTx 0, .confirm (lit "100006") 200] s₀ ∧
      totpStep plainOtp s₀ (.confirmTx 0 200 plainDraws) = some s ∧
      s.accepted = s₀.accepted ++ [.code 6] ∧
      (execWhere (totpStep plainOtp) (fun _ l => l.verifying) s verifyCalls).any fun t =>
        t.accepted == s.accepted ++ [.code 7, .recovery (itoa 3)] :=
    Run.exists_step_of_decide (by decide +kernel)
  obtain ⟨t, hrun, hlater⟩ := RunWhere.of_execWhere_any (fun _ _ h => h) hcalls
  obtain ⟨later, hmore, hcodes, hrecovered⟩ := used_codes_stay_used hconfirm haccepted hrun
  refine ⟨s₀, s, t, later, hconfirm, haccepted, hrun, hmore, hcodes, hrecovered, ?_⟩
  exact append_cancel_left (hmore.symm.trans (eq_of_beq hlater))

/-! ## A confirmed authenticator is kept -/

/-- What the call checked still holds when its transaction runs: `Enroll` finds no confirmed
authenticator, and `Confirm` finds the secret it compared the code with, if any. -/
def stillHolds (s : Totp) : TotpLabel → Bool
  | .enrollTx i =>
    match s.calls[i]? with
    | some (.enrolling _) => !s.enrolled
    | _ => true
  | .confirmTx i _ _ =>
    match s.calls[i]? with
    | some (.confirming seen _) => s.authenticator.all fun a => a.secret = seen.secret
    | _ => true
  | _ => true

/-- Confirmed, with a code of its own secret. -/
def Authenticator.proved (p : Otp) (a : Authenticator) : Prop :=
  ∃ seen, a.confirmedBy = some seen ∧ seen.secret = a.secret ∧
    (validate p a.secret seen.code seen.now).isSome = true

/-- The calls in flight are sound, and a confirmed authenticator was proved. -/
structure Totp.Proved (p : Otp) (s : Totp) : Prop where
  calls : ∀ c ∈ s.calls, c.Sound p
  confirmed : ∀ a, s.authenticator = some a → a.confirmedAt ≠ none → a.proved p

theorem proved_newTotp : newTotp.Proved p where
  calls _ hc := nomatch hc
  confirmed _ ha := nomatch ha

/-- The secret a `Confirm` has compared its code with is that of the row it confirms. -/
theorem proved_of_confirming {step : Int} (hs : s.Proved p)
    (hcall : s.calls[i]? = some (.confirming seen step)) (ha : s.authenticator = some a)
    (hholds : stillHolds s (.confirmTx i now draws)) :
    Authenticator.proved p { a with
      confirmedAt := some now, lastStep := some step, confirmedBy := some seen } := by
  have hsecret : a.secret = seen.secret := by
    rw [stillHolds, hcall, ha] at hholds
    simpa using hholds
  have hsound : validate p seen.secret seen.code seen.now = some step :=
    hs.calls _ (mem_of_getElem? hcall)
  refine ⟨seen, rfl, hsecret.symm, ?_⟩
  rw [hsecret, hsound]
  rfl

/-- **One statement.** -/
theorem Totp.Proved.step (hs : s.Proved p) (hholds : stillHolds s l)
    (h : totpStep p s l = some t) : t.Proved p := by
  refine ⟨fun c hc => ((step_spec h).2 c hc).elim (hs.calls c) id, fun a' ha' hconf => ?_⟩
  cases (step_spec h).1 with
  | idle hauth => exact hs.confirmed a' (hauth ▸ ha') hconf
  | enrolled _ hauth =>
    cases hauth.symm.trans ha'
    exact absurd rfl hconf
  | confirmed hcall hauth =>
    obtain ⟨a, ha, rfl⟩ := map_eq_some_iff.mp (hauth.symm.trans ha')
    exact proved_of_confirming hs hcall ha hholds
  | reset hauth => cases hauth.symm.trans ha'
  | @claimed _ a _ ha _ hauth =>
    cases hauth.symm.trans ha'
    exact hs.confirmed a ha hconf
  | consumed _ hauth => exact hs.confirmed a' (hauth ▸ ha') hconf

/-- A confirmed authenticator survives every statement but that of `Reset`. -/
theorem confirmed_after_step (h : totpStep p s l = some t)
    (hholds : stillHolds s l) (hreset : l ≠ .reset) (ha : s.authenticator = some a)
    (hconf : a.confirmedAt ≠ none) :
    ∃ a', t.authenticator = some a' ∧ a'.confirmedAt ≠ none ∧ a'.secret = a.secret := by
  cases (step_spec h).1 with
  | idle hauth => exact ⟨a, hauth.trans ha, hconf, rfl⟩
  | enrolled hcall =>
    -- `Enroll` would have found the authenticator confirmed
    rw [stillHolds, hcall] at hholds
    have hnot : s.enrolled = false := by simpa using hholds
    rw [Totp.enrolled, ha, any_some, isSome_eq_false_iff, isNone_iff_eq_none] at hnot
    exact absurd hnot hconf
  | confirmed _ hauth =>
    rw [ha] at hauth
    exact ⟨_, hauth, some_ne_none _, rfl⟩
  | reset => exact absurd rfl hreset
  | claimed ha₁ _ hauth =>
    cases ha₁.symm.trans ha
    exact ⟨_, hauth, hconf, rfl⟩
  | consumed _ hauth => exact ⟨a, hauth.trans ha, hconf, rfl⟩

/-- **The second factor.** In every run in which what each call checked still holds when its
transaction runs, a confirmed authenticator was confirmed with a code of its own secret, and
no statement but that of `Reset` removes or replaces it. -/
theorem confirmed_is_kept {ls : List TotpLabel}
    (hrun : RunWhere (totpStep p) (fun s l => stillHolds s l = true) newTotp ls s) :
    (∀ a, s.authenticator = some a → a.confirmedAt ≠ none → a.proved p) ∧
      ∀ l t, stillHolds s l = true → l ≠ .reset → totpStep p s l = some t →
        ∀ a, s.authenticator = some a → a.confirmedAt ≠ none →
          ∃ a', t.authenticator = some a' ∧ a'.confirmedAt ≠ none ∧ a'.secret = a.secret := by
  have hproved : s.Proved p :=
    hrun.keeps (Totp.Proved p) (fun _ _ _ hholds hs hstep => hs.step hholds hstep) proved_newTotp
  exact ⟨hproved.confirmed, fun l t hholds hreset hstep a ha hconf =>
    confirmed_after_step hstep hholds hreset ha hconf⟩

/-- Two enrolments, the second one confirmed, and another that is refused. -/
def enrolAndConfirm : List TotpLabel :=
  [.enroll (lit "A"), .enroll (lit "BB"), .enrollTx 0, .enrollTx 0, .confirm (lit "100006") 200,
    .confirm (lit "200006") 200, .confirmTx 0 200 plainDraws, .enroll (lit "CCC")]

theorem enrol_and_confirm_is_kept :
    ∃ s a, RunWhere (totpStep plainOtp) (fun s l => stillHolds s l = true) newTotp
        enrolAndConfirm s ∧ s.authenticator = some a ∧ a.secret = lit "BB" ∧
      a.confirmedAt = some 200 ∧ a.proved plainOtp := by
  obtain ⟨s, hrun, a, ha, hsecret, hconf⟩ : ∃ s, RunWhere (totpStep plainOtp)
      (fun s l => stillHolds s l) newTotp enrolAndConfirm s ∧
        ∃ a ∈ s.authenticator, a.secret = lit "BB" ∧ a.confirmedAt = some 200 :=
    RunWhere.exists_of_decide (by decide +kernel) fun _ _ h => h
  exact ⟨s, a, hrun, ha, hsecret, hconf, (confirmed_is_kept hrun).1 a ha (hconf ▸ some_ne_none _)⟩

/-- An `Enroll` that began before the authenticator was confirmed. -/
def enrolOverConfirmed : List TotpLabel :=
  [.enroll (lit "A"), .enrollTx 0, .enroll (lit "BB"), .confirm (lit "100006") 200,
    .confirmTx 1 200 plainDraws]

/-- A `Confirm` that began before the secret was replaced. -/
def confirmReplaced : List TotpLabel :=
  [.enroll (lit "A"), .enrollTx 0, .confirm (lit "100006") 200, .enroll (lit "BB"), .enrollTx 1,
    .confirmTx 0 200 plainDraws]

/-- The authenticator that is confirmed is replaced by one that is not, with no `Reset`; and
a secret is confirmed with the code of another, which is none of its own. -/
theorem confirmed_is_swapped :
    (∃ s t a, Run (totpStep plainOtp) newTotp enrolOverConfirmed s ∧
      s.authenticator = some a ∧ a.secret = lit "A" ∧ a.confirmedAt = some 200 ∧
      totpStep plainOtp s (.enrollTx 0) = some t ∧
      t.authenticator = some ⟨lit "BB", none, none, none⟩) ∧
    ∃ s, Run (totpStep plainOtp) newTotp confirmReplaced s ∧
      s.authenticator =
        some ⟨lit "BB", some 200, some 6, some ⟨lit "A", lit "100006", 200⟩⟩ ∧
      validate plainOtp (lit "BB") (lit "100006") 200 = none := by
  constructor
  · obtain ⟨s, hrun, ⟨a, ha, hfields⟩, t, hstep, ht⟩ : ∃ s,
        Run (totpStep plainOtp) newTotp enrolOverConfirmed s ∧
        (∃ a ∈ s.authenticator, a.secret = lit "A" ∧ a.confirmedAt = some 200) ∧
        ∃ t ∈ totpStep plainOtp s (.enrollTx 0),
          t.authenticator = some ⟨lit "BB", none, none, none⟩ :=
      Run.of_exec_decide (by decide +kernel)
    exact ⟨s, t, a, hrun, ha, hfields.1, hfields.2, hstep, ht⟩
  · exact Run.exists_of_decide (by decide +kernel) fun _ _ h => ⟨h, by decide +kernel⟩

end Zanskar.Auth
