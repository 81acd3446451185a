import Zanskar.Lib.Check
import Zanskar.Policy.Overlap

/-!
# Validation (`internal/policy/policy.go`, `internal/textsafe/textsafe.go`)

`Policy.validate` checks a policy before it is stored and fills what a grant may
leave out. The source fills a default right before it checks the field; here the
defaults come first (`Grant.defaults`) and the checks follow in the source's order
on the filled grant, which none of the earlier checks reads.

What the rest of the development uses: a valid policy differs from what was sent
in its trimmed name and its grants alone (`validate_eq_ok`).
-/

namespace Zanskar

open Go Lib List

/-! ## Names and text -/

/-- `unsafeFormat`: a format character that changes how text is laid out or hides
in it. -/
def unsafeFormat (c : Char) : Bool :=
  inRange c 0x202A 0x202E || inRange c 0x2066 0x2069 || inRange c 0x2061 0x2064 ||
    c.toNat = 0x200B || c.toNat = 0x2060 || c.toNat = 0xFEFF || c.toNat = 0x00AD

/-- A line feed, a carriage return or a tab. -/
def lineBreak (c : Char) : Bool := c.toNat = 0x0A || c.toNat = 0x0D || c.toNat = 0x09

/-- The characters `check` refuses. -/
def unsafeChar (multiline : Bool) (c : Char) : Bool :=
  if lineBreak c then !multiline
  else isControl c || unsafeFormat c || c.toNat = 0x2028 || c.toNat = 0x2029

/-- The characters that count as something to see. -/
def visibleChar (c : Char) : Bool := !lineBreak c && !isSpace c && !isFormat c

/-- `textsafe.check`: why the text is refused. -/
def textError (s : String) (multiline : Bool) : Option String :=
  if s.toList.any (unsafeChar multiline) then
    some "must not contain control, direction-override or zero-width characters"
  else if !s.toList.any visibleChar && s ≠ "" then some "must contain a visible character"
  else none

/-! ## Errors -/

/-- What an error is, to the handler that answers it. -/
inductive ErrorClass where
  | notFound
  | duplicate
  | protocolNotForKind
  | unknownSubject
  | invalidInput
  deriving DecidableEq

/-- An error with its whole text. -/
structure PolicyError where
  cls : ErrorClass
  text : String
  deriving DecidableEq

/-- `ErrInvalidInput`, wrapped with what is wrong. -/
def invalid (msg : String) : PolicyError := ⟨.invalidInput, "policy: invalid input: " ++ msg⟩

/-- An error wrapped with where it was found. -/
def PolicyError.within (e : PolicyError) (place : String) : PolicyError :=
  { e with text := place ++ e.text }

/-- A check whose error says where it was made. -/
def within {α : Type} (place : String) (x : Except PolicyError α) : Except PolicyError α :=
  match x with
  | .error e => .error (e.within place)
  | .ok a => .ok a

@[simp] theorem within_eq_ok {α : Type} {place : String} {x : Except PolicyError α} {a : α} :
    within place x = .ok a ↔ x = .ok a := by
  cases x <;> simp [within]

/-! ## Limits -/

def maxSubjects : Nat := 64

def maxGrants : Nat := 32

def maxGrantTargets : Nat := 200

def maxTagKeys : Nat := 32

def maxTagValues : Nat := 16

def maxTagLen : Nat := 64

/-! ## Grants -/

def SubjectKind.text : SubjectKind → String
  | .group => "group"
  | .user => "user"
  | .other name => name

/-- A day as it is stored. -/
def normalDay (d : String) : Except PolicyError String :=
  let d := toLower (trimSpace d)
  match dayIndex d with
  | none => .error (invalid ("unknown day " ++ quote d))
  | some _ => .ok d

/-- The check of a clock, at the field it is in. -/
def clockCheck (field s : String) : Except PolicyError Unit :=
  require (parseClock s).isSome (invalid (field ++ ": want HH:MM, got " ++ quote s))

/-- `TimeWindow.validate`. -/
def TimeWindow.validate (zones : Zones) (w : TimeWindow) : Except PolicyError TimeWindow := do
  require (!w.days.isEmpty) (invalid "time window needs days")
  let days ← w.days.mapM normalDay
  clockCheck "from" w.fromClock
  clockCheck "to" w.toClock
  let tz := if w.tz = "" then "UTC" else w.tz
  require (zones.loadLocation tz).isSome (invalid ("unknown time zone " ++ quote tz))
  return { w with days := days, tz := tz }

/-- `validProtocols`: a protocol list against what the kind serves. -/
def validProtocols (kind : Kind) (protos : List Protocol) : Except PolicyError Unit := do
  require (!protos.isEmpty) (invalid "choose at least one protocol")
  eachOnce id
    (fun p => require (kindServes kind p)
      ⟨.protocolNotForKind, "policy: invalid input: protocol not served by the kind: a " ++
        kind.text ++ " does not serve " ++ quote p.text ++ " (it serves " ++
        ", ".intercalate ((kindProtocols kind).map Protocol.text) ++ ")"⟩)
    (fun _ => .ok ())
    (fun p => invalid (p.text ++ " is given twice")) [] protos

/-- The values of one tag key. -/
def tagValues (k : String) (vs : List String) : Except PolicyError Unit := do
  require (k ≠ "" && k.utf8ByteSize ≤ maxTagLen)
    (invalid ("tag keys are 1-" ++ toString maxTagLen ++ " characters"))
  require (!vs.isEmpty && vs.length ≤ maxTagValues)
    (invalid ("tag " ++ k ++ " needs 1-" ++ toString maxTagValues ++ " values"))
  eachOnce id
    (fun v => require (v ≠ "" && v.utf8ByteSize ≤ maxTagLen)
      (invalid ("tag " ++ k ++ ": values are 1-" ++ toString maxTagLen ++ " characters")))
    (fun _ => .ok ())
    (fun v => invalid ("tag " ++ k ++ ": value " ++ v ++ " is given twice")) [] vs

/-- `TagMatch.validate`. The source walks the keys in any order, here they come
sorted; which key an error names is all that depends on it. -/
def TagMatch.validate (m : TagMatch) : Except PolicyError Unit := do
  require (!m.keys.isEmpty) (invalid "a tag match needs at least one key")
  require (m.keys.size ≤ maxTagKeys) (invalid ("at most " ++ toString maxTagKeys ++ " tag keys"))
  m.keys.toList.forM fun kv => tagValues kv.1 kv.2

/-- The tag rule of a grant, where it has one. -/
def Grant.tagCheck (g : Grant) : Except PolicyError Unit :=
  match g.tags with
  | none => .ok ()
  | some tags => do
    tags.validate
    within "tags: " (validProtocols g.kind tags.protocols)

/-- What `validate` fills in: access standing, the target's sign-in, fifteen idle
minutes; and the file transfer it clears where no file moves. -/
def Grant.defaults (g : Grant) : Grant :=
  { g with
    allowFileTransfer :=
      if g.kind = .database ∨ g.kind = .application then false else g.allowFileTransfer
    access := if g.access = .other "" then .standing else g.access
    signIn := if g.signIn = .other "" then .target else g.signIn
    idleTimeoutMinutes := if g.idleTimeoutMinutes = 0 then 15 else g.idleTimeoutMinutes }

/-- An optional number is left out or in range. -/
def inBounds (lo hi : Int) : Option Int → Bool
  | none => true
  | some n => lo ≤ n && n ≤ hi

/-- The checks of `validate` on a grant, its windows aside. -/
def Grant.check (g : Grant) : Except PolicyError Unit := do
  require (validKind g.kind)
    (invalid ("kind must be one of " ++ ", ".intercalate (kinds.map Kind.text)))
  require (!g.targets.isEmpty || g.tags.isSome) (invalid "name targets or match tags")
  require (!g.allowDevTools || g.kind = .application)
    (invalid "developer tools are for application grants only")
  require (g.targets.length ≤ maxGrantTargets)
    (invalid ("at most " ++ toString maxGrantTargets ++ " targets"))
  eachOnce GrantTarget.id
    (fun t => require (t.id ≠ "") (invalid "a target needs its id"))
    (fun t => within ("target " ++ t.id ++ ": ") (validProtocols g.kind t.protocols))
    (fun t => invalid ("target " ++ t.id ++ " is named twice")) [] g.targets
  g.tagCheck
  require (g.access = .standing || g.access = .approval)
    (invalid "access must be standing or approval")
  require (g.signIn = .target || g.signIn = .own) (invalid "sign_in must be target or own")
  require (!(g.signIn = .own && g.kind = .application))
    (invalid "an application has no login of its own; sign_in must be target")
  require (1 ≤ g.idleTimeoutMinutes && g.idleTimeoutMinutes ≤ 24 * 60)
    (invalid "idle_timeout_minutes must be 1-1440")
  require (inBounds 1 (7 * 24 * 60) g.maxSessionMinutes)
    (invalid "max_session_minutes must be 1-10080")
  require (inBounds 1 3650 g.retentionDays) (invalid "retention_days must be 1-3650")

/-- `Grant.validate`. -/
def Grant.validate (zones : Zones) (g : Grant) : Except PolicyError Grant := do
  g.defaults.check
  let windows ← g.timeWindows.mapM (TimeWindow.validate zones)
  return { g.defaults with timeWindows := windows }

/-! ## Policies -/

/-- The subjects: groups and users by id, each once. -/
def subjectsCheck (subjects : List Subject) : Except PolicyError Unit := do
  require (subjects.length ≤ maxSubjects)
    (invalid ("at most " ++ toString maxSubjects ++ " groups and users"))
  eachOnce id
    (fun s => require ((s.kind = .group || s.kind = .user) && s.id ≠ "")
      (invalid "a subject is a group or a user, by id"))
    (fun _ => .ok ())
    (fun s => invalid (s.kind.text ++ " " ++ s.id ++ " is named twice")) [] subjects

/-- The grants, from the one at position `i`, after those with the given ids. -/
def validateGrants (zones : Zones) : Nat → List String → List Grant →
    Except PolicyError (List Grant)
  | _, _, [] => .ok []
  | i, ids, g :: gs => do
    let g ← within ("grant " ++ toString (i + 1) ++ ": ") (g.validate zones)
    require (g.id = "" || !ids.contains g.id)
      (invalid ("grant " ++ toString (i + 1) ++ " repeats grant id " ++ g.id))
    let rest ← validateGrants zones (i + 1) (if g.id = "" then ids else g.id :: ids) gs
    return g :: rest

/-- The checks on a policy's own text. -/
def Policy.textCheck (p : Policy) : Except PolicyError Unit := do
  require (p.name ≠ "" && p.name.utf8ByteSize ≤ 64) (invalid "name must be 1-64 characters")
  require (textError p.name false).isNone
    (invalid ("name " ++ (textError p.name false).getD ""))
  require (textError p.description true).isNone
    (invalid ("description " ++ (textError p.description true).getD ""))

/-- `Policy.Validate`: the policy as it is stored, or what is wrong with it. -/
def Policy.validate (zones : Zones) (p : Policy) : Except PolicyError Policy := do
  let named := { p with name := trimSpace p.name }
  named.textCheck
  subjectsCheck p.subjects
  require (!p.grants.isEmpty) (invalid "a policy needs at least one grant")
  require (p.grants.length ≤ maxGrants) (invalid ("at most " ++ toString maxGrants ++ " grants"))
  let grants ← validateGrants zones 0 [] p.grants
  return { named with grants := grants }

/-! ## What passes -/

variable {zones : Zones} {w w' : TimeWindow} {p p' : Policy} {subjects : List Subject}

/-- A day that validation let through is one of the seven. -/
theorem dayIndex_of_normalDay {d d' : String} (h : normalDay d = .ok d') :
    ∃ i, dayIndex d' = some i := by
  unfold normalDay at h
  dsimp only at h
  split at h
  · cases h
  · rename_i i hi
    obtain rfl := Except.ok.inj h
    exact ⟨i, hi⟩

theorem TimeWindow.validate_eq_ok :
    w.validate zones = .ok w' ↔
      w.days.isEmpty = false ∧ (parseClock w.fromClock).isSome ∧ (parseClock w.toClock).isSome ∧
        (zones.loadLocation (if w.tz = "" then "UTC" else w.tz)).isSome ∧
        ∃ days, w.days.mapM normalDay = .ok days ∧
          w' = { w with days := days, tz := if w.tz = "" then "UTC" else w.tz } := by
  rw [validate, then_eq_ok, bind_eq_ok]
  simp only [clockCheck, then_eq_ok, require_eq_ok, Bool.not_eq_true']
  constructor
  · rintro ⟨hne, days, hdays, hf, ht, hz, hret⟩
    exact ⟨hne, hf, ht, hz, days, hdays, (Except.ok.inj hret).symm⟩
  · rintro ⟨hne, hf, ht, hz, days, hdays, rfl⟩
    exact ⟨hne, days, hdays, hf, ht, hz, rfl⟩

/-- **What a valid policy is**: the policy that was sent with its name trimmed and
its grants normalised, all else as it was. -/
theorem Policy.validate_eq_ok :
    p.validate zones = .ok p' ↔
      Policy.textCheck { p with name := trimSpace p.name } = .ok () ∧
        subjectsCheck p.subjects = .ok () ∧ p.grants.isEmpty = false ∧
        p.grants.length ≤ maxGrants ∧
        ∃ grants, validateGrants zones 0 [] p.grants = .ok grants ∧
          p' = { p with name := trimSpace p.name, grants := grants } := by
  simp only [validate, then_eq_ok, require_eq_ok, Bool.not_eq_true', decide_eq_true_eq]
  rw [bind_eq_ok]
  refine and_congr_right fun _ => and_congr_right fun _ => and_congr_right fun _ =>
    and_congr_right fun _ => exists_congr fun grants => and_congr_right fun _ => ?_
  exact ⟨fun hret => (Except.ok.inj hret).symm, fun heq => by rw [heq]; rfl⟩

theorem kind_of_subjectsCheck (h : subjectsCheck subjects = .ok ()) :
    ∀ s ∈ subjects, s.kind = .group ∨ s.kind = .user := by
  intro s hs
  rw [subjectsCheck, then_eq_ok, eachOnce_eq_ok] at h
  have hkind := (h.2.1 s hs).1
  rw [require_eq_ok, Bool.and_eq_true, Bool.or_eq_true, decide_eq_true_eq, decide_eq_true_eq]
    at hkind
  exact hkind.1

/-- Validation keeps the subjects, and they are groups and users. -/
theorem subjects_of_validate (h : p.validate zones = .ok p') :
    p'.subjects = p.subjects ∧ ∀ s ∈ p'.subjects, s.kind = .group ∨ s.kind = .user := by
  obtain ⟨-, hsubjects, -, -, grants, -, rfl⟩ := Policy.validate_eq_ok.mp h
  exact ⟨rfl, kind_of_subjectsCheck hsubjects⟩

end Zanskar
