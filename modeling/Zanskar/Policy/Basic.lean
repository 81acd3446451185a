import Zanskar.Go.Text
import Zanskar.Go.Time
import Zanskar.Protocol

/-!
# The policy model (`internal/policy/policy.go`)

A policy names its audience, any number of groups and users, and lists grants.
Each grant is complete on its own: a kind of target, which targets of that kind
(by name, with protocols per target, or by tag) and the conditions a session
opens and runs under.

This module is the data and what is asked of one grant: whether its windows are
open (`TimeWindow.open`), whether it covers a target and protocol
(`Grant.covers`), whether it points at the target at all (`Grant.selects`). A
time window is read in a named zone; the zone database is outside the gateway,
so the wall clocks it gives are a parameter (`Zones`).
-/

namespace Zanskar

open Go

/-! ## Time windows -/

/-- What a wall clock shows: the parts of a local time that a window reads. -/
structure WallClock where
  hour : Fin 24
  minute : Fin 60
  /-- `time.Weekday`: Sunday is 0. -/
  weekday : Fin 7

/-- The zone database: `time.LoadLocation` gives a zone's wall clock by name, or
fails. -/
structure Zones where
  loadLocation : String → Option (Int → WallClock)

/-- A recurring weekly window in a named zone. -/
structure TimeWindow where
  days : List String
  fromClock : String
  toClock : String
  tz : String
  deriving DecidableEq

/-- The days by name. -/
def dayIndex : String → Option (Fin 7)
  | "sun" => some 0
  | "mon" => some 1
  | "tue" => some 2
  | "wed" => some 3
  | "thu" => some 4
  | "fri" => some 5
  | "sat" => some 6
  | _ => none

/-- `parseClock`: minutes past midnight, or `none` for its error. -/
def parseClock (s : String) : Option Int :=
  match sscanfClock s with
  | none => none
  | some (h, m) =>
    if h < 0 ∨ h > 23 ∨ m < 0 ∨ m > 59 ∨ s.utf8ByteSize ≠ 5 then none
    else some (h * 60 + m)

/-- `hasDay`. A name that is no day reads the map's zero value, Sunday. -/
def TimeWindow.hasDay (w : TimeWindow) (d : Fin 7) : Bool :=
  w.days.any fun name => (dayIndex name).getD 0 = d

/-- `Open` on a wall clock: whether it falls inside the window. -/
def TimeWindow.openAt (w : TimeWindow) (clock : WallClock) : Bool :=
  let start := (parseClock w.fromClock).getD 0
  let stop := (parseClock w.toClock).getD 0
  let minute : Int := clock.hour * 60 + clock.minute
  let today := clock.weekday
  let yesterday := today + 6
  -- equal ends are the whole day, as 00:00 to 00:00 is written to say
  if start = stop then w.hasDay today
  else if start < stop then w.hasDay today && start ≤ minute && minute < stop
  -- an overnight window: after its start today, or before its end on the day
  -- after a listed day
  else (w.hasDay today && start ≤ minute) || (w.hasDay yesterday && minute < stop)

/-- `Open`: whether `now` falls inside the window, never when its zone is
unknown. -/
def TimeWindow.open (zones : Zones) (w : TimeWindow) (now : Int) : Bool :=
  match zones.loadLocation w.tz with
  | none => false
  | some local_ => w.openAt (local_ now)

/-- `anyOpen`. -/
def anyOpen (zones : Zones) (windows : List TimeWindow) (now : Int) : Bool :=
  windows.any fun w => w.open zones now

/-! ## Policies -/

/-- Subject kinds: a policy names groups and users. -/
inductive SubjectKind where
  | group
  | user
  | other (name : String)
  deriving DecidableEq

/-- One group or user a policy applies to. -/
structure Subject where
  kind : SubjectKind
  id : String
  deriving DecidableEq

/-- A standing grant admits at once; an approval grant makes the person
eligible to request access. -/
inductive AccessKind where
  | standing
  | approval
  | other (text : String)
  deriving DecidableEq

/-- `target` lets the target's slot decide; `own` asks for the person's own
login. -/
inductive SignIn where
  | target
  | own
  | other (text : String)
  deriving DecidableEq

/-- One named target (or autoscaling group) with the protocols granted on it. -/
structure GrantTarget where
  id : String
  protocols : List Protocol
  deriving DecidableEq

/-- The tags a target carries. -/
abbrev TagMap := Std.ExtTreeMap String String

/-- Selects every target of the grant's kind that carries every key with one of
its values (`Match`), with the protocols granted on them. -/
structure TagMatch where
  keys : Std.ExtTreeMap String (List String)
  protocols : List Protocol

/-- One complete grant: what, and under which conditions. -/
structure Grant where
  id : String
  kind : Kind
  targets : List GrantTarget
  tags : Option TagMatch
  access : AccessKind
  signIn : SignIn
  requireMFA : Bool
  allowClipboard : Bool
  allowFileTransfer : Bool
  allowDevTools : Bool
  idleTimeoutMinutes : Int
  maxSessionMinutes : Option Int
  timeWindows : List TimeWindow
  retentionDays : Option Int

/-- An audience and the grants it holds. -/
structure Policy where
  id : String
  name : String
  description : String
  enabled : Bool
  subjects : List Subject
  grants : List Grant
  createdBy : String
  createdAt : Int
  updatedAt : Int
  /-- The last access review: when, and by whom. -/
  reviewedAt : Option Int
  reviewedBy : String

/-- What the evaluator needs to know about a connection target. -/
structure TargetRef where
  kind : Kind
  /-- Static target id, or empty. -/
  id : String
  /-- Autoscaling group id, or empty. -/
  asgID : String
  /-- Tags of the target or of its group. -/
  tags : TagMap

/-- The id a grant's named targets are matched against (`id()`): the group's for
an autoscaling target, the target's otherwise. -/
def TargetRef.named (t : TargetRef) : String :=
  if t.kind = .autoscaling then t.asgID else t.id

/-! ## What one grant covers -/

/-- `matches`: every key present with one of its values; no keys match
nothing. -/
def TagMatch.matches (m : TagMatch) (tags : TagMap) : Bool :=
  !m.keys.isEmpty && m.keys.toList.all fun kv =>
    match tags[kv.1]? with
    | none => false
    | some got => kv.2.contains got

/-- `Covers`: same kind, and the target named with the protocol, or matched by
the tag rule with it; windows aside. -/
def Grant.covers (g : Grant) (t : TargetRef) (proto : Protocol) : Bool :=
  if g.kind ≠ t.kind ∨ kindServes g.kind proto = false then false
  else if t.named ≠ "" ∧
      g.targets.any (fun gt => gt.id = t.named && gt.protocols.contains proto) then true
  else match g.tags with
    | none => false
    | some tags => tags.protocols.contains proto && tags.matches t.tags

/-- `selects`: the grant points at the target at all, whatever the protocol. -/
def Grant.selects (g : Grant) (t : TargetRef) : Bool :=
  if g.kind ≠ t.kind then false
  else if t.named ≠ "" ∧ g.targets.any (fun gt => gt.id = t.named) then true
  else match g.tags with
    | none => false
    | some tags => tags.matches t.tags

variable {g : Grant} {proto : Protocol} {t : TargetRef}

theorem Grant.kindServes_of_covers
    (h : g.covers t proto) : g.kind = t.kind ∧ kindServes t.kind proto := by
  unfold Grant.covers at h
  split at h
  · cases h
  · rename_i hk
    push Not at hk
    obtain ⟨hkind, hserves⟩ := hk
    rw [hkind] at hserves
    exact ⟨hkind, by simpa using hserves⟩

/-- Coverage, as the two ways a grant can have it. -/
theorem Grant.covers_iff :
    g.covers t proto ↔
      g.kind = t.kind ∧ kindServes t.kind proto ∧
        ((t.named ≠ "" ∧ ∃ gt ∈ g.targets, gt.id = t.named ∧ proto ∈ gt.protocols) ∨
          ∃ tags, g.tags = some tags ∧ proto ∈ tags.protocols ∧
            tags.matches t.tags) := by
  unfold Grant.covers
  by_cases hk : g.kind = t.kind
  · rw [hk]
    cases kindServes t.kind proto <;> cases g.tags <;> simp
  · simp [hk]

/-- A tag rule matches when it has keys and the target carries each of them with
one of its values. -/
theorem TagMatch.matches_iff {m : TagMatch} {tags : TagMap} :
    m.matches tags ↔ m.keys ≠ ∅ ∧
      ∀ (k : String) (vs : List String), m.keys[k]? = some vs →
        ∃ v, tags[k]? = some v ∧ v ∈ vs := by
  unfold TagMatch.matches
  rw [Bool.and_eq_true, List.all_eq_true]
  refine and_congr (by simp) ⟨fun h k vs hk => ?_, fun h kv hkv => ?_⟩
  · have hmem := Std.ExtTreeMap.mem_toList_iff_getElem?_eq_some.mpr hk
    have hall := h _ hmem
    cases hv : tags[k]? with
    | none => simp [hv] at hall
    | some v => exact ⟨v, rfl, by simpa [hv] using hall⟩
  · obtain ⟨k, vs⟩ := kv
    obtain ⟨v, hv, hmem⟩ := h k vs (Std.ExtTreeMap.mem_toList_iff_getElem?_eq_some.mp hkv)
    simp [hv, hmem]

end Zanskar
