import Zanskar.Access.Lifecycle

/-!
# The expiry sweep (`internal/access/sweeper.go`)

`Sweep` lists the grants due as of one cutoff, flips the due ones to expired, and
records an event for each grant it listed. The list and the flip are two
statements, so other calls can commit between them. "The audited set and the
flipped set are identical", the source says, because both use the same cutoff.

- `revoked_grant_audited_expired` : a grant revoked in between is audited as expired;
- `sweep_audits_moved` : a sweep that is undisturbed in between audits exactly what it
  moved.

The machine is that of `Access.Machine` with any number of sweeps beside it, the
sweeps being the only callers of `ExpireDue`.
-/

namespace Zanskar

open Go Lib List

/-- `DueForExpiry`: the approved grants whose window has passed, `ORDER BY
expires_at`. -/
def Requests.dueForExpiry (tbl : Requests) (now : Int) : List Request :=
  (tbl.rows.filter (due now)).insertionSort fun r r' => r.expiresAt.getD 0 ≤ r'.expiresAt.getD 0

/-- The event `AccessGrantExpire` of the system for one request, with its
details. -/
structure ExpireEvent where
  requestID : String
  userID : String
  targetID : String
  asgID : String
  protocol : Protocol
  /-- `live_sessions_ended`, where the sweeper has a revoker. -/
  liveSessionsEnded : Option Nat

/-- How far a sweep has come. -/
inductive SweepStage where
  /-- The due grants are read. -/
  | listed
  /-- `ExpireDue` has run, or failed. -/
  | expired
  deriving DecidableEq

/-- One call of `Sweep` that found grants due. -/
structure ExpirySweep where
  /-- The `now` both statements use. -/
  cutoff : Int
  /-- What `DueForExpiry` returned. -/
  due : List Request
  stage : SweepStage
  /-- The requests this call's `ExpireDue` set to expired. -/
  moved : List String
  /-- The requests still to be recorded. -/
  todo : List Request
  /-- The events recorded. -/
  events : List ExpireEvent

/-- The requests the sweep has audited as expired. -/
def ExpirySweep.audited (w : ExpirySweep) : List String := w.events.map ExpireEvent.requestID

/-- The table, the calls in flight, and the sweeps. -/
structure SweepState where
  access : AccessState
  sweeps : List ExpirySweep

/-- The statements: those of other calls, and those of the sweeps, by number. -/
inductive SweepLabel where
  | statement (l : AccessLabel)
  | list (now : Int)
  | expire (i : Nat)
  /-- `ExpireDue` fails, and the sweep returns. -/
  | expireFails (i : Nat)
  /-- The next pass of the loop: `GrantExpired` has ended that many sessions, and
  the audit log took the event or not. -/
  | record (i : Nat) (ended : Option Nat) (recorded : Bool)

/-- The event for one request. -/
def Request.expireEvent (r : Request) (ended : Option Nat) : ExpireEvent :=
  ⟨r.id, r.userID, r.targetID, r.asgID, r.protocol, ended⟩

/-- A sweep after `ExpireDue` on these rows. -/
def ExpirySweep.expire (w : ExpirySweep) (rows : List Request) : ExpirySweep :=
  { w with
    stage := .expired
    moved := (rows.filter (Requests.due w.cutoff)).map Request.id
    todo := w.due }

/-- A sweep after one pass of its loop. An event that the log does not take is
logged and lost. -/
def ExpirySweep.record (w : ExpirySweep) (r : Request) (rest : List Request) (ended : Option Nat)
    (recorded : Bool) : ExpirySweep :=
  { w with
    todo := rest
    events := if recorded then w.events ++ [r.expireEvent ended] else w.events }

/-- One statement. `ExpireDue` is called by sweeps only. -/
def sweepStep (s : SweepState) : SweepLabel → Option SweepState
  | .statement (.expire _) => none
  | .statement l => (accessStep s.access l).map fun access => { s with access := access }
  | .list now =>
    match s.access.requests.dueForExpiry now with
    | [] => some s
    | due => some { s with sweeps := s.sweeps ++ [⟨now, due, .listed, [], [], []⟩] }
  | .expire i =>
    match s.sweeps[i]? with
    | none => none
    | some w =>
      if w.stage = .listed then
        some {
          access := { s.access with requests := s.access.requests.expireDue w.cutoff }
          sweeps := s.sweeps.set i (w.expire s.access.requests.rows) }
      else none
  | .expireFails i =>
    match s.sweeps[i]? with
    | none => none
    | some w =>
      if w.stage = .listed then
        some { s with sweeps := s.sweeps.set i { w with stage := .expired } }
      else none
  | .record i ended recorded =>
    match s.sweeps[i]? with
    | none => none
    | some w =>
      match w.todo with
      | [] => none
      | r :: rest => some { s with sweeps := s.sweeps.set i (w.record r rest ended recorded) }

/-! ## What is claimed, and when -/

/-- The sweep audits exactly what it moved: nothing else while it records, and all
of it once its loop is over. -/
def ExpirySweep.Exact (w : ExpirySweep) : Prop :=
  (∀ id ∈ w.audited, id ∈ w.moved) ∧
    (w.stage = .expired → w.todo = [] → ∀ id ∈ w.moved, id ∈ w.audited)

/-- The request is one of those listed. -/
def ExpirySweep.Lists (w : ExpirySweep) (r : Request) : Prop := r.id ∈ w.due.map Request.id

/-- The statement leaves alone what the sweep has listed and not yet flipped: no
listed request is revoked or closed, and none is approved with an expiry that has
passed by the cutoff. -/
def ExpirySweep.Spared (w : ExpirySweep) (rows : List Request) (l : AccessLabel) : Prop :=
  (∀ r ∈ rows, w.Lists r → ¬l.Withdraws r) ∧
    ∀ a at_, l = .approve a at_ → timeArg w.cutoff < timeArg a.expires

/-- The condition on the steps of a run: between the list and the flip of a sweep,
other statements spare what it listed, no other sweep flips it, and the audit log
takes every event. -/
def Undisturbed (s : SweepState) : SweepLabel → Prop
  | .statement l =>
    ∀ w ∈ s.sweeps, w.stage = .listed → w.Spared s.access.requests.rows l
  | .expire i =>
    ∀ j w w', s.sweeps[i]? = some w → s.sweeps[j]? = some w' → j ≠ i → w'.stage = .listed →
      ∀ r ∈ s.access.requests.rows, Requests.due w.cutoff r = true → ¬w'.Lists r
  | .record _ _ recorded => recorded = true
  | _ => True

/-! ## One statement -/

/-- Among the rows, the listed requests are those due at the cutoff. -/
def ExpirySweep.Current (w : ExpirySweep) (rows : List Request) : Prop :=
  ∀ id, id ∈ w.due.map Request.id ↔ ∃ r ∈ rows, r.id = id ∧ Requests.due w.cutoff r = true

/-- What is kept of each sweep: a list that is current until the flip, and after
it what was moved, recorded or still to be recorded. -/
structure ExpirySweep.Inv (rows : List Request) (w : ExpirySweep) : Prop where
  listed : w.stage = .listed → w.Current rows ∧ w.moved = [] ∧ w.todo = [] ∧ w.events = []
  expired : w.stage = .expired →
    ∀ id, id ∈ w.moved ↔ id ∈ w.audited ∨ id ∈ w.todo.map Request.id

variable {r : Request} {now : Int} {tbl : Requests} {l : AccessLabel} {rows : List Request}
  {w : ExpirySweep} {s : SweepState}

theorem Requests.due_iff :
    Requests.due now r ↔
      r.status = .approved ∧ ∃ expires, r.expiresAt = some expires ∧ expires ≤ timeArg now := by
  rw [Requests.due, Bool.and_eq_true, decide_eq_true_eq]
  cases r.expiresAt with
  | none | some => simp

theorem mem_dueForExpiry : r ∈ tbl.dueForExpiry now ↔ r ∈ tbl.rows ∧ Requests.due now r := by
  rw [Requests.dueForExpiry, mem_insertionSort, mem_filter]

/-- Only a withdrawal or a sweep changes an approved row. -/
theorem onRow_eq_self (hl : ∀ now, l ≠ .expire now)
    (hs : r.status = .approved) (hw : ¬l.Withdraws r) : l.onRow r = r := by
  have hpending : ¬r.status = .pending := by simp [hs]
  cases l with
  | approve | deny => simp [AccessLabel.onRow, hpending]
  | revoke id note at_ =>
    have hid : ¬r.id = id := hw
    simp [AccessLabel.onRow, hid]
  | close targetID asgID note at_ =>
    have hcloses : Requests.closes targetID asgID r = false := by
      rw [Requests.closes, Bool.and_eq_false_iff]
      exact .inr (Bool.eq_false_iff.mpr hw)
    simp [AccessLabel.onRow, hcloses]
  | expire now => exact absurd rfl (hl now)
  | _ => rfl

/-- A statement that spares the sweep leaves a row as due at its cutoff as it
was. -/
theorem due_onRow_iff (hr : r ∈ rows) (hl : ∀ now, l ≠ .expire now) (hspared : w.Spared rows l)
    (hcurrent : w.Current rows) :
    Requests.due w.cutoff (l.onRow r) ↔ Requests.due w.cutoff r := by
  by_cases hdue : Requests.due w.cutoff r
  · -- a due row is listed, so the statement does not end it, and it is not pending
    have hlists : w.Lists r := (hcurrent r.id).mpr ⟨r, hr, rfl, hdue⟩
    have hkept : l.onRow r = r := onRow_eq_self hl (Requests.due_iff.mp hdue).1
      (hspared.1 r hr hlists)
    rw [hkept]
  · refine ⟨fun h => ?_, fun h => absurd h hdue⟩
    -- a row that is due only now was approved by this statement
    obtain ⟨happroved, expires, hexp, hle⟩ := Requests.due_iff.mp h
    have hfate := l.onRow_fate r
    generalize hr' : l.onRow r = r' at hfate h happroved hexp
    cases hfate with
    | kept => exact absurd h hdue
    | approved a at_ hl' hid hp =>
      have hlater := hspared.2 a at_ hl'
      have hcut : timeArg a.expires = expires := Option.some.inj hexp
      omega
    | denied => cases happroved
    | ended status note at_ hs =>
      rcases hs with rfl | rfl <;> cases happroved

/-- A statement that spares the sweep keeps its list current. -/
theorem ExpirySweep.Current.statement {a a' : AccessState}
    (h : w.Current a.requests.rows) (hl : ∀ now, l ≠ .expire now)
    (hspared : w.Spared a.requests.rows l) (hstep : accessStep a l = some a') :
    w.Current a'.requests.rows := by
  -- the rows that were there are due as before, with their ids
  have hrows : ∀ id, (∃ r ∈ a.requests.rows, r.id = id ∧ Requests.due w.cutoff r) ↔
      ∃ r ∈ a.requests.rows.map l.onRow, r.id = id ∧ Requests.due w.cutoff r := by
    intro id
    simp only [mem_map, exists_exists_and_eq_and]
    refine exists_congr fun r => and_congr_right fun hr => ?_
    rw [(l.onRow_fate r).fixed.1, due_onRow_iff hr hl hspared h]
  intro id
  rw [h id, hrows id]
  rcases accessStep_rows hstep with heq | ⟨d, rid, now, -, -, heq, -⟩
  · rw [heq]
  · -- the row inserted is pending
    rw [heq]
    simp only [mem_append, mem_singleton, or_and_right, exists_or, exists_eq_left]
    have hpending : ¬Requests.due w.cutoff (d.request rid now) := by
      intro hdue
      cases (Requests.due_iff.mp hdue).1
    simp [hpending]

/-- The flip of one sweep keeps the list of another current that it shares no due
request with. -/
theorem ExpirySweep.Current.expireDue {cutoff : Int} (h : w.Current tbl.rows)
    (happart : ∀ r ∈ tbl.rows, Requests.due cutoff r → ¬w.Lists r) :
    w.Current (tbl.expireDue cutoff).rows := by
  intro id
  rw [h id]
  -- a row that is flipped was not listed, and is not due any more
  refine (Table.exists_mem_update_iff fun r hr hc => iff_of_false ?_ ?_).symm
  · rintro ⟨-, hdue⟩
    cases (Requests.due_iff.mp hdue).1
  · rintro ⟨-, hdue⟩
    exact happart r hr hc ((h r.id).mpr ⟨r, hr, rfl, hdue⟩)

/-- The flip moves exactly what a current list holds. -/
theorem ExpirySweep.Inv.expire {rows' : List Request} (h : w.Inv rows)
    (hs : w.stage = .listed) : (w.expire rows).Inv rows' := by
  obtain ⟨hcurrent, -, -, hevents⟩ := h.listed hs
  refine ⟨fun hs' => ?_, fun _ id => ?_⟩
  · cases hs'
  have hmoved : id ∈ (w.expire rows).moved ↔
      ∃ r ∈ rows, r.id = id ∧ Requests.due w.cutoff r := by
    simp only [ExpirySweep.expire, mem_map, mem_filter]
    exact exists_congr fun r => by tauto
  have hnone : id ∉ (w.expire rows).audited := by
    simp [ExpirySweep.audited, ExpirySweep.expire, hevents]
  rw [hmoved, ← hcurrent id]
  exact ⟨.inr, fun h => h.resolve_left hnone⟩

/-- A flip that fails moves nothing, and nothing is recorded. -/
theorem ExpirySweep.Inv.expireFails (h : w.Inv rows)
    (hs : w.stage = .listed) : ExpirySweep.Inv rows { w with stage := .expired } := by
  obtain ⟨-, hmoved, htodo, hevents⟩ := h.listed hs
  refine ⟨fun hs' => ?_, fun _ id => ?_⟩
  · cases hs'
  · simp [ExpirySweep.audited, hmoved, htodo, hevents]

theorem ExpirySweep.inv_list :
    ExpirySweep.Inv tbl.rows ⟨now, tbl.dueForExpiry now, .listed, [], [], []⟩ := by
  refine ⟨fun _ => ⟨fun id => ?_, rfl, rfl, rfl⟩, fun hs => ?_⟩
  · simp only [mem_map, mem_dueForExpiry]
    exact exists_congr fun r => by tauto
  · cases hs

/-- A pass of the loop moves the first request from those to be recorded to those
audited. -/
theorem ExpirySweep.Inv.record {rest : List Request}
    {ended : Option Nat} (h : w.Inv rows) (htodo : w.todo = r :: rest) :
    (w.record r rest ended true).Inv rows := by
  constructor
  · intro hs
    rw [(h.listed hs).2.2.1] at htodo
    cases htodo
  · intro hs id
    have hmoved := h.expired hs id
    rw [htodo] at hmoved
    simp only [ExpirySweep.record, ExpirySweep.audited, if_true, map_append, mem_append,
      map_cons, map_nil, mem_singleton, Request.expireEvent] at hmoved ⊢
    rw [hmoved, mem_cons]
    tauto

/-! ## Runs -/

/-- What is kept of every sweep. -/
def SweepState.Inv (s : SweepState) : Prop :=
  ∀ (i : Nat) (w : ExpirySweep), s.sweeps[i]? = some w → w.Inv s.access.requests.rows

/-- A sweep taken on by a step, the others' invariant kept. -/
theorem SweepState.Inv.set {access : AccessState} {i : Nat} {w' : ExpirySweep}
    (hw : w'.Inv access.requests.rows)
    (hothers : ∀ j w, s.sweeps[j]? = some w → j ≠ i → w.Inv access.requests.rows) :
    SweepState.Inv ⟨access, s.sweeps.set i w'⟩ := by
  intro j w hj
  rw [getElem?_set] at hj
  split at hj
  · split at hj
    · cases hj
      exact hw
    · cases hj
  · exact hothers j w hj (Ne.symm ‹_›)

/-- **One step keeps the invariant**, where nothing disturbs a sweep between its
list and its flip. -/
theorem sweepStep_inv {s' : SweepState} {l : SweepLabel} (hcond : Undisturbed s l)
    (h : s.Inv) (hstep : sweepStep s l = some s') : s'.Inv := by
  cases l with
  | statement l =>
    have hl : ∀ now, l ≠ .expire now := by
      rintro now rfl
      cases hstep
    have hmap : (accessStep s.access l).map (fun access => { s with access := access }) =
        some s' := by
      cases l <;> first | exact hstep | exact absurd rfl (hl _)
    obtain ⟨access, haccess, rfl⟩ := Option.map_eq_some_iff.mp hmap
    intro i w hw
    refine ⟨fun hs => ?_, (h i w hw).expired⟩
    obtain ⟨hcurrent, hrest⟩ := (h i w hw).listed hs
    -- the statement leaves alone what the sweep has listed
    have hspared := hcond w (mem_of_getElem? hw) hs
    exact ⟨hcurrent.statement hl hspared haccess, hrest⟩
  | list now =>
    simp only [sweepStep] at hstep
    split at hstep
    · cases hstep
      exact h
    · rename_i due hdue
      cases hstep
      intro i w hw
      rcases mem_append.mp (mem_of_getElem? hw) with hold | hnew
      · obtain ⟨j, hj⟩ := getElem?_of_mem hold
        exact h j w hj
      · obtain rfl := mem_singleton.mp hnew
        exact ExpirySweep.inv_list
  | expire i =>
    simp only [sweepStep] at hstep
    split at hstep
    · cases hstep
    rename_i w hw
    split at hstep <;> cases hstep
    rename_i hs
    refine SweepState.Inv.set ((h i w hw).expire hs) fun j w' hw' hne => ?_
    refine ⟨fun hs' => ?_, (h j w' hw').expired⟩
    -- the other sweeps listed nothing that this one flips
    obtain ⟨hcurrent, hrest⟩ := (h j w' hw').listed hs'
    exact ⟨hcurrent.expireDue (hcond j w w' hw hw' hne hs'), hrest⟩
  | expireFails i =>
    simp only [sweepStep] at hstep
    split at hstep
    · cases hstep
    rename_i w hw
    split at hstep <;> cases hstep
    rename_i hs
    exact SweepState.Inv.set ((h i w hw).expireFails hs) fun j w' hw' _ => h j w' hw'
  | record i ended recorded =>
    obtain rfl : recorded := hcond
    simp only [sweepStep] at hstep
    split at hstep
    · cases hstep
    rename_i w hw
    split at hstep <;> cases hstep
    rename_i r rest htodo
    exact SweepState.Inv.set ((h i w hw).record htodo) fun j w' hw' _ => h j w' hw'

/-- A sweep that keeps the invariant audits exactly what it moved. -/
theorem ExpirySweep.Inv.exact (h : w.Inv rows) : w.Exact := by
  cases hs : w.stage with
  | listed =>
    obtain ⟨-, hmoved, -, hevents⟩ := h.listed hs
    refine ⟨fun id hid => ?_, fun hs' => ?_⟩
    · simp [ExpirySweep.audited, hevents] at hid
    · cases hs.symm.trans hs'
  | expired =>
    refine ⟨fun id hid => (h.expired hs id).mpr (.inl hid), fun _ htodo id hid => ?_⟩
    have := (h.expired hs id).mp hid
    simpa [htodo] using this

/-- **A sweep audits exactly what it moved**, in every interleaving of any number
of sweeps with the other statements on the table, from any table, whose steps
leave a sweep undisturbed between its list and its flip. -/
theorem sweep_audits_moved {access : AccessState} {ls : List SweepLabel} {s : SweepState}
    (h : RunWhere sweepStep Undisturbed ⟨access, []⟩ ls s) : ∀ w ∈ s.sweeps, w.Exact := by
  have hinit : SweepState.Inv ⟨access, []⟩ := by
    intro i w hw
    simp at hw
  have hinv := h.keeps SweepState.Inv (fun _ _ _ hcond hi hstep => sweepStep_inv hcond hi hstep)
    hinit
  intro w hw
  obtain ⟨i, hi⟩ := getElem?_of_mem hw
  exact (hinv i w hi).exact

/-! ## A grant revoked between the list and the flip -/

/-- The hour of ssh that `approvedHour` grants has passed. -/
def hourPassed : Int := 2 * (60 * minute)

/-- A sweep lists the grant; the administrator revokes it; the sweep flips what is
due, nothing, and records the grant as expired. -/
theorem revoked_grant_audited_expired :
    ∃ s, Run sweepStep ⟨.init, []⟩
        (approvedHour.map .statement ++ [.list hourPassed,
          .statement (.revoke "r" "no longer needed" hourPassed), .expire 0,
          .record 0 (some 0) true]) s ∧
      ∃ w ∈ s.sweeps, ¬w.Exact := by
  refine ⟨_, Run.of_exec rfl, _, mem_singleton.mpr rfl, fun h => ?_⟩
  exact absurd (h.1 "r" (by decide)) (by decide)

/-- Left alone, the sweep audits the grant it expired. -/
theorem expired_hour_audited :
    ∃ s, RunWhere sweepStep Undisturbed ⟨.init, []⟩
        (approvedHour.map .statement ++ [.list hourPassed, .expire 0,
          .record 0 (some 0) true]) s ∧
      ∃ w ∈ s.sweeps, w.moved = ["r"] ∧ w.Exact := by
  refine RunWhere.exists_imp (P := fun s => ∃ w ∈ s.sweeps, w.moved = ["r"])
    (fun _ hrun ⟨w, hw, hmoved⟩ => ⟨w, hw, hmoved, sweep_audits_moved hrun w hw⟩)
    ⟨_, .cons ?_ rfl (.cons ?_ rfl (.cons ?_ rfl (.cons ?_ rfl (.cons ?_ rfl
      (.cons ?_ rfl (.cons ?_ rfl (.cons ?_ rfl .nil))))))), _, mem_singleton.mpr rfl, rfl⟩
  case refine_6 => trivial
  case refine_7 =>
    -- there is no other sweep
    intro j w w' _ hw' hne
    cases j with
    | zero => exact absurd rfl hne
    | succ j => exact absurd (show none = some w' from hw') (by simp)
  case refine_8 => rfl
  all_goals
    intro w hw
    exact absurd hw not_mem_nil

end Zanskar
