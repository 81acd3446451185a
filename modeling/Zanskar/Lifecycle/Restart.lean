import Zanskar.Gateway.Registry
import Zanskar.Lib.Machine

/-!
# Drains (`internal/lifecycle/restart.go`)

A drain waits for the live sessions of the gateway, ends those that are left, and then stops the
process or does what its request asked for. `RestartThen` starts a goroutine for it; a later
`RestartThen` or a `Cancel` cancels the goroutine's context. The endings of the requests
(`host.go`, `install.go`, `bootchange.go`), with the watchers they leave behind, are part of the
goroutine here, since each of them follows it.

A drain is known by its number: drains are listed in the order in which they began, and the
controller's `drain` and `cancel`, which are always set together, are one number or none. Every
access to the registry, the controller, the context, the clock or a file is a step.

- `withdrawn_drain_stops` : a drain that is cancelled or replaced before its goroutine's last look
  at its context, or after its ending ran, does nothing more;
- `cancelled_drain_exits` : in between, it ends the sessions that start then, and stops the gateway.
-/

namespace Zanskar.Lifecycle

open Lib List

/-! ## Requests -/

/-- `updateRequest`. -/
structure UpdateRequest where
  version : String
  requestedAt : Int
  deriving DecidableEq

/-- The verbs of a host action. -/
inductive Verb where
  | reboot
  | poweroff
  deriving DecidableEq

/-- What a drain ends in. -/
inductive Ending where
  | restart
  | host (verb : Verb)
  | update (req : UpdateRequest)
  /-- A change of the boot settings, by the id of its request. -/
  | config (id : String)
  deriving DecidableEq

/-- `Drain.Action`. -/
def Ending.action : Ending → String
  | .restart => "restart"
  | .host .reboot => "reboot"
  | .host .poweroff => "poweroff"
  | .update _ => "update"
  | .config _ => "config"

/-- `Drain`. -/
structure Drain where
  requestedAt : Int
  requestedBy : String
  deadline : Int
  waitMinutes : Int
  ending : Ending

/-- `InstallState`, with what `time.Parse` makes of its time. -/
structure InstallState where
  state : String
  version : String
  reportedAt : Option Int

/-- The states of `bootedit.Result` that `readConfigResult` takes. -/
inductive ResultState where
  | applied
  | refused
  | rolledBack
  deriving DecidableEq

/-- `bootedit.Result`. -/
structure ConfigResult where
  id : String
  state : ResultState

/-! ## Durations -/

def second : Int := 1000000000

/-- `MaxWait`. -/
def maxWait : Int := 4 * 3600 * second

/-- `DefaultGrace`. -/
def defaultGrace : Int := 30 * second

/-- `installWatchLimit`. -/
def installWatchLimit : Int := 20 * 60 * second

/-- `configWatchLimit`. -/
def configWatchLimit : Int := 10 * 60 * second

/-- What is set of the controller and of the handler; 0 stands for the default. -/
structure Config where
  grace : Int
  installLimit : Int

def Config.graceOf (cfg : Config) : Int := if cfg.grace ≤ 0 then defaultGrace else cfg.grace

/-- How long a watcher waits. -/
def Config.limitOf (cfg : Config) (e : Ending) : Int :=
  if cfg.installLimit ≤ 0 then
    match e with
    | .config _ => configWatchLimit
    | _ => installWatchLimit
  else cfg.installLimit

/-! ## Goroutines -/

/-- What the goroutine of a drain does next. -/
inductive Phase where
  /-- The condition of the loop that waits for the sessions. -/
  | wait
  | select
  /-- `ctx.Err()`. -/
  | check
  /-- `Registry.List`, for the first or the second sweep. -/
  | list (again : Bool)
  | sweep (again : Bool) (rest : List String)
  /-- The condition of the loop that waits for the bridges. -/
  | grace (deadline : Int)
  | graceSelect (deadline : Int)
  /-- `Exit`, or the first thing the ending does. -/
  | act
  /-- The condition of a watcher's loop. -/
  | watch (deadline : Int)
  /-- The watcher looks at the current drain. -/
  | watchCurrent (deadline : Int)
  /-- The watcher reads the installer's or the helper's report. -/
  | watchReport (deadline : Int)
  /-- The ending or the watcher calls `Cancel`. -/
  | failed
  | returned
  deriving DecidableEq

/-- How far a goroutine is. -/
inductive Stage where
  /-- It will look at its context before it does anything. -/
  | waiting
  /-- It ends sessions, and goes on to its ending. -/
  | committed
  /-- Its ending ran, and may still call `Cancel`. -/
  | late
  | returned
  deriving DecidableEq

def Phase.stage : Phase → Stage
  | .wait | .select | .check => .waiting
  | .list _ | .sweep _ _ | .grace _ | .graceSelect _ | .act => .committed
  | .watch _ | .watchCurrent _ | .watchReport _ | .failed => .late
  | .returned => .returned

/-- A drain with its goroutine. -/
structure DrainRun where
  drain : Drain
  /-- Its context is cancelled. -/
  cancelled : Bool
  phase : Phase

/-! ## The machine -/

/-- What was done, as far as the drains are concerned. -/
inductive Event where
  /-- `Cancel` returned true or `RestartThen` returned: every drain below `n` is withdrawn. -/
  | withdrew (n : Nat)
  /-- The goroutine of drain `d` ended a session. -/
  | ended (d : Nat) (sessionID : String)
  /-- The goroutine of drain `d` ran `Exit` or its ending. -/
  | acted (d : Nat)
  /-- The ending or the watcher of drain `d` cancelled drain `c`. -/
  | cancelled (d c : Nat)
  deriving DecidableEq

structure State where
  registry : Registry
  drains : List DrainRun
  /-- `Controller.drain` and `Controller.cancel`. -/
  current : Option Nat
  /-- The last event first. -/
  log : List Event

def State.init : State := ⟨Registry.empty, [], none, []⟩

/-- `Current`: the drain in progress. -/
def State.currentRun (s : State) : Option DrainRun := s.current.bind fun c => s.drains[c]?

/-- What a step of a goroutine is given from outside. -/
structure Input where
  now : Int
  /-- `select` takes the context's channel and not the ticker's. -/
  done : Bool
  /-- The order in which the registry's map is gone through. -/
  listed : List String
  /-- The command or the write of the request succeeds. -/
  ok : Bool
  /-- What the installer reported, if that can be read. -/
  installed : Option InstallState
  /-- What the helper answered, if that can be read. -/
  configured : Option ConfigResult

inductive Label where
  | restartThen (requestedBy : String) (wait : Int) (ending : Ending) (now : Int)
  /-- `Cancel`, called for an administrator. -/
  | cancel
  /-- A bridge registers its session. -/
  | register (l : Live)
  /-- A bridge has finished. -/
  | leave (sessionID : String)
  /-- The goroutine of drain `d` goes on. -/
  | run (d : Nat) (i : Input)

/-- `RestartThen`. -/
def State.restartThen (s : State) (requestedBy : String) (wait : Int) (ending : Ending)
    (now : Int) : State :=
  let wait := min (max wait 0) maxWait
  let drains :=
    match s.current with
    | none => s.drains
    | some c => s.drains.modify c fun r => { r with cancelled := true }
  { s with
    drains := drains ++ [⟨⟨now, requestedBy, now + wait, wait / (60 * second), ending⟩, false, .wait⟩]
    current := some s.drains.length
    log := .withdrew s.drains.length :: s.log }

/-- `Cancel`, called by the ending or the watcher of a drain, or for an administrator. -/
def State.cancel (s : State) (caller : Option Nat) : State :=
  match s.current with
  | none => s
  | some c =>
    { s with
      drains := s.drains.modify c fun r => { r with cancelled := true }
      current := none
      log := .withdrew s.drains.length :: ((caller.map fun d => .cancelled d c).toList ++ s.log) }

/-- The goroutine of drain `d` is at another step. -/
def State.goes (s : State) (d : Nat) (p : Phase) : State :=
  { s with drains := s.drains.modify d fun r => { r with phase := p } }

/-- `TerminateWithCause` in a sweep. -/
def State.terminate (s : State) (d : Nat) (sessionID : String) : State :=
  { s with
    registry := s.registry.terminateWithCause sessionID .gatewayRestart
    log :=
      if s.registry.running.any fun l => l.sessionID = sessionID then .ended d sessionID :: s.log
      else s.log }

/-- The report is that this request failed. -/
def Ending.reported (i : Input) : Ending → Bool
  | .update req =>
    i.installed.any fun st => st.version = req.version && st.state = "failed" &&
      st.reportedAt.any fun t => req.requestedAt / second * second ≤ t
  | .config id => i.configured.any fun res => res.id = id && res.state = .refused
  | _ => false

/-- What the goroutine does after its ending. -/
def Ending.after (cfg : Config) (i : Input) : Ending → Phase
  | .restart => .returned
  | .host _ => if i.ok then .returned else .failed
  | e => if i.ok then .watch (i.now + cfg.limitOf e) else .failed

/-- The goroutine of drain `d`, which is at `r`, goes on. -/
def advance (cfg : Config) (s : State) (d : Nat) (r : DrainRun) (i : Input) : Option State :=
  match r.phase with
  | .wait =>
    if 0 < s.registry.live.length ∧ i.now < r.drain.deadline then some (s.goes d .select)
    else some (s.goes d .check)
  | .select =>
    if !i.done then some (s.goes d .wait)
    else if r.cancelled then some (s.goes d .returned)
    else none
  | .check => some (s.goes d (if r.cancelled then .returned else .list false))
  | .list again =>
    if i.listed.Perm (s.registry.live.map Live.sessionID) then
      some (s.goes d (.sweep again i.listed))
    else none
  | .sweep again (sessionID :: rest) => some ((s.terminate d sessionID).goes d (.sweep again rest))
  | .sweep false [] => some (s.goes d (.list true))
  | .sweep true [] => some (s.goes d (.grace (i.now + cfg.graceOf)))
  | .grace deadline =>
    if 0 < s.registry.live.length ∧ i.now < deadline then some (s.goes d (.graceSelect deadline))
    else some (s.goes d .act)
  | .graceSelect deadline =>
    if !i.done then some (s.goes d (.grace deadline))
    else if r.cancelled then some (s.goes d .returned)
    else none
  | .act => some ({ s with log := .acted d :: s.log }.goes d (r.drain.ending.after cfg i))
  | .watch deadline =>
    some (s.goes d (if i.now < deadline then .watchCurrent deadline else .failed))
  | .watchCurrent deadline =>
    -- `d == nil || d.Action != ..`
    let same := s.currentRun.any fun c => c.drain.ending.action = r.drain.ending.action
    some (s.goes d (if same then .watchReport deadline else .returned))
  | .watchReport deadline =>
    some (s.goes d (if r.drain.ending.reported i then .failed else .watch deadline))
  | .failed => some ((s.cancel (some d)).goes d .returned)
  | .returned => none

/-- One step. -/
def step (cfg : Config) (s : State) : Label → Option State
  | .restartThen requestedBy wait ending now => some (s.restartThen requestedBy wait ending now)
  | .cancel => some (s.cancel none)
  | .register l => some { s with registry := s.registry.add l }
  | .leave sessionID => some { s with registry := s.registry.remove sessionID }
  | .run d i =>
    match s.drains[d]? with
    | none => none
    | some r => advance cfg s d r i

/-! ## What a goroutine's step can do -/

/-- The stages a step without an event leads to: the same one, the end, or past the look at the
context. -/
def Moves (r : DrainRun) (p : Phase) : Prop :=
  p.stage = r.phase.stage ∨ p.stage = .returned ∨ p.stage = .committed ∧ r.cancelled = false

inductive Effect (s : State) (d : Nat) (r : DrainRun) : State → Prop
  | moves (p : Phase) (hp : Moves r p) : Effect s d r (s.goes d p)
  | ends (sessionID : String) (p : Phase) (hstage : r.phase.stage = .committed)
      (hp : p.stage = .committed) : Effect s d r ((s.terminate d sessionID).goes d p)
  | acts (p : Phase) (hstage : r.phase.stage = .committed)
      (hp : p.stage = .returned ∨ p.stage = .late ∧ r.drain.ending ≠ .restart) :
      Effect s d r ({ s with log := .acted d :: s.log }.goes d p)
  | cancels (hphase : r.phase = .failed) :
      Effect s d r ((s.cancel (some d)).goes d .returned)

theorem Ending.stage_after (cfg : Config) (i : Input) (e : Ending) :
    (e.after cfg i).stage = .returned ∨ (e.after cfg i).stage = .late ∧ e ≠ .restart := by
  cases e with
  | restart => exact .inl rfl
  | host verb =>
    simp only [Ending.after]
    split
    · exact .inl rfl
    · exact .inr ⟨rfl, nofun⟩
  | update req | config id =>
    simp only [Ending.after]
    split <;> exact .inr ⟨rfl, nofun⟩

variable {d : Nat} {s : State}

/-- **A goroutine's step.** -/
theorem step_effect {cfg : Config} {s' : State} {r : DrainRun} {i : Input}
    (h : advance cfg s d r i = some s') : Effect s d r s' := by
  unfold advance at h
  split at h <;> rename_i hphase
  case h_1 | h_8 =>
    split at h <;> cases h <;> exact .moves _ (.inl (by rw [hphase]; rfl))
  case h_2 | h_9 =>
    split at h
    · cases h
      exact .moves _ (.inl (by rw [hphase]; rfl))
    split at h <;> cases h
    exact .moves _ (.inr (.inl rfl))
  case h_3 =>
    cases h
    -- the last look at the context
    by_cases hcancelled : r.cancelled
    · rw [if_pos hcancelled]
      exact .moves _ (.inr (.inl rfl))
    · rw [if_neg hcancelled]
      exact .moves _ (.inr (.inr ⟨rfl, by simpa using hcancelled⟩))
  case h_4 =>
    split at h <;> cases h
    exact .moves _ (.inl (by rw [hphase]; rfl))
  case h_5 =>
    cases h
    exact .ends _ _ (by rw [hphase]; rfl) rfl
  case h_6 | h_7 =>
    cases h
    exact .moves _ (.inl (by rw [hphase]; rfl))
  case h_10 =>
    cases h
    exact .acts _ (by rw [hphase]; rfl) (Ending.stage_after cfg i _)
  case h_11 | h_13 =>
    cases h
    refine .moves _ (.inl ?_)
    rw [hphase]
    split <;> rfl
  case h_12 =>
    cases h
    refine .moves _ ?_
    split
    · exact .inl (by rw [hphase]; rfl)
    · exact .inr (.inl rfl)
  case h_14 =>
    cases h
    exact .cancels hphase
  case h_15 => cases h

/-! ## The drains in the list -/

section Drains

variable {s : State} {d j : Nat} {p : Phase} {r' : DrainRun} {c : Nat} {caller : Option Nat}
  {now wait : Int} {ending : Ending} {requestedBy : String}

theorem getElem?_goes (h : (s.goes d p).drains[j]? = some r') :
    ∃ r, s.drains[j]? = some r ∧ r' = if d = j then { r with phase := p } else r := by
  rw [State.goes, getElem?_modify] at h
  obtain ⟨r, hr, rfl⟩ := Option.map_eq_some_iff.mp h
  exact ⟨r, hr, rfl⟩

@[simp] theorem length_goes : (s.goes d p).drains.length = s.drains.length :=
  length_modify ..

theorem cancel_of_none (h : s.current = none) : s.cancel caller = s := by
  rw [State.cancel, h]

theorem cancel_of_some (h : s.current = some c) :
    s.cancel caller =
      { s with
        drains := s.drains.modify c fun r => { r with cancelled := true }
        current := none
        log := .withdrew s.drains.length ::
          ((caller.map fun d => .cancelled d c).toList ++ s.log) } := by
  rw [State.cancel, h]

@[simp] theorem cancel_current : (s.cancel caller).current = none := by
  unfold State.cancel
  split
  · assumption
  · rfl

@[simp] theorem length_cancel : (s.cancel caller).drains.length = s.drains.length := by
  unfold State.cancel
  split
  · rfl
  · exact length_modify ..

theorem getElem?_cancel (h : (s.cancel caller).drains[j]? = some r') :
    ∃ r, s.drains[j]? = some r ∧
      r' = if s.current = some j then { r with cancelled := true } else r := by
  cases hcurrent : s.current with
  | none =>
    rw [cancel_of_none hcurrent] at h
    exact ⟨r', h, rfl⟩
  | some c =>
    rw [cancel_of_some hcurrent, getElem?_modify] at h
    obtain ⟨r, hr, rfl⟩ := Option.map_eq_some_iff.mp h
    exact ⟨r, hr, by simp⟩

/-- `RestartThen` withdraws the drain there is, as `Cancel` does, and puts its own behind. -/
theorem drains_restartThen : (s.restartThen requestedBy wait ending now).drains =
    (s.cancel none).drains ++ [⟨⟨now, requestedBy, now + min (max wait 0) maxWait,
      min (max wait 0) maxWait / (60 * second), ending⟩, false, .wait⟩] := by
  unfold State.restartThen State.cancel
  cases s.current <;> rfl

@[simp] theorem length_restartThen :
    (s.restartThen requestedBy wait ending now).drains.length = s.drains.length + 1 := by
  rw [drains_restartThen, length_append, length_cancel, length_singleton]

theorem getElem?_restartThen
    (h : (s.restartThen requestedBy wait ending now).drains[j]? = some r') :
    (∃ r, s.drains[j]? = some r ∧
      r' = if s.current = some j then { r with cancelled := true } else r) ∨
    j = s.drains.length ∧ r'.phase = .wait := by
  rw [drains_restartThen, getElem?_append] at h
  split at h
  · exact .inl (getElem?_cancel h)
  · rename_i hle
    rw [getElem?_singleton] at h
    split at h <;> cases h
    rename_i hlast
    rw [length_cancel] at hle hlast
    exact .inr ⟨by omega, rfl⟩

end Drains

/-! ## One drain at a time -/

/-- The current drain is the last one, and the others are cancelled. -/
structure OneCurrent (s : State) : Prop where
  last : ∀ c, s.current = some c → c + 1 = s.drains.length
  others : ∀ d r, s.drains[d]? = some r → s.current ≠ some d → r.cancelled = true

theorem OneCurrent.goes (h : OneCurrent s) (d : Nat) (p : Phase) : OneCurrent (s.goes d p) where
  last c hc := by
    rw [length_goes]
    exact h.last c hc
  others j r' hr' hne := by
    obtain ⟨r, hr, rfl⟩ := getElem?_goes hr'
    have hcancelled := h.others j r hr hne
    split <;> exact hcancelled

theorem OneCurrent.cancel (h : OneCurrent s) (caller : Option Nat) :
    OneCurrent (s.cancel caller) where
  last c hc := by
    cases cancel_current.symm.trans hc
  others j r' hr' _ := by
    obtain ⟨r, hr, rfl⟩ := getElem?_cancel hr'
    split
    · rfl
    · rename_i hne
      exact h.others j r hr hne

theorem OneCurrent.restartThen (h : OneCurrent s) (requestedBy : String) (wait : Int)
    (ending : Ending) (now : Int) : OneCurrent (s.restartThen requestedBy wait ending now) where
  last c hc := by
    cases hc
    rw [length_restartThen]
  others j r' hr' hne := by
    rcases getElem?_restartThen hr' with ⟨r, hr, rfl⟩ | ⟨rfl, -⟩
    · split
      · rfl
      · rename_i hother
        exact h.others j r hr hother
    · exact absurd rfl hne

theorem OneCurrent.init : OneCurrent State.init where
  last _ hc := nomatch hc
  others _ _ hr _ := nomatch hr

/-! ## Withdrawn drains -/

/-- The event is something the goroutine of drain `d` did. -/
def Event.DoneBy (d : Nat) : Event → Prop
  | .ended d' _ => d' = d
  | .acted d' => d' = d
  | _ => False

/-- After drains were withdrawn, none of them ends a session or runs its ending. -/
def Stops (log : List Event) : Prop :=
  ∀ later earlier n, log = later ++ .withdrew n :: earlier →
    ∀ e ∈ later, ∀ d, e.DoneBy d → n ≤ d

/-- The goroutine of the current drain is before its last look at the context, or its ending ran. -/
def Withdrawable (s : State) : Prop := ∀ r ∈ s.currentRun, r.phase.stage ≠ .committed

/-- A drain is cancelled or replaced only while it can be. -/
def WithdrawnInTime (s : State) : Label → Prop
  | .restartThen .. => Withdrawable s
  | .cancel => Withdrawable s
  | .run d _ => ∀ r ∈ s.drains[d]?, r.phase = .failed → Withdrawable s
  | .register _ => True
  | .leave _ => True

instance (s : State) : Decidable (Withdrawable s) :=
  inferInstanceAs (Decidable (∀ r ∈ s.currentRun, r.phase.stage ≠ .committed))

instance (s : State) (l : Label) : Decidable (WithdrawnInTime s l) := by
  unfold WithdrawnInTime
  split <;> infer_instance

variable {r : DrainRun} {e : Event} {s' : State}

theorem mem_currentRun {c : Nat} (hc : s.current = some c) (hr : s.drains[c]? = some r) :
    r ∈ s.currentRun := by
  rw [State.currentRun, hc]
  exact hr

theorem Stops.cons {log : List Event} (h : Stops log)
    (he : ∀ d, e.DoneBy d → ∀ n, .withdrew n ∈ log → n ≤ d) : Stops (e :: log) := by
  intro later earlier n hlog e' he' d hd
  cases later with
  | nil => cases he'
  | cons e₀ later =>
    cases hlog
    rcases mem_cons.mp he' with rfl | hmem
    · exact he d hd n (by simp)
    · exact h later earlier n rfl e' hmem d hd

/-- What is known of the drains that were withdrawn. -/
structure Inv (s : State) : Prop where
  one : OneCurrent s
  committed : ∀ d r, s.drains[d]? = some r → r.phase.stage = .committed → s.current = some d
  bound : ∀ n, .withdrew n ∈ s.log → n ≤ s.drains.length
  current : ∀ n c, .withdrew n ∈ s.log → s.current = some c → n ≤ c
  stops : Stops s.log

theorem Inv.goes {p : Phase} (h : Inv s) (hp : p.stage = .committed → s.current = some d) :
    Inv (s.goes d p) where
  one := h.one.goes d p
  committed j r' hr' hstage := by
    obtain ⟨r, hr, rfl⟩ := getElem?_goes hr'
    by_cases hj : d = j
    · subst hj
      rw [if_pos rfl] at hstage
      exact hp hstage
    · rw [if_neg hj] at hstage
      exact h.committed j r hr hstage
  bound n hn := by
    rw [length_goes]
    exact h.bound n hn
  current := h.current
  stops := h.stops

/-- The goroutine of the current drain does something. -/
theorem Inv.log (h : Inv s) (hd : s.current = some d) (he : e = .acted d ∨ ∃ id, e = .ended d id) :
    Inv { s with log := e :: s.log } where
  one := ⟨h.one.last, h.one.others⟩
  committed := h.committed
  bound n hn := by
    rcases mem_cons.mp hn with rfl | hn
    · simp at he
    · exact h.bound n hn
  current n c hn hc := by
    rcases mem_cons.mp hn with rfl | hn
    · simp at he
    · exact h.current n c hn hc
  stops := by
    refine h.stops.cons fun d' hd' n hn => ?_
    have hsame : d = d' := by
      rcases he with rfl | ⟨id, rfl⟩ <;> exact hd'
    subst hsame
    exact h.current n d hn hd

theorem Inv.terminate {id : String} (h : Inv s) (hd : s.current = some d) :
    Inv (s.terminate d id) := by
  have hlog : Inv { s with log := .ended d id :: s.log } := h.log hd (.inr ⟨id, rfl⟩)
  unfold State.terminate
  split
  · exact ⟨⟨hlog.one.last, hlog.one.others⟩, hlog.committed, hlog.bound, hlog.current, hlog.stops⟩
  · exact ⟨⟨h.one.last, h.one.others⟩, h.committed, h.bound, h.current, h.stops⟩

theorem Inv.cancel (h : Inv s) (hcond : Withdrawable s) (caller : Option Nat) :
    Inv (s.cancel caller) := by
  cases hcurrent : s.current with
  | none =>
    rw [cancel_of_none hcurrent]
    exact h
  | some c =>
    refine ⟨h.one.cancel caller, ?_, ?_, ?_, ?_⟩
    case refine_1 =>
      intro j r' hr' hstage
      obtain ⟨r, hr, rfl⟩ := getElem?_cancel hr'
      have hstage' : r.phase.stage = .committed := by
        split at hstage <;> exact hstage
      exact absurd hstage' (hcond r (mem_currentRun (h.committed j r hr hstage') hr))
    case refine_2 =>
      intro n hn
      rw [cancel_of_some hcurrent] at hn
      rw [length_cancel]
      rcases mem_cons.mp hn with hnew | hn
      · exact (Event.withdrew.inj hnew).le
      rcases mem_append.mp hn with hmem | hn
      · cases caller with
        | none => cases hmem
        | some d => cases mem_singleton.mp hmem
      · exact h.bound n hn
    case refine_3 =>
      intro n c' _ hc'
      cases cancel_current.symm.trans hc'
    case refine_4 =>
      rw [cancel_of_some hcurrent]
      refine Stops.cons ?_ fun d hd => hd.elim
      cases caller with
      | none => exact h.stops
      | some d => exact h.stops.cons fun d' hd' => hd'.elim

theorem Inv.restartThen (h : Inv s) (hcond : Withdrawable s) (requestedBy : String) (wait : Int)
    (ending : Ending) (now : Int) : Inv (s.restartThen requestedBy wait ending now) where
  one := h.one.restartThen requestedBy wait ending now
  committed j r' hr' hstage := by
    rcases getElem?_restartThen hr' with ⟨r, hr, rfl⟩ | ⟨rfl, -⟩
    · have hstage' : r.phase.stage = .committed := by
        split at hstage <;> exact hstage
      exact absurd hstage' (hcond r (mem_currentRun (h.committed j r hr hstage') hr))
    · rfl
  bound n hn := by
    rw [length_restartThen]
    rcases mem_cons.mp hn with hnew | hn
    · rw [Event.withdrew.inj hnew]
      exact Nat.le_succ _
    · exact (h.bound n hn).trans (Nat.le_succ _)
  current n c hn hc := by
    cases hc
    rcases mem_cons.mp hn with hnew | hn
    · exact (Event.withdrew.inj hnew).le
    · exact h.bound n hn
  stops := h.stops.cons fun d hd => hd.elim

theorem Inv.effect (h : Inv s) (hr : s.drains[d]? = some r)
    (hcond : r.phase = .failed → Withdrawable s) (heffect : Effect s d r s') : Inv s' := by
  cases heffect with
  | moves p hp =>
    refine h.goes fun hcommitted => ?_
    rcases hp with hsame | hend | ⟨-, hrunning⟩
    · exact h.committed d r hr (hsame.symm.trans hcommitted)
    · cases hend.symm.trans hcommitted
    · -- a drain that is not cancelled is the current one
      by_contra hne
      rw [h.one.others d r hr hne] at hrunning
      cases hrunning
  | ends id p hstage hp =>
    have hd := h.committed d r hr hstage
    exact (h.terminate hd).goes fun _ => hd
  | acts p hstage hp =>
    have hd := h.committed d r hr hstage
    exact (h.log hd (.inl rfl)).goes fun _ => hd
  | cancels hphase => exact (h.cancel (hcond hphase) (some d)).goes nofun

theorem Inv.init : Inv State.init where
  one := OneCurrent.init
  committed _ _ hr _ := nomatch hr
  bound _ hn := nomatch hn
  current _ _ hn _ := nomatch hn
  stops later earlier n hlog := absurd hlog (by simp [State.init])

/-- **One step.** -/
theorem Inv.step {cfg : Config} {l : Label} (h : Inv s) (hcond : WithdrawnInTime s l)
    (hstep : step cfg s l = some s') : Inv s' := by
  cases l with
  | restartThen requestedBy wait ending now =>
    cases hstep
    exact h.restartThen hcond requestedBy wait ending now
  | cancel =>
    cases hstep
    exact h.cancel hcond none
  | register l | leave id =>
    cases hstep
    exact ⟨⟨h.one.last, h.one.others⟩, h.committed, h.bound, h.current, h.stops⟩
  | run d i =>
    simp only [Lifecycle.step] at hstep
    split at hstep
    · cases hstep
    · rename_i r hr
      exact h.effect hr (hcond r hr) (step_effect hstep)

/-- **A withdrawn drain stops.** In every run in which a drain is cancelled or replaced only before
its goroutine's last look at the context, or once its ending ran: after `Cancel` returned true or a
later `RestartThen` returned, the earlier drain ends no session and does not run its ending. -/
theorem withdrawn_drain_stops {cfg : Config} {ls : List Label} {s : State}
    (h : RunWhere (step cfg) WithdrawnInTime .init ls s) : Stops s.log :=
  (h.keeps Inv (fun _ _ _ hcond hinv hs => hinv.step hcond hs) Inv.init).stops

/-! ## Runs -/

/-- What a step is given at a time, with nothing else to see. -/
def seenAt (now : Int) : Input := ⟨now, false, [], true, none, none⟩

/-- A bridge that serves a session. -/
def bridge (sessionID : String) : Live :=
  ⟨sessionID, "u", "t", .ssh, "p", true, true, false, none⟩

/-- A restart is asked for while a session is live, and cancelled while it waits. -/
def cancelsInTime : List Label :=
  [.register (bridge "a"), .restartThen "admin" (60 * second) .restart 0, .run 0 (seenAt 1), .cancel,
    .run 0 (seenAt 2), .run 0 (seenAt (61 * second)), .run 0 (seenAt (62 * second))]

/-- The session goes on. -/
theorem withdrawn_drain_stops_in_time :
    ∃ s, RunWhere (step ⟨0, 0⟩) WithdrawnInTime .init cancelsInTime s ∧
      s.registry.running.map Live.sessionID = ["a"] ∧ s.drains.map DrainRun.phase = [.returned] ∧
      Stops s.log :=
  RunWhere.exists_of_decide (P := fun s => s.registry.running.map Live.sessionID = ["a"] ∧
      s.drains.map DrainRun.phase = [.returned])
    (by decide +kernel) fun _ hrun hs => ⟨hs.1, hs.2, withdrawn_drain_stops hrun⟩

/-- A restart is asked for while no session is live. Its goroutine looks at its context, the
restart is cancelled, and a session starts. -/
def cancelsLate : List Label :=
  [.restartThen "admin" (60 * second) .restart 0, .run 0 (seenAt 1), .run 0 (seenAt 2), .cancel,
    .register (bridge "a"), .run 0 { seenAt 3 with listed := ["a"] }, .run 0 (seenAt 4),
    .run 0 (seenAt 5), .leave "a", .run 0 (seenAt 6), .run 0 (seenAt 7), .run 0 (seenAt 8),
    .run 0 (seenAt 9)]

/-- The cancelled drain ends the session and stops the gateway. -/
theorem cancelled_drain_exits :
    ∃ s, Run (step ⟨0, 0⟩) .init cancelsLate s ∧
      s.log = [.acted 0, .ended 0 "a", .withdrew 1, .withdrew 0] ∧ ¬Stops s.log := by
  refine Run.exists_of_decide (P := fun s =>
    s.log = [.acted 0, .ended 0 "a", .withdrew 1, .withdrew 0]) (by decide +kernel)
    fun s _ hlog => ⟨hlog, fun hstops => ?_⟩
  have hle := hstops [.acted 0, .ended 0 "a"] [.withdrew 0] 1 hlog (.acted 0) mem_cons_self 0 rfl
  exact absurd hle (by decide)

end Zanskar.Lifecycle
