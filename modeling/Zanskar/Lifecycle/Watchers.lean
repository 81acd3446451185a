import Zanskar.Lifecycle.Restart

/-!
# What an ending cancels (`internal/lifecycle/{host,install,bootchange}.go`)

The ending of a request that fails, and the watcher that an update or a change of the boot settings
leaves behind, call `Cancel`, which cancels whatever drain is current. A watcher looks at the
current drain before that, but knows it by its action only, and does not look once it has waited
long enough.

- `endings_cancel_their_own` : where a drain begins only when no earlier one can still call
  `Cancel`, each cancels its own drain or none;
- `watcher_cancels_the_next_change` : the watcher of a change that was refused cancels the drain
  of the next one.
-/

namespace Zanskar.Lifecycle

open Lib List

/-- Every drain that an ending or a watcher cancelled is the one its own request began. -/
def OwnOnly (log : List Event) : Prop := ∀ d c, .cancelled d c ∈ log → c = d

/-- The goroutine may still call `Cancel`: its ending or its watcher runs, or its ending will and
is not `Exit`. -/
def DrainRun.MayCancel (r : DrainRun) : Prop :=
  r.phase.stage = .late ∨ r.phase.stage = .committed ∧ r.drain.ending ≠ .restart

instance (r : DrainRun) : Decidable r.MayCancel :=
  inferInstanceAs (Decidable (_ ∨ _ ∧ _))

/-- A drain begins only when no earlier one may still call `Cancel`. -/
def BegunAlone (s : State) : Label → Prop
  | .restartThen .. => ∀ r ∈ s.drains, ¬r.MayCancel
  | _ => True

instance (s : State) : (l : Label) → Decidable (BegunAlone s l)
  | .restartThen .. => inferInstanceAs (Decidable (∀ r ∈ s.drains, ¬r.MayCancel))
  | .cancel | .register _ | .leave _ | .run _ _ => isTrue trivial

/-- Only the last drain may call `Cancel`. -/
structure LastOnly (s : State) : Prop where
  one : OneCurrent s
  last : ∀ d r, s.drains[d]? = some r → r.MayCancel → d + 1 = s.drains.length
  own : OwnOnly s.log

variable {r : DrainRun} {s : State} {d : Nat} {s' : State}

/-- A goroutine goes on; what it may do later it could do before, or it is the last one. -/
theorem LastOnly.goes {p : Phase} (h : LastOnly s) (hr : s.drains[d]? = some r)
    (hp : DrainRun.MayCancel { r with phase := p } → d + 1 = s.drains.length) :
    LastOnly (s.goes d p) where
  one := h.one.goes d p
  last j r' hr' hmay := by
    rw [length_goes]
    obtain ⟨r₀, hr₀, rfl⟩ := getElem?_goes hr'
    by_cases hj : d = j
    · subst hj
      cases hr₀.symm.trans hr
      rw [if_pos rfl] at hmay
      exact hp hmay
    · rw [if_neg hj] at hmay
      exact h.last j r₀ hr₀ hmay
  own := h.own

/-- The context plays no part in what a goroutine may do. -/
theorem mayCancel_of_ite {p : Prop} [Decidable p]
    (h : DrainRun.MayCancel (if p then { r with cancelled := true } else r)) : r.MayCancel := by
  split at h <;> exact h

theorem LastOnly.cancel {caller : Option Nat} (h : LastOnly s)
    (hcaller : ∀ d ∈ caller, d + 1 = s.drains.length) : LastOnly (s.cancel caller) where
  one := h.one.cancel caller
  last j r' hr' hmay := by
    rw [length_cancel]
    obtain ⟨r, hr, rfl⟩ := getElem?_cancel hr'
    exact h.last j r hr (mayCancel_of_ite hmay)
  own := by
    cases hcurrent : s.current with
    | none =>
      rw [cancel_of_none hcurrent]
      exact h.own
    | some c =>
      rw [cancel_of_some hcurrent]
      intro d c' hmem
      rcases mem_cons.mp hmem with hne | hmem
      · cases hne
      rcases mem_append.mp hmem with hnew | hold
      · -- the caller and the current drain are both the last one
        obtain ⟨d', hd', heq⟩ := Option.map_eq_some_iff.mp (Option.mem_toList.mp hnew)
        obtain ⟨rfl, rfl⟩ := Event.cancelled.inj heq
        have hlast := h.one.last c hcurrent
        have hd := hcaller d' hd'
        omega
      · exact h.own d c' hold

theorem LastOnly.restartThen (h : LastOnly s)
    (hcond : ∀ r ∈ s.drains, ¬r.MayCancel) (requestedBy : String) (wait : Int) (ending : Ending)
    (now : Int) : LastOnly (s.restartThen requestedBy wait ending now) where
  one := h.one.restartThen requestedBy wait ending now
  last j r' hr' hmay := by
    rcases getElem?_restartThen hr' with ⟨r, hr, rfl⟩ | ⟨rfl, -⟩
    · exact absurd (mayCancel_of_ite hmay) (hcond r (mem_of_getElem? hr))
    · rw [length_restartThen]
  own d c hmem := by
    rcases mem_cons.mp hmem with hne | hold
    · cases hne
    · exact h.own d c hold

theorem LastOnly.effect (h : LastOnly s)
    (hr : s.drains[d]? = some r) (heffect : Effect s d r s') : LastOnly s' := by
  cases heffect with
  | moves p hp =>
    refine h.goes hr fun hmay => ?_
    rcases hp with hsame | hend | ⟨hcommitted, hrunning⟩
    · -- the same stage
      refine h.last d r hr ?_
      rwa [DrainRun.MayCancel, hsame] at hmay
    · rcases hmay with hlate | ⟨hcommitted, -⟩
      · cases hend.symm.trans hlate
      · cases hend.symm.trans hcommitted
    · -- its context is not cancelled
      refine h.one.last d ?_
      by_contra hne
      rw [h.one.others d r hr hne] at hrunning
      cases hrunning
  | ends id p hstage hp =>
    have hterminate : LastOnly (s.terminate d id) := by
      refine ⟨⟨h.one.last, h.one.others⟩, h.last, fun d' c hmem => ?_⟩
      unfold State.terminate at hmem
      split at hmem
      · rcases mem_cons.mp hmem with hne | hold
        · cases hne
        · exact h.own d' c hold
      · exact h.own d' c hmem
    refine hterminate.goes hr fun hmay => h.last d r hr ?_
    rcases hmay with hlate | ⟨-, hending⟩
    · cases hp.symm.trans hlate
    · exact .inr ⟨hstage, hending⟩
  | acts p hstage hp =>
    have hlog : LastOnly { s with log := .acted d :: s.log } := by
      refine ⟨⟨h.one.last, h.one.others⟩, h.last, fun d' c hmem => ?_⟩
      rcases mem_cons.mp hmem with hne | hold
      · cases hne
      · exact h.own d' c hold
    refine hlog.goes hr fun hmay => h.last d r hr ?_
    rcases hp with hend | ⟨-, hending⟩
    · rcases hmay with hlate | ⟨hcommitted, -⟩
      · cases hend.symm.trans hlate
      · cases hend.symm.trans hcommitted
    · exact .inr ⟨hstage, hending⟩
  | cancels hphase =>
    have hmay : r.MayCancel := .inl (by rw [hphase]; rfl)
    have hlast := h.last d r hr hmay
    have hcancel : LastOnly (s.cancel (some d)) := by
      refine h.cancel fun d' hd' => ?_
      cases hd'
      exact hlast
    refine ⟨hcancel.one.goes d .returned, fun j r' hr' hmay' => ?_, hcancel.own⟩
    rw [length_goes]
    obtain ⟨r₀, hr₀, rfl⟩ := getElem?_goes hr'
    by_cases hj : d = j
    · subst hj
      rw [length_cancel]
      exact hlast
    · rw [if_neg hj] at hmay'
      exact hcancel.last j r₀ hr₀ hmay'

theorem LastOnly.init : LastOnly State.init where
  one := OneCurrent.init
  last _ _ hr _ := nomatch hr
  own _ _ hmem := nomatch hmem

/-- **One step.** -/
theorem LastOnly.step {cfg : Config} {l : Label} (h : LastOnly s)
    (hcond : BegunAlone s l) (hstep : step cfg s l = some s') : LastOnly s' := by
  cases l with
  | restartThen requestedBy wait ending now =>
    cases hstep
    exact h.restartThen hcond requestedBy wait ending now
  | cancel =>
    cases hstep
    exact h.cancel nofun
  | register l | leave id =>
    cases hstep
    exact ⟨⟨h.one.last, h.one.others⟩, h.last, h.own⟩
  | run d i =>
    simp only [Lifecycle.step] at hstep
    split at hstep
    · cases hstep
    · rename_i r hr
      exact h.effect hr (step_effect hstep)

/-- **Endings cancel their own drain.** In every run of drains, sessions and reports in which a
drain begins only when no earlier ending or watcher can still call `Cancel`: the drain that an
ending or a watcher cancels is the one its own request began. -/
theorem endings_cancel_their_own {cfg : Config} {ls : List Label} {s : State}
    (h : RunWhere (step cfg) BegunAlone .init ls s) : OwnOnly s.log :=
  (h.keeps LastOnly (fun _ _ _ hcond hinv hs => hinv.step hcond hs) LastOnly.init).own

/-! ## Runs -/

/-- A change is asked for while no session is live, its request is written, and its watcher
starts. -/
def changeBegins : List Label :=
  [.restartThen "admin" 0 (.config "1") 0, .run 0 (seenAt 1), .run 0 (seenAt 2), .run 0 (seenAt 3),
    .run 0 (seenAt 4), .run 0 (seenAt 5), .run 0 (seenAt 6), .run 0 (seenAt 7), .run 0 (seenAt 8)]

/-- The watcher wakes up, finds a change in progress, reads the refusal, and calls `Cancel`. -/
def changeIsRefused (now : Int) : List Label :=
  [.run 0 (seenAt now), .run 0 (seenAt (now + 1)),
    .run 0 { seenAt (now + 2) with configured := some ⟨"1", .refused⟩ }, .run 0 (seenAt (now + 3))]

/-- The helper refuses a change, and its drain ends. -/
theorem endings_cancel_their_own_change :
    ∃ s, RunWhere (step ⟨0, 0⟩) BegunAlone .init (changeBegins ++ changeIsRefused (2 * second)) s ∧
      .cancelled 0 0 ∈ s.log ∧ s.current = none ∧ OwnOnly s.log :=
  RunWhere.exists_of_decide (P := fun s => .cancelled 0 0 ∈ s.log ∧ s.current = none)
    (by decide +kernel) fun _ hrun hs => ⟨hs.1, hs.2, endings_cancel_their_own hrun⟩

/-- A second change is asked for before the helper refuses the first one: the watcher of the first
cancels the drain of the second. -/
theorem watcher_cancels_the_next_change :
    ∃ s, Run (step ⟨0, 0⟩) .init (changeBegins ++
        (.restartThen "admin" (900 * second) (.config "2") second ::
          changeIsRefused (2 * second))) s ∧
      .cancelled 0 1 ∈ s.log ∧ ¬OwnOnly s.log :=
  Run.exists_of_decide (P := fun s => .cancelled 0 1 ∈ s.log) (by decide +kernel)
    fun _ _ hlog => ⟨hlog, fun hown => absurd (hown 0 1 hlog) (by decide)⟩

end Zanskar.Lifecycle
