import Zanskar.Keyring.Versions
import Zanskar.Lib.Machine

/-!
# Processes on one key table

Several processes, each opened with a master key of its own, work on one table:
they open (bootstrapping an empty table), add versions, and rewrap all of them under
a new master key. Each transaction is a step; the advisory lock orders them.

A process keeps the master key it was opened with. `Rewrap` refuses a table it
cannot open, but `createVersion` does not look at the other rows:

- `rotate_after_rewrap` : a process opened before another's `Rewrap` adds a version
  under the old master key, and from then on no master key opens the table;
- `one_master` : where a version is added only by a process whose master key opens the
  others, all are under the current master key.
-/

namespace Zanskar

open Go Keyring Lib

/-- A process, and how far its `Open` has come. -/
inductive KeyProcess where
  /-- It has found no version. -/
  | opening (kek : Key)
  /-- It has bootstrapped, and loads again. -/
  | bootstrapped (kek : Key)
  | opened (kek : Key)
  /-- It has given up. -/
  | failed
  deriving DecidableEq

structure KeyState where
  versions : KeyVersions
  processes : List KeyProcess
  /-- The current master key: the one the first version was wrapped under, or the one
  the last `Rewrap` moved to. -/
  master : Option Key

/-- The transactions. -/
inductive KeyLabel where
  | openLoad (kek : Key)
  | bootstrap (i : Nat) (draw : Draw) (commits : Bool)
  | openReload (i : Nat)
  | rotate (i : Nat) (draw : Draw) (commits : Bool)
  | rewrap (i : Nat) (new : Key) (fate : Nat → Fate) (commits : Bool)

section

variable (aead : Aead)

/-- `load` of a new ring. -/
def loadNew (tbl : KeyVersions) (kek : Key) : Except RingError Ring :=
  (load aead tbl [] ⟨kek, [], 0, false⟩).2

/-- The master key after a version was added. -/
def KeyState.masterAfter (s : KeyState) (kek : Key) : Option Key :=
  if live s.versions = [] then some kek else s.master

/-- One transaction. -/
def keyStep (s : KeyState) : KeyLabel → Option KeyState
  | .openLoad kek =>
    match loadNew aead s.versions kek with
    | .error _ => some s
    | .ok r =>
      some { s with
        processes := s.processes ++ [if r.active = 0 then .opening kek else .opened kek] }
  | .bootstrap i draw commits =>
    match s.processes[i]? with
    | some (.opening kek) =>
      match createVersion aead kek s.versions true draw commits with
      | (tbl, .error _) => some { s with versions := tbl, processes := s.processes.set i .failed }
      | (tbl, .ok _) =>
        some ⟨tbl, s.processes.set i (.bootstrapped kek), s.masterAfter kek⟩
    | _ => none
  | .openReload i =>
    match s.processes[i]? with
    | some (.bootstrapped kek) =>
      match loadNew aead s.versions kek with
      | .error _ => some { s with processes := s.processes.set i .failed }
      | .ok _ => some { s with processes := s.processes.set i (.opened kek) }
    | _ => none
  | .rotate i draw commits =>
    match s.processes[i]? with
    | some (.opened kek) =>
      match createVersion aead kek s.versions false draw commits with
      | (tbl, .error _) => some { s with versions := tbl }
      -- whether its `load` then succeeds, the process stays open
      | (tbl, .ok _) => some { s with versions := tbl, master := s.masterAfter kek }
    | _ => none
  | .rewrap i new fate commits =>
    match s.processes[i]? with
    | some (.opened kek) =>
      match rewrap aead s.versions kek new fate commits with
      | (tbl, .error _) => some { s with versions := tbl }
      | (tbl, .ok _) => some ⟨tbl, s.processes.set i (.opened new), some new⟩
    | _ => none

/-! ## What is claimed, and when -/

/-- All versions in use are wrapped under the current master key. -/
def KeyState.OneMaster (s : KeyState) : Prop :=
  live s.versions = [] ∨ ∃ kek, s.master = some kek ∧ AllUnder aead kek s.versions

/-- A version is added by a process whose master key opens those there are. -/
def Current (s : KeyState) : KeyLabel → Prop
  | .rotate i draw commits => ∀ kek tbl n, s.processes[i]? = some (.opened kek) →
      createVersion aead kek s.versions false draw commits = (tbl, .ok n) →
        ∀ v ∈ live s.versions, ∃ dek, unwrapRow aead kek v = .ok dek
  | _ => True

end

variable {aead : Aead} {tbl : KeyVersions} {kek : Key} {s : KeyState} {n : Nat} {commits : Bool}

theorem loadNew_ok (h : AllUnder aead kek tbl) : ∃ r, loadNew aead tbl kek = .ok r := by
  have hcaches : Caches aead tbl [] ⟨kek, [], 0, false⟩ := fun _ _ hlookup => nomatch hlookup
  obtain ⟨m, r, hload, -⟩ := load_ok hcaches h.unwraps
  exact ⟨r, congrArg Prod.snd hload⟩

/-! ## Steps -/

/-- A version added under the master key of the others, or where there are none. -/
theorem KeyState.OneMaster.adds {processes : List KeyProcess} (h : s.OneMaster aead)
    (hopens : ∀ v ∈ live s.versions, ∃ dek, unwrapRow aead kek v = .ok dek)
    (hadds : Adds aead kek s.versions tbl) :
    KeyState.OneMaster aead ⟨tbl, processes, s.masterAfter kek⟩ := by
  unfold KeyState.masterAfter
  refine .inr ⟨kek, ?_, ?_⟩
  · split
    · rfl
    · rename_i hsome
      obtain ⟨kek', hmaster, hunder⟩ := h.resolve_left hsome
      obtain ⟨v, hv⟩ := List.exists_mem_of_ne_nil _ hsome
      obtain ⟨dek, hdek⟩ := hopens v hv
      obtain ⟨dek', hwrapped⟩ := hunder v hv
      rw [hmaster, hwrapped.eq_of_unwrapRow hdek]
  · have hunder : AllUnder aead kek s.versions := by
      rcases h with hnone | ⟨kek', -, hunder⟩
      · simp [AllUnder, hnone]
      · intro v hv
        obtain ⟨dek, hdek⟩ := hopens v hv
        obtain ⟨dek', hwrapped⟩ := hunder v hv
        rw [hwrapped.eq_of_unwrapRow hdek]
        exact ⟨dek', hwrapped⟩
    exact hunder.adds hadds

theorem KeyState.OneMaster.processes (h : s.OneMaster aead)
    (processes : List KeyProcess) : KeyState.OneMaster aead { s with processes := processes } := h

theorem KeyState.OneMaster.bootstrap {draw : Draw}
    {processes : List KeyProcess} (h : s.OneMaster aead)
    (hcreate : createVersion aead kek s.versions true draw commits = (tbl, .ok n)) :
    KeyState.OneMaster aead ⟨tbl, processes, s.masterAfter kek⟩ := by
  rcases createVersion_ok hcreate with ⟨rfl, -⟩ | ⟨hempty, hadds⟩
  · rcases h with hnone | ⟨kek', hmaster, hunder⟩
    · exact .inl hnone
    · by_cases hnone : live s.versions = []
      · exact .inl hnone
      · exact .inr ⟨kek', by rw [KeyState.masterAfter, if_neg hnone, hmaster], hunder⟩
  · refine h.adds (fun v hv => ?_) hadds
    have hmem := (mem_live.mp hv).1
    rw [hempty rfl] at hmem
    cases hmem

theorem KeyState.OneMaster.rewrap {old new : Key} {fate : Nat → Fate} {processes : List KeyProcess}
    (h : s.OneMaster aead) (hrewrap : rewrap aead s.versions old new fate commits = (tbl, .ok n)) :
    KeyState.OneMaster aead ⟨tbl, processes, some new⟩ := by
  refine .inr ⟨new, rfl, fun v' hv' => ?_⟩
  obtain ⟨v, hv, hresealed⟩ := (rewrap_ok hrewrap).1 v' hv'
  rcases h with hnone | ⟨kek, -, hunder⟩
  · rw [hnone] at hv
    cases hv
  · obtain ⟨dek, hwrapped⟩ := hunder v hv
    obtain rfl := hresealed.eq_old hwrapped
    exact ⟨dek, hresealed.wrappedUnder hwrapped⟩

theorem keyStep_oneMaster {s' : KeyState} {l : KeyLabel} (hcond : Current aead s l)
    (h : s.OneMaster aead) (hstep : keyStep aead s l = some s') : s'.OneMaster aead := by
  cases l <;> simp only [keyStep] at hstep
  case openLoad kek =>
    split at hstep <;> cases hstep
    · exact h
    · exact h.processes _
  case bootstrap i draw commits =>
    split at hstep
    · rename_i kek hi
      split at hstep <;> cases hstep
      · rename_i hcreate
        rw [createVersion_error hcreate]
        exact h.processes _
      · rename_i hcreate
        exact h.bootstrap hcreate
    · cases hstep
  case openReload i =>
    split at hstep
    · split at hstep <;> cases hstep <;> exact h.processes _
    · cases hstep
  case rotate i draw commits =>
    split at hstep
    · rename_i kek hi
      split at hstep <;> rename_i hcreate <;> cases hstep
      · rw [createVersion_error hcreate]
        exact h
      · rcases createVersion_ok hcreate with ⟨-, hfalse, -⟩ | ⟨-, hadds⟩
        · cases hfalse
        · -- the condition: this process's master key opens the others
          exact h.adds (hcond kek _ _ hi hcreate) hadds
    · cases hstep
  case rewrap i new fate commits =>
    split at hstep
    · rename_i kek hi
      split at hstep <;> cases hstep
      · rename_i hrewrap
        rw [rewrap_error hrewrap]
        exact h
      · rename_i hrewrap
        exact h.rewrap hrewrap
    · cases hstep

/-! ## Runs -/

/-- **One master key.** In every run from a table under one master key in which
versions are added only by processes whose master key opens the others, all versions
in use are wrapped under the current master key, and a ring opened with it loads. -/
theorem one_master {s₀ s : KeyState} {ls : List KeyLabel} (hinit : s₀.OneMaster aead)
    (h : RunWhere (keyStep aead) (Current aead) s₀ ls s) :
    s.OneMaster aead ∧ ∀ kek, s.master = some kek → ∃ r, loadNew aead s.versions kek = .ok r := by
  have hone := h.keeps (KeyState.OneMaster aead) (fun _ _ _ => keyStep_oneMaster) hinit
  refine ⟨hone, fun kek hmaster => loadNew_ok ?_⟩
  rcases hone with hnone | ⟨kek', hmaster', hunder⟩
  · simp [AllUnder, hnone]
  · cases hmaster.symm.trans hmaster'
    exact hunder

/-! ## A version added under the old master key -/

/-- The first process bootstraps the table under the master key 1, a second opens with
it, and rewraps everything under 2. -/
def movedToTwo : List KeyLabel :=
  [.openLoad (keyOf 1), .bootstrap 0 (drawOf 7) true, .openReload 0, .openLoad (keyOf 1),
    .rewrap 1 (keyOf 2) (fateOf 8) true]

/-- No row, no process, no master key. -/
def KeyState.init : KeyState := ⟨Table.empty, [], none⟩

/-- Some version opens under the master key. -/
def opensSome (s : KeyState) (kek : Key) : Bool :=
  (live s.versions).any fun v => (unwrapRow .framed kek v).toOption.isSome

theorem unwrapRow_of_isSome {v : KeyVersion}
    (h : (unwrapRow .framed kek v).toOption.isSome) :
    ∃ dek, unwrapRow .framed kek v = .ok dek := by
  obtain ⟨dek, hdek⟩ := Option.isSome_iff_exists.mp h
  exact ⟨dek, mem_toOption.mp hdek⟩

theorem eq_of_opensSome {k : Key} (hunder : AllUnder .framed kek s.versions)
    (h : opensSome s k) : k = kek := by
  obtain ⟨v, hv, hopen⟩ := List.any_eq_true.mp h
  obtain ⟨dek, hwrapped⟩ := hunder v hv
  obtain ⟨b, hunwrap⟩ := unwrapRow_of_isSome hopen
  exact hwrapped.eq_of_unwrapRow hunwrap

/-- The first process, still with the master key 1, adds a version: no master key
opens both versions, and a ring opened with the current one does not load. -/
theorem rotate_after_rewrap :
    ∃ s, Run (keyStep .framed) .init (movedToTwo ++ [.rotate 0 (drawOf 9) true]) s ∧
      s.master = some (keyOf 2) ∧ (loadNew .framed s.versions (keyOf 2)).toOption = none ∧
      ¬∃ kek, AllUnder .framed kek s.versions :=
  Run.exists_of_decide (P := fun s => s.master = some (keyOf 2) ∧
      (loadNew .framed s.versions (keyOf 2)).toOption = none ∧ opensSome s (keyOf 1) = true ∧
        opensSome s (keyOf 2) = true)
    (by decide +kernel) fun _ _ ⟨hmaster, hload, hone, htwo⟩ => ⟨hmaster, hload, fun ⟨_, hunder⟩ =>
      absurd ((eq_of_opensSome hunder hone).trans (eq_of_opensSome hunder htwo).symm) (by decide)⟩

/-- The second process, with the master key 2, may add one. -/
theorem rotate_by_rewrapper :
    ∃ s, RunWhere (keyStep .framed) (Current .framed) .init
        (movedToTwo ++ [.rotate 1 (drawOf 9) true]) s ∧
      s.OneMaster .framed ∧ s.master = some (keyOf 2) ∧
      ∃ r, loadNew .framed s.versions (keyOf 2) = .ok r := by
  obtain ⟨t, hrun, hopened, hopens, s, hstep, hmaster⟩ : ∃ t,
      Run (keyStep .framed) .init movedToTwo t ∧
      t.processes[1]? = some (.opened (keyOf 2)) ∧
      (∀ v ∈ live t.versions, (unwrapRow .framed (keyOf 2) v).toOption.isSome) ∧
      ∃ s ∈ keyStep .framed t (.rotate 1 (drawOf 9) true), s.master = some (keyOf 2) :=
    Run.of_exec_decide (by decide +kernel)
  have hcond : Current .framed t (.rotate 1 (drawOf 9) true) := by
    intro kek _ _ hkek _ v hv
    cases hopened.symm.trans hkek
    exact unwrapRow_of_isSome (hopens v hv)
  have hwhere : RunWhere (keyStep .framed) (Current .framed) .init
      (movedToTwo ++ [.rotate 1 (drawOf 9) true]) s :=
    .snoc (hrun.where_of (by simp [movedToTwo, Current])) hcond hstep
  have hone := one_master (.inl rfl) hwhere
  exact ⟨s, hwhere, hone.1, hmaster, hone.2 _ hmaster⟩

end Zanskar
