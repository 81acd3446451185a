import Zanskar.Lib.Calls

/-!
# The runtime settings (`internal/settings/settings.go`)

A console value is a row of the database; the service keeps a copy of the rows, from
which `Get` answers, and tells the subscribers of a key when it changes. `Set` writes
the row and reads it back, then takes the lock to put it into the copy, then tells the
subscribers one by one; `Reset` deletes the row, takes it out of the copy, resolves the
value and tells it. Nothing orders the steps of two calls.

- `set_overtaken` : two `Set` of one key that cross: `Get` and the subscribers have the
  value that is not stored;
- `settings_agree` : where no two calls about one key overlap, both have what the rows
  give.

A call whose key is unknown or whose value is refused takes no step; a value here is
one that `Validate` has returned.
-/

namespace Zanskar.Settings

open Function Lib

/-- A console row. -/
structure Row where
  value : String
  updatedAt : Option Int
  updatedBy : String
  deriving DecidableEq

inductive Source where
  | default
  | environment
  | console
  deriving DecidableEq

/-- `Value`, without the definition. -/
structure Value where
  value : String
  source : Source
  updatedAt : Option Int
  updatedBy : String
  deriving DecidableEq

/-- A setting's default, its install-time value, and how many functions are subscribed
to it. -/
structure Definition where
  default : String
  env : Option String
  subs : Nat

/-- The value a console row gives, or the lack of one. -/
def Definition.resolve (d : Definition) : Option Row → Value
  | some row => ⟨row.value, .console, row.updatedAt, row.updatedBy⟩
  | none =>
    match d.env with
    | some env => ⟨env, .environment, none, ""⟩
    | none => ⟨d.default, .default, none, ""⟩

/-- What there is of one key. -/
structure Slot where
  /-- The row in the database. -/
  row : Option Row
  /-- The service's copy. -/
  cached : Option Row
  /-- What each subscriber was told last. -/
  told : Nat → Option String

/-- `Get`. -/
def get (d : Definition) (s : Slot) : Value := d.resolve s.cached

inductive Call where
  | set (key value actor : String)
  | reset (key : String)

/-- What a call does next. -/
inductive Stage where
  | write (value actor : String)
  /-- `Repo.Set` reads the row back. -/
  | readBack (value : String)
  | copy (value : String) (row : Row)
  | delete
  | uncopy
  | resolve
  /-- The subscribers from `i` on are told. -/
  | tell (value : String) (i : Nat)

/-- One step of a call, at the time `now`. -/
def Stage.next (d : Definition) (now : Int) (s : Slot) : Stage → Slot × Option Stage
  | .write value actor => ({ s with row := some ⟨value, some now, actor⟩ }, some (.readBack value))
  -- for a row that is gone `Repo.Get` returns an empty one
  | .readBack value => (s, some (.copy value (s.row.getD ⟨"", none, ""⟩)))
  | .copy value row => ({ s with cached := some row }, some (.tell value 0))
  | .delete => ({ s with row := none }, some .uncopy)
  | .uncopy => ({ s with cached := none }, some .resolve)
  | .resolve => (s, some (.tell (get d s).value 0))
  | .tell value i =>
    if i < d.subs then
      ({ s with told := Function.update s.told i (some value) }, some (.tell value (i + 1)))
    else (s, none)

/-- The calls of `Set` and `Reset`, on the settings with these definitions. -/
def calls (defs : String → Definition) : Calls (String → Slot) String Stage Call Int where
  key
    | .set key _ _ => key
    | .reset key => key
  start
    | .set _ value actor => .write value actor
    | .reset _ => .delete
  next key stage now s :=
    let r := stage.next (defs key) now (s key)
    some (Function.update s key r.1, r.2)

/-- The service as `Load` leaves it. `rows` are the rows it keeps: those of a key that is known,
with a value that `Validate` takes. -/
def loaded (rows : String → Option Row) (key : String) : Slot := ⟨rows key, rows key, fun _ => none⟩

/-- The copy is the row, and whoever was told something was told its value last. -/
def Settled (d : Definition) (s : Slot) : Prop :=
  s.cached = s.row ∧ ∀ i < d.subs, ∀ v, s.told i = some v → v = (d.resolve s.row).value

/-- What holds of a key before the next step of the one call about it. -/
def Fits (d : Definition) (s : Slot) : Stage → Prop
  | .write _ _ => Settled d s
  | .readBack value => ∃ row, s.row = some row ∧ row.value = value
  | .copy value row => s.row = some row ∧ row.value = value
  | .delete => Settled d s
  | .uncopy => s.row = none
  | .resolve => s.row = none ∧ s.cached = none
  | .tell value i => s.cached = s.row ∧ (d.resolve s.row).value = value ∧
      ∀ j < i, s.told j = some value

/-- One step of a call. -/
theorem Fits.next {d : Definition} {s : Slot} {stage : Stage} (h : Fits d s stage) (now : Int) :
    (stage.next d now s).2.elim (Settled d (stage.next d now s).1)
      (Fits d (stage.next d now s).1) := by
  cases stage with
  | write value actor => exact ⟨_, rfl, rfl⟩
  | readBack value =>
    obtain ⟨row, hrow, hvalue⟩ := h
    show s.row = some (s.row.getD ⟨"", none, ""⟩) ∧ (s.row.getD ⟨"", none, ""⟩).value = value
    rw [hrow]
    exact ⟨rfl, hvalue⟩
  | copy value row =>
    obtain ⟨hrow, hvalue⟩ := h
    show some row = s.row ∧ (d.resolve s.row).value = value ∧ ∀ j < 0, s.told j = some value
    rw [hrow]
    exact ⟨rfl, hvalue, fun j hj => absurd hj j.not_lt_zero⟩
  | delete => rfl
  | uncopy => exact ⟨h, rfl⟩
  | resolve =>
    obtain ⟨hrow, hcached⟩ := h
    refine ⟨hcached.trans hrow.symm, ?_, fun j hj => absurd hj j.not_lt_zero⟩
    show (d.resolve s.row).value = (d.resolve s.cached).value
    rw [hrow, hcached]
  | tell value i =>
    obtain ⟨hcopy, hvalue, htold⟩ := h
    simp only [Stage.next]
    split
    · refine ⟨hcopy, hvalue, fun j hj => ?_⟩
      show Function.update s.told i (some value) j = some value
      by_cases hji : j = i
      · rw [hji, update_self]
      · rw [update_of_ne hji]
        exact htold j (by omega)
    · rename_i hlast
      refine ⟨hcopy, fun j hj v hv => ?_⟩
      rw [hvalue]
      exact Option.some.inj (hv.symm.trans (htold j (by omega)))

/-- **The service agrees with its rows.** In every run of `Set` and `Reset` in which no two calls
about one key overlap, of every key whose calls have returned, `Get` resolves what the stored rows
give, and the last value a subscriber was told is that one. -/
theorem settings_agree {defs : String → Definition} {rows : String → Option Row}
    {ls : List (CallLabel Call Int)} {s : CallState (String → Slot) String Stage}
    (h : RunWhere (calls defs).step ((calls defs).Alone (fun _ => True) fun _ _ _ => True)
      (.init (loaded rows)) ls s) {key : String} (hkey : s.Returned key) :
    get (defs key) (s.shared key) = (defs key).resolve (s.shared key).row ∧
      ∀ i < (defs key).subs, ∀ v, (s.shared key).told i = some v →
        v = ((defs key).resolve (s.shared key).row).value := by
  have hsettled : Settled (defs key) (s.shared key) := by
    refine (calls defs).settled_of_alone (fun k s => Settled (defs k) (s k))
      (fun k p s => Fits (defs k) (s k) p) ?_ ?_ ?_ (fun k => ⟨rfl, fun i _ v hv => by cases hv⟩)
      h trivial hkey
    · intro call s hs
      cases call <;> exact hs
    · intro k p now s t o _ hfits hnext
      cases hnext
      simp only [update_self]
      exact hfits.next now
    · intro k p now s t o _ hnext k' hne
      cases hnext
      simp only [update_of_ne hne]
      exact ⟨id, fun _ => id⟩
  rw [get, hsettled.1]
  exact ⟨rfl, hsettled.2⟩

/-- A setting that is off by default, and that one function is subscribed to. -/
def offByDefault (_ : String) : Definition := ⟨"false", none, 1⟩

/-- No row is stored. -/
def noRows (_ : String) : Option Row := none

/-- An administrator asks for a second factor. -/
def asksForMFA : Call := .set "auth.require_mfa" "true" "ann"

theorem settings_agree_after_set :
    ∃ s, RunWhere (calls offByDefault).step
        ((calls offByDefault).Alone (fun _ => True) fun _ _ _ => True) (.init (loaded noRows))
        (.begins 0 asksForMFA :: [1, 2, 3, 4, 5].map (.next 0)) s ∧
      s.Returned "auth.require_mfa" ∧ (s.shared "auth.require_mfa").told 0 = some "true" ∧
      get (offByDefault "auth.require_mfa") (s.shared "auth.require_mfa") =
        (offByDefault "auth.require_mfa").resolve (s.shared "auth.require_mfa").row ∧
      ∀ i < 1, ∀ v, (s.shared "auth.require_mfa").told i = some v →
        v = ((offByDefault "auth.require_mfa").resolve (s.shared "auth.require_mfa").row).value := by
  obtain ⟨s, hrun, hreturned, htold⟩ := (calls offByDefault).exists_run_of_one (loaded noRows)
    asksForMFA [1, 2, 3, 4, 5] (fun _ _ _ _ => trivial)
    (fun s => (s "auth.require_mfa").told 0 = some "true") (by decide +kernel)
  exact ⟨s, hrun, hreturned _, of_decide_eq_true htold, settings_agree hrun (hreturned _)⟩

/-- Two administrators set one setting. The first has written its row and read it back when the
second goes through all of its steps; the first then copies and tells its own value. -/
def overtaken : List (CallLabel Call Int) :=
  [.begins 0 (.set "auth.require_mfa" "false" "ann"), .next 0 1, .next 0 2,
    .begins 1 (.set "auth.require_mfa" "true" "bob"), .next 1 3, .next 1 4, .next 1 5, .next 1 6,
    .next 1 7, .next 0 8, .next 0 9, .next 0 10]

theorem set_overtaken :
    ∃ s, Run (calls offByDefault).step (.init (loaded noRows)) overtaken s ∧
      (∀ key, s.Returned key) ∧
      (s.shared "auth.require_mfa").row = some ⟨"true", some 3, "bob"⟩ ∧
      (get (offByDefault "auth.require_mfa") (s.shared "auth.require_mfa")).value = "false" ∧
      (s.shared "auth.require_mfa").told 0 = some "false" :=
  Calls.exists_run_returned 2 (by decide) (by decide +kernel)

end Zanskar.Settings
