import Zanskar.Keyring.Ring

/-!
# The key versions and the master key they are wrapped under

What `createVersion` and `Rewrap` do to the table, in terms of which data key a row
is and which master key it is wrapped under (`WrappedUnder`). Under an ideal AEAD a
row opens under that master key and no other.
-/

namespace Zanskar.Keyring

open Go Lib List

variable {aead : Aead} {dek kek : Key} {v : KeyVersion} {tbl : KeyVersions}

/-! ## Wrapped data keys -/

/-- The row is the data key, wrapped under the master key for this version. -/
def WrappedUnder (aead : Aead) (kek : Key) (v : KeyVersion) (dek : Key) : Prop :=
  ∃ rand, Crypto.sealWith aead kek rand dek.1 (versionAAD v.id) = .ok v.wrapped

theorem WrappedUnder.unwrapRow_eq
    (h : WrappedUnder aead kek v dek) : unwrapRow aead kek v = .ok dek.1 := by
  obtain ⟨rand, hseal⟩ := h
  exact Crypto.openWith_sealWith hseal

/-- Only the master key it is wrapped under opens it. -/
theorem WrappedUnder.eq_of_unwrapRow {kek' : Key} {b : Bytes}
    (h : WrappedUnder aead kek v dek) (hopen : unwrapRow aead kek' v = .ok b) : kek' = kek := by
  by_contra hne
  obtain ⟨rand, hseal⟩ := h
  have herror : Crypto.openWith aead kek' v.wrapped (versionAAD v.id) = .error .invalidCiphertext :=
    Crypto.openWith_sealWith_other hseal (.inl hne)
  rw [unwrapRow, herror] at hopen
  cases hopen

/-- Every version in use is wrapped under the master key. -/
def AllUnder (aead : Aead) (kek : Key) (tbl : KeyVersions) : Prop :=
  ∀ v ∈ live tbl, ∃ dek, WrappedUnder aead kek v dek

theorem AllUnder.unwraps (h : AllUnder aead kek tbl) :
    ∀ v ∈ live tbl, ∃ dek, unwrapRow aead kek v = .ok dek := by
  intro v hv
  obtain ⟨dek, hdek⟩ := h v hv
  exact ⟨dek.1, hdek.unwrapRow_eq⟩

/-! ## `createVersion` -/

/-- The table has one version more: the next, wrapped under the master key. -/
def Adds (aead : Aead) (kek : Key) (tbl tbl' : KeyVersions) : Prop :=
  ∃ v dek, WrappedUnder aead kek v dek ∧ v.retiredAt = none ∧ 0 < v.id ∧
    (∀ w ∈ tbl.rows, w.id < v.id) ∧ ∀ w, w ∈ tbl'.rows ↔ w ∈ tbl.rows ∨ w = v

variable (aead) in
theorem insertVersion_cases (kek : Key) {newID : Nat} (draw : Draw)
    (commits : Bool) (hpos : 0 < newID) (hnew : ∀ w ∈ tbl.rows, w.id < newID) :
    ((insertVersion aead kek tbl newID draw commits).1 = tbl ∧
      ∃ e, (insertVersion aead kek tbl newID draw commits).2 = .error e) ∨
    ((insertVersion aead kek tbl newID draw commits).2 = .ok newID ∧
      Adds aead kek tbl (insertVersion aead kek tbl newID draw commits).1) := by
  unfold insertVersion
  split
  · exact .inl ⟨rfl, _, rfl⟩
  rename_i dek hdek
  split
  · exact .inl ⟨rfl, _, rfl⟩
  rename_i wrapped hseal
  split
  · exact .inl ⟨rfl, _, rfl⟩
  rename_i tbl' hinsert
  split
  · exact .inr ⟨rfl, ⟨newID, wrapped, none⟩, dek, ⟨_, hseal⟩, rfl, hpos, hnew,
      fun w => Table.mem_insert hinsert⟩
  · exact .inl ⟨rfl, _, rfl⟩

theorem le_of_maxID {n : Nat} (h : maxID tbl = some n) :
    ∀ w ∈ tbl.rows, w.id ≤ n := fun w hw =>
  (max?_eq_some_iff.mp h).2 w.id (mem_map_of_mem hw)

theorem maxID_eq_none : maxID tbl = none ↔ tbl.rows = [] := by
  rw [maxID, max?_eq_none_iff, map_eq_nil_iff]

variable (aead) in
/-- What `createVersion` can do: nothing, with an error or because there is a version
to bootstrap with, or add the next version. -/
theorem createVersion_cases (kek : Key) (tbl : KeyVersions) (onlyIfEmpty : Bool) (draw : Draw)
    (commits : Bool) :
    ((createVersion aead kek tbl onlyIfEmpty draw commits).1 = tbl ∧
      ((∃ e, (createVersion aead kek tbl onlyIfEmpty draw commits).2 = .error e) ∨
        onlyIfEmpty ∧ tbl.rows ≠ [])) ∨
    ((onlyIfEmpty → tbl.rows = []) ∧
      (∃ n, (createVersion aead kek tbl onlyIfEmpty draw commits).2 = .ok n) ∧
      Adds aead kek tbl (createVersion aead kek tbl onlyIfEmpty draw commits).1) := by
  unfold createVersion
  split
  · rename_i hnone
    have hempty := maxID_eq_none.mp hnone
    have hnew : ∀ w ∈ tbl.rows, w.id < 1 := by simp [hempty]
    rcases insertVersion_cases aead kek draw commits Nat.one_pos hnew with ⟨hsame, herror⟩ |
      ⟨hok, hadds⟩
    · exact .inl ⟨hsame, .inl herror⟩
    · exact .inr ⟨fun _ => hempty, ⟨_, hok⟩, hadds⟩
  · rename_i n hmax
    have hsome : tbl.rows ≠ [] := fun hempty => by
      rw [maxID_eq_none.mpr hempty] at hmax
      cases hmax
    have hnew : ∀ w ∈ tbl.rows, w.id < n + 1 := fun w hw =>
      Nat.lt_succ_of_le (le_of_maxID hmax w hw)
    split
    · rename_i honly
      exact .inl ⟨rfl, .inr ⟨honly, hsome⟩⟩
    · rename_i honly
      rcases insertVersion_cases aead kek draw commits n.succ_pos hnew with ⟨hsame, herror⟩ |
        ⟨hok, hadds⟩
      · exact .inl ⟨hsame, .inl herror⟩
      · exact .inr ⟨fun h => absurd h honly, ⟨_, hok⟩, hadds⟩

variable {tbl' : KeyVersions} {commits : Bool}

theorem createVersion_error {onlyIfEmpty : Bool} {draw : Draw} {e : RingError}
    (h : createVersion aead kek tbl onlyIfEmpty draw commits = (tbl', .error e)) : tbl' = tbl := by
  have hcases := createVersion_cases aead kek tbl onlyIfEmpty draw commits
  rw [h] at hcases
  rcases hcases with ⟨hsame, -⟩ | ⟨-, ⟨n, hok⟩, -⟩
  · exact hsame
  · cases hok

theorem createVersion_ok {onlyIfEmpty : Bool} {draw : Draw} {n : Nat}
    (h : createVersion aead kek tbl onlyIfEmpty draw commits = (tbl', .ok n)) :
    tbl' = tbl ∧ onlyIfEmpty ∧ tbl.rows ≠ [] ∨
      (onlyIfEmpty → tbl.rows = []) ∧ Adds aead kek tbl tbl' := by
  have hcases := createVersion_cases aead kek tbl onlyIfEmpty draw commits
  rw [h] at hcases
  rcases hcases with ⟨hsame, ⟨e, he⟩ | hwhy⟩ | ⟨hempty, -, hadds⟩
  · cases he
  · exact .inl ⟨hsame, hwhy⟩
  · exact .inr ⟨hempty, hadds⟩

variable {new old : Key} {fate : Nat → Fate}

/-- A version added under the master key of the others. -/
theorem AllUnder.adds (h : AllUnder aead kek tbl)
    (hadds : Adds aead kek tbl tbl') : AllUnder aead kek tbl' := by
  obtain ⟨v, dek, hwrapped, -, -, -, hrows⟩ := hadds
  intro w hw
  obtain ⟨hw, hlive⟩ := mem_live.mp hw
  rcases (hrows w).mp hw with hold | rfl
  · exact h w (mem_live.mpr ⟨hold, hlive⟩)
  · exact ⟨dek, hwrapped⟩

/-! ## `Rewrap` -/

/-- The row is wrapped under the new master key, the data key what the old one
opened. -/
def Resealed (aead : Aead) (old new : Key) (v v' : KeyVersion) : Prop :=
  v'.id = v.id ∧ v'.retiredAt = v.retiredAt ∧
    ∃ dek rand, unwrapRow aead old v = .ok dek ∧
      Crypto.sealWith aead new rand dek (versionAAD v.id) = .ok v'.wrapped

/-- A row that is rewrapped keeps its data key. -/
theorem rewrapRow_ok {fate : Fate} {wrapped : Bytes}
    (h : rewrapRow aead old new fate v = .ok wrapped) :
    Resealed aead old new v { v with wrapped := wrapped } := by
  unfold rewrapRow at h
  split at h
  · cases h
  split at h
  · cases h
  rename_i dek hdek
  split at h
  · cases h
  rename_i sealed hseal
  split at h
  · cases h
  split at h
  · cases h
  split at h <;> cases h
  exact ⟨rfl, rfl, dek, _, hdek, hseal⟩

/-- The loop: the rows it goes through are resealed, the others stay. -/
theorem rewrapRows_ok {rows : List KeyVersion} (hrows : ∀ v ∈ rows, v ∈ tbl.rows)
    (hnodup : (rows.map KeyVersion.id).Nodup)
    (h : rewrapRows aead old new fate rows tbl = .ok tbl') :
    (∀ v' ∈ tbl'.rows, ∃ v ∈ tbl.rows, v ∈ rows ∧ Resealed aead old new v v' ∨
      v ∉ rows ∧ v' = v) ∧
    ∀ v ∈ tbl.rows, ∃ v' ∈ tbl'.rows, v'.id = v.id ∧ v'.retiredAt = v.retiredAt := by
  induction rows generalizing tbl with
  | nil =>
    cases h
    exact ⟨fun v hv => ⟨v, hv, .inr ⟨not_mem_nil, rfl⟩⟩, fun v hv => ⟨v, hv, rfl, rfl⟩⟩
  | cons row rows ih =>
    simp only [rewrapRows] at h
    split at h
    · cases h
    rename_i wrapped hrow
    obtain ⟨hnew, hnodup⟩ := nodup_cons.mp hnodup
    have hother : ∀ v ∈ rows, v.id ≠ row.id := fun v hv heq =>
      hnew (heq ▸ mem_map_of_mem hv)
    -- the rows still to come are as they were read
    have hrest : ∀ v ∈ rows, v ∈ (tbl.update (fun w => w.id = row.id)
        (fun w => { w with wrapped := wrapped }) fun _ => rfl).rows := fun v hv =>
      Table.mem_update.mpr ⟨v, hrows v (mem_cons_of_mem row hv),
        .inr ⟨decide_eq_false (hother v hv), rfl⟩⟩
    obtain ⟨hback, hforth⟩ := ih hrest hnodup h
    constructor
    · intro v' hv'
      obtain ⟨v₁, hv₁, hcase⟩ := hback v' hv'
      obtain ⟨v, hv, ⟨hid, rfl⟩ | ⟨hid, rfl⟩⟩ := Table.mem_update.mp hv₁
      · obtain rfl := tbl.eq_of_key_eq hv (hrows row mem_cons_self) (of_decide_eq_true hid)
        rcases hcase with ⟨hmem, -⟩ | ⟨-, rfl⟩
        · exact absurd rfl (hother { v with wrapped := wrapped } hmem)
        · exact ⟨v, hv, .inl ⟨mem_cons_self, rewrapRow_ok hrow⟩⟩
      · have hne : v₁ ≠ row := fun heq => of_decide_eq_false hid (congrArg KeyVersion.id heq)
        rcases hcase with ⟨hmem, hresealed⟩ | ⟨hmem, rfl⟩
        · exact ⟨v₁, hv, .inl ⟨mem_cons_of_mem row hmem, hresealed⟩⟩
        · exact ⟨v', hv, .inr ⟨not_mem_cons_of_ne_of_not_mem hne hmem, rfl⟩⟩
    · intro v hv
      by_cases hid : v.id = row.id
      · obtain ⟨v', hv', heq⟩ := hforth { v with wrapped := wrapped }
          (Table.mem_update.mpr ⟨v, hv, .inl ⟨decide_eq_true hid, rfl⟩⟩)
        exact ⟨v', hv', heq⟩
      · obtain ⟨v', hv', heq⟩ := hforth v
          (Table.mem_update.mpr ⟨v, hv, .inr ⟨decide_eq_false hid, rfl⟩⟩)
        exact ⟨v', hv', heq⟩

/-- **Rewrap.** A call that returns an error leaves the table. -/
theorem rewrap_error {e : RingError}
    (h : rewrap aead tbl old new fate commits = (tbl', .error e)) : tbl' = tbl := by
  unfold rewrap at h
  split at h
  · cases h
    rfl
  split at h
  · cases h
    rfl
  split at h <;> cases h
  rfl

/-- One that succeeds leaves every version in use, resealed, and no other. -/
theorem rewrap_ok {n : Nat} (h : rewrap aead tbl old new fate commits = (tbl', .ok n)) :
    (∀ v' ∈ live tbl', ∃ v ∈ live tbl, Resealed aead old new v v') ∧
      (∀ v ∈ live tbl, ∃ v' ∈ live tbl', v'.id = v.id) ∧
      ∀ v' ∈ tbl'.rows, ∃ v ∈ tbl.rows, v'.id = v.id ∧ v'.retiredAt = v.retiredAt := by
  unfold rewrap at h
  split at h
  · cases h
  split at h
  · cases h
  rename_i tbl₁ hloop
  split at h <;> cases h
  obtain ⟨hback, hforth⟩ := rewrapRows_ok (fun v hv => (mem_live.mp hv).1) nodup_live hloop
  refine ⟨fun v' hv' => ?_, fun v hv => ?_, fun v' hv' => ?_⟩
  · obtain ⟨hv', hlive⟩ := mem_live.mp hv'
    obtain ⟨v, hv, ⟨hmem, hresealed⟩ | ⟨hmem, rfl⟩⟩ := hback v' hv'
    · exact ⟨v, hmem, hresealed⟩
    · exact absurd (mem_live.mpr ⟨hv, hlive⟩) hmem
  · obtain ⟨hv, hlive⟩ := mem_live.mp hv
    obtain ⟨v', hv', hid, hretired⟩ := hforth v hv
    exact ⟨v', mem_live.mpr ⟨hv', hretired.trans hlive⟩, hid⟩
  · obtain ⟨v, hv, ⟨-, hid, hretired, -⟩ | ⟨-, rfl⟩⟩ := hback v' hv'
    · exact ⟨v, hv, hid, hretired⟩
    · exact ⟨v', hv, rfl, rfl⟩

variable {v' : KeyVersion}

theorem Resealed.wrappedUnder
    (h : Resealed aead old new v v') (hwrapped : WrappedUnder aead old v dek) :
    WrappedUnder aead new v' dek := by
  obtain ⟨hid, -, b, rand, hopen, hseal⟩ := h
  cases hwrapped.unwrapRow_eq.symm.trans hopen
  exact ⟨rand, hid ▸ hseal⟩

/-- A resealed row opened under the old master key, so it was wrapped under it. -/
theorem Resealed.eq_old
    (h : Resealed aead old new v v') (hwrapped : WrappedUnder aead kek v dek) : old = kek := by
  obtain ⟨-, -, b, rand, hopen, -⟩ := h
  exact hwrapped.eq_of_unwrapRow hopen

/-! ## Keys of one byte -/

/-- The key of one byte over and over, for runs on fixed inputs. -/
def keyOf (b : UInt8) : Key := ⟨replicate 32 b, rfl⟩

def nonceOf (b : UInt8) : Nonce := ⟨replicate 12 b, rfl⟩

def drawOf (b : UInt8) : Draw := ⟨some (keyOf b), some (nonceOf b)⟩

/-- Nothing fails. -/
def fateOf (b : UInt8) : Nat → Fate := fun _ => ⟨some (nonceOf b), true⟩

end Zanskar.Keyring
