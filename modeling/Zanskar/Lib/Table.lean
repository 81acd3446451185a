import Mathlib.Tactic

/-!
# Tables with a primary key

A table is a list of rows whose keys are distinct. The statements of a repository
are functions on tables: a conditional update that leaves the key alone, an
insert that is refused for a key already there, a delete, a read by key. Each has
one rule that says which rows the table has afterwards.
-/

namespace Zanskar.Lib

open List

section Updated

variable {α β : Type} {rows : List α} {cond : α → Bool} {set : α → α} {r' : α}

/-- An update of some rows leaves what it does not write. -/
theorem map_updated {f : α → β} (hset : ∀ r, f (set r) = f r) :
    (rows.map fun r => if cond r then set r else r).map f = rows.map f := by
  rw [map_map]
  refine map_congr_left fun r _ => ?_
  show f (if cond r then set r else r) = f r
  split
  · exact hset r
  · rfl

theorem mem_updated : r' ∈ (rows.map fun r => if cond r then set r else r) ↔
    ∃ r ∈ rows, (cond r ∧ r' = set r) ∨ (cond r = false ∧ r' = r) := by
  rw [mem_map]
  refine exists_congr fun r => and_congr_right fun _ => ?_
  cases cond r <;> simp [eq_comm]

end Updated

/-- Rows under distinct keys. -/
structure Table {α κ : Type} (key : α → κ) where
  rows : List α
  /-- The primary key. -/
  nodup : (rows.map key).Nodup

namespace Table

variable {α κ : Type} {key : α → κ} {tbl : Table key} {r' : α} {cond : α → Bool} {r : α}

/-- No rows. -/
def empty : Table key := ⟨[], nodup_nil⟩

/-- `UPDATE … SET … WHERE …`, of columns other than the key. -/
def update (tbl : Table key) (cond : α → Bool) (set : α → α)
    (hkey : ∀ r, key (set r) = key r) : Table key where
  rows := tbl.rows.map fun r => if cond r then set r else r
  nodup := by
    rw [map_updated hkey]
    exact tbl.nodup

/-- `DELETE … WHERE …`. -/
def delete (tbl : Table key) (cond : α → Bool) : Table key where
  rows := tbl.rows.filter fun r => !cond r
  nodup := tbl.nodup.sublist (filter_sublist.map key)

theorem mem_update {set : α → α} {hkey : ∀ r, key (set r) = key r} :
    r' ∈ (tbl.update cond set hkey).rows ↔
      ∃ r ∈ tbl.rows, (cond r ∧ r' = set r) ∨ (cond r = false ∧ r' = r) :=
  mem_updated

/-- An update that changes for no row whether it has a property changes it for none. -/
theorem exists_mem_update_iff {set : α → α} {hkey : ∀ r, key (set r) = key r} {P : α → Prop}
    (h : ∀ r ∈ tbl.rows, cond r → (P (set r) ↔ P r)) :
    (∃ r ∈ (tbl.update cond set hkey).rows, P r) ↔ ∃ r ∈ tbl.rows, P r := by
  simp only [update, mem_map, exists_exists_and_eq_and]
  refine exists_congr fun r => and_congr_right fun hr => ?_
  split
  · exact h r hr ‹_›
  · rfl

theorem mem_delete : r ∈ (tbl.delete cond).rows ↔ r ∈ tbl.rows ∧ cond r = false := by
  simp [delete]

theorem eq_of_key_eq (hr : r ∈ tbl.rows) (hr' : r' ∈ tbl.rows) (h : key r = key r') : r = r' :=
  inj_on_of_nodup_map tbl.nodup hr hr' h

variable [DecidableEq κ] {k : κ}

/-- `INSERT`: refused for a key that is there. -/
def insert (tbl : Table key) (r : α) : Option (Table key) :=
  if h : key r ∈ tbl.rows.map key then none
  else some ⟨tbl.rows ++ [r], by
    rw [← concat_eq_append, map_concat]
    exact tbl.nodup.concat h⟩

/-- The row under a key. -/
def get (tbl : Table key) (k : κ) : Option α := tbl.rows.find? fun r => key r = k

theorem mem_insert {tbl' : Table key} (h : tbl.insert r = some tbl') :
    r' ∈ tbl'.rows ↔ r' ∈ tbl.rows ∨ r' = r := by
  unfold insert at h
  split at h <;> cases h
  simp

theorem mem_of_get (h : tbl.get k = some r) : r ∈ tbl.rows ∧ key r = k :=
  ⟨mem_of_find?_eq_some h, by simpa using find?_some h⟩

theorem get_eq_some : tbl.get k = some r ↔ r ∈ tbl.rows ∧ key r = k := by
  refine ⟨mem_of_get, ?_⟩
  rintro ⟨hr, rfl⟩
  cases hget : tbl.get (key r) with
  | none => exact absurd (decide_eq_true rfl) (find?_eq_none.mp hget r hr)
  | some r' =>
    obtain ⟨hr', hkey⟩ := mem_of_get hget
    rw [eq_of_key_eq hr' hr hkey]

end Table

end Zanskar.Lib
