import Zanskar.Lib.Fold
import Zanskar.Lib.Table

/-!
# Tables in the order of an integer key

A table whose statements read `ORDER BY id`, as the list of its rows in that order.
Rows are added at the end, since ids are handed out in order; an update of other
columns leaves the order alone.

`paged` is a loop over such a table that reads a page at a time, each starting behind
the last row seen, and may write to the rows it has passed. It does what one pass
over all rows would do (`paged_eq`).
-/

namespace Zanskar.Lib

open List

/-- Rows in the order of their keys. -/
@[ext]
structure Ordered {α : Type} (key : α → Int) where
  rows : List α
  /-- The primary key, and the order the rows are read in. -/
  sorted : rows.Pairwise fun r r' => key r < key r'

namespace Ordered

variable {α : Type} {key : α → Int} {tbl : Ordered key} {r : α} {k : Int} {set : α → α}
  {rest before : List α}

/-- No rows. -/
def empty : Ordered key := ⟨[], List.Pairwise.nil⟩

/-- `UPDATE … SET … WHERE …`, of columns other than the key. -/
def update (tbl : Ordered key) (cond : α → Bool) (set : α → α)
    (hkey : ∀ r, key (set r) = key r) : Ordered key where
  rows := tbl.rows.map fun r => if cond r then set r else r
  sorted := by
    have hkeys : (tbl.rows.map key).Pairwise (· < ·) := pairwise_map.mpr tbl.sorted
    rw [← map_updated hkey, pairwise_map] at hkeys
    exact hkeys

/-- `DELETE … WHERE …`. -/
def delete (tbl : Ordered key) (cond : α → Bool) : Ordered key where
  rows := tbl.rows.filter fun r => !cond r
  sorted := tbl.sorted.filter _

/-- `INSERT`, with a key above all that are there. -/
def add (tbl : Ordered key) (r : α) : Option (Ordered key) :=
  if h : ∀ r' ∈ tbl.rows, key r' < key r then
    some ⟨tbl.rows ++ [r], pairwise_append.mpr ⟨tbl.sorted, pairwise_singleton _ _,
      fun r' hr' _ hr => mem_singleton.mp hr ▸ h r' hr'⟩⟩
  else none

/-- `WHERE id = ?`. -/
def get (tbl : Ordered key) (k : Int) : Option α := tbl.rows.find? fun r => key r = k

/-- `ORDER BY id DESC LIMIT 1`. -/
def newest (tbl : Ordered key) : Option α := tbl.rows.getLast?

/-- `WHERE id > ? ORDER BY id`. -/
def after (tbl : Ordered key) (k : Int) : List α := tbl.rows.filter fun r => k < key r

theorem add_eq_some {tbl' : Ordered key} (h : tbl.add r = some tbl') :
    tbl'.rows = tbl.rows ++ [r] ∧ ∀ r' ∈ tbl.rows, key r' < key r := by
  unfold add at h
  split at h <;> cases h
  rename_i hlt
  exact ⟨rfl, hlt⟩

theorem mem_of_get (h : tbl.get k = some r) : r ∈ tbl.rows ∧ key r = k :=
  ⟨mem_of_find?_eq_some h, by simpa using find?_some h⟩

theorem nodup_keys (tbl : Ordered key) : (tbl.rows.map key).Nodup :=
  pairwise_map.mpr (tbl.sorted.imp ne_of_lt)

theorem eq_of_key_eq {r' : α} (hr : r ∈ tbl.rows) (hr' : r' ∈ tbl.rows)
    (h : key r = key r') : r = r' :=
  inj_on_of_nodup_map tbl.nodup_keys hr hr' h

theorem after_eq_filter_after {m : Int} (h : k ≤ m) :
    tbl.after m = (tbl.after k).filter fun r => m < key r := by
  rw [after, after, filter_filter]
  refine filter_congr fun r _ => ?_
  rw [Bool.eq_iff_iff, Bool.and_eq_true, decide_eq_true_eq, decide_eq_true_eq]
  omega

/-- Rows under other keys are not touched by an update of one row. -/
theorem map_of_key_ne {rows : List α} (h : ∀ r ∈ rows, key r ≠ k) :
    (rows.map fun r => if decide (key r = k) then set r else r) = rows := by
  refine (map_congr_left fun r hr => ?_).trans (map_id' rows)
  exact if_neg (by simpa using h r hr)

/-- An update of one row, where it stands among the others. -/
theorem map_at_key (hsorted : (before ++ r :: rest).Pairwise fun r r' => key r < key r') :
    ((before ++ r :: rest).map fun x => if decide (key x = key r) then set x else x) =
      before ++ set r :: rest := by
  obtain ⟨-, hrest, hbefore⟩ := pairwise_append.mp hsorted
  rw [map_append, map_cons,
    map_of_key_ne fun x hx => (hbefore x hx r mem_cons_self).ne,
    map_of_key_ne fun x hx => ((pairwise_cons.mp hrest).1 x hx).ne',
    if_pos (decide_eq_true rfl)]

/-- The rows up to a key end in the row with that key. -/
theorem filter_le_key (hsorted : (before ++ r :: rest).Pairwise fun r r' => key r < key r') :
    ((before ++ r :: rest).filter fun x => decide (key x ≤ key r)) = before ++ [r] := by
  obtain ⟨-, hrest, hbefore⟩ := pairwise_append.mp hsorted
  rw [filter_append, filter_cons_of_pos (by simp), filter_eq_self.mpr, filter_eq_nil_iff.mpr]
  · intro x hx
    simpa using (pairwise_cons.mp hrest).1 x hx
  · intro x hx
    exact decide_eq_true (hbefore x hx r mem_cons_self).le

theorem after_update {cond : α → Bool} (hkey : ∀ r, key (set r) = key r) :
    (tbl.update cond set hkey).after k =
      (tbl.after k).map fun r => if cond r then set r else r := by
  rw [after, after, update, filter_map]
  congr 1
  refine filter_congr fun r _ => ?_
  show decide (k < key (if cond r then set r else r)) = decide (k < key r)
  split
  · rw [hkey]
  · rfl

theorem key_le_last {page : List α} {r' : α}
    (hsorted : (page ++ [r]).Pairwise fun r r' => key r < key r') (h : r' ∈ page ++ [r]) :
    key r' ≤ key r := by
  rcases mem_append.mp h with hmem | hmem
  · exact ((pairwise_append.mp hsorted).2.2 r' hmem r (by simp)).le
  · rw [mem_singleton.mp hmem]

/-- Behind the last row of a page is what was left of the rows. -/
theorem after_key (tbl : Ordered key) {page : List α}
    (hsplit : tbl.after k = page ++ [r] ++ rest) : tbl.after (key r) = rest := by
  have hsorted : (page ++ [r] ++ rest).Pairwise fun r r' => key r < key r' := by
    rw [← hsplit]
    exact tbl.sorted.filter _
  have hr : k < key r := by
    have hmem : r ∈ tbl.after k := by simp [hsplit]
    simpa using (mem_filter.mp hmem).2
  obtain ⟨hpage, -, hrest⟩ := pairwise_append.mp hsorted
  rw [tbl.after_eq_filter_after hr.le, hsplit, filter_append, filter_eq_nil_iff.mpr,
    nil_append, filter_eq_self.mpr]
  · intro r' hr'
    exact decide_eq_true (hrest r (by simp) r' hr')
  · intro r' hr'
    simpa using key_le_last hpage hr'

/-! ## Reading in pages -/

section Paged

variable {σ ρ : Type} (rows : σ → Ordered key) (step : σ → α → Except ρ σ) (size : Nat)

/-- The loop that reads a page behind `k`, takes a step for each row of it, and goes on
behind its last row until a page is not full. -/
def paged : Nat → Int → σ → Except ρ σ
  | 0, _, s => .ok s
  | fuel + 1, k, s =>
    let page := ((rows s).after k).take size
    match page.getLast? with
    | none => .ok s
    | some r => do
      let s ← page.foldlM step s
      if page.length < size then .ok s else paged fuel (key r) s

variable {rows step size}

variable {s : σ}

/-- The steps of a page leave the rows behind it alone. -/
theorem after_of_foldlM
    (hstep : ∀ s r s', step s r = .ok s' → (rows s').after (key r) = (rows s).after (key r))
    {page : List α} {m : Int} (hpage : ∀ r ∈ page, key r ≤ m) {s' : σ}
    (h : page.foldlM step s = .ok s') : (rows s').after m = (rows s).after m := by
  refine foldlM_keeps (fun t => (rows t).after m = (rows s).after m) (fun t r hr u ht hu => ?_) rfl h
  rw [← ht, after_eq_filter_after (hpage r hr), hstep t r u hu,
    ← after_eq_filter_after (hpage r hr)]

/-- **Pages.** The loop does what one pass over the rows does. -/
theorem paged_eq (hsize : 0 < size)
    (hstep : ∀ s r s', step s r = .ok s' → (rows s').after (key r) = (rows s).after (key r))
    {fuel : Nat} (hfuel : ((rows s).after k).length < fuel) :
    paged rows step size fuel k s = ((rows s).after k).foldlM step s := by
  induction fuel generalizing k s with
  | zero => omega
  | succ fuel ih =>
    have hsplit := (take_append_drop size ((rows s).after k)).symm
    rw [paged]
    rcases eq_nil_or_concat' (((rows s).after k).take size) with hnil | ⟨page, r, hpage⟩
    · have hempty : (rows s).after k = [] := by
        rcases take_eq_nil_iff.mp hnil with h | h
        · omega
        · exact h
      rw [hempty, take_nil]
      rfl
    · have hlast : (((rows s).after k).take size).getLast? = some r := by
        rw [hpage, getLast?_concat]
      rw [hlast]
      dsimp only
      conv_rhs => rw [hsplit, foldlM_append]
      cases hfold : (((rows s).after k).take size).foldlM step s with
      | error err => rfl
      | ok t =>
        show (if (((rows s).after k).take size).length < size then Except.ok t
          else paged rows step size fuel (key r) t) = _
        split
        · -- the last page
          rename_i hshort
          have hrest : ((rows s).after k).drop size = [] := by
            rw [length_take] at hshort
            exact drop_eq_nil_of_le (by omega)
          rw [hrest]
          rfl
        · rename_i hfull
          rw [length_take] at hfull
          have hbehind : (rows t).after (key r) = ((rows s).after k).drop size := by
            rw [hpage] at hsplit hfold
            have hsorted : (page ++ [r]).Pairwise fun r r' => key r < key r' := by
              rw [← hpage]
              exact ((rows s).sorted.filter _).sublist (take_sublist _ _)
            rw [after_of_foldlM hstep (fun r' => key_le_last hsorted) hfold, after_key _ hsplit]
          rw [ih (by rw [hbehind, length_drop]; omega), hbehind]
          rfl

end Paged

end Ordered

end Zanskar.Lib
