import Mathlib.Data.List.Sort
import Mathlib.Data.List.Dedup
import Mathlib.Tactic

/-!
# JSON trees and their values

A tree is what stands in a JSON text, members in the order they are written and a
key possibly written twice. Numbers and texts are parameters: the text of a number
or the number, the escapes of a string or its characters.

What a tree means is its `Value`: an object is a function of its keys, the later
member winning. `norm` is the tree with every object's members in key order and
each key once, which is how `encoding/json` writes a Go map:

- `value_norm` : it means the same;
- `norm_eq_iff` : and trees that mean the same have the same.
-/

namespace Zanskar.Go

open List

/-- A JSON text, with numbers in `ν` and strings in `τ`. -/
inductive Json (ν τ : Type) where
  | null
  | bool (b : Bool)
  | num (n : ν)
  | str (t : τ)
  | arr (vs : List (Json ν τ))
  | obj (ms : List (τ × Json ν τ))

/-- What a JSON text means. -/
inductive JsonValue (ν τ : Type) where
  | null
  | bool (b : Bool)
  | num (n : ν)
  | str (t : τ)
  | arr (vs : List (JsonValue ν τ))
  | obj (field : τ → Option (JsonValue ν τ))

namespace Json

variable {ν τ ν' τ' : Type} {ms : List (τ × Json ν τ)} {vs : List (Json ν τ)} {j : Json ν τ}

/-- Induction over the elements and members of a tree. -/
@[elab_as_elim, induction_eliminator]
theorem induct {P : Json ν τ → Prop} (null : P .null) (bool : ∀ b, P (.bool b))
    (num : ∀ n, P (.num n)) (str : ∀ t, P (.str t)) (arr : ∀ vs, (∀ v ∈ vs, P v) → P (.arr vs))
    (obj : ∀ ms, (∀ m ∈ ms, P m.2) → P (.obj ms)) (j : Json ν τ) : P j :=
  @Json.rec ν τ P (fun vs => ∀ v ∈ vs, P v) (fun ms => ∀ m ∈ ms, P m.2) (fun m => P m.2)
    null bool num str arr obj
    (fun _ h => absurd h not_mem_nil)
    (fun _ _ hv hvs => forall_mem_cons.mpr ⟨hv, hvs⟩)
    (fun _ h => absurd h not_mem_nil)
    (fun _ _ hm hms => forall_mem_cons.mpr ⟨hm, hms⟩)
    (fun _ _ hv => hv) j

/-- Lists alike under one function are alike under another that follows it. -/
theorem map_eq_of_map_eq {α β γ : Type} {f : α → β} {g : α → γ} {vs vs' : List α}
    (hfg : ∀ v ∈ vs, ∀ v' ∈ vs', f v = f v' → g v = g v') (h : vs.map f = vs'.map f) :
    vs.map g = vs'.map g := by
  induction vs generalizing vs' with
  | nil => cases vs' with
    | nil => rfl
    | cons => cases h
  | cons v vs ih => cases vs' with
    | nil => cases h
    | cons v' vs' =>
      rw [map_cons, map_cons, cons.injEq] at h
      rw [map_cons, map_cons, hfg v mem_cons_self v' mem_cons_self h.1,
        ih (fun w hw w' hw' => hfg w (mem_cons_of_mem _ hw) w' (mem_cons_of_mem _ hw'))
          h.2]

/-! ## Members of an object -/

section Members

variable {α β : Type} [DecidableEq τ] {ms : List (τ × α)} {k : τ}

/-- The value of a key: of two members with it, the later one's. -/
def last : List (τ × α) → τ → Option α
  | [], _ => none
  | (k, v) :: ms, key => (last ms key).or (if key = k then some v else none)

theorem mem_of_last {v : α} (h : last ms k = some v) : (k, v) ∈ ms := by
  induction ms with
  | nil => cases h
  | cons m ms ih =>
    simp only [last, Option.or_eq_some_iff, Option.ite_none_right_eq_some, Option.some.injEq] at h
    rcases h with h | ⟨-, rfl, rfl⟩
    · exact mem_cons_of_mem _ (ih h)
    · exact mem_cons_self

theorem last_map (f : α → β) : last (ms.map fun m => (m.1, f m.2)) k = (last ms k).map f := by
  induction ms with
  | nil => rfl
  | cons m ms ih =>
    simp only [map_cons, last, ih]
    cases last ms k <;> simp only [Option.map_none, Option.map_some, Option.none_or, Option.some_or]
    split <;> rfl

theorem last_eq_none_iff : last ms k = none ↔ k ∉ ms.map Prod.fst := by
  induction ms with
  | nil => simp [last]
  | cons m ms ih =>
    simp only [last, Option.or_eq_none_iff, ih, map_cons, mem_cons, not_or]
    by_cases hk : k = m.1 <;> simp [hk]

/-- With every key once, each member is the value of its key. -/
theorem last_of_nodup (hnodup : (ms.map Prod.fst).Nodup) {m : τ × α}
    (hm : m ∈ ms) : last ms m.1 = some m.2 := by
  induction ms with
  | nil => cases hm
  | cons m' ms ih =>
    rw [map_cons, nodup_cons] at hnodup
    rcases mem_cons.mp hm with rfl | hm
    · simp [last, last_eq_none_iff.mpr hnodup.1]
    · simp [last, ih hnodup.2 hm]

end Members

section Arranged

variable {α : Type} [LinearOrder τ] {ms : List (τ × α)}

/-- The keys of the members in order, each once. -/
def sortedKeys (ms : List (τ × α)) : List τ :=
  (ms.map Prod.fst).dedup.insertionSort (· ≤ ·)

/-- The members as a Go map has them, in the order of `slices.Sort` over its keys. -/
def arranged (ms : List (τ × α)) : List (τ × α) :=
  (sortedKeys ms).filterMap fun k => (last ms k).map (k, ·)

theorem mem_sortedKeys {k : τ} : k ∈ sortedKeys ms ↔ last ms k ≠ none := by
  rw [sortedKeys, mem_insertionSort, mem_dedup, ne_eq, last_eq_none_iff, not_not]

theorem nodup_sortedKeys : (sortedKeys ms).Nodup :=
  (perm_insertionSort _ _).nodup_iff.mpr (nodup_dedup _)

/-- The order of the keys does not depend on the order of the members. -/
theorem sortedKeys_congr {β : Type} {ms' : List (τ × β)}
    (h : ∀ k, last ms k = none ↔ last ms' k = none) : sortedKeys ms = sortedKeys ms' := by
  refine List.Perm.eq_of_pairwise' (r := (· ≤ ·)) ?_ ?_ ?_
  · exact pairwise_insertionSort _ _
  · exact pairwise_insertionSort _ _
  · refine (perm_ext_iff_of_nodup nodup_sortedKeys nodup_sortedKeys).mpr fun k => ?_
    rw [mem_sortedKeys, mem_sortedKeys, ne_eq, ne_eq, h]

theorem arranged_congr {ms' : List (τ × α)} (h : ∀ k, last ms k = last ms' k) :
    arranged ms = arranged ms' := by
  have hkeys : sortedKeys ms = sortedKeys ms' := sortedKeys_congr fun k => by rw [h]
  rw [arranged, arranged, hkeys]
  exact filterMap_congr fun k _ => by rw [h]

theorem map_fst_arranged : (arranged ms).map Prod.fst = sortedKeys ms := by
  have hkeys : ∀ ks : List τ, (∀ k ∈ ks, last ms k ≠ none) →
      (ks.filterMap fun k => (last ms k).map (k, ·)).map Prod.fst = ks := by
    intro ks hks
    induction ks with
    | nil => rfl
    | cons k ks ih =>
      obtain ⟨v, hv⟩ := Option.ne_none_iff_exists'.mp (hks k mem_cons_self)
      rw [filterMap_cons_some (by rw [hv]; rfl), map_cons,
        ih fun k hk => hks k (mem_cons_of_mem _ hk)]
  exact hkeys _ fun k hk => mem_sortedKeys.mp hk

theorem last_arranged (k : τ) : last (arranged ms) k = last ms k := by
  cases hlast : last ms k with
  | none =>
    rw [last_eq_none_iff, map_fst_arranged, mem_sortedKeys]
    simp [hlast]
  | some v =>
    have hmem : (k, v) ∈ arranged ms :=
      mem_filterMap.mpr ⟨k, mem_sortedKeys.mpr (by simp [hlast]), by rw [hlast]; rfl⟩
    exact last_of_nodup (by rw [map_fst_arranged]; exact nodup_sortedKeys) hmem

end Arranged

/-! ## Trees over other numbers and texts -/

mutual

/-- The tree with its numbers and texts replaced, where there is a replacement for
every number. -/
def mapM (f : ν → Option ν') (g : τ → τ') : Json ν τ → Option (Json ν' τ')
  | .null => some .null
  | .bool b => some (.bool b)
  | .num n => (f n).map .num
  | .str t => some (.str (g t))
  | .arr vs => (mapElements f g vs).map .arr
  | .obj ms => (mapMembers f g ms).map .obj

/-- The elements of an array replaced. -/
def mapElements (f : ν → Option ν') (g : τ → τ') : List (Json ν τ) → Option (List (Json ν' τ'))
  | [] => some []
  | v :: vs => (mapM f g v).bind fun v => (mapElements f g vs).map (v :: ·)

/-- The members of an object replaced. -/
def mapMembers (f : ν → Option ν') (g : τ → τ') :
    List (τ × Json ν τ) → Option (List (τ' × Json ν' τ'))
  | [] => some []
  | (k, v) :: ms => (mapM f g v).bind fun v => (mapMembers f g ms).map ((g k, v) :: ·)

end

section MapM

variable {f : ν → Option ν'} {g : τ → τ'} {vs : List (Json ν τ)}

theorem mapElements_eq_some {ws : List (Json ν' τ')} :
    mapElements f g vs = some ws ↔ vs.map (mapM f g) = ws.map some := by
  induction vs generalizing ws with
  | nil => cases ws <;> simp [mapElements]
  | cons v vs ih =>
    simp only [mapElements, Option.bind_eq_some_iff, Option.map_eq_some_iff, ih, map_cons]
    constructor
    · rintro ⟨w, hw, ws, hws, rfl⟩
      rw [hw, hws, map_cons]
    · intro h
      cases ws with
      | nil => cases h
      | cons w ws =>
        rw [map_cons, cons.injEq] at h
        exact ⟨w, h.1, ws, h.2, rfl⟩

theorem mapMembers_eq_some {ws : List (τ' × Json ν' τ')} :
    mapMembers f g ms = some ws ↔
      (ms.map fun m => (g m.1, mapM f g m.2)) = ws.map fun w => (w.1, some w.2) := by
  induction ms generalizing ws with
  | nil => cases ws <;> simp [mapMembers]
  | cons m ms ih =>
    simp only [mapMembers, Option.bind_eq_some_iff, Option.map_eq_some_iff, ih, map_cons]
    constructor
    · rintro ⟨w, hw, ws, hws, rfl⟩
      rw [hw, hws, map_cons]
    · intro h
      cases ws with
      | nil => cases h
      | cons w ws =>
        rw [map_cons, cons.injEq, Prod.mk.injEq] at h
        exact ⟨w.2, h.1.2, ws, h.2, by rw [h.1.1]⟩

theorem mapElements_ne_none (h : ∀ v ∈ vs, mapM f g v ≠ none) : mapElements f g vs ≠ none := by
  induction vs with
  | nil => simp [mapElements]
  | cons v vs ih =>
    obtain ⟨w, hw⟩ := Option.ne_none_iff_exists'.mp (h v mem_cons_self)
    obtain ⟨ws, hws⟩ := Option.ne_none_iff_exists'.mp (ih fun v hv => h v (mem_cons_of_mem _ hv))
    simp [mapElements, hw, hws]

theorem mapMembers_ne_none (h : ∀ m ∈ ms, mapM f g m.2 ≠ none) : mapMembers f g ms ≠ none := by
  induction ms with
  | nil => simp [mapMembers]
  | cons m ms ih =>
    obtain ⟨w, hw⟩ := Option.ne_none_iff_exists'.mp (h m mem_cons_self)
    obtain ⟨ws, hws⟩ := Option.ne_none_iff_exists'.mp (ih fun m hm => h m (mem_cons_of_mem _ hm))
    simp [mapMembers, hw, hws]

/-- With a replacement for every number there is, the tree has one. -/
theorem mapM_ne_none (hf : ∀ n, f n ≠ none) (j : Json ν τ) : mapM f g j ≠ none := by
  induction j with
  | null | bool | str => simp [mapM]
  | num n => simp [mapM, hf]
  | arr vs ih => simpa [mapM] using mapElements_ne_none ih
  | obj ms ih => simpa [mapM] using mapMembers_ne_none ih

end MapM

/-! ## Values -/

section Value

variable [DecidableEq τ]

mutual

/-- What a tree means. -/
def value : Json ν τ → JsonValue ν τ
  | .null => .null
  | .bool b => .bool b
  | .num n => .num n
  | .str t => .str t
  | .arr vs => .arr (elementValues vs)
  | .obj ms => .obj (last (memberValues ms))

/-- What the elements mean. -/
def elementValues : List (Json ν τ) → List (JsonValue ν τ)
  | [] => []
  | v :: vs => value v :: elementValues vs

/-- What the members mean. -/
def memberValues : List (τ × Json ν τ) → List (τ × JsonValue ν τ)
  | [] => []
  | (k, v) :: ms => (k, value v) :: memberValues ms

end

theorem elementValues_eq : elementValues vs = vs.map value := by
  induction vs with
  | nil => rfl
  | cons v vs ih => rw [elementValues, ih, map_cons]

theorem memberValues_eq : memberValues ms = ms.map fun m => (m.1, value m.2) := by
  induction ms with
  | nil => rfl
  | cons m ms ih => rw [memberValues, ih, map_cons]

theorem value_arr : value (.arr vs) = .arr (vs.map value) := by
  rw [value, elementValues_eq]

theorem value_obj : value (.obj ms) = .obj fun k => (last ms k).map value := by
  rw [value, memberValues_eq]
  congr 1
  funext k
  exact last_map value

end Value

section ValueWith

variable {f : ν → Option ν'} {g : τ → τ'} [DecidableEq τ'] {x : JsonValue ν' τ'}

/-- What a tree means once its numbers and texts are replaced. -/
def valueWith (f : ν → Option ν') (g : τ → τ') (j : Json ν τ) : Option (JsonValue ν' τ') :=
  (mapM f g j).map value

theorem valueWith_arr (h : valueWith f g (.arr vs) = some x) :
    ∃ xs, x = .arr xs ∧ vs.map (valueWith f g) = xs.map some := by
  rw [valueWith, mapM, Option.map_map] at h
  obtain ⟨ws, hws, rfl⟩ := Option.map_eq_some_iff.mp h
  refine ⟨ws.map value, value_arr, ?_⟩
  have hmap := congrArg (map (Option.map value)) (mapElements_eq_some.mp hws)
  rw [map_map, map_map] at hmap
  rw [map_map]
  exact hmap

theorem valueWith_obj (h : valueWith f g (.obj ms) = some x) :
    x = .obj fun k => (last (ms.map fun m => (g m.1, m.2)) k).bind (valueWith f g) := by
  rw [valueWith, mapM, Option.map_map] at h
  obtain ⟨ws, hws, rfl⟩ := Option.map_eq_some_iff.mp h
  refine value_obj.trans ?_
  congr 1
  funext k
  -- the member that wins is the same before and after
  have hlast : (last (ms.map fun m => (g m.1, m.2)) k).map (mapM f g) = (last ws k).map some := by
    rw [← last_map, ← last_map, map_map]
    exact congrArg (last · k) (mapMembers_eq_some.mp hws)
  cases hw : last ws k with
  | none =>
    rw [hw, Option.map_none, Option.map_eq_none_iff] at hlast
    rw [hlast]
    rfl
  | some w =>
    rw [hw, Option.map_some, Option.map_eq_some_iff] at hlast
    obtain ⟨j, hj, hjw⟩ := hlast
    rw [hj, Option.bind_some, valueWith, hjw]

end ValueWith

/-! ## Normal forms -/

section Norm

variable [LinearOrder τ]

mutual

/-- The tree with the members of every object arranged. -/
def norm : Json ν τ → Json ν τ
  | .arr vs => .arr (normElements vs)
  | .obj ms => .obj (arranged (normMembers ms))
  | j => j

/-- The elements of an array, arranged. -/
def normElements : List (Json ν τ) → List (Json ν τ)
  | [] => []
  | v :: vs => norm v :: normElements vs

/-- The members of an object, their values arranged. -/
def normMembers : List (τ × Json ν τ) → List (τ × Json ν τ)
  | [] => []
  | (k, v) :: ms => (k, norm v) :: normMembers ms

end

theorem norm_arr : norm (.arr vs) = .arr (vs.map norm) := by
  have hmap : ∀ vs : List (Json ν τ), normElements vs = vs.map norm := fun vs => by
    induction vs with
    | nil => rfl
    | cons v vs ih => rw [normElements, ih, map_cons]
  rw [norm, hmap]

theorem norm_obj : norm (.obj ms) = .obj (arranged (ms.map fun m => (m.1, norm m.2))) := by
  have hmap : ∀ ms : List (τ × Json ν τ), normMembers ms = ms.map fun m => (m.1, norm m.2) :=
    fun ms => by
      induction ms with
      | nil => rfl
      | cons m ms ih => rw [normMembers, ih, map_cons]
  rw [norm, hmap]

theorem value_norm : value (norm j) = value j := by
  induction j with
  | null | bool | num | str => rfl
  | arr vs ih =>
    rw [norm_arr, value_arr, value_arr, map_map]
    congr 1
    exact map_congr_left ih
  | obj ms ih =>
    rw [norm_obj, value_obj, value_obj]
    congr 1
    funext k
    rw [last_arranged, last_map, Option.map_map]
    cases hlast : last ms k with
    | none => rfl
    | some v => exact congrArg some (ih _ (mem_of_last hlast))

theorem norm_eq_iff {j' : Json ν τ} : norm j = norm j' ↔ value j = value j' := by
  refine ⟨fun h => by rw [← value_norm, h, value_norm], fun h => ?_⟩
  induction j generalizing j' with
  | null | bool | num | str => cases j' <;> simp_all [value, norm]
  | arr vs ih =>
    cases j' with
    | arr vs' =>
      rw [value_arr, value_arr, JsonValue.arr.injEq] at h
      rw [norm_arr, norm_arr, map_eq_of_map_eq (fun v hv v' _ => ih v hv) h]
    | _ => simp [value] at h
  | obj ms ih =>
    cases j' with
    | obj ms' =>
      rw [value_obj, value_obj, JsonValue.obj.injEq] at h
      rw [norm_obj, norm_obj, arranged_congr fun k => ?_]
      rw [last_map, last_map]
      have hk := congrFun h k
      cases hlast : last ms k with
      | none =>
        rw [hlast, Option.map_none, eq_comm, Option.map_eq_none_iff] at hk
        rw [hk]
      | some v =>
        rw [hlast, Option.map_some, eq_comm, Option.map_eq_some_iff] at hk
        obtain ⟨v', hlast', hv'⟩ := hk
        rw [hlast', Option.map_some, Option.map_some, ih (k, v) (mem_of_last hlast) hv'.symm]
    | _ => simp [value] at h

end Norm

end Json

end Zanskar.Go
