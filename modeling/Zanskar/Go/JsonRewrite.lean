import Zanskar.Go.JsonWrite

/-!
# What decoding a JSON text rewrites

Two values of one text. `exactValue` is what the text means: numbers as they are
written, lone surrogates and bad bytes apart from characters. `goValue` is what
`Unmarshal` leaves of it: numbers rounded, U+FFFD for what is no character, and keys
that come out alike made one. Whoever hands a text on may write the same exact value
another way.

- `goValue_eq_of_exactValue_eq` : Go decodes both ways alike, as long as neither text
  has a negative zero, a number out of range or two keys that come out alike.
-/

namespace Zanskar.Go

open List

/-- The number written. -/
def exactNum (t : NumText) : ℚ := if t.neg then -t.mag else t.mag

/-- What a tree means. -/
def exactTree (j : JsonText) : Option (JsonValue ℚ (List ExactUnit)) :=
  Json.valueWith (fun t => some (exactNum t)) exactText j

/-- What Go decodes a tree to. -/
def goTree (j : JsonText) : Option (JsonValue Float64 (List Char)) :=
  Json.valueWith parseFloat goText j

/-- What a JSON text means. -/
def exactValue (s : Bytes) : Option (JsonValue ℚ (List ExactUnit)) := (parse s).bind exactTree

/-- What Go decodes a JSON text to. -/
def goValue (s : Bytes) : Option (JsonValue Float64 (List Char)) := (parse s).bind goTree

/-- A text that decoding rewrites in one way only: no negative zero, no number out of
range, and no two keys of an object that come out alike. -/
inductive Plain : JsonText → Prop
  | null : Plain .null
  | bool (b : Bool) : Plain (.bool b)
  | num {t : NumText} (hrange : roundMag t.mag ≠ none) (hzero : ¬(t.neg = true ∧ t.mag = 0)) :
      Plain (.num t)
  | str (us : List TextUnit) : Plain (.str us)
  | arr {vs : List JsonText} (hvs : ∀ v ∈ vs, Plain v) : Plain (.arr vs)
  | obj {ms : List (List TextUnit × JsonText)} (hms : ∀ m ∈ ms, Plain m.2)
      (hkeys : ∀ m ∈ ms, ∀ m' ∈ ms, goText m.1 = goText m'.1 → exactText m.1 = exactText m'.1) :
      Plain (.obj ms)

theorem parseFloat_of_exactNum {t t' : NumText} (h : exactNum t = exactNum t')
    (hzero : ¬(t.neg ∧ t.mag = 0)) (hzero' : ¬(t'.neg ∧ t'.mag = 0)) :
    parseFloat t = parseFloat t' := by
  have hpos := t.mag_nonneg
  have hpos' := t'.mag_nonneg
  -- the sign is that of the number
  have hsame : t.neg = t'.neg ∧ t.mag = t'.mag := by
    unfold exactNum at h
    cases hn : t.neg <;> cases hn' : t'.neg <;>
      simp only [hn, hn', Bool.false_eq_true, if_true, if_false] at h
    · exact ⟨rfl, h⟩
    · exact absurd ⟨hn', by linarith⟩ hzero'
    · exact absurd ⟨hn, by linarith⟩ hzero
    · exact ⟨rfl, neg_inj.mp h⟩
  have hiff : ∀ f, parseFloat t = some f ↔ parseFloat t' = some f := fun f => by
    rw [parseFloat_eq_some, parseFloat_eq_some, hsame.1, hsame.2]
  exact Option.ext hiff

variable {j : JsonText} {us : List TextUnit} {ms : List (List TextUnit × JsonText)}
  {vs : List JsonText} {x : JsonValue ℚ (List ExactUnit)} {ms' : List (List TextUnit × JsonText)}
  {j' : JsonText}

theorem Plain.mapM_ne_none (h : Plain j) : Json.mapM parseFloat goText j ≠ none := by
  induction h with
  | null | bool | str => simp [Json.mapM]
  | @num t hrange _ =>
    obtain ⟨v, hv⟩ := Option.ne_none_iff_exists'.mp hrange
    have hf := roundMag_of_roundMag t.mag_nonneg hv
    have hparse : parseFloat t = some ⟨t.neg, v, hf.1, hf.2⟩ := parseFloat_eq_some.mpr ⟨rfl, hv⟩
    simp [Json.mapM, hparse]
  | arr _ ih => simpa [Json.mapM] using Json.mapElements_ne_none ih
  | obj _ _ ih => simpa [Json.mapM] using Json.mapMembers_ne_none ih

theorem goText_congr {us' : List TextUnit} (h : exactText us = exactText us') :
    goText us = goText us' := by
  rw [goText, h, goText]

/-- The member that wins a key in Go wins its exact key. -/
theorem last_exact_of_last_go {c : List Char}
    (h : Json.last (ms.map fun m => (goText m.1, m.2)) c = some j) :
    ∃ k, (k, j) ∈ ms ∧ goText k = c ∧
      Json.last (ms.map fun m => (exactText m.1, m.2)) (exactText k) = some j := by
  induction ms with
  | nil => cases h
  | cons m ms ih =>
    simp only [map_cons, Json.last] at h ⊢
    cases hlast : Json.last (ms.map fun m => (goText m.1, m.2)) c with
    | some j' =>
      rw [hlast, Option.some_or, Option.some.injEq] at h
      subst h
      obtain ⟨k, hmem, hk, hexact⟩ := ih hlast
      exact ⟨k, mem_cons_of_mem _ hmem, hk, by rw [hexact, Option.some_or]⟩
    | none =>
      rw [hlast, Option.none_or, Option.ite_none_right_eq_some, Option.some.injEq] at h
      obtain ⟨rfl, rfl⟩ := h
      have hnone : Json.last (ms.map fun m => (exactText m.1, m.2)) (exactText m.1) = none := by
        rw [Json.last_eq_none_iff, map_map] at hlast ⊢
        intro hmem
        obtain ⟨m', hm', hkey⟩ := mem_map.mp hmem
        exact hlast (mem_map.mpr ⟨m', hm', goText_congr hkey⟩)
      exact ⟨m.1, mem_cons_self, rfl, by rw [hnone, Option.none_or, if_pos rfl]⟩

/-- Which keys an object has in Go is decided by which exact keys it has. -/
theorem last_go_ne_none
    (h : Json.last (ms.map fun m => (exactText m.1, m.2)) (exactText us) ≠ none) :
    Json.last (ms.map fun m => (goText m.1, m.2)) (goText us) ≠ none := by
  rw [ne_eq, Json.last_eq_none_iff, map_map, not_not] at h ⊢
  obtain ⟨m, hm, hkey⟩ := mem_map.mp h
  exact mem_map.mpr ⟨m, hm, goText_congr hkey⟩

theorem exists_exactTree (j : JsonText) : ∃ x, exactTree j = some x := by
  obtain ⟨w, hw⟩ := Option.ne_none_iff_exists'.mp
    (Json.mapM_ne_none (f := fun t => some (exactNum t)) (g := exactText) (by simp) j)
  exact ⟨w.value, by rw [exactTree, Json.valueWith, hw]; rfl⟩

theorem ctorIdx_of_exactTree (h : exactTree j = some x) : j.ctorIdx = x.ctorIdx := by
  cases j with
  | null | bool | num | str =>
    cases h
    rfl
  | arr vs =>
    obtain ⟨xs, rfl, -⟩ := Json.valueWith_arr h
    rfl
  | obj ms =>
    rw [Json.valueWith_obj h]
    rfl

/-- The same exact value is that of the same kind of text. -/
theorem ctorIdx_congr (h : exactTree j = exactTree j') : j.ctorIdx = j'.ctorIdx := by
  obtain ⟨x, hx⟩ := exists_exactTree j
  rw [ctorIdx_of_exactTree hx, ctorIdx_of_exactTree (h.symm.trans hx)]

theorem Plain.exists_goTree (h : Plain j) : ∃ y, goTree j = some y := by
  obtain ⟨w, hw⟩ := Option.ne_none_iff_exists'.mp h.mapM_ne_none
  exact ⟨w.value, by rw [goTree, Json.valueWith, hw]; rfl⟩

theorem goTree_arr_congr {vs' : List JsonText} (hvs : Plain (.arr vs)) (hvs' : Plain (.arr vs'))
    (ih : ∀ v ∈ vs, ∀ v' ∈ vs', exactTree v = exactTree v' → goTree v = goTree v')
    (h : exactTree (.arr vs) = exactTree (.arr vs')) : goTree (.arr vs) = goTree (.arr vs') := by
  obtain ⟨x, hx⟩ := exists_exactTree (.arr vs)
  obtain ⟨xs, rfl, hxs⟩ := Json.valueWith_arr hx
  obtain ⟨xs', hxs', hvs'x⟩ := Json.valueWith_arr (h.symm.trans hx)
  cases hxs'
  obtain ⟨y, hy⟩ := hvs.exists_goTree
  obtain ⟨y', hy'⟩ := hvs'.exists_goTree
  obtain ⟨ys, rfl, hys⟩ := Json.valueWith_arr hy
  obtain ⟨ys', rfl, hys'⟩ := Json.valueWith_arr hy'
  have hmap : vs.map goTree = vs'.map goTree := Json.map_eq_of_map_eq ih (hxs.trans hvs'x.symm)
  have hsome : ys.map some = ys'.map some := hys.symm.trans (hmap.trans hys')
  rw [hy, hy', (map_injective_iff.mpr (Option.some_injective _)) hsome]

/-- The value of a key in one object is the value of that key in the other: the exact
key it comes from is the same. -/
theorem goField_congr (hms' : Plain (.obj ms'))
    (ih : ∀ m ∈ ms, ∀ m' ∈ ms', exactTree m.2 = exactTree m'.2 → goTree m.2 = goTree m'.2)
    (h : ∀ k, (Json.last (ms.map fun m => (exactText m.1, m.2)) k).bind exactTree =
      (Json.last (ms'.map fun m => (exactText m.1, m.2)) k).bind exactTree) {c : List Char}
    (hj : Json.last (ms.map fun m => (goText m.1, m.2)) c = some j) :
    ∃ j', Json.last (ms'.map fun m => (goText m.1, m.2)) c = some j' ∧ goTree j = goTree j' := by
  obtain ⟨k, hmem, rfl, hexact⟩ := last_exact_of_last_go hj
  have hk := h (exactText k)
  obtain ⟨x, hx⟩ := exists_exactTree j
  rw [hexact, Option.bind_some, hx, eq_comm, Option.bind_eq_some_iff] at hk
  obtain ⟨j₁, hj₁, hx₁⟩ := hk
  obtain ⟨j₂, hj₂⟩ := Option.ne_none_iff_exists'.mp (last_go_ne_none (by rw [hj₁]; simp))
  obtain ⟨k₂, hmem₂, hk₂, hexact₂⟩ := last_exact_of_last_go hj₂
  -- both keys of the other object come out alike, so they are one exact key
  cases hms' with
  | obj _ hkeys =>
    obtain ⟨m, hm, hmk⟩ := mem_map.mp (Json.mem_of_last hj₁)
    obtain ⟨hmk, -⟩ := Prod.mk.inj hmk
    have hsame : exactText k₂ = exactText k := by
      rw [← hmk]
      exact hkeys (k₂, j₂) hmem₂ m hm (by rw [goText_congr hmk]; exact hk₂)
    rw [hsame, hj₁, Option.some.injEq] at hexact₂
    subst hexact₂
    exact ⟨j₁, hj₂, ih (k, j) hmem (k₂, j₁) hmem₂ (hx.trans hx₁.symm)⟩

theorem goTree_obj_congr (hms : Plain (.obj ms)) (hms' : Plain (.obj ms'))
    (ih : ∀ m ∈ ms, ∀ m' ∈ ms', exactTree m.2 = exactTree m'.2 → goTree m.2 = goTree m'.2)
    (h : exactTree (.obj ms) = exactTree (.obj ms')) : goTree (.obj ms) = goTree (.obj ms') := by
  obtain ⟨x, hx⟩ := exists_exactTree (.obj ms)
  have hfield := (Json.valueWith_obj hx).symm.trans (Json.valueWith_obj (h.symm.trans hx))
  have hexact := congrFun (JsonValue.obj.inj hfield)
  obtain ⟨y, hy⟩ := hms.exists_goTree
  obtain ⟨y', hy'⟩ := hms'.exists_goTree
  rw [hy, hy', Json.valueWith_obj hy, Json.valueWith_obj hy']
  congr 2
  funext c
  cases hlast : Json.last (ms.map fun m => (goText m.1, m.2)) c with
  | some j =>
    obtain ⟨j', hj', hgo⟩ := goField_congr hms' ih hexact hlast
    rw [hj', Option.bind_some, Option.bind_some]
    exact hgo
  | none =>
    cases hlast' : Json.last (ms'.map fun m => (goText m.1, m.2)) c with
    | none => rfl
    | some j' =>
      obtain ⟨j, hj, -⟩ := goField_congr hms (fun m hm m' hm' he => (ih m' hm' m hm he.symm).symm)
        (fun k => (hexact k).symm) hlast'
      cases hlast.symm.trans hj

/-- The same exact value is decoded to the same value. -/
theorem goTree_congr (hj : Plain j) (hj' : Plain j')
    (h : exactTree j = exactTree j') : goTree j = goTree j' := by
  have hkind := ctorIdx_congr h
  induction hj generalizing j' with
  | null =>
    cases hj' with
    | null => rfl
    | _ => cases hkind
  | bool b =>
    cases hj' with
    | bool b' => rw [JsonValue.bool.inj (Option.some.inj h)]
    | _ => cases hkind
  | num hrange hzero =>
    cases hj' with
    | num hrange' hzero' =>
      have hparse := parseFloat_of_exactNum (JsonValue.num.inj (Option.some.inj h)) hzero hzero'
      simp [goTree, Json.valueWith, Json.mapM, hparse]
    | _ => cases hkind
  | str us =>
    cases hj' with
    | str us' =>
      have htext := goText_congr (JsonValue.str.inj (Option.some.inj h))
      simp [goTree, Json.valueWith, Json.mapM, htext]
    | _ => cases hkind
  | arr hvs ih =>
    cases hj' with
    | arr hvs' =>
      exact goTree_arr_congr (.arr hvs) (.arr hvs')
        (fun v hv v' hv' he => ih v hv (hvs' v' hv') he (ctorIdx_congr he)) h
    | _ => cases hkind
  | obj hms hkeys ih =>
    cases hj' with
    | obj hms' hkeys' =>
      exact goTree_obj_congr (.obj hms hkeys) (.obj hms' hkeys')
        (fun m hm m' hm' he => ih m hm (hms' m' hm') he (ctorIdx_congr he)) h
    | _ => cases hkind

/-- Go decodes a text handed on as the same value to what it decoded the text itself
to. -/
theorem goValue_eq_of_exactValue_eq {s s' : Bytes} (hs : parse s = some j)
    (hs' : parse s' = some j') (hj : Plain j) (hj' : Plain j')
    (h : exactValue s = exactValue s') : goValue s = goValue s' := by
  simp only [exactValue, goValue, hs, hs', Option.bind_some] at h ⊢
  exact goTree_congr hj hj' h

end Zanskar.Go
