import Mathlib.Tactic

/-!
# Checks in sequence

What a validator is made of: single conditions with their error (`require`), a
loop that checks every entry of a list and refuses a key that comes twice
(`eachOnce`), and a loop that replaces every entry by its checked form
(`List.mapM`). Each has one rule that says when it passes.
-/

namespace Zanskar.Lib

open List

variable {α β κ ε : Type} {b : β}

/-- Passes when the condition holds. -/
def require (ok : Bool) (e : ε) : Except ε Unit := if ok then .ok () else .error e

@[simp] theorem require_eq_ok {ok : Bool} {e : ε} : require ok e = .ok () ↔ ok := by
  cases ok <;> simp [require]

/-- A sequence passes when its first check does and the rest does on its result. -/
theorem bind_eq_ok {x : Except ε α} {f : α → Except ε β} :
    (x >>= f) = .ok b ↔ ∃ a, x = .ok a ∧ f a = .ok b := by
  cases x with
  | error | ok => simp [bind, Except.bind]

theorem map_eq_ok {x : Except ε α} {f : α → β} : x.map f = .ok b ↔ ∃ a, x = .ok a ∧ f a = b := by
  cases x with
  | error | ok => simp [Except.map]

theorem mem_toOption {x : Except ε β} : b ∈ x.toOption ↔ x = .ok b := by
  cases x with
  | error | ok => simp [Except.toOption]

theorem then_eq_ok {x : Except ε Unit} {y : Except ε β} :
    (x >>= fun _ => y) = .ok b ↔ x = .ok () ∧ y = .ok b := by
  rw [bind_eq_ok]
  exact ⟨fun ⟨(), hx, hy⟩ => ⟨hx, hy⟩, fun ⟨hx, hy⟩ => ⟨(), hx, hy⟩⟩

section Once

variable [DecidableEq κ] {key : α → κ} {before after : α → Except ε Unit} {twice : α → ε}
  {seen : List κ} {xs : List α}

/-- Checks each entry in turn, and that no key comes twice: `before` is asked of
an entry before its key is looked up, `after` once it is known to be new. -/
def eachOnce (key : α → κ) (before after : α → Except ε Unit) (twice : α → ε) :
    List κ → List α → Except ε Unit
  | _, [] => .ok ()
  | seen, x :: xs => do
    before x
    require (key x ∉ seen) (twice x)
    after x
    eachOnce key before after twice (key x :: seen) xs

/-- The loop passes when every entry passes its checks and the keys are distinct
and new. -/
theorem eachOnce_eq_ok :
    eachOnce key before after twice seen xs = .ok () ↔
      (∀ x ∈ xs, before x = .ok () ∧ after x = .ok () ∧ key x ∉ seen) ∧
        (xs.map key).Nodup := by
  induction xs generalizing seen with
  | nil => simp [eachOnce]
  | cons x xs ih =>
    simp only [eachOnce, then_eq_ok, ih, require_eq_ok, decide_eq_true_eq, mem_cons, not_or,
      map_cons, nodup_cons, mem_map, forall_eq_or_imp]
    constructor
    · rintro ⟨hb, hnew, ha, hall, hnodup⟩
      refine ⟨⟨⟨hb, ha, hnew⟩, fun y hy => ?_⟩, ?_, hnodup⟩
      · exact ⟨(hall y hy).1, (hall y hy).2.1, (hall y hy).2.2.2⟩
      · rintro ⟨y, hy, heq⟩
        exact (hall y hy).2.2.1 heq
    · rintro ⟨⟨⟨hb, ha, hnew⟩, hall⟩, hnot, hnodup⟩
      refine ⟨hb, hnew, ha, fun y hy => ?_, hnodup⟩
      exact ⟨(hall y hy).1, (hall y hy).2.1, fun heq => hnot ⟨y, hy, heq⟩, (hall y hy).2.2⟩

end Once

variable {f : α → Except ε α} {xs ys : List α}

/-- A loop of checks passes when each entry does, and returns their checked forms. -/
theorem mapM_eq_ok : xs.mapM f = .ok ys ↔ Forall₂ (fun x y => f x = .ok y) xs ys := by
  induction xs generalizing ys with
  | nil =>
    rw [mapM_nil, forall₂_nil_left_iff]
    exact ⟨fun h => (Except.ok.inj h).symm, fun h => h ▸ rfl⟩
  | cons x xs ih =>
    rw [mapM_cons, bind_eq_ok, forall₂_cons_left_iff]
    refine exists_congr fun y => ?_
    rw [bind_eq_ok]
    constructor
    · rintro ⟨hy, zs, hzs, hret⟩
      exact ⟨zs, hy, ih.mp hzs, (Except.ok.inj hret).symm⟩
    · rintro ⟨zs, hy, hzs, rfl⟩
      exact ⟨hy, zs, ih.mpr hzs, rfl⟩

/-- Of two lists related entry by entry, every entry of the second belongs to one of the
first. -/
theorem exists_of_forall₂ {R : α → β → Prop} {ys : List β} (h : Forall₂ R xs ys)
    (hb : b ∈ ys) : ∃ x ∈ xs, R x b := by
  induction h with
  | nil => cases hb
  | cons hx _ ih =>
    rcases mem_cons.mp hb with rfl | hb
    · exact ⟨_, mem_cons_self, hx⟩
    · obtain ⟨x, hmem, hx⟩ := ih hb
      exact ⟨x, mem_cons_of_mem _ hmem, hx⟩

theorem mem_of_lookup [BEq κ] [LawfulBEq κ] {l : List (κ × β)} {k : κ}
    (h : l.lookup k = some b) : (k, b) ∈ l := by
  obtain ⟨before, after, rfl, -⟩ := lookup_eq_some_iff.mp h
  simp

/-- Every entry of what such a loop returns is the checked form of one. -/
theorem exists_of_mapM_eq_ok {y : α} (h : xs.mapM f = .ok ys) (hy : y ∈ ys) :
    ∃ x, f x = .ok y := by
  obtain ⟨x, -, hx⟩ := exists_of_forall₂ (mapM_eq_ok.mp h) hy
  exact ⟨x, hx⟩

end Zanskar.Lib
