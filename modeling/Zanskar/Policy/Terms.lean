import Mathlib.Data.Multiset.Lattice
import Mathlib.Order.WithBot
import Zanskar.Policy.Evaluate

/-!
# The terms of access, as a meet

What a session runs under (its idle timeout, its maximum, its switches, whether
an authenticator is asked for, how long it is kept) is ordered by strictness:
`s ≤ t` when `s` is at least as strict as `t` in every term. The terms form a
meet semilattice whose top is no term at all, and the terms of several grants
are their meet (`strictest`).

This is what the second loop of `evaluate` is for. `Merge.add` meets the terms
of one more grant into what it has (`Merge.terms_add`), so the decision carries
the strictest terms of the grants that decide; each of its fields is read off
them below (`settle_carries`). The maximum is the field
with a trap: the decision writes "none" as the duration zero, so the reading
holds while no grant's own maximum comes to zero.
-/

namespace Zanskar

open Go List

/-- The terms of access, strictest first. -/
@[ext]
structure Terms where
  /-- Idle timeout in minutes; `⊤` when nothing sets one. -/
  idle : WithTop Int
  /-- Longest session as a duration; `⊤` is no maximum. -/
  maxSession : WithTop Int
  clipboard : Bool
  fileTransfer : Bool
  devTools : Bool
  mfa : Bool
  /-- Days a recording is kept at least. -/
  retention : Nat

namespace Terms

/-- `s` is at least as strict as `t` in every term. -/
structure Le (s t : Terms) : Prop where
  idle : s.idle ≤ t.idle
  maxSession : s.maxSession ≤ t.maxSession
  clipboard : s.clipboard ≤ t.clipboard
  fileTransfer : s.fileTransfer ≤ t.fileTransfer
  devTools : s.devTools ≤ t.devTools
  mfa : t.mfa ≤ s.mfa
  retention : t.retention ≤ s.retention

instance : LE Terms := ⟨Le⟩

instance : PartialOrder Terms where
  le_refl _ := ⟨le_rfl, le_rfl, le_rfl, le_rfl, le_rfl, le_rfl, le_rfl⟩
  le_trans _ _ _ h k :=
    ⟨h.idle.trans k.idle, h.maxSession.trans k.maxSession,
      h.clipboard.trans k.clipboard, h.fileTransfer.trans k.fileTransfer,
      h.devTools.trans k.devTools, k.mfa.trans h.mfa, k.retention.trans h.retention⟩
  le_antisymm _ _ h k :=
    Terms.ext (h.idle.antisymm k.idle) (h.maxSession.antisymm k.maxSession)
      (h.clipboard.antisymm k.clipboard) (h.fileTransfer.antisymm k.fileTransfer)
      (h.devTools.antisymm k.devTools) (k.mfa.antisymm h.mfa)
      (k.retention.antisymm h.retention)

/-- The meet: each term the stricter of the two. -/
instance : SemilatticeInf Terms where
  inf s t :=
    { idle := s.idle ⊓ t.idle
      maxSession := s.maxSession ⊓ t.maxSession
      clipboard := s.clipboard ⊓ t.clipboard
      fileTransfer := s.fileTransfer ⊓ t.fileTransfer
      devTools := s.devTools ⊓ t.devTools
      mfa := s.mfa ⊔ t.mfa
      retention := s.retention ⊔ t.retention }
  inf_le_left _ _ :=
    ⟨inf_le_left, inf_le_left, inf_le_left, inf_le_left, inf_le_left,
      le_sup_left, le_sup_left⟩
  inf_le_right _ _ :=
    ⟨inf_le_right, inf_le_right, inf_le_right, inf_le_right, inf_le_right,
      le_sup_right, le_sup_right⟩
  le_inf _ _ _ h k :=
    ⟨le_inf h.idle k.idle, le_inf h.maxSession k.maxSession,
      le_inf h.clipboard k.clipboard, le_inf h.fileTransfer k.fileTransfer,
      le_inf h.devTools k.devTools, sup_le h.mfa k.mfa, sup_le h.retention k.retention⟩

/-- No term at all: the start of the second loop. -/
instance : OrderTop Terms where
  top := ⟨⊤, ⊤, true, true, true, false, 0⟩
  le_top _ := ⟨le_top, le_top, Bool.le_true _, Bool.le_true _, Bool.le_true _,
    Bool.false_le _, Nat.zero_le _⟩

end Terms

/-- The terms one grant sets. -/
def Grant.terms (g : Grant) : Terms where
  idle := g.idleTimeoutMinutes
  maxSession := match g.maxSessionMinutes with
    | none => ⊤
    | some max => (minutes max : Int)
  clipboard := g.allowClipboard
  fileTransfer := g.allowFileTransfer
  devTools := g.allowDevTools
  mfa := g.requireMFA
  retention := (g.retentionDays.getD 0).toNat

/-- The strictest terms among the grants. -/
def strictest (set : List Decider) : Terms :=
  Multiset.inf ((set.map fun c => c.g.terms : List Terms) : Multiset Terms)

/-- Every grant of `set` is among those of `set'`, whatever policy holds it. -/
def GrantsAmong (set set' : List Decider) : Prop :=
  ∀ c ∈ set, ∃ c' ∈ set', c'.g = c.g

variable {set : List Decider}

/-- More grants, stricter terms. -/
theorem strictest_anti {set' : List Decider} (h : GrantsAmong set set') :
    strictest set' ≤ strictest set := by
  refine Multiset.inf_mono fun r hr => ?_
  obtain ⟨c, hc, rfl⟩ := mem_map.mp (Multiset.mem_coe.mp hr)
  obtain ⟨c', hc', hg⟩ := h c hc
  exact Multiset.mem_coe.mpr (mem_map.mpr ⟨c', hc', by rw [hg]⟩)

theorem strictest_le {c : Decider} (h : c ∈ set) : strictest set ≤ c.g.terms :=
  Multiset.inf_le (Multiset.mem_coe.mpr (mem_map_of_mem h))

theorem strictest_cons (c : Decider) : strictest (c :: set) = c.g.terms ⊓ strictest set := by
  unfold strictest
  rw [map_cons, ← Multiset.cons_coe, Multiset.inf_cons]

theorem strictest_eq_of_forall {s : Terms} (hne : set ≠ []) (h : ∀ c ∈ set, c.g.terms = s) :
    strictest set = s := by
  obtain ⟨c, hc⟩ := exists_mem_of_ne_nil set hne
  refine le_antisymm (h c hc ▸ strictest_le hc) (Multiset.le_inf.mpr fun r hr => ?_)
  obtain ⟨c', hc', rfl⟩ := mem_map.mp (Multiset.mem_coe.mp hr)
  exact (h c' hc').ge

theorem le_strictest_idle {b : Int} (h : ∀ c ∈ set, b ≤ c.g.idleTimeoutMinutes) :
    (b : WithTop Int) ≤ (strictest set).idle := by
  induction set with
  | nil => exact le_top
  | cons c set ih =>
    rw [strictest_cons]
    exact le_inf (WithTop.coe_le_coe.mpr (h c mem_cons_self))
      (ih fun c' hc' => h c' (mem_cons_of_mem c hc'))

/-- The strictest limit is none, or the limit of one of the grants. -/
theorem strictest_limit (limit : Terms → WithTop Int) (htop : limit ⊤ = ⊤)
    (hinf : ∀ s t, limit (s ⊓ t) = min (limit s) (limit t)) {x : Int}
    (h : limit (strictest set) = x) : ∃ c ∈ set, limit c.g.terms = x := by
  induction set with
  | nil => exact absurd (htop.symm.trans h) WithTop.top_ne_coe
  | cons c set ih =>
    rw [strictest_cons, hinf] at h
    rcases min_choice (limit c.g.terms) (limit (strictest set)) with hc | hs
    · exact ⟨c, mem_cons_self, hc.symm.trans h⟩
    · obtain ⟨c', hc', hx⟩ := ih (hs.symm.trans h)
      exact ⟨c', mem_cons_of_mem c hc', hx⟩

theorem strictest_maxSession {x : Int} (h : (strictest set).maxSession = x) :
    ∃ c ∈ set, ∃ max, c.g.maxSessionMinutes = some max ∧ x = minutes max := by
  obtain ⟨c, hc, hx⟩ := strictest_limit Terms.maxSession rfl (fun _ _ => rfl) h
  unfold Grant.terms at hx
  cases hmax : c.g.maxSessionMinutes with
  | none => simp [hmax] at hx
  | some max =>
    simp only [hmax, WithTop.coe_inj] at hx
    exact ⟨c, hc, max, hmax, hx.symm⟩

/-! ## The second loop meets the terms -/

namespace Merge

/-- What the second loop has so far, read as terms. -/
def terms (m : Merge) : Terms where
  idle := match m.best with
    | none => ⊤
    | some b => (b.g.idleTimeoutMinutes : Int)
  maxSession := if m.maxSet then (m.d.maxSession : Int) else ⊤
  clipboard := m.d.allowClipboard
  fileTransfer := m.d.allowFileTransfer
  devTools := m.d.allowDevTools
  mfa := m.d.requireMFA
  retention := m.d.retentionDays.toNat

theorem terms_start (requireApproval : Bool) : (start requireApproval).terms = ⊤ := rfl

theorem idle_add (m : Merge) (c : Decider) :
    (m.add c).terms.idle = m.terms.idle ⊓ c.g.terms.idle := by
  obtain ⟨d, best, maxSet⟩ := m
  cases best with
  | none => exact (top_inf_eq _).symm
  | some b =>
    by_cases hlt : c.g.idleTimeoutMinutes < b.g.idleTimeoutMinutes
    · simp only [terms, add, better, Grant.terms, hlt, decide_true, if_true]
      exact (min_eq_right (WithTop.coe_le_coe.mpr hlt.le)).symm
    · simp only [terms, add, better, Grant.terms, hlt, decide_false,
        Bool.false_eq_true, if_false]
      exact (min_eq_left (WithTop.coe_le_coe.mpr (not_lt.mp hlt))).symm

theorem maxSession_add (m : Merge) (c : Decider) :
    (m.add c).terms.maxSession = m.terms.maxSession ⊓ c.g.terms.maxSession := by
  obtain ⟨p, g⟩ := c
  obtain ⟨d, best, maxSet⟩ := m
  simp only [terms, add, bound, Grant.terms]
  rcases g.maxSessionMinutes with _ | max
  · exact (inf_top_eq _).symm
  · cases maxSet with
    | false => exact (top_inf_eq _).symm
    | true =>
      by_cases hlt : minutes max < d.maxSession
      · simp only [hlt, decide_true, Bool.not_true, Bool.false_or, if_true]
        exact (min_eq_right (WithTop.coe_le_coe.mpr hlt.le)).symm
      · simp only [hlt, decide_false, Bool.not_true, Bool.or_self,
          Bool.false_eq_true, if_false, if_true]
        exact (min_eq_left (WithTop.coe_le_coe.mpr (not_lt.mp hlt))).symm

theorem retention_add (m : Merge) (c : Decider) :
    (m.add c).terms.retention = m.terms.retention ⊔ c.g.terms.retention := by
  simp only [terms, add, retain, Grant.terms]
  cases hg : c.g.retentionDays with
  | none => simp
  | some days =>
    simp only [Option.getD_some]
    split <;> omega

/-- **One pass of the second loop** meets one grant's terms into the rest. -/
theorem terms_add (m : Merge) (c : Decider) : (m.add c).terms = m.terms ⊓ c.g.terms :=
  Terms.ext (m.idle_add c) (m.maxSession_add c) rfl rfl rfl rfl (m.retention_add c)

/-- The loop takes the meet of the terms. -/
theorem terms_foldl_add (m : Merge) : (set.foldl add m).terms = m.terms ⊓ strictest set := by
  induction set generalizing m with
  | nil => exact (inf_top_eq m.terms).symm
  | cons c set ih => rw [foldl_cons, ih, terms_add, strictest_cons, inf_assoc]

end Merge

theorem terms_settled (set : List Decider) (requireApproval : Bool) :
    (set.foldl Merge.add (Merge.start requireApproval)).terms = strictest set := by
  rw [Merge.terms_foldl_add, Merge.terms_start, top_inf_eq]

/-! ## The decision's fields, read off the strictest terms -/

section Fields

variable (set : List Decider) (requireApproval : Bool) {m : Merge}

/-- The decision's fields are these terms, but for the idle timeout. A maximum of zero is none. -/
structure Decision.Carries (d : Decision) (s : Terms) : Prop where
  maxSession : d.maxSession = s.maxSession.untopD 0
  clipboard : d.allowClipboard = s.clipboard
  fileTransfer : d.allowFileTransfer = s.fileTransfer
  devTools : d.allowDevTools = s.devTools
  mfa : d.requireMFA = s.mfa
  retention : d.retentionDays = s.retention

/-- Between two passes: no retention is negative, and a maximum is set or still its zero. -/
structure Merge.Sound (m : Merge) : Prop where
  retention : 0 ≤ m.d.retentionDays
  maxSession : m.maxSet = false → m.d.maxSession = 0

theorem Merge.Sound.add (h : m.Sound) (c : Decider) : (m.add c).Sound where
  retention := by
    show 0 ≤ m.retain c.g
    have hnn := h.retention
    unfold Merge.retain
    split
    · exact hnn
    · split <;> omega
  maxSession := by
    show (m.bound c.g).2 = false → (m.bound c.g).1 = 0
    unfold Merge.bound
    split
    · exact h.maxSession
    · split
      · exact fun hf => by cases hf
      · exact h.maxSession

theorem Merge.Sound.foldl (h : m.Sound) : (set.foldl Merge.add m).Sound := by
  induction set generalizing m with
  | nil => exact h
  | cons c set ih => exact ih (h.add c)

/-- The decision carries the strictest terms. -/
theorem settle_carries : (settle set requireApproval).Carries (strictest set) := by
  have hsound : (set.foldl Merge.add (Merge.start requireApproval)).Sound :=
    Merge.Sound.foldl set ⟨le_refl (0 : Int), fun _ => rfl⟩
  rw [← terms_settled set requireApproval]
  unfold settle
  generalize set.foldl Merge.add (Merge.start requireApproval) = m at hsound ⊢
  have hmax : m.d.maxSession = m.terms.maxSession.untopD 0 := by
    simp only [Merge.terms]
    cases hset : m.maxSet with
    | true => rfl
    | false => exact hsound.maxSession hset
  have hretention := (Int.toNat_of_nonneg hsound.retention).symm
  unfold Merge.finish
  split <;> exact ⟨hmax, rfl, rfl, rfl, rfl, hretention⟩

/-- The idle timeout is the shortest one, when a grant decides. -/
theorem settle_idleTimeout (hne : set ≠ []) :
    ∃ idle : Int, (strictest set).idle = idle ∧
      (settle set requireApproval).idleTimeout = minutes idle := by
  have hterms := congrArg Terms.idle (terms_settled set requireApproval)
  have hfield : (settle set requireApproval).idleTimeout =
      match (set.foldl Merge.add (Merge.start requireApproval)).best with
      | none => (set.foldl Merge.add (Merge.start requireApproval)).d.idleTimeout
      | some b => minutes b.g.idleTimeoutMinutes := by
    unfold settle Merge.finish
    split <;> simp_all
  simp only [Merge.terms] at hterms
  cases hb : (set.foldl Merge.add (Merge.start requireApproval)).best with
  | some b =>
    rw [hb] at hterms hfield
    exact ⟨b.g.idleTimeoutMinutes, hterms.symm, hfield⟩
  | none =>
    rw [hb] at hterms
    obtain ⟨c, hc⟩ := exists_mem_of_ne_nil set hne
    have hle : (strictest set).idle ≤ c.g.terms.idle := (strictest_le hc).idle
    rw [← hterms] at hle
    exact absurd (top_le_iff.mp hle) (WithTop.coe_ne_top)

end Fields

theorem strictest_switch (switch : Terms → Bool) (htop : switch ⊤)
    (hinf : ∀ s t, switch (s ⊓ t) = (switch s && switch t)) :
    switch (strictest set) = set.all fun c => switch c.g.terms := by
  induction set with
  | nil => exact htop
  | cons c set ih => rw [strictest_cons, hinf, ih, all_cons]

theorem strictest_mfa : (strictest set).mfa = set.any fun c => c.g.requireMFA := by
  induction set with
  | nil => rfl
  | cons c set ih =>
    rw [strictest_cons, any_cons, ← ih]
    rfl

section Switches

variable {zones : Zones} {t : TargetRef} {proto : Protocol} {now : Int} {windows : Bool}
  {policies : List Policy}

variable (h : candidates zones t proto now windows policies ≠ [])

include h

/-- A switch is on where every deciding grant has it on. -/
theorem evaluate_switches :
    ((evaluate zones policies t proto now windows).allowClipboard ↔
      ∀ c ∈ deciding zones t proto now windows policies, c.g.allowClipboard) ∧
    ((evaluate zones policies t proto now windows).allowFileTransfer ↔
      ∀ c ∈ deciding zones t proto now windows policies, c.g.allowFileTransfer) ∧
    ((evaluate zones policies t proto now windows).allowDevTools ↔
      ∀ c ∈ deciding zones t proto now windows policies, c.g.allowDevTools) := by
  have hc := settle_carries (deciding zones t proto now windows policies)
    (standing zones t proto now windows policies).isEmpty
  rw [evaluate_eq_settle h, hc.clipboard, hc.fileTransfer, hc.devTools,
    strictest_switch Terms.clipboard rfl fun _ _ => rfl,
    strictest_switch Terms.fileTransfer rfl fun _ _ => rfl,
    strictest_switch Terms.devTools rfl fun _ _ => rfl]
  exact ⟨all_eq_true, all_eq_true, all_eq_true⟩

theorem evaluate_requireMFA_iff :
    (evaluate zones policies t proto now windows).requireMFA ↔
      ∃ c ∈ deciding zones t proto now windows policies, c.g.requireMFA := by
  rw [evaluate_eq_settle h, (settle_carries _ _).mfa, strictest_mfa, any_eq_true]

end Switches

end Zanskar
