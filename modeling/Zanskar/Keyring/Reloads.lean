import Zanskar.Keyring.Versions
import Zanskar.Lib.Machine

/-!
# Loads of one ring that overlap

`load` reads the table without a lock and replaces the map of the ring under one, so
the loads of a process (from `Open`, `Rotate` and a `Decrypt` of an unknown version)
may be between the two steps at the same time, while any process adds versions.

- `stale_load_forgets` : a load that read before a version was added swaps last, and the
  ring has lost it;
- `ring_grows` : where swaps come in the order of the reads, a version once held stays
  held.
-/

namespace Zanskar.Keyring

open Go Lib List

structure LoadState where
  versions : KeyVersions
  memory : Memory
  ring : Ring
  /-- What the loads under way have read, in the order they read it. -/
  loads : List (List (Nat × Nat))

inductive LoadLabel where
  /-- A process, with a master key of its own, adds a version. -/
  | add (kek : Key) (onlyIfEmpty : Bool) (draw : Draw) (commits : Bool)
  /-- A load of the ring reads the table and unwraps its rows. -/
  | read
  | swap (i : Nat)

variable (aead : Aead) {deks : List (Nat × Nat)} {m m' : Memory}

def loadStep (s : LoadState) : LoadLabel → Option LoadState
  | .add kek onlyIfEmpty draw commits =>
    some { s with versions := (createVersion aead kek s.versions onlyIfEmpty draw commits).1 }
  | .read =>
    match loadRows aead s.ring.kek (live s.versions) [] s.memory with
    | (m, .error _) => some { s with memory := m }
    | (m, .ok deks) => some { s with memory := m, loads := s.loads ++ [deks] }
  | .swap i =>
    match s.loads[i]? with
    | none => none
    | some deks =>
      some { s with
        memory := (swap s.memory s.ring deks).1
        ring := (swap s.memory s.ring deks).2
        loads := s.loads.eraseIdx i }

/-- The swaps come in the order of the reads. -/
def InOrder (_ : LoadState) : LoadLabel → Prop
  | .swap i => i = 0
  | _ => True

/-- The versions of a map. -/
def ids (deks : List (Nat × Nat)) : List Nat := deks.map Prod.fst

/-- The active version is no smaller, and every version held is still held. -/
def Grows (r r' : Ring) : Prop := r.active ≤ r'.active ∧ ids r.deks ⊆ ids r'.deks

/-- What is held is in what the first load has read, and so on up to the table. -/
structure LoadState.Inv (s : LoadState) : Prop where
  active : s.ring.active = (ids s.ring.deks).foldl max 0
  nested : (ids s.ring.deks :: s.loads.map ids ++ [(live s.versions).map KeyVersion.id]).Pairwise
    (· ⊆ ·)

variable {aead}

theorem ids_swap (r : Ring) : ids (swap m r deks).2.deks = ids deks := by
  simp [ids, swap]

theorem live_subset_createVersion (kek : Key) (tbl : KeyVersions) (onlyIfEmpty : Bool) (draw : Draw)
    (commits : Bool) : live tbl ⊆ live (createVersion aead kek tbl onlyIfEmpty draw commits).1 := by
  intro v hv
  rcases createVersion_cases aead kek tbl onlyIfEmpty draw commits with ⟨hsame, -⟩ | ⟨-, -, hadds⟩
  · rwa [hsame]
  · obtain ⟨w, dek, -, -, -, -, hrows⟩ := hadds
    obtain ⟨hmem, hlive⟩ := mem_live.mp hv
    exact mem_live.mpr ⟨(hrows v).mpr (.inl hmem), hlive⟩

theorem ids_loadRows {kek : Key} {rows : List KeyVersion}
    (h : loadRows aead kek rows [] m = (m', .ok deks)) : ids deks = rows.map KeyVersion.id := by
  obtain ⟨deks', copies, hcopies, hload⟩ :=
    loadRows_ok (unwraps_of_loadRows (congrArg Prod.snd h)) [] m
  rw [hload] at h
  cases (Prod.mk.inj h).2
  exact hcopies.ids

theorem foldl_max_mono {l l' : List Nat} (h : l ⊆ l') : l.foldl max 0 ≤ l'.foldl max 0 := by
  by_contra hlt
  obtain ⟨a, ha, hmax⟩ := lt_foldl_max.mp (not_le.mp hlt)
  exact absurd (lt_foldl_max.mpr ⟨a, h ha, hmax⟩) (lt_irrefl _)

/-- **One step.** -/
theorem LoadState.Inv.step {s t : LoadState} {l : LoadLabel} (hcond : InOrder s l) (h : s.Inv)
    (hstep : loadStep aead s l = some t) : t.Inv ∧ Grows s.ring t.ring := by
  have hsame : Grows s.ring s.ring := ⟨le_rfl, List.Subset.refl _⟩
  cases l with
  | add kek onlyIfEmpty draw commits =>
    cases hstep
    refine ⟨⟨h.active, ?_⟩, hsame⟩
    obtain ⟨hfront, -, hlast⟩ := pairwise_append.mp h.nested
    refine pairwise_append.mpr ⟨hfront, pairwise_singleton _ _, fun a ha b hb => ?_⟩
    rw [mem_singleton.mp hb]
    exact List.Subset.trans (hlast a ha _ mem_cons_self)
      (map_subset _ (live_subset_createVersion kek s.versions onlyIfEmpty draw commits))
  | read =>
    simp only [loadStep] at hstep
    split at hstep <;> cases hstep
    · exact ⟨⟨h.active, h.nested⟩, hsame⟩
    · rename_i m deks hrows
      refine ⟨⟨h.active, ?_⟩, hsame⟩
      -- what was read is the table
      have hread := ids_loadRows hrows
      obtain ⟨hfront, -, hlast⟩ := pairwise_append.mp h.nested
      rw [map_append, map_singleton, hread, ← cons_append]
      refine pairwise_append.mpr ⟨h.nested, pairwise_singleton _ _, fun a ha b hb => ?_⟩
      rw [mem_singleton.mp hb]
      rcases mem_append.mp ha with ha | ha
      · exact hlast a ha _ mem_cons_self
      · rw [mem_singleton.mp ha]
        exact List.Subset.refl _
  | swap i =>
    obtain rfl : i = 0 := hcond
    simp only [loadStep] at hstep
    split at hstep
    · cases hstep
    rename_i deks hfirst
    cases hstep
    obtain ⟨loads, hloads⟩ : ∃ loads, s.loads = deks :: loads := by
      cases hs : s.loads with
      | nil => simp [hs] at hfirst
      | cons d loads =>
        rw [hs] at hfirst
        exact ⟨loads, by rw [Option.some.inj hfirst]⟩
    have hnested := h.nested
    rw [hloads, map_cons, cons_append, pairwise_cons] at hnested
    have hheld : ids s.ring.deks ⊆ ids deks := hnested.1 _ mem_cons_self
    refine ⟨⟨?_, ?_⟩, ?_, ?_⟩
    · rw [ids_swap]
      rfl
    · rw [ids_swap, hloads]
      exact hnested.2
    · rw [h.active]
      exact foldl_max_mono hheld
    · rwa [ids_swap]

/-- A ring that is being opened. -/
def LoadState.opening (tbl : KeyVersions) (m : Memory) (kek : Key) : LoadState :=
  ⟨tbl, m, ⟨kek, [], 0, false⟩, []⟩

theorem LoadState.inv_opening (tbl : KeyVersions) (kek : Key) : (opening tbl m kek).Inv :=
  ⟨rfl, by simp [opening, ids]⟩

/-- **A ring grows.** In every run in which the swaps of the loads come in the order of their
reads, every later ring has an active version no smaller, and every version held before. -/
theorem ring_grows {tbl : KeyVersions} {m : Memory} {kek : Key} {ls ls' : List LoadLabel}
    {s t : LoadState} (h : RunWhere (loadStep aead) InOrder (.opening tbl m kek) ls s)
    (h' : RunWhere (loadStep aead) InOrder s ls' t) :
    s.ring.active ≤ t.ring.active ∧ ∀ v ∈ ids s.ring.deks, v ∈ ids t.ring.deks := by
  have hinv := h.keeps LoadState.Inv (fun _ _ _ hcond hs hstep => (hs.step hcond hstep).1)
    (LoadState.inv_opening tbl kek)
  have hgrows : t.Inv ∧ Grows s.ring t.ring := by
    refine h'.keeps (fun u => u.Inv ∧ Grows s.ring u.ring) (fun u l w hcond hu hstep => ?_)
      ⟨hinv, le_rfl, List.Subset.refl _⟩
    obtain ⟨hw, hgrows⟩ := hu.1.step hcond hstep
    exact ⟨hw, hu.2.1.trans hgrows.1, List.Subset.trans hu.2.2 hgrows.2⟩
  exact ⟨hgrows.2.1, hgrows.2.2⟩

/-- A version is there and loaded; one load reads the table, another version is added, and a
second load reads it. -/
def twoReads : List LoadLabel :=
  [.add (keyOf 1) true (drawOf 7) true, .read, .swap 0, .read,
    .add (keyOf 1) false (drawOf 9) true, .read]

theorem ring_grows_in_order :
    ∃ s t, RunWhere (loadStep .framed) InOrder (.opening .empty [] (keyOf 1))
        (twoReads ++ [.swap 0]) s ∧
      RunWhere (loadStep .framed) InOrder s [.swap 0] t ∧ s.ring.active ≤ t.ring.active ∧
      ∀ v ∈ ids s.ring.deks, v ∈ ids t.ring.deks := by
  obtain ⟨s, hrun, t, hstep, -⟩ : ∃ s,
      Run (loadStep .framed) (.opening .empty [] (keyOf 1)) (twoReads ++ [.swap 0]) s ∧
      ∃ t ∈ loadStep .framed s (.swap 0), True :=
    Run.of_exec_decide (by decide +kernel)
  have hwhere := hrun.where_of (C := InOrder) (by simp [twoReads, InOrder])
  have hlast : RunWhere (loadStep .framed) InOrder s [.swap 0] t := .snoc .nil rfl hstep
  exact ⟨s, t, hwhere, hlast, ring_grows hwhere hlast⟩

/-- The second load swaps first: the ring holds version 2 and encrypts with it, and then the first
load takes it away. -/
theorem stale_load_forgets :
    ∃ s t, Run (loadStep .framed) (.opening .empty [] (keyOf 1)) (twoReads ++ [.swap 1]) s ∧
      loadStep .framed s (.swap 0) = some t ∧ s.ring.active = 2 ∧ 2 ∈ ids s.ring.deks ∧
      t.ring.active = 1 ∧ 2 ∉ ids t.ring.deks :=
  Run.exists_step_of_decide (by decide +kernel)

end Zanskar.Keyring
