import Zanskar.Session.Places

/-!
# The indexer and the sweep

The index of what was typed and printed goes with the file: once a recording is marked purged, the
sweep deletes its rows of both tables. The indexer lists and reads a recording first and stores
what it found later, and does not look at the row again.

- `index_is_cleared` : where nothing is stored for a recording that is marked purged and already
  cleared, and the sweep's statements do not fail, the index of a purged recording goes;
- `indexed_after_purge` : otherwise what the indexer had read is stored behind the sweep, and stays.
-/

namespace Zanskar.Session

open Go Lib List

/-- A recording that is marked purged. -/
def Stored.Purged (st : Stored) (id : String) : Prop :=
  ∃ r ∈ st.recordings.rows, r.id = id ∧ r.purgedAt ≠ none

instance (st : Stored) (id : String) : Decidable (st.Purged id) :=
  inferInstanceAs (Decidable (∃ r ∈ st.recordings.rows, _))

/-- No row of the index belongs to a purged recording. -/
def Stored.Clear (st : Stored) : Prop :=
  (∀ row ∈ st.commands, ¬st.Purged row.recordingID) ∧
    ∀ row ∈ st.output, ¬st.Purged row.recordingID

/-- The sweep is still to delete the recording's commands. -/
def Sweeper.forgets (id : String) : Sweeper → Prop
  | .forgetting c _ _ => c.id = id
  | _ => False

/-- The sweep is still to delete what the recording printed. -/
def Sweeper.forgetsOutput (id : String) : Sweeper → Prop
  | .forgetting c _ _ | .forgettingOutput c _ _ => c.id = id
  | _ => False

/-- The index has no row of the recording. -/
def Stored.HasNoRow (st : Stored) (id : String) : Prop :=
  (∀ row ∈ st.commands, row.recordingID ≠ id) ∧ ∀ row ∈ st.output, row.recordingID ≠ id

/-- The sweep's statements on a recording with rows in the index do not fail. -/
def SweepsInTime (st : Stored) (o : Outcome) : Sweeper → Prop
  | .marking c _ _ | .forgetting c _ _ | .forgettingOutput c _ _ => o = .ok ∨ st.HasNoRow c.id
  | _ => True

/-- The indexer stores nothing for a purged recording the sweep has cleared of that table. -/
def IndexesInTime (st : Stored) (w : Sweeper) : Indexer → Prop
  | .storing _ u markers _ _ => st.Purged u.id → commandRows u.id markers = [] ∨ w.forgets u.id
  | .storingOutput _ u printed _ =>
    st.Purged u.id → outputRows u.id printed = [] ∨ w.forgetsOutput u.id
  | _ => True

/-- What is asked of the steps of a run. -/
def StoresInTime (s : State) : Label → Prop
  | .sweep _ o => SweepsInTime s.stored o s.sweeper
  | .index _ => IndexesInTime s.stored s.sweeper s.indexer
  | _ => True

instance (s : State) (l : Label) : Decidable (StoresInTime s l) := by
  unfold StoresInTime SweepsInTime IndexesInTime Stored.HasNoRow Sweeper.forgets
    Sweeper.forgetsOutput
  repeat' split
  all_goals infer_instance

/-! ## What each loop does to the index -/

variable {st : Stored} {o : Outcome} {id : String} {st' : Stored}

theorem Stored.purged_iff : st.Purged id ↔ ∃ p ∈ st.places, p.id = id ∧ p.purged := by
  constructor
  · rintro ⟨r, hr, hid, hpurged⟩
    exact ⟨r.place, mem_map_of_mem hr, hid, Option.isSome_iff_ne_none.mpr hpurged⟩
  · rintro ⟨p, hp, hid, hpurged⟩
    obtain ⟨r, hr, rfl⟩ := mem_map.mp hp
    exact ⟨r, hr, hid, Option.isSome_iff_ne_none.mp hpurged⟩

theorem Stored.purged_of_places (hplaces : st'.places = st.places) (h : st'.Purged id) :
    st.Purged id := by
  rw [Stored.purged_iff] at h ⊢
  rwa [hplaces] at h

/-- No row is added to the index, and no recording marked. -/
structure Stored.Fewer (st' st : Stored) : Prop where
  commands : ∀ row ∈ st'.commands, row ∈ st.commands
  output : ∀ row ∈ st'.output, row ∈ st.output
  purged : ∀ id, st'.Purged id → st.Purged id

theorem Stored.Fewer.rfl : st.Fewer st := ⟨fun _ h => h, fun _ h => h, fun _ h => h⟩

theorem Stored.Fewer.of_places (hcommands : st'.commands = st.commands)
    (houtput : st'.output = st.output) (hplaces : st'.places = st.places) : st'.Fewer st where
  commands := by rw [hcommands]; exact fun _ h => h
  output := by rw [houtput]; exact fun _ h => h
  purged := fun _ => Stored.purged_of_places hplaces

theorem Stored.fewer_repoint (id : String) (old new : Uri) : (st.repoint id old new).Fewer st where
  commands := fun _ h => h
  output := fun _ h => h
  purged := by
    intro id' hid'
    rw [Stored.purged_iff] at hid' ⊢
    obtain ⟨p', hp', hid, hpurged⟩ := hid'
    rw [Stored.places_repoint] at hp'
    obtain ⟨p, hp, ⟨-, rfl⟩ | ⟨-, rfl⟩⟩ := mem_repoint.mp hp'
    · exact ⟨p, hp, hid, hpurged⟩
    · exact ⟨p', hp, hid, hpurged⟩

/-- The move leaves the index and the marks alone. -/
theorem fewer_moveStep {g : Gateway} {m m' : Mover} (h : moveStep g st o m = some (st', m')) :
    st'.Fewer st := by
  have hblobs : ∀ blobs, Stored.Fewer { st with blobs := blobs } st := fun _ =>
    .of_places rfl rfl rfl
  cases m with
  | idle => cases h
  | listing | opening =>
    simp only [moveStep] at h
    split at h <;> cases h <;> exact .rfl
  | copying rec c rest =>
    cases h
    exact Outcome.write_of (P := (Stored.Fewer · st)) (hblobs _) .rfl o
  | copied rec rest =>
    cases h
    exact Outcome.write_of (P := (Stored.Fewer · st)) (st.fewer_repoint _ _ _) .rfl o
  | dropping | repointed =>
    cases h
    exact Outcome.write_of (P := (Stored.Fewer · st)) (hblobs _) .rfl o

theorem Stored.purged_mark {id' : String} {uri : Uri} {now : Int}
    (h : (st.mark id uri now).Purged id') : st.Purged id' ∨ id' = id ∧ st.matched id uri := by
  rw [Stored.purged_iff, Stored.places_mark] at h
  obtain ⟨p', hp', hid, hpurged⟩ := h
  obtain ⟨p, hp, ⟨hat, rfl⟩ | ⟨-, rfl⟩⟩ := mem_markPlaces.mp hp'
  · rw [Stored.matched_eq]
    exact .inr ⟨hid.symm.trans (Place.stillAt_iff.mp hat).1, any_eq_true.mpr ⟨p, hp, hat⟩⟩
  · exact .inl (Stored.purged_iff.mpr ⟨p', hp, hid, hpurged⟩)

/-! ## The invariant -/

/-- A row of a purged recording is the sweep's to delete. -/
structure Clearing (st : Stored) (w : Sweeper) : Prop where
  commands : ∀ row ∈ st.commands, st.Purged row.recordingID → w.forgets row.recordingID
  output : ∀ row ∈ st.output, st.Purged row.recordingID → w.forgetsOutput row.recordingID

namespace Clearing

variable {st st' : Stored} {w w' : Sweeper} {g : Gateway}

theorem fewer (h : Clearing st w) (hst : st'.Fewer st) : Clearing st' w where
  commands := fun row hrow hpurged =>
    h.commands row (hst.commands row hrow) (hst.purged _ hpurged)
  output := fun row hrow hpurged => h.output row (hst.output row hrow) (hst.purged _ hpurged)

/-- The sweep goes on, from where what it has to delete is not in the index. -/
theorem goesOn (h : Clearing st w) (hnone : ∀ id, w.forgetsOutput id → st.HasNoRow id) :
    Clearing st w' := by
  have hboth : ∀ id, w.forgets id → w.forgetsOutput id := by
    cases w with
    | forgettingOutput => exact fun _ => False.elim
    | _ => exact fun _ h => h
  constructor
  · intro row hrow hpurged
    have hforgets := h.commands row hrow hpurged
    exact absurd rfl ((hnone _ (hboth _ hforgets)).1 row hrow)
  · intro row hrow hpurged
    have hforgets := h.output row hrow hpurged
    exact absurd rfl ((hnone _ hforgets).2 row hrow)

theorem sweep {purges purges' : List Purge} {now : Int} (h : Clearing st w)
    (hcond : SweepsInTime st o w)
    (hstep : sweepStep g st purges now o w = some (st', purges', w')) :
    Clearing st' w' := by
  cases w with
  | idle => cases hstep
  | deleting c reason rest =>
    have hsame : Clearing st w' := h.goesOn fun _ => False.elim
    have hblobs : ∀ blobs, Stored.Fewer { st with blobs := blobs } st := fun _ =>
      .of_places rfl rfl rfl
    cases o with
    | ok =>
      simp only [sweepStep] at hstep
      split at hstep <;> cases hstep
      exact hsame.fewer (hblobs _)
    | failed applied =>
      cases hstep
      refine hsame.fewer ?_
      split
      · exact Outcome.write_of (P := (Stored.Fewer · st)) (hblobs _) .rfl _
      · exact .rfl
  | marking c reason rest =>
    -- what is purged afterwards was so before, when nothing was; or it is the candidate
    have hold : ∀ row ∈ st.commands, ¬st.Purged row.recordingID := h.commands
    have hold' : ∀ row ∈ st.output, ¬st.Purged row.recordingID := h.output
    cases hany : st.matched c.id c.uri with
    | false =>
      have hfewer : Stored.Fewer (o.write (·.mark c.id c.uri now) st) st := by
        refine Outcome.write_of (P := (Stored.Fewer · st)) ⟨fun _ h => h, fun _ h => h, ?_⟩ .rfl o
        intro id hid
        exact (Stored.purged_mark hid).resolve_right fun hmark =>
          Bool.noConfusion (hmark.2.symm.trans hany)
      cases hstep
      exact (h.goesOn fun _ => False.elim).fewer hfewer
    | true =>
      have hmarked : Clearing (st.mark c.id c.uri now) (.forgetting c reason rest) := by
        constructor
        · intro row hrow hpurged
          exact ((Stored.purged_mark hpurged).resolve_left (hold row hrow)).1.symm
        · intro row hrow hpurged
          exact ((Stored.purged_mark hpurged).resolve_left (hold' row hrow)).1.symm
      cases o with
      | ok =>
        simp only [sweepStep, hany] at hstep
        cases hstep
        exact hmarked
      | failed applied =>
        cases hstep
        -- a failed mark goes on to the next candidate: its rows must be none
        have hnone := hcond.resolve_left (nomatch ·)
        cases applied with
        | false => exact h.goesOn fun _ => False.elim
        | true => exact hmarked.goesOn fun _ hid => hid ▸ hnone
  | forgetting c reason rest =>
    cases o with
    | ok =>
      cases hstep
      constructor
      · intro row hrow hpurged
        obtain ⟨hrow, hne⟩ := mem_filter.mp hrow
        exact absurd (h.commands row hrow hpurged).symm (of_decide_eq_true hne)
      · intro row hrow hpurged
        exact h.output row hrow hpurged
    | failed applied =>
      cases hstep
      have hnone : Clearing st (.proceed rest) :=
        h.goesOn fun _ hid => hid ▸ hcond.resolve_left (nomatch ·)
      refine hnone.fewer (Outcome.write_of (P := (Stored.Fewer · st)) ?_ .rfl _)
      exact ⟨fun row hrow => (mem_filter.mp hrow).1, fun _ h => h, fun _ h => h⟩
  | forgettingOutput c reason rest =>
    cases o with
    | ok =>
      cases hstep
      constructor
      · intro row hrow hpurged
        exact (h.commands row hrow hpurged).elim
      · intro row hrow hpurged
        obtain ⟨hrow, hne⟩ := mem_filter.mp hrow
        exact absurd (h.output row hrow hpurged).symm (of_decide_eq_true hne)
    | failed applied =>
      cases hstep
      have hnone : Clearing st (.proceed rest) :=
        h.goesOn fun _ hid => hid ▸ hcond.resolve_left (nomatch ·)
      refine hnone.fewer (Outcome.write_of (P := (Stored.Fewer · st)) ?_ .rfl _)
      exact ⟨fun _ h => h, fun row hrow => (mem_filter.mp hrow).1, fun _ h => h⟩
  | auditing c reason rest =>
    cases hstep
    exact h.goesOn fun _ => False.elim

theorem index {x x' : Indexer} (h : Clearing st w) (hcond : IndexesInTime st w x)
    (hstep : indexStep g st o x = some (st', x')) : Clearing st' w := by
  cases x with
  | idle => cases hstep
  | listing | reading =>
    cases hstep
    exact h
  | clearing =>
    cases hstep
    refine Outcome.write_of (P := (Clearing · w)) (h.fewer ?_) h o
    exact ⟨fun _ h => h, fun _ h => (nomatch h),
      fun _ => Stored.purged_of_places (Stored.places_forgetAllOutput ..)⟩
  | storing output u markers printed rest =>
    cases hstep
    refine Outcome.write_of (P := (Clearing · w)) ?_ h o
    have hpurged : ∀ id, (st.indexCommands u.id markers).Purged id → st.Purged id := fun _ =>
      Stored.purged_of_places (Stored.places_indexCommands ..)
    constructor
    · intro row hrow hid
      rcases mem_append.mp hrow with hrow | hrow
      · exact h.commands row (mem_filter.mp hrow).1 (hpurged _ hid)
      · have hrowid := recordingID_of_mem_commandRows hrow
        rw [hrowid] at hid ⊢
        rcases hcond (hpurged _ hid) with hnone | hforgets
        · rw [hnone] at hrow
          cases hrow
        · exact hforgets
    · intro row hrow hid
      exact h.output row hrow (hpurged _ hid)
  | storingOutput output u printed rest =>
    cases hstep
    refine Outcome.write_of (P := (Clearing · w)) ?_ h o
    have hpurged : ∀ id, (st.indexOutput u.id printed).Purged id → st.Purged id := fun _ =>
      Stored.purged_of_places (Stored.places_indexOutput ..)
    constructor
    · intro row hrow hid
      exact h.commands row hrow (hpurged _ hid)
    · intro row hrow hid
      rcases mem_append.mp hrow with hrow | hrow
      · exact h.output row (mem_filter.mp hrow).1 (hpurged _ hid)
      · have hrowid := recordingID_of_mem_outputRows hrow
        rw [hrowid] at hid ⊢
        rcases hcond (hpurged _ hid) with hnone | hforgets
        · rw [hnone] at hrow
          cases hrow
        · exact hforgets

/-- **One step** that meets the condition. -/
theorem step {s t : State} {l : Label} (hcond : StoresInTime s l)
    (h : Clearing s.stored s.sweeper) (hstep : Session.step g s l = some t) :
    Clearing t.stored t.sweeper := by
  cases l <;> simp only [Session.step] at hstep
  case startMove | startPass =>
    split at hstep <;> cases hstep
    exact h
  case move o =>
    obtain ⟨⟨st', m'⟩, hmove, rfl⟩ := Option.map_eq_some_iff.mp hstep
    exact h.fewer (fewer_moveStep hmove)
  case copyBreaks n uploaded =>
    split at hstep <;> cases hstep
    refine h.fewer ?_
    dsimp only
    split
    · exact .of_places rfl rfl rfl
    · exact .rfl
  case startSweep p now =>
    split at hstep <;> cases hstep
    rename_i hw
    rw [hw] at h
    exact h.goesOn fun _ => False.elim
  case sweep now o =>
    obtain ⟨⟨st', ps', w'⟩, hsweep, rfl⟩ := Option.map_eq_some_iff.mp hstep
    exact h.sweep hcond hsweep
  case index o =>
    obtain ⟨⟨st', x'⟩, hindex, rfl⟩ := Option.map_eq_some_iff.mp hstep
    exact h.index hcond hindex

end Clearing

/-! ## Runs -/

/-- **The index goes with the recordings.** In every interleaving whose steps meet the condition,
no row of the command index or the output index belongs to a purged recording once the sweep is
done. -/
theorem index_is_cleared (g : Gateway) {st : Stored} (hst : st.Clear) {ls : List Label}
    {t : State} (hrun : RunWhere (step g) StoresInTime (State.start st) ls t)
    (hsweeper : t.sweeper = .idle) : t.stored.Clear := by
  have h := hrun.keeps (fun u => Clearing u.stored u.sweeper)
    (fun _ _ _ hcond hu hstep => hu.step hcond hstep)
    ⟨fun row hrow hpurged => (hst.1 row hrow hpurged).elim,
      fun row hrow hpurged => (hst.2 row hrow hpurged).elim⟩
  rw [hsweeper] at h
  exact ⟨h.commands, h.output⟩

/-- A terminal recording nothing was read of yet. -/
def unreadCast : Recording :=
  ⟨"r1", "asciicast", .file "s1.cast", 2, "", some 0, none, none, false, false⟩

def oneUnread : Stored where
  recordings := ⟨[unreadCast], nodup_singleton _⟩
  blobs := Function.update (fun _ => none) (.file "s1.cast") (some (lit "x"))
  commands := []
  output := []

/-- A file in which one command and one line are found. -/
def oneCommand : Gateway :=
  ⟨⟨"bucket", "recordings/"⟩, fun _ => "", fun _ _ => some ([⟨0, lit "ls"⟩], [⟨0, lit "README"⟩])⟩

theorem oneUnread_clear : oneUnread.Clear := ⟨fun _ h => (nomatch h), fun _ h => (nomatch h)⟩

/-- A sweep that removes what is older than a day, on the second day. -/
def sweepAll : List Label :=
  .startSweep ⟨1, 0⟩ (2 * day) :: replicate 5 (.sweep (2 * day) .ok)

/-- The pass is done before the sweep starts: what it stored goes. -/
theorem index_is_cleared_in_turn :
    ∃ t, RunWhere (step oneCommand) StoresInTime (State.start oneUnread)
        (.startPass true :: replicate 4 (.index .ok) ++ sweepAll) t ∧
      t.stored.Purged "r1" ∧ t.stored.Clear :=
  RunWhere.exists_of_decide (P := fun t => t.sweeper = .idle ∧ t.stored.Purged "r1")
    (by decide +kernel) fun _ hrun ht =>
      ⟨ht.2, index_is_cleared oneCommand oneUnread_clear hrun ht.1⟩

/-- The pass reads the recording, the sweep removes it and its index, and the pass stores what it
read: nothing failed, both are done, and the index has rows of a purged recording. -/
theorem indexed_after_purge :
    ∃ t, Run (step oneCommand) (State.start oneUnread)
        (.startPass true :: replicate 2 (.index .ok) ++ sweepAll ++
          replicate 2 (.index .ok)) t ∧
      oneUnread.Clear ∧ t.sweeper = .idle ∧ t.indexer = .idle ∧
      (∃ row ∈ t.stored.commands, t.stored.Purged row.recordingID) ∧
      ∃ row ∈ t.stored.output, t.stored.Purged row.recordingID :=
  Run.exists_of_decide (by decide +kernel) fun _ _ h => ⟨oneUnread_clear, h⟩

end Zanskar.Session
