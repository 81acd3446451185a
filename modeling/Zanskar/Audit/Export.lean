import Zanskar.Audit.Log
import Zanskar.Lib.Delivery
import Zanskar.Lib.Machine

/-!
# Export to a sink (`internal/audit/export.go`, `internal/audit/store.go`)

`Flush` reads the sink's checkpoint, then lists, sends and saves a page at a time. Each of these
is a step here, with the events recorded meanwhile between any two of them. A `Send` that fails
may have taken a front of the page, as the syslog sink writes one event after the other; a save
that fails may have reached the database; and the process may stop at any point.

The page size plays no part in `export_is_gapless`: a page that the reader cuts at `maxListLimit`
ends the flush early, and the next one goes on behind it.

Sinks advance independently, each by the row with its own name; this is the one of one sink.
-/

namespace Zanskar.Audit

open Go List
open Lib (Ordered InOrder Run RunWhere)

/-! ## The feed and the checkpoint -/

def maxListLimit : Nat := 500

/-- How many rows a list with this limit reads at most. -/
def listLimit (limit : Int) : Nat :=
  if limit ≤ 0 ∨ limit > maxListLimit then maxListLimit else limit.toNat

/-- `ListAfter`: up to `limit` events behind an id, in order. -/
def listAfter (events : Ordered Event.id) (afterID limit : Int) : List Event :=
  (events.after afterID).take (listLimit limit)

/-- `ExportCheckpoint`, of the sink's row in `audit_export_state`. -/
def exportCheckpoint (row : Option Int) : Int := row.getD 0

/-- `SaveExportCheckpoint`: the row is updated, or inserted where there is none. -/
def saveExportCheckpoint (_ : Option Int) (lastID : Int) : Option Int := some lastID

theorem listLimit_pos (limit : Int) : 0 < listLimit limit := by
  unfold listLimit
  split
  · decide
  · omega

theorem listAfter_eq_nil {events : Ordered Event.id} {afterID limit : Int} :
    listAfter events afterID limit = [] ↔ events.after afterID = [] := by
  have hpos := listLimit_pos limit
  unfold listAfter
  rw [take_eq_nil_iff]
  constructor
  · rintro (h | h)
    · omega
    · exact h
  · exact Or.inr

/-! ## The steps of a flush -/

/-- Where a flush stands: between flushes; `last` to list behind; a page to send; a page sent,
whose last id is to be saved. -/
inductive ExportPhase where
  | idle
  | ready (last : Int)
  | sending (last : Int) (batch : List Event)
  | saving (last : Int) (batch : List Event)

structure ExportState where
  db : Db
  /-- The sink's row in `audit_export_state`. -/
  checkpoint : Option Int
  phase : ExportPhase
  /-- What the sink has accepted, in the order it did. -/
  accepted : List Event

/-- No events, nothing exported. -/
def ExportState.initial : ExportState := ⟨.empty, none, .idle, []⟩

/-- Steps. A failing send has taken the first `taken` events; a failing save may be applied. -/
inductive ExportLabel where
  | record (c : RecordCall)
  | start
  | list
  | send
  | sendFails (taken : Nat)
  | save
  | saveFails (applied : Bool)
  | restart

/-- A step of a flush in which nothing fails. -/
def ExportLabel.succeeds : ExportLabel → Bool
  | .start | .list | .send | .save => true
  | _ => false

/-- The effective `BatchSize`. -/
def exportSize (batchSize : Int) : Int := if batchSize ≤ 0 then 200 else batchSize

/-- The last id of a page. -/
def lastID (batch : List Event) (otherwise : Int) : Int :=
  (batch.getLast?.map Event.id).getD otherwise

def exportStep (sha256 : Bytes → Digest) (batchSize : Int) (s : ExportState) :
    ExportLabel → Option ExportState
  | .record c =>
    match record sha256 s.db c with
    | .ok (_, db) => some { s with db := db }
    | .error _ => some s
  | .start =>
    match s.phase with
    | .idle => some { s with phase := .ready (exportCheckpoint s.checkpoint) }
    | _ => none
  | .list =>
    match s.phase with
    | .ready last =>
      let batch := listAfter s.db.events last (exportSize batchSize)
      some { s with phase := if batch = [] then .idle else .sending last batch }
    | _ => none
  | .send =>
    match s.phase with
    | .sending last batch =>
      some { s with phase := .saving last batch, accepted := s.accepted ++ batch }
    | _ => none
  | .sendFails taken =>
    match s.phase with
    | .sending _ batch =>
      some { s with phase := .idle, accepted := s.accepted ++ batch.take taken }
    | _ => none
  | .save =>
    match s.phase with
    | .saving last batch =>
      some { s with
        checkpoint := saveExportCheckpoint s.checkpoint (lastID batch last)
        phase :=
          if (batch.length : Int) < exportSize batchSize then .idle
          else .ready (lastID batch last) }
    | _ => none
  | .saveFails applied =>
    match s.phase with
    | .saving last batch =>
      some { s with
        checkpoint :=
          if applied then saveExportCheckpoint s.checkpoint (lastID batch last) else s.checkpoint
        phase := .idle }
    | _ => none
  | .restart => some { s with phase := .idle }

/-! ## The invariant -/

/-- Every event up to an id was accepted, and ids are handed out behind it. -/
structure AcceptedTo (db : Db) (accepted : List Event) (last : Int) : Prop where
  accepted : ∀ e ∈ db.events.rows, e.id ≤ last → e ∈ accepted
  issued : last ≤ db.eventSeq

/-- A page read behind `last`, everything up to which was accepted. -/
structure PageOf (db : Db) (accepted : List Event) (last : Int) (batch : List Event) : Prop where
  before : AcceptedTo db accepted last
  nonempty : batch ≠ []
  page : batch <+: db.events.after last

/-- What is known where a flush stands. -/
def PhaseInv (db : Db) (accepted : List Event) : ExportPhase → Prop
  | .idle => True
  | .ready last => AcceptedTo db accepted last
  | .sending last batch => PageOf db accepted last batch
  | .saving last batch => PageOf db accepted last batch ∧ ∀ e ∈ batch, e ∈ accepted

structure ExportInv (s : ExportState) : Prop where
  ids : ∀ e ∈ s.db.events.rows, 0 < e.id ∧ e.id ≤ s.db.eventSeq
  seq : 0 ≤ s.db.eventSeq
  checkpoint : AcceptedTo s.db s.accepted (exportCheckpoint s.checkpoint)
  inOrder : InOrder s.db.events.rows s.accepted
  phase : PhaseInv s.db s.accepted s.phase

theorem ExportInv.initial : ExportInv .initial where
  ids := fun _ he => absurd he not_mem_nil
  seq := le_rfl
  checkpoint := ⟨fun _ he => absurd he not_mem_nil, le_rfl⟩
  inOrder := InOrder.nil _
  phase := trivial

theorem nodup_rows (events : Ordered Event.id) : events.rows.Nodup :=
  List.Nodup.of_map _ events.nodup_keys

theorem split_at_id {rows : List Event} (hsorted : rows.Pairwise fun e e' => e.id < e'.id)
    (last : Int) :
    rows = rows.filter (fun e => decide (e.id ≤ last)) ++
      rows.filter fun e => decide (last < e.id) := by
  induction rows with
  | nil => rfl
  | cons e rows ih =>
    obtain ⟨hhead, htail⟩ := pairwise_cons.mp hsorted
    by_cases hle : e.id ≤ last
    · rw [filter_cons_of_pos (by simpa using hle),
        filter_cons_of_neg (by simpa using hle), cons_append, ← ih htail]
    · -- behind the first such event everything is
      have hall : ∀ e' ∈ e :: rows, last < e'.id :=
        forall_mem_cons.mpr ⟨not_le.mp hle, fun e' he' => (not_le.mp hle).trans (hhead e' he')⟩
      rw [filter_eq_nil_iff.mpr fun e' he' => by simpa using hall e' he',
        filter_eq_self.mpr fun e' he' => decide_eq_true (hall e' he'), nil_append]

theorem rows_split (events : Ordered Event.id) (last : Int) :
    events.rows = events.rows.filter (fun e => decide (e.id ≤ last)) ++ events.after last :=
  split_at_id events.sorted last

variable {db : Db} {accepted : List Event} {last : Int} {batch : List Event} {db' : Db}
  {row : Event} {sha256 : Bytes → Digest} {c : RecordCall} {e : Event} {s t : ExportState}
  {lbl : ExportLabel} {batchSize : Int}

/-- A front of a page is accepted: the order is kept. -/
theorem PageOf.deliver (h : PageOf db accepted last batch) {front : List Event}
    (hfront : front <+: batch) (hinOrder : InOrder db.events.rows accepted) :
    InOrder db.events.rows (accepted ++ front) := by
  obtain ⟨rest, hrest⟩ := hfront.trans h.page
  have hrows := rows_split db.events last
  rw [← hrest, ← append_assoc] at hrows
  have hnodup := nodup_rows db.events
  rw [hrows] at hinOrder hnodup ⊢
  refine hinOrder.deliver hnodup fun e he => ?_
  obtain ⟨hmem, hle⟩ := mem_filter.mp he
  exact h.before.accepted e hmem (by simpa using hle)

theorem PageOf.exists_last (h : PageOf db accepted last batch) :
    ∃ page e rest, batch = page ++ [e] ∧ lastID batch last = e.id ∧
      db.events.after last = page ++ [e] ++ rest := by
  obtain ⟨rest, hrest⟩ := h.page
  rcases eq_nil_or_concat' batch with hnil | ⟨page, e, hpage⟩
  · exact absurd hnil h.nonempty
  · refine ⟨page, e, rest, hpage, ?_, ?_⟩
    · rw [lastID, hpage, getLast?_concat]
      rfl
    · rw [← hrest, hpage]

/-- Once a page was accepted, everything up to its last id was. -/
theorem PageOf.acceptedTo (h : PageOf db accepted last batch)
    (hids : ∀ e ∈ db.events.rows, 0 < e.id ∧ e.id ≤ db.eventSeq)
    (hall : ∀ e ∈ batch, e ∈ accepted) : AcceptedTo db accepted (lastID batch last) := by
  obtain ⟨page, e, rest, hbatch, hlast, hafter⟩ := h.exists_last
  rw [hlast]
  constructor
  · intro e' he' hle
    rw [rows_split db.events last] at he'
    rcases mem_append.mp he' with hold | hnew
    · obtain ⟨hrow, hbefore⟩ := mem_filter.mp hold
      exact h.before.accepted e' hrow (by simpa using hbefore)
    · -- behind `last`, and not behind the page
      have hpage : e' ∈ page ++ [e] := by
        rw [hafter] at hnew
        rcases mem_append.mp hnew with hp | hr
        · exact hp
        · have hbehind : e' ∈ db.events.after e.id := by
            rw [db.events.after_key hafter]
            exact hr
          have := of_decide_eq_true (mem_filter.mp hbehind).2
          omega
      exact hall e' (hbatch ▸ hpage)
  · have hmem : e ∈ db.events.after last := by simp [hafter]
    exact (hids e (mem_filter.mp hmem).1).2

/-! ## What a step keeps -/

theorem AcceptedTo.more (h : AcceptedTo db accepted last) (page : List Event) :
    AcceptedTo db (accepted ++ page) last :=
  ⟨fun e he hle => mem_append_left _ (h.accepted e he hle), h.issued⟩

/-- An event recorded comes behind every id in use. -/
theorem AcceptedTo.recorded (h : AcceptedTo db accepted last)
    (hrows : db'.events.rows = db.events.rows ++ [row]) (hseq : db'.eventSeq = row.id)
    (hnew : db.eventSeq < row.id) : AcceptedTo db' accepted last := by
  have hissued := h.issued
  constructor
  · intro e he hle
    rw [hrows] at he
    rcases mem_append.mp he with hold | hadded
    · exact h.accepted e hold hle
    · rw [mem_singleton.mp hadded] at hle
      omega
  · omega

theorem PageOf.recorded (h : PageOf db accepted last batch)
    (hrows : db'.events.rows = db.events.rows ++ [row]) (hseq : db'.eventSeq = row.id)
    (hnew : db.eventSeq < row.id) : PageOf db' accepted last batch := by
  refine ⟨h.before.recorded hrows hseq hnew, h.nonempty, h.page.trans ?_⟩
  rw [Ordered.after, Ordered.after, hrows, filter_append]
  exact prefix_append _ _

/-- `Record` adds a row behind every id handed out. -/
theorem record_appends (h : record sha256 db c = .ok (e, db')) :
    ∃ row, db'.events.rows = db.events.rows ++ [row] ∧ db'.eventSeq = row.id ∧
      db.eventSeq < row.id := by
  obtain ⟨hash, -, hrows, -, hseq, -, -⟩ := record_ok h
  refine ⟨_, hrows, hseq, ?_⟩
  show db.eventSeq < db.eventSeq + 1 + c.skipped
  omega

theorem ExportInv.record (h : ExportInv s) (hrec : Audit.record sha256 s.db c = .ok (e, db')) :
    ExportInv { s with db := db' } := by
  obtain ⟨row, hrows, hseq, hnew⟩ := record_appends hrec
  have hpos := h.seq
  refine ⟨?_, ?_, h.checkpoint.recorded hrows hseq hnew, ?_, ?_⟩
  · intro e' he'
    change e' ∈ db'.events.rows at he'
    show 0 < e'.id ∧ e'.id ≤ db'.eventSeq
    rw [hrows] at he'
    rcases mem_append.mp he' with hold | hadded
    · have := h.ids e' hold
      omega
    · rw [mem_singleton.mp hadded]
      omega
  · show 0 ≤ db'.eventSeq
    omega
  · show InOrder db'.events.rows s.accepted
    rw [hrows]
    exact h.inOrder.grow _
  · have hphase := h.phase
    show PhaseInv db' s.accepted s.phase
    generalize s.phase = phase at hphase ⊢
    cases phase with
    | idle => trivial
    | ready last => exact AcceptedTo.recorded hphase hrows hseq hnew
    | sending last batch => exact PageOf.recorded hphase hrows hseq hnew
    | saving last batch => exact ⟨hphase.1.recorded hrows hseq hnew, hphase.2⟩

/-- What a step does. -/
inductive Exported (sha256 : Bytes → Digest) (batchSize : Int) (s : ExportState) :
    ExportLabel → ExportState → Prop
  | recorded {c : RecordCall} {e : Event} {db : Db} (hrec : record sha256 s.db c = .ok (e, db)) :
      Exported sha256 batchSize s (.record c) { s with db := db }
  | refused (c : RecordCall) : Exported sha256 batchSize s (.record c) s
  | start (hphase : s.phase = .idle) :
      Exported sha256 batchSize s .start
        { s with phase := .ready (exportCheckpoint s.checkpoint) }
  | done {last : Int} (hphase : s.phase = .ready last)
      (hnil : listAfter s.db.events last (exportSize batchSize) = []) :
      Exported sha256 batchSize s .list { s with phase := .idle }
  | page {last : Int} (hphase : s.phase = .ready last)
      (hpage : listAfter s.db.events last (exportSize batchSize) ≠ []) :
      Exported sha256 batchSize s .list
        { s with phase := .sending last (listAfter s.db.events last (exportSize batchSize)) }
  | send {last : Int} {batch : List Event} (hphase : s.phase = .sending last batch) :
      Exported sha256 batchSize s .send
        { s with phase := .saving last batch, accepted := s.accepted ++ batch }
  | sendFails {last : Int} {batch : List Event} (taken : Nat)
      (hphase : s.phase = .sending last batch) :
      Exported sha256 batchSize s (.sendFails taken)
        { s with phase := .idle, accepted := s.accepted ++ batch.take taken }
  | save {last : Int} {batch : List Event} (hphase : s.phase = .saving last batch) :
      Exported sha256 batchSize s .save
        { s with
          checkpoint := some (lastID batch last)
          phase :=
            if (batch.length : Int) < exportSize batchSize then .idle
            else .ready (lastID batch last) }
  | saveFails {last : Int} {batch : List Event} (applied : Bool)
      (hphase : s.phase = .saving last batch) :
      Exported sha256 batchSize s (.saveFails applied)
        { s with
          checkpoint := if applied then some (lastID batch last) else s.checkpoint
          phase := .idle }
  | restart : Exported sha256 batchSize s .restart { s with phase := .idle }

/-- What a step does. -/
theorem exportStep_spec
    (h : exportStep sha256 batchSize s lbl = some t) : Exported sha256 batchSize s lbl t := by
  cases lbl <;> simp only [exportStep] at h
  case record c =>
    split at h
    · rename_i hrec
      cases h
      exact .recorded hrec
    · cases h
      exact .refused c
  case list =>
    split at h <;> cases h
    rename_i last hphase
    by_cases hnil : listAfter s.db.events last (exportSize batchSize) = []
    · rw [if_pos hnil]
      exact .done hphase hnil
    · rw [if_neg hnil]
      exact .page hphase hnil
  case restart =>
    cases h
    exact .restart
  all_goals
    split at h <;> cases h
    rename_i hphase
    constructor
    exact hphase

/-- **One step** of the exporter. -/
theorem ExportInv.step
    (h : ExportInv s) (hstep : exportStep sha256 batchSize s lbl = some t) : ExportInv t := by
  have hphase := h.phase
  cases exportStep_spec hstep with
  | recorded hrec => exact h.record hrec
  | refused c => exact h
  | start _ => exact ⟨h.ids, h.seq, h.checkpoint, h.inOrder, h.checkpoint⟩
  | done | restart => exact ⟨h.ids, h.seq, h.checkpoint, h.inOrder, trivial⟩
  | page hp hpage =>
    rw [hp] at hphase
    exact ⟨h.ids, h.seq, h.checkpoint, h.inOrder, hphase, hpage, take_prefix _ _⟩
  | @send last batch hp =>
    rw [hp] at hphase
    refine ⟨h.ids, h.seq, h.checkpoint.more _, hphase.deliver prefix_rfl h.inOrder,
      ⟨hphase.before.more _, hphase.nonempty, hphase.page⟩, fun e he => ?_⟩
    exact mem_append_right _ he
  | @sendFails last batch taken hp =>
    rw [hp] at hphase
    have hfront := take_prefix taken batch
    exact ⟨h.ids, h.seq, h.checkpoint.more _, hphase.deliver hfront h.inOrder, trivial⟩
  | @save last batch hp =>
    rw [hp] at hphase
    have hnext := hphase.1.acceptedTo h.ids hphase.2
    refine ⟨h.ids, h.seq, hnext, h.inOrder, ?_⟩
    show PhaseInv s.db s.accepted (if _ then _ else _)
    split
    · trivial
    · exact hnext
  | @saveFails last batch applied hp =>
    rw [hp] at hphase
    have hnext := hphase.1.acceptedTo h.ids hphase.2
    refine ⟨h.ids, h.seq, ?_, h.inOrder, trivial⟩
    cases applied with
    | true => exact hnext
    | false => exact h.checkpoint

theorem ExportInv.run {ls : List ExportLabel}
    (hrun : Run (exportStep sha256 batchSize) s ls t) (h : ExportInv s) : ExportInv t :=
  hrun.keeps ExportInv (fun _ _ _ _ hm hstep => hm.step hstep) h

/-! ## Progress -/

/-- Steps that succeed lead from `s` to a state with the same log, all of it accepted. -/
def Delivers (sha256 : Bytes → Digest) (batchSize : Int) (s : ExportState) : Prop :=
  ∃ ls t, (∀ l ∈ ls, l.succeeds = true) ∧ Run (exportStep sha256 batchSize) s ls t ∧
    t.db = s.db ∧ ∀ e ∈ t.db.events.rows, e ∈ t.accepted

theorem Delivers.cons
    (hlbl : lbl.succeeds) (hstep : exportStep sha256 batchSize s lbl = some t)
    (hdb : t.db = s.db) (h : Delivers sha256 batchSize t) : Delivers sha256 batchSize s := by
  obtain ⟨ls, u, hls, hrun, hu, hall⟩ := h
  exact ⟨lbl :: ls, u, forall_mem_cons.mpr ⟨hlbl, hls⟩, RunWhere.cons trivial hstep hrun,
    hu.trans hdb, hall⟩

/-- A page that is saved leaves fewer events to list, and the flush ready to list them, at once
or after the next read of the checkpoint. -/
theorem delivers_of_saving
    (hs : s.phase = .saving last batch) (hpage : PageOf s.db s.accepted last batch)
    (hready : ∀ (t : ExportState) (next : Int), t.db = s.db → t.accepted = s.accepted →
      t.phase = .ready next → next = lastID batch last →
      (s.db.events.after next).length < (s.db.events.after last).length →
      Delivers sha256 batchSize t) : Delivers sha256 batchSize s := by
  obtain ⟨page, e, rest, hbatch, hlast, hafter⟩ := hpage.exists_last
  have hfewer : (s.db.events.after (lastID batch last)).length <
      (s.db.events.after last).length := by
    rw [hlast, s.db.events.after_key hafter, hafter, length_append, length_append, length_singleton]
    omega
  have hsave : exportStep sha256 batchSize s .save = some { s with
      checkpoint := some (lastID batch last)
      phase :=
        if (batch.length : Int) < exportSize batchSize then .idle
        else .ready (lastID batch last) } := by
    simp only [exportStep, hs]
    rfl
  refine Delivers.cons rfl hsave rfl ?_
  split
  · -- a short page ends the flush: the next one reads the checkpoint
    have hstart : exportStep sha256 batchSize
        { s with checkpoint := some (lastID batch last), phase := .idle } .start =
        some { s with
          checkpoint := some (lastID batch last), phase := .ready (lastID batch last) } := rfl
    exact Delivers.cons rfl hstart rfl (hready _ _ rfl rfl rfl rfl hfewer)
  · exact hready _ _ rfl rfl rfl rfl hfewer

theorem delivers_of_sending
    (hs : s.phase = .sending last batch) (hpage : PageOf s.db s.accepted last batch)
    (hids : ∀ e ∈ s.db.events.rows, 0 < e.id ∧ e.id ≤ s.db.eventSeq)
    (hready : ∀ (t : ExportState) (next : Int), t.db = s.db → t.phase = .ready next →
      AcceptedTo t.db t.accepted next →
      (s.db.events.after next).length < (s.db.events.after last).length →
      Delivers sha256 batchSize t) : Delivers sha256 batchSize s := by
  have hsend : exportStep sha256 batchSize s .send =
      some { s with phase := .saving last batch, accepted := s.accepted ++ batch } := by
    simp [exportStep, hs]
  have hsent : PageOf s.db (s.accepted ++ batch) last batch :=
    ⟨hpage.before.more _, hpage.nonempty, hpage.page⟩
  refine Delivers.cons rfl hsend rfl (delivers_of_saving rfl hsent ?_)
  intro t next hdb hacc hphase hnext hfewer
  refine hready t next hdb hphase ?_ hfewer
  rw [hdb, hacc, hnext]
  exact hsent.acceptedTo hids fun e he => mem_append_right _ he

/-- From a flush that is ready to list, by the number of events behind. -/
theorem delivers_of_ready {n : Nat} (hids : ∀ e ∈ s.db.events.rows, 0 < e.id ∧ e.id ≤ s.db.eventSeq)
    (hs : s.phase = .ready last) (hready : AcceptedTo s.db s.accepted last)
    (hn : (s.db.events.after last).length ≤ n) : Delivers sha256 batchSize s := by
  induction n generalizing s last with
  | zero =>
    have hnil : s.db.events.after last = [] := length_eq_zero_iff.mp (by omega)
    refine ⟨[], s, fun _ hl => absurd hl not_mem_nil, .nil, rfl, fun e he => ?_⟩
    rw [rows_split s.db.events last, hnil, append_nil] at he
    obtain ⟨hrow, hle⟩ := mem_filter.mp he
    exact hready.accepted e hrow (by simpa using hle)
  | succ n ih =>
    by_cases hnil : listAfter s.db.events last (exportSize batchSize) = []
    · refine ih hids hs hready ?_
      rw [listAfter_eq_nil.mp hnil]
      exact Nat.zero_le n
    · have hlist : exportStep sha256 batchSize s .list = some { s with
          phase := .sending last (listAfter s.db.events last (exportSize batchSize)) } := by
        simp [exportStep, hs, if_neg hnil]
      refine Delivers.cons rfl hlist rfl (delivers_of_sending rfl
        ⟨hready, hnil, take_prefix _ _⟩ hids ?_)
      intro t next hdb hphase hacc hfewer
      change t.db = s.db at hdb
      change (s.db.events.after next).length < (s.db.events.after last).length at hfewer
      refine ih (hdb ▸ hids) hphase hacc ?_
      rw [hdb]
      omega

theorem ExportInv.delivers (h : ExportInv s) : Delivers sha256 batchSize s := by
  have hphase := h.phase
  cases hp : s.phase with
  | idle =>
    have hstart : exportStep sha256 batchSize s .start =
        some { s with phase := .ready (exportCheckpoint s.checkpoint) } := by
      simp [exportStep, hp]
    exact Delivers.cons rfl hstart rfl (delivers_of_ready h.ids rfl h.checkpoint le_rfl)
  | ready last =>
    rw [hp] at hphase
    exact delivers_of_ready h.ids hp hphase le_rfl
  | sending last batch =>
    rw [hp] at hphase
    refine delivers_of_sending hp hphase h.ids fun t next hdb ht hacc _ => ?_
    exact delivers_of_ready (hdb ▸ h.ids) ht hacc le_rfl
  | saving last batch =>
    rw [hp] at hphase
    refine delivers_of_saving hp hphase.1 fun t next hdb hacc ht hnext _ => ?_
    refine delivers_of_ready (hdb ▸ h.ids) ht ?_ le_rfl
    rw [hdb, hacc, hnext]
    exact hphase.1.acceptedTo h.ids hphase.2

/-- **Export without gaps.** In every run, whatever fails and whenever the process restarts:
every event up to the checkpoint was accepted; the accepted events, repetitions removed, are a
front of the log in the order of the ids; and from there, steps that succeed bring the sink to
have accepted the whole log. -/
theorem export_is_gapless (sha256 : Bytes → Digest) (batchSize : Int) {s : ExportState}
    {ls : List ExportLabel} (hrun : Run (exportStep sha256 batchSize) .initial ls s) :
    (∀ e ∈ s.db.events.rows, e.id ≤ exportCheckpoint s.checkpoint → e ∈ s.accepted) ∧
    s.accepted.eraseDups <+: s.db.events.rows ∧
    ∃ ls' t, (∀ l ∈ ls', l.succeeds = true) ∧ Run (exportStep sha256 batchSize) s ls' t ∧
      t.db = s.db ∧ t.accepted.eraseDups = s.db.events.rows := by
  have hinv := ExportInv.run hrun .initial
  refine ⟨hinv.checkpoint.accepted, hinv.inOrder, ?_⟩
  obtain ⟨ls', t, hls, hrun', hdb, hall⟩ : Delivers sha256 batchSize s := hinv.delivers
  refine ⟨ls', t, hls, hrun', hdb, ?_⟩
  have hdone := (ExportInv.run hrun' hinv).inOrder.eq_of_all (nodup_rows _) hall
  rwa [hdb] at hdone

/-- An event is recorded; a send fails after the sink took it, a second succeeds, and the
process stops before the checkpoint is saved. -/
def interruptedExport : List ExportLabel :=
  [.record ⟨eventWith 0 "", 0, 0, lit "\x7b\x7d"⟩, .start, .list, .sendFails 1, .start, .list, .send,
    .restart]

/-- Accepted twice, not yet past the checkpoint, and in order once the repetition is removed. -/
theorem export_is_gapless_interrupted :
    ∃ s, Run (exportStep zeroSum 200) .initial interruptedExport s ∧ s.accepted.length = 2 ∧
      s.checkpoint = none ∧ s.db.events.rows.length = 1 ∧
      s.accepted.eraseDups <+: s.db.events.rows :=
  Run.exists_of_decide (P := fun s => s.accepted.length = 2 ∧ s.checkpoint = none ∧
      s.db.events.rows.length = 1) (by decide +kernel) fun _ hrun ⟨htwice, hnone, hone⟩ =>
    ⟨htwice, hnone, hone, (export_is_gapless zeroSum 200 hrun).2.1⟩

end Zanskar.Audit
