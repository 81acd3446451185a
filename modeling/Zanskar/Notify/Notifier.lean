import Zanskar.Audit.Export

/-!
# Notification channels (`internal/notify`)

A channel is created in two writes: the handler stores it, enabled, and then `Start` reads the
newest event's id and saves it as the channel's checkpoint. The notifier meanwhile passes over
the channels and sends each one the events behind its checkpoint that it asked for. The steps of
both, of one channel, interleave here with the events recorded; any of them may fail, and a
flush that fails or is cut off by a restart stops where it is.

- `history_is_not_sent` : where the checkpoint is read only once there is one, no event from before
  the channel is sent.
- `history_is_sent` : a checkpoint that is not there yet reads as 0, the start of the log, and the
  pass goes on from there.

The wording of a message is left out: a message is the event it is about.
-/

namespace Zanskar.Notify

open Go Audit List
open Lib (Ordered Run RunWhere)

/-! ## What a channel asks for -/

/-- The kinds of event a channel can ask for. -/
inductive EventKind where
  | accessRequested
  | accessDecided
  | sessionTerminated
  | providerFailing
  | recordingLost
  | diskFull
  deriving DecidableEq

def EventKind.text : EventKind → String
  | .accessRequested => "access_requested"
  | .accessDecided => "access_decided"
  | .sessionTerminated => "session_terminated"
  | .providerFailing => "provider_failing"
  | .recordingLost => "recording_lost"
  | .diskFull => "disk_full"

/-- `detail`: a text in an event's details; empty where there is none. -/
def detail (e : Event) (key : String) : String :=
  match (parse e.details).bind (Json.mapM parseFloat goText) with
  | some (.obj ms) =>
    match Json.last ms key.toList with
    | some (.str t) => String.ofList t
    | _ => ""
  | _ => ""

/-- `kindOf`; nothing for an event no channel is told about. -/
def kindOf (e : Event) : Option EventKind :=
  if e.action = lit "access.request.create" then some .accessRequested
  else if e.action = lit "access.request.approve" ∨ e.action = lit "access.request.deny" ∨
      e.action = lit "access.request.revoke" then some .accessDecided
  else if e.action = lit "session.terminate" then some .sessionTerminated
  else if e.action = lit "idp.sync" then
    if e.outcome = lit "failure" then some .providerFailing else none
  else if e.action = lit "recording.lost" then some .recordingLost
  else if e.action = lit "session.connect" then
    if e.outcome = lit "failure" ∧ detail e "reason" = "disk_full" then some .diskFull else none
  else none

/-- `Channel`: the kinds it asked for, as stored. -/
structure Channel where
  events : List String

/-- `Wants`. -/
def Channel.wants (c : Channel) (k : EventKind) : Bool := c.events.contains k.text

/-- The events of a page the channel asked for, with their kinds. -/
def Channel.due (c : Channel) (page : List Event) : List (Event × EventKind) :=
  page.filterMap fun e => ((kindOf e).filter c.wants).map fun k => (e, k)

variable {e : Event} {page : List Event} {k : EventKind} {history : List Event}

theorem Channel.mem_of_mem_due {c : Channel} (h : (e, k) ∈ c.due page) : e ∈ page := by
  obtain ⟨e', he', hmap⟩ := mem_filterMap.mp h
  obtain ⟨k', -, heq⟩ := Option.map_eq_some_iff.mp hmap
  exact (Prod.mk.inj heq).1 ▸ he'

/-! ## The steps -/

/-- `maxPerPass`: how many messages a channel gets from one pass. -/
def maxPerPass : Nat := 20

/-- `batch`: how many events one read of the log takes. -/
def batch : Nat := 200

/-- A message: about an event of a kind, or saying how many events from this one on are left
out. -/
inductive Message where
  | about (e : Event) (k : EventKind)
  | summary (e : Event) (more : Nat)

/-- The event a message names. -/
def Message.event : Message → Event
  | .about e _ => e
  | .summary e _ => e

/-- Where the handler stands. -/
inductive Creating where
  | before
  | stored
  | starting (newest : Int)
  | done

/-- Where the notifier stands with the channel: between passes; the channel listed; ready to
list behind `last`; events of a page still due; an event's id to save; the page's last id to
save. `sent` counts the messages of the pass. -/
inductive Flush where
  | idle
  | listed
  | ready (last : Int) (sent : Nat)
  | sending (last : Int) (page : List Event) (due : List (Event × EventKind)) (sent : Nat)
  | savingEvent (last : Int) (page : List Event) (due : List (Event × EventKind)) (sent : Nat)
      (id : Int)
  | savingPage (last : Int) (page : List Event) (sent : Nat)

structure State where
  db : Db
  creating : Creating
  /-- The channel's row in `audit_export_state`. -/
  checkpoint : Option Int
  flush : Flush
  /-- What the channel was sent. -/
  sent : List Message
  /-- The events recorded before the channel was stored. -/
  history : List Event

/-- Before the channel is created. -/
def State.start (db : Db) : State := ⟨db, .before, none, .idle, [], []⟩

/-- Steps: of the log, of the handler, and of the notifier. A send that fails may have been
delivered, and a save that fails may have been applied. -/
inductive Label where
  | record (c : RecordCall)
  | create
  | newest
  | startFails
  | startSave
  | startSaveFails (applied : Bool)
  | pass
  | readCheckpoint
  | list
  | send
  | sendFails (delivered : Bool)
  | saveEvent
  | saveEventFails (applied : Bool)
  | savePage
  | savePageFails (applied : Bool)
  | stop

/-- `Newest`. -/
def newestID (events : Ordered Event.id) : Int := (events.newest.map Event.id).getD 0

/-- The message for the event that is due next, and where it leaves the flush. -/
def nextMessage (last : Int) (page : List Event) (e : Event) (k : EventKind)
    (rest : List (Event × EventKind)) (sent : Nat) : Message × Flush :=
  if sent = maxPerPass then (.summary e (rest.length + 1), .savingPage last page sent)
  else (.about e k, .savingEvent last page rest (sent + 1) e.id)

/-- The flush after its page is done. -/
def afterPage (last : Int) (page : List Event) (sent : Nat) : Flush :=
  if page.length < batch ∨ maxPerPass ≤ sent then .idle else .ready (lastID page last) sent

/-- The page whose last id is saved next: all that was due of it was sent, or summed up. -/
def Flush.finished : Flush → Option (Int × List Event × Nat)
  | .sending last page [] sent => some (last, page, sent)
  | .savingPage last page sent => some (last, page, sent)
  | _ => none

def step (sha256 : Bytes → Digest) (c : Channel) (s : State) : Label → Option State
  | .record call =>
    match Audit.record sha256 s.db call with
    | .ok (_, db) => some { s with db := db }
    | .error _ => some s
  | .create =>
    match s.creating with
    | .before => some { s with creating := .stored, history := s.db.events.rows }
    | _ => none
  | .newest =>
    match s.creating with
    | .stored => some { s with creating := .starting (newestID s.db.events) }
    | _ => none
  | .startFails =>
    match s.creating with
    | .stored => some { s with creating := .done }
    | _ => none
  | .startSave =>
    match s.creating with
    | .starting newest =>
      some { s with
        creating := .done
        checkpoint := saveExportCheckpoint s.checkpoint newest }
    | _ => none
  | .startSaveFails applied =>
    match s.creating with
    | .starting newest =>
      some { s with
        creating := .done
        checkpoint :=
          if applied then saveExportCheckpoint s.checkpoint newest else s.checkpoint }
    | _ => none
  | .pass =>
    match s.flush, s.creating with
    | .idle, .before => none
    | .idle, _ => if c.events = [] then none else some { s with flush := .listed }
    | _, _ => none
  | .readCheckpoint =>
    match s.flush with
    | .listed => some { s with flush := .ready (exportCheckpoint s.checkpoint) 0 }
    | _ => none
  | .list =>
    match s.flush with
    | .ready last sent =>
      let page := listAfter s.db.events last batch
      some { s with
        flush := if page = [] then .idle else .sending last page (c.due page) sent }
    | _ => none
  | .send =>
    match s.flush with
    | .sending last page ((e, k) :: rest) sent =>
      some { s with
        sent := s.sent ++ [(nextMessage last page e k rest sent).1]
        flush := (nextMessage last page e k rest sent).2 }
    | _ => none
  | .sendFails delivered =>
    match s.flush with
    | .sending last page ((e, k) :: rest) sent =>
      some { s with
        sent :=
          if delivered then s.sent ++ [(nextMessage last page e k rest sent).1] else s.sent
        flush := .idle }
    | _ => none
  | .saveEvent =>
    match s.flush with
    | .savingEvent last page rest sent id =>
      some { s with
        checkpoint := saveExportCheckpoint s.checkpoint id
        flush := .sending last page rest sent }
    | _ => none
  | .saveEventFails applied =>
    match s.flush with
    | .savingEvent _ _ _ _ id =>
      some { s with
        checkpoint := if applied then saveExportCheckpoint s.checkpoint id else s.checkpoint
        flush := .idle }
    | _ => none
  | .savePage =>
    match s.flush.finished with
    | some (last, page, sent) =>
      some { s with
        checkpoint := saveExportCheckpoint s.checkpoint (lastID page last)
        flush := afterPage last page sent }
    | none => none
  | .savePageFails applied =>
    match s.flush.finished with
    | some (last, page, _) =>
      some { s with
        checkpoint :=
          if applied then saveExportCheckpoint s.checkpoint (lastID page last)
          else s.checkpoint
        flush := .idle }
    | none => none
  | .stop => some { s with flush := .idle }

/-- The notifier reads the channel's checkpoint only once there is one. -/
def ReadsStarted (s : State) : Label → Prop
  | .readCheckpoint => s.checkpoint.isSome = true
  | _ => True

instance (s : State) (l : Label) : Decidable (ReadsStarted s l) := by
  unfold ReadsStarted
  split <;> infer_instance

/-! ## The invariant -/

/-- Every event recorded before the channel was stored has an id up to this one. -/
def Past (history : List Event) (id : Int) : Prop := ∀ e ∈ history, e.id ≤ id

/-- An event recorded since. -/
def Since (history : List Event) (e : Event) : Prop := ∀ e' ∈ history, e'.id < e.id

theorem Past.of_since (h : Since history e) :
    Past history e.id := fun e' he' => (h e' he').le

theorem Since.not_mem (h : Since history e) : e ∉ history :=
  fun he => lt_irrefl _ (h e he)

/-- What is known of a page that was read. -/
structure PageSince (history : List Event) (last : Int) (page : List Event)
    (due : List (Event × EventKind)) : Prop where
  last : Past history last
  page : ∀ e ∈ page, Since history e
  due : ∀ d ∈ due, Since history d.1

def FlushInv (history : List Event) : Flush → Prop
  | .idle => True
  | .listed => True
  | .ready last _ => Past history last
  | .sending last page due _ => PageSince history last page due
  | .savingEvent last page due _ id => PageSince history last page due ∧ Past history id
  | .savingPage last page _ => PageSince history last page []

/-- Where the handler stands, and what it holds. -/
def CreatingInv (s : State) : Creating → Prop
  | .before => s.checkpoint = none ∧ s.flush = .idle ∧ s.sent = [] ∧ s.history = []
  | .starting newest => Past s.history newest
  | _ => True

structure Inv (s : State) : Prop where
  history : ∀ e ∈ s.history, e ∈ s.db.events.rows
  checkpoint : ∀ id, s.checkpoint = some id → Past s.history id
  flush : FlushInv s.history s.flush
  creating : CreatingInv s s.creating
  sent : ∀ m ∈ s.sent, Since s.history m.event

theorem Inv.start (db : Db) : Inv (.start db) where
  history := fun _ he => absurd he not_mem_nil
  checkpoint := fun _ h => nomatch h
  flush := trivial
  creating := ⟨rfl, rfl, rfl, rfl⟩
  sent := fun _ hm => absurd hm not_mem_nil

variable {s t : State} {flush : Flush} {last : Int} {sha256 : Bytes → Digest} {c : Channel}

/-- A flush is under way only after the channel was stored. -/
theorem Inv.stored (h : Inv s) (hflush : s.flush ≠ .idle) : s.creating ≠ .before := by
  intro hbefore
  have hcreating := h.creating
  rw [hbefore] at hcreating
  exact hflush hcreating.2.1

theorem CreatingInv.of_stored {creating : Creating} (h : CreatingInv s creating)
    (hstored : creating ≠ .before) (hhistory : t.history = s.history) : CreatingInv t creating := by
  cases creating with
  | before => exact absurd rfl hstored
  | stored | done => trivial
  | starting newest =>
    show Past t.history newest
    rw [hhistory]
    exact h

/-- A step of the notifier: the log, the handler and what came before stay. -/
theorem Inv.notifier (h : Inv s) (hflush : s.flush ≠ .idle) {checkpoint : Option Int}
    {sent : List Message} (hcheckpoint : ∀ id, checkpoint = some id →
      s.checkpoint = some id ∨ Past s.history id) (hnext : FlushInv s.history flush)
    (hsent : ∀ m ∈ sent, m ∈ s.sent ∨ Since s.history m.event) :
    Inv { s with checkpoint := checkpoint, flush := flush, sent := sent } where
  history := h.history
  checkpoint := by
    intro id hid
    rcases hcheckpoint id hid with hold | hnew
    · exact h.checkpoint id hold
    · exact hnew
  flush := hnext
  creating := h.creating.of_stored (h.stored hflush) rfl
  sent := by
    intro m hm
    rcases hsent m hm with hold | hnew
    · exact h.sent m hold
    · exact hnew

/-- The last id of a page since the channel was stored. -/
theorem PageSince.past_lastID
    {due : List (Event × EventKind)} (h : PageSince history last page due) :
    Past history (lastID page last) := by
  rcases eq_nil_or_concat' page with hnil | ⟨front, e, hpage⟩
  · rw [lastID, hnil]
    exact h.last
  · rw [lastID, hpage, getLast?_concat]
    exact Past.of_since (h.page e (by simp [hpage]))

theorem PageSince.listed {events : Ordered Event.id} {limit : Int}
    (h : Past history last) (c : Channel) :
    PageSince history last (listAfter events last limit) (c.due (listAfter events last limit)) := by
  have hpage : ∀ e ∈ listAfter events last limit, Since history e := by
    intro e he e' he'
    have hbehind := of_decide_eq_true (mem_filter.mp (mem_of_mem_take he)).2
    have hpast := h e' he'
    omega
  exact ⟨h, hpage, fun d hd => hpage d.1 (Channel.mem_of_mem_due hd)⟩

/-- Every event of the log has an id up to the newest one's. -/
theorem past_newestID (events : Ordered Event.id) : Past events.rows (newestID events) := by
  intro e he
  rcases eq_nil_or_concat' events.rows with hnil | ⟨front, r, hrows⟩
  · rw [hnil] at he
    cases he
  · have hnew : newestID events = r.id := by
      rw [newestID, Ordered.newest, hrows, getLast?_concat]
      rfl
    have hsorted := events.sorted
    rw [hnew]
    rw [hrows] at he hsorted
    exact Ordered.key_le_last hsorted he

/-- A send: the message is about an event since, and so is where it leaves the flush. -/
theorem nextMessage_since {rest : List (Event × EventKind)} (sent : Nat)
    (h : PageSince history last page ((e, k) :: rest)) :
    Since history (nextMessage last page e k rest sent).1.event ∧
      FlushInv history (nextMessage last page e k rest sent).2 := by
  have he : Since history e := h.due (e, k) mem_cons_self
  have hrest : PageSince history last page rest :=
    ⟨h.last, h.page, fun d hd => h.due d (mem_cons_of_mem _ hd)⟩
  unfold nextMessage
  split
  · exact ⟨he, h.last, h.page, fun _ hd => absurd hd not_mem_nil⟩
  · exact ⟨he, hrest, Past.of_since he⟩

theorem finished_pageSince
    {sent : Nat} (h : FlushInv history flush) (hfin : flush.finished = some (last, page, sent)) :
    PageSince history last page [] ∧ flush ≠ .idle := by
  unfold Flush.finished at hfin
  split at hfin
  · cases hfin
    exact ⟨h, by simp⟩
  · cases hfin
    exact ⟨h, by simp⟩
  · cases hfin

theorem past_of_applied {row : Option Int} {applied : Bool} {new : Int}
    (hnew : Past history new) (id : Int)
    (h : (if applied then saveExportCheckpoint row new else row) = some id) :
    row = some id ∨ Past history id := by
  cases applied with
  | true => exact .inr (Option.some.inj h ▸ hnew)
  | false => exact .inl h

/-- **One step.** -/
theorem Inv.step {lbl : Label} (h : Inv s) (hcond : ReadsStarted s lbl)
    (hstep : step sha256 c s lbl = some t) : Inv t := by
  have hflush := h.flush
  have hcreating := h.creating
  cases lbl <;> simp only [Notify.step] at hstep
  case record call =>
    split at hstep
    · rename_i db hrec
      cases hstep
      obtain ⟨row, hrows, -, -⟩ := record_appends hrec
      refine ⟨fun e he => ?_, h.checkpoint, h.flush, ?_, h.sent⟩
      · show e ∈ db.events.rows
        rw [hrows]
        exact mem_append_left _ (h.history e he)
      · show CreatingInv _ s.creating
        generalize s.creating = creating at hcreating ⊢
        cases creating <;> exact hcreating
    · cases hstep
      exact h
  case create =>
    split at hstep <;> cases hstep
    rename_i hbefore
    rw [hbefore] at hcreating
    -- nothing was read or sent before the channel was stored
    obtain ⟨hnone, hidle, hsent, -⟩ := hcreating
    refine ⟨fun e he => he, ?_, ?_, trivial, ?_⟩
    · intro id hid
      rw [show s.checkpoint = some id from hid] at hnone
      cases hnone
    · show FlushInv _ s.flush
      rw [hidle]
      trivial
    · intro m hm
      rw [show s.sent = [] from hsent] at hm
      cases hm
  case newest =>
    split at hstep <;> cases hstep
    exact ⟨h.history, h.checkpoint, h.flush, fun e he => past_newestID _ e (h.history e he), h.sent⟩
  case startFails =>
    split at hstep <;> cases hstep
    exact ⟨h.history, h.checkpoint, h.flush, trivial, h.sent⟩
  case startSave =>
    split at hstep <;> cases hstep
    rename_i newest hstarting
    rw [hstarting] at hcreating
    refine ⟨h.history, fun id hid => ?_, h.flush, trivial, h.sent⟩
    -- the newest id was read behind the history
    cases hid
    exact hcreating
  case startSaveFails applied =>
    split at hstep <;> cases hstep
    rename_i newest hstarting
    rw [hstarting] at hcreating
    refine ⟨h.history, fun id hid => ?_, h.flush, trivial, h.sent⟩
    rcases past_of_applied hcreating id hid with hold | hnew
    · exact h.checkpoint id hold
    · exact hnew
  case pass =>
    split at hstep
    · cases hstep
    · rename_i hne
      split at hstep <;> cases hstep
      exact ⟨h.history, h.checkpoint, trivial, hcreating.of_stored hne rfl, h.sent⟩
    · cases hstep
  case readCheckpoint =>
    split at hstep <;> cases hstep
    rename_i hlisted
    -- the condition: there is a checkpoint to read
    obtain ⟨id, hid⟩ := Option.isSome_iff_exists.mp hcond
    refine h.notifier (by simp [hlisted]) (fun _ => .inl) ?_ fun _ => .inl
    show Past s.history (exportCheckpoint s.checkpoint)
    rw [hid]
    exact h.checkpoint id hid
  case list =>
    split at hstep <;> cases hstep
    rename_i last sent hready
    rw [hready] at hflush
    refine h.notifier (by simp [hready]) (fun _ => .inl) ?_ fun _ => .inl
    split
    · trivial
    · exact PageSince.listed hflush c
  case send =>
    split at hstep <;> cases hstep
    rename_i last page e k rest sent hsending
    rw [hsending] at hflush
    obtain ⟨hsince, hnext⟩ := nextMessage_since sent hflush
    refine h.notifier (by simp [hsending]) (fun _ => .inl) hnext fun m hm => ?_
    rcases mem_append.mp hm with hold | hnew
    · exact .inl hold
    · exact .inr (mem_singleton.mp hnew ▸ hsince)
  case sendFails delivered =>
    split at hstep <;> cases hstep
    rename_i last page e k rest sent hsending
    rw [hsending] at hflush
    obtain ⟨hsince, -⟩ := nextMessage_since sent hflush
    refine h.notifier (by simp [hsending]) (fun _ => .inl) trivial fun m hm => ?_
    -- a post that fails may have been delivered
    cases delivered with
    | true =>
      rcases mem_append.mp hm with hold | hnew
      · exact .inl hold
      · exact .inr (mem_singleton.mp hnew ▸ hsince)
    | false => exact .inl hm
  case saveEvent =>
    split at hstep <;> cases hstep
    rename_i last page rest sent id hsaving
    rw [hsaving] at hflush
    exact h.notifier (by simp [hsaving]) (fun id' hid => .inr (Option.some.inj hid ▸ hflush.2))
      hflush.1 fun _ => .inl
  case saveEventFails applied =>
    split at hstep <;> cases hstep
    rename_i last page rest sent id hsaving
    rw [hsaving] at hflush
    exact h.notifier (by simp [hsaving]) (past_of_applied hflush.2) trivial fun _ => .inl
  case savePage =>
    split at hstep <;> cases hstep
    rename_i last page sent hfin
    obtain ⟨hpage, hbusy⟩ := finished_pageSince hflush hfin
    refine h.notifier hbusy (fun id hid => .inr (Option.some.inj hid ▸ hpage.past_lastID)) ?_
      fun _ => .inl
    unfold afterPage
    split
    · trivial
    · exact hpage.past_lastID
  case savePageFails applied =>
    split at hstep <;> cases hstep
    rename_i last page sent hfin
    obtain ⟨hpage, hbusy⟩ := finished_pageSince hflush hfin
    exact h.notifier hbusy (past_of_applied hpage.past_lastID) trivial fun _ => .inl
  case stop =>
    cases hstep
    refine ⟨h.history, h.checkpoint, trivial, ?_, h.sent⟩
    show CreatingInv _ s.creating
    generalize s.creating = creating at hcreating ⊢
    cases creating with
    | before => exact ⟨hcreating.1, rfl, hcreating.2.2⟩
    | stored | done => trivial
    | starting newest => exact hcreating

/-- **The log's history is not sent.** In every run in which the notifier reads the channel's
checkpoint only once there is one, no message is about an event recorded before the channel was
stored. -/
theorem history_is_not_sent (sha256 : Bytes → Digest) (c : Channel) (db : Db) {s : State}
    {ls : List Label} (hrun : RunWhere (step sha256 c) ReadsStarted (.start db) ls s) :
    ∀ m ∈ s.sent, m.event ∉ s.history := by
  have hinv := hrun.keeps Inv (fun _ _ _ hcond hm hstep => hm.step hcond hstep) (Inv.start db)
  intro m hm
  exact (hinv.sent m hm).not_mem

/-- An event of an administrator ending a session. -/
def terminated (id : Int) : Event :=
  { eventWith 0 "" with id := id, action := lit "session.terminate", hash := lit "h" }

/-- A log with one such event. -/
def oneEvent : Db := ⟨⟨[terminated 1], pairwise_singleton _ _⟩, .empty, 1, 0⟩

/-- A channel that asked for them. -/
def terminations : Channel := ⟨["session_terminated"]⟩

/-- The next such event. -/
def recordTerminated : Label := .record ⟨terminated 0, 0, 0, lit "\x7b\x7d"⟩

/-- The channel is created and started, the next event is recorded, and a pass sends it. -/
theorem history_is_not_sent_started :
    ∃ s, RunWhere (step zeroSum terminations) ReadsStarted (.start oneEvent)
        [.create, .newest, .startSave, recordTerminated, .pass, .readCheckpoint, .list, .send] s ∧
      s.sent.length = 1 ∧ s.history.length = 1 ∧ ∀ m ∈ s.sent, m.event ∉ s.history :=
  RunWhere.exists_of_decide (P := fun s => s.sent.length = 1 ∧ s.history.length = 1)
    (by decide +kernel) fun _ hrun ⟨hsent, hhistory⟩ =>
      ⟨hsent, hhistory, history_is_not_sent zeroSum terminations oneEvent hrun⟩

/-- **The log's history is sent.** A pass reads the checkpoint after the channel was stored and
before `Start` has saved it; `Start` succeeds, and the pass sends the event recorded before. -/
theorem history_is_sent :
    ∃ s, Run (step zeroSum terminations) (.start oneEvent)
        [.create, .pass, .readCheckpoint, .newest, .startSave, .list, .send] s ∧
      s.history = [terminated 1] ∧ ∃ m ∈ s.sent, m.event = terminated 1 :=
  Run.of_exec_decide (by decide +kernel)

end Zanskar.Notify
