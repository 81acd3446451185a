import Zanskar.Asg.Pins

/-!
# Departures: sessions ended and events recorded

An instance departs when a row that was healthy is stored as not healthy, or a row is marked
terminated. A departure is handled once an event about it is in the audit log and no session
that ran on the instance then is running.

- `departures_are_handled` : where a `MarkTerminated` update that fails is the first of its call,
  the audit log takes the events of departures, and no snapshot lists an instance twice, every
  departure is handled after every poll.
- `marked_and_forgotten` : where a later update fails, a row that is marked already is never
  handled.

The invariant is `HandledBut`: what is left to handle is on a list of rows, which `markEach`
fills and the loop over `gone` empties.
-/

namespace Zanskar.Asg

open Go Lib List

variable {sy : Syncer} {g : Group} {s t : State} {w : Write} {owed owed' : List Instance}
  {r : Instance} {l : Listing} {previous : Rows} {p : Poll}

/-- The write takes an instance out of the healthy pool, or marks it terminated. -/
def Write.departs (w : Write) : Bool :=
  w.before.any fun b =>
    (b.healthy && !w.after.healthy) || (b.terminatedAt.isNone && w.after.terminatedAt.isSome)

/-- The departure was recorded since, and the sessions that ran on the instance have ended. -/
structure Handled (s : State) (w : Write) : Prop where
  recorded : ∃ e ∈ s.audit.drop w.audited, e.targetID = w.after.id ∧ e.action.departs = true
  ended : ∀ l ∈ s.registry.running, l.sessionID ∉ w.live

/-- What a later `record` and `retire` rest on: of the sessions that ran on the instance, those
still running are on it. -/
def Owed (s : State) (w : Write) : Prop :=
  ∀ l ∈ s.registry.running, l.sessionID ∈ w.live → l.targetID = w.after.id

/-- Departures are handled, but for those of the rows in `owed`. -/
structure HandledBut (owed : List Instance) (s : State) : Prop where
  handled : ∀ w ∈ s.writes, w.departs = true →
    Handled s w ∨ (∃ r ∈ owed, r.id = w.after.id) ∧ Owed s w
  audited : ∀ w ∈ s.writes, w.audited ≤ s.audit.length
  live : ∀ w ∈ s.writes, ∀ sid ∈ w.live, sid ∈ s.used
  running : ∀ l ∈ s.registry.running, l.sessionID ∈ s.used

/-! ## What keeps departures handled -/

theorem Handled.later (h : Handled s w)
    (haudited : w.audited ≤ s.audit.length) (haudit : s.audit <+: t.audit)
    (hended : ∀ l ∈ t.registry.running, l ∈ s.registry.running ∨ l.sessionID ∉ w.live) :
    Handled t w := by
  constructor
  · obtain ⟨e, he, hdep⟩ := h.recorded
    obtain ⟨more, hmore⟩ := haudit
    refine ⟨e, ?_, hdep⟩
    rw [← hmore, drop_append_of_le_length haudited]
    exact mem_append_left _ he
  · intro l hl
    rcases hended l hl with hold | hnew
    · exact h.ended l hold
    · exact hnew

theorem Owed.later (h : Owed s w)
    (hrunning : ∀ l ∈ t.registry.running, l ∈ s.registry.running ∨ l.sessionID ∉ w.live) :
    Owed t w := by
  intro l hl hlive
  rcases hrunning l hl with hold | hnew
  · exact h l hold hlive
  · exact absurd hlive hnew

/-- A change that writes no row, only adds to the audit log, and starts only sessions with new
ids. -/
theorem HandledBut.later (h : HandledBut owed s)
    (hwrites : t.writes = s.writes) (haudit : s.audit <+: t.audit) (hused : s.used ⊆ t.used)
    (hrunning : ∀ l ∈ t.registry.running,
      l ∈ s.registry.running ∨ (l.sessionID ∉ s.used ∧ l.sessionID ∈ t.used)) :
    HandledBut owed t := by
  have hmono : ∀ w ∈ s.writes, ∀ l ∈ t.registry.running,
      l ∈ s.registry.running ∨ l.sessionID ∉ w.live := by
    intro w hw l hl
    rcases hrunning l hl with hold | ⟨hfresh, -⟩
    · exact .inl hold
    · exact .inr fun hlive => hfresh (h.live w hw _ hlive)
  constructor
  · intro w hw hdep
    rw [hwrites] at hw
    rcases h.handled w hw hdep with hdone | ⟨hrow, howed⟩
    · exact .inl (hdone.later (h.audited w hw) haudit (hmono w hw))
    · exact .inr ⟨hrow, howed.later (hmono w hw)⟩
  · intro w hw
    rw [hwrites] at hw
    exact (h.audited w hw).trans haudit.length_le
  · intro w hw sid hsid
    rw [hwrites] at hw
    exact hused (h.live w hw sid hsid)
  · intro l hl
    rcases hrunning l hl with hold | ⟨-, hnew⟩
    · exact hused (h.running l hold)
    · exact hnew

theorem HandledBut.mono (h : HandledBut owed s) (hsub : owed ⊆ owed') : HandledBut owed' s := by
  refine ⟨fun w hw hdep => ?_, h.audited, h.live, h.running⟩
  rcases h.handled w hw hdep with hdone | ⟨⟨r, hr, hid⟩, howed⟩
  · exact .inl hdone
  · exact .inr ⟨⟨r, hsub hr, hid⟩, howed⟩

theorem HandledBut.quiet (h : HandledBut owed s) (hquiet : Quiet s t) : HandledBut owed t :=
  h.later hquiet.writes hquiet.audit (by rw [hquiet.used]; exact List.Subset.refl _)
    (fun l hl => .inl (hquiet.registry ▸ hl))

theorem mem_liveOn {id : String} {l : Live} (hl : l ∈ s.registry.running)
    (h : l.sessionID ∈ s.liveOn id) : l.targetID = id := by
  obtain ⟨k, hk, hsame⟩ := mem_map.mp h
  obtain ⟨hkrun, hkid⟩ := mem_filter.mp hk
  have heq : k = l := Registry.eq_of_sessionID_eq (Registry.mem_running.mp hkrun).1
    (Registry.mem_running.mp hl).1 hsame
  rw [← heq]
  exact of_decide_eq_true hkid

/-- The write that storing `after` is. -/
def State.writeOf (s : State) (after : Instance) : Write :=
  ⟨s.rows.byCloudID after.instanceID, after, s.audit.length, s.liveOn after.id⟩

/-- A row written is left to handle, if the write departs at all. -/
theorem HandledBut.wrote (h : HandledBut owed s)
    (rows : Rows) {after : Instance} (hsub : owed ⊆ owed')
    (hnew : (s.writeOf after).departs → ∃ r ∈ owed', r.id = after.id) :
    HandledBut owed' (s.wrote rows after) := by
  constructor
  · intro w hw hdep
    rcases mem_append.mp hw with hw | hw
    · rcases h.handled w hw hdep with hdone | ⟨⟨q, hq, hqid⟩, howed⟩
      · exact .inl ⟨hdone.recorded, hdone.ended⟩
      · exact .inr ⟨⟨q, hsub hq, hqid⟩, howed⟩
    · obtain rfl := mem_singleton.mp hw
      exact .inr ⟨hnew hdep, fun l hl hlive => mem_liveOn hl hlive⟩
  · exact forall_mem_append.mpr ⟨h.audited, forall_mem_singleton.mpr le_rfl⟩
  · refine forall_mem_append.mpr ⟨h.live, forall_mem_singleton.mpr fun sid hsid => ?_⟩
    obtain ⟨l, hl, rfl⟩ := mem_map.mp hsid
    exact h.running l (mem_filter.mp hl).1
  · exact h.running

/-- **Handling.** An event about a row is recorded and the sessions on it are ended: nothing is
left to handle of that row. -/
theorem HandledBut.handle {fails : Action → Bool}
    {q : Instance} {a : Action} (h : HandledBut (r :: owed) s) (hid : q.id = r.id)
    (hdep : a.departs) (hrec : fails a = false) :
    HandledBut owed ((s.record fails g q a).retire q) := by
  have hrecord : s.record fails g q a =
      { s with audit := s.audit ++ [⟨a, q.id, g.name, q.instanceID⟩] } := by
    rw [State.record, hrec]
    rfl
  have hrunning : ∀ l ∈ ((s.record fails g q a).retire q).registry.running,
      l ∈ s.registry.running ∧ l.targetID ≠ q.id := by
    intro l hl
    rw [hrecord] at hl
    obtain ⟨hold, hkeep⟩ := Registry.mem_running_terminateWhere.mp hl
    exact ⟨hold, by simpa using hkeep⟩
  have hlater : HandledBut (r :: owed) ((s.record fails g q a).retire q) := by
    refine h.later ?_ ?_ ?_ fun l hl => .inl (hrunning l hl).1
    · rw [hrecord]
      rfl
    · rw [hrecord]
      exact prefix_append _ _
    · rw [hrecord]
      exact List.Subset.refl _
  refine ⟨fun w hw hwdep => ?_, hlater.audited, hlater.live, hlater.running⟩
  rcases hlater.handled w hw hwdep with hdone | ⟨⟨p, hp, hpid⟩, howed⟩
  · exact .inl hdone
  rcases mem_cons.mp hp with rfl | hrest
  · -- the row's own departures: the event is the last one, and the sessions on it are gone
    have hw' : w ∈ s.writes := by
      rw [hrecord] at hw
      exact hw
    refine .inl ⟨⟨⟨a, q.id, g.name, q.instanceID⟩, ?_, hid.trans hpid, hdep⟩, ?_⟩
    · rw [hrecord]
      show _ ∈ (s.audit ++ _).drop w.audited
      rw [drop_append_of_le_length (h.audited w hw')]
      exact mem_append_right _ (mem_singleton_self _)
    · intro l hl hlive
      exact (hrunning l hl).2 ((howed l hl hlive).trans (hpid.symm.trans hid.symm))
  · exact .inr ⟨⟨p, hrest, hpid⟩, howed⟩

/-! ## One listing -/

/-- What a listing must meet: the audit log takes the events of departures. -/
def Listing.Audits (l : Listing) : Prop := ∀ a, a.departs = true → l.recordFails a = false

/-- What follows a row stored handles its departure, where the row before the write is the one
`previous` has. -/
theorem settle_handles {rows : Rows} {stored : Instance}
    {isNew : Bool} (haudits : l.Audits) (h : HandledBut [] s)
    (up : Upserted s.rows rows l.db r stored isNew) :
    HandledBut []
      (settle g (s.rows.byCloudID r.instanceID) l stored isNew (s.wrote rows stored)) := by
  have hbefore : (s.writeOf stored).before = s.rows.byCloudID r.instanceID := by
    show s.rows.byCloudID stored.instanceID = _
    rw [up.stored_eq.1]
  have hdeparts : (s.writeOf stored).departs =
      ((s.rows.byCloudID r.instanceID).any Instance.healthy && !stored.healthy) := by
    unfold Write.departs
    rw [hbefore]
    cases s.rows.byCloudID r.instanceID with
    | none => rfl
    | some b =>
      show ((b.healthy && !stored.healthy) || (b.terminatedAt.isNone && stored.terminatedAt.isSome))
        = _
      rw [up.stored_eq.2.2]
      simp
  unfold settle
  dsimp only
  -- counting changes nothing
  have hcount : ∀ t : State, HandledBut [] t →
      HandledBut [] (if stored.healthy then { t with sum.healthy := t.sum.healthy + 1 } else t) := by
    intro t ht
    split
    · exact ht.quiet Quiet.counted
    · exact ht
  by_cases hdep : (s.writeOf stored).departs
  · -- the instance left the pool
    have hsplit := hdep
    rw [hdeparts, Bool.and_eq_true, Bool.not_eq_true'] at hsplit
    obtain ⟨hprev, hnot⟩ := hsplit
    have hold : isNew = false := by
      cases up with
      | first hget => rw [hget] at hprev; cases hprev
      | again => rfl
    rw [hold, hnot, if_neg Bool.false_ne_true, if_neg Bool.false_ne_true, if_pos ⟨hprev, rfl⟩]
    have hwrote : HandledBut [stored] (s.wrote rows stored) :=
      h.wrote rows (nil_subset _) fun _ => ⟨stored, mem_singleton_self _, rfl⟩
    exact (hwrote.quiet Quiet.counted).handle rfl rfl (haudits _ rfl)
  · have hwrote : HandledBut [] (s.wrote rows stored) :=
      h.wrote rows (List.Subset.refl _) fun hd => absurd hd hdep
    split
    · exact ((hcount _ hwrote).quiet Quiet.counted).quiet Quiet.record
    split
    · rename_i hleft
      exact absurd (by rw [hdeparts, hleft.1, hleft.2]; rfl) hdep
    · exact hcount _ hwrote

/-- What holds while the listings `rest` are still to come. -/
structure Underway (previous : Rows) (rest : List Listing) (s : State) : Prop where
  handled : HandledBut [] s
  once : (rest.map fun l => l.ci.id).Nodup
  audits : ∀ l ∈ rest, l.Audits
  rows : ∀ l ∈ rest, s.rows.byCloudID l.ci.id = previous.byCloudID l.ci.id

theorem visit_underway {rest : List Listing} (h : Underway previous (l :: rest) s) :
    Underway previous rest (visit sy g previous l s).1 := by
  obtain ⟨hnot, honce⟩ := nodup_cons.mp h.once
  have haudits : ∀ l' ∈ rest, l'.Audits := fun l' hl' => h.audits l' (mem_cons_of_mem _ hl')
  have hrows : ∀ l' ∈ rest, s.rows.byCloudID l'.ci.id = previous.byCloudID l'.ci.id :=
    fun l' hl' => h.rows l' (mem_cons_of_mem _ hl')
  have hvisit := visit_spec sy g previous l s
  generalize visit sy g previous l s = out at hvisit ⊢
  cases hvisit with
  | failed quiet =>
    exact ⟨h.handled.quiet quiet, honce, haudits, fun l' hl' => by rw [quiet.rows, hrows l' hl']⟩
  | @stored m rows r stored isNew obs up =>
    refine ⟨?_, honce, haudits, ?_⟩
    · rw [← h.rows l mem_cons_self, ← obs.instanceID, ← obs.quiet.rows]
      rw [← obs.quiet.rows] at up
      exact settle_handles (h.audits l mem_cons_self) (h.handled.quiet obs.quiet) up
    · intro l' hl'
      have hne : l'.ci.id ≠ r.instanceID := by
        rw [obs.instanceID]
        exact fun hsame => hnot (mem_map.mpr ⟨l', hl', hsame⟩)
      rw [SameRows.settle.rows]
      show rows.byCloudID l'.ci.id = _
      rw [up.byCloudID_eq, if_neg hne, hrows l' hl']

theorem visitAll_underway {ls : List Listing}
    (h : Underway previous ls s) : HandledBut [] (visitAll sy g previous ls s).1 := by
  induction ls generalizing s with
  | nil => exact h.handled
  | cons l rest ih =>
    have hhead : Underway previous rest (visit sy g previous l s).1 := visit_underway h
    unfold visitAll
    generalize visit sy g previous l s = out at hhead ⊢
    obtain ⟨t, ok⟩ := out
    cases ok with
    | true => exact ih hhead
    | false => exact hhead.handled

/-! ## The rows marked -/

theorem markEach_owes (now : Int) (keep : List String) (all : List Instance)
    (h : HandledBut owed s) :
    ∃ t gone, markEach now keep none all s = (t, some gone) ∧ HandledBut (gone ++ owed) t := by
  induction all generalizing owed s with
  | nil => exact ⟨s, [], rfl, h⟩
  | cons r rest ih =>
    unfold markEach
    split
    · exact ih h
    · have hmarked : HandledBut ({ r with
          terminatedAt := some now, lifecycleState := "Terminated" } :: owed)
          (s.wrote (s.rows.markRow r.id now) (r.terminated now)) :=
        h.wrote _ (subset_cons_self _ _) fun _ => ⟨_, mem_cons_self, rfl⟩
      obtain ⟨t, gone, heq, hgone⟩ := ih hmarked
      have hrest : markEach now keep (Option.map (· - 1) none) rest
          (s.wrote (s.rows.markRow r.id now) (r.terminated now)) = (t, some gone) := heq
      rw [if_neg (by decide), hrest]
      refine ⟨t, _, rfl, hgone.mono ?_⟩
      intro q hq
      simpa [or_left_comm] using hq

theorem markEach_first (now : Int) (keep : List String) (all : List Instance) (s : State) :
    markEach now keep (some 0) all s = (s, none) ∨
      markEach now keep (some 0) all s = (s, some []) := by
  induction all with
  | nil => exact .inr rfl
  | cons r rest ih =>
    unfold markEach
    split
    · exact ih
    · rw [if_pos rfl]
      exact .inl rfl

/-- The loop over the rows marked handles them all. -/
theorem leave_handles (hfails : ∀ id, p.leftFails id = false) (gone : List Instance)
    (h : HandledBut (gone ++ owed) s) : HandledBut owed (gone.foldl (leave g p) s) := by
  induction gone generalizing s with
  | nil => exact h
  | cons r gone ih =>
    refine ih ?_
    exact ((h.quiet Quiet.counted).handle rfl rfl (hfails r.id)).quiet Quiet.cleared

/-! ## Polls and runs -/

/-- The poll lists no instance twice, its audit events of departures are written, and a
`MarkTerminated` update that fails is the first of its call. -/
structure Poll.Accounts (p : Poll) : Prop where
  once : p.ListsOnce
  audits : ∀ l ∈ p.listings, l.Audits
  left : ∀ id, p.leftFails id = false
  firstFails : ∀ n, p.markFailsAt = some n → n = 0

theorem syncGroup_handles (hp : p.Accounts) (h : HandledBut [] s) :
    HandledBut [] (syncGroup sy g p s).1 := by
  have hstart := h.quiet (@Quiet.counted s ⟨0, 0, 0, 0, 0, 0, 0⟩)
  unfold syncGroup
  dsimp only
  split
  · exact hstart
  · rename_i ls hls
    have hlistings : p.listings = ls := by rw [Poll.listings, hls]; rfl
    split
    · exact hstart
    · have hunderway : Underway s.rows ls { s with sum := ⟨0, 0, 0, 0, 0, 0, 0⟩ } :=
        ⟨hstart, hlistings ▸ hp.once, hlistings ▸ hp.audits, fun _ _ => rfl⟩
      have hvisited : HandledBut [] (visitAll sy g s.rows ls
        { s with sum := ⟨0, 0, 0, 0, 0, 0, 0⟩ }).1 := visitAll_underway hunderway
      split <;> rename_i m heq <;> rw [heq] at hvisited
      · exact hvisited
      split
      · exact hvisited
      · cases hfails : p.markFailsAt with
        | none =>
          obtain ⟨t, gone, hmark, hgone⟩ := markEach_owes p.now (ls.map fun l => l.ci.id)
            (m.rows.instances sy.dialect) hvisited
          rw [hmark]
          exact leave_handles hp.left gone hgone
        | some n =>
          rw [hp.firstFails n hfails]
          -- the first update fails, or there is none to fail
          rcases markEach_first p.now (ls.map fun l => l.ci.id) (m.rows.instances sy.dialect) m
            with hmark | hmark
          · rw [hmark]
            exact hvisited
          · rw [hmark]
            exact hvisited

/-- The condition on the polls of a run. -/
def Accounts (_ : State) : Label → Prop
  | .poll p => p.Accounts
  | _ => True

/-- **Departures.** Along every run whose polls account for what they mark, every instance that
left the healthy pool or was marked terminated since the start has had its sessions ended and
its departure recorded, after every poll. -/
theorem departures_are_handled (sy : Syncer) (g : Group) {s t : State} {ls : List Label}
    (hrun : RunWhere (step sy g) Accounts s ls t) (hstart : s.writes = [])
    (hused : ∀ l ∈ s.registry.running, l.sessionID ∈ s.used) :
    ∀ w ∈ t.writes, w.departs = true → Handled t w := by
  have hinv : HandledBut [] t := by
    refine hrun.keeps (HandledBut []) ?_ ?_
    · intro m lbl u hcond hm hstep
      cases step_spec hstep with
      | poll p => exact syncGroup_handles hcond hm
      | opened l hfresh _ =>
        refine hm.later rfl prefix_rfl (subset_cons_self _ _) ?_
        intro k hk
        rcases Registry.mem_running_of_add hk with hold | rfl
        · exact .inl hold
        · exact .inr ⟨hfresh, mem_cons_self⟩
      | closed sid =>
        exact hm.later rfl prefix_rfl (List.Subset.refl _) fun k hk =>
          .inl (Registry.mem_running_of_remove hk)
    · refine ⟨?_, ?_, ?_, hused⟩ <;> rw [hstart] <;> intro w hw <;> cases hw
  intro w hw hdep
  rcases hinv.handled w hw hdep with hdone | ⟨⟨r, hr, -⟩, -⟩
  · exact hdone
  · cases hr

/-- A session on an instance's row. -/
def shellOn (sessionID targetID : String) : Live :=
  ⟨sessionID, "u-1", targetID, .ssh, "p-1", false, false, false, none⟩

/-- Two instances join, a session is opened on the first, and the group scales in. -/
def scalesIn (last : List Label) : List Label :=
  [.poll (soundPoll [linuxListing "i-1" "a" "SHA256:k" none,
      linuxListing "i-2" "b" "SHA256:m" none]),
    .opened (shellOn "s-1" "a")] ++ last

/-- A poll that lists nothing, with the update that fails. -/
def emptyPoll (failsAt : Option Nat) : Poll :=
  { soundPoll [] with markFailsAt := failsAt }

theorem emptyPoll_accounts : (emptyPoll none).Accounts :=
  ⟨nodup_nil, fun _ hl => (nomatch hl), fun _ => rfl, fun _ h => (nomatch h)⟩

/-- The group scales in and nothing fails: both rows are marked, the session is ended. -/
theorem departures_are_handled_scaled_in :
    ∃ t, RunWhere (step ⟨.postgres, true⟩ linuxGroup) Accounts State.initial
        (scalesIn [.poll (emptyPoll none)]) t ∧
      ∃ w ∈ t.writes, w.departs = true ∧ w.live = ["s-1"] ∧ Handled t w := by
  obtain ⟨t, hrun, w, hw, hdep, hlive⟩ : ∃ t, Run (step ⟨.postgres, true⟩ linuxGroup)
      State.initial (scalesIn [.poll (emptyPoll none)]) t ∧
        ∃ w ∈ t.writes, w.departs ∧ w.live = ["s-1"] :=
    Run.of_exec_decide (by decide +kernel)
  have hjoin : (soundPoll [linuxListing "i-1" "a" "SHA256:k" none,
      linuxListing "i-2" "b" "SHA256:m" none]).Accounts := by
    refine ⟨by decide +kernel, ?_, fun _ => rfl, fun _ h => (nomatch h)⟩
    intro l hl a _
    rcases mem_cons.mp hl with rfl | hl
    · rfl
    · rw [mem_singleton.mp hl]
      rfl
  have hwhere := hrun.where_of (C := Accounts)
    (by simp [scalesIn, Accounts, hjoin, emptyPoll_accounts])
  refine ⟨t, hwhere, w, hw, hdep, hlive, ?_⟩
  exact departures_are_handled ⟨.postgres, true⟩ linuxGroup hwhere rfl (fun l hl => nomatch hl) w hw
    hdep

/-- **Marked and forgotten.** The update of the second row fails and the poll with it; the next
poll succeeds. The first row is marked terminated, its session runs on, and no event about it was
recorded. -/
theorem marked_and_forgotten :
    ∃ t, Run (step ⟨.postgres, true⟩ linuxGroup) State.initial
        (scalesIn [.poll (emptyPoll (some 1)), .poll (emptyPoll none)]) t ∧
      (∃ u, Run (step ⟨.postgres, true⟩ linuxGroup) State.initial
          (scalesIn [.poll (emptyPoll (some 1))]) u ∧
        syncGroup ⟨.postgres, true⟩ linuxGroup (emptyPoll none) u = (t, true)) ∧
      ∃ w ∈ t.writes, w.departs = true ∧ w.after.instanceID = "i-1" ∧
        (∃ l ∈ t.registry.running, l.sessionID ∈ w.live) ∧
        ∀ e ∈ t.audit, e.targetID = w.after.id → e.action.departs = false := by
  obtain ⟨u, hrun, hok, hmarked⟩ : ∃ u, Run (step ⟨.postgres, true⟩ linuxGroup) State.initial
      (scalesIn [.poll (emptyPoll (some 1))]) u ∧
      let next := syncGroup ⟨.postgres, true⟩ linuxGroup (emptyPoll none) u
      next.2 ∧ ∃ w ∈ next.1.writes, w.departs ∧ w.after.instanceID = "i-1" ∧
        (∃ l ∈ next.1.registry.running, l.sessionID ∈ w.live) ∧
        ∀ e ∈ next.1.audit, e.targetID = w.after.id → e.action.departs = false :=
    Run.of_exec_decide (by decide +kernel)
  have hnext : Run (step ⟨.postgres, true⟩ linuxGroup) State.initial
      (scalesIn [.poll (emptyPoll (some 1))] ++ [.poll (emptyPoll none)])
      (syncGroup ⟨.postgres, true⟩ linuxGroup (emptyPoll none) u).1 := .snoc hrun trivial rfl
  exact ⟨_, hnext, ⟨u, hrun, Prod.ext rfl hok⟩, hmarked⟩

end Zanskar.Asg
