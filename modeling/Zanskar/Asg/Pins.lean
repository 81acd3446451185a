import Zanskar.Asg.Poll

/-!
# Pinned host keys and certificates

What a poll may do to the fingerprints pinned for an instance. A pin that is there when a poll
begins survives it, terminated in between or not: the probe hands the previous row's pin on, or
supplies none and the upsert keeps what is there.

- `pins_are_kept` : no poll changes a pin, and what is stored as healthy was observed as pinned.
  The latter takes a snapshot that lists an instance once: `previous` is read at the start.
- `doubted_key_waits_for_console` : a host key the console contradicted waits for an answer that
  lists it. A console that cannot be read counts as one that never published keys
  (`contradicted_key_is_trusted`).
-/

namespace Zanskar.Asg

open Go Lib List

variable {sy : Syncer} {g : Group} {p : Poll} {l : Listing} {iid : String} {k : Pin} {s t : State}
  {fp : String}

/-- The listings of a poll; none where the cloud could not be asked. -/
def Poll.listings (p : Poll) : List Listing := p.snapshot.getD []

theorem Poll.mem_listings {ls : List Listing} (h : p.snapshot = some ls)
    (hl : l ∈ ls) : l ∈ p.listings := by
  rw [Poll.listings, h]
  exact hl

/-- The snapshot lists no instance twice: an instance is in its group once, and the provider keeps
one entry under an id. -/
def Poll.ListsOnce (p : Poll) : Prop := (p.listings.map fun l => l.ci.id).Nodup

instance (p : Poll) : Decidable p.ListsOnce := inferInstanceAs (Decidable (List.Nodup _))

/-! ## A pin stays -/

theorem visit_keeps_pin {previous : Rows} (hpin : previous.pin iid k ≠ "")
    (hs : s.rows.pin iid k = previous.pin iid k) :
    (visit sy g previous l s).1.rows.pin iid k = previous.pin iid k := by
  have hvisit := visit_spec sy g previous l s
  generalize visit sy g previous l s = out at hvisit ⊢
  cases hvisit with
  | failed quiet => rw [quiet.rows, hs]
  | @stored m rows r stored isNew obs up =>
    rw [SameRows.settle.rows]
    show rows.pin iid k = _
    rw [up.pin_eq]
    by_cases hiid : iid = r.instanceID
    · rw [if_pos hiid, up.pin_stored]
      subst hiid
      split
      · exact hs
      · rename_i hne
        rw [obs.instanceID] at hpin ⊢
        exact (obs.kept k hpin).resolve_left hne
    · rw [if_neg hiid, hs]

theorem syncGroup_keeps_pin (hpin : s.rows.pin iid k ≠ "") :
    (syncGroup sy g p s).1.rows.pin iid k = s.rows.pin iid k := by
  refine syncGroup_keeps (fun m => m.rows.pin iid k = s.rows.pin iid k) ?_ ?_ ?_ rfl
  · intro m n hsame hm
    rw [hsame.rows, hm]
  · intro ls _ l _ m hm
    exact visit_keeps_pin hpin hm
  · intro m r hm
    show (m.rows.markRow r.id p.now).pin iid k = _
    rw [Rows.pin_markRow, hm]

theorem step_keeps_pin {lbl : Label} (hstep : step sy g s lbl = some t)
    (hpin : s.rows.pin iid k ≠ "") : t.rows.pin iid k = s.rows.pin iid k := by
  cases step_spec hstep with
  | poll p => exact syncGroup_keeps_pin hpin
  | opened | closed => rfl

theorem run_keeps_pin {ls : List Label} (hrun : Run (step sy g) s ls t)
    (hpin : s.rows.pin iid k ≠ "") : t.rows.pin iid k = s.rows.pin iid k :=
  hrun.keeps (fun m => m.rows.pin iid k = s.rows.pin iid k)
    (fun _ _ _ _ hm hstep => (step_keeps_pin hstep (hm ▸ hpin)).trans hm) rfl

/-! ## Healthy as observed -/

/-- A row stored as healthy has pinned what one of the listings observed of its instance. -/
def AgreesWithListing (sy : Syncer) (g : Group) (ls : List Listing) (w : Write) : Prop :=
  w.after.healthy = true → ∃ l ∈ ls, l.ci.id = w.after.instanceID ∧
    ∀ k fp, l.observed sy g k = some fp → w.after.pin k = fp

theorem syncGroup_writes :
    ∃ new, (syncGroup sy g p s).1.writes = s.writes ++ new ∧
      ∀ w ∈ new, AgreesWithListing sy g p.listings w := by
  refine syncGroup_keeps (fun m => ∃ new, m.writes = s.writes ++ new ∧
    ∀ w ∈ new, AgreesWithListing sy g p.listings w) ?_ ?_ ?_ ⟨[], by simp, by simp⟩
  · intro m n hsame hm
    rw [hsame.writes]
    exact hm
  · rintro ls hls l hl m ⟨new, hnew, hall⟩
    have hvisit := visit_spec sy g s.rows l m
    generalize visit sy g s.rows l m = out at hvisit ⊢
    cases hvisit with
    | failed quiet =>
      rw [quiet.writes]
      exact ⟨new, hnew, hall⟩
    | @stored m' rows r stored isNew obs up =>
      rw [SameRows.settle.writes]
      show ∃ new, m'.writes ++ [_] = _ ∧ _
      rw [obs.quiet.writes, hnew, append_assoc]
      refine ⟨_, rfl, forall_mem_append.mpr ⟨hall, forall_mem_singleton.mpr ?_⟩⟩
      · intro hhealthy
        have hprobe : r.probeHealth = .healthy := by
          rw [← up.stored_eq.2.1]
          exact (Instance.healthy_iff.mp hhealthy).2.1
        refine ⟨l, Poll.mem_listings hls hl, ?_, ?_⟩
        · show l.ci.id = stored.instanceID
          rw [up.stored_eq.1, obs.instanceID]
        · intro k fp hfp
          have hr : r.pin k = fp := obs.healthy hprobe k fp hfp
          have hne : r.pin k ≠ "" := by
            rw [hr]
            exact l.observed_ne hfp
          show stored.pin k = fp
          rw [up.pin_stored, if_neg hne, hr]
  · rintro m r ⟨new, hnew, hall⟩
    show ∃ new, m.writes ++ [_] = _ ∧ _
    rw [hnew, append_assoc]
    refine ⟨_, rfl, forall_mem_append.mpr ⟨hall, forall_mem_singleton.mpr fun hhealthy => ?_⟩⟩
    exact absurd (Instance.healthy_iff.mp hhealthy).1 (by simp [Instance.terminated])

/-- **Pins.** No run of polls changes a pin. A poll that lists no instance twice stores an
instance as healthy only if every key and certificate it observed of it equals the pin. -/
theorem pins_are_kept (sy : Syncer) (g : Group) :
    (∀ s t ls, Run (step sy g) s ls t → ∀ iid k, s.rows.pin iid k ≠ "" →
      t.rows.pin iid k = s.rows.pin iid k) ∧
    (∀ s (p : Poll), p.ListsOnce →
      ∀ w ∈ (syncGroup sy g p s).1.writes.drop s.writes.length, w.after.healthy = true →
        ∀ l ∈ p.listings, l.ci.id = w.after.instanceID →
          ∀ k fp, l.observed sy g k = some fp → w.after.pin k = fp) := by
  constructor
  · intro s t ls hrun iid k hpin
    exact run_keeps_pin hrun hpin
  · intro s p honce w hw hhealthy l hl hlid k fp hfp
    obtain ⟨new, hnew, hall⟩ := syncGroup_writes
    rw [hnew, drop_left] at hw
    obtain ⟨l', hl', hid', hagrees⟩ := hall w hw hhealthy
    -- listed once, so the listing stored and the listing observed are one
    obtain rfl : l' = l := inj_on_of_nodup_map honce hl' hl (hid'.trans hlid.symm)
    exact hagrees k fp hfp

/-- A Linux group reached by SSH at private addresses. -/
def linuxGroup : Group := ⟨"web", fun _ => none, [.ssh], false⟩

/-- An instance in service that presents a host key and is stored without a failure. -/
def linuxListing (id newID key : String) (console : Option (List String)) : Listing where
  ci := ⟨id, "10.0.0.5", "", "eu-1a", "InService", "", some 100⟩
  probe := fun _ _ => some ⟨fun _ => true, some key, none, none⟩
  console := console
  db := ⟨false, false, 200, newID⟩
  recordFails := fun _ => false

/-- A poll of these listings in which nothing fails. -/
def soundPoll (ls : List Listing) : Poll := ⟨some ls, true, true, none, 200, fun _ => false, false⟩

/-- A poll of one instance that shows a key the console does not publish: it is pinned, and
stored as healthy. -/
theorem pins_are_kept_first_poll :
    ∃ w ∈ (syncGroup ⟨.postgres, true⟩ linuxGroup
        (soundPoll [linuxListing "i-1" "a" "SHA256:k" none]) State.initial).1.writes.drop 0,
      w.after.healthy = true ∧ w.after.pin .hostKey = "SHA256:k" := by
  obtain ⟨w, hw, hhealthy, hiid⟩ : ∃ w ∈ (syncGroup ⟨.postgres, true⟩ linuxGroup
      (soundPoll [linuxListing "i-1" "a" "SHA256:k" none]) State.initial).1.writes.drop 0,
      w.after.healthy ∧ w.after.instanceID = "i-1" := by
    decide +kernel
  have hobs : (linuxListing "i-1" "a" "SHA256:k" none).observed ⟨.postgres, true⟩ linuxGroup
      .hostKey = some "SHA256:k" := by decide +kernel
  refine ⟨w, hw, hhealthy, ?_⟩
  exact (pins_are_kept ⟨.postgres, true⟩ linuxGroup).2 State.initial _ (by decide +kernel) w hw
    hhealthy _ mem_cons_self hiid.symm .hostKey _ hobs

/-! ## A key the console contradicts -/

/-- The console published keys, and the one observed was not among them. -/
def Asked.Contradicts (a : Asked) (iid fp : String) : Prop :=
  a.instanceID = iid ∧ a.observed = fp ∧ ∃ keys, a.answer = some keys ∧ keys ≠ [] ∧ fp ∉ keys

/-- The console's answer lists the key. -/
def Asked.Lists (a : Asked) (iid fp : String) : Prop :=
  a.instanceID = iid ∧ ∃ keys, a.answer = some keys ∧ fp ∈ keys

/-- Contradicted by an answer, and listed by none since. -/
def Doubted (asked : List Asked) (iid fp : String) : Prop :=
  ∃ before a after, asked = before ++ a :: after ∧ a.Contradicts iid fp ∧
    ∀ b ∈ after, ¬b.Lists iid fp

/-- An instance without a pinned key that shows a doubted one has its console read. -/
def ConsoleRead (sy : Syncer) (g : Group) (s : State) : Label → Prop
  | .poll p => ∀ l ∈ p.listings, ∀ fp, l.observed sy g .hostKey = some fp →
      s.rows.pin l.ci.id .hostKey = "" → Doubted s.asked l.ci.id fp → l.console ≠ none
  | _ => True

theorem Doubted.append {asked more : List Asked} (h : Doubted asked iid fp)
    (hmore : ∀ b ∈ more, ¬b.Lists iid fp) : Doubted (asked ++ more) iid fp := by
  obtain ⟨before, a, after, rfl, hcon, hafter⟩ := h
  exact ⟨before, a, after ++ more, by simp, hcon, forall_mem_append.mpr ⟨hafter, hmore⟩⟩

/-- What was asked since, and that a key is pinned only if it was before or an answer since
lists it. -/
structure ListedIfPinned (s : State) (iid fp : String) (t : State) : Prop where
  asked : s.asked <+: t.asked
  pinned : t.rows.pin iid .hostKey = fp →
    s.rows.pin iid .hostKey = fp ∨ ∃ b ∈ t.asked.drop s.asked.length, b.Lists iid fp

theorem ListedIfPinned.later {u : State} (h : ListedIfPinned s iid fp t)
    (hrows : u.rows.pin iid .hostKey = t.rows.pin iid .hostKey) (hasked : t.asked <+: u.asked) :
    ListedIfPinned s iid fp u := by
  refine ⟨h.asked.trans hasked, fun hpin => ?_⟩
  rcases h.pinned (hrows ▸ hpin) with hold | ⟨b, hb, hlists⟩
  · exact .inl hold
  · exact .inr ⟨b, (hasked.drop _).subset hb, hlists⟩

/-- One listing pins a doubted key only if the console lists it. -/
theorem visit_listedIfPinned {m : State}
    (hread : l.observed sy g .hostKey = some fp → s.rows.pin l.ci.id .hostKey = "" →
      l.ci.id = iid → l.console ≠ none) (hm : ListedIfPinned s iid fp m) :
    ListedIfPinned s iid fp (visit sy g s.rows l m).1 := by
  have hvisit := visit_spec sy g s.rows l m
  generalize visit sy g s.rows l m = out at hvisit ⊢
  cases hvisit with
  | failed quiet => exact hm.later (by rw [quiet.rows]) quiet.asked
  | @stored m' rows r stored isNew obs up =>
    have hsettle := @SameRows.settle (m'.wrote rows stored) g l (s.rows.byCloudID l.ci.id) stored
      isNew
    by_cases hiid : iid = r.instanceID
    · -- the row stored is the instance's own
      refine ⟨hsettle.asked ▸ hm.asked.trans obs.quiet.asked, fun hpin => ?_⟩
      rw [hsettle.rows] at hpin
      change rows.pin iid .hostKey = fp at hpin
      rw [hsettle.asked]
      change _ ∨ ∃ b ∈ m'.asked.drop s.asked.length, _
      rw [up.pin_eq, if_pos hiid, up.pin_stored, ← hiid] at hpin
      have hid : iid = l.ci.id := hiid.trans obs.instanceID
      split at hpin
      · exact ((hm.later (by rw [obs.quiet.rows]) obs.quiet.asked).pinned (obs.quiet.rows ▸ hpin))
      · rename_i hne
        by_cases hprev : s.rows.pin iid .hostKey = ""
        · -- a first key: observed, and the console lists it
          have hprev' : pinnedBefore (s.rows.byCloudID l.ci.id) .hostKey = "" := by
            rw [pinnedBefore_byCloudID, ← hid, hprev]
          have hobs : l.observed sy g .hostKey = some fp := by
            rw [← hpin]
            exact (obs.first .hostKey hprev').resolve_left hne
          rcases obs.console hprev' hne with hnone | ⟨keys, hkeys, hmem, hasked⟩
          · exact absurd hnone (hread hobs (hid ▸ hprev) hid.symm)
          · refine .inr ⟨_, (drop_sublist_drop_left _ hm.asked.length_le).subset hasked,
              hid.symm, keys, rfl, ?_⟩
            rw [← hpin]
            exact hmem
        · refine .inl ?_
          rw [← hpin, hid]
          exact ((obs.kept .hostKey (by rw [pinnedBefore_byCloudID, ← hid]; exact hprev)
            ).resolve_left hne).symm
    · refine hm.later ?_ ?_
      · rw [hsettle.rows]
        show rows.pin iid .hostKey = _
        rw [up.pin_eq, if_neg hiid]
      · rw [hsettle.asked]
        exact obs.quiet.asked

theorem syncGroup_listedIfPinned (hread : ∀ l ∈ p.listings, l.observed sy g .hostKey = some fp →
      s.rows.pin l.ci.id .hostKey = "" → l.ci.id = iid → l.console ≠ none) :
    ListedIfPinned s iid fp (syncGroup sy g p s).1 := by
  refine syncGroup_keeps (ListedIfPinned s iid fp) ?_ ?_ ?_ ⟨prefix_rfl, fun h => .inl h⟩
  · intro m n hsame hm
    exact hm.later (by rw [hsame.rows]) (by rw [hsame.asked])
  · intro ls hls l hl m hm
    exact visit_listedIfPinned (hread l (Poll.mem_listings hls hl)) hm
  · intro m r hm
    exact hm.later (Rows.pin_markRow _ _) prefix_rfl

theorem syncGroup_asked : s.asked <+: (syncGroup sy g p s).1.asked := by
  refine syncGroup_keeps (fun m => s.asked <+: m.asked) ?_ ?_ ?_ prefix_rfl
  · intro m n hsame hm
    rw [hsame.asked]
    exact hm
  · intro ls _ l _ m hm
    have hvisit := visit_spec sy g s.rows l m
    generalize visit sy g s.rows l m = out at hvisit ⊢
    cases hvisit with
    | failed quiet => exact hm.trans quiet.asked
    | stored obs up =>
      rw [SameRows.settle.asked]
      exact hm.trans obs.quiet.asked
  · intro m r hm
    exact hm

/-- **A doubted key waits for the console.** In every run in which the console can be read
whenever an unpinned instance shows a key it contradicted, such a key is pinned only if a later
answer lists it. -/
theorem doubted_key_waits_for_console (sy : Syncer) (g : Group) {s t : State} {ls : List Label}
    (hrun : RunWhere (step sy g) (ConsoleRead sy g) s ls t) {iid fp : String}
    (hdoubted : Doubted s.asked iid fp) (hpinned : t.rows.pin iid .hostKey = fp) :
    s.rows.pin iid .hostKey = fp ∨ ∃ b ∈ t.asked.drop s.asked.length, b.Lists iid fp := by
  have hinv : ListedIfPinned s iid fp t := by
    refine hrun.keeps (ListedIfPinned s iid fp) ?_ ⟨prefix_rfl, fun h => .inl h⟩
    intro m lbl u hcond hm hstep
    cases step_spec hstep with
    | opened | closed => exact hm.later rfl prefix_rfl
    | poll p =>
      by_cases hlisted : ∃ b ∈ m.asked.drop s.asked.length, b.Lists iid fp
      · -- listed already: nothing is left to show
        obtain ⟨b, hb, hlists⟩ := hlisted
        have hasked : m.asked <+: (syncGroup sy g p m).1.asked := syncGroup_asked
        exact ⟨hm.asked.trans hasked, fun _ => .inr ⟨b, (hasked.drop _).subset hb, hlists⟩⟩
      · -- still doubted, so the poll's console is read
        have hstill : Doubted m.asked iid fp := by
          obtain ⟨more, hmore⟩ := hm.asked
          rw [← hmore, drop_left] at hlisted
          rw [← hmore]
          exact hdoubted.append fun b hb hlists => hlisted ⟨b, hb, hlists⟩
        have hpoll : ListedIfPinned m iid fp (syncGroup sy g p m).1 :=
          syncGroup_listedIfPinned fun l hl hobs hempty hid =>
            hcond l hl fp hobs hempty (hid ▸ hstill)
        refine ⟨hm.asked.trans hpoll.asked, fun hpin => ?_⟩
        rcases hpoll.pinned hpin with hold | ⟨b, hb, hlists⟩
        · rcases hm.pinned hold with hfirst | hsince
          · exact .inl hfirst
          · exact absurd hsince hlisted
        · exact .inr ⟨b, (drop_sublist_drop_left _ hm.asked.length_le).subset hb, hlists⟩
  exact hinv.pinned hpinned

/-- The state after an instance showed a key that the console's answer does not list. -/
def contradicted : State :=
  (syncGroup ⟨.postgres, true⟩ linuxGroup
    (soundPoll [linuxListing "i-1" "a" "SHA256:k" (some ["SHA256:m"])]) State.initial).1

theorem contradicted_doubted : Doubted contradicted.asked "i-1" "SHA256:k" :=
  ⟨[], ⟨"i-1", "SHA256:k", some ["SHA256:m"]⟩, [], by rfl, ⟨rfl, rfl, _, rfl, by simp, by simp⟩,
    by simp⟩

/-- The console lists the key at the next poll, and it is pinned. -/
theorem doubted_key_waits_for_console_listed :
    ∃ t, RunWhere (step ⟨.postgres, true⟩ linuxGroup) (ConsoleRead ⟨.postgres, true⟩ linuxGroup)
        contradicted [.poll (soundPoll [linuxListing "i-1" "b" "SHA256:k" (some ["SHA256:k"])])] t ∧
      t.rows.pin "i-1" .hostKey = "SHA256:k" ∧
      (contradicted.rows.pin "i-1" .hostKey = "SHA256:k" ∨
        ∃ b ∈ t.asked.drop contradicted.asked.length, b.Lists "i-1" "SHA256:k") := by
  refine RunWhere.exists_imp (P := (·.rows.pin "i-1" .hostKey = "SHA256:k"))
    (fun _ hrun hpin => ⟨hpin, doubted_key_waits_for_console ⟨.postgres, true⟩ linuxGroup hrun
      contradicted_doubted hpin⟩) ⟨_, .cons ?_ rfl .nil, by decide +kernel⟩
  intro l hl fp _ _ _
  rw [mem_singleton.mp hl]
  exact Option.some_ne_none _

/-- **A contradicted key is trusted.** The console contradicts the key at one poll and cannot be
read at the next: the key is pinned, on first use, and no answer ever listed it. -/
theorem contradicted_key_is_trusted :
    ∃ t, Run (step ⟨.postgres, true⟩ linuxGroup) contradicted
        [.poll (soundPoll [linuxListing "i-1" "b" "SHA256:k" none])] t ∧
      Doubted contradicted.asked "i-1" "SHA256:k" ∧
      contradicted.rows.pin "i-1" .hostKey = "" ∧
      t.rows.pin "i-1" .hostKey = "SHA256:k" ∧
      ∀ b ∈ t.asked.drop contradicted.asked.length, ¬b.Lists "i-1" "SHA256:k" := by
  refine Run.exists_of_decide (P := fun t => t.rows.pin "i-1" .hostKey = "SHA256:k" ∧
    (t.asked.drop contradicted.asked.length).all (·.answer.isNone)) (by decide +kernel)
    fun t _ ⟨hpin, hall⟩ => ⟨contradicted_doubted, by decide +kernel, hpin, ?_⟩
  rintro b hb ⟨-, keys, hkeys, -⟩
  have hnone := all_eq_true.mp hall b hb
  rw [hkeys] at hnone
  cases hnone

end Zanskar.Asg
