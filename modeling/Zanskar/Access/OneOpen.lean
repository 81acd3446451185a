import Zanskar.Access.Machine

/-!
# One open request a tuple (ADR 0018)

"One open request per (user, target or group, protocol)": `create` refuses a
second pending request, by reading the open one before it inserts. Nothing
behind the two statements enforces the rule, so it is a property of runs.

- `two_creates_two_pending` : two calls that overlap leave two pending requests;
- `noTwoPending_of_serial` : where calls for one tuple do not overlap and its stamps
  ascend, no state has two.

The stamps matter because `Open` returns the newest open request only: behind an
approved grant stamped later, it would not see a pending one.
-/

namespace Zanskar

open Go Lib List

/-- Two requests of one user for the same target or group and protocol. -/
def Request.Rivals (r r' : Request) : Prop :=
  r.userID = r'.userID ∧ r.protocol = r'.protocol ∧
    ((r.targetID ≠ "" ∧ r.targetID = r'.targetID) ∨ (r.asgID ≠ "" ∧ r.asgID = r'.asgID))

/-- The rule: no two pending requests of one user for the same target or group
and the same protocol. -/
def AccessState.NoTwoPending (s : AccessState) : Prop :=
  ∀ r ∈ s.requests.rows, ∀ r' ∈ s.requests.rows, r.status = .pending →
    r'.status = .pending → r.Rivals r' → r = r'

/-- The condition on a step: a call reads only when no other call for its tuple
is between its read and its insert, and a row is stamped later than the rows of
its tuple. -/
def Serial (s : AccessState) : AccessLabel → Prop
  | .check _ _ userID input _ =>
    ∀ d ∈ s.checked, d.tuple ≠ ⟨userID, input.targetID, input.asgID, input.protocol⟩
  | .insert d _ now => ∀ r ∈ s.requests.rows, r.tuple = d.tuple → r.createdAt < timeArg now
  | _ => True

/-! ## The invariant -/

/-- What serial runs keep. A pending request is the newest of its tuple, so the
read of the tuple finds it; and a call between its read and its insert is the
only one of its tuple, which has no pending request. -/
structure OneOpen (rows : List Request) (checked : List Draft) : Prop where
  placed : ∀ r ∈ rows, r.tuple.Placed
  placedDraft : ∀ d ∈ checked, d.tuple.Placed
  latest : ∀ r ∈ rows, r.status = .pending → ∀ r' ∈ rows,
    r'.tuple = r.tuple → r'.id ≠ r.id → r'.createdAt < r.createdAt
  apart : (checked.map Draft.tuple).Nodup
  free : ∀ d ∈ checked, ∀ r ∈ rows, r.tuple = d.tuple → r.status ≠ .pending

theorem oneOpen_init : OneOpen AccessState.init.requests.rows AccessState.init.checked where
  placed := fun _ h => by cases h
  placedDraft := fun _ h => by cases h
  latest := fun _ h => by cases h
  apart := nodup_nil
  free := fun _ h => by cases h

section Step

variable {rows : List Request} {checked : List Draft} {now : Int} {r : Request} {tbl : Requests}
  {d : Draft} {userID : String} {inv : Inventory} {pols : List Policy} {input : CreateInput}

/-- A statement's effect on every row keeps the invariant. -/
theorem OneOpen.onRow (h : OneOpen rows checked) (l : AccessLabel) :
    OneOpen (rows.map l.onRow) checked := by
  refine ⟨fun r' hr' => ?_, h.placedDraft, fun r' hr' hp q' hq' ht hne => ?_, h.apart,
    fun d hd r' hr' ht hp => ?_⟩
  · obtain ⟨r, hr, rfl⟩ := mem_map.mp hr'
    rw [(l.onRow_fate r).fixed.2.1]
    exact h.placed r hr
  · obtain ⟨r, hr, rfl⟩ := mem_map.mp hr'
    obtain ⟨q, hq, rfl⟩ := mem_map.mp hq'
    obtain ⟨hidr, htr, hsr, -, -⟩ := (l.onRow_fate r).fixed
    obtain ⟨hidq, htq, hsq, -, -⟩ := (l.onRow_fate q).fixed
    rw [hsr, hsq]
    exact h.latest r hr ((l.onRow_fate r).pending hp) q hq (by rw [← htq, ht, htr])
      (by rwa [← hidq, ← hidr])
  · obtain ⟨r, hr, rfl⟩ := mem_map.mp hr'
    exact h.free d hd r hr (by rw [← (l.onRow_fate r).fixed.2.1, ht]) ((l.onRow_fate r).pending hp)

/-- The WHERE clause of `Open`, on placed tuples: the row is of the tuple, and
pending or active. -/
theorem opens_tuple {t : Tuple} {q : Request} (ht : t.Placed) (hq : q.tuple.Placed)
    (hopen : Requests.opens t.userID t.targetID t.asgID t.protocol now q) : q.tuple = t := by
  simp only [Requests.opens, Bool.and_eq_true, decide_eq_true_eq] at hopen
  exact (sameID_iff hq ht).mpr ⟨hopen.1.1.1, hopen.1.1.2, hopen.1.2⟩

theorem opens_of_pending (hplaced : r.tuple.Placed) (hp : r.status = .pending) (now : Int) :
    Requests.opens r.userID r.targetID r.asgID r.protocol now r := by
  have hsame : (sameID r.targetID r.targetID || sameID r.asgID r.asgID) :=
    ((sameID_iff hplaced hplaced).mp rfl).2.2
  simp [Requests.opens, hsame, hp]

/-- The read of a tuple finds its pending request: it is the newest that is
open. -/
theorem OneOpen.openRequest_eq (h : OneOpen tbl.rows checked)
    (hr : r ∈ tbl.rows) (hp : r.status = .pending) (now : Int) :
    tbl.openRequest r.userID r.targetID r.asgID r.protocol now = some r := by
  have hin := mem_filter.mpr ⟨hr, opens_of_pending (h.placed r hr) hp now⟩
  rw [Requests.openRequest, newest_eq_argmax]
  cases hb : (tbl.rows.filter
      (Requests.opens r.userID r.targetID r.asgID r.protocol now)).argmax Request.createdAt with
  | none => exact absurd (argmax_eq_none.mp hb) (ne_nil_of_mem hin)
  | some b =>
    obtain ⟨hbrow, hbopen⟩ := mem_filter.mp (argmax_mem hb)
    have htuple : b.tuple = r.tuple := opens_tuple (h.placed r hr) (h.placed b hbrow) hbopen
    have hbr : b.id = r.id := by
      by_contra hne
      have hlt := h.latest r hr hp b hbrow htuple hne
      have hle := le_of_mem_argmax hin hb
      omega
    rw [Table.eq_of_key_eq hbrow hr hbr]

/-- A read that passes finds no pending request of its tuple. -/
theorem OneOpen.free_of_check (h : OneOpen tbl.rows checked)
    (hd : createCheck inv pols userID input now tbl = .ok d) :
    ∀ r ∈ tbl.rows, r.tuple = d.tuple → r.status ≠ .pending := by
  obtain ⟨-, htuple, -, hocc⟩ := createCheck_ok hd
  intro r hr ht hp
  -- the call would have found the row, and been refused
  obtain ⟨rfl, hrest⟩ := Tuple.mk.inj (ht.trans htuple)
  obtain ⟨htarget, hasg, hproto⟩ := hrest
  rw [← htarget, ← hasg, ← hproto, h.openRequest_eq hr hp] at hocc
  simp [occupied, hp] at hocc

/-- A call that passes its read, with no other call of its tuple in flight. -/
theorem OneOpen.check (h : OneOpen tbl.rows checked)
    (hd : createCheck inv pols userID input now tbl = .ok d) (halone : ∀ d ∈ checked,
      d.tuple ≠ ⟨userID, input.targetID, input.asgID, input.protocol⟩) :
    OneOpen tbl.rows (d :: checked) := by
  obtain ⟨hplaced, htuple, -⟩ := createCheck_ok hd
  refine ⟨h.placed, forall_mem_cons.mpr ⟨hplaced, h.placedDraft⟩, h.latest, ?_,
    forall_mem_cons.mpr ⟨h.free_of_check hd, h.free⟩⟩
  rw [map_cons, nodup_cons]
  refine ⟨fun hmem => ?_, h.apart⟩
  obtain ⟨d', hd', heq⟩ := mem_map.mp hmem
  exact halone d' hd' (heq.trans htuple)

/-- The calls left when one has inserted, or failed to, are of other tuples. -/
theorem OneOpen.erase (h : OneOpen rows checked) (hd : d ∈ checked) :
    OneOpen rows (checked.erase d) ∧
      ∀ d' ∈ checked.erase d, d'.tuple ≠ d.tuple := by
  have herase : ∀ d' ∈ checked.erase d, d' ∈ checked ∧ d'.tuple ≠ d.tuple := by
    intro d' hd'
    obtain ⟨hne, hmem⟩ := (h.apart.of_map).mem_erase_iff.mp hd'
    exact ⟨hmem, fun ht => hne (inj_on_of_nodup_map h.apart hmem hd ht)⟩
  exact ⟨⟨h.placed, fun d' hd' => h.placedDraft d' (herase d' hd').1, h.latest,
    h.apart.sublist (erase_sublist.map Draft.tuple),
    fun d' hd' => h.free d' (herase d' hd').1⟩, fun d' hd' => (herase d' hd').2⟩

/-- An insert after a read that passed, stamped later than its tuple's rows. -/
theorem OneOpen.insert (h : OneOpen rows checked) {id : String}
    (hstamp : ∀ r ∈ rows, r.tuple = d.tuple → r.createdAt < timeArg now)
    (hd : d ∈ checked) : OneOpen (rows ++ [d.request id now]) (checked.erase d) := by
  obtain ⟨hrest, hother⟩ := h.erase hd
  have hmem : ∀ r, r ∈ rows ++ [d.request id now] ↔ r ∈ rows ∨ r = d.request id now :=
    fun r => by simp
  refine ⟨fun r hr => ?_, hrest.placedDraft, fun r hr hp r' hr' ht hne => ?_, hrest.apart,
    fun d' hd' r hr ht => ?_⟩
  · rcases (hmem r).mp hr with hr | rfl
    · exact h.placed r hr
    · exact h.placedDraft d hd
  · rcases (hmem r).mp hr with hr | rfl <;> rcases (hmem r').mp hr' with hr' | rfl
    · exact h.latest r hr hp r' hr' ht hne
    · -- a pending row of the tuple would have refused the call
      exact absurd hp (h.free d hd r hr ht.symm)
    · exact hstamp r' hr' ht
    · exact absurd rfl hne
  · rcases (hmem r).mp hr with hr | rfl
    · exact hrest.free d' hd' r hr ht
    · exact absurd ht.symm (hother d' hd')

end Step

variable {s : AccessState}

/-- **One statement keeps the invariant**, when it meets the condition. -/
theorem oneOpen_step {s' : AccessState} {l : AccessLabel} (hserial : Serial s l)
    (h : OneOpen s.requests.rows s.checked) (hstep : accessStep s l = some s') :
    OneOpen s'.requests.rows s'.checked := by
  have hrows := accessStep_rows hstep
  have honRow := h.onRow l
  cases l <;> simp only [accessStep] at hstep
  case check inv pols userID input now =>
    split at hstep <;> cases hstep
    · exact h
    · rename_i hd
      exact h.check hd hserial
  case insert d id now =>
    have hchecked : d ∈ s.checked ∧ s'.checked = s.checked.erase d := by
      split at hstep
      case isFalse => cases hstep
      rename_i hd
      cases hstep
      exact ⟨hd, rfl⟩
    rw [hchecked.2]
    have hid : s.requests.rows.map (AccessLabel.insert d id now).onRow = s.requests.rows :=
      map_id'' (fun _ => rfl) s.requests.rows
    rw [hid] at hrows
    rcases hrows with hsame | ⟨d', id', now', hl, -, hadd, -⟩
    · rw [hsame]
      exact (h.erase hchecked.1).1
    · cases hl
      rw [hadd]
      exact h.insert hserial hchecked.1
  case approveGet id asks fresh enrolled =>
    split at hstep <;> cases hstep <;> exact h
  case approveTerms cur inv pols approverID d now =>
    split at hstep
    case isFalse => cases hstep
    split at hstep <;> cases hstep <;> exact h
  case approve a at_ =>
    split at hstep
    case isFalse => cases hstep
    cases hstep
    exact honRow
  all_goals
    cases hstep
    exact honRow

theorem OneOpen.noTwoPending (h : OneOpen s.requests.rows s.checked) : s.NoTwoPending := by
  rintro r hr r' hr' hp hp' ⟨hu, hproto, hplace⟩
  have htuple : r.tuple = r'.tuple := by
    refine (sameID_iff (h.placed r hr) (h.placed r' hr')).mpr ⟨hu, hproto, ?_⟩
    change (sameID r.targetID r'.targetID || sameID r.asgID r'.asgID)
    rcases hplace with ⟨hne, heq⟩ | ⟨hne, heq⟩ <;> simp [sameID, ← heq, hne]
  by_contra hne
  have hid : r.id ≠ r'.id := fun he => hne (Table.eq_of_key_eq hr hr' he)
  have hlt := h.latest r' hr' hp' r hr htuple hid
  have hlt' := h.latest r hr hp r' hr' htuple.symm hid.symm
  omega

/-- **One open request a tuple, in every serial run.** From an empty table, in
every interleaving of the statements of any number of `create` calls and of the
other writes whose reads and inserts meet `Serial`, no state has two pending
requests of one user for the same target or group and protocol. -/
theorem noTwoPending_of_serial {ls : List AccessLabel} {s : AccessState}
    (h : RunWhere accessStep Serial AccessState.init ls s) : s.NoTwoPending :=
  (h.keeps (fun s => OneOpen s.requests.rows s.checked)
    (fun _ _ _ hserial hs hstep => oneOpen_step hserial hs hstep) oneOpen_init).noTwoPending

/-! ## Two calls that overlap -/

/-- An hour of ssh on `h`, asked for by `u` at `now`. -/
def askHour (now : Int) : AccessLabel :=
  .check ⟨fun _ => some (.host, ∅), fun _ => none⟩ [hourPolicy] "u"
    ⟨"h", "", .ssh, "maintenance", 60, ""⟩ now

/-- What the call inserts. -/
def hourDraft : Draft := ⟨"u", "p", "g", "h", "", .ssh, "maintenance", 60, ""⟩

/-- Both calls read before either inserts: two pending requests. -/
theorem two_creates_two_pending :
    ∃ s, Run accessStep .init
        [askHour 0, askHour 1000, .insert hourDraft "r1" 2000, .insert hourDraft "r2" 3000] s ∧
      ¬s.NoTwoPending := by
  refine ⟨_, Run.of_exec rfl, fun h => ?_⟩
  have heq := h (hourDraft.request "r1" 2000) (by decide) (hourDraft.request "r2" 3000)
    (by decide) rfl rfl ⟨rfl, rfl, Or.inl ⟨by decide, rfl⟩⟩
  exact absurd heq (by decide)

/-- One call after the other: the second is refused. -/
theorem noTwoPending_one_after_other :
    ∃ s, RunWhere accessStep Serial .init
        [askHour 0, .insert hourDraft "r1" 2000, askHour 3000] s ∧ s.NoTwoPending := by
  refine RunWhere.exists_imp (P := fun _ => True) (fun _ hrun _ => noTwoPending_of_serial hrun)
    ⟨_, .snoc (.snoc (.snoc .nil ?_ rfl) ?_ rfl) ?_ rfl, trivial⟩
  · exact fun d hd => (by cases hd)
  · exact fun r hr => (by cases hr)
  · exact fun d hd => (by cases hd)

end Zanskar
