import Zanskar.Session.Loops

/-!
# A move that fails (`internal/recstorage`, `internal/recording`)

`moveOne` copies a recording to the bucket, checks the copy, points the row at it and removes the
local file. `S3Storage.Create` only opens a spool file; `s3Spool.Close` uploads what the spool
holds, whether the copy into it was whole or not. What each operation answers is given: an error
may come from an operation that took effect.
-/

namespace Zanskar.Session

open Go Lib

/-- How `s3Spool.Close` goes: the spool is not synced, rewound or measured, so that nothing is
uploaded; or `PutObject` is called, and the spool file closed behind it. -/
inductive Closing where
  | unread
  | upload (put : Outcome) (file : Bool)
  deriving DecidableEq

/-- `s3Spool.Close`. -/
def Closing.outcome : Closing → Outcome
  | .unread => .failed false
  | .upload .ok file => if file then .ok else .failed true
  | .upload (.failed applied) _ => .failed applied

/-- What the operations of one `moveOne` answer, those it does not come to included; a copy may
break off after some bytes. -/
structure Answers where
  opens : Bool
  creates : Bool
  breaks : Option Nat
  closing : Closing
  deletes : Outcome
  updates : Outcome
  removes : Outcome

/-- `moveOne`: what is stored then, and whether it returns no error. -/
def moveOne (g : Gateway) (rec : Recording) (a : Answers) (st : Stored) : Stored × Bool :=
  let uri := g.s3.copyURI rec
  match a.opens, st.blobs rec.storageURI, a.creates with
  | true, some content, true =>
    match a.breaks, a.closing.outcome with
    | some n, o => (o.write (·.put uri (content.take n)) st, false)
    | none, .failed applied => ((Outcome.failed applied).write (·.put uri content) st, false)
    | none, .ok =>
      let st := st.put uri content
      if g.differs rec content then (a.deletes.write (·.drop uri) st, false)
      else
        let st' := a.updates.write (·.repoint rec.id rec.storageURI uri) st
        match a.updates, st.matched rec.id rec.storageURI with
        | .ok, true => (a.removes.write (·.drop rec.storageURI) st', true)
        | _, _ => (a.deletes.write (·.drop uri) st', false)
  | _, _, _ => (st, false)

/-! ## What a failed move leaves -/

/-- Whether an operation took effect. -/
def Outcome.applied : Outcome → Bool
  | .ok => true
  | .failed applied => applied

theorem Outcome.write_eq {α : Type} (o : Outcome) (set : α → α) (x : α) :
    o.write set x = if o.applied then set x else x := by
  cases o <;> rfl

/-- The row and the local blob as they were, and no object under the copy's name. -/
structure Undone (g : Gateway) (rec : Recording) (st st' : Stored) : Prop where
  rows : st'.recordings.rows = st.recordings.rows
  blob : st'.blobs rec.storageURI = st.blobs rec.storageURI
  copy : st'.blobs (g.s3.copyURI rec) = none

/-- The answers under which a failed move leaves nothing. A copy that was uploaded whole has to
go again when it is deleted, and an update that fails on a row that matches must not have
changed it. Before that, nothing may be uploaded, and nothing may have stood in the copy's place
before. -/
def Answers.Clean (g : Gateway) (rec : Recording) (st : Stored) (a : Answers) : Prop :=
  match a.opens, st.blobs rec.storageURI, a.creates with
  | true, some content, true =>
    if a.breaks = none ∧ a.closing.outcome = .ok then
      a.deletes.applied = true ∧
        (a.updates = .failed true → g.differs rec content = true ∨
          st.matched rec.id rec.storageURI = false)
    else a.closing.outcome.applied = false ∧ st.blobs (g.s3.copyURI rec) = none
  | _, _, _ => st.blobs (g.s3.copyURI rec) = none

section

variable {g : Gateway} {rec : Recording} {st : Stored} {content : Bytes}

theorem matched_put (uri : Uri) :
    (st.put uri content).matched rec.id rec.storageURI = st.matched rec.id rec.storageURI := rfl

/-- An update of a local address changes the rows exactly when one matches: the address the row
then has is not local. -/
theorem repoint_rows_eq_iff (hlocal : rec.storageURI.isFile) :
    (st.repoint rec.id rec.storageURI (g.s3.copyURI rec)).recordings.rows = st.recordings.rows ↔
      st.matched rec.id rec.storageURI = false := by
  have hne : g.s3.copyURI rec ≠ rec.storageURI := by
    intro h
    rw [← h] at hlocal
    cases hlocal
  have hmap (f : Recording → Recording) : st.recordings.rows.map f = st.recordings.rows ↔
      ∀ r ∈ st.recordings.rows, f r = r := by
    simpa using List.map_inj_left (f := f) (g := id) (l := st.recordings.rows)
  simp only [Stored.repoint, updateRecordingURI, Table.update, Stored.matched, hmap,
    List.any_eq_false]
  refine forall₂_congr fun r _ => ⟨fun h hstill => ?_, fun h => if_neg h⟩
  rw [if_pos hstill] at h
  have huri : r.storageURI = rec.storageURI := by
    simp only [Recording.stillAt, Bool.and_eq_true, decide_eq_true_eq] at hstill
    exact hstill.1.2
  exact hne ((congrArg Recording.storageURI h).trans huri)

/-- What an upload cut short or one that fails leaves. -/
theorem undone_put_iff (o : Outcome) :
    Undone g rec st (o.write (·.put (g.s3.copyURI rec) content) st) ↔
      o.applied = false ∧ st.blobs (g.s3.copyURI rec) = none := by
  cases h : o.applied with
  | true =>
    refine ⟨fun hundone => ?_, fun hno => by cases hno.1⟩
    have hcopy := hundone.copy
    simp [Outcome.write_eq, h, Stored.put] at hcopy
  | false =>
    simp only [Outcome.write_eq, h, Bool.false_eq_true, if_false, true_and]
    exact ⟨fun hundone => hundone.copy, fun hnone => ⟨rfl, rfl, hnone⟩⟩

/-- What deleting the copy again leaves, after whatever was done to the rows. -/
theorem undone_drop_iff (content : Bytes) (hlocal : rec.storageURI.isFile) (o : Outcome)
    {st' : Stored} (hblobs : st'.blobs = (st.put (g.s3.copyURI rec) content).blobs) :
    Undone g rec st (o.write (·.drop (g.s3.copyURI rec)) st') ↔
      o.applied ∧ st'.recordings.rows = st.recordings.rows := by
  have hne : rec.storageURI ≠ g.s3.copyURI rec := by
    intro h
    rw [h] at hlocal
    cases hlocal
  cases h : o.applied with
  | true =>
    simp only [Outcome.write_eq, h, if_true, true_and]
    refine ⟨fun hundone => hundone.rows, fun hrows => ⟨hrows, ?_, ?_⟩⟩
    · simp [Stored.drop, hblobs, Stored.put, Function.update_of_ne hne]
    · simp [Stored.drop]
  | false =>
    refine ⟨fun hundone => ?_, fun hno => by cases hno.1⟩
    have hcopy := hundone.copy
    simp [Outcome.write_eq, h, hblobs, Stored.put] at hcopy

/-- What is left when the row was not updated, or is said not to be, and the copy deleted. -/
theorem undone_update_iff (hlocal : rec.storageURI.isFile) (o o' : Outcome) :
    Undone g rec st (o'.write (·.drop (g.s3.copyURI rec))
        (o.write (·.repoint rec.id rec.storageURI (g.s3.copyURI rec))
          (st.put (g.s3.copyURI rec) content))) ↔
      o'.applied ∧ (o.applied → st.matched rec.id rec.storageURI = false) := by
  rw [Outcome.write_eq o]
  cases o.applied with
  | true =>
    refine (undone_drop_iff content hlocal o' ?_).trans ?_
    · rfl
    exact and_congr_right fun _ => (repoint_rows_eq_iff hlocal).trans (by simp [matched_put])
  | false =>
    refine (undone_drop_iff content hlocal o' ?_).trans ?_
    · rfl
    exact and_congr_right fun _ => by simp [Stored.put]

end

/-- A move of a local recording that returns an error leaves the row, the local blob and the
bucket as claimed exactly for clean answers. -/
theorem failed_move_undone_iff (g : Gateway) (rec : Recording) (a : Answers) (st : Stored)
    (hlocal : rec.storageURI.isFile = true) (hfails : (moveOne g rec a st).2 = false) :
    Undone g rec st (moveOne g rec a st).1 ↔ a.Clean g rec st := by
  have hsame : Undone g rec st st ↔ st.blobs (g.s3.copyURI rec) = none :=
    ⟨fun h => h.copy, fun h => ⟨rfl, rfl, h⟩⟩
  unfold moveOne Answers.Clean at *
  split at hfails
  · rename_i content hopens hblob hcreates
    cases hbreaks : a.breaks with
    | some n => simpa using undone_put_iff a.closing.outcome
    | none =>
      cases hclosing : a.closing.outcome with
      | failed applied => simpa using undone_put_iff (.failed applied)
      | ok =>
        simp only [hbreaks, hclosing, and_self, if_true] at hfails ⊢
        cases hdiffers : g.differs rec content with
        | true =>
          simp only [if_true, true_or, implies_true, and_true]
          rw [undone_drop_iff content hlocal a.deletes rfl]
          exact and_iff_left rfl
        | false =>
          -- The update is the last step that can fail.
          simp only [hdiffers, Bool.false_eq_true, if_false, false_or] at hfails ⊢
          cases hupdates : a.updates with
          | ok =>
            simp only [hupdates, matched_put] at hfails ⊢
            cases hm : st.matched rec.id rec.storageURI with
            | true => simp [hm] at hfails
            | false =>
              refine (undone_update_iff hlocal .ok _).trans ?_
              simp [hm]
          | failed applied =>
            refine (undone_update_iff hlocal (.failed applied) _).trans ?_
            simp [Outcome.applied]
  · simp [hsame]

/-- A move whose upload is refused leaves nothing. -/
theorem refused_upload_undone :
    Undone ⟨⟨"b", "r/"⟩, fun _ => "", fun _ _ => none⟩
      ⟨"1", "cast", .file "1", 1, "", some 0, none, none, false, false⟩
      ⟨.empty, Function.update (fun _ => none) (.file "1") (some [65]), [], []⟩
      (moveOne ⟨⟨"b", "r/"⟩, fun _ => "", fun _ _ => none⟩
        ⟨"1", "cast", .file "1", 1, "", some 0, none, none, false, false⟩
        ⟨true, true, none, .upload (.failed false) true, .ok, .ok, .ok⟩
        ⟨.empty, Function.update (fun _ => none) (.file "1") (some [65]), [], []⟩).1 :=
  (failed_move_undone_iff _ _ _ _ rfl (by decide)).mpr ⟨rfl, by decide⟩

/-- A copy that breaks off, its spool closed: the object of what was copied stays. -/
theorem broken_copy_stays :
    let g : Gateway := ⟨⟨"b", "r/"⟩, fun _ => "", fun _ _ => none⟩
    let r : Recording := ⟨"1", "cast", .file "1", 2, "", some 0, none, none, false, false⟩
    let moved := moveOne g r ⟨true, true, some 1, .upload .ok true, .ok, .ok, .ok⟩
      ⟨.empty, Function.update (fun _ => none) (.file "1") (some [65, 66]), [], []⟩
    moved.2 = false ∧ moved.1.blobs (g.s3.copyURI r) = some [65] := by
  decide

end Zanskar.Session
