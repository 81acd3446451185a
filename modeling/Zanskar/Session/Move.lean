import Zanskar.Session.Places

/-!
# The move and the sweep over the same recordings

The move copies a recording, repoints its row and deletes the file; the sweep deletes the blob a
row named when it was listed and then marks the row. Both updates ask that the row still names the
address the loop read and is not purged, and a copy whose row no longer does is deleted again.

The invariant `Tidy` follows the places and the blobs through every interleaving: a blob is named
by a live place or is the move's to place or delete; a live place's blob is there, or the sweep has
deleted it and is about to mark the row.

- `move_and_sweep_agree` : once both loops are done, rows and blobs agree.
-/

namespace Zanskar.Session

open Go Lib List Function Option

/-! ## What the loops have in hand -/

/-- The recordings of its page that the move has not repointed yet. -/
def Mover.pending : Mover → List Recording
  | .opening rec rest | .copying rec _ rest | .copied rec rest => rec :: rest
  | .dropping _ rest | .repointed _ rest => rest
  | .idle | .listing _ => []

/-- The blob that is the move's: a copy no row names yet, or the file of a row that no longer
names it. -/
def Mover.holds (s3 : S3Storage) (uri : Uri) : Mover → Prop
  | .copied rec _ | .dropping rec _ => uri = s3.copyURI rec
  | .repointed rec _ => uri = rec.storageURI
  | _ => False

@[simp] theorem Mover.pending_proceed (rec : Recording) (rest : List Recording) :
    (Mover.proceed rec rest).pending = rest := by
  cases rest <;> rfl

/-- The candidates whose rows the sweep has not dealt with. -/
def Sweeper.pending : Sweeper → List PurgeCandidate
  | .deleting c _ rest | .marking c _ rest => c :: rest.map Prod.fst
  | .forgetting _ _ rest | .forgettingOutput _ _ rest | .auditing _ _ rest => rest.map Prod.fst
  | .idle => []

/-- The blob the sweep has deleted, before it marks the row. -/
def Sweeper.deleted (id : String) (uri : Uri) : Sweeper → Prop
  | .marking c _ _ => c.id = id ∧ c.uri = uri
  | _ => False

variable {id : String} {uri : Uri} {st : Stored}

theorem Sweeper.mem_pending_of_deleted {w : Sweeper}
    (h : w.deleted id uri) : ∃ c ∈ w.pending, c.uri = uri := by
  cases w with
  | marking c reason rest => exact ⟨c, mem_cons_self, h.2⟩
  | _ => exact h.elim

@[simp] theorem Sweeper.pending_proceed (rest : List (PurgeCandidate × String)) :
    (Sweeper.proceed rest).pending = rest.map Prod.fst := by
  cases rest <;> rfl

theorem Sweeper.not_deleted_proceed
    {rest : List (PurgeCandidate × String)} : ¬(Sweeper.proceed rest).deleted id uri := by
  cases rest <;> exact not_false

/-! ## The invariant -/

/-- Addresses that belong to a recording: where it was at first, and where it is moved to. -/
def Owns (s3 : S3Storage) (ps₀ : List Place) (id : String) (uri : Uri) : Prop :=
  ∃ p ∈ ps₀, p.id = id ∧ (uri = p.uri ∨ uri = s3.copyOf p)

/-- No two recordings share an address, and none is where another would be moved to: names are
made of fresh ids. -/
structure Addressed (s3 : S3Storage) (ps₀ : List Place) : Prop where
  uris : ∀ p ∈ ps₀, ∀ p' ∈ ps₀, p.uri = p'.uri → p.id = p'.id
  copies : ∀ p ∈ ps₀, ∀ p' ∈ ps₀, p'.uri = s3.copyOf p → p'.id = p.id

theorem Owns.unique {s3 : S3Storage} {ps₀ : List Place} (haddr : Addressed s3 ps₀) {id' : String}
    (h : Owns s3 ps₀ id uri) (h' : Owns s3 ps₀ id' uri) : id = id' := by
  obtain ⟨p, hp, rfl, huri⟩ := h
  obtain ⟨p', hp', rfl, huri'⟩ := h'
  rcases huri with rfl | rfl <;> rcases huri' with huri' | huri'
  · exact haddr.uris p hp p' hp' huri'
  · exact haddr.copies p' hp' p hp huri'
  · exact (haddr.copies p hp p' hp' huri'.symm).symm
  · exact S3Storage.copyOf_inj huri'

/-- What is so of the recording the move is at. -/
def Mover.Ready (s3 : S3Storage) (content : String → Option Bytes) (ps : List Place)
    (blobs : Uri → Option Bytes) : Mover → Prop
  | .copying rec c _ => content rec.id = some c
  | .copied rec _ => blobs (s3.copyURI rec) = content rec.id
  | .dropping rec _ => ∀ p ∈ ps, p.purged = false → p.uri ≠ s3.copyURI rec
  | .repointed rec _ => ∀ p ∈ ps, p.uri ≠ rec.storageURI
  | _ => True

/-- The places and blobs are in order, up to what the loops have in hand. `content` is what each
recording held at first. -/
structure Tidy (s3 : S3Storage) (ps₀ : List Place) (content : String → Option Bytes)
    (ps : List Place) (blobs : Uri → Option Bytes) (m : Mover) (w : Sweeper) : Prop where
  ids : (ps.map Place.id).Nodup
  rows : ps.map Place.id = ps₀.map Place.id
  /-- A recording stays purged, keeps its id and format, and is where it was or where it is moved
  to. -/
  placed : ∀ p ∈ ps, ∃ p₀ ∈ ps₀, p₀.id = p.id ∧ p₀.format = p.format ∧
    p₀.finished = p.finished ∧ (p.purged = false → p₀.purged = false) ∧
    (p.uri = p₀.uri ∨ p.uri = s3.copyOf p₀)
  /-- A blob is named by a live place, or the move has it in hand. -/
  named : ∀ uri, blobs uri ≠ none →
    (∃ p ∈ ps, p.purged = false ∧ p.uri = uri) ∨ m.holds s3 uri
  /-- A live place has its content, or the sweep is about to mark it. -/
  kept : ∀ p ∈ ps, p.purged = false → blobs p.uri = content p.id ∨ w.deleted p.id p.uri
  /-- What the move has listed still stands where it was listed. -/
  moving_ids : (m.pending.map Recording.id).Nodup
  moving : ∀ rec ∈ m.pending, rec.storageURI.isFile = true ∧
    ∃ p ∈ ps, p.id = rec.id ∧ p.format = rec.format ∧ p.uri = rec.storageURI
  ready : m.Ready s3 content ps blobs
  /-- What the sweep has listed in the bucket is still there; a local file may have moved. -/
  sweeping : ∀ c ∈ w.pending, Owns s3 ps₀ c.id c.uri ∧
    (c.uri.isFile = true ∨ ∃ p ∈ ps, p.id = c.id ∧ p.uri = c.uri)
  deleted : ∀ id uri, w.deleted id uri → blobs uri = none

namespace Tidy

variable {s3 : S3Storage} {ps₀ ps : List Place} {content : String → Option Bytes}
  {blobs : Uri → Option Bytes} {m : Mover} {w : Sweeper} (h : Tidy s3 ps₀ content ps blobs m w)
  (haddr : Addressed s3 ps₀) {p p' : Place}

include h

theorem owns (hp : p ∈ ps) : Owns s3 ps₀ p.id p.uri := by
  obtain ⟨p₀, hp₀, hid, -, -, -, huri⟩ := h.placed p hp
  exact ⟨p₀, hp₀, hid, huri⟩

theorem owns_copy (hp : p ∈ ps) : Owns s3 ps₀ p.id (s3.copyOf p) := by
  obtain ⟨p₀, hp₀, hid, hformat, -⟩ := h.placed p hp
  refine ⟨p₀, hp₀, hid, .inr ?_⟩
  rw [S3Storage.copyOf, S3Storage.copyOf, hid, hformat]

theorem eq_of_id (hp : p ∈ ps) (hp' : p' ∈ ps) (hid : p.id = p'.id) : p = p' :=
  inj_on_of_nodup_map h.ids hp hp' hid

include haddr

theorem eq_of_uri (hp : p ∈ ps) (hp' : p' ∈ ps) (huri : p.uri = p'.uri) : p = p' :=
  h.eq_of_id hp hp' ((h.owns hp).unique haddr (huri ▸ h.owns hp'))

/-- No row names the copy of a recording that is still to be repointed. -/
theorem not_at_copy {rec : Recording} (hrec : rec ∈ m.pending) (hp : p ∈ ps) :
    p.uri ≠ s3.copyURI rec := by
  intro huri
  obtain ⟨hfile, q, hq, hid, hformat, hquri⟩ := h.moving rec hrec
  rw [S3Storage.copyURI_eq hid hformat] at huri
  have hpq : p = q := h.eq_of_id hp hq ((h.owns hp).unique haddr (huri ▸ h.owns_copy hq))
  rw [← hquri, ← hpq, huri] at hfile
  exact Bool.noConfusion hfile

/-- The sweep deletes no copy of a recording that is still to be repointed. -/
theorem not_sweeping_copy {rec : Recording} (hrec : rec ∈ m.pending) {c : PurgeCandidate}
    (hc : c ∈ w.pending) : c.uri ≠ s3.copyURI rec := by
  intro huri
  rcases (h.sweeping c hc).2 with hfile | ⟨p, hp, -, hpuri⟩
  · rw [huri] at hfile
    exact Bool.noConfusion hfile
  · exact h.not_at_copy haddr hrec hp (hpuri.trans huri)

end Tidy

/-! ## One lemma for each kind of write -/

namespace Tidy

variable {s3 : S3Storage} {ps₀ ps : List Place} {content : String → Option Bytes}
  {blobs : Uri → Option Bytes} {m : Mover} {w : Sweeper} {rec : Recording} {c : Bytes}
  {rest : List Recording} {cand : PurgeCandidate} {reason : String}
  {cands : List (PurgeCandidate × String)}

/-- The move is done with a recording: it holds nothing any more. -/
theorem proceed (h : Tidy s3 ps₀ content ps blobs m w)
    (hm : m.pending = rest ∨ m.pending = rec :: rest)
    (hheld : ∀ uri, m.holds s3 uri → blobs uri = none) :
    Tidy s3 ps₀ content ps blobs (.proceed rec rest) w := by
  have hsub : rest.Sublist m.pending := by
    rcases hm with hm | hm <;> rw [hm]
    exact sublist_cons_self rec rest
  exact { h with
    named := fun uri huri => (h.named uri huri).imp_right fun hholds =>
      absurd (hheld uri hholds) huri
    moving_ids := by
      rw [Mover.pending_proceed]
      exact h.moving_ids.sublist (hsub.map Recording.id)
    moving := by
      rw [Mover.pending_proceed]
      exact fun r hr => h.moving r (hsub.subset hr)
    ready := by cases rest <;> trivial }

theorem list (h : Tidy s3 ps₀ content ps blobs m w) (hm : ∀ uri, ¬m.holds s3 uri)
    (hids : ((rec :: rest).map Recording.id).Nodup)
    (hrecs : ∀ r ∈ rec :: rest, r.storageURI.isFile ∧ r.place ∈ ps) :
    Tidy s3 ps₀ content ps blobs (.opening rec rest) w :=
  { h with
    named := fun uri huri => (h.named uri huri).imp_right fun hholds => absurd hholds (hm uri)
    moving_ids := hids
    moving := fun r hr => ⟨(hrecs r hr).1, r.place, (hrecs r hr).2, rfl, rfl, rfl⟩
    ready := trivial }

/-- A recording is opened: what is read is what it held at first. -/
theorem read (h : Tidy s3 ps₀ content ps blobs (.opening rec rest) w) (haddr : Addressed s3 ps₀)
    (hc : blobs rec.storageURI = some c) :
    Tidy s3 ps₀ content ps blobs (.copying rec c rest) w := by
  obtain ⟨-, q, hq, hid, -, huri⟩ := h.moving rec mem_cons_self
  have hlive : q.purged = false := by
    rcases h.named rec.storageURI (by rw [hc]; exact some_ne_none c) with
      ⟨p, hp, hlive, hpuri⟩ | hholds
    · rwa [← h.eq_of_uri haddr hp hq (hpuri.trans huri.symm)]
    · exact hholds.elim
  have hcontent : content rec.id = some c := by
    rcases h.kept q hq hlive with hkept | hdel
    · rw [← hid, ← hkept, huri, hc]
    · rw [huri] at hdel
      exact absurd (hc.symm.trans (h.deleted _ _ hdel)) (some_ne_none c)
  exact { h with ready := hcontent }

theorem upload (h : Tidy s3 ps₀ content ps blobs (.copying rec c rest) w)
    (haddr : Addressed s3 ps₀) :
    Tidy s3 ps₀ content ps (Function.update blobs (s3.copyURI rec) (some c)) (.copied rec rest)
      w := by
  have hrec : rec ∈ (Mover.copying rec c rest).pending := mem_cons_self
  exact { h with
    named := by
      intro uri huri
      by_cases hcopy : uri = s3.copyURI rec
      · exact .inr hcopy
      · rw [update_of_ne hcopy] at huri
        exact (h.named uri huri).imp_right False.elim
    kept := by
      intro p hp hlive
      rw [update_of_ne (h.not_at_copy haddr hrec hp)]
      exact h.kept p hp hlive
    ready := by
      show Function.update blobs _ _ _ = _
      rw [update_self]
      exact h.ready.symm
    deleted := by
      intro id uri hdel
      obtain ⟨cand, hcand, rfl⟩ := Sweeper.mem_pending_of_deleted hdel
      rw [update_of_ne (h.not_sweeping_copy haddr hrec hcand)]
      exact h.deleted id _ hdel }

/-- The copy is to be deleted again: no row names it. -/
theorem refuse (h : Tidy s3 ps₀ content ps blobs (.copied rec rest) w)
    (haddr : Addressed s3 ps₀) : Tidy s3 ps₀ content ps blobs (.dropping rec rest) w :=
  { h with
    moving_ids := (nodup_cons.mp h.moving_ids).2
    moving := fun r hr => h.moving r (mem_cons_of_mem rec hr)
    ready := fun _ hp _ => h.not_at_copy haddr mem_cons_self hp }

theorem repoint (h : Tidy s3 ps₀ content ps blobs (.copied rec rest) w) (haddr : Addressed s3 ps₀)
    (hany : ps.any (·.stillAt rec.id rec.storageURI)) :
    Tidy s3 ps₀ content (Session.repoint ps rec.id rec.storageURI (s3.copyURI rec)) blobs
      (.repointed rec rest) w := by
  obtain ⟨q, hq, hat⟩ := any_eq_true.mp hany
  obtain ⟨hqid, hquri, hqlive⟩ := Place.stillAt_iff.mp hat
  obtain ⟨hfile, q', hq', hid', hformat, -⟩ := h.moving rec mem_cons_self
  obtain rfl := h.eq_of_id hq hq' (hqid.trans hid'.symm)
  have hunique : ∀ p ∈ ps, p.stillAt rec.id rec.storageURI → p = q := fun p hp hpat =>
    h.eq_of_id hp hq ((Place.stillAt_iff.mp hpat).1.trans hqid.symm)
  have hcopy : s3.copyURI rec = s3.copyOf q := S3Storage.copyURI_eq hqid hformat
  refine { h with ids := ?ids, rows := ?rows, placed := ?placed, named := ?named, kept := ?kept,
                  moving_ids := ?moving_ids, moving := ?moving,
                  ready := ?ready, sweeping := ?sweeping }
  case ids => rw [ids_repoint]; exact h.ids
  case rows => rw [ids_repoint]; exact h.rows
  case placed =>
    intro p' hp'
    obtain ⟨p, hp, ⟨hpat, rfl⟩ | ⟨-, rfl⟩⟩ := mem_repoint.mp hp'
    · -- the row that moves keeps all but its address
      obtain rfl := hunique p hp hpat
      obtain ⟨p₀, hp₀, hid₀, hformat₀, hfin₀, hlive₀, -⟩ := h.placed p hp
      refine ⟨p₀, hp₀, hid₀, hformat₀, hfin₀, hlive₀, .inr ?_⟩
      show s3.copyURI rec = s3.copyOf p₀
      rw [hcopy, S3Storage.copyOf, S3Storage.copyOf, hid₀, hformat₀]
    · exact h.placed p' hp
  case named =>
    intro uri huri
    rcases h.named uri huri with ⟨p, hp, hlive, hpuri⟩ | hholds
    · by_cases hpat : p.stillAt rec.id rec.storageURI
      · -- the blob left behind is the one to delete next
        exact .inr (hpuri.symm.trans (Place.stillAt_iff.mp hpat).2.1)
      · exact .inl ⟨p, mem_repoint.mpr ⟨p, hp, .inr ⟨Bool.eq_false_iff.mpr hpat, rfl⟩⟩, hlive,
          hpuri⟩
    · refine .inl ⟨{ q with uri := s3.copyURI rec }, mem_repoint.mpr ⟨q, hq, .inl ⟨hat, rfl⟩⟩,
        hqlive, ?_⟩
      exact Eq.symm hholds
  case kept =>
    intro p' hp' hlive
    obtain ⟨p, hp, ⟨hpat, rfl⟩ | ⟨-, rfl⟩⟩ := mem_repoint.mp hp'
    · refine .inl ?_
      show blobs (s3.copyURI rec) = content p.id
      rw [(Place.stillAt_iff.mp hpat).1]
      exact h.ready
    · exact h.kept p' hp hlive
  case moving_ids => exact (nodup_cons.mp h.moving_ids).2
  case moving =>
    intro r hr
    obtain ⟨hrfile, p, hp, hid, hrformat, huri⟩ := h.moving r (mem_cons_of_mem rec hr)
    have hne : p.id ≠ rec.id := by
      intro heq
      exact (nodup_cons.mp h.moving_ids).1 (mem_map.mpr ⟨r, hr, hid.symm.trans heq⟩)
    have hnot : p.stillAt rec.id rec.storageURI = false :=
      Bool.eq_false_iff.mpr fun hpat => hne (Place.stillAt_iff.mp hpat).1
    exact ⟨hrfile, p, mem_repoint.mpr ⟨p, hp, .inr ⟨hnot, rfl⟩⟩, hid, hrformat, huri⟩
  case ready =>
    intro p' hp' heq
    -- no row names the old address: the copy's is not local, and no other had it
    obtain ⟨p, hp, ⟨-, rfl⟩ | ⟨hnot, rfl⟩⟩ := mem_repoint.mp hp'
    · have hs3 : (s3.copyURI rec).isFile := by
        rw [show s3.copyURI rec = rec.storageURI from heq]
        exact hfile
      exact Bool.noConfusion hs3
    · obtain rfl := h.eq_of_uri haddr hp hq (heq.trans hquri.symm)
      exact Bool.noConfusion (hat.symm.trans hnot)
  case sweeping =>
    intro cand hcand
    obtain ⟨howns, hfile' | ⟨p, hp, hid, huri⟩⟩ := h.sweeping cand hcand
    · exact ⟨howns, .inl hfile'⟩
    · by_cases hpat : p.stillAt rec.id rec.storageURI
      · refine ⟨howns, .inl ?_⟩
        rw [← huri, (Place.stillAt_iff.mp hpat).2.1]
        exact hfile
      · exact ⟨howns, .inr ⟨p, mem_repoint.mpr ⟨p, hp, .inr ⟨Bool.eq_false_iff.mpr hpat, rfl⟩⟩,
          hid, huri⟩⟩

theorem update_eq_none {u : Uri} (h : blobs u = none) (uri : Uri) :
    Function.update blobs uri none u = none := by
  by_cases heq : u = uri
  · rw [heq, update_self]
  · rw [update_of_ne heq, h]

theorem drop (h : Tidy s3 ps₀ content ps blobs m w)
    (hfree : ∀ p ∈ ps, p.purged = false → p.uri ≠ uri)
    (hready : m.Ready s3 content ps (Function.update blobs uri none)) :
    Tidy s3 ps₀ content ps (Function.update blobs uri none) m w :=
  { h with
    named := fun u hu => h.named u fun hnone => hu (update_eq_none hnone uri)
    kept := by
      intro p hp hlive
      rw [update_of_ne (hfree p hp hlive)]
      exact h.kept p hp hlive
    ready := hready
    deleted := fun id u hdel => update_eq_none (h.deleted id u hdel) uri }

theorem sweepStarts (h : Tidy s3 ps₀ content ps blobs m .idle)
    (hcands : ∀ x ∈ cands, ∃ p ∈ ps, p.id = x.1.id ∧ p.uri = x.1.uri) :
    Tidy s3 ps₀ content ps blobs m (.proceed cands) :=
  { h with
    kept := fun p hp hlive => (h.kept p hp hlive).imp_right False.elim
    sweeping := by
      intro cand hcand
      rw [Sweeper.pending_proceed] at hcand
      obtain ⟨x, hx, rfl⟩ := mem_map.mp hcand
      obtain ⟨p, hp, hid, huri⟩ := hcands x hx
      exact ⟨hid ▸ huri ▸ h.owns hp, .inr ⟨p, hp, hid, huri⟩⟩
    deleted := fun _ _ hdel => absurd hdel Sweeper.not_deleted_proceed }

/-- The sweep deletes a blob: the row that names it, if there is one, is the candidate's. -/
theorem sweepDeletes (h : Tidy s3 ps₀ content ps blobs m (.deleting cand reason cands))
    (haddr : Addressed s3 ps₀) :
    Tidy s3 ps₀ content ps (Function.update blobs cand.uri none) m
      (.marking cand reason cands) := by
  have hcand : cand ∈ (Sweeper.deleting cand reason cands).pending := mem_cons_self
  refine { h with named := ?named, kept := ?kept, ready := ?ready, sweeping := ?sweeping,
                  deleted := ?deleted }
  case named => exact fun u hu => h.named u fun hnone => hu (update_eq_none hnone cand.uri)
  case kept =>
    intro p hp hlive
    by_cases heq : p.uri = cand.uri
    · have howns := (h.sweeping cand hcand).1
      exact .inr ⟨howns.unique haddr (heq ▸ h.owns hp), heq.symm⟩
    · rw [update_of_ne heq]
      exact .inl ((h.kept p hp hlive).resolve_right not_false)
  case ready =>
    have hready := h.ready
    cases m with
    | copied rec rest =>
      have hrec : rec ∈ (Mover.copied rec rest).pending := mem_cons_self
      have hne := h.not_sweeping_copy haddr hrec hcand
      show Function.update blobs _ _ _ = _
      rw [update_of_ne hne.symm]
      exact hready
    | _ => exact hready
  case sweeping => exact h.sweeping
  case deleted =>
    rintro id uri ⟨-, rfl⟩
    exact update_self _ _ _

/-- The sweep marks the row, if it still names what was deleted. -/
theorem sweepMarks (h : Tidy s3 ps₀ content ps blobs m (.marking cand reason cands))
    {w' : Sweeper} (hpending : w'.pending = cands.map Prod.fst)
    (hdel : ∀ id uri, ¬w'.deleted id uri) :
    Tidy s3 ps₀ content (markPlaces ps cand.id cand.uri) blobs m w' := by
  -- the row of a place afterwards: the same, but for the mark
  have hback : ∀ p' ∈ markPlaces ps cand.id cand.uri, ∃ p ∈ ps, p.id = p'.id ∧
      p.format = p'.format ∧ p.finished = p'.finished ∧ p.uri = p'.uri ∧
        (p'.purged = false → p.stillAt cand.id cand.uri = false ∧ p' = p) := by
    intro p' hp'
    obtain ⟨p, hp, ⟨-, rfl⟩ | ⟨hnot, rfl⟩⟩ := mem_markPlaces.mp hp'
    · exact ⟨p, hp, rfl, rfl, rfl, rfl, fun hlive => Bool.noConfusion hlive⟩
    · exact ⟨p', hp, rfl, rfl, rfl, rfl, fun _ => ⟨hnot, rfl⟩⟩
  have hforth : ∀ p ∈ ps, ∃ p' ∈ markPlaces ps cand.id cand.uri, p'.id = p.id ∧
      p'.format = p.format ∧ p'.uri = p.uri := by
    intro p hp
    cases hat : p.stillAt cand.id cand.uri with
    | true => exact ⟨_, mem_markPlaces.mpr ⟨p, hp, .inl ⟨hat, rfl⟩⟩, rfl, rfl, rfl⟩
    | false => exact ⟨p, mem_markPlaces.mpr ⟨p, hp, .inr ⟨hat, rfl⟩⟩, rfl, rfl, rfl⟩
  refine { h with ids := ?ids, rows := ?rows, placed := ?placed, named := ?named, kept := ?kept,
                  moving := ?moving, ready := ?ready,
                  sweeping := ?sweeping, deleted := ?deleted }
  case ids => rw [ids_markPlaces]; exact h.ids
  case rows => rw [ids_markPlaces]; exact h.rows
  case placed =>
    intro p' hp'
    obtain ⟨p, hp, hid, hformat, hfin, huri, hsame⟩ := hback p' hp'
    rw [← hid, ← hformat, ← hfin, ← huri]
    obtain ⟨p₀, hp₀, hid₀, hformat₀, hfin₀, hlive₀, huri₀⟩ := h.placed p hp
    exact ⟨p₀, hp₀, hid₀, hformat₀, hfin₀, fun hlive => hlive₀ ((hsame hlive).2 ▸ hlive), huri₀⟩
  case named =>
    intro uri huri
    refine (h.named uri huri).imp_left ?_
    rintro ⟨p, hp, hlive, hpuri⟩
    have hnot : p.stillAt cand.id cand.uri = false := by
      rw [Bool.eq_false_iff]
      intro hat
      -- a row that gets the mark named the blob just deleted
      have hgone := h.deleted cand.id cand.uri ⟨rfl, rfl⟩
      rw [← (Place.stillAt_iff.mp hat).2.1, hpuri] at hgone
      exact huri hgone
    exact ⟨p, mem_markPlaces.mpr ⟨p, hp, .inr ⟨hnot, rfl⟩⟩, hlive, hpuri⟩
  case kept =>
    intro p' hp' hlive
    obtain ⟨p, hp, -, -, -, -, hsame⟩ := hback p' hp'
    obtain ⟨hnot, rfl⟩ := hsame hlive
    rcases h.kept p' hp hlive with hkept | ⟨hid, huri⟩
    · exact .inl hkept
    · have hat := Place.stillAt_iff.mpr ⟨hid.symm, huri.symm, hlive⟩
      exact Bool.noConfusion (hat.symm.trans hnot)
  case moving =>
    intro r hr
    obtain ⟨hfile, p, hp, hid, hformat, huri⟩ := h.moving r hr
    obtain ⟨p', hp', hid', hformat', huri'⟩ := hforth p hp
    exact ⟨hfile, p', hp', hid'.trans hid, hformat'.trans hformat, huri'.trans huri⟩
  case ready =>
    have hready := h.ready
    cases m with
    | dropping rec rest =>
      intro p' hp' hlive
      obtain ⟨p, hp, -, -, -, -, hsame⟩ := hback p' hp'
      obtain ⟨-, rfl⟩ := hsame hlive
      exact hready p' hp hlive
    | repointed rec rest =>
      intro p' hp'
      obtain ⟨p, hp, -, -, -, huri, -⟩ := hback p' hp'
      rw [← huri]
      exact hready p hp
    | _ => exact hready
  case sweeping =>
    intro c hc
    rw [hpending] at hc
    obtain ⟨howns, hfile | ⟨p, hp, hid, huri⟩⟩ := h.sweeping c (mem_cons_of_mem cand hc)
    · exact ⟨howns, .inl hfile⟩
    · obtain ⟨p', hp', hid', -, huri'⟩ := hforth p hp
      exact ⟨howns, .inr ⟨p', hp', hid'.trans hid, huri'.trans huri⟩⟩
  case deleted => exact fun id uri hdel' => absurd hdel' (hdel id uri)

/-- The sweep goes on from a candidate it has marked. -/
theorem sweepGoesOn (h : Tidy s3 ps₀ content ps blobs m w) {w' : Sweeper}
    (hpending : w'.pending = w.pending) (hdel : ∀ id uri, ¬w.deleted id uri)
    (hdel' : ∀ id uri, ¬w'.deleted id uri) : Tidy s3 ps₀ content ps blobs m w' :=
  { h with
    kept := fun p hp hlive => (h.kept p hp hlive).imp_right fun hdeleted =>
      absurd hdeleted (hdel _ _)
    sweeping := fun c hc => h.sweeping c (hpending ▸ hc)
    deleted := fun id uri hdeleted => absurd hdeleted (hdel' id uri) }

end Tidy

/-! ## Steps and runs -/

/-- No operation of the step fails. -/
def Label.succeeds : Label → Bool
  | .move o | .sweep _ o | .index o => o = .ok
  | .copyBreaks _ _ => false
  | .startMove | .startSweep _ _ | .startPass _ => true

/-- The indexer writes nothing a place says, and no blob. -/
theorem places_indexStep {g : Gateway} {st' : Stored} {x x' : Indexer} {o : Outcome}
    (h : indexStep g st o x = some (st', x')) : st'.places = st.places ∧ st'.blobs = st.blobs := by
  have hwrite : ∀ set : Stored → Stored,
      ((set st).places = st.places ∧ (set st).blobs = st.blobs) →
      (o.write set st).places = st.places ∧ (o.write set st).blobs = st.blobs := by
    intro set hset
    exact Outcome.write_of (P := fun s : Stored => s.places = st.places ∧ s.blobs = st.blobs) hset
      ⟨rfl, rfl⟩ o
  cases x with
  | idle => cases h
  | listing | reading =>
    cases h
    exact ⟨rfl, rfl⟩
  | clearing =>
    cases h
    exact hwrite _ ⟨st.places_forgetAllOutput, rfl⟩
  | storing output u markers printed rest =>
    cases h
    exact hwrite _ ⟨st.places_indexCommands u.id markers, rfl⟩
  | storingOutput output u printed rest =>
    cases h
    exact hwrite _ ⟨st.places_indexOutput u.id printed, rfl⟩

namespace Tidy

variable {g : Gateway} {ps₀ : List Place} {content : String → Option Bytes} {st st' : Stored}
  {m m' : Mover} {w w' : Sweeper}

theorem move (h : Tidy g.s3 ps₀ content st.places st.blobs m w) (haddr : Addressed g.s3 ps₀)
    (hstep : moveStep g st .ok m = some (st', m')) :
    Tidy g.s3 ps₀ content st'.places st'.blobs m' w := by
  cases m with
  | idle => cases hstep
  | listing after =>
    simp only [moveStep] at hstep
    split at hstep <;> cases hstep
    · rename_i rec rest _ hlist
      refine h.list (fun _ => not_false) (hlist ▸ nodup_list _ _) fun r hr => ?_
      obtain ⟨hrow, hfile⟩ := mem_of_mem_list (hlist.symm ▸ hr)
      exact ⟨hfile, mem_map_of_mem hrow⟩
    · exact { h with ready := trivial }
  | opening rec rest =>
    simp only [moveStep] at hstep
    split at hstep <;> cases hstep
    · rename_i hblob
      exact h.read haddr hblob
    · exact h.proceed (.inr rfl) fun _ => False.elim
  | copying rec c rest =>
    cases hstep
    show Tidy g.s3 ps₀ content st.places _ (if g.differs rec c then _ else _) w
    split
    · exact (h.upload haddr).refuse haddr
    · exact h.upload haddr
  | copied rec rest =>
    cases hstep
    rw [Outcome.write_ok, Stored.places_repoint, Stored.matched_eq]
    split
    · rename_i hany
      exact h.repoint haddr hany
    · rename_i hany
      rw [repoint_of_not_any (Bool.eq_false_iff.mpr (hany rfl))]
      exact h.refuse haddr
  | dropping rec rest =>
    cases hstep
    refine (h.drop h.ready h.ready).proceed (.inl rfl) ?_
    rintro uri rfl
    exact update_self _ _ _
  | repointed rec rest =>
    cases hstep
    refine (h.drop (fun p hp _ => h.ready p hp) h.ready).proceed (.inl rfl) ?_
    rintro uri rfl
    exact update_self _ _ _

theorem sweep (h : Tidy g.s3 ps₀ content st.places st.blobs m w) (haddr : Addressed g.s3 ps₀)
    {purges purges' : List Purge} {now : Int}
    (hstep : sweepStep g st purges now .ok w = some (st', purges', w')) :
    Tidy g.s3 ps₀ content st'.places st'.blobs m w' := by
  cases w with
  | idle => cases hstep
  | deleting c reason rest =>
    simp only [sweepStep] at hstep
    split at hstep <;> cases hstep
    exact h.sweepDeletes haddr
  | marking c reason rest =>
    cases hstep
    rw [Outcome.write_ok, Stored.places_mark]
    split
    · exact h.sweepMarks rfl fun _ _ => not_false
    · exact h.sweepMarks (Sweeper.pending_proceed rest) fun _ _ => Sweeper.not_deleted_proceed
  | forgetting | forgettingOutput =>
    cases hstep
    exact h.sweepGoesOn rfl (fun _ _ => not_false) fun _ _ => not_false
  | auditing c reason rest =>
    cases hstep
    exact h.sweepGoesOn (Sweeper.pending_proceed rest) (fun _ _ => not_false) fun _ _ =>
      Sweeper.not_deleted_proceed

/-- **One step.** Whichever loop takes it, a step none of whose operations fail keeps the places
and blobs in order. -/
theorem step (haddr : Addressed g.s3 ps₀) {s t : State} {l : Label} (hl : l.succeeds)
    (h : Tidy g.s3 ps₀ content s.stored.places s.stored.blobs s.mover s.sweeper)
    (hstep : Session.step g s l = some t) :
    Tidy g.s3 ps₀ content t.stored.places t.stored.blobs t.mover t.sweeper := by
  cases l <;> simp only [Session.step] at hstep
  case startMove =>
    split at hstep <;> cases hstep
    rename_i hm
    rw [hm] at h
    exact { h with ready := trivial }
  case move o =>
    obtain rfl : o = .ok := by simpa [Label.succeeds] using hl
    obtain ⟨⟨st', m'⟩, hmove, rfl⟩ := map_eq_some_iff.mp hstep
    exact h.move haddr hmove
  case copyBreaks n uploaded => cases hl
  case startSweep p now =>
    split at hstep <;> cases hstep
    rename_i hw
    rw [hw] at h
    refine h.sweepStarts ?_
    rintro ⟨c, reason⟩ hc
    obtain ⟨r, hr, hid, huri⟩ := of_mem_toPurge hc
    exact ⟨r.place, mem_map_of_mem hr, hid, huri⟩
  case sweep now o =>
    obtain rfl : o = .ok := by simpa [Label.succeeds] using hl
    obtain ⟨⟨st', ps', w'⟩, hsweep, rfl⟩ := map_eq_some_iff.mp hstep
    exact h.sweep haddr hsweep
  case startPass output =>
    split at hstep <;> cases hstep
    exact h
  case index o =>
    obtain ⟨⟨st', x'⟩, hindex, rfl⟩ := map_eq_some_iff.mp hstep
    obtain ⟨hplaces, hblobs⟩ := places_indexStep hindex
    rw [hplaces, hblobs]
    exact h

end Tidy

/-! ## Both loops done -/

/-- Recordings and stores as they are between moves and sweeps: what has finished and was not
purged has its blob, a blob is named by a recording that is not purged, and every recording has
an address of its own, where no other is moved to. -/
structure Stored.Consistent (s3 : S3Storage) (st : Stored) : Prop where
  kept : ∀ r ∈ st.recordings.rows, r.finishedAt ≠ none → r.purgedAt = none →
    st.blobs r.storageURI ≠ none
  named : ∀ uri, st.blobs uri ≠ none →
    ∃ r ∈ st.recordings.rows, r.purgedAt = none ∧ r.storageURI = uri
  own : ∀ r ∈ st.recordings.rows, ∀ r' ∈ st.recordings.rows,
    r.storageURI = r'.storageURI ∨ r.storageURI = s3.copyURI r' → r = r'

/-- What a recording held at first. -/
def Stored.content (st : Stored) (id : String) : Option Bytes :=
  (st.recordings.get id).bind fun r => st.blobs r.storageURI

theorem Stored.content_eq {r : Recording} (hr : r ∈ st.recordings.rows) :
    st.content r.id = st.blobs r.storageURI := by
  rw [content, Table.get_eq_some.mpr ⟨hr, rfl⟩]
  rfl

theorem Stored.Consistent.addressed {s3 : S3Storage} (h : st.Consistent s3) :
    Addressed s3 st.places := by
  constructor
  · intro p hp p' hp' huri
    obtain ⟨r, hr, rfl⟩ := mem_map.mp hp
    obtain ⟨r', hr', rfl⟩ := mem_map.mp hp'
    rw [h.own r hr r' hr' (.inl huri)]
  · intro p hp p' hp' huri
    obtain ⟨r, hr, rfl⟩ := mem_map.mp hp
    obtain ⟨r', hr', rfl⟩ := mem_map.mp hp'
    rw [h.own r' hr' r hr (.inr huri)]

theorem Stored.Consistent.tidy {s3 : S3Storage} (h : st.Consistent s3) :
    Tidy s3 st.places st.content st.places st.blobs .idle .idle where
  ids := st.nodup_places
  rows := rfl
  placed := fun p hp => ⟨p, hp, rfl, rfl, rfl, id, .inl rfl⟩
  named := by
    intro uri huri
    obtain ⟨r, hr, hlive, hruri⟩ := h.named uri huri
    exact .inl ⟨r.place, mem_map_of_mem hr, by rw [Recording.place, hlive]; rfl, hruri⟩
  kept := by
    intro p hp _
    obtain ⟨r, hr, rfl⟩ := mem_map.mp hp
    exact .inl (Stored.content_eq hr).symm
  moving_ids := nodup_nil
  moving := fun _ hrec => nomatch hrec
  ready := trivial
  sweeping := fun _ hc => nomatch hc
  deleted := fun _ _ hdel => hdel.elim

/-- **The move and the sweep agree.** In every interleaving in which no operation fails, once
neither runs any more: every finished recording that is not marked purged names a blob with the
content it had; one that is marked has no blob left, neither where it was nor where it is moved
to; and every blob is named by a recording. No row was lost. -/
theorem move_and_sweep_agree (g : Gateway) {st : Stored} (hst : st.Consistent g.s3)
    {ls : List Label} {t : State}
    (hrun : RunWhere (step g) (fun _ l => l.succeeds = true) (State.start st) ls t)
    (hmover : t.mover = .idle) (hsweeper : t.sweeper = .idle) :
    (t.stored.recordings.rows.map Recording.id = st.recordings.rows.map Recording.id) ∧
    (∀ r ∈ t.stored.recordings.rows, r.finishedAt ≠ none → r.purgedAt = none →
      ∃ r₀ ∈ st.recordings.rows, r₀.id = r.id ∧ ∃ content,
        st.blobs r₀.storageURI = some content ∧ t.stored.blobs r.storageURI = some content) ∧
    (∀ r ∈ t.stored.recordings.rows, r.purgedAt ≠ none →
      t.stored.blobs r.storageURI = none ∧ t.stored.blobs (g.s3.copyURI r) = none ∧
        ∀ r₀ ∈ st.recordings.rows, r₀.id = r.id → t.stored.blobs r₀.storageURI = none) ∧
    ∀ uri, t.stored.blobs uri ≠ none →
      ∃ r ∈ t.stored.recordings.rows, r.purgedAt = none ∧ r.storageURI = uri := by
  have haddr := hst.addressed
  have h := hrun.keeps
    (fun u => Tidy g.s3 st.places st.content u.stored.places u.stored.blobs u.mover u.sweeper)
    (fun _ _ _ hl hu hstep => hu.step haddr hl hstep) hst.tidy
  rw [hmover, hsweeper] at h
  have hnamed : ∀ uri, t.stored.blobs uri ≠ none →
      ∃ r ∈ t.stored.recordings.rows, r.purgedAt = none ∧ r.storageURI = uri := by
    intro uri huri
    obtain ⟨p, hp, hlive, hpuri⟩ := (h.named uri huri).resolve_right not_false
    obtain ⟨r, hr, rfl⟩ := mem_map.mp hp
    exact ⟨r, hr, not_isSome_iff_eq_none.mp (Bool.eq_false_iff.mp hlive), hpuri⟩
  refine ⟨?_, ?_, ?_, hnamed⟩
  · rw [← Stored.ids_places, ← Stored.ids_places]
    exact h.rows
  · intro r hr hfin hlive
    have hp : r.place ∈ t.stored.places := mem_map_of_mem hr
    have hplive : r.place.purged = false := by rw [Recording.place, hlive]; rfl
    obtain ⟨p₀, hp₀, hid, -, hfin₀, hlive₀, -⟩ := h.placed r.place hp
    obtain ⟨r₀, hr₀, rfl⟩ := mem_map.mp hp₀
    have hblob : t.stored.blobs r.storageURI = st.blobs r₀.storageURI := by
      rw [← Stored.content_eq hr₀]
      show _ = st.content r₀.place.id
      rw [hid]
      exact (h.kept r.place hp hplive).resolve_right not_false
    have hfinished : r₀.finishedAt ≠ none := by
      rw [← isSome_iff_ne_none] at hfin ⊢
      exact hfin₀.trans hfin
    have hunpurged : r₀.purgedAt = none :=
      not_isSome_iff_eq_none.mp (Bool.eq_false_iff.mp (hlive₀ hplive))
    obtain ⟨c, hc⟩ := ne_none_iff_exists'.mp (hst.kept r₀ hr₀ hfinished hunpurged)
    exact ⟨r₀, hr₀, hid, c, hc, hblob.trans hc⟩
  · intro r hr hpurged
    have hp : r.place ∈ t.stored.places := mem_map_of_mem hr
    -- a blob at an address of the recording would be named by its own row, which is not live
    have hgone : ∀ uri, Owns g.s3 st.places r.id uri → t.stored.blobs uri = none := by
      intro uri howns
      by_contra hblob
      obtain ⟨r', hr', hlive, rfl⟩ := hnamed uri hblob
      have hid := (h.owns (mem_map_of_mem hr')).unique haddr howns
      rw [Table.eq_of_key_eq hr' hr hid] at hlive
      exact hpurged hlive
    refine ⟨hgone _ (h.owns hp), hgone _ (h.owns_copy hp), fun r₀ hr₀ hid => hgone _ ?_⟩
    exact ⟨r₀.place, mem_map_of_mem hr₀, hid, .inl rfl⟩

/-- A local recording. -/
def finishedCast : Recording :=
  ⟨"r1", "asciicast", .file "s1.cast", 2, "", some 0, none, none, true, true⟩

def oneLocal : Stored where
  recordings := ⟨[finishedCast], nodup_singleton _⟩
  blobs := Function.update (fun _ => none) (.file "s1.cast") (some [104, 105])
  commands := []
  output := []

def bucketOnly : Gateway := ⟨⟨"bucket", "recordings/"⟩, fun _ => "", fun _ _ => none⟩

theorem oneLocal_consistent : oneLocal.Consistent bucketOnly.s3 where
  kept := by
    intro r hr _ _
    obtain rfl := mem_singleton.mp hr
    exact some_ne_none _
  named := by
    intro uri huri
    refine ⟨finishedCast, mem_cons_self, rfl, ?_⟩
    by_contra hne
    have hother : uri ≠ .file "s1.cast" := Ne.symm hne
    exact huri (by simp [oneLocal, hother])
  own := by
    intro r hr r' hr' _
    exact (mem_singleton.mp hr).trans (mem_singleton.mp hr').symm

/-- The move opens the file, the sweep deletes it, the move repoints the row before the sweep
marks it. -/
def overtaken : List Label :=
  [.startSweep ⟨1, 0⟩ (2 * day), .startMove, .move .ok, .move .ok, .move .ok,
    .sweep (2 * day) .ok, .move .ok, .sweep (2 * day) .ok, .move .ok, .move .ok]

/-- The recording is in the bucket, with its content. -/
theorem move_and_sweep_agree_overtaken :
    ∃ t, RunWhere (step bucketOnly) (fun _ l => l.succeeds = true) (State.start oneLocal)
        overtaken t ∧
      (∃ r ∈ t.stored.recordings.rows, r.storageURI = .s3 "bucket" "recordings/r1.cast" ∧
        r.purgedAt = none) ∧
      ∀ r ∈ t.stored.recordings.rows, r.finishedAt ≠ none → r.purgedAt = none →
        ∃ r₀ ∈ oneLocal.recordings.rows, r₀.id = r.id ∧ ∃ content,
          oneLocal.blobs r₀.storageURI = some content ∧
            t.stored.blobs r.storageURI = some content :=
  RunWhere.exists_of_decide (P := fun t => t.mover = .idle ∧ t.sweeper = .idle ∧
      ∃ r ∈ t.stored.recordings.rows, r.storageURI = .s3 "bucket" "recordings/r1.cast" ∧
        r.purgedAt = none)
    (by decide +kernel) fun _ hrun ⟨hmover, hsweeper, hrow⟩ =>
      ⟨hrow, (move_and_sweep_agree bucketOnly oneLocal_consistent hrun hmover hsweeper).2.1⟩

end Zanskar.Session
