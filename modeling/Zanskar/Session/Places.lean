import Zanskar.Session.Loops

/-!
# What the rows say of the blobs

The move and the sweep are told apart from the indexer by what they write of a row: where its blob
is, and that it was purged. A `Place` is that much of a row, with what never changes of it. Every
statement of the loops is followed here to the places: the two guarded updates, and the columns of
the indexer, which they do not have.
-/

namespace Zanskar.Session

open Go Lib List

/-- What a row says of its blob. -/
structure Place where
  id : String
  format : String
  finished : Bool
  uri : Uri
  purged : Bool

def Recording.place (r : Recording) : Place :=
  ⟨r.id, r.format, r.finishedAt.isSome, r.storageURI, r.purgedAt.isSome⟩

def Stored.places (st : Stored) : List Place := st.recordings.rows.map Recording.place

/-- The address a place's blob is moved to. -/
def S3Storage.copyOf (s3 : S3Storage) (p : Place) : Uri := s3.uri (moveName p.id p.format)

variable {p : Place} {s3 : S3Storage} {id : String} {uri new : Uri}

theorem S3Storage.copyURI_eq {rec : Recording} (hid : p.id = rec.id)
    (hformat : p.format = rec.format) : s3.copyURI rec = s3.copyOf p := by
  rw [copyURI, copyOf, hid, hformat]

/-- Two recordings are never moved to one address. -/
theorem S3Storage.copyOf_inj {p' : Place} (h : s3.copyOf p = s3.copyOf p') : p.id = p'.id := by
  have hname := congrArg String.toList (Uri.s3.inj h).2
  rw [String.toList_append, String.toList_append] at hname
  exact moveName_inj (String.toList_injective (append_cancel_left hname))

def Place.stillAt (p : Place) (id : String) (uri : Uri) : Bool :=
  p.id = id && p.uri = uri && !p.purged

theorem Place.stillAt_iff : p.stillAt id uri ↔ p.id = id ∧ p.uri = uri ∧ p.purged = false := by
  simp [stillAt, and_assoc]

theorem Recording.stillAt_place (r : Recording) (id : String) (uri : Uri) :
    r.place.stillAt id uri = r.stillAt id uri := by
  cases h : r.purgedAt <;> simp [Place.stillAt, Recording.stillAt, place, h]

/-- The places after the rows that match were written. -/
def repoint (ps : List Place) (id : String) (old new : Uri) : List Place :=
  ps.map fun p => if p.stillAt id old then { p with uri := new } else p

def markPlaces (ps : List Place) (id : String) (uri : Uri) : List Place :=
  ps.map fun p => if p.stillAt id uri then { p with purged := true } else p

/-- An update of the rows, on what it does to the places. -/
theorem map_place_update {rows : List Recording} {cond : Recording → Bool}
    {set : Recording → Recording} {f : Place → Place}
    (hset : ∀ r, (if cond r then set r else r).place = f r.place) :
    (rows.map fun r => if cond r then set r else r).map Recording.place =
      (rows.map Recording.place).map f := by
  rw [map_map, map_map]
  exact map_congr_left fun r _ => hset r

namespace Stored

variable (st : Stored)

theorem ids_places : st.places.map Place.id = st.recordings.rows.map Recording.id := by
  rw [places, map_map]
  rfl

theorem nodup_places : (st.places.map Place.id).Nodup := by
  rw [ids_places]
  exact st.recordings.nodup

/-- The updates of the table, seen by the places. -/
theorem places_repoint (old : Uri) :
    (st.repoint id old new).places = Session.repoint st.places id old new := by
  refine map_place_update fun r => ?_
  rw [Recording.stillAt_place]
  split <;> rfl

theorem places_mark (now : Int) : (st.mark id uri now).places = markPlaces st.places id uri := by
  refine map_place_update fun r => ?_
  rw [Recording.stillAt_place]
  split <;> rfl

/-- What is stored of commands and output is no part of a place. -/
theorem places_forgetAllOutput : st.forgetAllOutput.places = st.places := by
  refine (map_place_update fun r => ?_).trans st.places.map_id
  split <;> rfl

theorem places_indexCommands (id : String) (markers : List Marker) :
    (st.indexCommands id markers).places = st.places := by
  refine (map_place_update fun r => ?_).trans st.places.map_id
  split <;> rfl

theorem places_indexOutput (id : String) (lines : List OutputLine) :
    (st.indexOutput id lines).places = st.places := by
  refine (map_place_update fun r => ?_).trans st.places.map_id
  split <;> rfl

/-- The WHERE clause that both updates share reads places only. -/
theorem matched_eq : st.matched id uri = st.places.any (·.stillAt id uri) := by
  rw [matched, places, any_map]
  exact congrArg _ (funext fun r => (r.stillAt_place id uri).symm)

end Stored

variable {id : String} {ps : List Place} {old : Uri} {p' : Place}

/-- A move that comes too late changes nothing. -/
theorem repoint_of_not_any (h : ps.any (·.stillAt id old) = false) :
    repoint ps id old new = ps := by
  refine (map_congr_left fun p hp => if_neg ?_).trans ps.map_id
  exact any_eq_false.mp h p hp

theorem mem_repoint :
    p' ∈ repoint ps id old new ↔ ∃ p ∈ ps,
      p.stillAt id old ∧ p' = { p with uri := new } ∨ p.stillAt id old = false ∧ p' = p :=
  mem_updated

theorem mem_markPlaces :
    p' ∈ markPlaces ps id uri ↔ ∃ p ∈ ps,
      p.stillAt id uri ∧ p' = { p with purged := true } ∨
        p.stillAt id uri = false ∧ p' = p :=
  mem_updated

theorem ids_repoint : (repoint ps id old new).map Place.id = ps.map Place.id :=
  map_updated fun _ => rfl

theorem ids_markPlaces : (markPlaces ps id uri).map Place.id = ps.map Place.id :=
  map_updated fun _ => rfl

end Zanskar.Session
