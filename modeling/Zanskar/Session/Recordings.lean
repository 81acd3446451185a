import Zanskar.Go.Strings
import Zanskar.Go.Strconv
import Zanskar.Go.Time
import Zanskar.Lib.Table

/-!
# Recordings at rest (`internal/session`, `internal/recording`, `internal/recstorage`)

A finished recording is a row and a blob: a file of the gateway's directory or an object of the
bucket. Three loops work on them: the move of the local recordings to the bucket, the retention
sweep, and the indexer of what was typed and printed. This module has the rows, the statements
the loops run on them, and what the sweep picks.

An address is taken apart here: `file` is a file of the storage directory, `s3` an object of a
bucket.
-/

namespace Zanskar.Session

open Go Lib List

/-! ## Addresses -/

/-- A storage URI. -/
inductive Uri where
  | file (name : String)
  | s3 (bucket key : String)
  deriving DecidableEq

/-- `LIKE 'file://%'`. -/
def Uri.isFile : Uri → Bool
  | .file _ => true
  | .s3 _ _ => false

/-- `S3Storage`: the active bucket, and the part of a key in front of the name. -/
structure S3Storage where
  bucket : String
  folder : String

/-- The address `Create` gives an object. -/
def S3Storage.uri (s3 : S3Storage) (name : String) : Uri := .s3 s3.bucket (s3.folder ++ name)

/-- Whether the router's stores take the address: an object of another bucket is refused. -/
def S3Storage.reaches (s3 : S3Storage) : Uri → Bool
  | .file _ => true
  | .s3 bucket _ => bucket = s3.bucket

/-! ## Rows -/

/-- `Recording`: a row of `recordings`; the digest is empty where there is none. -/
structure Recording where
  id : String
  format : String
  storageURI : Uri
  sizeBytes : Int
  sha256 : String
  finishedAt : Option Int
  retentionUntil : Option Int
  purgedAt : Option Int
  commandsIndexed : Bool
  outputIndexed : Bool
  deriving DecidableEq

abbrev Recordings := Table Recording.id

/-- The name a recording is moved under. -/
def moveName (id format : String) : String :=
  if format = "guac" then id ++ ".guac" else id ++ ".cast"

/-- The address a recording is moved to. -/
def S3Storage.copyURI (s3 : S3Storage) (r : Recording) : Uri := s3.uri (moveName r.id r.format)

/-- The copies of two recordings have two addresses: what stands behind the id is of one
length. -/
theorem moveName_inj {id id' format format' : String}
    (h : moveName id format = moveName id' format') : id = id' := by
  have hlist := congrArg String.toList h
  have hlen : ".guac".toList.length = 5 ∧ ".cast".toList.length = 5 := by decide
  simp only [moveName, apply_ite String.toList, String.toList_append] at hlist
  apply String.toList_injective
  split at hlist <;> split at hlist <;>
    exact (append_inj' hlist (by simp only [hlen])).1

/-! ## Statements of the move -/

/-- `ListRecordingsByURIPrefix` for the local recordings. -/
def listRecordingsByURIPrefix (tbl : Recordings) (afterID : String) (limit : Nat) :
    List Recording :=
  ((tbl.rows.filter fun r =>
      r.storageURI.isFile && r.finishedAt.isSome && r.purgedAt.isNone && decide (afterID < r.id)
    ).insertionSort fun r r' => r.id ≤ r'.id).take limit

variable {tbl : Recordings}

theorem mem_of_mem_list {afterID : String} {limit : Nat} {r : Recording}
    (h : r ∈ listRecordingsByURIPrefix tbl afterID limit) : r ∈ tbl.rows ∧ r.storageURI.isFile := by
  have hmem := mem_of_mem_take h
  rw [mem_insertionSort, mem_filter] at hmem
  refine ⟨hmem.1, ?_⟩
  have hcond := hmem.2
  simp only [Bool.and_eq_true] at hcond
  exact hcond.1.1.1

theorem nodup_list (afterID : String) (limit : Nat) :
    ((listRecordingsByURIPrefix tbl afterID limit).map Recording.id).Nodup := by
  refine List.Nodup.sublist ((take_sublist limit _).map Recording.id) ?_
  refine ((perm_insertionSort _ _).map Recording.id).nodup_iff.mpr ?_
  exact tbl.nodup.sublist (filter_sublist.map Recording.id)

/-- `WHERE id = ? AND storage_uri = ? AND purged_at IS NULL`: what both updates of a row ask. -/
def Recording.stillAt (r : Recording) (id : String) (uri : Uri) : Bool :=
  r.id = id && r.storageURI = uri && r.purgedAt.isNone

/-- `UpdateRecordingURI`, once a row matches. -/
def updateRecordingURI (tbl : Recordings) (id : String) (old new : Uri) : Recordings :=
  tbl.update (·.stillAt id old) ({ · with storageURI := new }) fun _ => rfl

/-! ## Statements of the sweep -/

/-- `RetentionPolicy`: zero is no limit. -/
structure RetentionPolicy where
  maxAgeDays : Int
  maxTotalBytes : Int

/-- `purgeCandidate`. -/
structure PurgeCandidate where
  id : String
  uri : Uri
  size : Int
  finished : Int
  till : Option Int
  deriving DecidableEq

/-- A recording as a candidate; a recording that has not finished, or was purged, is none. -/
def Recording.candidate (r : Recording) : Option PurgeCandidate :=
  match r.finishedAt, r.purgedAt with
  | some finished, none => some ⟨r.id, r.storageURI, r.sizeBytes, finished, r.retentionUntil⟩
  | _, _ => none

/-- `listPurgeCandidates`: oldest first. -/
def listPurgeCandidates (tbl : Recordings) : List PurgeCandidate :=
  (tbl.rows.filterMap Recording.candidate).insertionSort fun c c' => c.finished ≤ c'.finished

theorem of_mem_listPurgeCandidates {c : PurgeCandidate} (h : c ∈ listPurgeCandidates tbl) :
    ∃ r ∈ tbl.rows, r.id = c.id ∧ r.storageURI = c.uri := by
  rw [listPurgeCandidates, mem_insertionSort] at h
  obtain ⟨r, hr, hc⟩ := mem_filterMap.mp h
  refine ⟨r, hr, ?_⟩
  unfold Recording.candidate at hc
  split at hc
  · cases hc
    exact ⟨rfl, rfl⟩
  · cases hc

/-- Whether age alone removes the candidate: its own date, or else the policy's. -/
def PurgeCandidate.expired (c : PurgeCandidate) (p : RetentionPolicy) (now : Int) : Bool :=
  match c.till with
  | some till => till < now
  | none => 0 < p.maxAgeDays && c.finished < addDays now (-p.maxAgeDays)

/-- The second loop of `selectForPurge`: the oldest go until the total fits. -/
def sizeBackstop (maxTotalBytes : Int) : Int → List PurgeCandidate → List PurgeCandidate
  | _, [] => []
  | kept, c :: cs =>
    if kept ≤ maxTotalBytes then []
    else c :: sizeBackstop maxTotalBytes (wrap64 (kept - c.size)) cs

/-- What the first loop adds up, in 64 bits. -/
def keptBytes (survivors : List PurgeCandidate) : Int :=
  survivors.foldl (fun kept c => wrap64 (kept + c.size)) 0

/-- `selectForPurge`: the ids that go, with the reason. -/
def selectForPurge (cands : List PurgeCandidate) (p : RetentionPolicy) (now : Int) :
    List (String × String) :=
  let survivors := cands.filter fun c => !c.expired p now
  (cands.filter (·.expired p now)).map (fun c => (c.id, "age")) ++
    if 0 < p.maxTotalBytes then
      (sizeBackstop p.maxTotalBytes (keptBytes survivors) survivors).map fun c => (c.id, "size")
    else []

/-- The candidates a sweep goes through, with the reason each was picked for. -/
def toPurge (tbl : Recordings) (p : RetentionPolicy) (now : Int) : List (PurgeCandidate × String) :=
  let cands := listPurgeCandidates tbl
  let reasons := selectForPurge cands p now
  cands.filterMap fun c => (reasons.lookup c.id).map fun reason => (c, reason)

theorem of_mem_toPurge {p : RetentionPolicy} {now : Int} {c : PurgeCandidate} {reason : String}
    (h : (c, reason) ∈ toPurge tbl p now) : ∃ r ∈ tbl.rows, r.id = c.id ∧ r.storageURI = c.uri := by
  obtain ⟨c', hc', hmap⟩ := mem_filterMap.mp h
  obtain ⟨_, -, heq⟩ := Option.map_eq_some_iff.mp hmap
  cases heq
  exact of_mem_listPurgeCandidates hc'

/-- The update of `markRecordingPurged`, once a row matches. -/
def markPurged (tbl : Recordings) (id : String) (uri : Uri) (now : Int) : Recordings :=
  tbl.update (·.stillAt id uri) ({ · with purgedAt := some now }) fun _ => rfl

/-! ## Statements of the indexer -/

/-- `Marker`: a command line, when it was typed. -/
structure Marker where
  time : Int
  label : Bytes
  deriving DecidableEq

/-- `OutputLine`. -/
structure OutputLine where
  time : Int
  text : Bytes
  deriving DecidableEq

/-- A row of `recording_commands`. -/
structure CommandRow where
  recordingID : String
  seq : Nat
  atMS : Int
  command : Bytes
  deriving DecidableEq

/-- A row of `recording_output`. -/
structure OutputRow where
  recordingID : String
  seq : Nat
  atMS : Int
  line : Bytes
  deriving DecidableEq

def hiddenInput : String := "(hidden input)"

def maxIndexedCommand : Nat := 2000

/-- `strings.ToValidUTF8(s, "")`. -/
def toValidUTF8 (s : Bytes) : Bytes := utf8 ((marks s).filterMap id)

/-- `Milliseconds` of a duration. -/
def milliseconds (d : Int) : Int := d.tdiv 1000000

/-- What `IndexCommands` stores of a marker; hidden input is counted but not stored. -/
def commandRow (recordingID : String) (m : Marker) (seq : Nat) : Option CommandRow :=
  let cmd := trimSpaces m.label
  if cmd = [] ∨ cmd = lit hiddenInput then none
  else
    some ⟨recordingID, seq, milliseconds m.time,
      if maxIndexedCommand < cmd.length then toValidUTF8 (cmd.take maxIndexedCommand) else cmd⟩

/-- The rows `IndexCommands` stores. -/
def commandRows (recordingID : String) (markers : List Marker) : List CommandRow :=
  markers.zipIdx.filterMap fun (m, i) => commandRow recordingID m i

/-- The rows `IndexOutput` stores. -/
def outputRows (recordingID : String) (lines : List OutputLine) : List OutputRow :=
  lines.zipIdx.map fun (l, i) => ⟨recordingID, i, milliseconds l.time, l.text⟩

theorem recordingID_of_mem_commandRows {id : String} {markers : List Marker} {row : CommandRow}
    (h : row ∈ commandRows id markers) : row.recordingID = id := by
  obtain ⟨⟨m, i⟩, -, hrow⟩ := mem_filterMap.mp h
  simp only [commandRow] at hrow
  split at hrow
  · cases hrow
  · cases hrow
    rfl

theorem recordingID_of_mem_outputRows {id : String} {lines : List OutputLine} {row : OutputRow}
    (h : row ∈ outputRows id lines) : row.recordingID = id := by
  obtain ⟨⟨l, i⟩, -, rfl⟩ := mem_map.mp h
  rfl

/-- `unindexed`. -/
structure Unindexed where
  id : String
  uri : Uri
  commands : Bool
  output : Bool
  deriving DecidableEq

/-- `unindexedCasts`: finished terminal recordings with something left to read, oldest first. -/
def unindexedCasts (tbl : Recordings) (limit : Nat) (output : Bool) : List Unindexed :=
  (((tbl.rows.filter fun r =>
      r.format = "asciicast" && r.finishedAt.isSome && r.purgedAt.isNone &&
        (!r.commandsIndexed || (output && !r.outputIndexed))
    ).insertionSort fun r r' => r.finishedAt.getD 0 ≤ r'.finishedAt.getD 0).take limit).map
    fun r => ⟨r.id, r.storageURI, r.commandsIndexed, r.outputIndexed⟩

end Zanskar.Session
