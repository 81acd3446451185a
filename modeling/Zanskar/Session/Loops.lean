import Zanskar.Lib.Machine
import Zanskar.Session.Recordings

/-!
# The move, the sweep and the indexer as one machine

`Manager.run` and `moveOne` (`internal/recstorage`), `Sweep` (`internal/session/retention.go`) and
`Pass` (`internal/session/commands.go`) run side by side over one database and the two stores.
Each is a loop whose state says which operation it does next; one step of the machine is one
operation of one of them, so a run is one interleaving. Every operation may fail, with or without
having been applied; a transaction is one operation.

A blob that is not there is no failure of the store: `Open` finds nothing, and the code goes on
from there as from any error.
-/

namespace Zanskar.Session

open Go Lib

/-- How an operation ended: an error may come back from a write that was applied. -/
inductive Outcome where
  | ok
  | failed (applied : Bool)
  deriving DecidableEq

/-- A write under its outcome. -/
def Outcome.write {α : Type} (o : Outcome) (set : α → α) (x : α) : α :=
  match o with
  | .ok => set x
  | .failed applied => if applied then set x else x

@[simp] theorem Outcome.write_ok {α : Type} (set : α → α) (x : α) :
    Outcome.ok.write set x = set x := rfl

theorem Outcome.write_of {α : Type} {P : α → Prop} {set : α → α} {x : α} (hset : P (set x))
    (hx : P x) (o : Outcome) : P (o.write set x) := by
  cases o with
  | ok => exact hset
  | failed applied => cases applied <;> assumption

/-- What the loops share: the tables and the blobs of both stores. -/
structure Stored where
  recordings : Recordings
  blobs : Uri → Option Bytes
  commands : List CommandRow
  output : List OutputRow

/-- The gateway's storage, the hex SHA-256 of a blob, and what `recording.Index` finds in one;
nothing for a file it cannot read. -/
structure Gateway where
  s3 : S3Storage
  digest : Bytes → String
  index : Bytes → Nat → Option (List Marker × List OutputLine)

namespace Stored

/-- `Create`, the copy and `Close`: the object is there once it is uploaded. -/
def put (st : Stored) (uri : Uri) (content : Bytes) : Stored :=
  { st with blobs := Function.update st.blobs uri (some content) }

/-- `Delete`: a blob that is gone already is no error. -/
def drop (st : Stored) (uri : Uri) : Stored :=
  { st with blobs := Function.update st.blobs uri none }

/-- `UpdateRecordingURI`. -/
def repoint (st : Stored) (id : String) (old new : Uri) : Stored :=
  { st with recordings := updateRecordingURI st.recordings id old new }

/-- The update of `markRecordingPurged`. -/
def mark (st : Stored) (id : String) (uri : Uri) (now : Int) : Stored :=
  { st with recordings := markPurged st.recordings id uri now }

/-- `RowsAffected` of both updates. -/
def matched (st : Stored) (id : String) (uri : Uri) : Bool :=
  st.recordings.rows.any (·.stillAt id uri)

/-- The first delete of `forgetCommands`. -/
def forgetCommands (st : Stored) (id : String) : Stored :=
  { st with commands := st.commands.filter (·.recordingID ≠ id) }

/-- The second delete of `forgetCommands`. -/
def forgetOutput (st : Stored) (id : String) : Stored :=
  { st with output := st.output.filter (·.recordingID ≠ id) }

/-- `forgetAllOutput`. -/
def forgetAllOutput (st : Stored) : Stored :=
  { st with
    output := []
    recordings := st.recordings.update (·.outputIndexed) ({ · with outputIndexed := false })
      fun _ => rfl }

/-- `IndexCommands`. -/
def indexCommands (st : Stored) (id : String) (markers : List Marker) : Stored :=
  { st with
    commands := st.commands.filter (·.recordingID ≠ id) ++ commandRows id markers
    recordings := st.recordings.update (·.id = id) ({ · with commandsIndexed := true })
      fun _ => rfl }

/-- `IndexOutput`. -/
def indexOutput (st : Stored) (id : String) (lines : List OutputLine) : Stored :=
  { st with
    output := st.output.filter (·.recordingID ≠ id) ++ outputRows id lines
    recordings := st.recordings.update (·.id = id) ({ · with outputIndexed := true })
      fun _ => rfl }

end Stored

/-! ## The move -/

/-- Where the move stands: none runs; a page to list; a recording to open, with the rest of its
page; its content to upload; the row to repoint; a copy to delete again; the local file to
delete. -/
inductive Mover where
  | idle
  | listing (after : String)
  | opening (rec : Recording) (rest : List Recording)
  | copying (rec : Recording) (content : Bytes) (rest : List Recording)
  | copied (rec : Recording) (rest : List Recording)
  | dropping (rec : Recording) (rest : List Recording)
  | repointed (rec : Recording) (rest : List Recording)
  deriving DecidableEq

/-- How many recordings `run` lists at a time. -/
def moveBatch : Nat := 100

/-- The move once it is done with a recording. -/
def Mover.proceed (rec : Recording) : List Recording → Mover
  | [] => .listing rec.id
  | next :: rest => .opening next rest

/-- Whether the copy fails the check against the recording's digest. -/
def Gateway.differs (g : Gateway) (rec : Recording) (content : Bytes) : Bool :=
  rec.sha256 ≠ "" && g.digest content ≠ rec.sha256

/-- One operation of `run` and `moveOne`. -/
def moveStep (g : Gateway) (st : Stored) (o : Outcome) : Mover → Option (Stored × Mover)
  | .idle => none
  | .listing after =>
    match o, listRecordingsByURIPrefix st.recordings after moveBatch with
    | .ok, rec :: rest => some (st, .opening rec rest)
    | _, _ => some (st, .idle)
  | .opening rec rest =>
    match o, st.blobs rec.storageURI with
    | .ok, some content => some (st, .copying rec content rest)
    | _, _ => some (st, .proceed rec rest)
  | .copying rec content rest =>
    some (o.write (·.put (g.s3.copyURI rec) content) st,
      match o with
      | .ok => if g.differs rec content then .dropping rec rest else .copied rec rest
      | .failed _ => .proceed rec rest)
  | .copied rec rest =>
    some (o.write (·.repoint rec.id rec.storageURI (g.s3.copyURI rec)) st,
      match o, st.matched rec.id rec.storageURI with
      | .ok, true => .repointed rec rest
      | _, _ => .dropping rec rest)
  | .dropping rec rest => some (o.write (·.drop (g.s3.copyURI rec)) st, .proceed rec rest)
  | .repointed rec rest => some (o.write (·.drop rec.storageURI) st, .proceed rec rest)

/-! ## The sweep -/

/-- Where the sweep stands: none runs; a blob to delete; its row to mark; the command index to
clear of it; the output index; the event to record. -/
inductive Sweeper where
  | idle
  | deleting (c : PurgeCandidate) (reason : String) (rest : List (PurgeCandidate × String))
  | marking (c : PurgeCandidate) (reason : String) (rest : List (PurgeCandidate × String))
  | forgetting (c : PurgeCandidate) (reason : String) (rest : List (PurgeCandidate × String))
  | forgettingOutput (c : PurgeCandidate) (reason : String)
      (rest : List (PurgeCandidate × String))
  | auditing (c : PurgeCandidate) (reason : String) (rest : List (PurgeCandidate × String))
  deriving DecidableEq

/-- The sweep at the next of its candidates. -/
def Sweeper.proceed : List (PurgeCandidate × String) → Sweeper
  | [] => .idle
  | (c, reason) :: rest => .deleting c reason rest

/-- The event of a purge: the recording, the reason and the size. -/
structure Purge where
  recordingID : String
  reason : String
  bytes : Int

/-- One operation of `Sweep`; with the events recorded. A delete of what the stores do not reach
only fails. -/
def sweepStep (g : Gateway) (st : Stored) (purges : List Purge) (now : Int) (o : Outcome) :
    Sweeper → Option (Stored × List Purge × Sweeper)
  | .idle => none
  | .deleting c reason rest =>
    match o with
    | .ok =>
      if g.s3.reaches c.uri then some (st.drop c.uri, purges, .marking c reason rest) else none
    | .failed _ =>
      some (if g.s3.reaches c.uri then o.write (·.drop c.uri) st else st, purges, .proceed rest)
  | .marking c reason rest =>
    some (o.write (·.mark c.id c.uri now) st, purges,
      match o, st.matched c.id c.uri with
      | .ok, true => .forgetting c reason rest
      | _, _ => .proceed rest)
  | .forgetting c reason rest =>
    some (o.write (·.forgetCommands c.id) st, purges,
      if o = .ok then .forgettingOutput c reason rest else .proceed rest)
  | .forgettingOutput c reason rest =>
    some (o.write (·.forgetOutput c.id) st, purges,
      if o = .ok then .auditing c reason rest else .proceed rest)
  | .auditing c reason rest =>
    some (st, o.write (· ++ [⟨c.id, reason, c.size⟩]) purges, .proceed rest)

/-! ## The indexer -/

/-- Where a pass stands: none runs; the output index to empty; the recordings to list; one to
read; its commands to store; what it printed to store. -/
inductive Indexer where
  | idle
  | clearing
  | listing (output : Bool)
  | reading (output : Bool) (u : Unindexed) (rest : List Unindexed)
  | storing (output : Bool) (u : Unindexed) (markers : List Marker) (printed : List OutputLine)
      (rest : List Unindexed)
  | storingOutput (output : Bool) (u : Unindexed) (printed : List OutputLine)
      (rest : List Unindexed)
  deriving DecidableEq

def indexBatch : Nat := 25

def maxOutputLines : Nat := 5000

/-- The pass at the next recording of its list. -/
def Indexer.proceed (output : Bool) : List Unindexed → Indexer
  | [] => .idle
  | u :: rest => .reading output u rest

/-- How many lines of output are read of a recording. -/
def Unindexed.lines (u : Unindexed) (output : Bool) : Nat :=
  if output && !u.output then maxOutputLines else 0

/-- The pass once the commands are dealt with. -/
def Indexer.afterCommands (output : Bool) (u : Unindexed) (printed : List OutputLine)
    (rest : List Unindexed) : Indexer :=
  if 0 < u.lines output then .storingOutput output u printed rest else .proceed output rest

/-- `Open` and `Index`: a recording that cannot be read is indexed as empty. -/
def Gateway.read (g : Gateway) (st : Stored) (o : Outcome) (u : Unindexed) (output : Bool) :
    List Marker × List OutputLine :=
  match o, (st.blobs u.uri).bind (g.index · (u.lines output)) with
  | .ok, some found => found
  | _, _ => ([], [])

/-- One operation of `Pass`. -/
def indexStep (g : Gateway) (st : Stored) (o : Outcome) : Indexer → Option (Stored × Indexer)
  | .idle => none
  | .clearing =>
    some (o.write (·.forgetAllOutput) st, if o = .ok then .listing false else .idle)
  | .listing output =>
    some (st, if o = .ok then .proceed output (unindexedCasts st.recordings indexBatch output)
      else .idle)
  | .reading output u rest =>
    let found := g.read st o u output
    some (st,
      if u.commands then .afterCommands output u found.2 rest
      else .storing output u found.1 found.2 rest)
  | .storing output u markers printed rest =>
    some (o.write (·.indexCommands u.id markers) st,
      if o = .ok then .afterCommands output u printed rest else .idle)
  | .storingOutput output u printed rest =>
    some (o.write (·.indexOutput u.id printed) st,
      if o = .ok then .proceed output rest else .idle)

/-! ## The machine -/

structure State where
  stored : Stored
  mover : Mover
  sweeper : Sweeper
  indexer : Indexer
  /-- The purges recorded in the audit log. -/
  purges : List Purge

/-- The tables and blobs given, no loop running. -/
def State.start (st : Stored) : State := ⟨st, .idle, .idle, .idle, []⟩

/-- Steps: a loop starts, or does its next operation. A sweep starts by reading the policy and
the candidates, a pass by reading the setting. A copy that breaks off after `n` bytes is closed
all the same, which uploads what there is. -/
inductive Label where
  | startMove
  | move (o : Outcome)
  | copyBreaks (n : Nat) (uploaded : Bool)
  | startSweep (p : RetentionPolicy) (now : Int)
  | sweep (now : Int) (o : Outcome)
  | startPass (output : Bool)
  | index (o : Outcome)

def step (g : Gateway) (s : State) : Label → Option State
  | .startMove =>
    match s.mover with
    | .idle => some { s with mover := .listing "" }
    | _ => none
  | .move o => (moveStep g s.stored o s.mover).map fun (st, m) =>
      { s with stored := st, mover := m }
  | .copyBreaks n uploaded =>
    match s.mover with
    | .copying rec content rest =>
      some { s with
        stored := if uploaded then s.stored.put (g.s3.copyURI rec) (content.take n) else s.stored
        mover := .proceed rec rest }
    | _ => none
  | .startSweep p now =>
    match s.sweeper with
    | .idle => some { s with sweeper := .proceed (toPurge s.stored.recordings p now) }
    | _ => none
  | .sweep now o => (sweepStep g s.stored s.purges now o s.sweeper).map fun (st, ps, w) =>
      { s with stored := st, purges := ps, sweeper := w }
  | .startPass output =>
    match s.indexer with
    | .idle => some { s with indexer := if output then .listing true else .clearing }
    | _ => none
  | .index o => (indexStep g s.stored o s.indexer).map fun (st, x) =>
      { s with stored := st, indexer := x }

end Zanskar.Session
