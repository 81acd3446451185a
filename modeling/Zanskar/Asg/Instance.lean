import Zanskar.Connect.Endpoint
import Zanskar.Lib.Table

/-!
# The instances of an autoscaling group (`internal/asg/asg.go`, `internal/cloud/cloud.go`)

The rows of `asg_instances` that belong to one group, and the two statements a poll changes
them with. `UpsertInstance` stores what a poll saw of an instance; a host key or certificate
the poll leaves empty is kept from the row that is there. `MarkTerminated` flags the rows whose
instance the cloud no longer lists, one update for each row.

A text column that is NULL reads as the empty string, and an empty string is stored as NULL, so
the columns are strings here. Health is not a column: it is derived from the others on every
read (`Instance.healthy`).
-/

namespace Zanskar.Asg

open Go Lib List

/-! ## The cloud's view -/

/-- `cloud.Instance`: one member of a group as the cloud sees it. -/
structure CloudInstance where
  id : String
  privateIP : String
  publicIP : String
  availabilityZone : String
  /-- The group's view: InService, Pending, Terminating, ... -/
  lifecycleState : String
  /-- The load balancer's view; empty when the group has no target group. -/
  lbHealth : String
  launchedAt : Option Int

/-- `cloud.Healthy`: in service, and not unhealthy or draining at the load balancer. -/
def cloudHealthy (lifecycleState lbHealth : String) : Bool :=
  decide (lifecycleState = "InService") &&
    (decide (toLower lbHealth = "") || decide (toLower lbHealth = "healthy"))

/-! ## Rows -/

/-- The gateway's own probe of an instance. -/
inductive ProbeHealth where
  | unknown
  | healthy
  | unhealthy
  deriving DecidableEq

/-- Where a pinned host key comes from. -/
inductive HostKeySource where
  | none
  | console
  | tofu
  deriving DecidableEq

/-- What is pinned of an instance: its SSH host key, and the certificates of its RDP and WinRM
listeners. -/
inductive Pin where
  | hostKey
  | rdp
  | winrm
  deriving DecidableEq

/-- `Instance`: one member as last seen by the sync loop. -/
structure Instance where
  id : String
  instanceID : String
  privateIP : String
  publicIP : String
  availabilityZone : String
  lifecycleState : String
  lbHealth : String
  probeHealth : ProbeHealth
  hostKeyFingerprint : String
  hostKeySource : HostKeySource
  tlsFingerprint : String
  winRMTLSFingerprint : String
  launchedAt : Option Int
  firstSeenAt : Int
  lastSeenAt : Int
  terminatedAt : Option Int
  deriving DecidableEq

/-- The fingerprint pinned; empty when nothing is. -/
def Instance.pin (r : Instance) : Pin → String
  | .hostKey => r.hostKeyFingerprint
  | .rdp => r.tlsFingerprint
  | .winrm => r.winRMTLSFingerprint

/-- `derive`: still there, its own probe healthy, and the cloud's view healthy. -/
def Instance.healthy (r : Instance) : Bool :=
  r.terminatedAt.isNone && decide (r.probeHealth = .healthy) &&
    cloudHealthy r.lifecycleState r.lbHealth

variable {r : Instance} {iid : String} {k : Pin}

theorem Instance.healthy_iff :
    r.healthy ↔
      r.terminatedAt = none ∧ r.probeHealth = .healthy ∧
        cloudHealthy r.lifecycleState r.lbHealth := by
  simp [Instance.healthy, and_assoc]

/-- The rows of the group: one for each instance (`UNIQUE (asg_id, instance_id)`), under
distinct ids. -/
structure Rows extends Table Instance.instanceID where
  idNodup : (rows.map Instance.id).Nodup

namespace Rows

def empty : Rows := ⟨Table.empty, nodup_nil⟩

/-- `instanceByCloudID`. -/
def byCloudID (rs : Rows) (instanceID : String) : Option Instance := rs.get instanceID

/-- `UPDATE asg_instances SET … WHERE id = ?`. -/
def updateWhere (rs : Rows) (id : String) (set : Instance → Instance)
    (hcloud : ∀ r, (set r).instanceID = r.instanceID) (hid : ∀ r, (set r).id = r.id) : Rows where
  toTable := rs.toTable.update (fun r => decide (r.id = id)) set hcloud
  idNodup := by
    rw [Table.update, map_updated hid]
    exact rs.idNodup

/-- `INSERT`: refused for an id or an instance that is there. -/
def insertRow (rs : Rows) (r : Instance) : Option Rows :=
  if hid : r.id ∈ rs.rows.map Instance.id then none
  else
    if hcloud : r.instanceID ∈ rs.rows.map Instance.instanceID then none
    else
      some
        { rows := rs.rows ++ [r]
          nodup := by
            rw [← concat_eq_append, map_concat]
            exact rs.nodup.concat hcloud
          idNodup := by
            rw [← concat_eq_append, map_concat]
            exact rs.idNodup.concat hid }

variable {rs : Rows} {r : Instance} {iid : String} {set : Instance → Instance}

theorem byCloudID_eq_some : rs.byCloudID iid = some r ↔ r ∈ rs.rows ∧ r.instanceID = iid :=
  Table.get_eq_some

theorem byCloudID_eq_none : rs.byCloudID iid = none ↔ ∀ r ∈ rs.rows, r.instanceID ≠ iid := by
  simp [byCloudID, Table.get, find?_eq_none]

theorem eq_of_id_eq {r' : Instance} (hr : r ∈ rs.rows) (hr' : r' ∈ rs.rows)
    (h : r.id = r'.id) : r = r' :=
  inj_on_of_nodup_map rs.idNodup hr hr' h

theorem byCloudID_updateWhere (id : String) {hcloud : ∀ r, (set r).instanceID = r.instanceID}
    {hid : ∀ r, (set r).id = r.id} :
    (rs.updateWhere id set hcloud hid).byCloudID iid =
      (rs.byCloudID iid).map fun r => if decide (r.id = id) then set r else r := by
  show (rs.rows.map fun r => if decide (r.id = id) then set r else r).find?
      (fun r => decide (r.instanceID = iid)) = _
  rw [find?_map]
  -- the update keeps the cloud's id, so the search stops at the same row
  have hsame : ((fun r : Instance => decide (r.instanceID = iid)) ∘
      fun r => if decide (r.id = id) then set r else r) = fun r => decide (r.instanceID = iid) := by
    funext r
    show decide ((if decide (r.id = id) then set r else r).instanceID = iid) = _
    split
    · rw [hcloud]
    · rfl
  rw [hsame]
  rfl

/-- An update by the id of a row reaches that row only. -/
theorem byCloudID_updateWhere_row {hcloud : ∀ r, (set r).instanceID = r.instanceID}
    {hid : ∀ r, (set r).id = r.id} (hr : r ∈ rs.rows) :
    (rs.updateWhere r.id set hcloud hid).byCloudID iid =
      if iid = r.instanceID then some (set r) else rs.byCloudID iid := by
  rw [byCloudID_updateWhere]
  cases hget : rs.byCloudID iid with
  | none =>
    have hne : iid ≠ r.instanceID := fun h => byCloudID_eq_none.mp hget r hr h.symm
    rw [if_neg hne]
    rfl
  | some q =>
    obtain ⟨hq, rfl⟩ := byCloudID_eq_some.mp hget
    by_cases hiid : q.instanceID = r.instanceID
    · -- the cloud's id is a key, as the row's own is
      obtain rfl : q = r := Table.eq_of_key_eq hq hr hiid
      simp
    · have hne : q.id ≠ r.id := fun hsame => hiid (by rw [eq_of_id_eq hq hr hsame])
      simp [hiid, hne]

/-- An insert that succeeds hides no other row. -/
theorem byCloudID_insertRow {rs' : Rows} (h : rs.insertRow r = some rs') (iid : String) :
    rs'.byCloudID iid = if iid = r.instanceID then some r else rs.byCloudID iid := by
  unfold insertRow at h
  split at h
  · cases h
  split at h
  · cases h
  rename_i hcloud
  cases h
  by_cases hiid : iid = r.instanceID
  · rw [if_pos hiid, byCloudID_eq_some]
    exact ⟨mem_append_right _ (mem_singleton_self r), hiid.symm⟩
  · rw [if_neg hiid]
    show find? _ (rs.rows ++ [r]) = _
    rw [find?_append]
    have hlast : [r].find? (fun q => decide (q.instanceID = iid)) = none := by
      simp [Ne.symm hiid]
    rw [hlast, Option.or_none]
    rfl

end Rows

/-! ## Storing what was seen -/

/-- How the database answers an upsert: its read and its write may fail, and the clock and the
id it would give a new row. -/
structure Upsert where
  readFails : Bool
  writeFails : Bool
  now : Int
  newID : String

/-- The row an upsert stores for an instance it knows: what was seen, with the pins of the row
there where nothing is supplied. -/
def Instance.over (r existing : Instance) (now : Int) : Instance :=
  { r with
    hostKeyFingerprint :=
      if r.hostKeyFingerprint = "" then existing.hostKeyFingerprint else r.hostKeyFingerprint
    hostKeySource :=
      if r.hostKeyFingerprint = "" then existing.hostKeySource else r.hostKeySource
    tlsFingerprint := if r.tlsFingerprint = "" then existing.tlsFingerprint else r.tlsFingerprint
    winRMTLSFingerprint :=
      if r.winRMTLSFingerprint = "" then existing.winRMTLSFingerprint else r.winRMTLSFingerprint
    id := existing.id
    firstSeenAt := existing.firstSeenAt
    lastSeenAt := now
    terminatedAt := none }

/-- The row an upsert stores for an instance it meets first. -/
def Instance.anew (r : Instance) (db : Upsert) : Instance :=
  { r with id := db.newID, firstSeenAt := db.now, lastSeenAt := db.now, terminatedAt := none }

/-- The columns an upsert's update writes. -/
def Instance.written (stored r : Instance) : Instance :=
  { stored with id := r.id, instanceID := r.instanceID, firstSeenAt := r.firstSeenAt }

theorem Instance.written_instanceID (stored r : Instance) :
    (stored.written r).instanceID = r.instanceID := rfl

theorem Instance.written_id (stored r : Instance) : (stored.written r).id = r.id := rfl

/-- `UpsertInstance`: the rows after it, the row stored, and whether it is a first sighting.
Nothing where the read or the write failed, which leaves the rows as they are. -/
def upsertInstance (rs : Rows) (db : Upsert) (r : Instance) : Option (Rows × Instance × Bool) :=
  if db.readFails then none
  else
    match rs.byCloudID r.instanceID with
    | none =>
      if db.writeFails then none
      else (rs.insertRow (r.anew db)).map fun rs' => (rs', r.anew db, true)
    | some existing =>
      if db.writeFails then none
      else
        some
          (rs.updateWhere existing.id (r.over existing db.now).written
              (Instance.written_instanceID _) (Instance.written_id _),
            r.over existing db.now, false)

/-- What an upsert that succeeded did: it stored a first sighting, or over the row there. -/
inductive Upserted (rs rs' : Rows) (db : Upsert) (r stored : Instance) : Bool → Prop
  | first (hget : rs.byCloudID r.instanceID = none) (hstored : stored = r.anew db)
      (hrows : ∀ iid, rs'.byCloudID iid =
        if iid = r.instanceID then some stored else rs.byCloudID iid) :
      Upserted rs rs' db r stored true
  | again (existing : Instance) (hget : rs.byCloudID r.instanceID = some existing)
      (hstored : stored = r.over existing db.now)
      (hrows : ∀ iid, rs'.byCloudID iid =
        if iid = r.instanceID then some stored else rs.byCloudID iid) :
      Upserted rs rs' db r stored false

variable {rs rs' : Rows} {r stored : Instance} {isNew : Bool} {db : Upsert}

/-- An upsert that succeeds changes the row of its instance only. -/
theorem upsertInstance_spec (h : upsertInstance rs db r = some (rs', stored, isNew)) :
    Upserted rs rs' db r stored isNew := by
  unfold upsertInstance at h
  split at h
  · cases h
  split at h
  · rename_i hget
    split at h
    · cases h
    obtain ⟨rs'', hins, heq⟩ := Option.map_eq_some_iff.mp h
    cases heq
    exact .first hget rfl (Rows.byCloudID_insertRow hins)
  · rename_i existing hget
    split at h
    · cases h
    cases h
    obtain ⟨hmem, hiid⟩ := Rows.byCloudID_eq_some.mp hget
    refine .again existing hget rfl fun iid => ?_
    rw [Rows.byCloudID_updateWhere_row hmem, hiid]
    -- the row written is the one returned: id, instance and first sighting are the row's own
    have hwritten : (r.over existing db.now).written existing = r.over existing db.now := by
      show ({ r.over existing db.now with
        id := existing.id, instanceID := existing.instanceID,
        firstSeenAt := existing.firstSeenAt } : Instance) = _
      rw [hiid]
      rfl
    rw [hwritten]

/-- The pin of an instance; empty for an instance without a row. -/
def Rows.pin (rs : Rows) (iid : String) (k : Pin) : String :=
  (rs.byCloudID iid).elim "" fun r => r.pin k

theorem Rows.pin_of_byCloudID (h : rs.byCloudID iid = some r) : rs.pin iid k = r.pin k := by
  simp [Rows.pin, h]

section Upserted

variable (h : Upserted rs rs' db r stored isNew)

include h

/-- The row stored is the instance's, with the health the caller gives, and an upsert brings a row
marked terminated back. -/
theorem Upserted.stored_eq : stored.instanceID = r.instanceID ∧
    stored.probeHealth = r.probeHealth ∧ stored.terminatedAt = none := by
  cases h with
  | first _ hstored _ => exact hstored ▸ ⟨rfl, rfl, rfl⟩
  | again _ _ hstored _ => exact hstored ▸ ⟨rfl, rfl, rfl⟩

theorem Upserted.byCloudID_eq :
    rs'.byCloudID iid = if iid = r.instanceID then some stored else rs.byCloudID iid := by
  cases h with
  | first _ _ hrows => exact hrows iid
  | again _ _ _ hrows => exact hrows iid

/-- **Pins across an upsert.** A pin the caller supplies is stored, and one it leaves empty is
kept. -/
theorem Upserted.pin_stored :
    stored.pin k = if r.pin k = "" then rs.pin r.instanceID k else r.pin k := by
  cases h with
  | first hget hstored _ =>
    rw [hstored]
    have hnone : rs.pin r.instanceID k = "" := by simp [Rows.pin, hget]
    have hsame : (r.anew db).pin k = r.pin k := by cases k <;> rfl
    rw [hsame, hnone]
    split
    · assumption
    · rfl
  | again existing hget hstored _ =>
    rw [hstored, Rows.pin_of_byCloudID hget]
    cases k <;> rfl

theorem Upserted.pin_eq :
    rs'.pin iid k = if iid = r.instanceID then stored.pin k else rs.pin iid k := by
  rw [Rows.pin, h.byCloudID_eq]
  split <;> rfl

end Upserted

/-! ## Marking the rows of instances that are gone -/

/-- How a database orders NULLs: a descending order of PostgreSQL puts them first, SQLite's puts
them last. -/
inductive Dialect where
  | postgres
  | sqlite
  deriving DecidableEq

/-- `ORDER BY launched_at DESC, instance_id`. -/
def Dialect.listedBefore (d : Dialect) (a b : Instance) : Bool :=
  match a.launchedAt, b.launchedAt with
  | none, none => decide (a.instanceID ≤ b.instanceID)
  | none, some _ => decide (d = .postgres)
  | some _, none => decide (d = .sqlite)
  | some x, some y => decide (y < x) || (decide (x = y) && decide (a.instanceID ≤ b.instanceID))

/-- `Instances`, of every health. -/
def Rows.instances (rs : Rows) (d : Dialect) : List Instance :=
  rs.rows.insertionSort fun a b => d.listedBefore a b = true

/-- The columns `MarkTerminated` writes. -/
def Instance.terminated (r : Instance) (now : Int) : Instance :=
  { r with
    terminatedAt := some now
    lifecycleState := "Terminated"
    probeHealth := .unhealthy }

theorem Instance.terminated_instanceID (now : Int) (r : Instance) :
    (r.terminated now).instanceID = r.instanceID := rfl

theorem Instance.terminated_id (now : Int) (r : Instance) : (r.terminated now).id = r.id := rfl

/-- The update of one row. -/
def Rows.markRow (rs : Rows) (id : String) (now : Int) : Rows :=
  rs.updateWhere id (fun r => r.terminated now) (Instance.terminated_instanceID now)
    (Instance.terminated_id now)

/-- Marking a row terminated keeps its pins. -/
theorem Rows.pin_markRow (id : String) (now : Int) :
    (rs.markRow id now).pin iid k = rs.pin iid k := by
  rw [Rows.pin, Rows.markRow, Rows.byCloudID_updateWhere, Rows.pin]
  cases rs.byCloudID iid with
  | none => rfl
  | some r =>
    show (if decide (r.id = id) then r.terminated now else r).pin k = r.pin k
    split
    · cases k <;> rfl
    · rfl

end Zanskar.Asg
