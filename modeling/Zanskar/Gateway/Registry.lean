import Zanskar.Lib.Table
import Zanskar.Protocol

/-!
# The registry of live sessions (`internal/gateway/registry.go`)

The sessions running in this gateway process, each under its id with the
switches it runs with. A terminate marks a session ended and cancels its bridge,
which leaves the registry on its own later; the first terminate counts.

What a session is shown or shadowed by (its tap, its guacd connection, its start)
plays no part in ending it and is left out.
-/

namespace Zanskar

open List

/-- Cancellation causes. -/
inductive Cause where
  | adminTerminated
  | targetLost
  | policyRevoked
  | gatewayRestart
  | grantRevoked
  | grantExpired
  | targetDisabled
  | trustLost
  | targetDeleted
  deriving DecidableEq

/-- One running bridge. -/
structure Live where
  sessionID : String
  userID : String
  targetID : String
  protocol : Protocol
  policyID : String
  allowClipboard : Bool
  allowFileTransfer : Bool
  allowDevTools : Bool
  /-- Why the first terminate ended it. -/
  ended : Option Cause
  deriving DecidableEq

/-- The registry: sessions under distinct ids, as the map makes them. -/
structure Registry where
  live : List Live
  nodup : (live.map Live.sessionID).Nodup

namespace Registry

def empty : Registry := ⟨[], nodup_nil⟩

/-- `Add`: registers a session, in place of one with its id. -/
def add (r : Registry) (l : Live) : Registry where
  live := r.live.filter (fun k => k.sessionID ≠ l.sessionID) ++ [l]
  nodup := by
    rw [map_append, nodup_append]
    refine ⟨r.nodup.sublist (filter_sublist.map _), nodup_singleton _, ?_⟩
    rintro i hi j hj rfl
    obtain ⟨k, hk, hik⟩ := mem_map.mp hi
    have hne := (mem_filter.mp hk).2
    rw [decide_eq_true_eq] at hne
    exact hne (hik.trans (mem_singleton.mp hj))

/-- `Remove`: forgets a finished session. -/
def remove (r : Registry) (sessionID : String) : Registry where
  live := r.live.filter fun k => k.sessionID ≠ sessionID
  nodup := r.nodup.sublist (filter_sublist.map _)

/-- `terminateWhere`: ends the sessions selected that are not already ending. -/
def terminateWhere (r : Registry) (keep : Live → Bool) (cause : Cause) : Registry where
  live := r.live.map fun l => if keep l && l.ended.isNone then { l with ended := some cause } else l
  nodup := by
    have hid : ∀ l : Live, { l with ended := some cause }.sessionID = l.sessionID := fun _ => rfl
    rw [Lib.map_updated hid]
    exact r.nodup

/-- `TerminateWithCause`. -/
def terminateWithCause (r : Registry) (sessionID : String) (cause : Cause) : Registry :=
  r.terminateWhere (fun l => l.sessionID = sessionID) cause

/-- `TerminateUser`. -/
def terminateUser (r : Registry) (userID : String) : Registry :=
  r.terminateWhere (fun l => l.userID = userID) .adminTerminated

/-- `TerminateTarget`. -/
def terminateTarget (r : Registry) (targetID : String) (cause : Cause) : Registry :=
  r.terminateWhere (fun l => l.targetID = targetID) cause

/-- The sessions still running: registered, and not ended. -/
def running (r : Registry) : List Live := r.live.filter fun l => l.ended.isNone

variable {l : Live} {r : Registry} {k : Live}

theorem mem_running : l ∈ r.running ↔ l ∈ r.live ∧ l.ended = none := by
  simp [running]

theorem mem_add : k ∈ (r.add l).live ↔ (k ∈ r.live ∧ k.sessionID ≠ l.sessionID) ∨ k = l := by
  simp [add]

theorem mem_running_of_add (h : k ∈ (r.add l).running) : k ∈ r.running ∨ k = l := by
  obtain ⟨hk, hend⟩ := mem_running.mp h
  rcases mem_add.mp hk with ⟨hold, -⟩ | hnew
  · exact .inl (mem_running.mpr ⟨hold, hend⟩)
  · exact .inr hnew

theorem mem_running_of_remove {id : String} (h : l ∈ (r.remove id).running) : l ∈ r.running := by
  obtain ⟨hl, hend⟩ := mem_running.mp h
  exact mem_running.mpr ⟨mem_of_mem_filter hl, hend⟩

/-- Terminating ends what the test names, and nothing else. -/
theorem mem_running_terminateWhere {keep : Live → Bool} {cause : Cause} :
    l ∈ (r.terminateWhere keep cause).running ↔ l ∈ r.running ∧ keep l = false := by
  rw [mem_running, mem_running]
  simp only [terminateWhere, mem_map]
  constructor
  · rintro ⟨⟨k, hk, rfl⟩, hend⟩
    by_cases hsel : (keep k && k.ended.isNone)
    · rw [if_pos hsel] at hend
      cases hend
    · rw [if_neg hsel] at hend ⊢
      refine ⟨⟨hk, hend⟩, ?_⟩
      simpa [hend] using hsel
  · rintro ⟨⟨hl, hend⟩, hkeep⟩
    exact ⟨⟨l, hl, by simp [hkeep]⟩, hend⟩

theorem eq_of_sessionID_eq (hl : l ∈ r.live) (hk : k ∈ r.live)
    (h : l.sessionID = k.sessionID) : l = k :=
  inj_on_of_nodup_map r.nodup hl hk h

end Registry

end Zanskar
