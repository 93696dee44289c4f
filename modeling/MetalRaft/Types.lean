import Mathlib.Algebra.Group.Nat.Defs
import Mathlib.Data.List.Basic

/-!
# Nodes, log entries, messages and events

The data of `raft-core`: `types.rs`, `log_entry.rs`, `node_state.rs`, `raft_messages.rs`,
`event.rs`, `timer_service.rs` and the plain records of `snapshot.rs`.

* Node ids, terms and log indices are `u64` in the source and `Nat` here.  Below 2^64 the two
  agree; an increment of 2^64 − 1 gives 2^64 here, where the source wraps to 0 in a release build
  and panics in a checked one.  Terms that wrap are treated in `WrappingTerm`.
* A log entry collection and a snapshot chunk are lists (of entries, of bytes); the
  collections with a capacity are described by `Realization` in `Collections`.
-/

set_option autoImplicit false

namespace MetalRaft

abbrev NodeId := Nat

/-- `usize::MAX` on the 64-bit hosts the test realization runs on. -/
def usizeMax : Nat := 2 ^ 64 - 1

/-! ## Log entries -/

inductive ConfigurationChange where
  | addServer (nodeId : NodeId)
  | removeServer (nodeId : NodeId)
  deriving DecidableEq

inductive EntryType (P : Type) where
  | command (payload : P)
  | configChange (change : ConfigurationChange)
  deriving DecidableEq

structure LogEntry (P : Type) where
  term : Nat
  entryType : EntryType P
  deriving DecidableEq

inductive NodeState where
  | follower
  | candidate
  | leader
  deriving DecidableEq

/-! ## Snapshots -/

structure SnapshotMetadata where
  lastIncludedIndex : Nat
  lastIncludedTerm : Nat
  deriving DecidableEq

structure Snapshot where
  metadata : SnapshotMetadata
  data : List UInt8

structure SnapshotChunk where
  offset : Nat
  data : List UInt8
  done : Bool

inductive SnapshotError where
  | corruptData
  | incompatibleVersion
  | deserializationFailed
  | noEntriesToSnapshot
  | entryNotFound
  | notLeader
  deriving DecidableEq

/-! ## Messages and events -/

inductive RaftMsg (P : Type) where
  | requestVote (term : Nat) (candidateId : NodeId) (lastLogIndex : Nat)
      (lastLogTerm : Nat)
  | requestVoteResponse (term : Nat) (voteGranted : Bool)
  | preVoteRequest (term : Nat) (candidateId : NodeId) (lastLogIndex : Nat)
      (lastLogTerm : Nat)
  | preVoteResponse (term : Nat) (voteGranted : Bool)
  | appendEntries (term : Nat) (prevLogIndex : Nat) (prevLogTerm : Nat)
      (entries : List (LogEntry P)) (leaderCommit : Nat)
  | appendEntriesResponse (term : Nat) (success : Bool) (matchIndex : Nat)
  | installSnapshot (term : Nat) (leaderId : NodeId) (lastIncludedIndex : Nat)
      (lastIncludedTerm : Nat) (offset : Nat) (data : List UInt8) (done : Bool)
  | installSnapshotResponse (term : Nat) (success : Bool)

inductive TimerKind where
  | election
  | heartbeat
  deriving DecidableEq

inductive Event (P : Type) where
  | message (sender : NodeId) (msg : RaftMsg P)
  | timerFired (kind : TimerKind)
  | clientCommand (payload : P)
  | configChange (change : ConfigurationChange)

/-- `ClientError::NotLeader`, the only client error. -/
structure ClientError where
  leaderHint : Option NodeId
  deriving DecidableEq

/-- `ReadError::NotLeaderOrNoLease`, the only read error. -/
structure ReadError where
  leaderHint : Option NodeId
  deriving DecidableEq

inductive ConfigError where
  | notLeader
  | configChangeInProgress
  | nodeAlreadyExists
  | nodeNotFound
  | cannotRemoveLastNode
  deriving DecidableEq

/-! ## Timers -/

/-- A timer service, reduced to what the core can observe and cause: for either timer the
clock reading at its last reset, `none` once stopped. -/
structure TimerService where
  election : Option Nat
  heartbeat : Option Nat
  clock : Nat
  deriving DecidableEq

namespace TimerService

def resetElectionTimer (t : TimerService) : TimerService := { t with election := some t.clock }

def resetHeartbeatTimer (t : TimerService) : TimerService := { t with heartbeat := some t.clock }

def stopTimers (t : TimerService) : TimerService := { t with election := none, heartbeat := none }

end TimerService

end MetalRaft
