import MetalRaft.Collections
import MetalRaft.Storage

/-!
# LogReplicationManager

`components/log_replication_manager.rs`: the leader's maps, the commit and apply counters and
the functions that build and handle the replication messages.

* `tryAppendEntries` — the follower's append: check, truncate, append, commit, apply.
* `applyCommittedEntries` — the apply loop; its `while` runs `commit_index - last_applied`
  times, which is the fuel of `applyLoop`.
* `advanceCommitIndex` — the leader's commit rule.
* `Observer` — of the observer's callbacks the model keeps `state_machine_applied`, with the
  entry that the loop took from the log beside its index.
-/

set_option autoImplicit false

namespace MetalRaft

structure Observer (P : Type) where
  applied : List (Nat × LogEntry P)

structure LogReplicationManager where
  nextIndex : MapCollection
  matchIndex : MapCollection
  commitIndex : Nat
  lastApplied : Nat
  catchingUpServers : MapCollection

/-- The variables of the apply loop. -/
structure ApplyState (P SM : Type) where
  lastApplied : Nat
  stateMachine : SM
  observer : Observer P
  configChanges : ConfigChangeCollection

/-- What a call that may apply entries leaves behind. -/
structure ApplyResult (P SM : Type) where
  replication : LogReplicationManager
  stateMachine : SM
  observer : Observer P
  configChanges : ConfigChangeCollection

/-- What `try_append_entries` leaves behind; `configChanges` is its result. -/
structure AppendResult (P S SM : Type) where
  replication : LogReplicationManager
  storage : S
  stateMachine : SM
  observer : Observer P
  configChanges : Option ConfigChangeCollection

/-- What `handle_append_entries` leaves behind and returns. -/
structure AppendEntriesResult (P S SM : Type) where
  replication : LogReplicationManager
  currentTerm : Nat
  storage : S
  stateMachine : SM
  role : NodeState
  observer : Observer P
  response : RaftMsg P
  configChanges : ConfigChangeCollection

/-- What `handle_install_snapshot` leaves behind and returns. -/
structure InstallResult (P S SM : Type) where
  replication : LogReplicationManager
  currentTerm : Nat
  storage : S
  stateMachine : SM
  role : NodeState
  response : RaftMsg P

namespace LogReplicationManager

variable {P S SM : Type} [Storage S P] [StateMachine SM P]

def new : LogReplicationManager := ⟨.new, .new, 0, 0, .new⟩

/-! ## Leader state and outgoing messages -/

def initializeLeaderState (R : Realization) (r : LogReplicationManager) (peers : List NodeId)
    (storage : S) : LogReplicationManager :=
  let nextLogIndex := Storage.lastLogIndex storage + 1
  peers.foldl
    (fun r peer =>
      { r with
        nextIndex := r.nextIndex.insert R peer nextLogIndex
        matchIndex := r.matchIndex.insert R peer 0 }) r

def getAppendEntriesForFollower (r : LogReplicationManager) (peer : NodeId) (currentTerm : Nat)
    (storage : S) : RaftMsg P :=
  let nextIdx := (r.nextIndex.get peer).getD 1
  let prevLogIndex := nextIdx - 1
  let prevLogTerm :=
    if prevLogIndex = 0 then 0
    else
      match Storage.getEntry storage prevLogIndex with
      | some entry => entry.term
      | none =>
        match Storage.loadSnapshot storage with
        | some snapshot =>
          if prevLogIndex = snapshot.metadata.lastIncludedIndex then
            snapshot.metadata.lastIncludedTerm
          else 0
        | none => 0
  let entries := Storage.getEntries storage nextIdx (Storage.lastLogIndex storage + 1)
  .appendEntries currentTerm prevLogIndex prevLogTerm entries r.commitIndex

def getAppendEntriesForPeer (r : LogReplicationManager) (peer leaderId : NodeId) (storage : S) :
    RaftMsg P :=
  let nextIdx := (r.nextIndex.get peer).getD 1
  let firstIdx := Storage.firstLogIndex storage
  let currentTerm := Storage.currentTerm storage
  if nextIdx < firstIdx then
    match Storage.getSnapshotChunk storage 0 usizeMax, Storage.snapshotMetadata storage with
    | some chunk, some metadata =>
      .installSnapshot currentTerm leaderId metadata.lastIncludedIndex metadata.lastIncludedTerm
        chunk.offset chunk.data chunk.done
    | _, _ => r.getAppendEntriesForFollower peer currentTerm storage
  else r.getAppendEntriesForFollower peer currentTerm storage

/-! ## Applying and committing -/

/-- One turn of the apply loop.  An index without an entry is passed over silently. -/
def applyOne (R : Realization) (storage : S) (st : ApplyState P SM) : ApplyState P SM :=
  let lastApplied := st.lastApplied + 1
  match Storage.getEntry storage lastApplied with
  | none => { st with lastApplied := lastApplied }
  | some entry =>
    let st :=
      { st with
        lastApplied := lastApplied
        observer := ⟨st.observer.applied ++ [(lastApplied, entry)]⟩ }
    match entry.entryType with
    | .command payload => { st with stateMachine := StateMachine.apply st.stateMachine payload }
    | .configChange change =>
      { st with
        configChanges := pushWithin R.configChanges st.configChanges (lastApplied, change) }

def applyLoop (R : Realization) (storage : S) : Nat → ApplyState P SM → ApplyState P SM
  | 0, st => st
  | fuel + 1, st => applyLoop R storage fuel (applyOne R storage st)

def applyCommittedEntries (R : Realization) (r : LogReplicationManager) (storage : S)
    (stateMachine : SM) (observer : Observer P) : ApplyResult P SM :=
  let st := applyLoop R storage (r.commitIndex - r.lastApplied)
    ⟨r.lastApplied, stateMachine, observer, []⟩
  ⟨{ r with lastApplied := st.lastApplied }, st.stateMachine, st.observer, st.configChanges⟩

def advanceCommitIndex (R : Realization) (r : LogReplicationManager) (storage : S)
    (stateMachine : SM) (config : Configuration) (leaderId : NodeId) (observer : Observer P) :
    ApplyResult P SM :=
  let unchanged : ApplyResult P SM := ⟨r, stateMachine, observer, []⟩
  let leaderIndex := Storage.lastLogIndex storage
  match r.matchIndex.computeMedian R leaderIndex config r.catchingUpServers leaderId with
  | none => unchanged
  | some newCommit =>
    if newCommit > r.commitIndex then
      match Storage.getEntry storage newCommit with
      | none => unchanged
      | some entry =>
        if entry.term = Storage.currentTerm storage then
          applyCommittedEntries R { r with commitIndex := newCommit } storage stateMachine observer
        else unchanged
    else unchanged

/-! ## AppendEntries -/

def checkLogConsistency (prevLogIndex : Nat) (prevLogTerm : Nat) (storage : S) : Bool :=
  if prevLogIndex = 0 then true
  else
    match Storage.getEntry storage prevLogIndex with
    | some entry => decide (entry.term = prevLogTerm)
    | none =>
      match Storage.snapshotMetadata storage with
      | some snapshotMetadata =>
        if prevLogIndex = snapshotMetadata.lastIncludedIndex then
          decide (prevLogTerm = snapshotMetadata.lastIncludedTerm)
        else false
      | none => false

/-- The log part of `try_append_entries`: whatever lies above `prevLogIndex` goes before the
entries come in. -/
def placeEntries (prevLogIndex : Nat) (entries : List (LogEntry P)) (storage : S) : S :=
  if entries.isEmpty then storage
  else
    let lastIndex := Storage.lastLogIndex storage
    let storage :=
      if lastIndex > prevLogIndex then Storage.truncateAfter storage prevLogIndex else storage
    Storage.appendEntries storage entries

def tryAppendEntries (R : Realization) (r : LogReplicationManager) (prevLogIndex : Nat)
    (prevLogTerm : Nat) (entries : List (LogEntry P)) (leaderCommit : Nat) (storage : S)
    (stateMachine : SM) (observer : Observer P) : AppendResult P S SM :=
  if checkLogConsistency prevLogIndex prevLogTerm storage = false then
    ⟨r, storage, stateMachine, observer, none⟩
  else
    let storage := placeEntries prevLogIndex entries storage
    if leaderCommit > r.commitIndex then
      let r := { r with commitIndex := min leaderCommit (Storage.lastLogIndex storage) }
      let a := applyCommittedEntries R r storage stateMachine observer
      ⟨a.replication, storage, a.stateMachine, a.observer, some a.configChanges⟩
    else ⟨r, storage, stateMachine, observer, some []⟩

def handleAppendEntries (R : Realization) (r : LogReplicationManager) (term : Nat)
    (prevLogIndex : Nat) (prevLogTerm : Nat) (entries : List (LogEntry P))
    (leaderCommit : Nat) (currentTerm : Nat) (storage : S) (stateMachine : SM)
    (role : NodeState) (observer : Observer P) : AppendEntriesResult P S SM :=
  -- the caller has stepped down on a higher term already, so this branch is never taken there
  let behind := decide (term > currentTerm)
  let newTerm := if behind then term else currentTerm
  let storage :=
    if behind then Storage.setVotedFor (Storage.setCurrentTerm storage term) none else storage
  let role :=
    if behind then .follower
    else if term = currentTerm ∧ role = .candidate then .follower
    else role
  let a : AppendResult P S SM :=
    if term < newTerm then ⟨r, storage, stateMachine, observer, none⟩
    else tryAppendEntries R r prevLogIndex prevLogTerm entries leaderCommit storage stateMachine
      observer
  ⟨a.replication, newTerm, a.storage, a.stateMachine, role, a.observer,
    .appendEntriesResponse newTerm a.configChanges.isSome (Storage.lastLogIndex a.storage),
    a.configChanges.getD []⟩

/-! ## Responses -/

def checkAndPromoteCaughtUpServer (r : LogReplicationManager) (nodeId : NodeId) :
    LogReplicationManager :=
  if (r.catchingUpServers.get nodeId).isSome then
    let matchIdx := (r.matchIndex.get nodeId).getD 0
    if matchIdx ≥ r.commitIndex then
      { r with catchingUpServers := r.catchingUpServers.remove nodeId }
    else r
  else r

def handleAppendEntriesResponse (R : Realization) (r : LogReplicationManager) (sender : NodeId)
    (success : Bool) (matchIndex : Nat) (storage : S) (stateMachine : SM)
    (config : Configuration) (leaderId : NodeId) (observer : Observer P) : ApplyResult P SM :=
  if success then
    let currentMatch := (r.matchIndex.get sender).getD 0
    if matchIndex > currentMatch then
      let r :=
        { r with
          matchIndex := r.matchIndex.insert R sender matchIndex
          nextIndex := r.nextIndex.insert R sender (matchIndex + 1) }
      let r := r.checkAndPromoteCaughtUpServer sender
      advanceCommitIndex R r storage stateMachine config leaderId observer
    else ⟨r, stateMachine, observer, []⟩
  else
    let next := (r.nextIndex.get sender).getD 1
    if next > 1 then
      ⟨{ r with nextIndex := r.nextIndex.insert R sender (next - 1) }, stateMachine, observer, []⟩
    else ⟨r, stateMachine, observer, []⟩

def handleInstallSnapshotResponse (R : Realization) (r : LogReplicationManager) (peer : NodeId)
    (success : Bool) (lastIncludedIndex : Nat) : LogReplicationManager :=
  if success then
    let r :=
      { r with
        nextIndex := r.nextIndex.insert R peer (lastIncludedIndex + 1)
        matchIndex := r.matchIndex.insert R peer lastIncludedIndex }
    r.checkAndPromoteCaughtUpServer peer
  else r

def markServerCatchingUp (R : Realization) (r : LogReplicationManager) (nodeId : NodeId) :
    LogReplicationManager :=
  { r with catchingUpServers := r.catchingUpServers.insert R nodeId 1 }

/-! ## InstallSnapshot -/

/-- Storing the chunk and, once it is the last one, restoring, compacting and moving the
counters.  The result of the restore is not looked at. -/
def installChunk (r : LogReplicationManager) (lastIncludedIndex : Nat)
    (lastIncludedTerm : Nat) (offset : Nat) (data : List UInt8) (done : Bool)
    (currentTerm : Nat) (storage : S) (stateMachine : SM) (role : NodeState) :
    InstallResult P S SM :=
  let applied :=
    Storage.applySnapshotChunk storage offset data done lastIncludedIndex lastIncludedTerm
  let storage := applied.1
  match applied.2 with
  | .error _ =>
    ⟨r, currentTerm, storage, stateMachine, role, .installSnapshotResponse currentTerm false⟩
  | .ok _ =>
    let success := RaftMsg.installSnapshotResponse currentTerm true
    if done then
      match Storage.loadSnapshot storage with
      | none => ⟨r, currentTerm, storage, stateMachine, role, success⟩
      | some snapshot =>
        ⟨{ r with
            commitIndex := max r.commitIndex lastIncludedIndex
            lastApplied := max r.lastApplied lastIncludedIndex },
          currentTerm, Storage.discardEntriesBefore storage (lastIncludedIndex + 1),
          (StateMachine.restoreFromSnapshot stateMachine snapshot.data).1, role, success⟩
    else ⟨r, currentTerm, storage, stateMachine, role, success⟩

/-- The stored snapshot reaches at least as far as the offered one. -/
def alreadyCovered (lastIncludedIndex : Nat) (storage : S) : Bool :=
  match Storage.snapshotMetadata storage with
  | some current => decide (lastIncludedIndex ≤ current.lastIncludedIndex)
  | none => false

def handleInstallSnapshot (r : LogReplicationManager) (term : Nat) (lastIncludedIndex : Nat)
    (lastIncludedTerm : Nat) (offset : Nat) (data : List UInt8) (done : Bool)
    (currentTerm : Nat) (storage : S) (stateMachine : SM) (role : NodeState) :
    InstallResult P S SM :=
  if term < currentTerm then
    ⟨r, currentTerm, storage, stateMachine, role, .installSnapshotResponse currentTerm false⟩
  else
    let ahead := decide (term > currentTerm)
    let storage :=
      if ahead then Storage.setVotedFor (Storage.setCurrentTerm storage term) none else storage
    let role :=
      if ahead then .follower
      else if term = currentTerm ∧ role = .candidate then .follower
      else role
    if alreadyCovered lastIncludedIndex storage then
      ⟨r, term, storage, stateMachine, role, .installSnapshotResponse term false⟩
    else
      r.installChunk lastIncludedIndex lastIncludedTerm offset data done term storage
        stateMachine role

end LogReplicationManager

end MetalRaft
