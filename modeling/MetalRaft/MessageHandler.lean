import MetalRaft.ElectionManager
import MetalRaft.Managers

/-!
# The node and its message handlers

`RaftNode` is the record of `raft_node.rs`; `MessageHandlerContext` borrows exactly its fields,
so a handler of `components/message_handler/*.rs` is a function on nodes.  The functions of
`role_transition_manager.rs`, which work on single fields, are merged into their only callers.

* `send` appends to `transport`; what was in the storage at that moment is kept beside the
  message, so that a crash between two storage writes can tell which messages had left.
* Observer callbacks other than the one kept by `Observer` have no effect and are left out.
-/

set_option autoImplicit false

namespace MetalRaft

/-- A message handed to the transport, with the storage as it was then. -/
structure Outgoing (P S : Type) where
  target : NodeId
  msg : RaftMsg P
  stored : S

structure RaftNode (P S SM : Type) where
  id : NodeId
  role : NodeState
  currentTerm : Nat
  currentLeader : Option NodeId
  transport : List (Outgoing P S)
  storage : S
  stateMachine : SM
  observer : Observer P
  election : ElectionManager
  replication : LogReplicationManager
  configManager : ConfigChangeManager
  snapshotManager : SnapshotManager
  leaderLease : LeaderLease

namespace RaftNode

variable {P S SM : Type}

def config (n : RaftNode P S SM) : Configuration := n.configManager.config

def resetElectionTimer (n : RaftNode P S SM) : RaftNode P S SM :=
  { n with
    election := { n.election with timerService := n.election.timerService.resetElectionTimer } }

/-! ## `message_handler/common.rs` -/

def send (n : RaftNode P S SM) (target : NodeId) (msg : RaftMsg P) : RaftNode P S SM :=
  { n with transport := n.transport ++ [⟨target, msg, n.storage⟩] }

/-- The peers, collected into a node collection first. -/
def peerIds (R : Realization) (n : RaftNode P S SM) : List NodeId :=
  (n.config.peers n.id).foldl (pushWithin R.nodes) []

def broadcast (R : Realization) (n : RaftNode P S SM) (msg : RaftMsg P) : RaftNode P S SM :=
  (n.peerIds R).foldl (fun n peer => n.send peer msg) n

variable [Storage S P]

/-- The storage is written twice: the new term first, then the empty vote. -/
def stepDown (n : RaftNode P S SM) (newTerm : Nat) : RaftNode P S SM :=
  let n :=
    { n with
      currentTerm := newTerm
      storage := Storage.setVotedFor (Storage.setCurrentTerm n.storage newTerm) none
      role := .follower }
  { n.resetElectionTimer with currentLeader := none, leaderLease := n.leaderLease.revoke }

def resetElectionTimerIfValidTerm (n : RaftNode P S SM) (term : Nat) : RaftNode P S SM :=
  if term ≥ n.currentTerm then n.resetElectionTimer else n

def applyConfigChanges (R : Realization) (n : RaftNode P S SM) (changes : ConfigChangeCollection) :
    RaftNode P S SM :=
  let lastLogIndex := Storage.lastLogIndex n.storage
  let c := n.configManager.applyChanges R changes n.id lastLogIndex n.replication n.role
  { n with configManager := c.manager, replication := c.replication, role := c.role }

/-! ## Sending entries -/

def sendAppendEntriesToFollowers (R : Realization) (n : RaftNode P S SM) : RaftNode P S SM :=
  (n.peerIds R).foldl
    (fun n peer => n.send peer (n.replication.getAppendEntriesForPeer peer n.id n.storage)) n

def sendHeartbeats (R : Realization) (n : RaftNode P S SM) : RaftNode P S SM :=
  let n := n.sendAppendEntriesToFollowers R
  { n with
    election := { n.election with timerService := n.election.timerService.resetHeartbeatTimer } }

def handleHeartbeatTimer (R : Realization) (n : RaftNode P S SM) : RaftNode P S SM :=
  if n.role = .leader then n.sendHeartbeats R else n

/-! ## `message_handler/election.rs` -/

def handlePreVoteRequest (n : RaftNode P S SM) (sender : NodeId) (term : Nat)
    (lastLogIndex : Nat) (lastLogTerm : Nat) : RaftNode P S SM :=
  n.send sender
    (ElectionManager.handlePreVoteRequest term lastLogIndex lastLogTerm n.currentTerm n.storage)

def startPreVote (R : Realization) (n : RaftNode P S SM) : RaftNode P S SM :=
  let started := n.election.startPreVote n.id n.currentTerm n.storage
  { n with election := started.1 }.broadcast R started.2

def becomeLeader (R : Realization) (n : RaftNode P S SM) : RaftNode P S SM :=
  let timers := n.election.timerService.stopTimers.resetHeartbeatTimer
  { n with
    role := .leader
    replication := n.replication.initializeLeaderState R n.config.members n.storage
    election := { n.election with timerService := timers } }.sendAppendEntriesToFollowers R

def startElection (R : Realization) (n : RaftNode P S SM) : RaftNode P S SM :=
  let started := n.election.startElection n.id n.currentTerm n.storage
  let n :=
    { n with
      election := started.1
      currentTerm := started.2.1
      storage := started.2.2.1
      role := started.2.2.2.1 }.broadcast R started.2.2.2.2
  -- the source takes a configuration of one member to mean that there are no peers
  if n.config.members.length ≤ 1 then n.becomeLeader R else n

def handlePreVoteResponse (R : Realization) (n : RaftNode P S SM) (sender : NodeId) (term : Nat)
    (voteGranted : Bool) : RaftNode P S SM :=
  if term > n.currentTerm then n
  else
    let handled := n.election.handlePreVoteResponse R sender voteGranted n.config
    let n := { n with election := handled.1 }
    if handled.2 then n.startElection R else n

/-- What `handle_vote_request` does once `validate_term_and_step_down` is behind it. -/
def answerVoteRequest (n : RaftNode P S SM) (sender : NodeId) (term : Nat)
    (candidateId : NodeId) (lastLogIndex : Nat) (lastLogTerm : Nat) : RaftNode P S SM :=
  let handled :=
    n.election.handleVoteRequest term candidateId lastLogIndex lastLogTerm n.currentTerm n.storage
  { n with
    election := handled.1
    currentTerm := handled.2.1
    storage := handled.2.2.1 }.send sender handled.2.2.2

def handleVoteRequest (n : RaftNode P S SM) (sender : NodeId) (term : Nat)
    (candidateId : NodeId) (lastLogIndex : Nat) (lastLogTerm : Nat) : RaftNode P S SM :=
  let n := if term > n.currentTerm then n.stepDown term else n
  n.answerVoteRequest sender term candidateId lastLogIndex lastLogTerm

def handleVoteResponse (R : Realization) (n : RaftNode P S SM) (sender : NodeId) (term : Nat)
    (voteGranted : Bool) : RaftNode P S SM :=
  if term > n.currentTerm then n.stepDown term
  else
    let handled :=
      n.election.handleVoteResponse R sender term voteGranted n.currentTerm n.role n.config
    let n := { n with election := handled.1 }
    if handled.2 then n.becomeLeader R else n

def handleElectionTimer (R : Realization) (n : RaftNode P S SM) : RaftNode P S SM :=
  if n.role ≠ .leader then
    let n := n.startPreVote R
    if n.config.members.length ≤ 1 then n.startElection R else n
  else n

variable [StateMachine SM P]

/-! ## `message_handler/replication.rs` -/

/-- What `handle_append_entries` does once `validate_term_and_step_down` is behind it. -/
def acceptAppendEntries (R : Realization) (n : RaftNode P S SM) (sender : NodeId) (term : Nat)
    (prevLogIndex : Nat) (prevLogTerm : Nat) (entries : List (LogEntry P))
    (leaderCommit : Nat) : RaftNode P S SM :=
  let n := { n.resetElectionTimerIfValidTerm term with currentLeader := some sender }
  let a := n.replication.handleAppendEntries R term prevLogIndex prevLogTerm entries leaderCommit
    n.currentTerm n.storage n.stateMachine n.role n.observer
  let n :=
    { n with
      replication := a.replication
      currentTerm := a.currentTerm
      storage := a.storage
      stateMachine := a.stateMachine
      role := a.role
      observer := a.observer }
  (n.applyConfigChanges R a.configChanges).send sender a.response

def handleAppendEntries (R : Realization) (n : RaftNode P S SM) (sender : NodeId) (term : Nat)
    (prevLogIndex : Nat) (prevLogTerm : Nat) (entries : List (LogEntry P))
    (leaderCommit : Nat) : RaftNode P S SM :=
  if term > n.currentTerm then n.stepDown term
  else n.acceptAppendEntries R sender term prevLogIndex prevLogTerm entries leaderCommit

def shouldCreateSnapshot (n : RaftNode P S SM) : Bool :=
  n.snapshotManager.shouldCreate n.replication.commitIndex n.storage

def createSnapshotInternal (n : RaftNode P S SM) : RaftNode P S SM :=
  { n with
    storage := (SnapshotManager.create n.storage n.stateMachine n.replication.commitIndex).1 }

/-- The node takes over what a call that may apply entries left behind. -/
def adopt (n : RaftNode P S SM) (a : ApplyResult P SM) : RaftNode P S SM :=
  { n with replication := a.replication, stateMachine := a.stateMachine, observer := a.observer }

/-- The part of `handle_append_entries_response` that a leader of the answer's term runs. -/
def recordAppendEntriesResponse (R : Realization) (n : RaftNode P S SM) (sender : NodeId)
    (success : Bool) (matchIndex : Nat) : RaftNode P S SM :=
  let oldCommitIndex := n.replication.commitIndex
  let a := n.replication.handleAppendEntriesResponse R sender success matchIndex n.storage
    n.stateMachine n.config n.id n.observer
  let n := n.adopt a
  if n.replication.commitIndex > oldCommitIndex then
    let n := { n with leaderLease := n.leaderLease.grant }
    let n := n.applyConfigChanges R a.configChanges
    if n.shouldCreateSnapshot then n.createSnapshotInternal else n
  else n

def handleAppendEntriesResponse (R : Realization) (n : RaftNode P S SM) (sender : NodeId)
    (term : Nat) (success : Bool) (matchIndex : Nat) : RaftNode P S SM :=
  if term > n.currentTerm then n.stepDown term
  else if n.role = .leader ∧ term = n.currentTerm then
    n.recordAppendEntriesResponse R sender success matchIndex
  else n

def handleInstallSnapshot (n : RaftNode P S SM) (sender : NodeId) (term : Nat)
    (lastIncludedIndex : Nat) (lastIncludedTerm : Nat) (offset : Nat) (data : List UInt8)
    (done : Bool) : RaftNode P S SM :=
  let n := n.resetElectionTimerIfValidTerm term
  let a := n.replication.handleInstallSnapshot term lastIncludedIndex lastIncludedTerm offset data
    done n.currentTerm n.storage n.stateMachine n.role
  { n with
    replication := a.replication
    currentTerm := a.currentTerm
    storage := a.storage
    stateMachine := a.stateMachine
    role := a.role }.send sender a.response

def handleInstallSnapshotResponse (R : Realization) (n : RaftNode P S SM) (sender : NodeId)
    (term : Nat) (success : Bool) : RaftNode P S SM :=
  if term > n.currentTerm then n.stepDown term
  else if n.role = .leader ∧ term = n.currentTerm then
    match Storage.snapshotMetadata n.storage with
    | none => n
    | some snapshotMetadata =>
      { n with
        replication := n.replication.handleInstallSnapshotResponse R sender success
          snapshotMetadata.lastIncludedIndex }
  else n

/-! ## `message_handler/admin.rs` -/

/-- The common body of `submit_client_command` and `submit_config_change`, which differ in the
entry they append. -/
def submitEntry (R : Realization) (n : RaftNode P S SM) (entryType : EntryType P) :
    RaftNode P S SM × Except ClientError Nat :=
  if n.role ≠ .leader then (n, .error ⟨n.currentLeader⟩)
  else
    let n := { n with storage := Storage.appendEntries n.storage [⟨n.currentTerm, entryType⟩] }
    let index := Storage.lastLogIndex n.storage
    let n :=
      if n.config.members.length ≤ 1 then
        let a := n.replication.advanceCommitIndex R n.storage n.stateMachine n.config n.id
          n.observer
        (n.adopt a).applyConfigChanges R a.configChanges
      else n
    (n.sendAppendEntriesToFollowers R, .ok index)

def submitClientCommand (R : Realization) (n : RaftNode P S SM) (payload : P) :
    RaftNode P S SM × Except ClientError Nat :=
  n.submitEntry R (.command payload)

def submitConfigChange (R : Realization) (n : RaftNode P S SM) (change : ConfigurationChange) :
    RaftNode P S SM × Except ClientError Nat :=
  n.submitEntry R (.configChange change)

/-- The common body of `add_server` and `remove_server`: submit a validated change and track
the index it got. -/
def submitTracked (R : Realization) (n : RaftNode P S SM)
    (change : Except ConfigError ConfigurationChange) :
    RaftNode P S SM × Except ConfigError Nat :=
  match change with
  | .error e => (n, .error e)
  | .ok change =>
    let submitted := n.submitConfigChange R change
    match submitted.2 with
    | .error _ => (submitted.1, .error .notLeader)
    | .ok index =>
      let n := submitted.1
      ({ n with configManager := n.configManager.trackPendingChange index }, .ok index)

def addServer (R : Realization) (n : RaftNode P S SM) (nodeId : NodeId) :
    RaftNode P S SM × Except ConfigError Nat :=
  n.submitTracked R
    (n.configManager.addServer nodeId n.id (decide (n.role = .leader)) n.replication.commitIndex)

def removeServer (R : Realization) (n : RaftNode P S SM) (nodeId : NodeId) :
    RaftNode P S SM × Except ConfigError Nat :=
  n.submitTracked R
    (n.configManager.removeServer nodeId n.id (decide (n.role = .leader))
      n.replication.commitIndex)

/-! ## `message_handler.rs` and `raft_node.rs` -/

def handleMessage (R : Realization) (n : RaftNode P S SM) (sender : NodeId) :
    RaftMsg P → RaftNode P S SM
  | .preVoteRequest term _ lastLogIndex lastLogTerm =>
    n.handlePreVoteRequest sender term lastLogIndex lastLogTerm
  | .preVoteResponse term voteGranted => n.handlePreVoteResponse R sender term voteGranted
  | .requestVote term candidateId lastLogIndex lastLogTerm =>
    n.handleVoteRequest sender term candidateId lastLogIndex lastLogTerm
  | .requestVoteResponse term voteGranted => n.handleVoteResponse R sender term voteGranted
  | .appendEntries term prevLogIndex prevLogTerm entries leaderCommit =>
    n.handleAppendEntries R sender term prevLogIndex prevLogTerm entries leaderCommit
  | .appendEntriesResponse term success matchIndex =>
    n.handleAppendEntriesResponse R sender term success matchIndex
  | .installSnapshot term _ lastIncludedIndex lastIncludedTerm offset data done =>
    n.handleInstallSnapshot sender term lastIncludedIndex lastIncludedTerm offset data done
  | .installSnapshotResponse term success =>
    n.handleInstallSnapshotResponse R sender term success

def handleTimer (R : Realization) (n : RaftNode P S SM) : TimerKind → RaftNode P S SM
  | .election => n.handleElectionTimer R
  | .heartbeat => n.handleHeartbeatTimer R

def onEvent (R : Realization) (n : RaftNode P S SM) : Event P → RaftNode P S SM
  | .timerFired kind => n.handleTimer R kind
  | .message sender msg => n.handleMessage R sender msg
  | .clientCommand payload => (n.submitClientCommand R payload).1
  | .configChange change => (n.submitConfigChange R change).1

def readLinearizable (n : RaftNode P S SM) (key : String) : Except ReadError (Option String) :=
  if n.role ≠ .leader ∨ n.leaderLease.isValid = false then .error ⟨n.currentLeader⟩
  else .ok (StateMachine.get n.stateMachine key)

/-- `RaftNode::new_from_builder`, on a fresh `LogReplicationManager` and `ElectionManager`. -/
def newFromBuilder (R : Realization) (id : NodeId) (storage : S) (stateMachine : SM)
    (timerService : TimerService) (transport : List (Outgoing P S)) (peers : List NodeId)
    (observer : Observer P) (snapshotThreshold : Nat) (clock leaseDurationMillis : Nat) :
    RaftNode P S SM :=
  let restored : SM × Nat :=
    match Storage.loadSnapshot storage with
    | some snapshot =>
      ((StateMachine.restoreFromSnapshot stateMachine snapshot.data).1,
        snapshot.metadata.lastIncludedIndex)
    | none => (stateMachine, 0)
  let allMembers := peers.foldl (pushWithin R.nodes) (pushWithin R.nodes [] id)
  { id := id
    role := .follower
    currentTerm := Storage.currentTerm storage
    currentLeader := none
    transport := transport
    storage := storage
    stateMachine := restored.1
    observer := observer
    election := .new timerService.resetElectionTimer
    replication := { LogReplicationManager.new with lastApplied := restored.2 }
    configManager := .new ⟨allMembers⟩
    snapshotManager := ⟨snapshotThreshold⟩
    leaderLease := .new leaseDurationMillis clock }

end RaftNode

end MetalRaft
