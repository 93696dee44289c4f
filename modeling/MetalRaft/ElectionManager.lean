import MetalRaft.Collections
import MetalRaft.Storage

/-!
# ElectionManager

`components/election_manager.rs`: the two vote tallies, the pre-vote flag and the timers, with
the functions that read and write them.  A function with `&mut` arguments returns their new
values, in the order of the arguments, before its result.
-/

set_option autoImplicit false

namespace MetalRaft

structure ElectionManager where
  votesReceived : List NodeId
  preVotesReceived : List NodeId
  inPreVote : Bool
  timerService : TimerService

namespace ElectionManager

variable {P S : Type} [Storage S P]

def new (timerService : TimerService) : ElectionManager := ⟨[], [], false, timerService⟩

def startPreVote (em : ElectionManager) (nodeId : NodeId) (currentTerm : Nat) (storage : S) :
    ElectionManager × RaftMsg P :=
  ({ em with
      preVotesReceived := [nodeId]
      inPreVote := true
      timerService := em.timerService.resetElectionTimer },
    .preVoteRequest currentTerm nodeId (Storage.lastLogIndex storage)
      (Storage.lastLogTerm storage))

def isLogUpToDate (candidateLastLogIndex : Nat) (candidateLastLogTerm : Nat)
    (storage : S) : Bool :=
  let ourTerm := Storage.lastLogTerm storage
  let ourIndex := Storage.lastLogIndex storage
  decide (candidateLastLogTerm > ourTerm) ||
    (decide (candidateLastLogTerm = ourTerm) && decide (candidateLastLogIndex ≥ ourIndex))

def handlePreVoteRequest (term : Nat) (lastLogIndex : Nat) (lastLogTerm : Nat)
    (currentTerm : Nat) (storage : S) : RaftMsg P :=
  let voteGranted :=
    if term < currentTerm then false else isLogUpToDate lastLogIndex lastLogTerm storage
  .preVoteResponse currentTerm voteGranted

/-- Returns whether a real election should start. -/
def handlePreVoteResponse (R : Realization) (em : ElectionManager) (sender : NodeId)
    (voteGranted : Bool) (config : Configuration) : ElectionManager × Bool :=
  if !em.inPreVote || !voteGranted then (em, false)
  else
    let em := { em with preVotesReceived := pushWithin R.nodes em.preVotesReceived sender }
    let preVotes := em.preVotesReceived.length
    if config.hasQuorum preVotes then ({ em with inPreVote := false }, true) else (em, false)

/-- The storage is written twice: the new term first, then the vote for itself.  The new term fits a
`u64` unless the old one is `u64::MAX`; what a release build does then is `startElectionWrapping`. -/
def startElection (em : ElectionManager) (nodeId : NodeId) (currentTerm : Nat) (storage : S) :
    ElectionManager × Nat × S × NodeState × RaftMsg P :=
  let currentTerm := currentTerm + 1
  let storage := Storage.setCurrentTerm storage currentTerm
  let storage := Storage.setVotedFor storage (some nodeId)
  ({ em with
      votesReceived := [nodeId]
      inPreVote := false
      timerService := em.timerService.resetElectionTimer },
    currentTerm, storage, .candidate,
    .requestVote currentTerm nodeId (Storage.lastLogIndex storage) (Storage.lastLogTerm storage))

def shouldGrantVote (term currentTerm : Nat) (candidateId : NodeId) (lastLogIndex : Nat)
    (lastLogTerm : Nat) (storage : S) : Bool :=
  if term < currentTerm then false
  else
    match Storage.votedFor storage with
    | some voted =>
      if voted ≠ candidateId then false else isLogUpToDate lastLogIndex lastLogTerm storage
    | none => isLogUpToDate lastLogIndex lastLogTerm storage

def handleVoteRequest (em : ElectionManager) (term : Nat) (candidateId : NodeId)
    (lastLogIndex : Nat) (lastLogTerm : Nat) (currentTerm : Nat) (storage : S) :
    ElectionManager × Nat × S × RaftMsg P :=
  -- the caller has stepped down on a higher term already, so this branch is never taken there
  let behind := decide (term > currentTerm)
  let currentTerm := if behind then term else currentTerm
  let storage :=
    if behind then Storage.setVotedFor (Storage.setCurrentTerm storage term) none else storage
  let voteGranted := shouldGrantVote term currentTerm candidateId lastLogIndex lastLogTerm storage
  if voteGranted then
    ({ em with timerService := em.timerService.resetElectionTimer }, currentTerm,
      Storage.setVotedFor storage (some candidateId), .requestVoteResponse currentTerm true)
  else (em, currentTerm, storage, .requestVoteResponse currentTerm false)

/-- Returns whether the node should become leader. -/
def handleVoteResponse (R : Realization) (em : ElectionManager) (sender : NodeId) (term : Nat)
    (voteGranted : Bool) (currentTerm : Nat) (role : NodeState) (config : Configuration) :
    ElectionManager × Bool :=
  if term > currentTerm then (em, false)
  else if role ≠ .candidate ∨ term ≠ currentTerm ∨ voteGranted = false then (em, false)
  else
    let em := { em with votesReceived := pushWithin R.nodes em.votesReceived sender }
    let votes := em.votesReceived.length
    (em, config.hasQuorum votes)

end ElectionManager

end MetalRaft
