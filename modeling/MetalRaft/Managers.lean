import MetalRaft.LogReplicationManager

/-!
# ConfigChangeManager, SnapshotManager and LeaderLease

`components/config_change_manager.rs`, `components/snapshot_manager.rs` and
`components/leader_lease.rs`.
-/

set_option autoImplicit false

namespace MetalRaft

/-! ## Configuration changes -/

structure ConfigChangeManager where
  config : Configuration
  pendingChange : Option Nat

/-- The values `apply_changes` may move. -/
structure ChangeResult where
  manager : ConfigChangeManager
  replication : LogReplicationManager
  role : NodeState

namespace ConfigChangeManager

def new (config : Configuration) : ConfigChangeManager := ⟨config, none⟩

def isChangeCommitted (index commitIndex : Nat) : Bool := decide (index ≤ commitIndex)

/-- A tracked change that is not committed yet blocks the next one. -/
def changeInProgress (m : ConfigChangeManager) (commitIndex : Nat) : Bool :=
  match m.pendingChange with
  | some pendingIndex => !isChangeCommitted pendingIndex commitIndex
  | none => false

def addServer (m : ConfigChangeManager) (nodeId selfId : NodeId) (isLeader : Bool)
    (commitIndex : Nat) : Except ConfigError ConfigurationChange :=
  if !isLeader then .error .notLeader
  else if m.changeInProgress commitIndex then .error .configChangeInProgress
  else if nodeId = selfId ∨ m.config.contains nodeId then .error .nodeAlreadyExists
  else .ok (.addServer nodeId)

def removeServer (m : ConfigChangeManager) (nodeId selfId : NodeId) (isLeader : Bool)
    (commitIndex : Nat) : Except ConfigError ConfigurationChange :=
  if !isLeader then .error .notLeader
  else if m.changeInProgress commitIndex then .error .configChangeInProgress
  else if m.config.size = 1 then .error .cannotRemoveLastNode
  else if nodeId ≠ selfId ∧ m.config.contains nodeId = false then .error .nodeNotFound
  else .ok (.removeServer nodeId)

def trackPendingChange (m : ConfigChangeManager) (index : Nat) : ConfigChangeManager :=
  { m with pendingChange := some index }

/-- One committed change, whichever node it names. -/
def applyChange (R : Realization) (selfId : NodeId) (lastLogIndex : Nat) (c : ChangeResult)
    (entry : Nat × ConfigurationChange) : ChangeResult :=
  let members := c.manager.config.members
  let c : ChangeResult :=
    match entry.2 with
    | .addServer nodeId =>
      let newMembers := pushWithin R.nodes (members.foldl (pushWithin R.nodes) []) nodeId
      let c := { c with manager := { c.manager with config := ⟨newMembers⟩ } }
      if c.role = .leader then
        let r := c.replication
        let r :=
          { r with
            nextIndex := r.nextIndex.insert R nodeId (lastLogIndex + 1)
            matchIndex := r.matchIndex.insert R nodeId 0 }
        { c with replication := r.markServerCatchingUp R nodeId }
      else c
    | .removeServer nodeId =>
      let newMembers := (members.filter (· != nodeId)).foldl (pushWithin R.nodes) []
      let c := { c with manager := { c.manager with config := ⟨newMembers⟩ } }
      let r := c.replication
      let c :=
        if c.role = .leader then
          { c with
            replication :=
              { r with
                nextIndex := r.nextIndex.remove nodeId
                matchIndex := r.matchIndex.remove nodeId } }
        else c
      if nodeId = selfId then { c with role := .follower } else c
  if c.manager.pendingChange = some entry.1 then
    { c with manager := { c.manager with pendingChange := none } }
  else c

def applyChanges (R : Realization) (m : ConfigChangeManager) (changes : ConfigChangeCollection)
    (selfId : NodeId) (lastLogIndex : Nat) (replication : LogReplicationManager)
    (currentRole : NodeState) : ChangeResult :=
  changes.foldl (applyChange R selfId lastLogIndex) ⟨m, replication, currentRole⟩

end ConfigChangeManager

/-! ## Snapshots -/

structure SnapshotManager where
  threshold : Nat

namespace SnapshotManager

variable {P S SM : Type} [Storage S P] [StateMachine SM P]

def shouldCreate (m : SnapshotManager) (commitIndex : Nat) (storage : S) : Bool :=
  if commitIndex < m.threshold then false
  else
    match Storage.loadSnapshot storage with
    | some snapshot =>
      if snapshot.metadata.lastIncludedIndex ≥ m.threshold then false else true
    | none => true

def compact (storage : S) (lastIncludedIndex : Nat) : S :=
  Storage.discardEntriesBefore storage (lastIncludedIndex + 1)

def create (storage : S) (stateMachine : SM) (lastApplied : Nat) :
    S × Except SnapshotError Nat :=
  if lastApplied = 0 then (storage, .error .noEntriesToSnapshot)
  else
    match Storage.getEntry storage lastApplied with
    | none => (storage, .error .entryNotFound)
    | some entry =>
      let snapshot : Snapshot :=
        ⟨⟨lastApplied, entry.term⟩, StateMachine.createSnapshot stateMachine⟩
      (compact (Storage.saveSnapshot storage snapshot) lastApplied, .ok lastApplied)

end SnapshotManager

/-! ## The lease -/

/-- A lease; `clock` is what its `Clock::now()` reads at the moment. -/
structure LeaderLease where
  expiration : Option Nat
  leaseDurationMillis : Nat
  clock : Nat

namespace LeaderLease

def new (leaseDurationMillis clock : Nat) : LeaderLease := ⟨none, leaseDurationMillis, clock⟩

def grant (l : LeaderLease) : LeaderLease :=
  { l with expiration := some (l.clock + l.leaseDurationMillis) }

def isValid (l : LeaderLease) : Bool :=
  match l.expiration with
  | none => false
  | some expiration => decide (l.clock < expiration)

def revoke (l : LeaderLease) : LeaderLease := { l with expiration := none }

theorem isValid_iff {l : LeaderLease} :
    l.isValid = true ↔ ∃ expiration, l.expiration = some expiration ∧ l.clock < expiration := by
  unfold isValid
  cases l.expiration <;> simp

end LeaderLease

end MetalRaft
