import MetalRaft.Types

/-!
# Storage and state machine

The traits `Storage` (`storage.rs`) and `StateMachine` (`state_machine.rs`) as classes, and the
`InMemoryStorage` of `test-utils`, on which the whole validation suite runs.

* A storage operation returns the new storage; `applySnapshotChunk` returns it beside its
  `Result`, since a failing call may have changed the storage already.
* `begin_snapshot_transfer` and `finalize_snapshot` are not called by the core and left out.
* `LawfulStorage` is what every storage owes to its term and vote cells.
-/

set_option autoImplicit false

namespace MetalRaft

class Storage (S : Type) (P : outParam Type) where
  currentTerm : S → Nat
  setCurrentTerm : S → Nat → S
  votedFor : S → Option NodeId
  setVotedFor : S → Option NodeId → S
  lastLogIndex : S → Nat
  lastLogTerm : S → Nat
  getEntry : S → Nat → Option (LogEntry P)
  /-- The entries at the indices from the first bound up to, not including, the second. -/
  getEntries : S → Nat → Nat → List (LogEntry P)
  appendEntries : S → List (LogEntry P) → S
  truncateAfter : S → Nat → S
  saveSnapshot : S → Snapshot → S
  loadSnapshot : S → Option Snapshot
  snapshotMetadata : S → Option SnapshotMetadata
  getSnapshotChunk : S → Nat → Nat → Option SnapshotChunk
  applySnapshotChunk : S → Nat → List UInt8 → Bool → Nat → Nat →
    S × Except SnapshotError Unit
  discardEntriesBefore : S → Nat → S
  firstLogIndex : S → Nat

/-- A state machine.  Its snapshot is a `Vec<u8>`, so its length is a `usize`; a failing
restore may have changed the machine. -/
class StateMachine (SM : Type) (P : outParam Type) where
  apply : SM → P → SM
  get : SM → String → Option String
  createSnapshot : SM → List UInt8
  restoreFromSnapshot : SM → List UInt8 → SM × Except SnapshotError Unit
  createSnapshot_length : ∀ s, (createSnapshot s).length ≤ usizeMax

/-- The term and the vote are cells of their own: each write is read back, and no other
operation touches them. -/
class LawfulStorage (S : Type) (P : outParam Type) [Storage S P] : Prop where
  currentTerm_setCurrentTerm : ∀ (s : S) t,
    Storage.currentTerm (Storage.setCurrentTerm s t) = t
  votedFor_setCurrentTerm : ∀ (s : S) t,
    Storage.votedFor (Storage.setCurrentTerm s t) = Storage.votedFor s
  currentTerm_setVotedFor : ∀ (s : S) v,
    Storage.currentTerm (Storage.setVotedFor s v) = Storage.currentTerm s
  votedFor_setVotedFor : ∀ (s : S) v, Storage.votedFor (Storage.setVotedFor s v) = v
  cells_appendEntries : ∀ (s : S) es,
    Storage.currentTerm (Storage.appendEntries s es) = Storage.currentTerm s ∧
      Storage.votedFor (Storage.appendEntries s es) = Storage.votedFor s
  cells_truncateAfter : ∀ (s : S) i,
    Storage.currentTerm (Storage.truncateAfter s i) = Storage.currentTerm s ∧
      Storage.votedFor (Storage.truncateAfter s i) = Storage.votedFor s
  cells_saveSnapshot : ∀ (s : S) x,
    Storage.currentTerm (Storage.saveSnapshot s x) = Storage.currentTerm s ∧
      Storage.votedFor (Storage.saveSnapshot s x) = Storage.votedFor s
  cells_applySnapshotChunk : ∀ (s : S) o c d n t,
    Storage.currentTerm (Storage.applySnapshotChunk s o c d n t).1 = Storage.currentTerm s ∧
      Storage.votedFor (Storage.applySnapshotChunk s o c d n t).1 = Storage.votedFor s
  cells_discardEntriesBefore : ∀ (s : S) i,
    Storage.currentTerm (Storage.discardEntriesBefore s i) = Storage.currentTerm s ∧
      Storage.votedFor (Storage.discardEntriesBefore s i) = Storage.votedFor s

/-! ## The in-memory storage of the test realization -/

/-- `SimSnapshotData::chunk_at`. -/
def chunkAt (data : List UInt8) (offset maxLen : Nat) : Option (List UInt8) :=
  if offset ≥ data.length then none
  else
    let stop := min (offset + maxLen) data.length
    some ((data.take stop).drop offset)

structure InMemoryStorage (P : Type) where
  currentTerm : Nat
  votedFor : Option NodeId
  log : List (LogEntry P)
  snapshot : Option Snapshot
  pendingSnapshotData : List UInt8
  firstIndex : Nat

namespace InMemoryStorage

variable {P : Type}

def new : InMemoryStorage P := ⟨0, none, [], none, [], 1⟩

def setCurrentTerm (s : InMemoryStorage P) (term : Nat) : InMemoryStorage P :=
  { s with currentTerm := term }

def setVotedFor (s : InMemoryStorage P) (votedFor : Option NodeId) : InMemoryStorage P :=
  { s with votedFor := votedFor }

def lastLogIndex (s : InMemoryStorage P) : Nat :=
  if s.log.isEmpty then s.firstIndex - 1 else s.firstIndex + s.log.length - 1

def snapshotMetadata (s : InMemoryStorage P) : Option SnapshotMetadata :=
  s.snapshot.map (·.metadata)

def lastLogTerm (s : InMemoryStorage P) : Nat :=
  match s.log.getLast? with
  | some lastEntry => lastEntry.term
  | none =>
    match s.snapshot with
    | some snapshot => snapshot.metadata.lastIncludedTerm
    | none => 0

def getEntry (s : InMemoryStorage P) (index : Nat) : Option (LogEntry P) :=
  if index < s.firstIndex then none else s.log[index - s.firstIndex]?

/-- `get(a..b)` of a slice is `None` when `b` lies beyond its length, and the caller then takes
the empty slice. -/
def getEntries (s : InMemoryStorage P) (start stop : Nat) : List (LogEntry P) :=
  if start < s.firstIndex ∨ start ≥ stop then []
  else
    let adjustedStart := start - s.firstIndex
    let adjustedEnd := stop - s.firstIndex
    if adjustedEnd ≤ s.log.length then (s.log.take adjustedEnd).drop adjustedStart else []

def appendEntries (s : InMemoryStorage P) (entries : List (LogEntry P)) : InMemoryStorage P :=
  { s with log := s.log ++ entries }

def truncateAfter (s : InMemoryStorage P) (index : Nat) : InMemoryStorage P :=
  if index < s.firstIndex then { s with log := [] }
  else { s with log := s.log.take (index - s.firstIndex + 1) }

def saveSnapshot (s : InMemoryStorage P) (snapshot : Snapshot) : InMemoryStorage P :=
  { s with snapshot := some snapshot }

def getSnapshotChunk (s : InMemoryStorage P) (offset maxSize : Nat) : Option SnapshotChunk :=
  match s.snapshot with
  | none => none
  | some snapshot =>
    match chunkAt snapshot.data offset maxSize with
    | none => none
    | some chunkData =>
      let totalSize := snapshot.data.length
      some ⟨offset, chunkData, decide (offset + chunkData.length ≥ totalSize)⟩

def applySnapshotChunk (s : InMemoryStorage P) (offset : Nat) (chunk : List UInt8) (done : Bool)
    (lastIncludedIndex : Nat) (lastIncludedTerm : Nat) :
    InMemoryStorage P × Except SnapshotError Unit :=
  let s := if offset = 0 then { s with pendingSnapshotData := [] } else s
  if offset ≠ s.pendingSnapshotData.length then (s, .error .corruptData)
  else
    let s := { s with pendingSnapshotData := s.pendingSnapshotData ++ chunk }
    if done then
      let snapshot : Snapshot := ⟨⟨lastIncludedIndex, lastIncludedTerm⟩, s.pendingSnapshotData⟩
      ({ s.saveSnapshot snapshot with pendingSnapshotData := [] }, .ok ())
    else (s, .ok ())

def discardEntriesBefore (s : InMemoryStorage P) (index : Nat) : InMemoryStorage P :=
  if index ≤ s.firstIndex then s
  else
    let numToDiscard := index - s.firstIndex
    if numToDiscard ≥ s.log.length then { s with log := [], firstIndex := index }
    else { s with log := s.log.drop numToDiscard, firstIndex := index }

instance : Storage (InMemoryStorage P) P where
  currentTerm := currentTerm
  setCurrentTerm := setCurrentTerm
  votedFor := votedFor
  setVotedFor := setVotedFor
  lastLogIndex := lastLogIndex
  lastLogTerm := lastLogTerm
  getEntry := getEntry
  getEntries := getEntries
  appendEntries := appendEntries
  truncateAfter := truncateAfter
  saveSnapshot := saveSnapshot
  loadSnapshot := snapshot
  snapshotMetadata := snapshotMetadata
  getSnapshotChunk := getSnapshotChunk
  applySnapshotChunk := applySnapshotChunk
  discardEntriesBefore := discardEntriesBefore
  firstLogIndex := firstIndex

end InMemoryStorage

end MetalRaft
