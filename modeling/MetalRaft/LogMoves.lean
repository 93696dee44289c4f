import MetalRaft.ClusterSteps
import MetalRaft.LogShape

/-!
# Moves, as far as logs go

* `LogMove` — what a move can do to the log, the snapshot, the two counters, the state machine and
  the record of what it was given; `Move.logCases` sorts the moves.
* `shaped_move` — the log keeps beginning where the snapshot ends.
-/

set_option autoImplicit false

namespace MetalRaft

variable {P SM : Type}

/-- Log, snapshot and first index are as before. -/
structure SameLog (s s' : InMemoryStorage P) : Prop where
  log : s'.log = s.log
  snapshot : s'.snapshot = s.snapshot
  firstIndex : s'.firstIndex = s.firstIndex

namespace SameLog

variable {s s' : InMemoryStorage P}

theorem refl (s : InMemoryStorage P) : SameLog s s := ⟨rfl, rfl, rfl⟩

theorem trans {s'' : InMemoryStorage P} (h : SameLog s s') (h' : SameLog s' s'') :
    SameLog s s'' :=
  ⟨h'.log.trans h.log, h'.snapshot.trans h.snapshot, h'.firstIndex.trans h.firstIndex⟩

theorem snapIndex (h : SameLog s s') : s'.snapIndex = s.snapIndex := by
  unfold InMemoryStorage.snapIndex; rw [h.snapshot]

theorem snapTerm (h : SameLog s s') : s'.snapTerm = s.snapTerm := by
  unfold InMemoryStorage.snapTerm; rw [h.snapshot]

theorem shaped (h : SameLog s s') : s'.Shaped ↔ s.Shaped := by
  unfold InMemoryStorage.Shaped; rw [h.snapIndex, h.firstIndex]

theorem lastLogIndex (h : SameLog s s') : s'.lastLogIndex = s.lastLogIndex := by
  unfold InMemoryStorage.lastLogIndex; rw [h.log, h.firstIndex]

theorem getEntry (h : SameLog s s') (i : Nat) : s'.getEntry i = s.getEntry i := by
  unfold InMemoryStorage.getEntry; rw [h.log, h.firstIndex]

theorem alreadyCovered (h : SameLog s s') (i : Nat) :
    LogReplicationManager.alreadyCovered i s' = LogReplicationManager.alreadyCovered i s := by
  unfold LogReplicationManager.alreadyCovered
  simp [InMemoryStorage.snapshotMetadata, h.snapshot]

/-- Taking over a term changes neither. -/
theorem storageIn [StateMachine SM P] (n : TestNode P SM) (T : Nat) :
    SameLog n.storage (n.storageIn T) := by
  unfold RaftNode.storageIn
  split
  · exact ⟨rfl, rfl, rfl⟩
  · exact refl _

end SameLog

namespace RaftNode

/-- The move leaves log, snapshot, counters and state machine alone. -/
structure QuietLog (n n' : TestNode P SM) : Prop where
  sameLog : SameLog n.storage n'.storage
  commitIndex : n'.replication.commitIndex = n.replication.commitIndex
  lastApplied : n'.replication.lastApplied = n.replication.lastApplied
  stateMachine : n'.stateMachine = n.stateMachine
  observer : n'.observer = n.observer

variable [StateMachine SM P]

/-- What is compacted into the snapshot that a leader takes. -/
def ownSnapshot (n : TestNode P SM) (term : Nat) : Snapshot :=
  ⟨⟨n.replication.commitIndex, term⟩, StateMachine.createSnapshot n.stateMachine⟩

/-- The node after a completed snapshot transfer. -/
def installed (n : TestNode P SM) (x : Snapshot) : TestNode P SM :=
  { n with
    replication :=
      { n.replication with
        commitIndex := max n.replication.commitIndex x.metadata.lastIncludedIndex
        lastApplied := max n.replication.lastApplied x.metadata.lastIncludedIndex }
    storage := { n.storage.compactedTo x with pendingSnapshotData := [] }
    stateMachine := (StateMachine.restoreFromSnapshot n.stateMachine x.data).1 }

inductive LogMove (ev : Event P) (n₀ : TestNode P SM) : TestNode P SM → TestNode P SM → Prop where
  | quiet {n n'} (h : QuietLog n n') : LogMove ev n₀ n n'
  | place {sender prev pt es lc}
      (asked : ev = .message sender (.appendEntries n₀.currentTerm prev pt es lc))
      (consistent : LogReplicationManager.checkLogConsistency prev pt n₀.storage = true)
      (nonempty : es ≠ []) :
      LogMove ev n₀ n₀ (n₀.withStorage (n₀.storage.withLog (n₀.storage.placedLog prev es)))
  | append {entryType} (leader : n₀.role = .leader) (submits : Submits ev entryType) :
      LogMove ev n₀ n₀
        (n₀.withStorage
          (n₀.storage.withLog (n₀.storage.log ++ [⟨n₀.currentTerm, entryType⟩])))
  | learnCommit {n sender prev pt es lc}
      (asked : ev = .message sender (.appendEntries n₀.currentTerm prev pt es lc))
      (consistent : LogReplicationManager.checkLogConsistency prev pt n₀.storage = true)
      (placed : n = n₀.withStorage (n₀.storage.withLog (n₀.storage.placedLog prev es)))
      (higher : n₀.replication.commitIndex < lc) :
      LogMove ev n₀ n
        (n.withReplication
          { n.replication with commitIndex := min lc n.storage.lastLogIndex })
  | applyNone {n} (below : n.replication.lastApplied < n.replication.commitIndex)
      (missing : n.storage.getEntry (n.replication.lastApplied + 1) = none) :
      LogMove ev n₀ n
        (n.withReplication { n.replication with lastApplied := n.replication.lastApplied + 1 })
  | applyEntry {n} {entry : LogEntry P}
      (below : n.replication.lastApplied < n.replication.commitIndex)
      (found : n.storage.getEntry (n.replication.lastApplied + 1) = some entry) :
      LogMove ev n₀ n
        { n with
          replication := { n.replication with lastApplied := n.replication.lastApplied + 1 }
          stateMachine := entry.applyTo n.stateMachine
          observer := ⟨n.observer.applied ++ [(n.replication.lastApplied + 1, entry)]⟩ }
  | commit {n} {entry : LogEntry P} {newCommit} (leader : n.role = .leader)
      (median : n.replication.matchIndex.computeMedian .testUtils n.storage.lastLogIndex n.config
        n.replication.catchingUpServers n.id = some newCommit)
      (higher : n.replication.commitIndex < newCommit)
      (found : n.storage.getEntry newCommit = some entry)
      (term : entry.term = n.storage.currentTerm) :
      LogMove ev n₀ n (n.withReplication { n.replication with commitIndex := newCommit })
  | compact {n} {entry : LogEntry P}
      (raised : n₀.replication.commitIndex < n.replication.commitIndex)
      (found : n.storage.getEntry n.replication.commitIndex = some entry)
      (term : entry.term = n.storage.currentTerm)
      (applied : n.replication.lastApplied =
        max n₀.replication.lastApplied n.replication.commitIndex) :
      LogMove ev n₀ n (n.withStorage (n.storage.compactedTo (n.ownSnapshot entry.term)))
  | install {n sender leaderId offset data} {x : Snapshot}
      (asked : ev = .message sender
        (.installSnapshot n.currentTerm leaderId x.metadata.lastIncludedIndex
          x.metadata.lastIncludedTerm offset data true))
      (data : x.data = n.storage.pendingFor offset ++ data)
      (fits : offset = (n.storage.pendingFor offset).length)
      (same : SameData n₀ n)
      (fresh : LogReplicationManager.alreadyCovered x.metadata.lastIncludedIndex n.storage = false)
      (below : n.storage.snapIndex ≤ x.metadata.lastIncludedIndex) :
      LogMove ev n₀ n (n.installed x)

variable {ev : Event P} {n₀ n n' : TestNode P SM}

omit [StateMachine SM P] in
@[simp] theorem withStorage_storage (s : InMemoryStorage P) : (n.withStorage s).storage = s := rfl

theorem installed_sameLog (n : TestNode P SM) (x : Snapshot) :
    SameLog (n.storage.compactedTo x) (n.installed x).storage := ⟨rfl, rfl, rfl⟩

/-- A whole snapshot that the node does not hold yet is installed. -/
theorem handleInstallSnapshot_whole (sender : NodeId) {T index : Nat} (term : Nat)
    (data : List UInt8) (hle : n.currentTerm ≤ T) (hs : n.storage.Shaped)
    (hfresh : LogReplicationManager.alreadyCovered index n.storage = false) :
    ∃ s, SameLog (n.storage.compactedTo ⟨⟨index, term⟩, data⟩) s ∧
      n.handleInstallSnapshot sender T index term 0 data true =
        { n.joining T with
          storage := s
          stateMachine := (StateMachine.restoreFromSnapshot n.stateMachine data).1
          replication := { n.replication with
            commitIndex := max n.replication.commitIndex index
            lastApplied := max n.replication.lastApplied index } }.send sender
          (.installSnapshotResponse T true) := by
  have hsame := SameLog.storageIn n T
  have hcovered : LogReplicationManager.alreadyCovered index (n.storageIn T) = false := by
    rw [hsame.alreadyCovered, hfresh]
  have hchunk : Storage.applySnapshotChunk (n.storageIn T) 0 data true index term =
      (((n.storageIn T).applySnapshotChunk 0 data true index term).1, .ok ()) := rfl
  obtain ⟨hinstall, hloaded, _⟩ := (hsame.shaped.mpr hs).install_eq hcovered
    (congrArg Prod.snd hchunk)
  refine ⟨{ (n.storageIn T).compactedTo ⟨⟨index, term⟩, data⟩ with pendingSnapshotData := [] },
    ⟨?_, rfl, rfl⟩, ?_⟩
  · show (n.storageIn T).log.drop (index - (n.storageIn T).snapIndex) =
      n.storage.log.drop (index - n.storage.snapIndex)
    rw [hsame.log, hsame.snapIndex]
  · rw [handleInstallSnapshot_of_le hle, hcovered]
    unfold LogReplicationManager.installChunk
    rw [hchunk]
    simp only [Bool.false_eq_true, if_false, InMemoryStorage.storage_loadSnapshot, hloaded, if_true,
      InMemoryStorage.storage_discardEntriesBefore, hinstall]
    rfl

theorem Move.logCases (h : Move .testUtils ev n₀ n n') (hs : n.storage.Shaped) :
    LogMove ev n₀ n n' := by
  cases h with
  | inert h =>
    exact .quiet ⟨by rw [h.storage]; exact .refl _, by rw [h.replication], by rw [h.replication],
      h.stateMachine, h.observer⟩
  | campaign =>
    rw [broadcast_eq]
    exact .quiet ⟨⟨rfl, rfl, rfl⟩, rfl, rfl, rfl, rfl⟩
  | lead =>
    obtain ⟨hc, ha, _⟩ := initializeLeaderState_counters (R := .testUtils) n.replication
      n.config.members n.storage
    exact .quiet ⟨⟨rfl, rfl, rfl⟩, hc, ha, rfl, rfl⟩
  | @place sender prev pt es lc asked consistent =>
    rw [InMemoryStorage.placeEntries_eq]
    by_cases hne : es = []
    · subst hne
      exact .quiet ⟨⟨rfl, rfl, rfl⟩, rfl, rfl, rfl, rfl⟩
    · exact .place asked consistent hne
  | append leader submits => exact .append leader submits
  | learnCommit asked consistent placed higher =>
    rw [InMemoryStorage.placeEntries_eq] at placed
    have hr : n.replication = n₀.replication := by rw [placed]; rfl
    rw [← hr]
    exact .learnCommit asked consistent placed (by rw [← hr] at higher; rw [← hr]; exact higher)
  | applyNone below _ missing => exact .applyNone below missing
  | applyEntry below _ found => exact .applyEntry below found
  | applyChanges changes found =>
    obtain ⟨hc, ha⟩ := applyConfigChanges_counters (R := .testUtils) (n := n) changes
    exact .quiet ⟨⟨rfl, rfl, rfl⟩, hc, ha, rfl, rfl⟩
  | record =>
    obtain ⟨hc, ha⟩ := recorded_counters (R := .testUtils) n₀.replication _ _
    exact .quiet ⟨⟨rfl, rfl, rfl⟩, hc, ha, rfl, rfl⟩
  | recordSnapshot =>
    obtain ⟨hc, ha⟩ := installResponse_counters (R := .testUtils) n₀.replication _ _ _
    exact .quiet ⟨⟨rfl, rfl, rfl⟩, hc, ha, rfl, rfl⟩
  | commit leader median higher found term => exact .commit leader median higher found term
  | @compact _ entry _ _ raised found term applied =>
    have hcreate := hs.create_eq (e := entry) n.stateMachine found
    unfold createSnapshotInternal
    rw [hcreate]
    exact .compact raised found term applied
  | storeChunk asked same fresh partly =>
    have heq := InMemoryStorage.storeChunk_eq partly
    refine .quiet ⟨⟨?_, ?_, ?_⟩, rfl, rfl, rfl, rfl⟩ <;>
      simp only [withStorage, chunkResult, InMemoryStorage.storage_applySnapshotChunk] <;> rw [heq]
  | @install _ sender leaderId index term offset data snapshot asked same fresh ok loaded =>
    obtain ⟨hstorage, hsnap, hfits⟩ := hs.install_eq fresh ok
    have hloaded : snapshot = ⟨⟨index, term⟩, n.storage.pendingFor offset ++ data⟩ :=
      Option.some.inj (loaded.symm.trans hsnap)
    have hmove :
        LogMove ev n₀ n (n.installed ⟨⟨index, term⟩, n.storage.pendingFor offset ++ data⟩) :=
      .install asked rfl hfits same fresh (InMemoryStorage.snapIndex_le_of_not_covered fresh)
    unfold installed at hmove
    simp only [chunkResult, InMemoryStorage.storage_applySnapshotChunk,
      InMemoryStorage.storage_discardEntriesBefore]
    rw [hstorage, hloaded]
    exact hmove
  | _ => exact .quiet ⟨⟨rfl, rfl, rfl⟩, rfl, rfl, rfl, rfl⟩

theorem shaped_move (h : Move .testUtils ev n₀ n n') (hs : n.storage.Shaped) :
    n'.storage.Shaped := by
  cases h.logCases hs with
  | quiet hq => exact hq.sameLog.shaped.mpr hs
  | compact => exact InMemoryStorage.shaped_compactedTo _
  | install => rfl
  | _ => exact hs

/-- A snapshot is only replaced by one that covers as much. -/
theorem snapIndex_move (h : Move .testUtils ev n₀ n n') (hs : n.storage.Shaped) :
    n.storage.snapIndex ≤ n'.storage.snapIndex := by
  cases h.logCases hs with
  | quiet hq => exact hq.sameLog.snapIndex.ge
  | compact _ found =>
    rw [withStorage_storage, InMemoryStorage.snapIndex_compactedTo]
    exact Nat.le_of_lt (hs.getEntry_bounds found).1
  | @install _ _ _ _ _ x _ _ _ _ _ below =>
    rw [(installed_sameLog n x).snapIndex, InMemoryStorage.snapIndex_compactedTo]
    exact below
  | _ => exact Nat.le_refl _

/-- A node that starts has applied what its snapshot covers. -/
theorem lastApplied_boot (d : Deployment SM) (v : NodeId) (s : InMemoryStorage P)
    (observer : Observer P) (clock : Nat) :
    (boot d v s observer clock).replication.lastApplied = s.snapIndex := by
  unfold boot newFromBuilder InMemoryStorage.snapIndex
  dsimp only [InMemoryStorage.storage_loadSnapshot]
  cases s.snapshot <;> rfl

end RaftNode

end MetalRaft
