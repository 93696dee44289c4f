import MetalRaft.Moves

/-!
# The in-memory log

What the storage operations do to an `InMemoryStorage`, field by field, for the proofs to cite.

* The class operations unfold to the structure's own (`simp` set).
* `placedLog` — the log after the follower's truncate and append.
* `mem_placedLog`, `discardEntriesBefore_log_subset` and the like — no operation invents an
  entry.
-/

set_option autoImplicit false

namespace MetalRaft

variable {P : Type}

namespace InMemoryStorage

section

variable (s : InMemoryStorage P)

@[simp] theorem storage_currentTerm : Storage.currentTerm s = s.currentTerm := rfl
@[simp] theorem storage_votedFor : Storage.votedFor s = s.votedFor := rfl
@[simp] theorem storage_setCurrentTerm (t : Nat) :
    Storage.setCurrentTerm s t = { s with currentTerm := t } := rfl
@[simp] theorem storage_setVotedFor (v : Option NodeId) :
    Storage.setVotedFor s v = { s with votedFor := v } := rfl
@[simp] theorem storage_lastLogIndex : Storage.lastLogIndex s = s.lastLogIndex := rfl
@[simp] theorem storage_lastLogTerm : Storage.lastLogTerm s = s.lastLogTerm := rfl
@[simp] theorem storage_getEntry (i : Nat) : Storage.getEntry s i = s.getEntry i := rfl
@[simp] theorem storage_getEntries (i j : Nat) : Storage.getEntries s i j = s.getEntries i j := rfl
@[simp] theorem storage_appendEntries (es : List (LogEntry P)) :
    Storage.appendEntries s es = { s with log := s.log ++ es } := rfl
@[simp] theorem storage_truncateAfter (i : Nat) :
    Storage.truncateAfter s i = s.truncateAfter i := rfl
@[simp] theorem storage_saveSnapshot (x : Snapshot) :
    Storage.saveSnapshot s x = { s with snapshot := some x } := rfl
@[simp] theorem storage_loadSnapshot : Storage.loadSnapshot s = s.snapshot := rfl
@[simp] theorem storage_snapshotMetadata : Storage.snapshotMetadata s = s.snapshotMetadata := rfl
@[simp] theorem storage_getSnapshotChunk (i j : Nat) :
    Storage.getSnapshotChunk s i j = s.getSnapshotChunk i j := rfl
@[simp] theorem storage_applySnapshotChunk (o : Nat) (x : List UInt8) (done : Bool) (i t : Nat) :
    Storage.applySnapshotChunk s o x done i t = s.applySnapshotChunk o x done i t := rfl
@[simp] theorem storage_discardEntriesBefore (i : Nat) :
    Storage.discardEntriesBefore s i = s.discardEntriesBefore i := rfl
@[simp] theorem storage_firstLogIndex : Storage.firstLogIndex s = s.firstIndex := rfl

end

/-! ## Placing entries -/

/-- The log after `truncate_after(prev)`, where there is something to truncate, and
`append_entries(es)`. -/
def placedLog (s : InMemoryStorage P) (prev : Nat) (es : List (LogEntry P)) :
    List (LogEntry P) :=
  if es.isEmpty then s.log
  else (if s.lastLogIndex > prev then (s.truncateAfter prev).log else s.log) ++ es

theorem truncateAfter_eq (s : InMemoryStorage P) (i : Nat) :
    s.truncateAfter i = { s with log := (s.truncateAfter i).log } := by
  unfold truncateAfter
  split <;> rfl

theorem placeEntries_eq (s : InMemoryStorage P) (prev : Nat) (es : List (LogEntry P)) :
    LogReplicationManager.placeEntries prev es s = { s with log := s.placedLog prev es } := by
  unfold LogReplicationManager.placeEntries placedLog
  split
  · rfl
  · simp only [storage_lastLogIndex, storage_truncateAfter, storage_appendEntries]
    split
    · rw [truncateAfter_eq]
    · rfl

theorem truncateAfter_log_subset (s : InMemoryStorage P) (i : Nat) :
    (s.truncateAfter i).log ⊆ s.log := by
  unfold truncateAfter
  split
  · simp
  · exact List.take_subset _ _

theorem mem_placedLog {s : InMemoryStorage P} {prev : Nat} {es : List (LogEntry P)}
    {e : LogEntry P} (h : e ∈ s.placedLog prev es) : e ∈ s.log ∨ e ∈ es := by
  unfold placedLog at h
  split at h
  · exact Or.inl h
  · rcases List.mem_append.mp h with h | h
    · split at h
      · exact Or.inl (truncateAfter_log_subset s prev h)
      · exact Or.inl h
    · exact Or.inr h

/-! ## Snapshots and compaction -/

/-- A chunk touches the snapshot and the pending data only. -/
theorem applySnapshotChunk_eq (s : InMemoryStorage P) (o : Nat) (x : List UInt8) (done : Bool)
    (i t : Nat) :
    (s.applySnapshotChunk o x done i t).1 =
      { s with
        snapshot := (s.applySnapshotChunk o x done i t).1.snapshot
        pendingSnapshotData := (s.applySnapshotChunk o x done i t).1.pendingSnapshotData } := by
  unfold applySnapshotChunk saveSnapshot
  dsimp only
  split <;> split <;> (try split) <;> rfl

/-- Compaction touches the log and the first index only. -/
theorem discardEntriesBefore_eq (s : InMemoryStorage P) (i : Nat) :
    s.discardEntriesBefore i =
      { s with
        log := (s.discardEntriesBefore i).log
        firstIndex := (s.discardEntriesBefore i).firstIndex } := by
  unfold discardEntriesBefore
  dsimp only
  split
  · rfl
  · split <;> rfl

theorem discardEntriesBefore_log_subset (s : InMemoryStorage P) (i : Nat) :
    (s.discardEntriesBefore i).log ⊆ s.log := by
  unfold discardEntriesBefore
  dsimp only
  split
  · simp
  · split
    · simp
    · exact List.drop_subset _ _

/-- Taking a snapshot compacts the log and touches neither term nor vote. -/
theorem create_log_subset {SM : Type} [StateMachine SM P] (s : InMemoryStorage P) (sm : SM)
    (i : Nat) : (SnapshotManager.create s sm i).1.log ⊆ s.log ∧
      (SnapshotManager.create s sm i).1.currentTerm = s.currentTerm ∧
      (SnapshotManager.create s sm i).1.votedFor = s.votedFor := by
  unfold SnapshotManager.create
  split
  · exact ⟨List.Subset.refl _, rfl, rfl⟩
  · split
    · exact ⟨List.Subset.refl _, rfl, rfl⟩
    · simp only [SnapshotManager.compact, storage_saveSnapshot, storage_discardEntriesBefore]
      refine ⟨discardEntriesBefore_log_subset _ _, ?_, ?_⟩ <;> rw [discardEntriesBefore_eq]

instance : LawfulStorage (InMemoryStorage P) P where
  currentTerm_setCurrentTerm _ _ := rfl
  votedFor_setCurrentTerm _ _ := rfl
  currentTerm_setVotedFor _ _ := rfl
  votedFor_setVotedFor _ _ := rfl
  cells_appendEntries _ _ := ⟨rfl, rfl⟩
  cells_truncateAfter s i := by
    simp only [storage_truncateAfter, storage_currentTerm, storage_votedFor]
    rw [truncateAfter_eq]
    exact ⟨rfl, rfl⟩
  cells_saveSnapshot _ _ := ⟨rfl, rfl⟩
  cells_applySnapshotChunk s o c d n t := by
    simp only [storage_applySnapshotChunk, storage_currentTerm, storage_votedFor]
    rw [applySnapshotChunk_eq]
    exact ⟨rfl, rfl⟩
  cells_discardEntriesBefore s i := by
    simp only [storage_discardEntriesBefore, storage_currentTerm, storage_votedFor]
    rw [discardEntriesBefore_eq]
    exact ⟨rfl, rfl⟩

/-! ## Reading entries -/

theorem getEntry_mem {s : InMemoryStorage P} {i : Nat} {e : LogEntry P}
    (h : s.getEntry i = some e) : e ∈ s.log := by
  unfold getEntry at h
  split at h
  · cases h
  · exact List.mem_of_getElem? h

theorem getEntries_subset (s : InMemoryStorage P) (i j : Nat) : s.getEntries i j ⊆ s.log := by
  unfold getEntries
  split
  · simp
  · dsimp only
    split
    · exact List.Subset.trans (List.drop_subset _ _) (List.take_subset _ _)
    · simp

end InMemoryStorage

/-! ## Messages to a peer -/

/-- What a leader sends a peer: its snapshot, or the entries from the peer's next index on. -/
theorem getAppendEntriesForPeer_cases (r : LogReplicationManager) (peer leaderId : NodeId)
    (s : InMemoryStorage P) :
    (∃ m data, s.snapshotMetadata = some m ∧ (∃ x, s.snapshot = some x ∧ x.metadata = m ∧
        chunkAt x.data 0 usizeMax = some data) ∧
      r.getAppendEntriesForPeer peer leaderId s =
        .installSnapshot s.currentTerm leaderId m.lastIncludedIndex m.lastIncludedTerm 0 data
          (decide (data.length ≥ ((s.snapshot.map (·.data.length)).getD 0)))) ∨
    (r.getAppendEntriesForPeer peer leaderId s =
      r.getAppendEntriesForFollower peer s.currentTerm s) := by
  unfold LogReplicationManager.getAppendEntriesForPeer
  simp only [InMemoryStorage.storage_firstLogIndex, InMemoryStorage.storage_currentTerm,
    InMemoryStorage.storage_getSnapshotChunk, InMemoryStorage.storage_snapshotMetadata]
  split
  · split
    · rename_i chunk m hchunk hm
      left
      unfold InMemoryStorage.getSnapshotChunk at hchunk
      unfold InMemoryStorage.snapshotMetadata at hm ⊢
      cases hx : s.snapshot with
      | none => rw [hx] at hm; cases hm
      | some x =>
        rw [hx] at hchunk hm
        simp only [Option.map_some, Option.some.injEq] at hm
        dsimp only at hchunk
        cases hdata : chunkAt x.data 0 usizeMax with
        | none => rw [hdata] at hchunk; cases hchunk
        | some data =>
          rw [hdata] at hchunk
          cases hchunk
          exact ⟨m, data, by simp [hm], ⟨x, rfl, hm, hdata⟩, by simp⟩
    · exact Or.inr rfl
  · exact Or.inr rfl

end MetalRaft
