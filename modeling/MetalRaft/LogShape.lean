import MetalRaft.LogFacts

/-!
# The log above its snapshot

The first index of an in-memory log is always the one after its snapshot, so an index is covered
by the snapshot, held by the log, or beyond it.

* `Shaped` — this invariant.
* `placeEntries`, `create` and an installed chunk as plain operations on the list of entries:
  `Shaped.placedLog_eq`, `Shaped.create_eq`, `Shaped.install_eq`.
* `getEntry_place`, `getEntry_compactedTo` — what each of them leaves at an index.
-/

set_option autoImplicit false

namespace MetalRaft

variable {P SM : Type}

namespace InMemoryStorage

/-- The last index that the snapshot covers. -/
def snapIndex (s : InMemoryStorage P) : Nat :=
  (s.snapshot.map (·.metadata.lastIncludedIndex)).getD 0

def snapTerm (s : InMemoryStorage P) : Nat :=
  (s.snapshot.map (·.metadata.lastIncludedTerm)).getD 0

/-- The log begins where the snapshot ends. -/
def Shaped (s : InMemoryStorage P) : Prop := s.firstIndex = s.snapIndex + 1

/-- The storage with other entries above the same snapshot. -/
def withLog (s : InMemoryStorage P) (log : List (LogEntry P)) : InMemoryStorage P :=
  { s with log := log }

/-- The storage with a new snapshot and the log above it. -/
def compactedTo (s : InMemoryStorage P) (x : Snapshot) : InMemoryStorage P :=
  { s with
    snapshot := some x
    log := s.log.drop (x.metadata.lastIncludedIndex - s.snapIndex)
    firstIndex := x.metadata.lastIncludedIndex + 1 }

variable {s : InMemoryStorage P} {prev pt i : Nat} {es : List (LogEntry P)} {e : LogEntry P}

theorem Shaped.lastLogIndex_eq (h : s.Shaped) : s.lastLogIndex = s.snapIndex + s.log.length := by
  unfold Shaped at h
  unfold lastLogIndex
  cases hl : s.log with
  | nil => simp [h]
  | cons => simp [h]; omega

theorem Shaped.getEntry_eq (h : s.Shaped) (i : Nat) :
    s.getEntry i = if i ≤ s.snapIndex then none else s.log[i - s.snapIndex - 1]? := by
  unfold Shaped at h
  unfold getEntry
  rw [h]
  by_cases hi : i ≤ s.snapIndex
  · rw [if_pos hi, if_pos (by omega)]
  · rw [if_neg hi, if_neg (by omega), Nat.sub_sub]

theorem Shaped.getEntry_bounds (h : s.Shaped) (he : s.getEntry i = some e) :
    s.snapIndex < i ∧ i ≤ s.lastLogIndex := by
  rw [h.getEntry_eq] at he
  split at he
  · cases he
  · have := (List.getElem?_eq_some_iff.mp he).1
    rw [h.lastLogIndex_eq]
    omega

theorem Shaped.exists_getEntry (h : s.Shaped) (hi : s.snapIndex < i) (hle : i ≤ s.lastLogIndex) :
    ∃ e, s.getEntry i = some e := by
  rw [h.lastLogIndex_eq] at hle
  rw [h.getEntry_eq, if_neg (by omega)]
  exact ⟨_, List.getElem?_eq_getElem (by omega)⟩

theorem Shaped.withLog (h : s.Shaped) (log : List (LogEntry P)) : (s.withLog log).Shaped := h

theorem Shaped.lastLogIndex_withLog (h : s.Shaped) (log : List (LogEntry P)) :
    (s.withLog log).lastLogIndex = s.snapIndex + log.length := (h.withLog log).lastLogIndex_eq

theorem Shaped.getEntry_withLog (h : s.Shaped) (log : List (LogEntry P)) (i : Nat) :
    (s.withLog log).getEntry i = if i ≤ s.snapIndex then none else log[i - s.snapIndex - 1]? :=
  (h.withLog log).getEntry_eq i

/-! ## Placing entries -/

theorem Shaped.prev_le (h : s.Shaped)
    (hc : LogReplicationManager.checkLogConsistency prev pt s = true) : prev ≤ s.lastLogIndex := by
  unfold LogReplicationManager.checkLogConsistency at hc
  simp only [storage_getEntry, storage_snapshotMetadata] at hc
  split at hc
  · rename_i h0; omega
  · split at hc
    · rename_i he
      exact (h.getEntry_bounds he).2
    · split at hc
      · rename_i m hm
        split at hc
        · rename_i heq
          rw [h.lastLogIndex_eq]
          have : s.snapIndex = m.lastIncludedIndex := by
            unfold snapshotMetadata at hm
            cases hx : s.snapshot with
            | none => rw [hx] at hm; cases hm
            | some x => rw [hx] at hm; cases hm; simp [snapIndex, hx]
          omega
        · cases hc
      · cases hc

theorem Shaped.placedLog_eq (h : s.Shaped) (hne : es ≠ []) :
    s.placedLog prev es = s.log.take (prev - s.snapIndex) ++ es := by
  have hlast := h.lastLogIndex_eq
  unfold Shaped at h
  unfold placedLog
  rw [if_neg (by simpa using hne)]
  congr 1
  split
  · rename_i hgt
    unfold truncateAfter
    split
    · rw [show prev - s.snapIndex = 0 by omega]
      rfl
    · rw [show prev - s.snapIndex = prev - s.firstIndex + 1 by omega]
  · rw [List.take_of_length_le (by omega)]

theorem Shaped.getEntry_place (h : s.Shaped) (hprev : prev ≤ s.lastLogIndex) (hne : es ≠ []) :
    (s.withLog (s.placedLog prev es)).getEntry i =
      if i ≤ prev then s.getEntry i
      else if i ≤ s.snapIndex then none else es[i - max prev s.snapIndex - 1]? := by
  rw [h.getEntry_withLog, h.getEntry_eq, h.placedLog_eq hne]
  rw [h.lastLogIndex_eq] at hprev
  have hlen : (s.log.take (prev - s.snapIndex)).length = prev - s.snapIndex := by
    rw [List.length_take]; omega
  split
  · simp
  · split
    · rw [List.getElem?_append_left (by omega), List.getElem?_take_of_lt (by omega)]
    · rw [List.getElem?_append_right (by omega), hlen]
      congr 1
      omega

theorem Shaped.lastLogIndex_place (h : s.Shaped) (hprev : prev ≤ s.lastLogIndex) (hne : es ≠ []) :
    (s.withLog (s.placedLog prev es)).lastLogIndex = max prev s.snapIndex + es.length := by
  rw [h.lastLogIndex_withLog, h.placedLog_eq hne]
  rw [h.lastLogIndex_eq] at hprev
  simp only [List.length_append, List.length_take]
  omega

/-- Appending leaves what is there. -/
theorem Shaped.getEntry_append (h : s.Shaped) (hi : i ≤ s.lastLogIndex) :
    (s.withLog (s.log ++ es)).getEntry i = s.getEntry i := by
  rw [h.lastLogIndex_eq] at hi
  rw [h.getEntry_withLog, h.getEntry_eq]
  split
  · rfl
  · exact List.getElem?_append_left (by omega)

/-! ## Compaction -/

theorem Shaped.discard_eq (h : s.Shaped) {x : Snapshot}
    (hx : s.snapIndex ≤ x.metadata.lastIncludedIndex) :
    InMemoryStorage.discardEntriesBefore { s with snapshot := some x }
      (x.metadata.lastIncludedIndex + 1) = s.compactedTo x := by
  unfold Shaped at h
  unfold discardEntriesBefore compactedTo
  dsimp only
  split
  · rw [show x.metadata.lastIncludedIndex - s.snapIndex = 0 by omega,
      show x.metadata.lastIncludedIndex + 1 = s.firstIndex by omega]
    rfl
  · rw [show x.metadata.lastIncludedIndex + 1 - s.firstIndex =
      x.metadata.lastIncludedIndex - s.snapIndex by omega]
    split
    · rw [List.drop_eq_nil_of_le (by omega)]
    · rfl

theorem shaped_compactedTo (x : Snapshot) : (s.compactedTo x).Shaped := rfl

@[simp] theorem snapIndex_compactedTo (x : Snapshot) :
    (s.compactedTo x).snapIndex = x.metadata.lastIncludedIndex := rfl

theorem Shaped.getEntry_compactedTo (h : s.Shaped) {x : Snapshot}
    (hx : s.snapIndex ≤ x.metadata.lastIncludedIndex) :
    (s.compactedTo x).getEntry i =
      if i ≤ x.metadata.lastIncludedIndex then none else s.getEntry i := by
  rw [(shaped_compactedTo x).getEntry_eq, snapIndex_compactedTo, h.getEntry_eq]
  split
  · rfl
  · rw [if_neg (by omega), compactedTo, List.getElem?_drop]
    congr 1
    omega

theorem Shaped.lastLogIndex_compactedTo (h : s.Shaped) {x : Snapshot}
    (hx : s.snapIndex ≤ x.metadata.lastIncludedIndex) :
    (s.compactedTo x).lastLogIndex = max s.lastLogIndex x.metadata.lastIncludedIndex := by
  rw [(shaped_compactedTo x).lastLogIndex_eq, snapIndex_compactedTo, h.lastLogIndex_eq,
    compactedTo, List.length_drop]
  omega

/-- Taking a snapshot at an index that the log holds. -/
theorem Shaped.create_eq [StateMachine SM P] (h : s.Shaped) (sm : SM)
    (he : s.getEntry i = some e) :
    (SnapshotManager.create s sm i).1 =
      s.compactedTo ⟨⟨i, e.term⟩, StateMachine.createSnapshot sm⟩ := by
  have hb := h.getEntry_bounds he
  unfold SnapshotManager.create
  rw [if_neg (by omega)]
  simp only [storage_getEntry, he, SnapshotManager.compact, storage_saveSnapshot,
    storage_discardEntriesBefore]
  exact h.discard_eq (x := ⟨⟨i, e.term⟩, StateMachine.createSnapshot sm⟩) (Nat.le_of_lt hb.1)

/-- The bytes that wait for their chunk. -/
def pendingFor (s : InMemoryStorage P) (offset : Nat) : List UInt8 :=
  if offset = 0 then [] else s.pendingSnapshotData

theorem snapIndex_le_of_not_covered
    (h : LogReplicationManager.alreadyCovered i s = false) : s.snapIndex ≤ i := by
  unfold LogReplicationManager.alreadyCovered at h
  unfold snapIndex
  simp only [storage_snapshotMetadata, snapshotMetadata] at h
  cases hx : s.snapshot with
  | none => simp
  | some x =>
    rw [hx] at h
    simp only [Option.map_some, decide_eq_false_iff_not] at h
    simp only [Option.map_some, Option.getD_some]
    omega

/-- Completing a snapshot transfer. -/
theorem Shaped.install_eq (h : s.Shaped) {index term offset : Nat} {data : List UInt8}
    (hfresh : LogReplicationManager.alreadyCovered index s = false)
    (hok : (s.applySnapshotChunk offset data true index term).2 = .ok ()) :
    (s.applySnapshotChunk offset data true index term).1.discardEntriesBefore (index + 1) =
      { s.compactedTo ⟨⟨index, term⟩, s.pendingFor offset ++ data⟩ with
        pendingSnapshotData := [] } ∧
    (s.applySnapshotChunk offset data true index term).1.snapshot =
      some ⟨⟨index, term⟩, s.pendingFor offset ++ data⟩ ∧
    offset = (s.pendingFor offset).length := by
  have hchunk : (s.applySnapshotChunk offset data true index term).1 =
      { s with
        snapshot := some ⟨⟨index, term⟩, s.pendingFor offset ++ data⟩
        pendingSnapshotData := [] } ∧ offset = (s.pendingFor offset).length := by
    unfold applySnapshotChunk pendingFor at *
    by_cases h0 : offset = 0
    · subst h0; exact ⟨rfl, rfl⟩
    · simp only [h0, if_false] at hok ⊢
      split at hok
      · cases hok
      · rename_i hlen
        rw [if_neg hlen]
        exact ⟨rfl, not_ne_iff.mp hlen⟩
  rw [hchunk.1]
  refine ⟨?_, rfl, hchunk.2⟩
  have hshape : Shaped { s with pendingSnapshotData := [] } := h
  exact hshape.discard_eq (x := ⟨⟨index, term⟩, s.pendingFor offset ++ data⟩)
    (snapIndex_le_of_not_covered hfresh)

/-- A chunk that does not complete a transfer. -/
theorem storeChunk_eq {index term offset : Nat} {data : List UInt8} {done : Bool}
    (hpartly : (∃ x, (s.applySnapshotChunk offset data done index term).2 = .error x) ∨
      done = false ∨ (s.applySnapshotChunk offset data done index term).1.snapshot = none) :
    (s.applySnapshotChunk offset data done index term).1 =
      { s with
        pendingSnapshotData :=
          (s.applySnapshotChunk offset data done index term).1.pendingSnapshotData } := by
  revert hpartly
  unfold applySnapshotChunk
  by_cases h0 : offset = 0
  · subst h0
    cases done <;> simp [saveSnapshot]
  · simp only [h0, if_false]
    split
    · intro _; rfl
    · cases done <;> simp [saveSnapshot]

end InMemoryStorage

end MetalRaft
