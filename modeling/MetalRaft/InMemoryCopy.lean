import MetalRaft.StorageCalls

/-!
# A storage and its copy in memory

* `LogStorage.inMemory` — the `InMemoryStorage` of `test-utils` that has the term, the vote, the
  log and the snapshot of a given storage.
* `DeviceStorage` — what the two storages of `embassy` have in common: how much they hold at least,
  and that they cut chunks from their snapshot as `InMemoryStorage` does.
* `inMemory_*` — what a call does to a storage, it does to the copy, and the copy gives the same
  answers, as long as the log begins where the snapshot ends and the capacities last.
-/

set_option autoImplicit false

namespace MetalRaft

variable {P S : Type}

namespace LogStorage

/-- The in-memory storage with the same contents. -/
def inMemory [Storage S P] [LogStorage S P] (s : S) : InMemoryStorage P where
  currentTerm := Storage.currentTerm s
  votedFor := Storage.votedFor s
  log := (image s).log.items
  snapshot := (image s).snapshot
  pendingSnapshotData := []
  firstIndex := (image s).log.first

end LogStorage

/-- A storage of the device. -/
class DeviceStorage (S : Type) (P : outParam Type) [Storage S P] [LogStorage S P] : Prop where
  capacity : ∀ cap ∈ LogStorage.capacity S, EmbassyStorage.collectionCapacity < cap
  collectionCapacity :
    ∀ cap ∈ LogStorage.collectionCapacity S, EmbassyStorage.collectionCapacity ≤ cap
  snapshotCapacity : ∀ cap ∈ LogStorage.snapshotCapacity S, EmbassyStorage.snapshotCapacity ≤ cap
  getSnapshotChunk_eq : ∀ (s : S) offset maxSize, Storage.getSnapshotChunk s offset maxSize =
    (LogStorage.inMemory s).getSnapshotChunk offset maxSize
  getEntries_length : ∀ (s : S) start stop,
    (Storage.getEntries s start stop).length ≤ EmbassyStorage.collectionCapacity

instance : DeviceStorage (EmbassyStorage P) P where
  capacity _ h := (by cases h; decide)
  collectionCapacity _ h := (by cases h; exact Nat.le_refl _)
  snapshotCapacity _ h := (by cases h; exact Nat.le_refl _)
  getSnapshotChunk_eq _ _ _ := rfl
  getEntries_length s start stop := by
    show (s.getEntries start stop).length ≤ _
    unfold EmbassyStorage.getEntries
    split
    · exact Nat.zero_le _
    · dsimp only
      split
      · exact Nat.zero_le _
      · exact foldl_pushWithin_length_le _ [] (Nat.zero_le _)

instance : DeviceStorage SemihostingStorage String where
  capacity _ h := (by cases h)
  collectionCapacity _ h := (by cases h; exact Nat.le_refl _)
  snapshotCapacity _ h := (by cases h; exact Nat.le_refl _)
  getSnapshotChunk_eq _ _ _ := rfl
  getEntries_length s start stop := by
    show (s.getEntries start stop).length ≤ _
    unfold SemihostingStorage.getEntries
    split
    · exact Nat.zero_le _
    · dsimp only
      split
      · exact Nat.zero_le _
      · exact foldl_pushWithin_length_le _ [] (Nat.zero_le _)

namespace LogStorage

section

variable [Storage S P] [LogStorage S P] {s : S}

@[simp] theorem image_inMemory (s : S) : image (inMemory s) = image s := rfl

theorem formed_inMemory : Formed (inMemory s) ↔ Formed s := Iff.rfl

/-! ## Equal answers -/

@[simp] theorem inMemory_currentTerm (s : S) :
    Storage.currentTerm (inMemory s) = Storage.currentTerm s := rfl

@[simp] theorem inMemory_votedFor (s : S) :
    Storage.votedFor (inMemory s) = Storage.votedFor s := rfl

@[simp] theorem inMemory_lastLogTerm (s : S) :
    Storage.lastLogTerm (inMemory s) = Storage.lastLogTerm s := by
  rw [lastLogTerm_eq, lastLogTerm_eq, image_inMemory]

@[simp] theorem inMemory_getEntry (s : S) (i : Nat) :
    Storage.getEntry (inMemory s) i = Storage.getEntry s i := by
  rw [getEntry_eq, getEntry_eq, image_inMemory]

@[simp] theorem inMemory_firstLogIndex (s : S) :
    Storage.firstLogIndex (inMemory s) = Storage.firstLogIndex s := by
  rw [firstLogIndex_eq, firstLogIndex_eq, image_inMemory]

@[simp] theorem inMemory_loadSnapshot (s : S) :
    Storage.loadSnapshot (inMemory s) = Storage.loadSnapshot s := by
  rw [loadSnapshot_eq, loadSnapshot_eq, image_inMemory]

@[simp] theorem inMemory_snapshotMetadata (s : S) :
    Storage.snapshotMetadata (inMemory s) = Storage.snapshotMetadata s := by
  rw [snapshotMetadata_eq, snapshotMetadata_eq, image_inMemory]

@[simp] theorem inMemory_getSnapshotChunk [DeviceStorage S P] (s : S) (offset maxSize : Nat) :
    Storage.getSnapshotChunk (inMemory s) offset maxSize =
      Storage.getSnapshotChunk s offset maxSize :=
  (DeviceStorage.getSnapshotChunk_eq s offset maxSize).symm

theorem inMemory_lastLogIndex (h : Formed s) :
    Storage.lastLogIndex (inMemory s) = Storage.lastLogIndex s := by
  rw [lastLogIndex_eq s h, lastLogIndex_eq _ (formed_inMemory.mpr h), image_inMemory]

/-- What is read at once has to fit a collection. -/
theorem inMemory_getEntries [DeviceStorage S P] (h : Formed s)
    (hheld : (image s).log.items.length ≤ EmbassyStorage.collectionCapacity) (start : Nat) :
    Storage.getEntries (inMemory s) start (Storage.lastLogIndex (inMemory s) + 1) =
      Storage.getEntries s start (Storage.lastLogIndex s + 1) := by
  have hread : ((image s).log.itemsFrom start).length ≤ (image s).log.items.length := by
    unfold Window.itemsFrom
    split
    · exact Nat.zero_le _
    · rw [List.length_drop]
      exact Nat.sub_le _ _
  rw [lastLogIndex_add_one (formed_inMemory.mpr h), lastLogIndex_add_one h, getEntries_eq,
    getEntries_eq, image_inMemory, fitting_eq_self (fun cap hcap => ?_),
    fitting_eq_self (fun cap hcap => ?_)]
  · have := DeviceStorage.collectionCapacity cap hcap
    omega
  · cases hcap

/-! ## Equal effects -/

section

variable [LawfulStorage S P]

omit [LawfulStorage S P] in
/-- Storages with equal cells and images have the same copy. -/
theorem inMemory_ext {s' : S} {t : InMemoryStorage P}
    (hterm : Storage.currentTerm s' = t.currentTerm) (hvote : Storage.votedFor s' = t.votedFor)
    (himage : image s' = t.image) (hpending : t.pendingSnapshotData = []) : inMemory s' = t := by
  obtain ⟨_, _, log, snapshot, pending, first⟩ := t
  unfold inMemory
  rw [hterm, hvote, himage, show pending = [] from hpending]
  rfl

@[simp] theorem inMemory_setCurrentTerm (s : S) (term : Nat) :
    inMemory (Storage.setCurrentTerm s term) = Storage.setCurrentTerm (inMemory s) term :=
  inMemory_ext (LawfulStorage.currentTerm_setCurrentTerm s term)
    (LawfulStorage.votedFor_setCurrentTerm s term) (image_setCurrentTerm s term) rfl

@[simp] theorem inMemory_setVotedFor (s : S) (vote : Option NodeId) :
    inMemory (Storage.setVotedFor s vote) = Storage.setVotedFor (inMemory s) vote :=
  inMemory_ext (LawfulStorage.currentTerm_setVotedFor s vote)
    (LawfulStorage.votedFor_setVotedFor s vote) (image_setVotedFor s vote) rfl

/-- Nothing is dropped where the result is no longer than a collection. -/
theorem inMemory_appendEntries [DeviceStorage S P] {es : List (LogEntry P)}
    (hheld : (image s).log.items.length + es.length ≤ EmbassyStorage.collectionCapacity) :
    inMemory (Storage.appendEntries s es) = Storage.appendEntries (inMemory s) es := by
  obtain ⟨hterm, hvote⟩ := LawfulStorage.cells_appendEntries s es
  have hroom : ∀ cap ∈ capacity S, (image s).log.items.length + es.length ≤ cap :=
    fun cap hcap => hheld.trans (Nat.le_of_lt (DeviceStorage.capacity cap hcap))
  refine inMemory_ext hterm hvote ?_ rfl
  rw [image_appendEntries, LogImage.append, fitting_eq_self hroom]
  rfl

@[simp] theorem inMemory_truncateAfter (s : S) (i : Nat) :
    inMemory (Storage.truncateAfter s i) = Storage.truncateAfter (inMemory s) i := by
  obtain ⟨hterm, hvote⟩ := LawfulStorage.cells_truncateAfter s i
  obtain ⟨hterm', hvote'⟩ := LawfulStorage.cells_truncateAfter (inMemory s) i
  refine inMemory_ext (hterm.trans hterm'.symm) (hvote.trans hvote'.symm) ?_ ?_
  · rw [image_truncateAfter]
    exact (image_truncateAfter (inMemory s) i).symm
  · show ((inMemory s).truncateAfter i).pendingSnapshotData = []
    rw [InMemoryStorage.truncateAfter_eq]
    rfl

@[simp] theorem inMemory_saveSnapshot (s : S) (x : Snapshot) :
    inMemory (Storage.saveSnapshot s x) = Storage.saveSnapshot (inMemory s) x := by
  obtain ⟨hterm, hvote⟩ := LawfulStorage.cells_saveSnapshot s x
  exact inMemory_ext hterm hvote (image_saveSnapshot s x) rfl

@[simp] theorem inMemory_discardEntriesBefore (s : S) (i : Nat) :
    inMemory (Storage.discardEntriesBefore s i) = Storage.discardEntriesBefore (inMemory s) i := by
  obtain ⟨hterm, hvote⟩ := LawfulStorage.cells_discardEntriesBefore s i
  obtain ⟨hterm', hvote'⟩ := LawfulStorage.cells_discardEntriesBefore (inMemory s) i
  refine inMemory_ext (hterm.trans hterm'.symm) (hvote.trans hvote'.symm) ?_ ?_
  · rw [image_discardEntriesBefore]
    exact (image_discardEntriesBefore (inMemory s) i).symm
  · show ((inMemory s).discardEntriesBefore i).pendingSnapshotData = []
    rw [InMemoryStorage.discardEntriesBefore_eq]
    rfl

omit [LawfulStorage S P] in
/-- Where an append ends below the capacity, it has dropped nothing. -/
theorem held_of_appended [DeviceStorage S P] {es : List (LogEntry P)}
    (hheld : (image (Storage.appendEntries s es)).log.items.length ≤
      EmbassyStorage.collectionCapacity) :
    (image s).log.items.length + es.length ≤ EmbassyStorage.collectionCapacity := by
  rw [image_appendEntries] at hheld
  unfold LogImage.append Window.append at hheld
  rw [List.length_append] at hheld
  have hall : fitting (capacity S) (image s).log.items.length es = es :=
    fitting_eq_self fun cap hcap => by
      have hlt := DeviceStorage.capacity cap hcap
      rw [Option.mem_def] at hcap
      rw [hcap] at hheld
      unfold fitting at hheld
      rw [List.length_take] at hheld
      omega
  rw [hall] at hheld
  exact hheld

/-- What an accepted request does to the log. -/
theorem inMemory_placeEntries [DeviceStorage S P] {prev : Nat} {es : List (LogEntry P)}
    (h : Formed s)
    (hheld : (image (LogReplicationManager.placeEntries prev es s)).log.items.length ≤
      EmbassyStorage.collectionCapacity) :
    inMemory (LogReplicationManager.placeEntries prev es s) =
      LogReplicationManager.placeEntries prev es (inMemory s) := by
  unfold LogReplicationManager.placeEntries at hheld ⊢
  dsimp only at hheld ⊢
  rw [inMemory_lastLogIndex h]
  split
  · rfl
  · rename_i hne
    rw [if_neg hne] at hheld
    rw [inMemory_appendEntries (held_of_appended hheld), apply_ite inMemory,
      inMemory_truncateAfter]

/-- A snapshot that comes in one chunk. -/
theorem inMemory_wholeSnapshot [DeviceStorage S P] {data : List UInt8} (index term : Nat)
    (hdata : data.length ≤ EmbassyStorage.snapshotCapacity) :
    (Storage.applySnapshotChunk s 0 data true index term).2 =
        (Storage.applySnapshotChunk (inMemory s) 0 data true index term).2 ∧
      inMemory (Storage.applySnapshotChunk s 0 data true index term).1 =
        (Storage.applySnapshotChunk (inMemory s) 0 data true index term).1 := by
  obtain ⟨hok, himage⟩ := image_wholeSnapshot s data index term fun cap hcap =>
    hdata.trans (DeviceStorage.snapshotCapacity cap hcap)
  obtain ⟨hterm, hvote⟩ := LawfulStorage.cells_applySnapshotChunk s 0 data true index term
  exact ⟨hok, inMemory_ext hterm hvote himage rfl⟩

end

end

end LogStorage

end MetalRaft
