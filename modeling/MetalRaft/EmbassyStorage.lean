import MetalRaft.Collections
import MetalRaft.Storage

/-!
# The storage of the embassy realization

`InMemoryStorage` of `embassy`, over `heapless` vectors: what does not fit is dropped without a
word.  Its log holds 256 entries, a collection of entries 128, and snapshot data 512 bytes.

Differences of indices are cast to the 32-bit `usize` of the device in the source, which cuts off
those from 2^32 on; here they are left as they are.

* `EmbassyStorage` — the storage; a snapshot comes in one chunk or not at all.
* `RetainsEntries` — which entries an operation leaves where they are, whatever the storage.
-/

set_option autoImplicit false

namespace MetalRaft

variable {P : Type}

structure EmbassyStorage (P : Type) where
  currentTerm : Nat
  votedFor : Option NodeId
  log : List (LogEntry P)
  snapshot : Option Snapshot
  firstLogIndex : Nat

namespace EmbassyStorage

def logCapacity : Nat := 256

/-- The capacity of `EmbassyLogEntryCollection`. -/
def collectionCapacity : Nat := 128

def snapshotCapacity : Nat := 512

def new : EmbassyStorage P := ⟨0, none, [], none, 1⟩

def setCurrentTerm (s : EmbassyStorage P) (term : Nat) : EmbassyStorage P :=
  { s with currentTerm := term }

def setVotedFor (s : EmbassyStorage P) (vote : Option NodeId) : EmbassyStorage P :=
  { s with votedFor := vote }

def snapshotMetadata (s : EmbassyStorage P) : Option SnapshotMetadata :=
  s.snapshot.map (·.metadata)

def lastLogIndex (s : EmbassyStorage P) : Nat :=
  if s.log.isEmpty then
    match s.snapshot with
    | some snapshot => snapshot.metadata.lastIncludedIndex
    | none => 0
  else s.firstLogIndex + s.log.length - 1

def lastLogTerm (s : EmbassyStorage P) : Nat :=
  match s.log.getLast? with
  | some lastEntry => lastEntry.term
  | none =>
    match s.snapshot with
    | some snapshot => snapshot.metadata.lastIncludedTerm
    | none => 0

def getEntry (s : EmbassyStorage P) (index : Nat) : Option (LogEntry P) :=
  if index < s.firstLogIndex then none else s.log[index - s.firstLogIndex]?

def getEntries (s : EmbassyStorage P) (start stop : Nat) : List (LogEntry P) :=
  if start ≥ stop ∨ start < s.firstLogIndex then []
  else
    let startOffset := start - s.firstLogIndex
    let endOffset := stop - s.firstLogIndex
    if startOffset ≥ s.log.length then []
    else
      let actualEndOffset := min endOffset s.log.length
      ((s.log.take actualEndOffset).drop startOffset).foldl
        (pushWithin (some collectionCapacity)) []

def appendEntries (s : EmbassyStorage P) (entries : List (LogEntry P)) : EmbassyStorage P :=
  { s with log := entries.foldl (pushWithin (some logCapacity)) s.log }

def truncateAfter (s : EmbassyStorage P) (index : Nat) : EmbassyStorage P :=
  if index < s.firstLogIndex then { s with log := [] }
  else { s with log := s.log.take (index - s.firstLogIndex + 1) }

def saveSnapshot (s : EmbassyStorage P) (snapshot : Snapshot) : EmbassyStorage P :=
  { s with snapshot := some snapshot }

def getSnapshotChunk (s : EmbassyStorage P) (offset maxSize : Nat) : Option SnapshotChunk :=
  match s.snapshot with
  | none => none
  | some snapshot =>
    match chunkAt snapshot.data offset maxSize with
    | none => none
    | some chunkData =>
      some ⟨offset, chunkData, decide (offset + chunkData.length ≥ snapshot.data.length)⟩

def applySnapshotChunk (s : EmbassyStorage P) (offset : Nat) (chunk : List UInt8) (done : Bool)
    (lastIncludedIndex : Nat) (lastIncludedTerm : Nat) :
    EmbassyStorage P × Except SnapshotError Unit :=
  if offset = 0 ∧ done then
    if chunk.length > snapshotCapacity then (s, .error .corruptData)
    else (s.saveSnapshot ⟨⟨lastIncludedIndex, lastIncludedTerm⟩, chunk⟩, .ok ())
  else (s, .error .corruptData)

def discardEntriesBefore (s : EmbassyStorage P) (index : Nat) : EmbassyStorage P :=
  if index ≤ s.firstLogIndex then s
  else
    let numToDiscard := index - s.firstLogIndex
    if numToDiscard ≥ s.log.length then { s with log := [], firstLogIndex := index }
    else { s with log := s.log.drop numToDiscard, firstLogIndex := index }

instance : Storage (EmbassyStorage P) P where
  currentTerm := currentTerm
  setCurrentTerm := setCurrentTerm
  votedFor := votedFor
  setVotedFor := setVotedFor
  lastLogIndex := lastLogIndex
  lastLogTerm := lastLogTerm
  getEntry := getEntry
  getEntries := getEntries
  appendEntries := appendEntries
  truncateAfter := truncateAfter
  saveSnapshot := saveSnapshot
  loadSnapshot := snapshot
  snapshotMetadata := snapshotMetadata
  getSnapshotChunk := getSnapshotChunk
  applySnapshotChunk := applySnapshotChunk
  discardEntriesBefore := discardEntriesBefore
  firstLogIndex := firstLogIndex

end EmbassyStorage

/-! ## Entries that stay -/

/-- Appending leaves the entries there are; a discard leaves those from its index on; the other
operations leave them all.  Term and vote play no part in snapshots. -/
class RetainsEntries (S : Type) (P : outParam Type) [Storage S P] : Prop where
  setCurrentTerm : ∀ (s : S) t i,
    Storage.getEntry (Storage.setCurrentTerm s t) i = Storage.getEntry s i
  setVotedFor : ∀ (s : S) v i,
    Storage.getEntry (Storage.setVotedFor s v) i = Storage.getEntry s i
  appendEntries : ∀ (s : S) es i e, Storage.getEntry s i = some e →
    Storage.getEntry (Storage.appendEntries s es) i = some e
  saveSnapshot : ∀ (s : S) x i,
    Storage.getEntry (Storage.saveSnapshot s x) i = Storage.getEntry s i
  applySnapshotChunk : ∀ (s : S) o c d n t i,
    Storage.getEntry (Storage.applySnapshotChunk s o c d n t).1 i = Storage.getEntry s i
  discardEntriesBefore : ∀ (s : S) k i, k ≤ i →
    Storage.getEntry (Storage.discardEntriesBefore s k) i = Storage.getEntry s i
  snapshotMetadata_cells : ∀ (s : S) t v,
    Storage.snapshotMetadata (Storage.setVotedFor (Storage.setCurrentTerm s t) v) =
      Storage.snapshotMetadata s
  applySnapshotChunk_cells : ∀ (s : S) t v o c d n k,
    (Storage.applySnapshotChunk (Storage.setVotedFor (Storage.setCurrentTerm s t) v) o c d n k).2 =
      (Storage.applySnapshotChunk s o c d n k).2

/-- Cutting `k - first` entries off the front of a log that begins at `first`. -/
theorem getElem?_cut {α : Type} (log : List α) {first k i : Nat} (hfirst : first < k)
    (hi : k ≤ i) : (log.drop (k - first))[i - k]? = log[i - first]? := by
  rw [List.getElem?_drop]
  congr 1
  omega

theorem getElem?_append_of_some {α : Type} {log es : List α} {i : Nat} {x : α}
    (h : log[i]? = some x) : (log ++ es)[i]? = some x := by
  obtain ⟨hlt, _⟩ := List.getElem?_eq_some_iff.mp h
  rw [List.getElem?_append_left hlt]
  exact h

theorem getElem?_foldl_pushWithin {α : Type} {cap : Option Nat} {i : Nat} {x : α} (es : List α) :
    ∀ {log : List α}, log[i]? = some x → (es.foldl (pushWithin cap) log)[i]? = some x := by
  induction es with
  | nil => exact fun h => h
  | cons e es ih =>
    intro log h
    rw [List.foldl_cons]
    apply ih
    unfold pushWithin
    split
    · exact getElem?_append_of_some h
    · split
      · exact getElem?_append_of_some h
      · exact h

namespace InMemoryStorage

theorem getEntry_appendEntries {s : InMemoryStorage P} {es : List (LogEntry P)} {i : Nat}
    {e : LogEntry P} (h : s.getEntry i = some e) : (s.appendEntries es).getEntry i = some e := by
  unfold getEntry appendEntries at *
  split at h
  · cases h
  · rename_i hge
    rw [if_neg hge]
    exact getElem?_append_of_some h

theorem getEntry_discardEntriesBefore {s : InMemoryStorage P} {k i : Nat} (h : k ≤ i) :
    (s.discardEntriesBefore k).getEntry i = s.getEntry i := by
  unfold discardEntriesBefore
  by_cases hle : k ≤ s.firstIndex
  · rw [if_pos hle]
  · have hfirst := Nat.not_le.mp hle
    have hcut := getElem?_cut s.log hfirst h
    rw [if_neg hle]
    unfold getEntry
    rw [if_neg (by omega : ¬ i < s.firstIndex), ← hcut]
    dsimp only
    split
    · rename_i hall
      rw [List.drop_eq_nil_of_le hall]
      exact if_neg (Nat.not_lt.mpr h)
    · exact if_neg (Nat.not_lt.mpr h)

theorem getEntry_applySnapshotChunk (s : InMemoryStorage P) (o : Nat) (c : List UInt8) (d : Bool)
    (n t i : Nat) : (s.applySnapshotChunk o c d n t).1.getEntry i = s.getEntry i := by
  unfold applySnapshotChunk
  dsimp only
  split <;> split <;> first | rfl | (cases d <;> rfl)

theorem applySnapshotChunk_cells (s : InMemoryStorage P) (t : Nat) (v : Option NodeId) (o : Nat)
    (c : List UInt8) (d : Bool) (n k : Nat) :
    (((s.setCurrentTerm t).setVotedFor v).applySnapshotChunk o c d n k).2 =
      (s.applySnapshotChunk o c d n k).2 := by
  unfold applySnapshotChunk setCurrentTerm setVotedFor
  dsimp only
  split <;> split <;> first | rfl | (cases d <;> rfl)

instance : RetainsEntries (InMemoryStorage P) P where
  setCurrentTerm _ _ _ := rfl
  setVotedFor _ _ _ := rfl
  appendEntries _ _ _ _ := getEntry_appendEntries
  saveSnapshot _ _ _ := rfl
  applySnapshotChunk := getEntry_applySnapshotChunk
  discardEntriesBefore _ _ _ := getEntry_discardEntriesBefore
  snapshotMetadata_cells _ _ _ := rfl
  applySnapshotChunk_cells := applySnapshotChunk_cells

end InMemoryStorage

namespace EmbassyStorage

theorem getEntry_appendEntries {s : EmbassyStorage P} {es : List (LogEntry P)} {i : Nat}
    {e : LogEntry P} (h : s.getEntry i = some e) : (s.appendEntries es).getEntry i = some e := by
  unfold getEntry appendEntries at *
  split at h
  · cases h
  · rename_i hge
    rw [if_neg hge]
    exact getElem?_foldl_pushWithin es h

theorem getEntry_discardEntriesBefore {s : EmbassyStorage P} {k i : Nat} (h : k ≤ i) :
    (s.discardEntriesBefore k).getEntry i = s.getEntry i := by
  unfold discardEntriesBefore
  by_cases hle : k ≤ s.firstLogIndex
  · rw [if_pos hle]
  · have hfirst := Nat.not_le.mp hle
    have hcut := getElem?_cut s.log hfirst h
    rw [if_neg hle]
    unfold getEntry
    rw [if_neg (by omega : ¬ i < s.firstLogIndex), ← hcut]
    dsimp only
    split
    · rename_i hall
      rw [List.drop_eq_nil_of_le hall]
      exact if_neg (Nat.not_lt.mpr h)
    · exact if_neg (Nat.not_lt.mpr h)

theorem getEntry_applySnapshotChunk (s : EmbassyStorage P) (o : Nat) (c : List UInt8) (d : Bool)
    (n t i : Nat) : (s.applySnapshotChunk o c d n t).1.getEntry i = s.getEntry i := by
  unfold applySnapshotChunk
  split
  · split <;> rfl
  · rfl

theorem applySnapshotChunk_cells (s : EmbassyStorage P) (t : Nat) (v : Option NodeId) (o : Nat)
    (c : List UInt8) (d : Bool) (n k : Nat) :
    (((s.setCurrentTerm t).setVotedFor v).applySnapshotChunk o c d n k).2 =
      (s.applySnapshotChunk o c d n k).2 := by
  unfold applySnapshotChunk
  split
  · split <;> rfl
  · rfl

instance : RetainsEntries (EmbassyStorage P) P where
  setCurrentTerm _ _ _ := rfl
  setVotedFor _ _ _ := rfl
  appendEntries _ _ _ _ := getEntry_appendEntries
  saveSnapshot _ _ _ := rfl
  applySnapshotChunk := getEntry_applySnapshotChunk
  discardEntriesBefore _ _ _ := getEntry_discardEntriesBefore
  snapshotMetadata_cells _ _ _ := rfl
  applySnapshotChunk_cells := applySnapshotChunk_cells

end EmbassyStorage

end MetalRaft
