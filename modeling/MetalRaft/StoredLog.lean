import MetalRaft.EmbassyStorage
import MetalRaft.Managers
import MetalRaft.Window

/-!
# What a storage keeps of the log

* `LogImage` — the log and the snapshot of a storage, with the operations on them as they are
  meant; `LogImage.Formed` says that the log begins where the snapshot ends.
* `LogStorage` — a storage shows such an image, and its operations do to the image what they are
  meant to do; a log of limited capacity drops what does not fit.
* Instances for the in-memory storages of `test-utils` and of `embassy`.
-/

set_option autoImplicit false

namespace MetalRaft

variable {P : Type}

/-- What of the entries `xs` fits a vector of that capacity which holds `held` already. -/
def fitting {α : Type} (cap : Option Nat) (held : Nat) (xs : List α) : List α :=
  match cap with
  | none => xs
  | some n => xs.take (n - held)

theorem foldl_pushWithin_eq {α : Type} (cap : Option Nat) :
    ∀ ys xs : List α, ys.foldl (pushWithin cap) xs = xs ++ fitting cap xs.length ys
  | [], xs => by cases cap <;> simp [fitting]
  | y :: ys, xs => by
    rw [List.foldl_cons, foldl_pushWithin_eq cap ys]
    cases cap with
    | none => simp [fitting]
    | some n =>
      simp only [pushWithin, fitting]
      by_cases h : xs.length < n
      · obtain ⟨m, hm⟩ : ∃ m, n - xs.length = m + 1 := ⟨n - xs.length - 1, by omega⟩
        rw [if_pos h, List.length_append, List.length_singleton, ← Nat.sub_sub, hm,
          List.take_succ_cons, Nat.add_sub_cancel, List.append_assoc, List.singleton_append]
      · rw [if_neg h, Nat.sub_eq_zero_of_le (Nat.not_lt.mp h), List.take_zero, List.take_zero]

theorem fitting_eq_self {α : Type} {cap : Option Nat} {held : Nat} {xs : List α}
    (h : ∀ n ∈ cap, held + xs.length ≤ n) : fitting cap held xs = xs := by
  unfold fitting
  split
  · rfl
  · exact List.take_of_length_le (by have := h _ rfl; omega)

/-- Where nothing is dropped, everything fits. -/
theorem fitting_length {α : Type} (cap : Option Nat) (held : Nat) (xs : List α)
    (h : (fitting cap held xs).length = xs.length) (hxs : xs ≠ []) :
    ∀ n ∈ cap, held + xs.length ≤ n := by
  intro n hn
  cases hn
  have hpos := List.length_pos_of_ne_nil hxs
  simp only [fitting, List.length_take] at h
  omega

/-- The log and the snapshot of a storage. -/
structure LogImage (P : Type) where
  log : Window (LogEntry P)
  snapshot : Option Snapshot

namespace LogImage

/-- The last index that the snapshot covers. -/
def snapIndex (v : LogImage P) : Nat := (v.snapshot.map (·.metadata.lastIncludedIndex)).getD 0

/-- The log begins where the snapshot ends. -/
def Formed (v : LogImage P) : Prop := v.log.first = v.snapIndex + 1

def lastLogIndex (v : LogImage P) : Nat := v.log.stop - 1

def lastLogTerm (v : LogImage P) : Nat :=
  match v.log.items.getLast? with
  | some lastEntry => lastEntry.term
  | none => (v.snapshot.map (·.metadata.lastIncludedTerm)).getD 0

def append (cap : Option Nat) (v : LogImage P) (entries : List (LogEntry P)) : LogImage P :=
  { v with log := v.log.append (fitting cap v.log.items.length entries) }

/-- The snapshot is replaced by `x`, and the log begins behind it. -/
def compactTo (v : LogImage P) (x : Snapshot) : LogImage P :=
  ⟨v.log.discardBefore (x.metadata.lastIncludedIndex + 1), some x⟩

end LogImage

/-- A storage shows its log and snapshot, and does to them what its operations are meant to do. -/
class LogStorage (S : Type) (P : outParam Type) [Storage S P] where
  /-- How many entries the log can hold. -/
  capacity : Option Nat
  /-- How many entries can be read at once. -/
  collectionCapacity : Option Nat
  /-- How many bytes of snapshot data there is room for. -/
  snapshotCapacity : Option Nat
  /-- What is read or sent at once fits the log. -/
  collection_le_capacity : ∀ cap ∈ capacity, ∃ k ∈ collectionCapacity, k ≤ cap
  image : S → LogImage P
  image_setCurrentTerm : ∀ s t, image (Storage.setCurrentTerm s t) = image s
  image_setVotedFor : ∀ s v, image (Storage.setVotedFor s v) = image s
  image_appendEntries : ∀ s es,
    image (Storage.appendEntries s es) = (image s).append capacity es
  image_truncateAfter : ∀ s i,
    image (Storage.truncateAfter s i) = { image s with log := (image s).log.truncateAfter i }
  image_saveSnapshot : ∀ s x,
    image (Storage.saveSnapshot s x) = { image s with snapshot := some x }
  image_discardEntriesBefore : ∀ s i,
    image (Storage.discardEntriesBefore s i) =
      { image s with log := (image s).log.discardBefore i }
  /-- A successful last chunk brings a new snapshot, and nothing else does. -/
  image_applySnapshotChunk : ∀ s o c d n t,
    (d = true ∧ (Storage.applySnapshotChunk s o c d n t).2 = .ok () ∧
      ∃ data, image (Storage.applySnapshotChunk s o c d n t).1 =
        { image s with snapshot := some ⟨⟨n, t⟩, data⟩ }) ∨
    (d = false ∨ ∃ e, (Storage.applySnapshotChunk s o c d n t).2 = .error e) ∧
      image (Storage.applySnapshotChunk s o c d n t).1 = image s
  /-- A snapshot that comes in one chunk and fits is taken as it is. -/
  image_wholeSnapshot : ∀ s c n t, (∀ cap ∈ snapshotCapacity, c.length ≤ cap) →
    (Storage.applySnapshotChunk s 0 c true n t).2 = .ok () ∧
      image (Storage.applySnapshotChunk s 0 c true n t).1 =
        { image s with snapshot := some ⟨⟨n, t⟩, c⟩ }
  firstLogIndex_eq : ∀ s, Storage.firstLogIndex s = (image s).log.first
  loadSnapshot_eq : ∀ s, Storage.loadSnapshot s = (image s).snapshot
  snapshotMetadata_eq : ∀ s, Storage.snapshotMetadata s = (image s).snapshot.map (·.metadata)
  getEntry_eq : ∀ s i, Storage.getEntry s i = (image s).log.get? i
  lastLogIndex_eq : ∀ s, (image s).Formed → Storage.lastLogIndex s = (image s).lastLogIndex
  lastLogTerm_eq : ∀ s, Storage.lastLogTerm s = (image s).lastLogTerm
  getEntries_eq : ∀ s start,
    Storage.getEntries s start (image s).log.stop =
      fitting collectionCapacity 0 ((image s).log.itemsFrom start)

/-! ## The in-memory storages -/

namespace InMemoryStorage

def image (s : InMemoryStorage P) : LogImage P := ⟨⟨s.firstIndex, s.log⟩, s.snapshot⟩

theorem image_truncateAfter (s : InMemoryStorage P) (i : Nat) :
    (s.truncateAfter i).image = { s.image with log := s.image.log.truncateAfter i } := by
  rw [Window.truncateAfter_eq]
  unfold truncateAfter image
  split <;> rfl

theorem image_discardEntriesBefore (s : InMemoryStorage P) (i : Nat) :
    (s.discardEntriesBefore i).image = { s.image with log := s.image.log.discardBefore i } := by
  rw [Window.discardBefore_eq]
  unfold discardEntriesBefore image
  split
  · rfl
  · dsimp only
    split <;> rfl

theorem image_applySnapshotChunk (s : InMemoryStorage P) (o : Nat) (c : List UInt8) (d : Bool)
    (n t : Nat) :
    (d = true ∧ (s.applySnapshotChunk o c d n t).2 = .ok () ∧
      ∃ data, (s.applySnapshotChunk o c d n t).1.image =
        { s.image with snapshot := some ⟨⟨n, t⟩, data⟩ }) ∨
    (d = false ∨ ∃ e, (s.applySnapshotChunk o c d n t).2 = .error e) ∧
      (s.applySnapshotChunk o c d n t).1.image = s.image := by
  unfold applySnapshotChunk
  dsimp only
  split <;> split
  all_goals first
    | exact Or.inr ⟨Or.inr ⟨_, rfl⟩, rfl⟩
    | (cases d
       · exact Or.inr ⟨Or.inl rfl, rfl⟩
       · exact Or.inl ⟨rfl, rfl, _, rfl⟩)

theorem getEntries_stop (s : InMemoryStorage P) (start : Nat) :
    s.getEntries start (s.firstIndex + s.log.length) = s.image.log.itemsFrom start := by
  unfold getEntries Window.itemsFrom image
  dsimp only
  by_cases hfirst : start < s.firstIndex
  · rw [if_pos (Or.inl hfirst), if_pos hfirst]
  · rw [if_neg hfirst, Nat.add_sub_cancel_left]
    split
    · rw [List.drop_eq_nil_of_le (by omega)]
    · rw [if_pos (Nat.le_refl _), List.take_length]

instance : LogStorage (InMemoryStorage P) P where
  capacity := none
  collectionCapacity := none
  snapshotCapacity := none
  collection_le_capacity _ h := (by cases h)
  image := image
  image_setCurrentTerm _ _ := rfl
  image_setVotedFor _ _ := rfl
  image_appendEntries _ _ := rfl
  image_truncateAfter := image_truncateAfter
  image_saveSnapshot _ _ := rfl
  image_discardEntriesBefore := image_discardEntriesBefore
  image_applySnapshotChunk := image_applySnapshotChunk
  firstLogIndex_eq _ := rfl
  loadSnapshot_eq _ := rfl
  snapshotMetadata_eq _ := rfl
  getEntry_eq _ _ := rfl
  lastLogIndex_eq s _ := by
    show s.lastLogIndex = s.firstIndex + s.log.length - 1
    unfold lastLogIndex
    cases s.log <;> rfl
  lastLogTerm_eq s := by
    show s.lastLogTerm = s.image.lastLogTerm
    unfold lastLogTerm LogImage.lastLogTerm image
    cases s.log.getLast? with
    | some e => rfl
    | none => cases s.snapshot <;> rfl
  getEntries_eq := getEntries_stop
  image_wholeSnapshot _ _ _ _ _ := ⟨rfl, rfl⟩

end InMemoryStorage

namespace EmbassyStorage

def image (s : EmbassyStorage P) : LogImage P := ⟨⟨s.firstLogIndex, s.log⟩, s.snapshot⟩

theorem image_appendEntries (s : EmbassyStorage P) (es : List (LogEntry P)) :
    (s.appendEntries es).image = s.image.append (some logCapacity) es := by
  unfold appendEntries image LogImage.append Window.append
  dsimp only
  rw [foldl_pushWithin_eq]

theorem image_truncateAfter (s : EmbassyStorage P) (i : Nat) :
    (s.truncateAfter i).image = { s.image with log := s.image.log.truncateAfter i } := by
  rw [Window.truncateAfter_eq]
  unfold truncateAfter image
  split <;> rfl

theorem image_discardEntriesBefore (s : EmbassyStorage P) (i : Nat) :
    (s.discardEntriesBefore i).image = { s.image with log := s.image.log.discardBefore i } := by
  rw [Window.discardBefore_eq]
  unfold discardEntriesBefore image
  split
  · rfl
  · dsimp only
    split <;> rfl

theorem image_applySnapshotChunk (s : EmbassyStorage P) (o : Nat) (c : List UInt8) (d : Bool)
    (n t : Nat) :
    (d = true ∧ (s.applySnapshotChunk o c d n t).2 = .ok () ∧
      ∃ data, (s.applySnapshotChunk o c d n t).1.image =
        { s.image with snapshot := some ⟨⟨n, t⟩, data⟩ }) ∨
    (d = false ∨ ∃ e, (s.applySnapshotChunk o c d n t).2 = .error e) ∧
      (s.applySnapshotChunk o c d n t).1.image = s.image := by
  unfold applySnapshotChunk
  split
  · rename_i h
    split
    · exact Or.inr ⟨Or.inr ⟨_, rfl⟩, rfl⟩
    · exact Or.inl ⟨h.2, rfl, c, rfl⟩
  · exact Or.inr ⟨Or.inr ⟨_, rfl⟩, rfl⟩

theorem getEntries_stop (s : EmbassyStorage P) (start : Nat) :
    s.getEntries start (s.firstLogIndex + s.log.length) =
      fitting (some collectionCapacity) 0 (s.image.log.itemsFrom start) := by
  unfold getEntries Window.itemsFrom image
  dsimp only
  by_cases hfirst : start < s.firstLogIndex
  · rw [if_pos (Or.inr hfirst), if_pos hfirst]
    rfl
  · rw [if_neg hfirst, Nat.add_sub_cancel_left, Nat.min_self, List.take_length,
      foldl_pushWithin_eq]
    split
    · rw [List.drop_eq_nil_of_le (by omega)]
      rfl
    · split
      · rw [List.drop_eq_nil_of_le (by omega)]
        rfl
      · rfl

instance : LogStorage (EmbassyStorage P) P where
  capacity := some logCapacity
  collectionCapacity := some collectionCapacity
  snapshotCapacity := some snapshotCapacity
  collection_le_capacity _ h := ⟨_, rfl, by cases h; decide⟩
  image := image
  image_setCurrentTerm _ _ := rfl
  image_setVotedFor _ _ := rfl
  image_appendEntries := image_appendEntries
  image_truncateAfter := image_truncateAfter
  image_saveSnapshot _ _ := rfl
  image_discardEntriesBefore := image_discardEntriesBefore
  image_applySnapshotChunk := image_applySnapshotChunk
  firstLogIndex_eq _ := rfl
  loadSnapshot_eq _ := rfl
  snapshotMetadata_eq _ := rfl
  getEntry_eq _ _ := rfl
  lastLogIndex_eq s h := by
    have hfirst : s.firstLogIndex = s.image.snapIndex + 1 := h
    show s.lastLogIndex = s.firstLogIndex + s.log.length - 1
    unfold lastLogIndex
    cases s.log with
    | nil =>
      rw [hfirst]
      unfold LogImage.snapIndex image
      cases s.snapshot <;> rfl
    | cons e es => rfl
  lastLogTerm_eq s := by
    show s.lastLogTerm = s.image.lastLogTerm
    unfold lastLogTerm LogImage.lastLogTerm image
    cases s.log.getLast? with
    | some e => rfl
    | none => cases s.snapshot <;> rfl
  getEntries_eq := getEntries_stop
  image_wholeSnapshot s c n t h := by
    have hfits : ¬ c.length > EmbassyStorage.snapshotCapacity := Nat.not_lt.mpr (h _ rfl)
    show (s.applySnapshotChunk 0 c true n t).2 = .ok () ∧
      (s.applySnapshotChunk 0 c true n t).1.image = _
    unfold applySnapshotChunk
    rw [if_pos ⟨rfl, rfl⟩, if_neg hfits]
    exact ⟨rfl, rfl⟩

instance : LawfulStorage (EmbassyStorage P) P where
  currentTerm_setCurrentTerm _ _ := rfl
  votedFor_setCurrentTerm _ _ := rfl
  currentTerm_setVotedFor _ _ := rfl
  votedFor_setVotedFor _ _ := rfl
  cells_appendEntries _ _ := ⟨rfl, rfl⟩
  cells_truncateAfter s i := by
    show (s.truncateAfter i).currentTerm = _ ∧ (s.truncateAfter i).votedFor = _
    unfold truncateAfter
    split <;> exact ⟨rfl, rfl⟩
  cells_saveSnapshot _ _ := ⟨rfl, rfl⟩
  cells_applySnapshotChunk s o c d n t := by
    show (s.applySnapshotChunk o c d n t).1.currentTerm = _ ∧
      (s.applySnapshotChunk o c d n t).1.votedFor = _
    unfold applySnapshotChunk
    split
    · split <;> exact ⟨rfl, rfl⟩
    · exact ⟨rfl, rfl⟩
  cells_discardEntriesBefore s i := by
    show (s.discardEntriesBefore i).currentTerm = _ ∧ (s.discardEntriesBefore i).votedFor = _
    unfold discardEntriesBefore
    split
    · exact ⟨rfl, rfl⟩
    · dsimp only
      split <;> exact ⟨rfl, rfl⟩

end EmbassyStorage

/-! ## Storages whose log begins where their snapshot ends -/

namespace LogImage

variable {v : LogImage P} {x : Snapshot} {cap : Option Nat} {es : List (LogEntry P)}

theorem Formed.lastLogIndex_lt (h : v.Formed) : v.lastLogIndex + 1 = v.log.stop := by
  have := v.log.first_le_stop
  unfold Formed at h
  unfold lastLogIndex
  omega

theorem Formed.snapIndex_le (h : v.Formed) : v.snapIndex ≤ v.lastLogIndex := by
  have := v.log.first_le_stop
  have := h.lastLogIndex_lt
  unfold Formed at h
  omega

theorem Formed.compactTo (h : v.Formed) (hx : v.snapIndex ≤ x.metadata.lastIncludedIndex) :
    (v.compactTo x).Formed := by
  unfold Formed at h ⊢
  show max v.log.first (x.metadata.lastIncludedIndex + 1) = x.metadata.lastIncludedIndex + 1
  omega

end LogImage

namespace LogStorage

open LogReplicationManager

variable {S SM : Type} [Storage S P] [LogStorage S P] {s : S} {prev pt i : Nat}
  {es : List (LogEntry P)} {e : LogEntry P}

/-- The last index that the snapshot of a storage covers. -/
def snapIndex (s : S) : Nat := (image s).snapIndex

def Formed (s : S) : Prop := (image s).Formed

theorem firstLogIndex_of_formed (h : Formed s) : Storage.firstLogIndex s = snapIndex s + 1 := by
  rw [firstLogIndex_eq]
  exact h

theorem lastLogIndex_add_one (h : Formed s) :
    Storage.lastLogIndex s + 1 = (image s).log.stop := by
  rw [lastLogIndex_eq s h]
  exact LogImage.Formed.lastLogIndex_lt h

theorem snapIndex_le_lastLogIndex (h : Formed s) : snapIndex s ≤ Storage.lastLogIndex s := by
  rw [lastLogIndex_eq s h]
  exact LogImage.Formed.snapIndex_le h

theorem bounds_of_getEntry (h : Formed s) (he : Storage.getEntry s i = some e) :
    snapIndex s < i ∧ i ≤ Storage.lastLogIndex s := by
  rw [getEntry_eq] at he
  have hb := Window.bounds_of_get? he
  have hlast := lastLogIndex_add_one h
  have hfirst : (image s).log.first = snapIndex s + 1 := h
  omega

theorem exists_getEntry (h : Formed s) (hi : snapIndex s < i)
    (hle : i ≤ Storage.lastLogIndex s) : ∃ e, Storage.getEntry s i = some e := by
  have hlast := lastLogIndex_add_one h
  have hfirst : (image s).log.first = snapIndex s + 1 := h
  simp only [getEntry_eq]
  exact Window.exists_get? (by omega) (by omega)

theorem held_eq (h : Formed s) :
    Storage.lastLogIndex s + 1 - Storage.firstLogIndex s =
      (image s).log.items.length := by
  rw [lastLogIndex_add_one h, firstLogIndex_eq]
  exact Nat.add_sub_cancel_left _ _

theorem formed_of_image {s' : S} (h : Formed s) (heq : image s' = image s) : Formed s' := by
  unfold Formed
  rwa [heq]

theorem image_cells (s : S) (t : Nat) (v : Option NodeId) :
    image (Storage.setVotedFor (Storage.setCurrentTerm s t) v) = image s := by
  rw [image_setVotedFor, image_setCurrentTerm]

/-! ### Appended entries -/

/-- A consistent request refers to the beginning, to an entry there is, or to the snapshot. -/
theorem prev_cases (h : Formed s) (hc : checkLogConsistency prev pt s = true) :
    prev = 0 ∨ snapIndex s ≤ prev ∧ prev ≤ Storage.lastLogIndex s := by
  unfold checkLogConsistency at hc
  split at hc
  · exact Or.inl ‹_›
  · refine Or.inr ?_
    split at hc
    · rename_i e he
      have := bounds_of_getEntry h he
      omega
    · split at hc
      · rename_i m hm
        rw [snapshotMetadata_eq] at hm
        have hsnap : snapIndex s = m.lastIncludedIndex := by
          obtain ⟨x, hx, hxm⟩ := Option.map_eq_some_iff.mp hm
          unfold snapIndex LogImage.snapIndex
          rw [hx, ← hxm]
          rfl
        split at hc
        · have := snapIndex_le_lastLogIndex h
          omega
        · cases hc
      · cases hc

theorem prev_le (h : Formed s) (hc : checkLogConsistency prev pt s = true) :
    prev ≤ Storage.lastLogIndex s := by
  rcases prev_cases h hc with rfl | hb
  · exact Nat.zero_le _
  · exact hb.2

/-- How many entries stay when whatever lies above `prev` goes. -/
theorem length_truncateAfter (h : Formed s) (hprev : prev ≤ Storage.lastLogIndex s) :
    ((image s).log.truncateAfter prev).items.length = prev - snapIndex s := by
  have hlast := lastLogIndex_add_one h
  have hfirst : (image s).log.first = snapIndex s + 1 := h
  unfold Window.stop at hlast
  unfold Window.truncateAfter
  simp only [List.length_take]
  omega

/-- The log part of an accepted request puts what fits behind `prev`. -/
theorem image_placeEntries (h : Formed s) (hprev : prev ≤ Storage.lastLogIndex s)
    (hne : es ≠ []) :
    image (placeEntries prev es s) =
      { image s with
        log := (image s).log.place prev (fitting (capacity S) (prev - snapIndex s) es) } := by
  have hlen := length_truncateAfter h hprev
  have hlast := lastLogIndex_add_one h
  have htruncate :
      image (if Storage.lastLogIndex s > prev then Storage.truncateAfter s prev else s) =
      { image s with log := (image s).log.truncateAfter prev } := by
    split
    · exact image_truncateAfter s prev
    · rw [Window.truncateAfter_eq_self (by omega)]
  unfold placeEntries
  rw [if_neg (by simpa using hne)]
  dsimp only
  rw [image_appendEntries, htruncate]
  unfold LogImage.append Window.place
  simp only [hlen]

/-- What the log part of an accepted request leaves at an index. -/
theorem getEntry_placeEntries (h : Formed s) (hprev : prev ≤ Storage.lastLogIndex s)
    (hne : es ≠ []) (i : Nat) :
    Storage.getEntry (placeEntries prev es s) i =
      if i ≤ prev then Storage.getEntry s i
      else if i ≤ snapIndex s then none
      else (fitting (capacity S) (prev - snapIndex s) es)[i - (max prev (snapIndex s) + 1)]? := by
  have hlast := lastLogIndex_add_one h
  have hfirst : (image s).log.first = snapIndex s + 1 := h
  rw [getEntry_eq, image_placeEntries h hprev hne, getEntry_eq, Window.get?_place (by omega), hfirst,
    Nat.add_max_add_right, Nat.max_comm]
  simp only [Nat.lt_succ_iff]

theorem formed_placeEntries (h : Formed s) (prev : Nat) (es : List (LogEntry P)) :
    Formed (placeEntries prev es s) := by
  unfold placeEntries
  split
  · exact h
  · unfold Formed
    dsimp only
    rw [image_appendEntries]
    split
    · rw [image_truncateAfter]
      exact h
    · exact h

theorem formed_appendEntries (h : Formed s) (es : List (LogEntry P)) :
    Formed (Storage.appendEntries s es) := by
  unfold Formed
  rw [image_appendEntries]
  exact h

theorem snapIndex_appendEntries (s : S) (es : List (LogEntry P)) :
    snapIndex (Storage.appendEntries s es) = snapIndex s := by
  unfold snapIndex
  rw [image_appendEntries]
  rfl

theorem snapIndex_placeEntries (s : S) (prev : Nat) (es : List (LogEntry P)) :
    snapIndex (placeEntries prev es s) = snapIndex s := by
  unfold placeEntries
  split
  · rfl
  · dsimp only
    rw [snapIndex_appendEntries]
    unfold snapIndex
    split
    · rw [image_truncateAfter]
      rfl
    · rfl

/-! ### Compaction -/

/-- Taking a snapshot at an index that the log holds. -/
theorem image_create [StateMachine SM P] (h : Formed s) (sm : SM)
    (he : Storage.getEntry s i = some e) :
    image (SnapshotManager.create s sm i).1 =
      (image s).compactTo ⟨⟨i, e.term⟩, StateMachine.createSnapshot sm⟩ := by
  have hb := bounds_of_getEntry h he
  unfold SnapshotManager.create SnapshotManager.compact
  rw [if_neg (by omega), he]
  dsimp only
  rw [image_discardEntriesBefore, image_saveSnapshot]
  rfl

theorem formed_create [StateMachine SM P] (h : Formed s) (sm : SM) (i : Nat) :
    Formed (SnapshotManager.create s sm i).1 := by
  cases he : Storage.getEntry s i with
  | some e =>
    unfold Formed
    rw [image_create h sm he]
    exact LogImage.Formed.compactTo h (Nat.le_of_lt (bounds_of_getEntry h he).1)
  | none =>
    unfold SnapshotManager.create
    rw [he]
    split <;> exact h

theorem snapIndex_le_of_not_covered (h : alreadyCovered i s = false) : snapIndex s ≤ i := by
  unfold alreadyCovered at h
  rw [snapshotMetadata_eq] at h
  unfold snapIndex LogImage.snapIndex
  cases hx : (image s).snapshot with
  | none => exact Nat.zero_le _
  | some x =>
    rw [hx] at h
    simp only [Option.map_some, decide_eq_false_iff_not] at h
    simp only [Option.map_some, Option.getD_some]
    omega

end LogStorage

end MetalRaft
