import MetalRaft.Cluster
import MetalRaft.Lifetime

/-!
# Entries at their indexes

* `PlacedAt` — the entries of a request stand behind `prev`, each at its own index.
* `placed_iff` — an accepted request places its entries so unless it begins at 0 above a snapshot,
  or overflows the log.
* `StoredAt`, `stored_iff` — a submitted entry is where the leader says unless the log is full.
-/

set_option autoImplicit false

namespace MetalRaft

open Transition LogReplicationManager

variable {P S SM : Type} [Storage S P] [LogStorage S P]

section

variable {s : S} {prev : Nat} {es : List (LogEntry P)}

/-- The entries `es` stand behind index `prev`, each at its own index or covered by the snapshot,
and what was up to `prev` is still there. -/
structure PlacedAt (s s' : S) (prev : Nat) (es : List (LogEntry P)) : Prop where
  kept : ∀ j e, j ≤ prev → Storage.getEntry s j = some e → Storage.getEntry s' j = some e
  placed : ∀ k (hk : k < es.length), Storage.getEntry s' (prev + k + 1) = some es[k] ∨
    prev + k + 1 ≤ LogStorage.snapIndex s'
  last : Storage.lastLogIndex s' = max (prev + es.length) (LogStorage.snapIndex s')

/-- The log has room for the entries that a request puts behind `prev`. -/
def RoomBehind (s : S) (prev : Nat) (es : List (LogEntry P)) : Prop :=
  ∀ cap ∈ LogStorage.capacity S, prev - LogStorage.snapIndex s + es.length ≤ cap

/-- Where a request goes wrong, the last index does not come out right. -/
theorem placed_iff (h : LogStorage.Formed s) (hne : es ≠ []) {pt : Nat}
    (hsize : ∀ cap ∈ LogStorage.collectionCapacity S, es.length ≤ cap)
    (hc : checkLogConsistency prev pt s = true) :
    PlacedAt s (placeEntries prev es s) prev es ↔
      (prev = 0 → LogStorage.snapIndex s = 0) ∧ RoomBehind s prev es := by
  have hprev := LogStorage.prev_le h hc
  have himage := LogStorage.image_placeEntries h hprev hne
  have hformed := LogStorage.formed_placeEntries h prev es
  have hsnap : LogStorage.snapIndex (placeEntries prev es s) = LogStorage.snapIndex s := by
    unfold LogStorage.snapIndex
    rw [himage]
    rfl
  have hfirst : (LogStorage.image s).log.first = LogStorage.snapIndex s + 1 := h
  have hstop := (LogStorage.image s).log.first_le_stop
  have hlast := LogStorage.lastLogIndex_add_one h
  have hlast' := LogStorage.lastLogIndex_add_one hformed
  rw [himage, Window.stop_place] at hlast'
  constructor
  · intro hplaced
    have hend := hplaced.last
    rw [hsnap] at hend
    have hpos := List.length_pos_of_ne_nil hne
    have hzero : prev = 0 → LogStorage.snapIndex s = 0 := by
      intro h0
      -- nothing is dropped here, so the entries end too far up
      have hall : fitting (LogStorage.capacity S) (prev - LogStorage.snapIndex s) es = es := by
        refine fitting_eq_self fun cap hcap => ?_
        obtain ⟨k, hk, hle⟩ := LogStorage.collection_le_capacity (S := S) cap hcap
        have := hsize k hk
        omega
      rw [hall] at hlast'
      omega
    refine ⟨hzero, fitting_length _ _ _ ?_ hne⟩
    rcases LogStorage.prev_cases h hc with h0 | hb
    · have := hzero h0
      omega
    · omega
  · rintro ⟨hzero, hroom⟩
    have hall : fitting (LogStorage.capacity S) (prev - LogStorage.snapIndex s) es = es :=
      fitting_eq_self hroom
    have hcovers : LogStorage.snapIndex s ≤ prev := by
      rcases LogStorage.prev_cases h hc with h0 | hb
      · exact (hzero h0).trans_le (Nat.zero_le _)
      · exact hb.1
    rw [hall] at hlast'
    have hget := LogStorage.getEntry_placeEntries h hprev hne
    refine ⟨fun j e hj he => ?_, fun k hk => Or.inl ?_, ?_⟩
    · rw [hget, if_pos hj]
      exact he
    · rw [hget, if_neg (by omega), if_neg (by omega), hall, ← List.getElem?_eq_getElem hk]
      congr 1
      omega
    · rw [hsnap]
      omega

end

variable [StateMachine SM P] [Restartable S] [FormedRestarts S]

omit [LogStorage S P] [Restartable S] [FormedRestarts S] in
/-- What an accepted request does to the storage. -/
theorem storage_of_accepted {R : Realization} {r : LogReplicationManager} {prev pt lc : Nat}
    {es : List (LogEntry P)} {s : S} {sm : SM} {observer : Observer P}
    (h : (r.tryAppendEntries R prev pt es lc s sm observer).configChanges.isSome) :
    checkLogConsistency prev pt s = true ∧
      (r.tryAppendEntries R prev pt es lc s sm observer).storage = placeEntries prev es s := by
  unfold tryAppendEntries at h ⊢
  split at h
  · cases h
  · rename_i hc
    refine ⟨by simpa using hc, ?_⟩
    rw [if_neg hc]
    dsimp only
    split <;> rfl

namespace RaftNode

/-- **An accepted request places its entries at their own indexes** if and only if it does not
begin at index 0 while there is a snapshot, and the log has room for the entries.  On every
storage, in every state of every life of a node. -/
theorem accepted_entries_placed_iff {R : Realization} {n : RaftNode P S SM} {prev pt lc : Nat}
    {es : List (LogEntry P)} (h : n.Lived R) (hne : es ≠ [])
    (hsize : ∀ cap ∈ LogStorage.collectionCapacity S, es.length ≤ cap)
    (haccepted : (n.replication.tryAppendEntries R prev pt es lc n.storage n.stateMachine
      n.observer).configChanges.isSome) :
    PlacedAt n.storage (n.replication.tryAppendEntries R prev pt es lc n.storage n.stateMachine
        n.observer).storage prev es ↔
      (prev = 0 → LogStorage.snapIndex n.storage = 0) ∧ RoomBehind n.storage prev es := by
  obtain ⟨hc, hstorage⟩ := storage_of_accepted haccepted
  rw [hstorage]
  exact placed_iff (formed_of_lived h) hne hsize hc

/-- A follower whose log begins behind a snapshot of two entries. -/
def compactedFollower : TestNode UInt8 Adder :=
  [.message 2 (.installSnapshot 1 2 2 1 0 [9] true)].foldl (onEvent .testUtils)
    (start .testUtils 1 .new trioBoot)

theorem accepted_entries_placed_iff_compacted :
    PlacedAt compactedFollower.storage
        (compactedFollower.replication.tryAppendEntries .testUtils 2 1 [⟨1, .command 5⟩] 0
          compactedFollower.storage compactedFollower.stateMachine
          compactedFollower.observer).storage 2 [⟨1, .command 5⟩] ↔
      ((2 : Nat) = 0 → LogStorage.snapIndex compactedFollower.storage = 0) ∧
        RoomBehind compactedFollower.storage 2 [⟨1, .command (5 : UInt8)⟩] :=
  accepted_entries_placed_iff ((lived_start 1 trioBoot rfl).events _) (by simp)
    (fun _ hcap => (by cases hcap)) (by decide +kernel)

/-- Above a snapshot of two entries, a request that begins at 0 puts its first entry at 3. -/
theorem request_from_zero_misplaced :
    compactedFollower.Lived .testUtils ∧
      ¬ PlacedAt compactedFollower.storage
        (compactedFollower.replication.tryAppendEntries .testUtils 0 0 [⟨1, .command 5⟩] 0
          compactedFollower.storage compactedFollower.stateMachine
          compactedFollower.observer).storage 0 [⟨1, .command 5⟩] ∧
      (compactedFollower.replication.tryAppendEntries .testUtils 0 0 [⟨1, .command 5⟩] 0
        compactedFollower.storage compactedFollower.stateMachine
        compactedFollower.observer).configChanges.isSome := by
  refine ⟨(lived_start 1 trioBoot rfl).events _, fun h => ?_, by decide +kernel⟩
  have hlast := h.last
  revert hlast
  decide +kernel

end RaftNode

/-! ## Submitted entries -/

/-- The log has room for one more entry. -/
def HasRoom (s : S) : Prop :=
  ∀ cap ∈ LogStorage.capacity S,
    Storage.lastLogIndex s + 1 - Storage.firstLogIndex s < cap

/-- The entry stands right behind what was the end of the log. -/
structure StoredAt (s s' : S) (index : Nat) (entry : LogEntry P) : Prop where
  next : index = Storage.lastLogIndex s + 1
  stored : Storage.getEntry s' index = some entry

section

variable {s : S} {e : LogEntry P}

omit [StateMachine SM P] [Restartable S] [FormedRestarts S] in
theorem stored_iff (h : LogStorage.Formed s) :
    StoredAt s (Storage.appendEntries s [e])
        (Storage.lastLogIndex (Storage.appendEntries s [e])) e ↔ HasRoom s := by
  have himage := LogStorage.image_appendEntries s [e]
  have hlast := LogStorage.lastLogIndex_add_one h
  have hlast' := LogStorage.lastLogIndex_add_one (LogStorage.formed_appendEntries h [e])
  have hheld := LogStorage.held_eq h
  rw [himage, LogImage.append, Window.stop_append] at hlast'
  constructor
  · intro hstored cap hcap
    have hnext := hstored.next
    have hall := fitting_length (LogStorage.capacity S) (LogStorage.image s).log.items.length [e]
      (by rw [List.length_singleton]; omega) (by simp) cap hcap
    rw [List.length_singleton] at hall
    omega
  · intro hroom
    have hall : fitting (LogStorage.capacity S) (LogStorage.image s).log.items.length [e] = [e] :=
      fitting_eq_self fun cap hcap => by
        have := hroom cap hcap
        rw [List.length_singleton]
        omega
    rw [hall, List.length_singleton] at hlast'
    refine ⟨by omega, ?_⟩
    have hindex : Storage.lastLogIndex (Storage.appendEntries s [e]) =
        (LogStorage.image s).log.stop := by omega
    rw [LogStorage.getEntry_eq, himage, hindex, LogImage.append, hall, Window.get?_append,
      if_neg (Nat.lt_irrefl _), Nat.sub_self]
    rfl

end

namespace RaftNode

omit [LogStorage S P] [Restartable S] [FormedRestarts S] in
/-- Only a leader answers with an index, and after the entry is appended the storage stays as it
is. -/
theorem submitEntry_ok {R : Realization} {n : RaftNode P S SM} {entryType : EntryType P}
    {index : Nat} (h : (n.submitEntry R entryType).2 = .ok index) :
    (n.submitEntry R entryType).1.storage =
        Storage.appendEntries n.storage [⟨n.currentTerm, entryType⟩] ∧
      index =
        Storage.lastLogIndex (Storage.appendEntries n.storage [⟨n.currentTerm, entryType⟩]) := by
  unfold submitEntry at h ⊢
  split at h
  · cases h
  · rename_i hrole
    rw [if_neg hrole]
    dsimp only at h ⊢
    refine ⟨?_, (Except.ok.inj h).symm⟩
    rw [sendAppendEntriesToFollowers_eq]
    dsimp only
    split <;> rfl

/-- **A submitted command is where the leader says it is** if and only if the log had room for it.
On every storage, in every state of every life of a node. -/
theorem submitted_entry_stored_iff {R : Realization} {n : RaftNode P S SM} (h : n.Lived R) :
    (∀ payload index, (n.submitClientCommand R payload).2 = .ok index →
      (StoredAt n.storage (n.submitClientCommand R payload).1.storage index
        ⟨n.currentTerm, .command payload⟩ ↔ HasRoom n.storage)) ∧
    ∀ change index, (n.submitConfigChange R change).2 = .ok index →
      (StoredAt n.storage (n.submitConfigChange R change).1.storage index
        ⟨n.currentTerm, .configChange change⟩ ↔ HasRoom n.storage) := by
  have hentry : ∀ entryType index, (n.submitEntry R entryType).2 = .ok index →
      (StoredAt n.storage (n.submitEntry R entryType).1.storage index ⟨n.currentTerm, entryType⟩ ↔
        HasRoom n.storage) := by
    intro entryType index hok
    obtain ⟨hstorage, rfl⟩ := submitEntry_ok hok
    rw [hstorage]
    exact stored_iff (formed_of_lived h)
  exact ⟨fun _ => hentry _, fun _ => hentry _⟩

/-- A start of the node on the device. -/
def deviceBoot : Boot Adder := ⟨⟨0⟩, ⟨none, none, 0⟩, [2, 3, 4, 5], 100, 0, 100⟩

/-- Events by which a node takes over `full` times 128 entries and is then elected. -/
def deviceEvents (full : Nat) : List (Event UInt8) :=
  [.message 2 (.appendEntries 1 0 0 [] 0)] ++
    (List.range full).map (fun k => .message 2
      (.appendEntries 1 (128 * k) (if k = 0 then 0 else 1)
        (List.replicate 128 ⟨1, .command 5⟩) 0)) ++
    [.timerFired .election, .message 2 (.preVoteResponse 1 true),
      .message 3 (.preVoteResponse 1 true), .message 2 (.requestVoteResponse 2 true),
      .message 3 (.requestVoteResponse 2 true)]

def deviceLeader (full : Nat) : RaftNode UInt8 (EmbassyStorage UInt8) Adder :=
  (deviceEvents full).foldl (onEvent .embassy) (start .embassy 1 .new deviceBoot)

theorem submitted_entry_stored_iff_device :
    StoredAt (deviceLeader 1).storage ((deviceLeader 1).submitClientCommand .embassy 7).1.storage
        129 ⟨(deviceLeader 1).currentTerm, .command 7⟩ ↔ HasRoom (deviceLeader 1).storage :=
  (submitted_entry_stored_iff ((lived_start 1 deviceBoot rfl).events _)).1 7 129
    (by decide +kernel)

/-- A leader whose log is full answers with the index of its last entry. -/
theorem full_log_loses_command :
    (deviceLeader 2).Lived .embassy ∧ (deviceLeader 2).role = .leader ∧
      ((deviceLeader 2).submitClientCommand .embassy 7).2 = .ok 256 ∧
      ¬ StoredAt (deviceLeader 2).storage
        ((deviceLeader 2).submitClientCommand .embassy 7).1.storage 256
        ⟨(deviceLeader 2).currentTerm, .command 7⟩ := by
  refine ⟨(lived_start 1 deviceBoot rfl).events _, by decide +kernel, by decide +kernel,
    fun h => ?_⟩
  have hnext := h.next
  revert hnext
  decide +kernel

end RaftNode

end MetalRaft
