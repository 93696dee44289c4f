import MetalRaft.EmbassyStorage

/-!
# The wire format of the UDP transport

`serde_raft_message.rs` mirrors the messages in types that can be serialized and converts them both
ways.  The collections of a message have a fixed capacity, and those that receive what comes off the
wire drop what does not fit.

* `EmbassyRaftMsg` — a message whose entries and snapshot bytes fit their collections.
* `WireRaftMsg.fromMsg`, `WireRaftMsg.tryInto` — `WireRaftMsg::from` and `RaftMsg::try_from`.
* `wire_conversion_lossless_iff` — what is sent is received, and what is received is what was on the
  wire when it fits; `shortened_snapshot_accepted` — otherwise it is cut, and accepted.
-/

set_option autoImplicit false

namespace MetalRaft

/-! ## Messages with their collections -/

/-- The capacity of the `HeaplessChunkVec` of a message. -/
def chunkCapacity : Nat := 512

/-- The entries and the snapshot bytes of the message fit their collections. -/
def RaftMsg.FitsCollections : RaftMsg String → Prop
  | .appendEntries _ _ _ entries _ => entries.length ≤ EmbassyStorage.collectionCapacity
  | .installSnapshot _ _ _ _ _ data _ => data.length ≤ chunkCapacity
  | _ => True

/-- `RaftMsg<String, EmbassyLogEntryCollection, HeaplessChunkVec<512>>`. -/
def EmbassyRaftMsg : Type := { msg : RaftMsg String // msg.FitsCollections }

/-- `EmbassyLogEntryCollection::new`. -/
def embassyLogEntryCollection (entries : List (LogEntry String)) : List (LogEntry String) :=
  entries.foldl (pushWithin (some EmbassyStorage.collectionCapacity)) []

/-- `HeaplessChunkVec::<512>::new`. -/
def heaplessChunkVec (data : List UInt8) : List UInt8 :=
  data.foldl (pushWithin (some chunkCapacity)) []

/-! ## The mirror types -/

inductive WireConfigurationChange where
  | addServer (nodeId : Nat)
  | removeServer (nodeId : Nat)

inductive WireEntryType where
  | command (payload : String)
  | configChange (change : WireConfigurationChange)

structure WireLogEntry where
  term : Nat
  entryType : WireEntryType

inductive WireRaftMsg where
  | requestVote (term : Nat) (candidateId : Nat) (lastLogIndex : Nat) (lastLogTerm : Nat)
  | requestVoteResponse (term : Nat) (voteGranted : Bool)
  | appendEntries (term : Nat) (prevLogIndex : Nat) (prevLogTerm : Nat)
      (entries : List WireLogEntry) (leaderCommit : Nat)
  | appendEntriesResponse (term : Nat) (success : Bool) (matchIndex : Nat)
  | installSnapshot (term : Nat) (leaderId : Nat) (lastIncludedIndex : Nat)
      (lastIncludedTerm : Nat) (offset : Nat) (data : List UInt8) (done : Bool)
  | installSnapshotResponse (term : Nat) (success : Bool)
  | preVoteRequest (term : Nat) (candidateId : Nat) (lastLogIndex : Nat) (lastLogTerm : Nat)
  | preVoteResponse (term : Nat) (voteGranted : Bool)

/-! ## Both ways -/

namespace WireConfigurationChange

def fromChange : ConfigurationChange → WireConfigurationChange
  | .addServer nodeId => .addServer nodeId
  | .removeServer nodeId => .removeServer nodeId

def toChange : WireConfigurationChange → ConfigurationChange
  | .addServer nodeId => .addServer nodeId
  | .removeServer nodeId => .removeServer nodeId

@[simp] theorem toChange_fromChange (change : ConfigurationChange) :
    (fromChange change).toChange = change := by
  cases change <;> rfl

@[simp] theorem fromChange_toChange (wire : WireConfigurationChange) :
    fromChange wire.toChange = wire := by
  cases wire <;> rfl

end WireConfigurationChange

namespace WireEntryType

def fromType : EntryType String → WireEntryType
  | .command payload => .command payload
  | .configChange change => .configChange (.fromChange change)

def toType : WireEntryType → EntryType String
  | .command payload => .command payload
  | .configChange change => .configChange change.toChange

@[simp] theorem toType_fromType (entryType : EntryType String) :
    (fromType entryType).toType = entryType := by
  cases entryType <;> simp [fromType, toType]

@[simp] theorem fromType_toType (wire : WireEntryType) : fromType wire.toType = wire := by
  cases wire <;> simp [fromType, toType]

end WireEntryType

namespace WireLogEntry

def fromEntry (entry : LogEntry String) : WireLogEntry := ⟨entry.term, .fromType entry.entryType⟩

def toEntry (wire : WireLogEntry) : LogEntry String := ⟨wire.term, wire.entryType.toType⟩

@[simp] theorem toEntry_fromEntry (entry : LogEntry String) : (fromEntry entry).toEntry = entry := by
  simp [fromEntry, toEntry]

@[simp] theorem fromEntry_toEntry (wire : WireLogEntry) : fromEntry wire.toEntry = wire := by
  simp [fromEntry, toEntry]

theorem map_toEntry_fromEntry (entries : List (LogEntry String)) :
    (entries.map fromEntry).map toEntry = entries := by
  simp [Function.comp_def]

theorem map_fromEntry_toEntry (wires : List WireLogEntry) :
    (wires.map toEntry).map fromEntry = wires := by
  simp [Function.comp_def]

end WireLogEntry

namespace WireRaftMsg

def fromRaftMsg : RaftMsg String → WireRaftMsg
  | .requestVote term candidateId lastLogIndex lastLogTerm =>
    .requestVote term candidateId lastLogIndex lastLogTerm
  | .requestVoteResponse term voteGranted => .requestVoteResponse term voteGranted
  | .appendEntries term prevLogIndex prevLogTerm entries leaderCommit =>
    .appendEntries term prevLogIndex prevLogTerm (entries.map .fromEntry) leaderCommit
  | .appendEntriesResponse term success matchIndex => .appendEntriesResponse term success matchIndex
  | .installSnapshot term leaderId lastIncludedIndex lastIncludedTerm offset data done =>
    .installSnapshot term leaderId lastIncludedIndex lastIncludedTerm offset data done
  | .installSnapshotResponse term success => .installSnapshotResponse term success
  | .preVoteRequest term candidateId lastLogIndex lastLogTerm =>
    .preVoteRequest term candidateId lastLogIndex lastLogTerm
  | .preVoteResponse term voteGranted => .preVoteResponse term voteGranted

/-- `WireRaftMsg::from`. -/
def fromMsg (msg : EmbassyRaftMsg) : WireRaftMsg := fromRaftMsg msg.1

/-- `RaftMsg::try_from`.  There is an error type, a text, and no branch that returns one. -/
def tryInto : WireRaftMsg → Except String EmbassyRaftMsg
  | .requestVote term candidateId lastLogIndex lastLogTerm =>
    .ok ⟨.requestVote term candidateId lastLogIndex lastLogTerm, trivial⟩
  | .requestVoteResponse term voteGranted => .ok ⟨.requestVoteResponse term voteGranted, trivial⟩
  | .appendEntries term prevLogIndex prevLogTerm entries leaderCommit =>
    .ok ⟨.appendEntries term prevLogIndex prevLogTerm
      (embassyLogEntryCollection (entries.map WireLogEntry.toEntry)) leaderCommit,
      foldl_pushWithin_length_le _ [] (Nat.zero_le _)⟩
  | .appendEntriesResponse term success matchIndex =>
    .ok ⟨.appendEntriesResponse term success matchIndex, trivial⟩
  | .installSnapshot term leaderId lastIncludedIndex lastIncludedTerm offset data done =>
    .ok ⟨.installSnapshot term leaderId lastIncludedIndex lastIncludedTerm offset
      (heaplessChunkVec data) done, foldl_pushWithin_length_le _ [] (Nat.zero_le _)⟩
  | .installSnapshotResponse term success => .ok ⟨.installSnapshotResponse term success, trivial⟩
  | .preVoteRequest term candidateId lastLogIndex lastLogTerm =>
    .ok ⟨.preVoteRequest term candidateId lastLogIndex lastLogTerm, trivial⟩
  | .preVoteResponse term voteGranted => .ok ⟨.preVoteResponse term voteGranted, trivial⟩

/-- The entries and the snapshot bytes on the wire fit the collections of the receiver. -/
def FitsCollections : WireRaftMsg → Prop
  | .appendEntries _ _ _ entries _ => entries.length ≤ EmbassyStorage.collectionCapacity
  | .installSnapshot _ _ _ _ _ data _ => data.length ≤ chunkCapacity
  | _ => True

instance : (wire : WireRaftMsg) → Decidable wire.FitsCollections
  | .appendEntries _ _ _ entries _ =>
    inferInstanceAs (Decidable (entries.length ≤ EmbassyStorage.collectionCapacity))
  | .installSnapshot _ _ _ _ _ data _ => inferInstanceAs (Decidable (data.length ≤ chunkCapacity))
  | .requestVote _ _ _ _ | .requestVoteResponse _ _ | .appendEntriesResponse _ _ _
  | .installSnapshotResponse _ _ | .preVoteRequest _ _ _ _ | .preVoteResponse _ _ => isTrue trivial

end WireRaftMsg

/-! ## What is lost -/

section

variable {α : Type} {cap : Nat} {xs : List α}

theorem collect_of_fits (h : xs.length ≤ cap) : xs.foldl (pushWithin (some cap)) [] = xs := by
  rw [foldl_pushWithin_of_fits xs [] fun k hk => ?_, List.nil_append]
  cases hk
  rw [List.length_nil, Nat.zero_add]
  exact h

/-- A collection holds all of it exactly if it fits. -/
theorem collect_eq_iff : xs.foldl (pushWithin (some cap)) [] = xs ↔ xs.length ≤ cap := by
  refine ⟨fun h => ?_, collect_of_fits⟩
  rw [← h]
  exact foldl_pushWithin_length_le xs [] (Nat.zero_le _)

end

open WireRaftMsg

/-- **What is sent is received.** -/
theorem tryInto_fromMsg (msg : EmbassyRaftMsg) : (fromMsg msg).tryInto = .ok msg := by
  obtain ⟨msg, hfits⟩ := msg
  cases msg with
  | appendEntries term prevLogIndex prevLogTerm entries leaderCommit =>
    simp only [fromMsg, fromRaftMsg, tryInto, WireLogEntry.map_toEntry_fromEntry,
      embassyLogEntryCollection, collect_of_fits hfits]
  | installSnapshot term leaderId lastIncludedIndex lastIncludedTerm offset data done =>
    simp only [fromMsg, fromRaftMsg, tryInto, heaplessChunkVec, collect_of_fits hfits]
  | _ => rfl

/-- What the receiver makes of a message stands for the same on the wire exactly if the message
fits. -/
theorem fromMsg_tryInto_iff {wire : WireRaftMsg} {msg : EmbassyRaftMsg}
    (h : wire.tryInto = .ok msg) : fromMsg msg = wire ↔ wire.FitsCollections := by
  cases wire with
  | appendEntries term prevLogIndex prevLogTerm entries leaderCommit =>
    cases h
    have hcollect : embassyLogEntryCollection (entries.map WireLogEntry.toEntry) =
        entries.map WireLogEntry.toEntry ↔
          (entries.map WireLogEntry.toEntry).length ≤ EmbassyStorage.collectionCapacity :=
      collect_eq_iff
    rw [List.length_map] at hcollect
    refine Iff.trans ⟨fun heq => ?_, fun heq => ?_⟩ hcollect
    · have hentries := (WireRaftMsg.appendEntries.inj heq).2.2.2.1
      have hback := congrArg (List.map WireLogEntry.toEntry) hentries
      rwa [WireLogEntry.map_toEntry_fromEntry] at hback
    · show fromRaftMsg (.appendEntries term prevLogIndex prevLogTerm _ leaderCommit) = _
      rw [heq]
      simp only [fromRaftMsg, WireLogEntry.map_fromEntry_toEntry]
  | installSnapshot term leaderId lastIncludedIndex lastIncludedTerm offset data done =>
    cases h
    refine Iff.trans ⟨fun heq => ?_, fun heq => ?_⟩ collect_eq_iff
    · exact (WireRaftMsg.installSnapshot.inj heq).2.2.2.2.2.1
    · show WireRaftMsg.installSnapshot term leaderId lastIncludedIndex lastIncludedTerm offset
        (heaplessChunkVec data) done = _
      rw [heaplessChunkVec, heq]
  | _ =>
    cases h
    exact iff_of_true rfl trivial

/-- **The wire conversion loses nothing** of a message that is sent, and of one that is received
exactly if it fits the collections of the receiver. -/
theorem wire_conversion_lossless_iff (wire : WireRaftMsg) :
    (∀ msg : EmbassyRaftMsg, (fromMsg msg).tryInto = .ok msg) ∧
      ((∀ msg, wire.tryInto = .ok msg → fromMsg msg = wire) ↔ wire.FitsCollections) := by
  refine ⟨tryInto_fromMsg, fun h => ?_, fun h msg hmsg => ?_⟩
  · obtain ⟨msg, hmsg⟩ : ∃ msg, wire.tryInto = .ok msg := by
      cases wire <;> exact ⟨_, rfl⟩
    exact (fromMsg_tryInto_iff hmsg).mp (h msg hmsg)
  · exact (fromMsg_tryInto_iff hmsg).mpr h

/-- The last chunk of a snapshot, one byte too long, is accepted without that byte. -/
theorem shortened_snapshot_accepted :
    ¬ ((∀ msg : EmbassyRaftMsg, (fromMsg msg).tryInto = .ok msg) ∧
      ∀ (wire : WireRaftMsg) (msg : EmbassyRaftMsg),
        wire.tryInto = .ok msg → fromMsg msg = wire) := by
  intro h
  have hsame := h.2 (.installSnapshot 1 1 1 1 0 (List.replicate 513 0) true) _ rfl
  have hdata : heaplessChunkVec (List.replicate 513 0) = List.replicate 513 0 :=
    (WireRaftMsg.installSnapshot.inj hsame).2.2.2.2.2.1
  have hlength : (heaplessChunkVec (List.replicate 513 0)).length ≤ chunkCapacity :=
    foldl_pushWithin_length_le _ [] (Nat.zero_le _)
  rw [hdata, List.length_replicate] at hlength
  exact absurd hlength (by decide)

end MetalRaft
