import MetalRaft.ByteCodec
import MetalRaft.SemihostingStorage
import MetalRaft.Wire

/-!
# The serializer of the UDP transport

The transport writes its messages with `postcard`, which is not part of the repository: all that is
used of it is that what has been written is read back.  Its documented format has this property.

* `Postcard` — a serializer, of which only the round trip is known.
* The codes of the mirror types and of `Envelope`: the fields one after the other, numbers as
  varints, a string as the length and the bytes of its UTF-8, and in front of a variant its number.
  `postcard` ends a varint of a `u64` after ten bytes at the latest, and so does this one where the
  number is a `u64`.
-/

set_option autoImplicit false

namespace MetalRaft

/-- What can be written is read back as it was. -/
class Postcard (α : Type) where
  toAllocvec : α → Option (List UInt8)
  fromBytes : List UInt8 → Option α
  fromBytes_toAllocvec {a : α} {bytes : List UInt8} :
    toAllocvec a = some bytes → fromBytes bytes = some a

structure Envelope where
  sender : NodeId
  target : NodeId
  messageBytes : List UInt8

open Codec

instance : Codec String where
  write s := write (utf8Bytes s)
  read bytes := do
    let (utf8, bytes) ← read bytes
    let s ← fromUtf8 utf8
    some (s, bytes)
  read_write s rest := by simp [fromUtf8_utf8Bytes]

namespace WireConfigurationChange

def write : WireConfigurationChange → List UInt8
  | .addServer nodeId => Codec.write 0 ++ Codec.write nodeId
  | .removeServer nodeId => Codec.write 1 ++ Codec.write nodeId

def read (bytes : List UInt8) : Option (WireConfigurationChange × List UInt8) := do
  let (variant, bytes) ← Codec.read bytes
  match variant with
  | 0 =>
    let (nodeId, bytes) ← Codec.read bytes
    some (.addServer nodeId, bytes)
  | 1 =>
    let (nodeId, bytes) ← Codec.read bytes
    some (.removeServer nodeId, bytes)
  | _ => none

instance : Codec WireConfigurationChange where
  write := write
  read := read
  read_write change rest := by cases change <;> simp [write, read]

end WireConfigurationChange

namespace WireEntryType

def write : WireEntryType → List UInt8
  | .command payload => Codec.write 0 ++ Codec.write payload
  | .configChange change => Codec.write 1 ++ Codec.write change

def read (bytes : List UInt8) : Option (WireEntryType × List UInt8) := do
  let (variant, bytes) ← Codec.read bytes
  match variant with
  | 0 =>
    let (payload, bytes) ← Codec.read bytes
    some (.command payload, bytes)
  | 1 =>
    let (change, bytes) ← Codec.read bytes
    some (.configChange change, bytes)
  | _ => none

instance : Codec WireEntryType where
  write := write
  read := read
  read_write entryType rest := by cases entryType <;> simp [write, read]

end WireEntryType

instance : Codec WireLogEntry where
  write entry := write entry.term ++ write entry.entryType
  read bytes := do
    let (term, bytes) ← read bytes
    let (entryType, bytes) ← read bytes
    some (⟨term, entryType⟩, bytes)
  read_write entry rest := by simp

namespace WireRaftMsg

def write : WireRaftMsg → List UInt8
  | .requestVote term candidateId lastLogIndex lastLogTerm =>
    Codec.write 0 ++ Codec.write term ++ Codec.write candidateId ++ Codec.write lastLogIndex ++
      Codec.write lastLogTerm
  | .requestVoteResponse term voteGranted =>
    Codec.write 1 ++ Codec.write term ++ Codec.write voteGranted
  | .appendEntries term prevLogIndex prevLogTerm entries leaderCommit =>
    Codec.write 2 ++ Codec.write term ++ Codec.write prevLogIndex ++ Codec.write prevLogTerm ++
      Codec.write entries ++ Codec.write leaderCommit
  | .appendEntriesResponse term success matchIndex =>
    Codec.write 3 ++ Codec.write term ++ Codec.write success ++ Codec.write matchIndex
  | .installSnapshot term leaderId lastIncludedIndex lastIncludedTerm offset data done =>
    Codec.write 4 ++ Codec.write term ++ Codec.write leaderId ++ Codec.write lastIncludedIndex ++
      Codec.write lastIncludedTerm ++ Codec.write offset ++ Codec.write data ++ Codec.write done
  | .installSnapshotResponse term success =>
    Codec.write 5 ++ Codec.write term ++ Codec.write success
  | .preVoteRequest term candidateId lastLogIndex lastLogTerm =>
    Codec.write 6 ++ Codec.write term ++ Codec.write candidateId ++ Codec.write lastLogIndex ++
      Codec.write lastLogTerm
  | .preVoteResponse term voteGranted =>
    Codec.write 7 ++ Codec.write term ++ Codec.write voteGranted

def read (bytes : List UInt8) : Option (WireRaftMsg × List UInt8) := do
  let (variant, bytes) ← Codec.read bytes
  let (term, bytes) ← Codec.read bytes
  match variant with
  | 0 =>
    let (candidateId, bytes) ← Codec.read bytes
    let (lastLogIndex, bytes) ← Codec.read bytes
    let (lastLogTerm, bytes) ← Codec.read bytes
    some (.requestVote term candidateId lastLogIndex lastLogTerm, bytes)
  | 1 =>
    let (voteGranted, bytes) ← Codec.read bytes
    some (.requestVoteResponse term voteGranted, bytes)
  | 2 =>
    let (prevLogIndex, bytes) ← Codec.read bytes
    let (prevLogTerm, bytes) ← Codec.read bytes
    let (entries, bytes) ← Codec.read bytes
    let (leaderCommit, bytes) ← Codec.read bytes
    some (.appendEntries term prevLogIndex prevLogTerm entries leaderCommit, bytes)
  | 3 =>
    let (success, bytes) ← Codec.read bytes
    let (matchIndex, bytes) ← Codec.read bytes
    some (.appendEntriesResponse term success matchIndex, bytes)
  | 4 =>
    let (leaderId, bytes) ← Codec.read bytes
    let (lastIncludedIndex, bytes) ← Codec.read bytes
    let (lastIncludedTerm, bytes) ← Codec.read bytes
    let (offset, bytes) ← Codec.read bytes
    let (data, bytes) ← Codec.read bytes
    let (done, bytes) ← Codec.read bytes
    some (.installSnapshot term leaderId lastIncludedIndex lastIncludedTerm offset data done, bytes)
  | 5 =>
    let (success, bytes) ← Codec.read bytes
    some (.installSnapshotResponse term success, bytes)
  | 6 =>
    let (candidateId, bytes) ← Codec.read bytes
    let (lastLogIndex, bytes) ← Codec.read bytes
    let (lastLogTerm, bytes) ← Codec.read bytes
    some (.preVoteRequest term candidateId lastLogIndex lastLogTerm, bytes)
  | 7 =>
    let (voteGranted, bytes) ← Codec.read bytes
    some (.preVoteResponse term voteGranted, bytes)
  | _ => none

instance : Codec WireRaftMsg where
  write := write
  read := read
  read_write msg rest := by cases msg <;> simp [write, read]

end WireRaftMsg

instance : Codec Envelope where
  write envelope := write envelope.sender ++ write envelope.target ++ write envelope.messageBytes
  read bytes := do
    let (sender, bytes) ← read bytes
    let (target, bytes) ← read bytes
    let (messageBytes, bytes) ← read bytes
    some (⟨sender, target, messageBytes⟩, bytes)
  read_write envelope rest := by simp

/-- `from_bytes` passes over what follows the value. -/
instance {α : Type} [Codec α] : Postcard α where
  toAllocvec a := some (write a)
  fromBytes bytes := (read bytes).map (·.1)
  fromBytes_toAllocvec {a bytes} h := by
    have hread := read_write a []
    rw [List.append_nil, Option.some.inj h] at hread
    rw [hread]
    rfl

end MetalRaft
