import MetalRaft.LittleEndian
import MetalRaft.StoredLog

/-!
# The storage that writes files

`SemihostingStorage` of `embassy`: the log and the snapshot in memory, and four files on the host
of the debugger, one of them rewritten as a whole after each change.

* `Disk` — the files of one node; `writes` lists every file that a storage has written since it
  was opened, so that a crash between two of them is a prefix of this list.
* `serializeLog`, `deserializeLog` — the log file; `deserializeLog_serializeLog` for commands.
* `new` — a storage as it is read back from the files.

A failed write is not noticed by the source either; here every write succeeds.  Differences of
indices, which the source casts to the 32-bit `usize` of the device, are left as they are.
-/

set_option autoImplicit false

namespace MetalRaft

open LittleEndian

/-! ## Files -/

inductive File where
  | metadata
  | log
  | snapshot
  | snapshotMeta
  deriving DecidableEq

/-- The files of a node, by their contents; `none` where there is no such file. -/
structure Disk where
  metadata : Option (List UInt8)
  log : Option (List UInt8)
  snapshot : Option (List UInt8)
  snapshotMeta : Option (List UInt8)
  deriving DecidableEq

namespace Disk

def empty : Disk := ⟨none, none, none, none⟩

/-- One file is written anew. -/
def write (d : Disk) (w : File × List UInt8) : Disk :=
  match w.1 with
  | .metadata => { d with metadata := some w.2 }
  | .log => { d with log := some w.2 }
  | .snapshot => { d with snapshot := some w.2 }
  | .snapshotMeta => { d with snapshotMeta := some w.2 }

end Disk

/-! ## The log file -/

/-- `str::as_bytes`. -/
def utf8Bytes (s : String) : List UInt8 := s.toByteArray.data.toList

/-- `String::from_utf8`. -/
def fromUtf8 (bytes : List UInt8) : Option String := String.fromUTF8? ⟨bytes.toArray⟩

theorem fromUtf8_utf8Bytes (s : String) : fromUtf8 (utf8Bytes s) = some s := by
  unfold fromUtf8 utf8Bytes String.fromUTF8?
  simp only [Array.toArray_toList]
  rw [dif_pos s.isValidUTF8]
  rfl

theorem utf8Bytes_of_fromUtf8 {bytes : List UInt8} {payload : String}
    (h : fromUtf8 bytes = some payload) : utf8Bytes payload = bytes := by
  unfold fromUtf8 String.fromUTF8? at h
  split at h
  · cases h
    simp [utf8Bytes, String.fromUTF8]
  · cases h

def serializeEntry (entry : LogEntry String) : List UInt8 :=
  toBytes 8 entry.term ++
    match entry.entryType with
    | .command payload => 0 :: (toBytes 4 (utf8Bytes payload).length ++ utf8Bytes payload)
    | .configChange _ => 1 :: toBytes 4 0

def serializeLog (log : List (LogEntry String)) : List UInt8 :=
  toBytes 8 log.length ++ log.flatMap serializeEntry

/-- The loop of `deserialize_log`, on the bytes from `offset` on.  A payload that is not UTF-8 and
a configuration change are passed over. -/
def deserializeEntries : Nat → List UInt8 → List (LogEntry String)
  | 0, _ => []
  | count + 1, data =>
    if data.length < 8 then []
    else
      let term := ofBytes (data.take 8)
      match data.drop 8 with
      | [] => []
      | entryType :: data =>
        if data.length < 4 then []
        else
          let payloadLen := ofBytes (data.take 4)
          let data := data.drop 4
          if entryType = 0 then
            if data.length < payloadLen then []
            else
              match fromUtf8 (data.take payloadLen) with
              | some payload =>
                ⟨term, .command payload⟩ :: deserializeEntries count (data.drop payloadLen)
              | none => deserializeEntries count (data.drop payloadLen)
          else deserializeEntries count (data.drop payloadLen)

def deserializeLog (data : List UInt8) : List (LogEntry String) :=
  if data.length < 8 then [] else deserializeEntries (ofBytes (data.take 8)) (data.drop 8)

/-- A command whose term and payload length fit their fields. -/
structure LogEntry.Storable (e : LogEntry String) : Prop where
  term : e.term < 256 ^ 8
  command : ∃ payload, e.entryType = .command payload ∧ (utf8Bytes payload).length < 256 ^ 4

/-- Of a command as much of the payload is read as the length field says. -/
theorem deserializeEntries_command (term : Nat) (payload : String) (count : Nat)
    (rest : List UInt8) :
    deserializeEntries (count + 1) (serializeEntry ⟨term, .command payload⟩ ++ rest) =
      let length := (utf8Bytes payload).length % 256 ^ 4
      match fromUtf8 ((utf8Bytes payload ++ rest).take length) with
      | some read =>
        ⟨term % 256 ^ 8, .command read⟩ ::
          deserializeEntries count ((utf8Bytes payload ++ rest).drop length)
      | none => deserializeEntries count ((utf8Bytes payload ++ rest).drop length) := by
  have hbytes : serializeEntry ⟨term, .command payload⟩ ++ rest =
      toBytes 8 term ++
        (0 :: (toBytes 4 (utf8Bytes payload).length ++ (utf8Bytes payload ++ rest))) := by
    simp [serializeEntry]
  have hmod := Nat.mod_le (utf8Bytes payload).length (256 ^ 4)
  rw [hbytes, deserializeEntries, if_neg not_length_lt, ofBytes_take_append_mod, drop_append]
  dsimp only
  rw [if_neg not_length_lt, ofBytes_take_append_mod, drop_append, if_pos rfl,
    if_neg (by rw [List.length_append]; omega)]

theorem deserializeEntries_cons {e : LogEntry String} (h : e.Storable) (count : Nat)
    (rest : List UInt8) :
    deserializeEntries (count + 1) (serializeEntry e ++ rest) =
      e :: deserializeEntries count rest := by
  obtain ⟨term, entryType⟩ := e
  obtain ⟨hterm, payload, hentry, hlen⟩ := h
  dsimp only at hterm hentry
  subst hentry
  rw [deserializeEntries_command, Nat.mod_eq_of_lt hterm, Nat.mod_eq_of_lt hlen]
  dsimp only
  rw [List.take_left, fromUtf8_utf8Bytes, List.drop_left]

/-- What is written to the log file is read back. -/
theorem deserializeLog_serializeLog {log : List (LogEntry String)} (hlen : log.length < 256 ^ 8)
    (h : ∀ e ∈ log, e.Storable) : deserializeLog (serializeLog log) = log := by
  have hentries : ∀ es : List (LogEntry String), (∀ e ∈ es, e.Storable) →
      deserializeEntries es.length (es.flatMap serializeEntry) = es := by
    intro es
    induction es with
    | nil => exact fun _ => rfl
    | cons e es ih =>
      intro hes
      rw [List.flatMap_cons, List.length_cons,
        deserializeEntries_cons (hes e (List.mem_cons_self ..)),
        ih fun x hx => hes x (List.mem_cons_of_mem _ hx)]
  unfold deserializeLog serializeLog
  rw [if_neg not_length_lt, ofBytes_take_append hlen, drop_append, hentries log h]

/-! ## The storage -/

structure SemihostingStorage where
  currentTerm : Nat
  votedFor : Option NodeId
  log : List (LogEntry String)
  snapshot : Option Snapshot
  firstLogIndex : Nat
  found : Disk
  writes : List (File × List UInt8)

namespace SemihostingStorage

/-- The capacity of the `heapless` vector that holds snapshot data. -/
def snapshotCapacity : Nat := 512

/-- The files as they are once everything written so far is on the disk. -/
def disk (s : SemihostingStorage) : Disk := s.writes.foldl Disk.write s.found

/-! ### Loading -/

/-- The term and the vote of the metadata file. -/
def loadMetadata (d : Disk) : Nat × Option NodeId :=
  match d.metadata with
  | none => (0, none)
  | some data =>
    if data.length ≥ 17 then
      (ofBytes (data.take 8),
        if data[8]? ≠ some 0 then some (ofBytes ((data.drop 9).take 8)) else none)
    else (0, none)

def loadLog (d : Disk) : List (LogEntry String) :=
  match d.log with
  | none => []
  | some data => deserializeLog data

/-- The snapshot of the two snapshot files; both have to be there. -/
def loadSnapshotFiles (d : Disk) : Option Snapshot :=
  match d.snapshotMeta with
  | none => none
  | some metaData =>
    if metaData.length ≥ 16 then
      match d.snapshot with
      | none => none
      | some snapshotData =>
        some ⟨⟨ofBytes (metaData.take 8), ofBytes ((metaData.drop 8).take 8)⟩,
          snapshotData.take snapshotCapacity⟩
    else none

/-- `new`, with `load_from_disk`: the first index of the log is taken from the snapshot. -/
def new (d : Disk) : SemihostingStorage where
  currentTerm := (loadMetadata d).1
  votedFor := (loadMetadata d).2
  log := loadLog d
  snapshot := loadSnapshotFiles d
  firstLogIndex :=
    match loadSnapshotFiles d with
    | some snapshot => snapshot.metadata.lastIncludedIndex + 1
    | none => 1
  found := d
  writes := []

/-! ### Persisting -/

def writeFile (s : SemihostingStorage) (file : File) (data : List UInt8) : SemihostingStorage :=
  { s with writes := s.writes ++ [(file, data)] }

def persistMetadata (s : SemihostingStorage) : SemihostingStorage :=
  s.writeFile .metadata
    (toBytes 8 s.currentTerm ++
      match s.votedFor with
      | some vote => 1 :: toBytes 8 vote
      | none => 0 :: List.replicate 8 0)

def persistLog (s : SemihostingStorage) : SemihostingStorage :=
  s.writeFile .log (serializeLog s.log)

/-- Metadata first, data second. -/
def persistSnapshot (s : SemihostingStorage) : SemihostingStorage :=
  match s.snapshot with
  | none => s
  | some snapshot =>
    (s.writeFile .snapshotMeta
      (toBytes 8 snapshot.metadata.lastIncludedIndex ++
        toBytes 8 snapshot.metadata.lastIncludedTerm)).writeFile .snapshot snapshot.data

/-! ### `Storage` -/

def setCurrentTerm (s : SemihostingStorage) (term : Nat) : SemihostingStorage :=
  { s with currentTerm := term }.persistMetadata

def setVotedFor (s : SemihostingStorage) (vote : Option NodeId) : SemihostingStorage :=
  { s with votedFor := vote }.persistMetadata

def snapshotMetadata (s : SemihostingStorage) : Option SnapshotMetadata :=
  s.snapshot.map (·.metadata)

def lastLogIndex (s : SemihostingStorage) : Nat :=
  if s.log.isEmpty then
    match s.snapshot with
    | some snapshot => snapshot.metadata.lastIncludedIndex
    | none => 0
  else s.firstLogIndex + s.log.length - 1

def lastLogTerm (s : SemihostingStorage) : Nat :=
  match s.log.getLast? with
  | some lastEntry => lastEntry.term
  | none =>
    match s.snapshot with
    | some snapshot => snapshot.metadata.lastIncludedTerm
    | none => 0

def getEntry (s : SemihostingStorage) (index : Nat) : Option (LogEntry String) :=
  if index < s.firstLogIndex then none else s.log[index - s.firstLogIndex]?

def getEntries (s : SemihostingStorage) (start stop : Nat) : List (LogEntry String) :=
  if start ≥ stop ∨ start < s.firstLogIndex then []
  else
    let startOffset := start - s.firstLogIndex
    let endOffset := stop - s.firstLogIndex
    if startOffset ≥ s.log.length then []
    else
      let actualEndOffset := min endOffset s.log.length
      ((s.log.take actualEndOffset).drop startOffset).foldl
        (pushWithin (some EmbassyStorage.collectionCapacity)) []

def appendEntries (s : SemihostingStorage) (entries : List (LogEntry String)) :
    SemihostingStorage :=
  { s with log := entries.foldl (fun log entry => log ++ [entry]) s.log }.persistLog

def truncateAfter (s : SemihostingStorage) (index : Nat) : SemihostingStorage :=
  if index < s.firstLogIndex then { s with log := [] }.persistLog
  else { s with log := s.log.take (index - s.firstLogIndex + 1) }.persistLog

def saveSnapshot (s : SemihostingStorage) (snapshot : Snapshot) : SemihostingStorage :=
  { s with snapshot := some snapshot }.persistSnapshot

def getSnapshotChunk (s : SemihostingStorage) (offset maxSize : Nat) : Option SnapshotChunk :=
  match s.snapshot with
  | none => none
  | some snapshot =>
    match chunkAt snapshot.data offset maxSize with
    | none => none
    | some chunkData =>
      some ⟨offset, chunkData, decide (offset + chunkData.length ≥ snapshot.data.length)⟩

def applySnapshotChunk (s : SemihostingStorage) (offset : Nat) (chunk : List UInt8) (done : Bool)
    (lastIncludedIndex : Nat) (lastIncludedTerm : Nat) :
    SemihostingStorage × Except SnapshotError Unit :=
  if offset = 0 ∧ done then
    if chunk.length > snapshotCapacity then (s, .error .corruptData)
    else
      ({ s with
          snapshot := some ⟨⟨lastIncludedIndex, lastIncludedTerm⟩, chunk⟩ }.persistSnapshot,
        .ok ())
  else (s, .error .corruptData)

def discardEntriesBefore (s : SemihostingStorage) (index : Nat) : SemihostingStorage :=
  if index ≤ s.firstLogIndex then s
  else
    let numToDiscard := index - s.firstLogIndex
    let log := if numToDiscard ≥ s.log.length then [] else s.log.drop numToDiscard
    { s with log := log, firstLogIndex := index }.persistLog

instance : Storage SemihostingStorage String where
  currentTerm := currentTerm
  setCurrentTerm := setCurrentTerm
  votedFor := votedFor
  setVotedFor := setVotedFor
  lastLogIndex := lastLogIndex
  lastLogTerm := lastLogTerm
  getEntry := getEntry
  getEntries := getEntries
  appendEntries := appendEntries
  truncateAfter := truncateAfter
  saveSnapshot := saveSnapshot
  loadSnapshot := snapshot
  snapshotMetadata := snapshotMetadata
  getSnapshotChunk := getSnapshotChunk
  applySnapshotChunk := applySnapshotChunk
  discardEntriesBefore := discardEntriesBefore
  firstLogIndex := firstLogIndex

/-! ### What it shows -/

def image (s : SemihostingStorage) : LogImage String :=
  ⟨⟨s.firstLogIndex, s.log⟩, s.snapshot⟩

@[simp] theorem image_persistSnapshot (s : SemihostingStorage) :
    s.persistSnapshot.image = s.image := by
  unfold persistSnapshot
  split <;> rfl

theorem foldl_push {α : Type} (ys : List α) :
    ∀ xs : List α, ys.foldl (fun xs y => xs ++ [y]) xs = xs ++ ys := by
  induction ys with
  | nil => exact fun xs => (List.append_nil xs).symm
  | cons y ys ih =>
    intro xs
    rw [List.foldl_cons, ih, List.append_assoc, List.singleton_append]

theorem image_truncateAfter (s : SemihostingStorage) (i : Nat) :
    (s.truncateAfter i).image = { s.image with log := s.image.log.truncateAfter i } := by
  rw [Window.truncateAfter_eq]
  unfold truncateAfter image
  split <;> rfl

theorem image_discardEntriesBefore (s : SemihostingStorage) (i : Nat) :
    (s.discardEntriesBefore i).image = { s.image with log := s.image.log.discardBefore i } := by
  rw [Window.discardBefore_eq]
  unfold discardEntriesBefore image
  split <;> rfl

theorem image_applySnapshotChunk (s : SemihostingStorage) (o : Nat) (c : List UInt8) (d : Bool)
    (n t : Nat) :
    (d = true ∧ (s.applySnapshotChunk o c d n t).2 = .ok () ∧
      ∃ data, (s.applySnapshotChunk o c d n t).1.image =
        { s.image with snapshot := some ⟨⟨n, t⟩, data⟩ }) ∨
    (d = false ∨ ∃ e, (s.applySnapshotChunk o c d n t).2 = .error e) ∧
      (s.applySnapshotChunk o c d n t).1.image = s.image := by
  unfold applySnapshotChunk
  split
  · rename_i h
    split
    · exact Or.inr ⟨Or.inr ⟨_, rfl⟩, rfl⟩
    · exact Or.inl ⟨h.2, rfl, c, rfl⟩
  · exact Or.inr ⟨Or.inr ⟨_, rfl⟩, rfl⟩

theorem getEntries_stop (s : SemihostingStorage) (start : Nat) :
    s.getEntries start (s.firstLogIndex + s.log.length) =
      fitting (some EmbassyStorage.collectionCapacity) 0 (s.image.log.itemsFrom start) := by
  unfold getEntries Window.itemsFrom image
  dsimp only
  by_cases hfirst : start < s.firstLogIndex
  · rw [if_pos (Or.inr hfirst), if_pos hfirst]
    rfl
  · rw [if_neg hfirst, Nat.add_sub_cancel_left, Nat.min_self, List.take_length,
      foldl_pushWithin_eq]
    split
    · rw [List.drop_eq_nil_of_le (by omega)]
      rfl
    · split
      · rw [List.drop_eq_nil_of_le (by omega)]
        rfl
      · rfl

theorem image_appendEntries (s : SemihostingStorage) (es : List (LogEntry String)) :
    (s.appendEntries es).image = s.image.append none es := by
  unfold appendEntries
  rw [foldl_push]
  rfl

instance : LogStorage SemihostingStorage String where
  capacity := none
  collectionCapacity := some EmbassyStorage.collectionCapacity
  snapshotCapacity := some snapshotCapacity
  collection_le_capacity _ h := (by cases h)
  image := image
  image_setCurrentTerm _ _ := rfl
  image_setVotedFor _ _ := rfl
  image_appendEntries := image_appendEntries
  image_truncateAfter := image_truncateAfter
  image_saveSnapshot _ _ := rfl
  image_discardEntriesBefore := image_discardEntriesBefore
  image_applySnapshotChunk := image_applySnapshotChunk
  firstLogIndex_eq _ := rfl
  loadSnapshot_eq _ := rfl
  snapshotMetadata_eq _ := rfl
  getEntry_eq _ _ := rfl
  lastLogIndex_eq s h := by
    have hfirst : s.firstLogIndex = s.image.snapIndex + 1 := h
    show s.lastLogIndex = s.firstLogIndex + s.log.length - 1
    unfold lastLogIndex
    cases s.log with
    | nil =>
      rw [hfirst]
      unfold LogImage.snapIndex image
      cases s.snapshot <;> rfl
    | cons e es => rfl
  lastLogTerm_eq s := by
    show s.lastLogTerm = s.image.lastLogTerm
    unfold lastLogTerm LogImage.lastLogTerm image
    cases s.log.getLast? with
    | some e => rfl
    | none => cases s.snapshot <;> rfl
  getEntries_eq := getEntries_stop
  image_wholeSnapshot s c n t h := by
    have hfits : ¬ c.length > SemihostingStorage.snapshotCapacity := Nat.not_lt.mpr (h _ rfl)
    show (s.applySnapshotChunk 0 c true n t).2 = .ok () ∧
      (s.applySnapshotChunk 0 c true n t).1.image = _
    unfold applySnapshotChunk
    rw [if_pos ⟨rfl, rfl⟩, if_neg hfits]
    exact ⟨rfl, rfl⟩

instance : LawfulStorage SemihostingStorage String where
  currentTerm_setCurrentTerm _ _ := rfl
  votedFor_setCurrentTerm _ _ := rfl
  currentTerm_setVotedFor _ _ := rfl
  votedFor_setVotedFor _ _ := rfl
  cells_appendEntries _ _ := ⟨rfl, rfl⟩
  cells_truncateAfter s i := by
    show (s.truncateAfter i).currentTerm = _ ∧ (s.truncateAfter i).votedFor = _
    unfold truncateAfter
    split <;> exact ⟨rfl, rfl⟩
  cells_saveSnapshot _ _ := ⟨rfl, rfl⟩
  cells_applySnapshotChunk s o c d n t := by
    show (s.applySnapshotChunk o c d n t).1.currentTerm = _ ∧
      (s.applySnapshotChunk o c d n t).1.votedFor = _
    unfold applySnapshotChunk
    split
    · split <;> exact ⟨rfl, rfl⟩
    · exact ⟨rfl, rfl⟩
  cells_discardEntriesBefore s i := by
    show (s.discardEntriesBefore i).currentTerm = _ ∧ (s.discardEntriesBefore i).votedFor = _
    unfold discardEntriesBefore
    split <;> exact ⟨rfl, rfl⟩

/-- Whatever the files hold, a storage read from them begins its log behind its snapshot. -/
theorem formed_new (d : Disk) : LogStorage.Formed (new d) := by
  show (new d).firstLogIndex = (new d).image.snapIndex + 1
  unfold new image LogImage.snapIndex
  dsimp only
  split
  · rename_i x hx
    rw [hx]
    rfl
  · rename_i hx
    rw [hx]
    rfl

end SemihostingStorage

end MetalRaft
