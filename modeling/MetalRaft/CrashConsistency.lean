import MetalRaft.LogFile
import MetalRaft.StorageCalls

/-!
# Crashes between two file writes

A snapshot step writes three files: the metadata of the snapshot, its data and the log.  The log
file does not say where the log begins; a reload takes that from the metadata file.

* `Durable` — everything that a reload needs is on the disk; every complete call keeps it.
* `reopened` — what a reload finds when the crash came after `k` writes of a call.
* `CrashConsistent` — nothing is found at an index where it was not, and the metadata and the data
  of the snapshot belong together.
* `Untorn`, `crash_consistent_iff` — the crash points at which this holds.
-/

set_option autoImplicit false

namespace MetalRaft

open Transition LittleEndian

namespace SemihostingStorage

variable {s : SemihostingStorage} {call : StorageCall String} {k : Nat}

/-! ## What a reload reads -/

/-- A number of 64 bits. -/
def IsU64 (n : Nat) : Prop := n < 256 ^ 8

instance (n : Nat) : Decidable (IsU64 n) := inferInstanceAs (Decidable (_ < _))

instance : (e : LogEntry String) → Decidable e.Storable
  | ⟨term, .command payload⟩ =>
    decidable_of_iff (term < 256 ^ 8 ∧ (utf8Bytes payload).length < 256 ^ 4)
      ⟨fun h => ⟨h.1, payload, rfl, h.2⟩, fun h => ⟨h.term, by
        obtain ⟨_, heq, hlen⟩ := h.command
        cases heq
        exact hlen⟩⟩
  | ⟨_, .configChange _⟩ => isFalse fun h => by
    obtain ⟨_, heq, _⟩ := h.command
    cases heq

/-- The values of a call are those of its types: terms and indexes of 64 bits, commands of less
than 2^32 bytes, 512 bytes of snapshot data. -/
def Recordable (s : SemihostingStorage) : StorageCall String → Prop
  | .appendEntries es => (∀ e ∈ es, e.Storable) ∧ IsU64 (s.log.length + es.length)
  | .saveSnapshot x =>
    IsU64 x.metadata.lastIncludedIndex ∧ IsU64 x.metadata.lastIncludedTerm ∧
      x.data.length ≤ snapshotCapacity
  | .installSnapshot data index term =>
    IsU64 index ∧ IsU64 term ∧ data.length ≤ snapshotCapacity
  | _ => True

instance (s : SemihostingStorage) : (call : StorageCall String) → Decidable (Recordable s call)
  | .appendEntries _ => inferInstanceAs (Decidable ((∀ _ ∈ _, LogEntry.Storable _) ∧ _))
  | .saveSnapshot _ | .installSnapshot _ _ _ => inferInstanceAs (Decidable (_ ∧ _ ∧ _))
  | .setCurrentTerm _ | .setVotedFor _ | .truncateAfter _ => isTrue trivial

def Recorded (s : SemihostingStorage) (call : StorageCall String) : Prop :=
  call.Issued s ∧ Recordable s call

instance (s : SemihostingStorage) (call : StorageCall String) : Decidable (Recorded s call) :=
  inferInstanceAs (Decidable (_ ∧ _))

/-- The bytes of a snapshot's metadata file. -/
def metaBytes (x : Snapshot) : List UInt8 :=
  toBytes 8 x.metadata.lastIncludedIndex ++ toBytes 8 x.metadata.lastIncludedTerm

theorem loadSnapshotFiles_metaBytes {x : Snapshot} (hindex : IsU64 x.metadata.lastIncludedIndex)
    (hterm : IsU64 x.metadata.lastIncludedTerm) (d : Disk) :
    loadSnapshotFiles { d with snapshotMeta := some (metaBytes x) } =
      d.snapshot.map fun data => ⟨x.metadata, data.take snapshotCapacity⟩ := by
  have hlen : (metaBytes x).length ≥ 16 := by
    simp [metaBytes]
  unfold loadSnapshotFiles
  dsimp only
  rw [if_pos hlen]
  cases d.snapshot with
  | none => rfl
  | some data =>
    have hfirst : ofBytes ((metaBytes x).take 8) = x.metadata.lastIncludedIndex :=
      ofBytes_take_append hindex
    have hsecond : ofBytes (((metaBytes x).drop 8).take 8) = x.metadata.lastIncludedTerm := by
      unfold metaBytes
      rw [drop_append, List.take_of_length_le (length_toBytes 8 _).le, ofBytes_toBytes hterm]
    dsimp only
    rw [hfirst, hsecond]
    rfl

/-- Everything that a reload needs is on the disk. -/
structure Durable (s : SemihostingStorage) : Prop where
  log : loadLog s.disk = s.log
  snapshot : loadSnapshotFiles s.disk = s.snapshot
  formed : LogStorage.Formed s
  storable : ∀ e ∈ s.log, e.Storable
  counted : IsU64 s.log.length

/-- A reload shows what the files say. -/
theorem image_new_of {d : Disk} {log : List (LogEntry String)} {x : Option Snapshot}
    (hlog : loadLog d = log) (hx : loadSnapshotFiles d = x) :
    (new d).image = ⟨⟨(x.map (·.metadata.lastIncludedIndex)).getD 0 + 1, log⟩, x⟩ := by
  subst hlog hx
  unfold new image
  cases loadSnapshotFiles d <;> rfl

theorem image_reload (h : s.Durable) : (new s.disk).image = s.image := by
  rw [image_new_of h.log h.snapshot]
  have hfirst : s.firstLogIndex = s.image.snapIndex + 1 := h.formed
  unfold image
  rw [hfirst]
  rfl

/-! ## Complete calls -/

@[simp] theorem disk_writeFile (s : SemihostingStorage) (file : File) (data : List UInt8) :
    (s.writeFile file data).disk = s.disk.write (file, data) := by
  simp [disk, writeFile]

theorem durable_metadata (h : s.Durable) (s' : SemihostingStorage) {data : List UInt8}
    (himage : s'.image = s.image) (hdisk : s'.disk = s.disk.write (.metadata, data)) :
    s'.Durable := by
  have hlog : s'.log = s.log := congrArg (fun v => v.log.items) himage
  have hsnapshot : s'.snapshot = s.snapshot := congrArg LogImage.snapshot himage
  refine ⟨?_, ?_, LogStorage.formed_of_image h.formed himage, ?_, ?_⟩
  · rw [hdisk, hlog]
    exact h.log
  · rw [hdisk, hsnapshot]
    exact h.snapshot
  · rw [hlog]
    exact h.storable
  · rw [hlog]
    exact h.counted

/-- The log file is written anew. -/
theorem durable_log {log : List (LogEntry String)} {first : Nat} (h : s.Durable)
    (hfirst : first = s.firstLogIndex) (hstorable : ∀ e ∈ log, e.Storable)
    (hcount : IsU64 log.length) :
    { s with log := log, firstLogIndex := first }.persistLog.Durable := by
  subst hfirst
  refine ⟨?_, ?_, h.formed, hstorable, hcount⟩
  · unfold persistLog
    rw [disk_writeFile]
    exact deserializeLog_serializeLog hcount hstorable
  · unfold persistLog
    rw [disk_writeFile]
    exact h.snapshot

/-- The call takes or installs snapshot `x`. -/
def step (s : SemihostingStorage) (x : Snapshot) : SemihostingStorage :=
  (s.saveSnapshot x).discardEntriesBefore (x.metadata.lastIncludedIndex + 1)

/-- Snapshot `x` fits its files and reaches beyond the one there is. -/
structure Fresh (s : SemihostingStorage) (x : Snapshot) : Prop where
  index : IsU64 x.metadata.lastIncludedIndex
  term : IsU64 x.metadata.lastIncludedTerm
  data : x.data.length ≤ snapshotCapacity
  covers : s.image.snapIndex ≤ x.metadata.lastIncludedIndex
  beyond : ∀ y ∈ s.snapshot, y.metadata.lastIncludedIndex < x.metadata.lastIncludedIndex

theorem image_step (s : SemihostingStorage) (x : Snapshot) :
    (s.step x).image = s.image.compactTo x := by
  unfold step
  rw [image_discardEntriesBefore]
  show ({ s with snapshot := some x }.persistSnapshot.image).compactTo x = _
  rw [image_persistSnapshot]
  rfl

/-- The writes of a snapshot step: the metadata, the data, and the log where it gets shorter. -/
theorem writes_step (s : SemihostingStorage) (x : Snapshot) :
    (s.step x).writes = s.writes ++ ((.snapshotMeta, metaBytes x) :: (.snapshot, x.data) ::
      if x.metadata.lastIncludedIndex + 1 ≤ s.firstLogIndex then []
      else [(.log, serializeLog (s.step x).log)]) := by
  by_cases h : x.metadata.lastIncludedIndex + 1 ≤ s.firstLogIndex <;>
    simp [step, discardEntriesBefore, saveSnapshot, persistSnapshot, persistLog, writeFile,
      metaBytes, h]

theorem found_step (s : SemihostingStorage) (x : Snapshot) : (s.step x).found = s.found := by
  by_cases h : x.metadata.lastIncludedIndex + 1 ≤ s.firstLogIndex <;>
    simp [step, discardEntriesBefore, saveSnapshot, persistSnapshot, persistLog, writeFile, h]

/-- The files after both snapshot files are written. -/
def snapshotDisk (d : Disk) (x : Snapshot) : Disk :=
  { d with snapshotMeta := some (metaBytes x), snapshot := some x.data }

theorem loadSnapshotFiles_snapshotDisk {x : Snapshot} (h : s.Fresh x) (d : Disk) :
    loadSnapshotFiles (snapshotDisk d x) = some x := by
  have hload := loadSnapshotFiles_metaBytes h.index h.term { d with snapshot := some x.data }
  refine hload.trans ?_
  show some (Snapshot.mk x.metadata (x.data.take snapshotCapacity)) = some x
  rw [List.take_of_length_le h.data]

theorem disk_step (s : SemihostingStorage) (x : Snapshot) :
    (s.step x).disk =
      if x.metadata.lastIncludedIndex + 1 ≤ s.firstLogIndex then snapshotDisk s.disk x
      else { snapshotDisk s.disk x with log := some (serializeLog (s.step x).log) } := by
  unfold disk
  rw [writes_step, found_step, List.foldl_append]
  split <;> rfl

theorem log_step (s : SemihostingStorage) (x : Snapshot) :
    (s.step x).log = s.log.drop (x.metadata.lastIncludedIndex + 1 - s.firstLogIndex) :=
  congrArg (fun v => v.log.items) (image_step s x)

theorem durable_step {x : Snapshot} (h : s.Durable) (hx : s.Fresh x) : (s.step x).Durable := by
  have hstorable : ∀ e ∈ (s.step x).log, e.Storable := by
    rw [log_step]
    exact fun e he => h.storable e (List.mem_of_mem_drop he)
  have hcount : IsU64 (s.step x).log.length := by
    rw [log_step, List.length_drop]
    exact Nat.lt_of_le_of_lt (Nat.sub_le _ _) h.counted
  refine ⟨?_, ?_, ?_, hstorable, hcount⟩
  · rw [disk_step]
    split
    · rename_i hle
      rw [log_step, Nat.sub_eq_zero_of_le hle]
      exact h.log
    · exact deserializeLog_serializeLog hcount hstorable
  · have hsnapshot : (s.step x).snapshot = some x := congrArg LogImage.snapshot (image_step s x)
    rw [hsnapshot, disk_step]
    split
    · exact loadSnapshotFiles_snapshotDisk hx s.disk
    · exact loadSnapshotFiles_snapshotDisk hx s.disk
  · show (s.step x).image.Formed
    rw [image_step]
    exact LogImage.Formed.compactTo h.formed hx.covers

/-- The snapshot that a call brings. -/
def newSnapshot : StorageCall String → Option Snapshot
  | .saveSnapshot x => some x
  | .installSnapshot data index term => some ⟨⟨index, term⟩, data⟩
  | _ => none

theorem snapIndex_of_snapshot {x : Snapshot} (hx : s.snapshot = some x) :
    s.image.snapIndex = x.metadata.lastIncludedIndex := by
  unfold LogImage.snapIndex image
  rw [hx]
  rfl

theorem fresh_of_recorded {x : Snapshot} (h : s.Durable) (hcall : Recorded s call)
    (hx : newSnapshot call = some x) : s.Fresh x ∧ call.on s = s.step x := by
  obtain ⟨hissued, hrecord⟩ := hcall
  cases call with
  | saveSnapshot y =>
    cases hx
    obtain ⟨e, he⟩ := Option.isSome_iff_exists.mp hissued
    have hlt := (LogStorage.bounds_of_getEntry h.formed he).1
    refine ⟨⟨hrecord.1, hrecord.2.1, hrecord.2.2, Nat.le_of_lt hlt, fun z hz => ?_⟩, rfl⟩
    rw [← snapIndex_of_snapshot hz]
    exact hlt
  | installSnapshot data index term =>
    cases hx
    refine ⟨⟨hrecord.1, hrecord.2.1, hrecord.2.2, snapIndex_le_of_issued hissued, fun z hz => ?_⟩,
      ?_⟩
    · refine hissued z.metadata ?_
      show s.snapshot.map (·.metadata) = some z.metadata
      rw [hz]
      rfl
    · have hstored : s.applySnapshotChunk 0 data true index term =
          (s.saveSnapshot ⟨⟨index, term⟩, data⟩, .ok ()) := by
        unfold applySnapshotChunk
        rw [if_pos ⟨rfl, rfl⟩, if_neg (Nat.not_lt.mpr hrecord.2.2)]
        rfl
      show (s.applySnapshotChunk 0 data true index term).1.discardEntriesBefore (index + 1) = _
      rw [hstored]
      rfl
  | setCurrentTerm | setVotedFor | appendEntries | truncateAfter => cases hx

/-- Everything but a snapshot step writes one file. -/
theorem one_write (hx : newSnapshot call = none) :
    ∃ w, (call.on s).writes = s.writes ++ [w] ∧ (call.on s).found = s.found := by
  cases call with
  | saveSnapshot | installSnapshot => cases hx
  | truncateAfter i =>
    show ∃ w, (s.truncateAfter i).writes = s.writes ++ [w] ∧ (s.truncateAfter i).found = s.found
    unfold truncateAfter
    split <;> exact ⟨_, rfl, rfl⟩
  | setCurrentTerm | setVotedFor | appendEntries => exact ⟨_, rfl, rfl⟩

/-- A complete call leaves everything that a reload needs on the disk. -/
theorem durable_on (h : s.Durable) (hcall : Recorded s call) : (call.on s).Durable := by
  cases hx : newSnapshot call with
  | some x =>
    obtain ⟨hfresh, hstep⟩ := fresh_of_recorded h hcall hx
    rw [hstep]
    exact durable_step h hfresh
  | none =>
    cases call with
    | saveSnapshot | installSnapshot => cases hx
    | setCurrentTerm term =>
      exact durable_metadata h (s.setCurrentTerm term) rfl (disk_writeFile _ _ _)
    | setVotedFor vote =>
      exact durable_metadata h (s.setVotedFor vote) rfl (disk_writeFile _ _ _)
    | appendEntries es =>
      obtain ⟨hstorable, hcount⟩ := hcall.2
      have happend : (StorageCall.appendEntries es).on s =
          { s with log := s.log ++ es, firstLogIndex := s.firstLogIndex }.persistLog := by
        show s.appendEntries es = _
        unfold appendEntries
        rw [foldl_push]
      rw [happend]
      refine durable_log h rfl (fun e he => ?_) (by rw [List.length_append]; exact hcount)
      rcases List.mem_append.mp he with he | he
      · exact h.storable e he
      · exact hstorable e he
    | truncateAfter i =>
      show (s.truncateAfter i).Durable
      unfold truncateAfter
      split
      · exact durable_log h rfl (fun _ he => (by cases he)) (by decide)
      · refine durable_log h rfl (fun e he => h.storable e (List.mem_of_mem_take he)) ?_
        rw [List.length_take]
        exact Nat.lt_of_le_of_lt (Nat.min_le_right _ _) h.counted

/-! ## Crashes -/

/-- A reload after a crash that came when `k` files of a call were written. -/
def reopened (s : SemihostingStorage) (call : StorageCall String) (k : Nat) :
    SemihostingStorage :=
  new (((call.on s).writes.take (s.writes.length + k)).foldl Disk.write s.found)

/-- What is found at an index was stored there before the crash, and the snapshot found is one
that was stored. -/
structure CrashConsistent (s : SemihostingStorage) (call : StorageCall String) (k : Nat) :
    Prop where
  entries : ∀ i e, (reopened s call k).getEntry i = some e →
    s.getEntry i = some e ∨ (call.on s).getEntry i = some e
  snapshot : ∀ x, (reopened s call k).snapshot = some x →
    s.snapshot = some x ∨ (call.on s).snapshot = some x

/-- The crash does not come between the metadata and the log of a snapshot step; it may come after
the metadata where there is no data file yet, and before the log where the log has nothing to lose
and the data file fits the metadata. -/
def UntornBy (s : SemihostingStorage) (x : Snapshot) (k : Nat) : Prop :=
  k = 0 ∨ 3 ≤ k ∨ (k = 1 ∧ s.disk.snapshot = none) ∨
    (k = 2 ∨ s.disk.snapshot.map (·.take snapshotCapacity) = some x.data) ∧
      (s.log = [] ∨ x.metadata.lastIncludedIndex + 1 = s.firstLogIndex)

def Untorn (s : SemihostingStorage) (call : StorageCall String) (k : Nat) : Prop :=
  ∀ x, newSnapshot call = some x → s.UntornBy x k

theorem reopened_eq {ws : List (File × List UInt8)} (hwrites : (call.on s).writes = s.writes ++ ws)
    (k : Nat) : reopened s call k = new ((ws.take k).foldl Disk.write s.disk) := by
  unfold reopened disk
  rw [hwrites, List.take_length_add_append, List.foldl_append]

theorem consistent_of_image_before (h : (reopened s call k).image = s.image) :
    CrashConsistent s call k := by
  refine ⟨fun i e he => Or.inl ?_, fun x hx => Or.inl ?_⟩
  · rw [← he]
    exact (congrArg (fun v => v.log.get? i) h).symm
  · rw [← hx]
    exact (congrArg LogImage.snapshot h).symm

theorem consistent_of_image_after (h : (reopened s call k).image = (call.on s).image) :
    CrashConsistent s call k := by
  refine ⟨fun i e he => Or.inr ?_, fun x hx => Or.inr ?_⟩
  · rw [← he]
    exact (congrArg (fun v => v.log.get? i) h).symm
  · rw [← hx]
    exact (congrArg LogImage.snapshot h).symm

/-- A step leaves nothing at an index where nothing was before. -/
theorem getEntry_step {x : Snapshot} {i : Nat} {e : LogEntry String}
    (h : (s.step x).getEntry i = some e) : s.getEntry i = some e := by
  have hget : (s.step x).getEntry i =
      (s.image.log.discardBefore (x.metadata.lastIncludedIndex + 1)).get? i :=
    congrArg (fun v => v.log.get? i) (image_step s x)
  rw [hget, Window.get?_discardBefore] at h
  split at h
  · cases h
  · exact h

/-- The old log behind the new snapshot: all its entries have moved, unless there is none. -/
theorem moved_entries_iff {x : Snapshot} (h : s.Durable) (hx : s.Fresh x) :
    (∀ i e, (Window.mk (x.metadata.lastIncludedIndex + 1) s.log).get? i = some e →
      s.getEntry i = some e ∨ (s.step x).getEntry i = some e) ↔
    s.log = [] ∨ x.metadata.lastIncludedIndex + 1 = s.firstLogIndex := by
  have hfirst : s.firstLogIndex = s.image.snapIndex + 1 := h.formed
  have hcovers := hx.covers
  constructor
  · intro hentries
    by_contra hnot
    obtain ⟨hne, hmoved⟩ := not_or.mp hnot
    have hlen : 0 < s.log.length := List.length_pos_of_ne_nil hne
    -- the last entry of the old log is found at an index that the old log did not reach
    obtain ⟨e, he⟩ := (Window.mk (x.metadata.lastIncludedIndex + 1) s.log).exists_get?
      (i := x.metadata.lastIncludedIndex + s.log.length) (by dsimp only; omega)
      (by unfold Window.stop; dsimp only; omega)
    have hold : s.getEntry (x.metadata.lastIncludedIndex + s.log.length) = some e := by
      rcases hentries _ e he with hold | hnew
      · exact hold
      · exact getEntry_step hnew
    have hbound : x.metadata.lastIncludedIndex + s.log.length < s.image.log.stop :=
      (Window.bounds_of_get? (w := s.image.log) hold).2
    have hstop : s.image.log.stop = s.firstLogIndex + s.log.length := rfl
    omega
  · rintro (hnil | heq) i e he
    · rw [hnil] at he
      unfold Window.get? at he
      split at he <;> cases he
    · rw [heq] at he
      exact Or.inl he

theorem consistent_iff_of_snapshot {x y : Snapshot} (h : s.Durable) (hx : s.Fresh x)
    (hcall : call.on s = s.step x)
    (himage : (reopened s call k).image = ⟨⟨x.metadata.lastIncludedIndex + 1, s.log⟩, some y⟩)
    (hy : y.metadata = x.metadata) :
    CrashConsistent s call k ↔
      y.data = x.data ∧ (s.log = [] ∨ x.metadata.lastIncludedIndex + 1 = s.firstLogIndex) := by
  have hget : ∀ i, (reopened s call k).getEntry i =
      (Window.mk (x.metadata.lastIncludedIndex + 1) s.log).get? i :=
    fun i => congrArg (fun v => v.log.get? i) himage
  have hsnapshot : (reopened s call k).snapshot = some y := congrArg LogImage.snapshot himage
  have hafter : (s.step x).snapshot = some x := congrArg LogImage.snapshot (image_step s x)
  constructor
  · intro hc
    refine ⟨?_, (moved_entries_iff h hx).mp fun i e he => ?_⟩
    · rcases hc.snapshot y hsnapshot with hbefore | hnow
      · have hlt := hx.beyond y hbefore
        rw [hy] at hlt
        exact absurd hlt (Nat.lt_irrefl _)
      · rw [hcall, hafter] at hnow
        cases hnow
        rfl
    · have hc := hc.entries i e ((hget i).trans he)
      rwa [hcall] at hc
  · rintro ⟨hdata, hlog⟩
    have hxy : y = x := by
      cases x
      cases y
      simp only at hy hdata
      rw [hy, hdata]
    refine ⟨fun i e he => ?_, fun z hz => Or.inr ?_⟩
    · rw [hcall]
      exact (moved_entries_iff h hx).mpr hlog i e ((hget i).symm.trans he)
    · rw [hsnapshot] at hz
      cases hz
      rw [hcall, hafter, hxy]

/-- All files of a call are written. -/
theorem consistent_of_complete {ws : List (File × List UInt8)} (h : s.Durable)
    (hcall : Recorded s call) (hwrites : (call.on s).writes = s.writes ++ ws)
    (hfound : (call.on s).found = s.found) (hk : ws.length ≤ k) : CrashConsistent s call k := by
  refine consistent_of_image_after ?_
  have hdisk : (ws.take k).foldl Disk.write s.disk = (call.on s).disk := by
    rw [List.take_of_length_le hk]
    unfold disk
    rw [hwrites, hfound, List.foldl_append]
  rw [reopened_eq hwrites, hdisk]
  exact image_reload (durable_on h hcall)

/-- Only the metadata file of a snapshot step is written. -/
theorem consistent_after_metadata {x : Snapshot} (h : s.Durable) (hx : s.Fresh x)
    (hcall : call.on s = s.step x) : CrashConsistent s call 1 ↔ s.UntornBy x 1 := by
  have hwrites : (call.on s).writes = _ := hcall ▸ writes_step s x
  have heq := reopened_eq hwrites 1
  have hload := loadSnapshotFiles_metaBytes hx.index hx.term s.disk
  cases hfile : s.disk.snapshot with
  | none =>
    have hnone : s.snapshot = none := by
      rw [← h.snapshot]
      unfold loadSnapshotFiles
      rw [hfile]
      split
      · rfl
      · split <;> rfl
    refine ⟨fun _ => Or.inr (Or.inr (Or.inl ⟨rfl, hfile⟩)), fun _ => ?_⟩
    refine consistent_of_image_before ?_
    have himage := image_new_of (d := { s.disk with snapshotMeta := some (metaBytes x) }) h.log
      (hload.trans (by rw [hfile]; rfl : _ = none))
    rw [heq]
    refine himage.trans ?_
    have hformed : s.firstLogIndex = s.image.snapIndex + 1 := h.formed
    unfold LogImage.snapIndex at hformed
    unfold image at hformed ⊢
    rw [hformed, hnone]
  | some data =>
    have himage : (reopened s call 1).image =
        ⟨⟨x.metadata.lastIncludedIndex + 1, s.log⟩,
          some ⟨x.metadata, data.take snapshotCapacity⟩⟩ := by
      rw [heq]
      exact image_new_of (d := { s.disk with snapshotMeta := some (metaBytes x) }) h.log
        (hload.trans (by rw [hfile]))
    rw [consistent_iff_of_snapshot h hx hcall himage rfl]
    unfold UntornBy
    rw [hfile]
    simp

/-- Both snapshot files are written, the log file is not. -/
theorem consistent_before_log {x : Snapshot} (h : s.Durable) (hx : s.Fresh x)
    (hcall : call.on s = s.step x) : CrashConsistent s call 2 ↔ s.UntornBy x 2 := by
  have hwrites : (call.on s).writes = _ := hcall ▸ writes_step s x
  have himage : (reopened s call 2).image =
      ⟨⟨x.metadata.lastIncludedIndex + 1, s.log⟩, some x⟩ := by
    rw [reopened_eq hwrites]
    exact image_new_of (d := snapshotDisk s.disk x) h.log
      (loadSnapshotFiles_snapshotDisk hx s.disk)
  rw [consistent_iff_of_snapshot h hx hcall himage rfl]
  unfold UntornBy
  simp

theorem consistent_iff_untorn (h : s.Durable) (hcall : Recorded s call) :
    CrashConsistent s call k ↔ Untorn s call k := by
  cases hx : newSnapshot call with
  | none =>
    obtain ⟨w, hwrites, hfound⟩ := one_write (s := s) hx
    have huntorn : Untorn s call k := fun x hsome => (by rw [hx] at hsome; cases hsome)
    refine ⟨fun _ => huntorn, fun _ => ?_⟩
    cases k with
    | zero => exact consistent_of_image_before (by
        rw [reopened_eq hwrites]
        exact image_reload h)
    | succ k => exact consistent_of_complete h hcall hwrites hfound (by simp)
  | some x =>
    obtain ⟨hfresh, hstep⟩ := fresh_of_recorded h hcall hx
    have huntorn : Untorn s call k ↔ s.UntornBy x k :=
      ⟨fun hu => hu x hx, fun hu y hy => (by rw [hx] at hy; cases hy; exact hu)⟩
    have hwrites : (call.on s).writes = _ := hstep ▸ writes_step s x
    have hfound : (call.on s).found = s.found := hstep ▸ found_step s x
    rw [huntorn]
    match k with
    | 0 =>
      exact ⟨fun _ => Or.inl rfl, fun _ => consistent_of_image_before (by
        rw [reopened_eq hwrites]
        exact image_reload h)⟩
    | 1 => exact consistent_after_metadata h hfresh hstep
    | 2 => exact consistent_before_log h hfresh hstep
    | k + 3 =>
      refine ⟨fun _ => Or.inr (Or.inl (by omega)), fun _ => ?_⟩
      exact consistent_of_complete h hcall hwrites hfound (by split <;> simp)

/-! ## Sequences of calls -/

theorem mem_deserializeEntries {e : LogEntry String} :
    ∀ {count : Nat} {data : List UInt8}, e ∈ deserializeEntries count data → e.Storable
  | 0, _, h => by cases h
  | count + 1, data, h => by
    have hread : ∀ (w : Nat) (bs : List UInt8), ofBytes (bs.take w) < 256 ^ w := by
      intro w bs
      refine Nat.lt_of_lt_of_le (ofBytes_lt _) (Nat.pow_le_pow_right (by decide) ?_)
      exact List.length_take_le w bs
    unfold deserializeEntries at h
    split at h
    · cases h
    · split at h
      · cases h
      · rename_i entryType rest hrest
        split at h
        · cases h
        · dsimp only at h
          split at h
          · split at h
            · cases h
            · rename_i hlong
              split at h
              · rename_i payload hpayload
                rcases List.mem_cons.mp h with rfl | h
                · refine ⟨hread 8 data, payload, rfl, ?_⟩
                  rw [utf8Bytes_of_fromUtf8 hpayload]
                  exact Nat.lt_of_le_of_lt (List.length_take_le _ _) (hread 4 rest)
                · exact mem_deserializeEntries h
              · exact mem_deserializeEntries h
          · exact mem_deserializeEntries h

/-- A storage that has just been opened, whatever the files hold. -/
theorem durable_new (d : Disk) : (new d).Durable := by
  have hcases : (new d).log = [] ∨ ∃ data, (new d).log =
      deserializeEntries (ofBytes (List.take 8 data)) (List.drop 8 data) := by
    show loadLog d = [] ∨ _
    unfold loadLog
    split
    · exact Or.inl rfl
    · rename_i data hdata
      unfold deserializeLog
      split
      · exact Or.inl rfl
      · refine Or.inr ⟨data, ?_⟩
        show loadLog d = _
        unfold loadLog deserializeLog
        rw [hdata]
        dsimp only
        rw [if_neg ‹_›]
  refine ⟨rfl, rfl, formed_new d, ?_, ?_⟩
  · intro e he
    rcases hcases with hnil | ⟨data, hdata⟩
    · rw [hnil] at he
      cases he
    · rw [hdata] at he
      exact mem_deserializeEntries he
  · rcases hcases with hnil | ⟨data, hdata⟩
    · rw [hnil]
      decide
    · rw [hdata]
      refine Nat.lt_of_le_of_lt (length_deserializeEntries_le _ _) ?_
      refine Nat.lt_of_lt_of_le (ofBytes_lt _) (Nat.pow_le_pow_right (by decide) ?_)
      exact List.length_take_le 8 data

/-- **The crash points that a storage survives**, after any sequence of calls on any files: those
that do not lie between the metadata file and the log file of a snapshot step, apart from the
harmless ones that `UntornBy` names. -/
theorem crash_consistent_iff {d : Disk} {calls : List (StorageCall String)}
    {call : StorageCall String} {k : Nat}
    (h : Admitted StorageCall.on Recorded (new d) (calls ++ [call])) :
    CrashConsistent (calls.foldl StorageCall.on (new d)) call k ↔
      Untorn (calls.foldl StorageCall.on (new d)) call k := by
  obtain ⟨hcalls, hcall⟩ := Admitted.snoc.mp h
  have hdurable : (calls.foldl StorageCall.on (new d)).Durable :=
    (hcalls.run calls).invariant (fun _ _ hs hok => durable_on hs hok) (durable_new d)
  exact consistent_iff_untorn hdurable hcall

/-- Two commands, of which the first is then compacted. -/
def compactedCalls : List (StorageCall String) :=
  [.appendEntries [⟨1, .command "SET a=1"⟩, ⟨1, .command "SET b=2"⟩]]

def compaction : StorageCall String := .saveSnapshot ⟨⟨1, 1⟩, [7]⟩

theorem crash_consistent_iff_sample :
    CrashConsistent (compactedCalls.foldl StorageCall.on (new .empty)) compaction 1 ↔
      Untorn (compactedCalls.foldl StorageCall.on (new .empty)) compaction 1 :=
  crash_consistent_iff (by decide +kernel)

/-- A crash between the snapshot files and the log file: the reload finds the first command at the
index of the second. -/
theorem crash_moves_entries :
    Admitted StorageCall.on Recorded (new .empty) (compactedCalls ++ [compaction]) ∧
      ¬ CrashConsistent (compactedCalls.foldl StorageCall.on (new .empty)) compaction 2 := by
  refine ⟨by decide +kernel, fun h => ?_⟩
  have hfound := h.entries 2 ⟨1, .command "SET a=1"⟩ (by decide +kernel)
  revert hfound
  decide +kernel

end SemihostingStorage

end MetalRaft
