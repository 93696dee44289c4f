import MetalRaft.EmbassyStateMachine
import MetalRaft.Lifetime

/-!
# Installing a snapshot

* `SuffixRule` — above an entry of the snapshot's last index and term the log stays, and otherwise
  it goes; `suffix_kept_iff` says when an installation follows it.
* `Intact` — a node that an installation has left as it was; `failed_install_intact_iff` says which
  failures leave it so, at a restart too.
-/

set_option autoImplicit false

namespace MetalRaft

open LogReplicationManager

variable {P S SM : Type} [Storage S P] [LogStorage S P]

section

variable {s s' : S} {i : Nat} {e : LogEntry P}

theorem alreadyCovered_of_image (h : LogStorage.image s' = LogStorage.image s) (i : Nat) :
    alreadyCovered i s' = alreadyCovered i s := by
  simp only [alreadyCovered, LogStorage.snapshotMetadata_eq, h]

/-- Nothing is held beyond the last index. -/
theorem getEntry_beyond (h : LogStorage.Formed s) (hi : Storage.lastLogIndex s < i) :
    Storage.getEntry s i = none := by
  cases he : Storage.getEntry s i with
  | none => rfl
  | some e =>
    have := LogStorage.bounds_of_getEntry h he
    omega

end

/-! ## What lies above the snapshot -/

/-- What a log keeps when a snapshot up to `(index, term)` is installed: the entries above its own
entry with that index and term, and nothing if it has no such entry. -/
def SuffixRule (s s' : S) (index term : Nat) : Prop :=
  if (Storage.getEntry s index).map (·.term) = some term then
    ∀ j, index < j → Storage.getEntry s' j = Storage.getEntry s j
  else
    (∀ j, Storage.getEntry s' j = none) ∧ Storage.lastLogIndex s' = index ∧
      Storage.lastLogTerm s' = term

/-- An installation follows the rule unless it leaves entries above one of another term. -/
theorem suffixRule_compactTo_iff {s s' : S} {x : Snapshot} (h : LogStorage.Formed s)
    (hsnap : LogStorage.snapIndex s ≤ x.metadata.lastIncludedIndex)
    (himage : LogStorage.image s' = (LogStorage.image s).compactTo x) :
    SuffixRule s s' x.metadata.lastIncludedIndex x.metadata.lastIncludedTerm ↔
      (x.metadata.lastIncludedIndex < Storage.lastLogIndex s →
        (Storage.getEntry s x.metadata.lastIncludedIndex).map (·.term) =
          some x.metadata.lastIncludedTerm) := by
  have hget : ∀ j, Storage.getEntry s' j =
      if j < x.metadata.lastIncludedIndex + 1 then none else Storage.getEntry s j := by
    intro j
    simp only [LogStorage.getEntry_eq, himage, LogImage.compactTo]
    exact Window.get?_discardBefore
  have hformed : LogStorage.Formed s' := by
    unfold LogStorage.Formed
    rw [himage]
    exact LogImage.Formed.compactTo h hsnap
  have hlast := LogStorage.lastLogIndex_add_one h
  constructor
  · intro hrule hlt
    by_cases hmatch : (Storage.getEntry s x.metadata.lastIncludedIndex).map (·.term) =
        some x.metadata.lastIncludedTerm
    · exact hmatch
    · -- the last entry is above the snapshot and stays
      obtain ⟨e, he⟩ := LogStorage.exists_getEntry h (i := Storage.lastLogIndex s) (by omega)
        (Nat.le_refl _)
      rw [SuffixRule, if_neg hmatch] at hrule
      have hgone := hrule.1 (Storage.lastLogIndex s)
      rw [hget, if_neg (by omega), he] at hgone
      cases hgone
  · intro hcond
    unfold SuffixRule
    split
    · intro j hj
      rw [hget, if_neg (by omega)]
    · rename_i hmatch
      have hle : Storage.lastLogIndex s ≤ x.metadata.lastIncludedIndex := by
        by_contra hlt
        exact hmatch (hcond (by omega))
      have hitems : (LogStorage.image s').log.items = [] := by
        rw [himage]
        apply Window.items_discardBefore
        omega
      refine ⟨fun j => ?_, ?_, ?_⟩
      · rw [hget]
        split
        · rfl
        · exact getEntry_beyond h (by omega)
      · have hstop := LogStorage.lastLogIndex_add_one hformed
        have hfirst : (LogStorage.image s').log.first = LogStorage.snapIndex s' + 1 := hformed
        have hsnap' : LogStorage.snapIndex s' = x.metadata.lastIncludedIndex := by
          simp [LogStorage.snapIndex, himage, LogImage.compactTo, LogImage.snapIndex]
        simp only [Window.stop, hitems, List.length_nil] at hstop
        omega
      · rw [LogStorage.lastLogTerm_eq, LogImage.lastLogTerm, hitems, himage]
        simp [LogImage.compactTo]

variable [StateMachine SM P]

/-- What a successful last chunk does to the log and the snapshot. -/
theorem image_of_installed {r : LogReplicationManager} {term index lastTerm offset currentTerm : Nat}
    {data : List UInt8} {s : S} {sm : SM} {role : NodeState}
    (h : (r.handleInstallSnapshot term index lastTerm offset data true currentTerm s sm
      role).response = .installSnapshotResponse term true) :
    LogStorage.snapIndex s ≤ index ∧
      ∃ bytes, LogStorage.image (r.handleInstallSnapshot term index lastTerm offset data true
          currentTerm s sm role).storage =
        (LogStorage.image s).compactTo ⟨⟨index, lastTerm⟩, bytes⟩ := by
  unfold handleInstallSnapshot at h ⊢
  by_cases hlt : term < currentTerm
  · rw [if_pos hlt] at h
    simp at h
  · rw [if_neg hlt] at h ⊢
    dsimp only at h ⊢
    have hcells : LogStorage.image (if decide (term > currentTerm) = true then
        Storage.setVotedFor (Storage.setCurrentTerm s term) none else s) = LogStorage.image s := by
      split
      · exact LogStorage.image_cells s term none
      · rfl
    generalize (if decide (term > currentTerm) = true then
        Storage.setVotedFor (Storage.setCurrentTerm s term) none else s) = s₁ at h hcells ⊢
    by_cases hcovered : alreadyCovered index s₁ = true
    · rw [if_pos hcovered] at h
      simp at h
    · rw [if_neg hcovered] at h ⊢
      have hfresh : alreadyCovered index s = false := by
        rw [← alreadyCovered_of_image hcells]
        simpa using hcovered
      refine ⟨LogStorage.snapIndex_le_of_not_covered hfresh, ?_⟩
      unfold installChunk at h ⊢
      dsimp only at h ⊢
      rcases LogStorage.image_applySnapshotChunk s₁ offset data true index lastTerm with
        ⟨_, hok, bytes, himage⟩ | ⟨hfail, _⟩
      · refine ⟨bytes, ?_⟩
        have hloaded : Storage.loadSnapshot
            (Storage.applySnapshotChunk s₁ offset data true index lastTerm).1 =
            some ⟨⟨index, lastTerm⟩, bytes⟩ := by
          rw [LogStorage.loadSnapshot_eq, himage]
        simp only [hok, if_true, hloaded, LogStorage.image_discardEntriesBefore, himage, hcells]
        rfl
      · rcases hfail with hfalse | ⟨e, he⟩
        · cases hfalse
        · rw [he] at h
          simp at h

namespace RaftNode

/-- **An installation follows the suffix rule** if and only if the snapshot reaches to the end of the
log, or the entry at its last index has its last term.  On every storage, in every state of every
life of a node. -/
theorem suffix_kept_iff [Restartable S] [FormedRestarts S] {R : Realization} {n : RaftNode P S SM}
    {term index lastTerm offset : Nat} {data : List UInt8} (h : n.Lived R)
    (hsuccess : (n.replication.handleInstallSnapshot term index lastTerm offset data true
      n.currentTerm n.storage n.stateMachine n.role).response =
        .installSnapshotResponse term true) :
    SuffixRule n.storage (n.replication.handleInstallSnapshot term index lastTerm offset data true
        n.currentTerm n.storage n.stateMachine n.role).storage index lastTerm ↔
      (index < Storage.lastLogIndex n.storage →
        (Storage.getEntry n.storage index).map (·.term) = some lastTerm) := by
  obtain ⟨hsnap, bytes, himage⟩ := image_of_installed hsuccess
  exact suffixRule_compactTo_iff (x := ⟨⟨index, lastTerm⟩, bytes⟩) (formed_of_lived h) hsnap himage

/-- A follower with two entries that it got in one request of term 1. -/
def twoEntryFollower : TestNode UInt8 Adder :=
  [.message 2 (.appendEntries 1 0 0 [] 0),
    .message 2 (.appendEntries 1 0 0 [⟨1, .command 5⟩, ⟨1, .command 6⟩] 0)].foldl
      (onEvent .testUtils) (start .testUtils 1 .new trioBoot)

theorem suffix_kept_iff_same_term :
    SuffixRule twoEntryFollower.storage (twoEntryFollower.replication.handleInstallSnapshot 2 1 1 0 [9]
        true twoEntryFollower.currentTerm twoEntryFollower.storage twoEntryFollower.stateMachine
        twoEntryFollower.role).storage 1 1 ↔
      (1 < Storage.lastLogIndex twoEntryFollower.storage →
        (Storage.getEntry twoEntryFollower.storage 1).map (·.term) = some 1) :=
  suffix_kept_iff ((lived_start 1 trioBoot rfl).events _) rfl

/-- A snapshot whose last entry has term 2 leaves the entry that followed one of term 1. -/
theorem conflicting_suffix_kept :
    twoEntryFollower.Lived .testUtils ∧
      (twoEntryFollower.replication.handleInstallSnapshot 2 1 2 0 [9] true
        twoEntryFollower.currentTerm twoEntryFollower.storage twoEntryFollower.stateMachine
        twoEntryFollower.role).response = .installSnapshotResponse 2 true ∧
      ¬ SuffixRule twoEntryFollower.storage (twoEntryFollower.replication.handleInstallSnapshot 2 1 2 0
        [9] true twoEntryFollower.currentTerm twoEntryFollower.storage twoEntryFollower.stateMachine
        twoEntryFollower.role).storage 1 2 := by
  refine ⟨(lived_start 1 trioBoot rfl).events _, rfl, fun hrule => ?_⟩
  rw [SuffixRule, if_neg (by decide +kernel)] at hrule
  have hlast := hrule.2.1
  revert hlast
  decide +kernel

/-! ## Failed installations -/

/-- The state machine cannot be restored from the bytes. -/
def Refuses (sm : SM) (data : List UInt8) : Prop :=
  ∃ e, (StateMachine.restoreFromSnapshot sm data).2 = .error e

section

variable (n : RaftNode P S SM) (index lastTerm offset : Nat) (data : List UInt8) (done : Bool)

/-- The snapshot that the chunk completes cannot be restored. -/
def RestoreFails : Prop :=
  alreadyCovered index n.storage = false ∧ done = true ∧
    (n.chunkResult index lastTerm offset data done).2 = .ok () ∧
      ∃ x, Storage.loadSnapshot (n.chunkResult index lastTerm offset data done).1 = some x ∧
        Refuses n.stateMachine x.data

/-- The chunk cannot be stored, or the snapshot that it completes cannot be restored. -/
def InstallFails : Prop :=
  (alreadyCovered index n.storage = false ∧
    ∃ e, (n.chunkResult index lastTerm offset data done).2 = .error e) ∨
  n.RestoreFails index lastTerm offset data done

end

/-- The sender has been told of the failure, and log, snapshot, counters and the contents of the
state machine are what they were. -/
structure Intact (n n' : RaftNode P S SM) (sender : NodeId) : Prop where
  answer : n'.transport =
    n.transport ++ [⟨sender, .installSnapshotResponse n.currentTerm false, n'.storage⟩]
  image : LogStorage.image n'.storage = LogStorage.image n.storage
  metadata : Storage.snapshotMetadata n'.storage = Storage.snapshotMetadata n.storage
  commitIndex : n'.replication.commitIndex = n.replication.commitIndex
  lastApplied : n'.replication.lastApplied = n.replication.lastApplied
  content : ∀ key, StateMachine.get n'.stateMachine key = StateMachine.get n.stateMachine key

section

variable {R : Realization} {n : RaftNode P S SM} {sender leaderId : NodeId}
  {index lastTerm offset : Nat} {data : List UInt8} {done : Bool}

/-- Of a snapshot that comes in one chunk and fits, the bytes themselves are restored. -/
theorem restoreFails_whole_iff (hfits : ∀ cap ∈ LogStorage.snapshotCapacity S, data.length ≤ cap) :
    n.RestoreFails index lastTerm 0 data true ↔
      alreadyCovered index n.storage = false ∧ Refuses n.stateMachine data := by
  obtain ⟨hok, himage⟩ := LogStorage.image_wholeSnapshot n.storage data index lastTerm hfits
  unfold RestoreFails chunkResult
  simp [hok, LogStorage.loadSnapshot_eq, himage]

/-- A chunk that cannot be stored leaves the node intact. -/
theorem intact_of_chunk_refused (hfresh : alreadyCovered index n.storage = false)
    {e : SnapshotError} (he : (n.chunkResult index lastTerm offset data done).2 = .error e) :
    Intact n (n.onEvent R (.message sender
      (.installSnapshot n.currentTerm leaderId index lastTerm offset data done))) sender := by
  have himage := image_storeChunk (Or.inl ⟨e, he⟩)
  have hnode : n.onEvent R (.message sender
      (.installSnapshot n.currentTerm leaderId index lastTerm offset data done)) =
      { n.joining n.currentTerm with
        storage := (n.chunkResult index lastTerm offset data done).1 }.send sender
          (.installSnapshotResponse n.currentTerm false) := by
    unfold chunkResult at he ⊢
    show n.handleInstallSnapshot sender n.currentTerm index lastTerm offset data done = _
    rw [handleInstallSnapshot_of_le (Nat.le_refl _), storageIn_self, hfresh]
    simp only [Bool.false_eq_true, if_false, installChunk, he]
    rfl
  rw [hnode]
  refine ⟨rfl, himage, ?_, rfl, rfl, fun _ => rfl⟩
  simp only [LogStorage.snapshotMetadata_eq]
  exact congrArg (fun v => v.snapshot.map (·.metadata)) himage

omit [LogStorage S P] in
/-- A snapshot that cannot be restored is acknowledged. -/
theorem acknowledged_of_restore_fails
    (h : n.RestoreFails index lastTerm offset data done) :
    (n.onEvent R (.message sender
      (.installSnapshot n.currentTerm leaderId index lastTerm offset data done))).transport =
        n.transport ++ [⟨sender, .installSnapshotResponse n.currentTerm true,
          Storage.discardEntriesBefore (n.chunkResult index lastTerm offset data done).1
            (index + 1)⟩] := by
  obtain ⟨hfresh, rfl, hok, x, hloaded, _⟩ := h
  unfold chunkResult at hok hloaded ⊢
  show (n.handleInstallSnapshot sender n.currentTerm index lastTerm offset data true).transport = _
  rw [handleInstallSnapshot_of_le (Nat.le_refl _), storageIn_self, hfresh]
  simp only [Bool.false_eq_true, if_false, installChunk, hok, if_true, hloaded, send, takeInstall]
  rfl

end

/-- **A failed installation leaves the node intact** if and only if it is not the restoring that
fails; and a restart over a snapshot that cannot be restored always counts it as applied. -/
theorem failed_install_intact_iff :
    (∀ (R : Realization) (n : RaftNode P S SM) (sender leaderId : NodeId)
      (index lastTerm offset : Nat) (data : List UInt8) (done : Bool),
      (n.InstallFails index lastTerm offset data done →
        Intact n (n.onEvent R (.message sender
          (.installSnapshot n.currentTerm leaderId index lastTerm offset data done))) sender) ↔
      ¬ n.RestoreFails index lastTerm offset data done) ∧
    ∀ (R : Realization) (id : NodeId) (storage : S) (boot : Boot SM),
      (∀ x, Storage.loadSnapshot storage = some x → Refuses boot.stateMachine x.data →
        (start R id storage boot).replication.lastApplied ≠ x.metadata.lastIncludedIndex) ↔
      ∀ x, Storage.loadSnapshot storage = some x → ¬ Refuses boot.stateMachine x.data := by
  constructor
  · intro R n sender leaderId index lastTerm offset data done
    constructor
    · intro hintact hfails
      have hanswer := (hintact (Or.inr hfails)).answer
      rw [acknowledged_of_restore_fails hfails] at hanswer
      simp at hanswer
    · rintro hrestores (⟨hfresh, e, he⟩ | hfails)
      · exact intact_of_chunk_refused hfresh he
      · exact absurd hfails hrestores
  · intro R id storage boot
    constructor
    · intro h x hx hrefuses
      apply h x hx hrefuses
      simp [start, newFromBuilder, hx]
    · intro h x hx hrefuses
      exact absurd hrefuses (h x hx)

/-- The bytes of `k=é` without the last one: a snapshot breaks off like this where a state machine
has filled the 512 bytes. -/
def cutSnapshot : List UInt8 := [107, 61, 195]

def keyValueBoot : Boot EmbassyStateMachine :=
  ⟨.new, ⟨none, none, 0⟩, [2, 3, 4, 5], 100, 0, 100⟩

/-- A node of the device that has applied `a=1`. -/
def keyValueFollower : RaftNode String (EmbassyStorage String) EmbassyStateMachine :=
  [.message 2 (.appendEntries 1 0 0 [] 0),
    .message 2 (.appendEntries 1 0 0 [⟨1, .command "a=1"⟩] 1)].foldl (onEvent .embassy)
      (start .embassy 1 .new keyValueBoot)

/-- The node that has been sent the cut snapshot. -/
def cutFollower : RaftNode String (EmbassyStorage String) EmbassyStateMachine :=
  keyValueFollower.onEvent .embassy (.message 2 (.installSnapshot 1 2 2 1 0 cutSnapshot true))

/-- A node that is sent such a snapshot forgets its value and acknowledges, and a node that starts
over it has an empty state machine and two entries applied. -/
theorem cut_snapshot_counts_as_applied :
    keyValueFollower.Lived .embassy ∧
      keyValueFollower.InstallFails 2 1 0 cutSnapshot true ∧
      ¬ Intact keyValueFollower cutFollower 2 ∧
      StateMachine.get keyValueFollower.stateMachine "a" = some "1" ∧
      StateMachine.get cutFollower.stateMachine "a" = none ∧
      cutFollower.replication.lastApplied = 2 ∧
      (start .embassy 1 cutFollower.storage keyValueBoot).replication.lastApplied = 2 ∧
      StateMachine.get (start .embassy 1 cutFollower.storage keyValueBoot).stateMachine "k" =
        none := by
  have hget : StateMachine.get cutFollower.stateMachine "a" = none := by decide +kernel
  refine ⟨(lived_start 1 keyValueBoot rfl).events _, Or.inr ?_, fun hintact => ?_,
    by decide +kernel, hget, by decide +kernel, by decide +kernel, by decide +kernel⟩
  · rw [restoreFails_whole_iff fun cap hcap => ?_]
    · exact ⟨by decide +kernel, EmbassyStateMachine.refused_iff.mpr (by decide +kernel)⟩
    · cases hcap
      decide
  · have hcontent := hintact.content "a"
    rw [hget] at hcontent
    revert hcontent
    decide +kernel

end RaftNode

end MetalRaft
