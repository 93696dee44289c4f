import MetalRaft.Install
import MetalRaft.LogFacts

/-!
# Compaction

What the readers of a log see of it: votes, pre-votes, the consistency check and the messages to
followers, each with its own way to fall back on the snapshot.

* `compactTo` keeps the last index and term, and every item beyond the snapshot.
* `Transparent` — no reader sees a difference at or above an index.
* `create_transparent` — taking a snapshot is transparent, and a refused one changes nothing.
-/

set_option autoImplicit false

namespace MetalRaft

open LogReplicationManager

variable {P : Type}

namespace LogImage

variable {v : LogImage P} {x : Snapshot} {e : LogEntry P}

/-- A snapshot taken at an entry keeps the last index. -/
theorem lastLogIndex_compactTo (he : v.log.get? x.metadata.lastIncludedIndex = some e) :
    (v.compactTo x).lastLogIndex = v.lastLogIndex := by
  have hstop := Window.stop_discardBefore (Nat.succ_le_of_lt (Window.bounds_of_get? he).2)
  unfold lastLogIndex compactTo
  rw [← hstop]

/-- A snapshot taken at an entry, with its term, keeps the last term. -/
theorem lastLogTerm_compactTo (he : v.log.get? x.metadata.lastIncludedIndex = some e)
    (hterm : x.metadata.lastIncludedTerm = e.term) :
    (v.compactTo x).lastLogTerm = v.lastLogTerm := by
  have hb := Window.bounds_of_get? he
  unfold lastLogTerm compactTo
  dsimp only
  rcases Nat.lt_or_ge (x.metadata.lastIncludedIndex + 1) v.log.stop with hlt | hge
  · rw [Window.getLast?_discardBefore hlt]
    cases hlast : v.log.items.getLast? with
    | some _ => rfl
    | none =>
      -- an empty log has no entry to take the snapshot at
      have hnil : v.log.items = [] := by simpa using hlast
      simp [Window.get?, hnil] at he
  · have hlast : v.log.items.getLast? = some e := by
      unfold Window.stop at hb hge
      rw [Window.get?, if_neg (by omega)] at he
      rw [List.getLast?_eq_getElem?, ← he]
      congr 1
      omega
    rw [hlast, Window.items_discardBefore hge]
    simp [hterm]

end LogImage

/-! ## What the readers see -/

section

variable {S SM : Type} [Storage S P] {s s' : S}

/-- Votes and pre-votes are given alike, and so are the answers and messages about what lies at or
above index `i`. -/
structure Transparent (s s' : S) (i : Nat) : Prop where
  lastLogIndex : Storage.lastLogIndex s' = Storage.lastLogIndex s
  lastLogTerm : Storage.lastLogTerm s' = Storage.lastLogTerm s
  entries : ∀ j, i < j → Storage.getEntry s' j = Storage.getEntry s j
  votes : ∀ (em : ElectionManager) (term : Nat) (candidateId : NodeId)
    (lastLogIndex lastLogTerm currentTerm : Nat),
    (em.handleVoteRequest term candidateId lastLogIndex lastLogTerm currentTerm s').2.2.2 =
      (em.handleVoteRequest term candidateId lastLogIndex lastLogTerm currentTerm s).2.2.2
  preVotes : ∀ term lastLogIndex lastLogTerm currentTerm,
    ElectionManager.handlePreVoteRequest term lastLogIndex lastLogTerm currentTerm s' =
      ElectionManager.handlePreVoteRequest term lastLogIndex lastLogTerm currentTerm s
  consistency : ∀ p t, p = 0 ∨ i ≤ p → checkLogConsistency p t s' = checkLogConsistency p t s
  messages : ∀ (r : LogReplicationManager) (peer leaderId : NodeId),
    i < (r.nextIndex.get peer).getD 1 →
      r.getAppendEntriesForPeer peer leaderId s' = r.getAppendEntriesForPeer peer leaderId s

theorem isLogUpToDate_congr (hindex : Storage.lastLogIndex s' = Storage.lastLogIndex s)
    (hterm : Storage.lastLogTerm s' = Storage.lastLogTerm s) (index term : Nat) :
    ElectionManager.isLogUpToDate index term s' = ElectionManager.isLogUpToDate index term s := by
  simp only [ElectionManager.isLogUpToDate, hindex, hterm]

/-- The answer to a vote request depends on the vote and the end of the log. -/
theorem answer_congr (hvoted : Storage.votedFor s' = Storage.votedFor s)
    (hindex : Storage.lastLogIndex s' = Storage.lastLogIndex s)
    (hterm : Storage.lastLogTerm s' = Storage.lastLogTerm s) (term currentTerm : Nat)
    (candidateId : NodeId) (index lastTerm : Nat) :
    ElectionManager.shouldGrantVote term currentTerm candidateId index lastTerm s' =
      ElectionManager.shouldGrantVote term currentTerm candidateId index lastTerm s := by
  simp only [ElectionManager.shouldGrantVote, hvoted, isLogUpToDate_congr hindex hterm]

variable [LogStorage S P] [StateMachine SM P] {sm : SM} {i : Nat} {e : LogEntry P}

omit [StateMachine SM P] in
theorem end_cells (hs : LogStorage.Formed s) (t : Nat) (v : Option NodeId) :
    Storage.lastLogIndex (Storage.setVotedFor (Storage.setCurrentTerm s t) v) =
        Storage.lastLogIndex s ∧
      Storage.lastLogTerm (Storage.setVotedFor (Storage.setCurrentTerm s t) v) =
        Storage.lastLogTerm s := by
  have himage := LogStorage.image_cells s t v
  have hformed := LogStorage.formed_of_image hs himage
  simp only [LogStorage.lastLogIndex_eq _ hs, LogStorage.lastLogIndex_eq _ hformed,
    LogStorage.lastLogTerm_eq, himage, and_self]

omit [LogStorage S P] in
/-- Taking a snapshot touches neither the term nor the vote. -/
theorem cells_create [LawfulStorage S P] (s : S) (sm : SM) (i : Nat) :
    Storage.currentTerm (SnapshotManager.create s sm i).1 = Storage.currentTerm s ∧
      Storage.votedFor (SnapshotManager.create s sm i).1 = Storage.votedFor s := by
  unfold SnapshotManager.create SnapshotManager.compact
  split
  · exact ⟨rfl, rfl⟩
  · cases Storage.getEntry s i with
    | none => exact ⟨rfl, rfl⟩
    | some e =>
      have hsaved := LawfulStorage.cells_saveSnapshot s
        ⟨⟨i, e.term⟩, StateMachine.createSnapshot sm⟩
      have hdiscarded := LawfulStorage.cells_discardEntriesBefore
        (Storage.saveSnapshot s ⟨⟨i, e.term⟩, StateMachine.createSnapshot sm⟩) (i + 1)
      exact ⟨hdiscarded.1.trans hsaved.1, hdiscarded.2.trans hsaved.2⟩

omit [StateMachine SM P] in
/-- Storages with the same vote and the same end of the log give their votes alike. -/
theorem votes_congr [LawfulStorage S P] (hs : LogStorage.Formed s) (hs' : LogStorage.Formed s')
    (hvoted : Storage.votedFor s' = Storage.votedFor s)
    (hindex : Storage.lastLogIndex s' = Storage.lastLogIndex s)
    (hterm : Storage.lastLogTerm s' = Storage.lastLogTerm s) (em : ElectionManager) (term : Nat)
    (candidateId : NodeId) (index lastTerm currentTerm : Nat) :
    (em.handleVoteRequest term candidateId index lastTerm currentTerm s').2.2.2 =
      (em.handleVoteRequest term candidateId index lastTerm currentTerm s).2.2.2 := by
  unfold ElectionManager.handleVoteRequest
  dsimp only
  by_cases hbehind : decide (term > currentTerm) = true
  · obtain ⟨hi, ht⟩ := end_cells hs term none
    obtain ⟨hi', ht'⟩ := end_cells hs' term none
    have hcell : ∀ s : S, Storage.votedFor
        (Storage.setVotedFor (Storage.setCurrentTerm s term) none) = none :=
      fun s => LawfulStorage.votedFor_setVotedFor _ _
    simp only [hbehind, if_true]
    rw [answer_congr ((hcell s').trans (hcell s).symm) (hi'.trans (hindex.trans hi.symm))
      (ht'.trans (hterm.trans ht.symm))]
    split <;> rfl
  · simp only [hbehind, if_false, Bool.false_eq_true]
    rw [answer_congr hvoted hindex hterm]
    split <;> rfl

/-- The term at an index, as the entry or the snapshot that ends there tells it. -/
def seenTerm (s : S) (p : Nat) : Option Nat :=
  match Storage.getEntry s p with
  | some e => some e.term
  | none => (Storage.loadSnapshot s).bind fun x =>
    if p = x.metadata.lastIncludedIndex then some x.metadata.lastIncludedTerm else none

omit [StateMachine SM P] in
theorem checkLogConsistency_eq (s : S) (p t : Nat) :
    checkLogConsistency p t s = decide (p = 0 ∨ seenTerm s p = some t) := by
  unfold checkLogConsistency seenTerm
  rw [LogStorage.snapshotMetadata_eq, LogStorage.loadSnapshot_eq]
  by_cases hp : p = 0
  · simp [hp]
  · cases Storage.getEntry s p with
    | some e => simp [hp]
    | none =>
      cases (LogStorage.image s).snapshot with
      | none => simp [hp]
      | some x =>
        by_cases hx : p = x.metadata.lastIncludedIndex
        · simp [← hx, hp, eq_comm]
        · simp [hx, hp]

omit [LogStorage S P] [StateMachine SM P] in
theorem getAppendEntriesForFollower_eq (r : LogReplicationManager) (peer : NodeId)
    (currentTerm : Nat) (s : S) :
    r.getAppendEntriesForFollower peer currentTerm s =
      let next := (r.nextIndex.get peer).getD 1
      .appendEntries currentTerm (next - 1)
        (if next - 1 = 0 then 0 else (seenTerm s (next - 1)).getD 0)
        (Storage.getEntries s next (Storage.lastLogIndex s + 1)) r.commitIndex := by
  unfold getAppendEntriesForFollower seenTerm
  dsimp only
  congr 1
  split
  · rfl
  · cases Storage.getEntry s ((r.nextIndex.get peer).getD 1 - 1) with
    | some e => rfl
    | none =>
      cases Storage.loadSnapshot s with
      | none => rfl
      | some x => simp only [Option.bind_some]; split <;> rfl

section

variable {x : Snapshot}

omit [StateMachine SM P] in
theorem getEntry_of_compacted (himage : LogStorage.image s' = (LogStorage.image s).compactTo x)
    (j : Nat) : Storage.getEntry s' j =
      if j < x.metadata.lastIncludedIndex + 1 then none else Storage.getEntry s j := by
  simp only [LogStorage.getEntry_eq, himage, LogImage.compactTo]
  exact Window.get?_discardBefore

omit [StateMachine SM P] in
/-- A snapshot taken at an entry tells the entry's term, and above it nothing has changed. -/
theorem seenTerm_of_compacted (hs : LogStorage.Formed s)
    (himage : LogStorage.image s' = (LogStorage.image s).compactTo x)
    (he : Storage.getEntry s x.metadata.lastIncludedIndex = some e)
    (hterm : x.metadata.lastIncludedTerm = e.term) {p : Nat}
    (hp : x.metadata.lastIncludedIndex ≤ p) : seenTerm s' p = seenTerm s p := by
  have hb := LogStorage.bounds_of_getEntry hs he
  have hsnapshot : Storage.loadSnapshot s' = some x := by
    rw [LogStorage.loadSnapshot_eq, himage]
    rfl
  unfold seenTerm
  rcases Nat.eq_or_lt_of_le hp with rfl | hlt
  · rw [getEntry_of_compacted himage, if_pos (Nat.lt_succ_self _), he, hsnapshot]
    simp [hterm]
  · rw [getEntry_of_compacted himage, if_neg (Nat.not_lt.mpr hlt), hsnapshot]
    cases Storage.getEntry s p with
    | some _ => rfl
    | none =>
      cases hy : Storage.loadSnapshot s with
      | none => simp; omega
      | some y =>
        -- the old snapshot ends below the new one
        have hsnap : LogStorage.snapIndex s = y.metadata.lastIncludedIndex := by
          rw [LogStorage.loadSnapshot_eq] at hy
          simp [LogStorage.snapIndex, LogImage.snapIndex, hy]
        simp only [Option.bind_some]
        rw [if_neg (by omega), if_neg (by omega)]

end

/-- **Taking a snapshot is transparent** at and above its index. -/
theorem transparent_create [LawfulStorage S P] (hs : LogStorage.Formed s) (sm : SM)
    (he : Storage.getEntry s i = some e) :
    Transparent s (SnapshotManager.create s sm i).1 i := by
  have hb := LogStorage.bounds_of_getEntry hs he
  have himage := LogStorage.image_create hs sm he
  have hformed := LogStorage.formed_create hs sm i
  obtain ⟨hcurrent, hvoted⟩ := cells_create s sm i
  generalize (SnapshotManager.create s sm i).1 = s' at himage hformed hcurrent hvoted ⊢
  have he' : (LogStorage.image s).log.get? i = some e := by
    rw [← LogStorage.getEntry_eq]
    exact he
  have hindex : Storage.lastLogIndex s' = Storage.lastLogIndex s := by
    rw [LogStorage.lastLogIndex_eq _ hformed, LogStorage.lastLogIndex_eq _ hs, himage]
    exact LogImage.lastLogIndex_compactTo he'
  have hterm : Storage.lastLogTerm s' = Storage.lastLogTerm s := by
    rw [LogStorage.lastLogTerm_eq, LogStorage.lastLogTerm_eq, himage]
    exact LogImage.lastLogTerm_compactTo he' rfl
  have habove : ∀ j, i < j → Storage.getEntry s' j = Storage.getEntry s j := by
    intro j hj
    rw [getEntry_of_compacted himage, if_neg (Nat.not_lt.mpr hj)]
  have hseen : ∀ p, i ≤ p → seenTerm s' p = seenTerm s p :=
    fun p hp => seenTerm_of_compacted hs himage he rfl hp
  refine ⟨hindex, hterm, habove, votes_congr hs hformed hvoted hindex hterm, ?_, ?_, ?_⟩
  · intro term index lastTerm currentTerm
    simp only [ElectionManager.handlePreVoteRequest, isLogUpToDate_congr hindex hterm]
  · rintro p t (rfl | hp)
    · rfl
    · rw [checkLogConsistency_eq, checkLogConsistency_eq, hseen p hp]
  · intro r peer leaderId hnext
    have hfirst := LogStorage.firstLogIndex_of_formed hs
    have hfirst' := LogStorage.firstLogIndex_of_formed hformed
    have hsnap' : LogStorage.snapIndex s' = i := by
      simp [LogStorage.snapIndex, himage, LogImage.compactTo, LogImage.snapIndex]
    have hentries : Storage.getEntries s' ((r.nextIndex.get peer).getD 1)
          (Storage.lastLogIndex s' + 1) =
        Storage.getEntries s ((r.nextIndex.get peer).getD 1) (Storage.lastLogIndex s + 1) := by
      rw [LogStorage.lastLogIndex_add_one hformed, LogStorage.lastLogIndex_add_one hs,
        LogStorage.getEntries_eq, LogStorage.getEntries_eq, himage, LogImage.compactTo,
        Window.itemsFrom_discardBefore hnext]
    unfold getAppendEntriesForPeer
    dsimp only
    rw [if_neg (by omega), if_neg (by omega), getAppendEntriesForFollower_eq,
      getAppendEntriesForFollower_eq]
    dsimp only
    rw [hcurrent, hentries, hseen _ (by omega)]

end

namespace RaftNode

variable {S SM SM' : Type} [Storage S P] [LogStorage S P] [LawfulStorage S P] [Restartable S]
  [FormedRestarts S] [StateMachine SM P] [StateMachine SM' P] {R : Realization}
  {n : RaftNode P S SM}

/-- **Compaction is transparent**: whatever state machine a snapshot is made of, and at whatever
index that the log holds, no reader sees a difference at or above that index; and where no snapshot
is made nothing changes.  On every storage, in every state of every life of a node. -/
theorem create_transparent (h : n.Lived R) (sm : SM') (i : Nat) :
    ((Storage.getEntry n.storage i).isSome →
      (SnapshotManager.create n.storage sm i).2 = .ok i ∧
        Transparent n.storage (SnapshotManager.create n.storage sm i).1 i) ∧
    ∀ err, (SnapshotManager.create n.storage sm i).2 = .error err →
      (SnapshotManager.create n.storage sm i).1 = n.storage := by
  have hs := formed_of_lived h
  constructor
  · intro hsome
    obtain ⟨e, he⟩ := Option.isSome_iff_exists.mp hsome
    have hb := LogStorage.bounds_of_getEntry hs he
    refine ⟨?_, transparent_create hs sm he⟩
    simp only [SnapshotManager.create, he]
    rw [if_neg (by omega)]
  · intro err herr
    simp only [SnapshotManager.create] at herr ⊢
    split
    · rfl
    · rename_i hpos
      rw [if_neg hpos] at herr
      cases he : Storage.getEntry n.storage i with
      | none => rfl
      | some e =>
        rw [he] at herr
        cases herr

/-- A snapshot at the last of two entries. -/
theorem create_transparent_at_last :
    Transparent twoEntryFollower.storage
      (SnapshotManager.create twoEntryFollower.storage (⟨11⟩ : Adder) 2).1 2 :=
  ((create_transparent (R := .testUtils) ((lived_start 1 trioBoot rfl).events _) (⟨11⟩ : Adder)
    2).1 (by decide +kernel)).2

end RaftNode

end MetalRaft
