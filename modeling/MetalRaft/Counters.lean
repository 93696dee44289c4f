import MetalRaft.ApplyOrder
import MetalRaft.Placement

/-!
# Snapshot, commit and apply indexes

* `Ordered` — the snapshot is covered by what is committed, and that by what is applied; so every
  covered index counts as committed, and a leader advertises no less.
* `ordered_onEvent` — every event keeps this, by one case for each move.
* `counters_ordered_iff` — it holds throughout a life if and only if every start in it finds no
  snapshot, since `commit_index` is not restored.
-/

set_option autoImplicit false

namespace MetalRaft

open Transition LogReplicationManager

namespace RaftNode

variable {P S SM : Type} [Storage S P] [LogStorage S P] [StateMachine SM P] {R : Realization}
  {ev : Event P} {n₀ n n' : RaftNode P S SM}

omit [Storage S P] [LogStorage S P] [StateMachine SM P] in
/-- `RaftNode::is_committed`. -/
def isCommitted (n : RaftNode P S SM) (index : Nat) : Bool :=
  decide (index ≤ n.replication.commitIndex)

/-- The indexes are in order, with what hangs on it. -/
structure Ordered (n : RaftNode P S SM) : Prop where
  covered : LogStorage.snapIndex n.storage ≤ n.replication.commitIndex
  applied : n.replication.commitIndex ≤ n.replication.lastApplied
  committed : ∀ i ≤ LogStorage.snapIndex n.storage, n.isCommitted i = true
  advertised : n.role = .leader → ∀ peer term prev pt es lc,
    n.replication.getAppendEntriesForPeer peer n.id n.storage =
      .appendEntries term prev pt es lc → LogStorage.snapIndex n.storage ≤ lc

omit [LogStorage S P] [StateMachine SM P] in
/-- The commit index of a built message is the leader's. -/
theorem leaderCommit_of_message {r : LogReplicationManager} {peer leaderId : NodeId} {s : S}
    {term prev pt lc : Nat} {es : List (LogEntry P)}
    (h : r.getAppendEntriesForPeer peer leaderId s = .appendEntries term prev pt es lc) :
    lc = r.commitIndex := by
  unfold getAppendEntriesForPeer getAppendEntriesForFollower at h
  dsimp only at h
  split at h
  · split at h
    · cases h
    · injection h with _ _ _ _ hlc
      exact hlc.symm
  · injection h with _ _ _ _ hlc
    exact hlc.symm

omit [StateMachine SM P] in
theorem ordered_iff : n.Ordered ↔ LogStorage.snapIndex n.storage ≤ n.replication.commitIndex ∧
    n.replication.commitIndex ≤ n.replication.lastApplied := by
  refine ⟨fun h => ⟨h.covered, h.applied⟩, fun ⟨hcovered, happlied⟩ => ⟨hcovered, happlied, ?_, ?_⟩⟩
  · intro i hi
    simp only [isCommitted, decide_eq_true_eq]
    omega
  · intro _ peer term prev pt es lc hmsg
    rw [leaderCommit_of_message hmsg]
    exact hcovered

/-! ## What the moves keep -/

theorem committed_move (hmove : Move R ev n₀ n n') (h : LogStorage.Formed n.storage)
    (hcovered : LogStorage.snapIndex n.storage ≤ n.replication.commitIndex) :
    LogStorage.snapIndex n'.storage ≤ n'.replication.commitIndex := by
  -- a commit index clamped to the last index stays above the snapshot
  have hlast := LogStorage.snapIndex_le_lastLogIndex h
  cases indexMove_of_move hmove h <;> omega

theorem committed_onEvent (h : LogStorage.Formed n.storage)
    (hcovered : LogStorage.snapIndex n.storage ≤ n.replication.commitIndex) :
    LogStorage.snapIndex (n.onEvent R ev).storage ≤ (n.onEvent R ev).replication.commitIndex := by
  have hmoves := onEvent_moves R n ev
  suffices hboth : LogStorage.Formed (n.onEvent R ev).storage ∧
      LogStorage.snapIndex (n.onEvent R ev).storage ≤
        (n.onEvent R ev).replication.commitIndex from hboth.2
  generalize n.onEvent R ev = n' at hmoves ⊢
  induction hmoves with
  | refl => exact ⟨h, hcovered⟩
  | tail _ hlast ih => exact ⟨formed_move hlast ih.1, committed_move hlast ih.1 ih.2⟩

/-! ## Whole lives -/

/-- Every restart among the turns finds no snapshot, or one that covers nothing. -/
def BareRestarts (ts : List (Turn P S SM)) : Prop :=
  ∀ storage boot, Turn.restart storage boot ∈ ts → LogStorage.snapIndex storage = 0

variable [Restartable S] [FormedRestarts S] {id : NodeId} {storage : S} {boot : Boot SM}
  {ts : List (Turn P S SM)}

omit [FormedRestarts S] in
theorem covered_turn {t : Turn P S SM} (hok : n.KeepsStorage t) (h : n.Grounded)
    (hcovered : LogStorage.snapIndex n.storage ≤ n.replication.commitIndex)
    (hbare : BareRestarts [t]) :
    LogStorage.snapIndex (n.turn R t).storage ≤ (n.turn R t).replication.commitIndex := by
  rcases turn_cases R n t with ⟨storage, boot, rfl⟩ | ⟨_, heq⟩ | ⟨ev, m, _, heq, _⟩
  · exact (hbare storage boot (List.mem_singleton_self _)).trans_le (Nat.zero_le _)
  · rw [heq]
    exact hcovered
  · rw [heq]
    exact committed_onEvent h.formed hcovered

omit [LogStorage S P] [FormedRestarts S] in
theorem lived_of_admitted (hfresh : Restartable.Fresh storage)
    (hlife : Admitted (turn R) KeepsStorage (start R id storage boot) ts) :
    (ts.foldl (turn R) (start R id storage boot)).Lived R :=
  ⟨id, storage, boot, hfresh, Admitted.run ts hlife⟩

/-- **Snapshot, commit and apply indexes stay in order** in exactly the lives in which no start, the
first one included, finds a snapshot that covers anything. -/
theorem counters_ordered_iff (hfresh : Restartable.Fresh storage)
    (hlife : Admitted (turn R) KeepsStorage (start R id storage boot) ts) :
    (∀ before, before <+: ts → Ordered (before.foldl (turn R) (start R id storage boot))) ↔
      LogStorage.snapIndex storage = 0 ∧ BareRestarts ts := by
  constructor
  · intro hordered
    refine ⟨Nat.le_zero.mp (hordered [] List.nil_prefix).covered, fun s b hmem => ?_⟩
    obtain ⟨before, after, rfl⟩ := List.append_of_mem hmem
    -- right after this restart nothing is committed
    have hstart := hordered (before ++ [.restart s b]) ⟨after, by simp⟩
    rw [List.foldl_append] at hstart
    exact Nat.le_zero.mp hstart.covered
  · rintro ⟨hbare, hbares⟩ before ⟨after, rfl⟩
    have hbefore := (Admitted.append.mp hlife).1
    have hgrounded : ∀ {before}, Admitted (turn R) KeepsStorage (start R id storage boot) before →
        (before.foldl (turn R) (start R id storage boot)).Grounded :=
      fun hadmitted => grounded_of_lived (lived_of_admitted hfresh hadmitted)
    rw [ordered_iff]
    refine ⟨?_, (hgrounded hbefore).applied⟩
    have hrestarts : BareRestarts before :=
      fun s b hmem => hbares s b (List.mem_append_left _ hmem)
    clear hbares hlife
    induction before using List.reverseRecOn with
    | nil => exact hbare.trans_le (Nat.zero_le _)
    | append_singleton before t ih =>
      rw [Admitted.snoc] at hbefore
      rw [List.foldl_append]
      refine covered_turn hbefore.2 (hgrounded hbefore.1) (ih hbefore.1 fun s b hmem => ?_)
        fun s b hmem => hrestarts s b (List.mem_append_right _ hmem)
      exact hrestarts s b (List.mem_append_left _ hmem)

/-- A life with a snapshot taken over and no restart. -/
theorem counters_ordered_iff_install :
    (∀ before, before <+: [Turn.event (.message 2 (.installSnapshot 1 2 2 1 0 [9] true))] →
      Ordered (before.foldl (turn .testUtils)
        (start .testUtils 1 .new trioBoot : TestNode UInt8 Adder))) ↔
    LogStorage.snapIndex (InMemoryStorage.new : InMemoryStorage UInt8) = 0 ∧
      BareRestarts [(Turn.event (.message 2 (.installSnapshot 1 2 2 1 0 [9] true)) :
        Turn UInt8 (InMemoryStorage UInt8) Adder)] :=
  counters_ordered_iff rfl ⟨trivial, trivial⟩

/-- A node that starts again over a snapshot of two entries has them applied, but not committed. -/
theorem restart_forgets_commit :
    (compactedFollower.turn .testUtils (.restart compactedFollower.storage trioBoot)).Lived
        .testUtils ∧
      ¬ Ordered (compactedFollower.turn .testUtils
        (.restart compactedFollower.storage trioBoot)) := by
  have hlived : compactedFollower.Lived .testUtils := (lived_start 1 trioBoot rfl).events _
  refine ⟨?_, fun hordered => ?_⟩
  · obtain ⟨id, storage, boot, hfresh, hrun⟩ := hlived
    exact ⟨id, storage, boot, hfresh, hrun.step rfl⟩
  · have hcovered := hordered.covered
    revert hcovered
    decide +kernel

end RaftNode

end MetalRaft
