import MetalRaft.ApplyOrder
import MetalRaft.Lease

/-!
# How much of the log a leader keeps

A leader takes a snapshot when the commit index has reached the threshold and the stored snapshot
has not.  The two are compared with the threshold itself and not with each other, so that a leader
takes one snapshot beyond the threshold and never another; and it looks only when an answer makes it
commit.

* `keptCommitted` — the committed entries that the log still holds.
* `StaysBelow` — what a turn has to be like for them to stay below the threshold.
* `log_bounded_iff` — they do in exactly these turns.
* `second_snapshot_not_taken` — a threshold that is crossed for the second time.
-/

set_option autoImplicit false

namespace MetalRaft

open Transition LogReplicationManager

namespace RaftNode

variable {P S SM : Type} [Storage S P] [LogStorage S P] [StateMachine SM P] {R : Realization}
  {ev : Event P} {n : RaftNode P S SM} {t : Turn P S SM}

omit [LogStorage S P] [StateMachine SM P] in
/-- How many of the indexes from the first one of the log up to the commit index there are. -/
def keptCommitted (n : RaftNode P S SM) : Nat :=
  n.replication.commitIndex + 1 - Storage.firstLogIndex n.storage

omit [StateMachine SM P] in
theorem keptCommitted_eq {s : S} (hs : LogStorage.Formed n.storage)
    (h : LogStorage.snapIndex n.storage = LogStorage.snapIndex s) :
    n.keptCommitted = n.replication.commitIndex - LogStorage.snapIndex s := by
  unfold keptCommitted
  rw [LogStorage.firstLogIndex_of_formed hs, h]
  omega

omit [StateMachine SM P] in
/-- The index that the event commits lies less than a threshold behind the snapshot, or the event is
an answer and the snapshot lies below the threshold. -/
def StaysBelow (R : Realization) (n : RaftNode P S SM) (ev : Event P) : Prop :=
  ∀ x ∈ n.commitPoint R ev,
    x.2 < LogStorage.snapIndex n.storage + n.snapshotManager.threshold ∨
      ev.isAppendEntriesResponse ∧ LogStorage.snapIndex n.storage < n.snapshotManager.threshold

omit [StateMachine SM P] in
/-- A snapshot is due at the threshold, as long as the stored one lies below it. -/
theorem shouldCreate_iff {m : SnapshotManager} {c : Nat} {s : S} (hm : 0 < m.threshold) :
    m.shouldCreate c s = true ↔ m.threshold ≤ c ∧ LogStorage.snapIndex s < m.threshold := by
  unfold SnapshotManager.shouldCreate LogStorage.snapIndex LogImage.snapIndex
  rw [LogStorage.loadSnapshot_eq]
  split
  · exact iff_of_false (by decide) (by omega)
  · cases (LogStorage.image s).snapshot with
    | none => simpa using ⟨by omega, hm⟩
    | some x =>
      simp only [ge_iff_le, Option.map_some, Option.getD_some]
      split
      · exact iff_of_false (by decide) (by omega)
      · exact iff_of_true rfl (by omega)

omit [LogStorage S P] [StateMachine SM P] in
theorem takesSnapshot_iff {c : Nat} : n.takesSnapshot c ev = true ↔
    ev.isAppendEntriesResponse ∧ n.snapshotManager.shouldCreate c n.storage = true := by
  cases ev with
  | message sender msg =>
    cases msg with
    | appendEntriesResponse => exact (and_iff_right trivial).symm
    | _ => exact iff_of_false (fun h => (by cases h)) fun h => h.1
  | _ => exact iff_of_false (fun h => (by cases h)) fun h => h.1

omit [LogStorage S P] [StateMachine SM P] in
/-- What an answer makes a leader commit is in its log. -/
theorem found_of_answer {s : S} {c : Nat} (hev : ev.isAppendEntriesResponse)
    (hpoint : n.commitPoint R ev = some (s, c)) :
    s = n.storage ∧ ∃ e, Storage.getEntry s c = some e := by
  cases ev with
  | message sender msg =>
    cases msg with
    | appendEntriesResponse term success m =>
      unfold commitPoint at hpoint
      dsimp only at hpoint
      split at hpoint
      · obtain ⟨c', hquorum, heq⟩ := Option.map_eq_some_iff.mp hpoint
        cases heq
        obtain ⟨_, e, he, _⟩ := quorumIndex_eq_some hquorum
        exact ⟨rfl, e, he⟩
      · cases hpoint
    | _ => exact hev.elim
  | _ => exact hev.elim

/-- Where the log of a leader begins once it has committed up to `c`. -/
theorem keptCommitted_of_commit (h : n.Grounded) (hT : 0 < n.snapshotManager.threshold)
    {s : S} {c : Nat} (hpoint : n.commitPoint R ev = some (s, c))
    (hcommit : (n.onEvent R ev).replication.commitIndex = c)
    (hstorage : (n.onEvent R ev).storage =
      if n.takesSnapshot c ev then (SnapshotManager.create s (n.onEvent R ev).stateMachine c).1
      else s) :
    (n.onEvent R ev).keptCommitted < n.snapshotManager.threshold ↔ n.StaysBelow R ev := by
  obtain ⟨hformed, hsnap, _⟩ := reaches_of_commitPoint h.formed hpoint
  have hnext : LogStorage.Formed (n.onEvent R ev).storage := (grounded_onEvent h).formed
  have hbelow : n.StaysBelow R ev ↔
      (c < LogStorage.snapIndex n.storage + n.snapshotManager.threshold ∨
        ev.isAppendEntriesResponse ∧
          LogStorage.snapIndex n.storage < n.snapshotManager.threshold) := by
    unfold StaysBelow
    rw [hpoint]
    simp
  by_cases htakes : n.takesSnapshot c ev = true
  · -- the snapshot reaches the commit index itself
    rw [if_pos htakes] at hstorage
    obtain ⟨hanswer, hdue⟩ := takesSnapshot_iff.mp htakes
    obtain ⟨rfl, e, he⟩ := found_of_answer hanswer hpoint
    have hindex : LogStorage.snapIndex (n.onEvent R ev).storage = c := by
      unfold LogStorage.snapIndex
      rw [hstorage, LogStorage.image_create h.formed _ he]
      rfl
    refine iff_of_true ?_ (hbelow.mpr (Or.inr ⟨hanswer, ((shouldCreate_iff hT).mp hdue).2⟩))
    rw [keptCommitted_eq hnext rfl, hindex, hcommit]
    omega
  · rw [if_neg htakes] at hstorage
    rw [keptCommitted_eq (s := n.storage) hnext (by rw [hstorage, hsnap]), hcommit, hbelow]
    have hdue : ev.isAppendEntriesResponse →
        ¬ (n.snapshotManager.threshold ≤ c ∧
          LogStorage.snapIndex n.storage < n.snapshotManager.threshold) :=
      fun hanswer hdue => htakes (takesSnapshot_iff.mpr ⟨hanswer, (shouldCreate_iff hT).mpr hdue⟩)
    constructor
    · intro hkept
      exact Or.inl (by omega)
    · rintro (hlt | ⟨hanswer, hlow⟩)
      · omega
      · have := hdue hanswer
        omega

/-- **The committed entries that the log keeps stay below the threshold** on an event that advances
the commit index, in exactly the cases that `StaysBelow` names. -/
theorem keptCommitted_onEvent (h : n.Grounded) (hT : 0 < n.snapshotManager.threshold)
    (hadvanced : n.replication.commitIndex < (n.onEvent R ev).replication.commitIndex) :
    (n.onEvent R ev).keptCommitted < n.snapshotManager.threshold ↔ n.StaysBelow R ev := by
  cases onEvent_commits R n ev with
  | nothing _ _ _ _ commitIndex => omega
  | @installs _ _ T index term offset data result asked reached fresh stored ok storage _ _
      commitIndex =>
    have hpoint : n.commitPoint R ev = none := by rw [asked]; rfl
    have hindex : LogStorage.snapIndex (n.onEvent R ev).storage = index := by
      unfold LogStorage.snapIndex
      rw [storage, LogStorage.image_discardEntriesBefore]
      rcases LogStorage.image_applySnapshotChunk (n.storageIn T) offset data true index term with
        ⟨_, _, bytes, himage⟩ | ⟨hfalse | ⟨e, he⟩, _⟩
      · rw [stored, himage]
        rfl
      · cases hfalse
      · rw [stored, he] at ok
        cases ok
    refine iff_of_true ?_ fun x hx => (by rw [hpoint] at hx; cases hx)
    rw [keptCommitted_eq (grounded_onEvent h).formed rfl, hindex]
    omega
  | upTo point _ _ _ _ _ face storage =>
    exact keptCommitted_of_commit h hT point (congrArg Face.commitIndex face) storage

/-- **The log stays bounded**, over any storage and either family of collections: in every life of a
node, a turn that advances the commit index leaves fewer committed entries in the log
than the threshold if and only if what it commits lies less than a threshold behind the snapshot,
or it is an answer and the snapshot lies below the threshold. -/
theorem log_bounded_iff [Restartable S] [FormedRestarts S] (h : n.Lived R)
    (hT : 1 ≤ n.snapshotManager.threshold)
    (hadvanced : n.replication.commitIndex < (n.turn R t).replication.commitIndex) :
    (n.turn R t).keptCommitted < n.snapshotManager.threshold ↔
      ∀ ev ∈ n.asEvent t, n.StaysBelow R ev := by
  rcases turn_cases R n t with ⟨storage, boot, rfl⟩ | ⟨_, heq⟩ | ⟨ev, m, hsome, heq, _⟩
  · exact absurd hadvanced (Nat.not_lt_zero _)
  · rw [heq] at hadvanced
    exact absurd hadvanced (Nat.lt_irrefl _)
  · rw [heq] at hadvanced ⊢
    rw [hsome]
    refine (keptCommitted_onEvent (grounded_of_lived h) hT hadvanced).trans ?_
    simp

/-- Node 1 of three with threshold 2, after some events. -/
def thresholdNode (evs : List (Event UInt8)) : TestNode UInt8 Adder :=
  evs.foldl (onEvent .testUtils)
    (start .testUtils 1 .new ⟨⟨0⟩, ⟨none, none, 0⟩, [2, 3], 2, 0, 100⟩)

/-- It is elected and takes two commands. -/
def firstCommands : List (Event UInt8) :=
  [.timerFired .election, .message 2 (.preVoteResponse 0 true),
    .message 2 (.requestVoteResponse 1 true), .clientCommand 1, .clientCommand 2]

/-- They are committed, and it takes two more. -/
def moreCommands : List (Event UInt8) :=
  firstCommands ++ [.message 2 (.appendEntriesResponse 1 true 2), .clientCommand 3, .clientCommand 4]

theorem log_bounded_iff_first :
    ((thresholdNode firstCommands).turn .testUtils
        (.event (.message 2 (.appendEntriesResponse 1 true 2)))).keptCommitted <
          (thresholdNode firstCommands).snapshotManager.threshold ↔
      ∀ ev ∈ (thresholdNode firstCommands).asEvent
        (.event (.message 2 (.appendEntriesResponse 1 true 2))),
        (thresholdNode firstCommands).StaysBelow .testUtils ev :=
  log_bounded_iff ((lived_start 1 _ rfl).events _) (by decide +kernel) (by decide +kernel)

/-- When the threshold is crossed for the second time, no snapshot is taken. -/
theorem second_snapshot_not_taken :
    ¬ ∀ (n : TestNode UInt8 Adder) (t : Turn UInt8 (InMemoryStorage UInt8) Adder),
      n.Lived .testUtils → 1 ≤ n.snapshotManager.threshold → n.role = .leader →
        n.replication.commitIndex < (n.turn .testUtils t).replication.commitIndex →
          (n.turn .testUtils t).keptCommitted < n.snapshotManager.threshold := by
  intro h
  have hkept := h (thresholdNode moreCommands)
    (.event (.message 2 (.appendEntriesResponse 1 true 4))) ((lived_start 1 _ rfl).events _)
    (by decide +kernel) (by decide +kernel) (by decide +kernel)
  exact absurd hkept (by decide +kernel)

end RaftNode

end MetalRaft
