import MetalRaft.Deposed
import MetalRaft.LogFacts

/-!
# Leases and leaderships

A lease is revoked in `step_down` and nowhere else, and a leader can leave its role in three other
ways: by a snapshot of a later term, by a pre-vote response that makes it stand, and by applying
its own removal.

* `LeaseTurn` — what a node lives through: events, and readings of its clock, in any order.
* `LeaseInv` — nobody but a leader holds a lease, and a leader's was granted in its leadership.
* `lease_within_leadership` — this holds in every run in which no leader leaves with a lease.
* `lease_outlives_leadership` — one that does is elected again, and reads under the old lease.
-/

set_option autoImplicit false

namespace MetalRaft

open Transition

def Event.isAppendEntriesResponse {P : Type} : Event P → Prop
  | .message _ (.appendEntriesResponse _ _ _) => True
  | _ => False

namespace RaftNode

variable {P S SM : Type} [Storage S P] [StateMachine SM P] {R : Realization} {ev : Event P}
  {n₀ n n' : RaftNode P S SM}

/-! ## The stored term -/

section

variable [LawfulStorage S P]

omit [StateMachine SM P] in
theorem currentTerm_place (prev : Nat) (es : List (LogEntry P)) (s : S) :
    Storage.currentTerm (LogReplicationManager.placeEntries prev es s) =
      Storage.currentTerm s := by
  unfold LogReplicationManager.placeEntries
  split
  · rfl
  · dsimp only
    rw [(LawfulStorage.cells_appendEntries _ _).1]
    split
    · exact (LawfulStorage.cells_truncateAfter _ _).1
    · rfl

theorem currentTerm_create (s : S) (sm : SM) (i : Nat) :
    Storage.currentTerm (SnapshotManager.create s sm i).1 = Storage.currentTerm s := by
  unfold SnapshotManager.create
  split
  · rfl
  · split
    · rfl
    · exact (LawfulStorage.cells_discardEntriesBefore _ _).1.trans
        (LawfulStorage.cells_saveSnapshot _ _).1

theorem storedTerm_move (hmove : Move R ev n₀ n n')
    (h : n.currentTerm = Storage.currentTerm n.storage) :
    n'.currentTerm = Storage.currentTerm n'.storage := by
  have hcells : ∀ (s : S) (T : Nat) (v : Option NodeId),
      Storage.currentTerm (Storage.setVotedFor (Storage.setCurrentTerm s T) v) = T := by
    intro s T v
    rw [LawfulStorage.currentTerm_setVotedFor, LawfulStorage.currentTerm_setCurrentTerm]
  cases hmove with
  | inert hi =>
    rw [hi.currentTerm, hi.storage]
    exact h
  | adoptTerm => exact (hcells _ _ _).symm
  | campaign =>
    rw [broadcast_eq]
    exact (hcells _ _ _).symm
  | grant => exact h.trans (LawfulStorage.currentTerm_setVotedFor _ _).symm
  | place => exact h.trans (currentTerm_place _ _ _).symm
  | append => exact h.trans (LawfulStorage.cells_appendEntries _ _).1.symm
  | compact => exact h.trans (currentTerm_create _ _ _).symm
  | storeChunk => exact h.trans (LawfulStorage.cells_applySnapshotChunk _ _ _ _ _ _).1.symm
  | install =>
    exact h.trans ((LawfulStorage.cells_discardEntriesBefore _ _).1.trans
      (LawfulStorage.cells_applySnapshotChunk _ _ _ _ _ _).1).symm
  | _ => exact h

theorem storedTerm_onEvent (h : n.currentTerm = Storage.currentTerm n.storage) :
    (n.onEvent R ev).currentTerm = Storage.currentTerm (n.onEvent R ev).storage := by
  have hmoves := onEvent_moves R n ev
  generalize n.onEvent R ev = n' at hmoves ⊢
  induction hmoves with
  | refl => exact h
  | tail _ hlast ih => exact storedTerm_move hlast ih

end

/-! ## Turns -/

/-- A node handles an event, or its clock moves to some reading. -/
inductive LeaseTurn (P : Type) where
  | event (ev : Event P)
  | clock (now : Nat)

def leaseTurn (R : Realization) (n : RaftNode P S SM) : LeaseTurn P → RaftNode P S SM
  | .event ev => n.onEvent R ev
  | .clock now => { n with leaderLease := { n.leaderLease with clock := now } }

/-- In this turn the node, leader of term `T`, commits an entry of that term and is granted a lease
until `x` for it. -/
def GrantsLease (R : Realization) (T x : Nat) (n : RaftNode P S SM) : LeaseTurn P → Prop
  | .event ev =>
    n.role = .leader ∧ n.currentTerm = T ∧
      n.replication.commitIndex < (n.onEvent R ev).replication.commitIndex ∧
      (Storage.getEntry n.storage (n.onEvent R ev).replication.commitIndex).map (·.term) =
        some T ∧
      (n.onEvent R ev).leaderLease.expiration = some x
  | .clock _ => False

/-- The event is a snapshot of a later term. -/
def LaterSnapshot (n : RaftNode P S SM) : Event P → Prop
  | .message _ (.installSnapshot term _ _ _ _ _ _) => n.currentTerm < term
  | _ => False

/-- A leader with an unrevoked lease leaves in one of the three ways that do not revoke it. -/
def LeavesWithLease (R : Realization) (n : RaftNode P S SM) : LeaseTurn P → Prop
  | .event ev =>
    n.role = .leader ∧
      (n.leaderLease.expiration ≠ none ∧ (n.LaterSnapshot ev ∨ n.StartsElection R ev) ∨
        (n.leaderLease.expiration ≠ none ∨ ev.isAppendEntriesResponse) ∧
          n.AppliesOwnRemoval (n.onEvent R ev))
  | .clock _ => False

structure LeaseInv (R : Realization) (n₀ : RaftNode P S SM) (turns : List (LeaseTurn P))
    (n : RaftNode P S SM) : Prop where
  stored : n.currentTerm = Storage.currentTerm n.storage
  free : n.role ≠ .leader → n.leaderLease.expiration = none
  granted : n.role = .leader → ∀ x, n.leaderLease.expiration = some x →
    Happened (leaseTurn R) (GrantsLease R n.currentTerm x) n₀ turns

/-- A face that `n` may have after handling `ev`: only a leader holds a lease, and it has held it
before in the same leadership or is granted it now. -/
structure LeaseFace (R : Realization) (n : RaftNode P S SM) (ev : Event P) (f : Face P SM) :
    Prop where
  free : f.role ≠ .leader → f.leaderLease.expiration = none
  earned : f.role = .leader → ∀ x, f.leaderLease.expiration = some x →
    n.role = .leader ∧ f.currentTerm = n.currentTerm ∧ n.leaderLease.expiration = some x ∨
    GrantsLease R f.currentTerm x n (.event ev)

theorem LeaseFace.of_none {f : Face P SM} (h : f.leaderLease.expiration = none) :
    LeaseFace R n ev f :=
  ⟨fun _ => h, fun _ x hx => by rw [h] at hx; cases hx⟩

theorem LeaseFace.of_kept {f : Face P SM} (hlease : f.leaderLease = n.leaderLease)
    (hterm : f.currentTerm = n.currentTerm) (hled : f.role = .leader → n.role = .leader)
    (hfree : f.role ≠ .leader → n.leaderLease.expiration = none) : LeaseFace R n ev f := by
  refine ⟨fun hrole => ?_, fun hrole x hx => ?_⟩
  · rw [hlease]
    exact hfree hrole
  · rw [hlease] at hx
    exact Or.inl ⟨hled hrole, hterm, hx⟩

theorem leaseFace_onEvent (hok : ¬ LeavesWithLease R n (.event ev))
    (hfree : n.role ≠ .leader → n.leaderLease.expiration = none)
    (hstored : n.currentTerm = Storage.currentTerm n.storage) :
    LeaseFace R n ev (n.onEvent R ev).face := by
  have hsnapshot : n.LaterSnapshot ev → n.leaderLease.expiration = none := by
    intro hbad
    by_contra hne
    exact hok ⟨not_ne_iff.mp fun h => hne (hfree h), Or.inl ⟨hne, Or.inl hbad⟩⟩
  have hstarts : n.StartsElection R ev → n.leaderLease.expiration = none := by
    intro hbad
    by_contra hne
    exact hok ⟨not_ne_iff.mp fun h => hne (hfree h), Or.inl ⟨hne, Or.inr hbad⟩⟩
  have hremoved : n.AppliesOwnRemoval (n.onEvent R ev) → n.leaderLease.expiration = none := by
    intro hbad
    by_contra hne
    exact hok ⟨not_ne_iff.mp fun h => hne (hfree h), Or.inr ⟨Or.inl hne, hbad⟩⟩
  have hout := onEvent_outcome R n ev
  generalize hf : (n.onEvent R ev).face = f at hout ⊢
  cases hout with
  | keeps => exact .of_kept rfl rfl (fun h => h) hfree
  | stepsDown => exact .of_none rfl
  | yields =>
    refine .of_kept rfl rfl (fun h => (Face.follow_leader.mp h).1) fun hnot => hfree fun hrole => ?_
    exact hnot (Face.follow_leader.mpr ⟨hrole, Nat.lt_irrefl _⟩)
  | learns =>
    refine .of_kept rfl rfl (fun h => (Face.follow_leader.mp (Face.commit_leader.mp h).1).1)
      fun hnot => ?_
    by_cases hrole : n.role = .leader
    · refine hremoved (appliesOwnRemoval_of_commit hf rfl ?_)
      by_contra hmem
      exact hnot (Face.commit_leader.mpr ⟨Face.follow_leader.mpr ⟨hrole, Nat.lt_irrefl _⟩, hmem⟩)
    · exact hfree hrole
  | @commits sender m c e leader asked higher found term =>
    have hcommit : (n.onEvent R ev).replication.commitIndex = c := congrArg Face.commitIndex hf
    have hlease : (n.onEvent R ev).leaderLease = n.leaderLease.grant :=
      congrArg Face.leaderLease hf
    refine ⟨fun hnot => ?_, fun _ x hx => Or.inr ⟨leader, rfl, ?_, ?_, ?_⟩⟩
    · refine absurd (appliesOwnRemoval_of_commit hf rfl ?_) fun hbad =>
        hok ⟨leader, Or.inr ⟨Or.inr (by rw [asked]; trivial), hbad⟩⟩
      by_contra hmem
      exact hnot (Face.commit_leader.mpr ⟨leader, hmem⟩)
    · exact Nat.lt_of_lt_of_eq higher hcommit.symm
    · rw [hcommit, found, Option.map_some, term, ← hstored]
      rfl
    · rw [hlease]
      exact hx
  | commitsAlone leader =>
    refine .of_kept rfl rfl (fun _ => leader) fun hnot => ?_
    refine hremoved (appliesOwnRemoval_of_commit hf rfl ?_)
    by_contra hmem
    exact hnot (Face.commit_leader.mpr ⟨leader, hmem⟩)
  | hearsSnapshot asked reached | installs asked reached =>
    rcases Nat.lt_or_eq_of_le reached with hlt | rfl
    · exact .of_none (hsnapshot (by rw [asked]; exact hlt))
    · refine .of_kept rfl rfl (fun h => (Face.follow_leader.mp h).1)
        fun hnot => hfree fun hrole => ?_
      exact hnot (Face.follow_leader.mpr ⟨hrole, Nat.lt_irrefl _⟩)
  | campaigns cause | leadsAlone cause => exact .of_none (hstarts cause)
  | wins candidate => exact .of_none (hfree (by rw [candidate]; decide))

theorem leaseInv_turn [LawfulStorage S P] {turns : List (LeaseTurn P)} {t : LeaseTurn P}
    (h : LeaseInv R n₀ turns (turns.foldl (leaseTurn R) n₀))
    (hok : ¬ LeavesWithLease R (turns.foldl (leaseTurn R) n₀) t) :
    LeaseInv R n₀ (turns ++ [t]) (leaseTurn R (turns.foldl (leaseTurn R) n₀) t) := by
  cases t with
  | clock now =>
    exact ⟨h.stored, h.free, fun hrole x hx => Happened.snoc.mpr (Or.inl (h.granted hrole x hx))⟩
  | event ev =>
    have hface := leaseFace_onEvent hok h.free h.stored
    refine ⟨storedTerm_onEvent h.stored, hface.free, fun hrole x hx => ?_⟩
    rw [Happened.snoc]
    generalize turns.foldl (leaseTurn R) n₀ = n at *
    rcases hface.earned hrole x hx with ⟨hled, hterm, hold⟩ | hnew
    · have hterm' : (n.onEvent R ev).currentTerm = n.currentTerm := hterm
      show Happened _ (GrantsLease R (n.onEvent R ev).currentTerm x) _ _ ∨ _
      rw [hterm']
      exact Or.inl (h.granted hled x hold)
    · exact Or.inr hnew

/-! ## Runs of one node -/

/-- **A lease lies within the leadership that earned it**, in every run of arbitrary events and
clock readings in which no leader leaves with an unrevoked lease: a leader that holds a lease
committed an entry of its present term as its leader and was granted the lease for that, and who
does not lead holds none. -/
theorem lease_within_leadership [LawfulStorage S P] {id : NodeId} {storage : S} {stateMachine : SM}
    {timers : TimerService} {transport : List (Outgoing P S)} {peers : List NodeId}
    {observer : Observer P} {threshold clock lease : Nat} {turns : List (LeaseTurn P)}
    (h : Admitted (leaseTurn R) (fun n t => ¬ LeavesWithLease R n t)
      (newFromBuilder R id storage stateMachine timers transport peers observer threshold clock
        lease) turns)
    (hn : turns.foldl (leaseTurn R) (newFromBuilder R id storage stateMachine timers transport
      peers observer threshold clock lease) = n) (hvalid : n.leaderLease.isValid = true) :
    n.role = .leader ∧ ∃ x, n.leaderLease.expiration = some x ∧
      Happened (leaseTurn R) (GrantsLease R n.currentTerm x)
        (newFromBuilder R id storage stateMachine timers transport peers observer threshold clock
          lease) turns := by
  have hinv := Admitted.history (I := LeaseInv R _) ⟨rfl, fun _ => rfl, fun hrole => by cases hrole⟩
    (fun _ _ hinv hok => leaseInv_turn hinv hok) turns h
  rw [hn] at hinv
  cases hx : n.leaderLease.expiration with
  | none =>
    unfold LeaderLease.isValid at hvalid
    rw [hx] at hvalid
    cases hvalid
  | some x =>
    have hrole : n.role = .leader := by
      by_contra hnot
      rw [hinv.free hnot] at hx
      cases hx
    exact ⟨hrole, x, rfl, hinv.granted hrole x hx⟩

end RaftNode

/-! ## A lease that outlives its leadership -/

/-- Node 1 of three, as it starts. -/
def trioNode : TestNode UInt8 Adder :=
  .newFromBuilder .testUtils 1 .new ⟨0⟩ ⟨none, none, 0⟩ [] [2, 3] ⟨[]⟩ 100 0 100

/-- Node 1 begins a second pre-vote as a candidate of term 1, is elected and commits an entry. -/
def leaseTurns : List (RaftNode.LeaseTurn UInt8) :=
  [.event (.timerFired .election), .event (.message 2 (.preVoteResponse 0 true)),
    .event (.timerFired .election), .event (.message 2 (.requestVoteResponse 1 true)),
    .clock 5, .event (.clientCommand 7), .event (.message 2 (.appendEntriesResponse 1 true 1))]

/-- The second pre-vote comes to its end, and node 1 is elected again. -/
def reelection : List (RaftNode.LeaseTurn UInt8) :=
  [.event (.message 2 (.preVoteResponse 1 true)), .event (.message 2 (.requestVoteResponse 2 true))]

instance (n : TestNode UInt8 Adder) : (ev : Event UInt8) → Decidable (n.LaterSnapshot ev)
  | .timerFired _ | .clientCommand _ | .configChange _ => isFalse id
  | .message _ (.installSnapshot term _ _ _ _ _ _) =>
    inferInstanceAs (Decidable (n.currentTerm < term))
  | .message _ (.requestVote _ _ _ _) | .message _ (.requestVoteResponse _ _)
  | .message _ (.preVoteRequest _ _ _ _) | .message _ (.preVoteResponse _ _)
  | .message _ (.appendEntries _ _ _ _ _) | .message _ (.appendEntriesResponse _ _ _)
  | .message _ (.installSnapshotResponse _ _) => isFalse id

instance : (ev : Event UInt8) → Decidable (ev.isAppendEntriesResponse)
  | .timerFired _ | .clientCommand _ | .configChange _ => isFalse id
  | .message _ (.appendEntriesResponse _ _ _) => isTrue trivial
  | .message _ (.requestVote _ _ _ _) | .message _ (.requestVoteResponse _ _)
  | .message _ (.preVoteRequest _ _ _ _) | .message _ (.preVoteResponse _ _)
  | .message _ (.appendEntries _ _ _ _ _) | .message _ (.installSnapshot _ _ _ _ _ _ _)
  | .message _ (.installSnapshotResponse _ _) => isFalse id

instance (n n' : TestNode UInt8 Adder) : Decidable (n.AppliesOwnRemoval n') :=
  inferInstanceAs (Decidable (∃ _ ∈ _, _ ∧ _))

instance (n : TestNode UInt8 Adder) :
    (t : RaftNode.LeaseTurn UInt8) → Decidable (RaftNode.LeavesWithLease .testUtils n t)
  | .event _ => inferInstanceAs (Decidable (_ ∧ (_ ∧ (_ ∨ _) ∨ (_ ∨ _) ∧ _)))
  | .clock _ => isFalse id

instance (T x : Nat) (n : TestNode UInt8 Adder) :
    (t : RaftNode.LeaseTurn UInt8) → Decidable (RaftNode.GrantsLease .testUtils T x n t)
  | .event _ => inferInstanceAs (Decidable (_ ∧ _ ∧ _ ∧ _ ∧ _))
  | .clock _ => isFalse id

/-- The lease of the first leadership. -/
theorem lease_within_leadership_trio :
    let n := leaseTurns.foldl (RaftNode.leaseTurn .testUtils) trioNode
    n.leaderLease.isValid = true ∧ n.role = .leader ∧
      ∃ x, n.leaderLease.expiration = some x ∧
        Happened (RaftNode.leaseTurn .testUtils)
          (RaftNode.GrantsLease .testUtils n.currentTerm x) trioNode leaseTurns :=
  ⟨by decide +kernel, RaftNode.lease_within_leadership (R := .testUtils) (by decide +kernel) rfl
    (by decide +kernel)⟩

/-- Elected again, node 1 reads under the lease of its first leadership. -/
theorem lease_outlives_leadership :
    ¬ ∀ turns : List (RaftNode.LeaseTurn UInt8),
      let n := turns.foldl (RaftNode.leaseTurn .testUtils) trioNode
      n.role = .leader → n.leaderLease.isValid = true →
        ∃ x, n.leaderLease.expiration = some x ∧
          Happened (RaftNode.leaseTurn .testUtils)
            (RaftNode.GrantsLease .testUtils n.currentTerm x) trioNode turns := by
  intro h
  obtain ⟨x, hx, hgranted⟩ := h (leaseTurns ++ reelection) (by decide +kernel) (by decide +kernel)
  have hx' : x = 105 := by
    have hexp : ((leaseTurns ++ reelection).foldl (RaftNode.leaseTurn .testUtils)
        trioNode).leaderLease.expiration = some 105 := by decide +kernel
    rw [hexp] at hx
    exact (Option.some.inj hx).symm
  subst hx'
  exact absurd hgranted (by decide +kernel)

end MetalRaft
