import MetalRaft.Lifetime
import MetalRaft.LogFacts
import MetalRaft.Outcome

/-!
# Higher terms and the leader hint

* `hintAfter` — what handling an event makes of `current_leader`.
* `SteppedDown` — what a node is meant to be once it has learned of a higher term;
  `higher_term_iff` says which messages bring that about.
* `LatestLeader` — the hint names the sender of an AppendEntries of the greatest term received;
  `leader_hint_iff` says in which runs it always does.
-/

set_option autoImplicit false

namespace MetalRaft

open Transition LogReplicationManager

variable {P S SM : Type} [Storage S P] [StateMachine SM P]

def RaftMsg.isInstallSnapshot : RaftMsg P → Bool
  | .installSnapshot .. => true
  | _ => false

namespace RaftNode

variable {R : Realization} {n : RaftNode P S SM} {ev : Event P}

/-! ## What becomes of the hint -/

/-- The hint after an event: an AppendEntries that is not of a higher term sets it, and a message by
which the node steps down clears it. -/
def hintAfter (n : RaftNode P S SM) : Event P → Option NodeId
  | .message sender (.appendEntries T _ _ _ _) =>
    if n.currentTerm < T then none else some sender
  | .message _ (.requestVote T _ _ _) | .message _ (.requestVoteResponse T _)
  | .message _ (.appendEntriesResponse T _ _) | .message _ (.installSnapshotResponse T _) =>
    if n.currentTerm < T then none else n.currentLeader
  | _ => n.currentLeader

omit [StateMachine SM P] in
theorem currentLeader_startElection (n : RaftNode P S SM) :
    (n.startElection R).currentLeader = n.currentLeader := by
  unfold startElection becomeLeader
  dsimp only
  rw [broadcast_eq, sendAppendEntriesToFollowers_eq]
  split <;> rfl

theorem currentLeader_submitEntry (n : RaftNode P S SM) (entryType : EntryType P) :
    (n.submitEntry R entryType).1.currentLeader = n.currentLeader := by
  unfold submitEntry
  split
  · rfl
  · dsimp only
    rw [sendAppendEntriesToFollowers_eq]
    dsimp only
    split <;> rfl

omit [StateMachine SM P] in
theorem currentLeader_handleTimer (n : RaftNode P S SM) (kind : TimerKind) :
    (n.handleTimer R kind).currentLeader = n.currentLeader := by
  cases kind with
  | election =>
    show (n.handleElectionTimer R).currentLeader = _
    unfold handleElectionTimer startPreVote
    split
    · dsimp only
      rw [broadcast_eq]
      split
      · exact currentLeader_startElection _
      · rfl
    · rfl
  | heartbeat =>
    show (n.handleHeartbeatTimer R).currentLeader = _
    unfold handleHeartbeatTimer sendHeartbeats
    split
    · rw [sendAppendEntriesToFollowers_eq]
    · rfl

theorem currentLeader_handleMessage (n : RaftNode P S SM) (sender : NodeId) (msg : RaftMsg P) :
    (n.handleMessage R sender msg).currentLeader = n.hintAfter (.message sender msg) := by
  cases msg with
  | preVoteRequest => rfl
  | preVoteResponse term granted =>
    show (n.handlePreVoteResponse R sender term granted).currentLeader = n.currentLeader
    unfold handlePreVoteResponse
    split
    · rfl
    · dsimp only
      split
      · exact currentLeader_startElection _
      · rfl
  | requestVote term candidateId index lastTerm =>
    show (n.handleVoteRequest sender term candidateId index lastTerm).currentLeader =
      if n.currentTerm < term then none else n.currentLeader
    unfold handleVoteRequest
    dsimp only
    split <;> rfl
  | requestVoteResponse term granted =>
    show (n.handleVoteResponse R sender term granted).currentLeader =
      if n.currentTerm < term then none else n.currentLeader
    unfold handleVoteResponse becomeLeader
    split
    · rfl
    · dsimp only
      rw [sendAppendEntriesToFollowers_eq]
      split <;> rfl
  | appendEntries term prev pt es lc =>
    show (n.handleAppendEntries R sender term prev pt es lc).currentLeader =
      if n.currentTerm < term then none else some sender
    unfold handleAppendEntries
    split <;> rfl
  | appendEntriesResponse term success index =>
    show (n.handleAppendEntriesResponse R sender term success index).currentLeader =
      if n.currentTerm < term then none else n.currentLeader
    unfold handleAppendEntriesResponse recordAppendEntriesResponse
    split
    · rfl
    · split
      · dsimp only
        split
        · split <;> rfl
        · rfl
      · rfl
  | installSnapshot term leaderId index lastTerm offset data done =>
    show (n.handleInstallSnapshot sender term index lastTerm offset data done).currentLeader =
      n.currentLeader
    unfold handleInstallSnapshot resetElectionTimerIfValidTerm
    dsimp only
    split <;> rfl
  | installSnapshotResponse term success =>
    show (n.handleInstallSnapshotResponse R sender term success).currentLeader =
      if n.currentTerm < term then none else n.currentLeader
    unfold handleInstallSnapshotResponse
    split
    · rfl
    · split
      · split <;> rfl
      · rfl

/-- What handling an event makes of the hint. -/
theorem currentLeader_onEvent (n : RaftNode P S SM) (ev : Event P) :
    (n.onEvent R ev).currentLeader = n.hintAfter ev := by
  cases ev with
  | message sender msg => exact currentLeader_handleMessage n sender msg
  | timerFired kind => exact currentLeader_handleTimer n kind
  | clientCommand payload => exact currentLeader_submitEntry n _
  | configChange change => exact currentLeader_submitEntry n _

/-! ## Higher terms -/

/-- The node follows in term `T`: the term is stored, the lease is gone, the leader is `sender` or
unknown, and the election timer has just been reset. -/
structure SteppedDown (n n' : RaftNode P S SM) (sender : NodeId) (T : Nat) : Prop where
  currentTerm : n'.currentTerm = T
  persisted : Storage.currentTerm n'.storage = T
  role : n'.role = .follower
  lease : n'.leaderLease.expiration = none
  leader : n'.currentLeader = none ∨ n'.currentLeader = some sender
  timer : n'.election.timerService.election = some n.election.timerService.clock

section

variable [LawfulStorage S P] {sender : NodeId} {T : Nat}

omit [StateMachine SM P] in
theorem currentTerm_inTerm (s : S) (T : Nat) (v : Option NodeId) :
    Storage.currentTerm (Storage.setVotedFor (Storage.setCurrentTerm s T) v) = T := by
  rw [LawfulStorage.currentTerm_setVotedFor, LawfulStorage.currentTerm_setCurrentTerm]

omit [StateMachine SM P] in
theorem steppedDown_stepDown : SteppedDown n (n.stepDown T) sender T :=
  ⟨rfl, currentTerm_inTerm _ _ _, rfl, rfl, Or.inl rfl, rfl⟩

omit [StateMachine SM P] in
/-- A vote given after stepping down changes none of it. -/
theorem steppedDown_answer {candidateId : NodeId} {index lastTerm : Nat} :
    SteppedDown n ((n.stepDown T).answerVoteRequest sender T candidateId index lastTerm) sender T := by
  have hdown : SteppedDown n (n.stepDown T) sender T := steppedDown_stepDown
  have hterm : T ≤ (n.stepDown T).currentTerm := Nat.le_refl _
  rw [answerVoteRequest_eq hterm]
  split
  · exact ⟨rfl, (LawfulStorage.currentTerm_setVotedFor _ _).trans hdown.persisted, rfl, rfl,
      Or.inl rfl, rfl⟩
  · exact ⟨rfl, hdown.persisted, rfl, rfl, Or.inl rfl, rfl⟩

/-- The storage calls of an installation keep the term. -/
theorem currentTerm_installChunk (r : LogReplicationManager) (index lastTerm offset : Nat)
    (data : List UInt8) (done : Bool) (currentTerm : Nat) (s : S) (sm : SM) (role : NodeState) :
    Storage.currentTerm (r.installChunk index lastTerm offset data done currentTerm s sm
        role).storage = Storage.currentTerm s ∧
      (r.installChunk index lastTerm offset data done currentTerm s sm role).currentTerm =
        currentTerm ∧
      (r.installChunk index lastTerm offset data done currentTerm s sm role).role = role := by
  have hstored := (LawfulStorage.cells_applySnapshotChunk s offset data done index lastTerm).1
  unfold installChunk
  dsimp only
  split
  · exact ⟨hstored, rfl, rfl⟩
  · split
    · split
      · exact ⟨hstored, rfl, rfl⟩
      · exact ⟨(LawfulStorage.cells_discardEntriesBefore _ _).1.trans hstored, rfl, rfl⟩
    · exact ⟨hstored, rfl, rfl⟩

/-- A snapshot of a higher term moves term, role and timer, and nothing else that is meant to
change. -/
theorem installSnapshot_higher (h : n.currentTerm < T) (sender : NodeId)
    (index lastTerm offset : Nat) (data : List UInt8) (done : Bool) :
    (n.handleInstallSnapshot sender T index lastTerm offset data done).currentTerm = T ∧
      Storage.currentTerm
        (n.handleInstallSnapshot sender T index lastTerm offset data done).storage = T ∧
      (n.handleInstallSnapshot sender T index lastTerm offset data done).role = .follower ∧
      (n.handleInstallSnapshot sender T index lastTerm offset data done).leaderLease =
        n.leaderLease ∧
      (n.handleInstallSnapshot sender T index lastTerm offset data done).election.timerService =
        n.election.timerService.resetElectionTimer := by
  have hstored : Storage.currentTerm (n.storageIn T) = T :=
    (congrArg Storage.currentTerm (if_pos h)).trans (currentTerm_inTerm n.storage T none)
  have hfollows : (n.joining T).role = .follower := if_pos (Or.inl h)
  rw [handleInstallSnapshot_of_le h.le]
  split
  · exact ⟨rfl, hstored, hfollows, rfl, rfl⟩
  · obtain ⟨hkept, hterm, hrole⟩ := currentTerm_installChunk n.replication index lastTerm offset
      data done T (n.storageIn T) n.stateMachine (n.joining T).role
    exact ⟨hterm, hkept.trans hstored, hrole.trans hfollows, rfl, rfl⟩

omit [LawfulStorage S P] in
/-- All other messages of a higher term lead to `step_down`, and nothing but a vote comes after. -/
theorem handleMessage_higher {msg : RaftMsg P} (hmsg : msg.isPreVote = false)
    (hsnapshot : msg.isInstallSnapshot = false) (h : n.currentTerm < msg.term) :
    n.handleMessage R sender msg = n.stepDown msg.term ∨
      ∃ candidateId index lastTerm, n.handleMessage R sender msg =
        (n.stepDown msg.term).answerVoteRequest sender msg.term candidateId index lastTerm := by
  cases msg with
  | preVoteRequest | preVoteResponse => cases hmsg
  | installSnapshot => cases hsnapshot
  | requestVote term candidateId index lastTerm =>
    refine Or.inr ⟨candidateId, index, lastTerm, ?_⟩
    have hterm : term > n.currentTerm := h
    show n.handleVoteRequest sender term candidateId index lastTerm = _
    simp only [handleVoteRequest, hterm, if_true, RaftMsg.term]
  | requestVoteResponse | appendEntries | appendEntriesResponse | installSnapshotResponse =>
    exact Or.inl (if_pos h)

/-- **A message of a higher term makes the node step down in all respects** if and only if it is no
InstallSnapshot, or there was no lease to revoke and no other leader to forget. -/
theorem higher_term_iff {msg : RaftMsg P} (hmsg : msg.isPreVote = false)
    (h : n.currentTerm < msg.term) :
    SteppedDown n (n.onEvent R (.message sender msg)) sender msg.term ↔
      (msg.isInstallSnapshot = true → n.leaderLease.expiration = none ∧
        (n.currentLeader = none ∨ n.currentLeader = some sender)) := by
  cases hsnapshot : msg.isInstallSnapshot with
  | false =>
    refine iff_of_true ?_ fun hi => (by cases hi)
    show SteppedDown n (n.handleMessage R sender msg) sender msg.term
    rcases handleMessage_higher hmsg hsnapshot h with hdown | ⟨_, _, _, hanswer⟩
    · rw [hdown]
      exact steppedDown_stepDown
    · rw [hanswer]
      exact steppedDown_answer
  | true =>
    cases msg with
    | installSnapshot term leaderId index lastTerm offset data done =>
      obtain ⟨hterm, hpersisted, hrole, hlease, htimer⟩ :=
        installSnapshot_higher h sender index lastTerm offset data done
      have hleader : (n.onEvent R (.message sender (.installSnapshot term leaderId index lastTerm
          offset data done))).currentLeader = n.currentLeader := currentLeader_onEvent n _
      constructor
      · intro hdown _
        have hknown := hdown.leader
        rw [hleader] at hknown
        exact ⟨(congrArg (·.expiration) hlease).symm.trans hdown.lease, hknown⟩
      · intro hcond
        obtain ⟨hnone, hknown⟩ := hcond rfl
        rw [← hleader] at hknown
        exact ⟨hterm, hpersisted, hrole, (congrArg (·.expiration) hlease).trans hnone, hknown,
          congrArg (·.election) htimer⟩
    | _ => cases hsnapshot

end

/-- Events by which node 1 of three is elected in term 1 and gets a lease for a command. -/
def leaseEvents : List (Event UInt8) :=
  [.timerFired .election, .message 2 (.preVoteResponse 0 true),
    .message 2 (.requestVoteResponse 1 true), .clientCommand 5,
    .message 2 (.appendEntriesResponse 1 true 1)]

def leaseLeader : TestNode UInt8 Adder :=
  leaseEvents.foldl (onEvent .testUtils) (start .testUtils 1 .new trioBoot)

theorem higher_term_iff_vote :
    SteppedDown leaseLeader
        (leaseLeader.onEvent .testUtils (.message 3 (.requestVote 2 3 1 1))) 3 2 ↔
      (RaftMsg.isInstallSnapshot (P := UInt8) (.requestVote 2 3 1 1) = true →
        leaseLeader.leaderLease.expiration = none ∧
          (leaseLeader.currentLeader = none ∨ leaseLeader.currentLeader = some 3)) :=
  higher_term_iff rfl (by decide +kernel)

/-- A leader that is sent a snapshot of a higher term follows, with its lease. -/
theorem lease_survives_installSnapshot :
    leaseLeader.Lived .testUtils ∧ leaseLeader.currentTerm = 1 ∧ leaseLeader.role = .leader ∧
      (leaseLeader.onEvent .testUtils
        (.message 3 (.installSnapshot 2 3 5 2 0 [9] true))).leaderLease.isValid = true ∧
      ¬ SteppedDown leaseLeader (leaseLeader.onEvent .testUtils
        (.message 3 (.installSnapshot 2 3 5 2 0 [9] true))) 3 2 := by
  refine ⟨(lived_start 1 trioBoot rfl).events _, by decide +kernel, by decide +kernel,
    by decide +kernel, fun hdown => ?_⟩
  have hlease := hdown.lease
  revert hlease
  decide +kernel

/-! ## The hint along a run -/

/-- One of the events is an AppendEntries of term `T` from `x`. -/
def SentBy (evs : List (Event P)) (x : NodeId) (T : Nat) : Prop :=
  ∃ prev pt es lc, Event.message x (.appendEntries T prev pt es lc) ∈ evs

/-- The hint names the sender of an AppendEntries of the greatest term received. -/
def LatestLeader (evs : List (Event P)) (n : RaftNode P S SM) : Prop :=
  ∀ x, n.currentLeader = some x → ∃ T, SentBy evs x T ∧ ∀ y T', SentBy evs y T' → T' ≤ T

/-- An AppendEntries of a past term leaves the hint alone. -/
def HintKept (R : Realization) (n : RaftNode P S SM) (ev : Event P) : Prop :=
  ∀ sender T prev pt es lc, ev = .message sender (.appendEntries T prev pt es lc) →
    T < n.currentTerm → (n.onEvent R ev).currentLeader = n.currentLeader

/-- An AppendEntries of a past term comes from the node that the hint names. -/
def FromKnownLeader (n : RaftNode P S SM) (ev : Event P) : Prop :=
  ∀ sender T prev pt es lc, ev = .message sender (.appendEntries T prev pt es lc) →
    T < n.currentTerm → n.currentLeader = some sender

/-- The hint and the term of a node that has handled the events. -/
structure Informed (evs : List (Event P)) (n : RaftNode P S SM) : Prop where
  received : ∀ y T, SentBy evs y T → T ≤ n.currentTerm
  latest : LatestLeader evs n

theorem hintKept_iff : HintKept R n ev ↔ FromKnownLeader n ev := by
  have hset : ∀ sender T prev pt es lc, T < n.currentTerm →
      (n.onEvent R (.message sender (.appendEntries T prev pt es lc))).currentLeader =
        some sender := by
    intro sender T prev pt es lc hlt
    rw [currentLeader_onEvent, hintAfter, if_neg (by omega)]
  constructor
  · rintro h sender T prev pt es lc rfl hlt
    exact (h sender T prev pt es lc rfl hlt).symm.trans (hset sender T prev pt es lc hlt)
  · rintro h sender T prev pt es lc rfl hlt
    exact (hset sender T prev pt es lc hlt).trans (h sender T prev pt es lc rfl hlt).symm

omit [StateMachine SM P] [Storage S P] in
theorem sentBy_snoc {evs : List (Event P)} {x : NodeId} {T : Nat} :
    SentBy (evs ++ [ev]) x T ↔
      SentBy evs x T ∨ ∃ prev pt es lc, ev = .message x (.appendEntries T prev pt es lc) := by
  unfold SentBy
  simp only [List.mem_append, List.mem_singleton, exists_or, eq_comm (b := ev)]

/-- An AppendEntries leaves the node at least in its term. -/
theorem term_le_onEvent {sender : NodeId} {T prev pt lc : Nat} {es : List (LogEntry P)} :
    T ≤ (n.onEvent R (.message sender (.appendEntries T prev pt es lc))).currentTerm := by
  rcases Nat.lt_or_ge n.currentTerm T with hlt | hge
  · have hdown : n.onEvent R (.message sender (.appendEntries T prev pt es lc)) = n.stepDown T :=
      if_pos hlt
    rw [hdown]
    exact Nat.le_refl _
  · exact hge.trans (Moves.currentTerm_le (onEvent_moves R n _))

/-- One event, as long as a message of a past term comes from the known leader. -/
theorem informed_onEvent {evs : List (Event P)} (h : Informed evs n) (hok : FromKnownLeader n ev) :
    Informed (evs ++ [ev]) (n.onEvent R ev) := by
  have hterm : ∀ y T, SentBy (evs ++ [ev]) y T → T ≤ (n.onEvent R ev).currentTerm := by
    intro y T hsent
    rcases sentBy_snoc.mp hsent with hold | ⟨prev, pt, es, lc, rfl⟩
    · exact (h.received y T hold).trans (Moves.currentTerm_le (onEvent_moves R n ev))
    · exact term_le_onEvent
  refine ⟨hterm, fun x hx => ?_⟩
  by_cases hentries : ∃ sender T prev pt es lc,
      ev = .message sender (.appendEntries T prev pt es lc)
  · obtain ⟨sender, T, prev, pt, es, lc, rfl⟩ := hentries
    rw [currentLeader_onEvent, hintAfter] at hx
    split at hx
    · cases hx
    · rename_i hle
      have hsender := Option.some.inj hx
      subst hsender
      have hnew : SentBy (evs ++ [.message sender (.appendEntries T prev pt es lc)]) sender T :=
        sentBy_snoc.mpr (Or.inr ⟨prev, pt, es, lc, rfl⟩)
      rcases Nat.eq_or_lt_of_le (Nat.not_lt.mp hle) with heq | hlt
      · -- nothing of a later term than the node's own has come
        refine ⟨T, hnew, fun y T' hsent => ?_⟩
        rcases sentBy_snoc.mp hsent with hold | ⟨_, _, _, _, hev⟩
        · exact (h.received y T' hold).trans heq.ge
        · cases hev
          exact Nat.le_refl _
      · -- the known leader again: whichever of its two terms is greater
        obtain ⟨G, hG, hgreatest⟩ := h.latest sender (hok sender T prev pt es lc rfl hlt)
        rcases Nat.le_total T G with hle | hle
        · refine ⟨G, sentBy_snoc.mpr (Or.inl hG), fun y T' hsent => ?_⟩
          rcases sentBy_snoc.mp hsent with hold | ⟨_, _, _, _, hev⟩
          · exact hgreatest y T' hold
          · cases hev
            exact hle
        · refine ⟨T, hnew, fun y T' hsent => ?_⟩
          rcases sentBy_snoc.mp hsent with hold | ⟨_, _, _, _, hev⟩
          · exact (hgreatest y T' hold).trans hle
          · cases hev
            exact Nat.le_refl _
  · have hsame : ∀ y T, SentBy (evs ++ [ev]) y T ↔ SentBy evs y T := by
      intro y T
      rw [sentBy_snoc, or_iff_left]
      rintro ⟨prev, pt, es, lc, hev⟩
      exact hentries ⟨y, T, prev, pt, es, lc, hev⟩
    have hhint : n.currentLeader = some x := by
      rw [currentLeader_onEvent] at hx
      unfold hintAfter at hx
      split at hx
      · exact absurd ⟨_, _, _, _, _, _, rfl⟩ hentries
      all_goals first
        | exact hx
        | (split at hx
           · cases hx
           · exact hx)
    simpa only [hsame] using h.latest x hhint

/-- **The leader hint never regresses**, and no AppendEntries of a past term touches it, in exactly
the runs in which each such message comes from the node that the hint names already. -/
theorem leader_hint_iff (R : Realization) (id : NodeId) (storage : S) (boot : Boot SM)
    (evs : List (Event P)) :
    ((∀ before, before <+: evs →
        LatestLeader before (before.foldl (onEvent R) (start R id storage boot))) ∧
      Admitted (onEvent R) (HintKept R) (start R id storage boot) evs) ↔
    Admitted (onEvent R) FromKnownLeader (start R id storage boot) evs := by
  rw [Admitted.congr fun _ _ => hintKept_iff, and_iff_right_iff_imp]
  rintro hadmitted before ⟨after, rfl⟩
  have hstart : Informed ([] : List (Event P)) (start R id storage boot) := by
    refine ⟨?_, fun x hx => (by cases hx)⟩
    rintro y T ⟨_, _, _, _, hmem⟩
    cases hmem
  exact (Admitted.history hstart (fun _ _ h hok => informed_onEvent h hok) before
    (Admitted.append.mp hadmitted).1).latest

/-- A follower that has followed node 3 in term 2 hears from node 2 of term 1 again. -/
theorem hint_regresses :
    (start .testUtils 1 .new trioBoot : TestNode UInt8 Adder).Lived .testUtils ∧
      ¬ LatestLeader
        [.message 2 (.appendEntries 1 0 0 [] 0), .message 2 (.appendEntries 1 0 0 [] 0),
          .message 3 (.appendEntries 2 0 0 [] 0), .message 3 (.appendEntries 2 0 0 [] 0),
          .message 2 (.appendEntries 1 0 0 [] 0)]
        ([.message 2 (.appendEntries 1 0 0 [] 0), .message 2 (.appendEntries 1 0 0 [] 0),
          .message 3 (.appendEntries 2 0 0 [] 0), .message 3 (.appendEntries 2 0 0 [] 0),
          .message 2 (.appendEntries 1 0 0 [] 0)].foldl (onEvent .testUtils)
            (start .testUtils 1 .new trioBoot : TestNode UInt8 Adder)) := by
  refine ⟨lived_start 1 trioBoot rfl, fun hlatest => ?_⟩
  obtain ⟨T, ⟨prev, pt, es, lc, hsent⟩, hgreatest⟩ := hlatest 2 (by decide +kernel)
  have hlater := hgreatest 3 2 ⟨0, 0, [], 0, by simp⟩
  have hT : T = 1 := (by simpa using hsent : T = 1 ∧ _).1
  omega

end RaftNode

end MetalRaft
