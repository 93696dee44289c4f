import MetalRaft.OneVote

/-!
# Terms that wrap

A term is a `u64`.  Only `start_election` counts it up, and nothing stops it at the end: in a release
build the term after `u64::MAX` is 0.  A single message can take a node that far, since any term
that a message names is adopted.

* `onEventWrapping` — an event as a release build handles it; `onEventWrapping_eq` — with a term to
  spare it is handled as with unbounded terms.
* `VotesOnce` — stored terms never go down, the term in memory is the stored one, and the votes of a
  term name one candidate.
* `CampaignsAtEnd` — the turns that start an election in the last term and store what follows it.
* `one_vote_per_term` — `VotesOnce` holds after every turn of a life exactly as long as no turn does
  that; `term_falls_at_end` — without the condition it fails.
-/

set_option autoImplicit false

namespace MetalRaft

open Transition

/-! ## `start_election` in a release build -/

/-- `*current_term += 1` on a `u64`. -/
def wrappingSucc (term : Nat) : Nat := (term + 1) % 2 ^ 64

theorem wrappingSucc_eq {term : Nat} (h : term + 1 < 2 ^ 64) : wrappingSucc term = term + 1 :=
  Nat.mod_eq_of_lt h

theorem wrappingSucc_lt {term : Nat} (h : 2 ^ 64 ≤ term + 1) : wrappingSucc term < term := by
  unfold wrappingSucc
  omega

variable {P S SM : Type} [Storage S P]

def ElectionManager.startElectionWrapping (em : ElectionManager) (nodeId : NodeId)
    (currentTerm : Nat) (storage : S) : ElectionManager × Nat × S × NodeState × RaftMsg P :=
  let currentTerm := wrappingSucc currentTerm
  let storage := Storage.setCurrentTerm storage currentTerm
  let storage := Storage.setVotedFor storage (some nodeId)
  ({ em with
      votesReceived := [nodeId]
      inPreVote := false
      timerService := em.timerService.resetElectionTimer },
    currentTerm, storage, .candidate,
    .requestVote currentTerm nodeId (Storage.lastLogIndex storage) (Storage.lastLogTerm storage))

namespace RaftNode

def startElectionWrapping (R : Realization) (n : RaftNode P S SM) : RaftNode P S SM :=
  let started := n.election.startElectionWrapping n.id n.currentTerm n.storage
  let n :=
    { n with
      election := started.1
      currentTerm := started.2.1
      storage := started.2.2.1
      role := started.2.2.2.1 }.broadcast R started.2.2.2.2
  if n.config.members.length ≤ 1 then n.becomeLeader R else n

def handlePreVoteResponseWrapping (R : Realization) (n : RaftNode P S SM) (sender : NodeId)
    (term : Nat) (voteGranted : Bool) : RaftNode P S SM :=
  if term > n.currentTerm then n
  else
    let handled := n.election.handlePreVoteResponse R sender voteGranted n.config
    let n := { n with election := handled.1 }
    if handled.2 then n.startElectionWrapping R else n

def handleElectionTimerWrapping (R : Realization) (n : RaftNode P S SM) : RaftNode P S SM :=
  if n.role ≠ .leader then
    let n := n.startPreVote R
    if n.config.members.length ≤ 1 then n.startElectionWrapping R else n
  else n

variable [StateMachine SM P]

/-- The other events start no election. -/
def onEventWrapping (R : Realization) (n : RaftNode P S SM) : Event P → RaftNode P S SM
  | .timerFired .election => n.handleElectionTimerWrapping R
  | .message sender (.preVoteResponse term voteGranted) =>
    n.handlePreVoteResponseWrapping R sender term voteGranted
  | ev => n.onEvent R ev

section

variable {R : Realization} {n : RaftNode P S SM} {ev : Event P}

omit [StateMachine SM P] in
theorem startElectionWrapping_eq (h : n.currentTerm + 1 < 2 ^ 64) :
    n.startElectionWrapping R = n.startElection R := by
  unfold startElectionWrapping ElectionManager.startElectionWrapping
  rw [wrappingSucc_eq h]
  rfl

omit [StateMachine SM P] in
theorem currentTerm_startPreVote (n : RaftNode P S SM) :
    (n.startPreVote R).currentTerm = n.currentTerm := by
  unfold startPreVote
  rw [broadcast_eq]

omit [Storage S P] [StateMachine SM P] in
/-- The quorum of pre-votes is looked up in the state before the answer. -/
theorem handlePreVoteResponse_starts {sender : NodeId} {term : Nat} {granted : Bool}
    (hterm : ¬ term > n.currentTerm)
    (h : (n.election.handlePreVoteResponse R sender granted n.config).2 = true) :
    n.StartsElection R (.message sender (.preVoteResponse term granted) : Event P) := by
  unfold ElectionManager.handlePreVoteResponse at h
  split at h
  · cases h
  · rename_i hcount
    simp only [Bool.or_eq_true, Bool.not_eq_true', not_or, Bool.not_eq_false] at hcount
    dsimp only at h
    split at h
    · rename_i hquorum
      exact ⟨Nat.not_lt.mp hterm, hcount.1, hcount.2, hquorum⟩
    · cases h

/-- With a term to spare, an event is handled as with unbounded terms. -/
theorem onEventWrapping_eq (h : n.StartsElection R ev → n.currentTerm + 1 < 2 ^ 64) :
    n.onEventWrapping R ev = n.onEvent R ev := by
  cases ev with
  | timerFired kind =>
    cases kind with
    | heartbeat => rfl
    | election =>
      show n.handleElectionTimerWrapping R = n.handleElectionTimer R
      rw [handleElectionTimer_eq]
      unfold handleElectionTimerWrapping
      have hconfig : (n.startPreVote R).config = n.config :=
        congrArg ConfigChangeManager.config (configManager_startPreVote n)
      dsimp only
      rw [hconfig]
      split
      · rename_i hrole
        split
        · rename_i hsolo
          refine startElectionWrapping_eq ?_
          rw [currentTerm_startPreVote]
          exact h ⟨hrole, hsolo⟩
        · rfl
      · rfl
  | message sender msg =>
    cases msg with
    | preVoteResponse term granted =>
      show n.handlePreVoteResponseWrapping R sender term granted =
        n.handlePreVoteResponse R sender term granted
      unfold handlePreVoteResponseWrapping handlePreVoteResponse
      split
      · rfl
      · rename_i hterm
        dsimp only
        split
        · rename_i hstarts
          exact startElectionWrapping_eq (h (handlePreVoteResponse_starts hterm hstarts))
        · rfl
    | _ => rfl
  | _ => rfl

/-- What an event that starts an election leaves: the term and the vote are stored one after the
other, pre-votes are asked for before, and all else is sent after. -/
structure Campaigned (n n' : RaftNode P S SM) : Prop where
  storage : n'.storage =
    Storage.setVotedFor (Storage.setCurrentTerm n.storage (wrappingSucc n.currentTerm)) (some n.id)
  transport : ∃ asked outs, n'.transport = n.transport ++ asked ++ outs ∧
    (∀ o ∈ asked, ∃ term id li lt, o.msg = .preVoteRequest term id li lt) ∧
    ∀ o ∈ outs, o.stored = n'.storage

omit [StateMachine SM P] in
/-- Messages that are sent once the term and the vote are stored. -/
theorem Campaigned.sends {n' n'' : RaftNode P S SM} (h : Campaigned n n')
    (outs : List (Outgoing P S)) (hstorage : n''.storage = n'.storage)
    (htransport : n''.transport = n'.transport ++ outs)
    (hstored : ∀ o ∈ outs, o.stored = n'.storage) : Campaigned n n'' := by
  obtain ⟨asked, before, hbefore, hasked, hleft⟩ := h.transport
  refine ⟨hstorage.trans h.storage, asked, before ++ outs, ?_, hasked, fun o ho => ?_⟩
  · rw [htransport, hbefore, List.append_assoc]
  · rw [hstorage]
    exact (List.mem_append.mp ho).elim (hleft o) (hstored o)

omit [StateMachine SM P] in
theorem startElectionWrapping_campaigned (n : RaftNode P S SM) :
    Campaigned n (n.startElectionWrapping R) := by
  have hstands : ∀ n' : RaftNode P S SM, n'.transport = n.transport →
      n'.storage = Storage.setVotedFor
        (Storage.setCurrentTerm n.storage (wrappingSucc n.currentTerm)) (some n.id) →
      ∀ msg, Campaigned n (n'.broadcast R msg) := by
    intro n' htransport hstorage msg
    have hquiet : Campaigned n n' :=
      ⟨hstorage, [], [], by simp [htransport], fun _ ho => absurd ho List.not_mem_nil,
        fun _ ho => absurd ho List.not_mem_nil⟩
    rw [broadcast_eq]
    refine hquiet.sends _ rfl rfl fun o ho => ?_
    obtain ⟨t, -, rfl⟩ := List.mem_map.mp ho
    rfl
  have hleads : ∀ n' : RaftNode P S SM, Campaigned n n' → Campaigned n (n'.becomeLeader R) := by
    intro n' hn'
    refine hn'.sends ((n'.peerIds R).map fun t => ⟨t, (n'.replication.initializeLeaderState R
      n'.config.members n'.storage).getAppendEntriesForPeer t n'.id n'.storage, n'.storage⟩)
      ?_ ?_ fun o ho => ?_
    · unfold becomeLeader
      rw [sendAppendEntriesToFollowers_eq]
    · unfold becomeLeader
      rw [sendAppendEntriesToFollowers_eq]
      rfl
    · obtain ⟨t, -, rfl⟩ := List.mem_map.mp ho
      rfl
  unfold startElectionWrapping
  dsimp only
  split
  · refine hleads _ (hstands _ ?_ ?_ _) <;> rfl
  · refine hstands _ ?_ ?_ _ <;> rfl

omit [StateMachine SM P] in
theorem Campaigned.of_startPreVote {n' : RaftNode P S SM} (h : Campaigned (n.startPreVote R) n') :
    Campaigned n n' := by
  have hstorage : (n.startPreVote R).storage = n.storage := by
    unfold startPreVote
    rw [broadcast_eq]
  have hid : (n.startPreVote R).id = n.id := by
    unfold startPreVote
    rw [broadcast_eq]
  have htransport : (n.startPreVote R).transport = n.transport ++ (n.peerIds R).map fun t =>
      ⟨t, .preVoteRequest n.currentTerm n.id (Storage.lastLogIndex n.storage)
        (Storage.lastLogTerm n.storage), n.storage⟩ := by
    unfold startPreVote
    rw [broadcast_eq]
    rfl
  obtain ⟨hwrites, asked, outs, hsent, hasked, houts⟩ := h
  rw [hstorage, hid, currentTerm_startPreVote] at hwrites
  rw [htransport, List.append_assoc n.transport] at hsent
  refine ⟨hwrites, _, outs, hsent, fun o ho => ?_, houts⟩
  rcases List.mem_append.mp ho with ho | ho
  · obtain ⟨t, -, rfl⟩ := List.mem_map.mp ho
    exact ⟨_, _, _, _, rfl⟩
  · exact hasked o ho

theorem onEventWrapping_campaigned (h : n.StartsElection R ev) :
    Campaigned n (n.onEventWrapping R ev) := by
  cases ev with
  | timerFired kind =>
    cases kind with
    | heartbeat => exact h.elim
    | election =>
      obtain ⟨hrole, hsolo⟩ := h
      have hconfig : (n.startPreVote R).config = n.config :=
        congrArg ConfigChangeManager.config (configManager_startPreVote n)
      have heq : n.onEventWrapping R (.timerFired .election) =
          (n.startPreVote R).startElectionWrapping R := by
        show n.handleElectionTimerWrapping R = _
        unfold handleElectionTimerWrapping
        dsimp only
        rw [if_pos hrole, hconfig, if_pos hsolo]
      rw [heq]
      exact (startElectionWrapping_campaigned _).of_startPreVote
  | message sender msg =>
    cases msg with
    | preVoteResponse term granted =>
      obtain ⟨hterm, hpre, hgranted, hquorum⟩ := h
      have heq : n.onEventWrapping R (.message sender (.preVoteResponse term granted)) =
          RaftNode.startElectionWrapping R { n with
            election := { n.election with
              preVotesReceived := pushWithin R.nodes n.election.preVotesReceived sender
              inPreVote := false } } := by
        show n.handlePreVoteResponseWrapping R sender term granted = _
        unfold handlePreVoteResponseWrapping ElectionManager.handlePreVoteResponse
        rw [if_neg (Nat.not_lt.mpr hterm), hpre, hgranted]
        dsimp only [Bool.not_true, Bool.or_false]
        rw [hquorum]
        rfl
      rw [heq]
      obtain ⟨hstorage, htransport⟩ := startElectionWrapping_campaigned (R := R) { n with
        election := { n.election with
          preVotesReceived := pushWithin R.nodes n.election.preVotesReceived sender
          inPreVote := false } }
      exact ⟨hstorage, htransport⟩
    | _ => exact h.elim
  | _ => exact h.elim

end

end RaftNode

/-! ## Lives in a release build -/

/-- The event of a turn, whether it is handled to its end or not. -/
def Turn.handles : Turn P SM → Event P
  | .event ev | .crash ev _ _ => ev

namespace Life

variable {D : Type} [Storage D P] [StateMachine SM P]

def stepWrapping (R : Realization) (l : Life P D SM) : Turn P SM → Life P D SM
  | .event ev =>
    let n := l.node.onEventWrapping R ev
    ⟨{ n with transport := [] }, l.votes ++ emitted ev n.storage.writes n.transport⟩
  | .crash ev k setup =>
    let n := l.node.onEventWrapping R ev
    let m := l.node.storage.writes + k
    ⟨boot R l.node.id setup (n.storage.rewind m), l.votes ++ emitted ev m n.transport⟩

omit [StateMachine SM P] in
/-- One vote per term, in a state of a life. -/
structure VotesOnce (l : Life P D SM) : Prop where
  terms : l.node.storage.history.Pairwise
    fun d d' => Storage.currentTerm d ≤ Storage.currentTerm d'
  currentTerm : l.node.currentTerm = Storage.currentTerm l.node.storage
  once : ∀ T x y, (T, x) ∈ l.votes → (T, y) ∈ l.votes → x = y

/-- The turn starts an election in the last term, and does not crash before it has stored the term
that comes next. -/
def CampaignsAtEnd (R : Realization) (l : Life P D SM) : Turn P SM → Prop
  | .event ev => l.node.StartsElection R ev ∧ 2 ^ 64 ≤ l.node.currentTerm + 1
  | .crash ev k _ => l.node.StartsElection R ev ∧ 2 ^ 64 ≤ l.node.currentTerm + 1 ∧ 0 < k

instance (R : Realization) (l : Life P D SM) : (turn : Turn P SM) →
    Decidable (l.CampaignsAtEnd R turn)
  | .event _ => inferInstanceAs (Decidable (_ ∧ _))
  | .crash _ _ _ => inferInstanceAs (Decidable (_ ∧ _ ∧ _))

end Life

section

variable {R : Realization} {D : Type} [Storage D P] [StateMachine SM P] [LawfulStorage D P]
  {l : Life P D SM} {ev : Event P}

open RaftNode

omit [StateMachine SM P] [LawfulStorage D P] in
theorem Honest.votesOnce (h : Honest l) : l.VotesOnce := ⟨h.along, h.currentTerm, h.once⟩

omit [LawfulStorage D P] in
/-- With a term to spare, a turn is what it is with unbounded terms. -/
theorem stepWrapping_eq {turn : Turn P SM}
    (h : l.node.StartsElection R turn.handles → l.node.currentTerm + 1 < 2 ^ 64) :
    l.stepWrapping R turn = l.step R turn := by
  have heq := onEventWrapping_eq h
  cases turn with
  | event ev =>
    dsimp only [Turn.handles] at heq
    dsimp only [Life.stepWrapping, Life.step]
    rw [heq]
  | crash ev k setup =>
    dsimp only [Turn.handles] at heq
    dsimp only [Life.stepWrapping, Life.step]
    rw [heq]

omit [StateMachine SM P] in
/-- Once the wrapped term is stored, the stored terms have fallen. -/
theorem falls_of_wrapped (h : Honest l) (hend : 2 ^ 64 ≤ l.node.currentTerm + 1)
    {history : List D}
    (hpre : l.node.storage.history ++
      [Storage.setCurrentTerm l.node.storage.disk (wrappingSucc l.node.currentTerm)] <+: history) :
    ¬ history.Pairwise fun d d' => Storage.currentTerm d ≤ Storage.currentTerm d' := by
  refine Journal.not_pairwise_of_write hpre ?_
  rw [LawfulStorage.currentTerm_setCurrentTerm]
  have hterm : l.node.currentTerm = Storage.currentTerm l.node.storage.disk := h.currentTerm
  have hlt := wrappingSucc_lt hend
  omega

omit [LawfulStorage D P] in
/-- A crash before the wrapped term is stored undoes the election. -/
theorem honest_crash_first (h : Honest l) (hstarts : l.node.StartsElection R ev)
    (setup : Setup SM) : Honest (l.stepWrapping R (.crash ev 0 setup)) := by
  obtain ⟨hstorage, asked, outs, htransport, hasked, houts⟩ :=
    onEventWrapping_campaigned (R := R) hstarts
  have hrewind : (l.node.onEventWrapping R ev).storage.rewind (l.node.storage.writes + 0) =
      l.node.storage := by
    rw [hstorage]
    exact Journal.rewind_write_write _ _ _
  have hnone : emitted ev (l.node.storage.writes + 0)
      (l.node.onEventWrapping R ev).transport = [] := by
    rw [List.eq_nil_iff_forall_not_mem]
    intro x hx
    obtain ⟨o, ho, hle, hvote⟩ := mem_emitted.mp hx
    rw [htransport, h.silent, List.nil_append] at ho
    rcases List.mem_append.mp ho with ho | ho
    · obtain ⟨term, id, li, lt, hmsg⟩ := hasked o ho
      rw [hmsg] at hvote
      cases hvote
    · rw [houts o ho, hstorage] at hle
      have hwrites : (Storage.setVotedFor (Storage.setCurrentTerm l.node.storage
          (wrappingSucc l.node.currentTerm)) (some l.node.id)).writes =
            l.node.storage.writes + 2 := by
        show ((l.node.storage.write _).write _).writes = _
        rw [Journal.writes_write, Journal.writes_write]
      omega
  show Honest ⟨Life.boot R l.node.id setup _, l.votes ++ _⟩
  rw [hrewind, hnone, List.append_nil]
  exact ⟨rfl, rfl, h.along, h.backed, h.once⟩

theorem honest_stepWrapping (h : Honest l) {turn : Turn P SM} (hok : ¬ l.CampaignsAtEnd R turn) :
    Honest (l.stepWrapping R turn) := by
  cases turn with
  | event ev =>
    rw [stepWrapping_eq fun hstarts => Nat.not_le.mp fun hend => hok ⟨hstarts, hend⟩]
    exact honest_step h _
  | crash ev k setup =>
    by_cases hend : l.node.StartsElection R ev ∧ 2 ^ 64 ≤ l.node.currentTerm + 1
    · obtain rfl : k = 0 := by
        by_contra hk
        exact hok ⟨hend.1, hend.2, Nat.pos_of_ne_zero hk⟩
      exact honest_crash_first h hend.1 setup
    · rw [stepWrapping_eq fun hstarts => Nat.not_le.mp fun hle => hend ⟨hstarts, hle⟩]
      exact honest_step h _

theorem votesOnce_stepWrapping (h : Honest l) (turn : Turn P SM) :
    (l.stepWrapping R turn).VotesOnce ↔ ¬ l.CampaignsAtEnd R turn := by
  refine ⟨fun hvotes hend => ?_, fun hok => (honest_stepWrapping h hok).votesOnce⟩
  cases turn with
  | event ev =>
    obtain ⟨hstarts, hend⟩ := hend
    have hstorage := (onEventWrapping_campaigned (R := R) hstarts).storage
    refine falls_of_wrapped h hend ?_ hvotes.terms
    show _ <+: (l.node.onEventWrapping R ev).storage.history
    rw [hstorage]
    exact ⟨[_], rfl⟩
  | crash ev k setup =>
    obtain ⟨hstarts, hend, hk⟩ := hend
    obtain ⟨k, rfl⟩ := Nat.exists_eq_succ_of_ne_zero (Nat.ne_of_gt hk)
    have hstorage := (onEventWrapping_campaigned (R := R) hstarts).storage
    refine falls_of_wrapped h hend ?_ hvotes.terms
    show _ <+: ((l.node.onEventWrapping R ev).storage.rewind _).history
    rw [hstorage]
    exact Journal.history_rewind_write _ _ _ k

/-- **One vote per term, across crashes**, exactly as long as no election starts in the last term.
Whatever messages, timers and commands reach a node, and wherever between two writes it crashes: the
stored term never goes down, the term in memory is the stored one, and all votes of one term name
one candidate, if and only if the node never campaigns from `u64::MAX` and stores what follows. -/
theorem one_vote_per_term {id : NodeId} {setup : Setup SM} {disk : D} {turns : List (Turn P SM)} :
    ((Life.start R id setup disk : Life P D SM).VotesOnce ∧
        Admitted (Life.stepWrapping R) (fun l turn => (l.stepWrapping R turn).VotesOnce)
          (Life.start R id setup disk) turns) ↔
      Admitted (Life.stepWrapping R) (fun l turn => ¬ l.CampaignsAtEnd R turn)
        (Life.start R id setup disk : Life P D SM) turns := by
  have hstart : Honest (Life.start R id setup disk : Life P D SM) :=
    ⟨rfl, rfl, List.pairwise_singleton _ _, by simp [Life.start], by simp [Life.start]⟩
  have hall : Admitted (Life.stepWrapping R) (fun _ _ => True) (Life.start R id setup disk) turns :=
    Admitted.of_true turns
  rw [Admitted.congr_of_invariant (I := Honest)
    (fun _ turn hl _ => votesOnce_stepWrapping hl turn)
    (fun _ _ hl _ hok => honest_stepWrapping hl hok) hstart hall]
  exact and_iff_right hstart.votesOnce

end

/-- A crash tears term 2 off its vote, so the node starts term 2 with the vote of term 1 and can
only renew that one. -/
theorem one_vote_per_term_torn :
    let setup : Setup Adder := ⟨⟨0⟩, ⟨none, none, 0⟩, [2, 3], 100, 0, 100⟩
    let turns : List (Turn UInt8 Adder) :=
      [.event (.message 2 (.requestVote 1 2 0 0)), .crash (.message 3 (.requestVote 2 3 0 0)) 1 setup,
        .event (.message 3 (.requestVote 2 3 0 0)), .event (.message 2 (.requestVote 2 2 0 0))]
    let l : Life UInt8 (InMemoryStorage UInt8) Adder := Life.start .testUtils 1 setup .new
    (turns.foldl (Life.stepWrapping .testUtils) l).votes = [(1, 2), (2, 2)] ∧
      Admitted (Life.stepWrapping .testUtils)
        (fun l turn => (l.stepWrapping .testUtils turn).VotesOnce) l turns := by
  intro setup turns l
  exact ⟨by decide +kernel, (one_vote_per_term.mpr (by decide +kernel)).2⟩

/-- Node 1 of three: a message of the last term is enough, and the next election is for term 0. -/
theorem term_falls_at_end :
    let setup : Setup Adder := ⟨⟨0⟩, ⟨none, none, 0⟩, [2, 3], 100, 0, 100⟩
    ¬ ∀ l : Life UInt8 (InMemoryStorage UInt8) Adder,
      Run (Life.stepWrapping .testUtils) (fun _ _ => True) (Life.start .testUtils 1 setup .new) l →
        l.VotesOnce := by
  intro setup h
  have hvotes := h _ (Admitted.run
    [.event (.message 2 (.requestVote (2 ^ 64 - 1) 2 0 0)), .event (.timerFired .election),
      .event (.message 3 (.preVoteResponse 0 true))] (Admitted.of_true _))
  have hterms : ¬ (([.event (.message 2 (.requestVote (2 ^ 64 - 1) 2 0 0)),
      .event (.timerFired .election), .event (.message 3 (.preVoteResponse 0 true))].foldl
        (Life.stepWrapping .testUtils) (Life.start .testUtils 1 setup .new :
          Life UInt8 (InMemoryStorage UInt8) Adder)).node.storage.history.map
            Storage.currentTerm).Pairwise (· ≤ ·) := by decide +kernel
  exact hterms (List.pairwise_map.mpr hvotes.terms)

end MetalRaft
