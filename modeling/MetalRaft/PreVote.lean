import MetalRaft.Outcome
import MetalRaft.VoteTally
import Mathlib.Data.Finset.Card
import Mathlib.Data.List.InsertIdx
import Mathlib.Data.List.Perm.Basic

/-!
# Pre-vote rounds

A node asks its peers before it stands for the next term, and counts their answers by the length of
a list.  Neither the question nor the answer carries the number of the round, so the rounds that
messages belong to have to be followed from outside.

* `PreVoteStep` — everything an event can do to the pre-vote of a node; `preVoteStep_onEvent`.
* `Rounds` — a cluster whose messages in flight are marked with the round they belong to, with a
  record of who granted what.
* `CurrentAnswers` — a node counts answers to its current round only, and none completes its
  quorum after the node has accepted entries of its term.
* `term_raised_by_round` — in every run of such steps, whoever raises its term has been granted it
  by a quorum in the round that it started last.
* `term_raised_by_stale_answer` — a node that raises its term on answers to two rounds.
-/

set_option autoImplicit false

namespace MetalRaft

open Transition

variable {P SM : Type}

namespace RaftNode

/-- The pre-vote messages that the node has handed to the transport. -/
def preVoteTalk (n : TestNode P SM) : List (Packet P) := n.outbox.filter (·.msg.isPreVote)

variable {n n' : TestNode P SM} {ev : Event P}

theorem preVoteTalk_append {outs : List (Outgoing P (InMemoryStorage P))}
    (h : ∀ o ∈ outs, o.msg.isPreVote = false) :
    preVoteTalk { n with transport := n.transport ++ outs } = n.preVoteTalk := by
  unfold preVoteTalk
  have hnone : (outs.map fun o => (⟨n.id, o.target, o.msg⟩ : Packet P)).filter
      (·.msg.isPreVote) = [] := by
    rw [List.filter_eq_nil_iff]
    intro p hp
    obtain ⟨o, ho, rfl⟩ := List.mem_map.mp hp
    rw [h o ho]
    exact Bool.false_ne_true
  rw [outbox_append, List.filter_append, hnone, List.append_nil]

theorem preVoteTalk_send {target : NodeId} {msg : RaftMsg P} (h : msg.isPreVote = false) :
    (n.send target msg).preVoteTalk = n.preVoteTalk := by
  apply preVoteTalk_append
  intro o ho
  rw [List.mem_singleton.mp ho]
  exact h

theorem preVoteTalk_broadcast {msg : RaftMsg P} (h : msg.isPreVote = false) :
    (n.broadcast .testUtils msg).preVoteTalk = n.preVoteTalk := by
  rw [broadcast_eq]
  apply preVoteTalk_append
  intro o ho
  obtain ⟨t, _, rfl⟩ := List.mem_map.mp ho
  exact h

theorem entries_isPreVote (r : LogReplicationManager) (peer leaderId : NodeId)
    (s : InMemoryStorage P) : (r.getAppendEntriesForPeer peer leaderId s).isPreVote = false := by
  rcases getAppendEntriesForPeer_cases r peer leaderId s with ⟨m, data, _, _, heq⟩ | heq
  · rw [heq]
    rfl
  · rw [heq]
    rfl

@[simp] theorem preVoteTalk_sendAppendEntries :
    (n.sendAppendEntriesToFollowers .testUtils).preVoteTalk = n.preVoteTalk := by
  rw [sendAppendEntriesToFollowers_eq]
  apply preVoteTalk_append
  intro o ho
  obtain ⟨t, _, rfl⟩ := List.mem_map.mp ho
  exact entries_isPreVote _ _ _ _

/-- The node with nothing but its pre-vote and what it says about pre-votes. -/
def preVotePart (n : TestNode P SM) : Bool × List NodeId × List (Packet P) :=
  (n.election.inPreVote, n.election.preVotesReceived, n.preVoteTalk)

@[simp] theorem preVotePart_sendAppendEntries :
    (n.sendAppendEntriesToFollowers .testUtils).preVotePart = n.preVotePart := by
  unfold preVotePart
  rw [preVoteTalk_sendAppendEntries, sendAppendEntriesToFollowers_eq]

theorem preVotePart_send {target : NodeId} {msg : RaftMsg P} (h : msg.isPreVote = false) :
    (n.send target msg).preVotePart = n.preVotePart := by
  unfold preVotePart
  rw [preVoteTalk_send h]
  rfl

theorem preVotePart_becomeLeader : (n.becomeLeader .testUtils).preVotePart = n.preVotePart := by
  unfold becomeLeader
  rw [preVotePart_sendAppendEntries]
  rfl

theorem preVotePart_startElection : (n.startElection .testUtils).preVotePart =
    (false, n.election.preVotesReceived, n.preVoteTalk) := by
  unfold startElection
  dsimp only
  have hpart : ∀ m : TestNode P SM, ∀ msg : RaftMsg P, msg.isPreVote = false →
      (m.broadcast .testUtils msg).preVotePart = m.preVotePart := by
    intro m msg hmsg
    unfold preVotePart
    rw [preVoteTalk_broadcast hmsg, broadcast_eq]
  split
  · rw [preVotePart_becomeLeader, hpart _ _ rfl]
    rfl
  · rw [hpart _ _ rfl]
    rfl

variable [StateMachine SM P]

theorem preVotePart_submitEntry (entryType : EntryType P) :
    (n.submitEntry .testUtils entryType).1.preVotePart = n.preVotePart := by
  unfold submitEntry
  split
  · rfl
  · dsimp only
    rw [preVotePart_sendAppendEntries]
    split <;> rfl

omit [StateMachine SM P] in
theorem preVotePart_handleVoteRequest (sender : NodeId) (term : Nat) (cand : NodeId) (li lt : Nat) :
    (n.handleVoteRequest sender term cand li lt).preVotePart = n.preVotePart := by
  have hanswer : ∀ m : TestNode P SM, term ≤ m.currentTerm →
      (m.answerVoteRequest sender term cand li lt).preVotePart = m.preVotePart := by
    intro m hle
    rw [answerVoteRequest_eq hle]
    split
    · rw [preVotePart_send rfl]
      rfl
    · rw [preVotePart_send rfl]
  unfold handleVoteRequest
  dsimp only
  split
  · rw [hanswer _ (Nat.le_refl _)]
    rfl
  · rename_i hgt
    exact hanswer n (Nat.not_lt.mp hgt)

omit [StateMachine SM P] in
theorem preVotePart_handleVoteResponse (sender : NodeId) (term : Nat) (granted : Bool) :
    (n.handleVoteResponse .testUtils sender term granted).preVotePart = n.preVotePart := by
  unfold handleVoteResponse ElectionManager.handleVoteResponse
  split
  · rfl
  · split
    · rfl
    · dsimp only
      split
      · rw [preVotePart_becomeLeader]
        rfl
      · rfl

theorem preVotePart_handleAppendEntries (sender : NodeId) (term prev pt : Nat)
    (es : List (LogEntry P)) (lc : Nat) :
    (n.handleAppendEntries .testUtils sender term prev pt es lc).preVotePart = n.preVotePart := by
  unfold handleAppendEntries
  split
  · rfl
  · unfold acceptAppendEntries resetElectionTimerIfValidTerm
    dsimp only
    rw [preVotePart_send rfl]
    split <;> rfl

theorem preVotePart_handleAppendEntriesResponse (sender : NodeId) (term : Nat) (success : Bool)
    (m : Nat) : (n.handleAppendEntriesResponse .testUtils sender term success m).preVotePart =
      n.preVotePart := by
  unfold handleAppendEntriesResponse
  split
  · rfl
  · split
    · unfold recordAppendEntriesResponse
      dsimp only
      split
      · split <;> rfl
      · rfl
    · rfl

theorem installChunk_isPreVote (r : LogReplicationManager) (index t offset : Nat)
    (data : List UInt8) (done : Bool) (term : Nat) (s : InMemoryStorage P) (sm : SM)
    (role : NodeState) :
    (r.installChunk index t offset data done term s sm role).response.isPreVote = false := by
  unfold LogReplicationManager.installChunk
  dsimp only
  split
  · rfl
  · split
    · split <;> rfl
    · rfl

theorem preVotePart_handleInstallSnapshot (sender : NodeId) (term index t offset : Nat)
    (data : List UInt8) (done : Bool) :
    (n.handleInstallSnapshot sender term index t offset data done).preVotePart =
      n.preVotePart := by
  rcases Nat.lt_or_ge term n.currentTerm with hlt | hle
  · rw [handleInstallSnapshot_of_lt hlt, preVotePart_send rfl]
  · rw [handleInstallSnapshot_of_le hle]
    split
    · rw [preVotePart_send rfl]
      rfl
    · rw [preVotePart_send (installChunk_isPreVote _ _ _ _ _ _ _ _ _ _)]
      rfl

omit [StateMachine SM P] in
theorem preVotePart_handleInstallSnapshotResponse (sender : NodeId) (term : Nat) (success : Bool) :
    (n.handleInstallSnapshotResponse .testUtils sender term success).preVotePart =
      n.preVotePart := by
  unfold handleInstallSnapshotResponse
  split
  · rfl
  · split
    · split <;> rfl
    · rfl

/-! ## What an event does to a pre-vote -/

/-- The request that the node sends to its peers when it begins a round. -/
def question (n : TestNode P SM) : RaftMsg P :=
  .preVoteRequest n.currentTerm n.id n.storage.lastLogIndex n.storage.lastLogTerm

/-- The node begins a pre-vote round. -/
def beginsRound (n : TestNode P SM) : Event P → Bool
  | .timerFired .election => decide (n.role ≠ .leader)
  | _ => false

/-- The node counts an answer of this term. -/
def AwaitsPreVote (n : TestNode P SM) (term : Nat) : Prop :=
  term ≤ n.currentTerm ∧ n.election.inPreVote = true

/-- Everything that handling an event can do to the pre-vote of a node with peers. -/
inductive PreVoteStep (n m : TestNode P SM) : Event P → Prop where
  | asks (idle : n.role ≠ .leader)
      (part : m.preVotePart =
        (true, [n.id], (n.config.peers n.id).map fun t => ⟨n.id, t, n.question⟩)) :
      PreVoteStep n m (.timerFired .election)
  | answers {sender : NodeId} {term : Nat} {cand : NodeId} {li lt : Nat}
      (part : m.preVotePart = (n.election.inPreVote, n.election.preVotesReceived,
        [⟨n.id, sender,
          ElectionManager.handlePreVoteRequest term li lt n.currentTerm n.storage⟩])) :
      PreVoteStep n m (.message sender (.preVoteRequest term cand li lt))
  | counts {sender : NodeId} {term : Nat} (awaited : n.AwaitsPreVote term)
      (part : m.preVotePart =
        (!n.config.hasQuorum (n.election.preVotesReceived ++ [sender]).length,
          n.election.preVotesReceived ++ [sender], [])) :
      PreVoteStep n m (.message sender (.preVoteResponse term true))
  | quiet {event : Event P} (calm : n.beginsRound event = false)
      (part : m.preVotePart = (n.election.inPreVote, n.election.preVotesReceived, [])) :
      PreVoteStep n m event

omit [StateMachine SM P] in
theorem preVotePart_silent (hsilent : n.transport = []) :
    n.preVotePart = (n.election.inPreVote, n.election.preVotesReceived, []) := by
  unfold preVotePart preVoteTalk RaftNode.outbox
  rw [hsilent]
  rfl

omit [StateMachine SM P] in
theorem preVoteStep_timer (hsilent : n.transport = []) (hpeers : 1 < n.config.members.length) :
    PreVoteStep n (n.handleElectionTimer .testUtils) (.timerFired .election) := by
  rw [handleElectionTimer_eq]
  by_cases hrole : n.role = .leader
  · rw [if_neg (not_not_intro hrole)]
    refine .quiet ?_ (preVotePart_silent hsilent)
    unfold beginsRound
    rw [hrole]
    rfl
  · rw [if_pos hrole, if_neg (Nat.not_le.mpr hpeers)]
    apply PreVoteStep.asks hrole
    unfold startPreVote
    rw [broadcast_eq, peerIds_testUtils]
    unfold preVotePart preVoteTalk RaftNode.outbox
    simp only [ElectionManager.startPreVote, hsilent, List.nil_append, List.map_map]
    congr 2
    have hall : ∀ p ∈ (n.config.peers n.id).map fun t => (⟨n.id, t, n.question⟩ : Packet P),
        p.msg.isPreVote = true := by
      intro p hp
      obtain ⟨t, _, rfl⟩ := List.mem_map.mp hp
      rfl
    exact List.filter_eq_self.mpr hall

omit [StateMachine SM P] in
theorem preVoteStep_response (hsilent : n.transport = []) {sender : NodeId} {term : Nat}
    {granted : Bool} : PreVoteStep n (n.handlePreVoteResponse .testUtils sender term granted)
      (.message sender (.preVoteResponse term granted)) := by
  unfold handlePreVoteResponse ElectionManager.handlePreVoteResponse
  by_cases hterm : term > n.currentTerm
  · rw [if_pos hterm]
    exact .quiet rfl (preVotePart_silent hsilent)
  · rw [if_neg hterm]
    by_cases hcount : n.election.inPreVote = true ∧ granted = true
    · obtain ⟨hpre, rfl⟩ := hcount
      apply PreVoteStep.counts ⟨Nat.not_lt.mp hterm, hpre⟩
      simp only [hpre, Bool.not_true, Bool.or_self, Bool.false_eq_true, if_false,
        Realization.testUtils, pushWithin_none]
      by_cases hquorum :
          n.config.hasQuorum (n.election.preVotesReceived ++ [sender]).length = true
      · simp only [hquorum, if_true, Bool.not_true]
        refine preVotePart_startElection.trans ?_
        unfold preVoteTalk RaftNode.outbox
        rw [hsilent]
        rfl
      · have hfew := Bool.eq_false_iff.mpr hquorum
        simp only [hfew, if_false, Bool.false_eq_true, Bool.not_false]
        unfold preVotePart preVoteTalk RaftNode.outbox
        dsimp only
        rw [hsilent]
        rfl
    · have hskip : (!n.election.inPreVote || !granted) = true := by
        cases hpre : n.election.inPreVote with
        | false => rfl
        | true =>
          cases granted with
          | false => rfl
          | true => exact absurd ⟨hpre, rfl⟩ hcount
      rw [if_pos hskip]
      dsimp only
      rw [if_neg Bool.false_ne_true]
      exact .quiet rfl (preVotePart_silent hsilent)

/-- **What an event does to a pre-vote.** -/
theorem preVoteStep_onEvent (hsilent : n.transport = []) (hpeers : 1 < n.config.members.length)
    (ev : Event P) : PreVoteStep n (n.onEvent .testUtils ev) ev := by
  have hquiet : ∀ {m : TestNode P SM} {ev : Event P}, m.preVotePart = n.preVotePart →
      n.beginsRound ev = false → PreVoteStep n m ev := fun hpart hcalm =>
    .quiet hcalm (hpart.trans (preVotePart_silent hsilent))
  cases ev with
  | timerFired kind =>
    cases kind with
    | election => exact preVoteStep_timer hsilent hpeers
    | heartbeat =>
      refine hquiet ?_ rfl
      unfold onEvent handleTimer handleHeartbeatTimer sendHeartbeats
      dsimp only
      split
      · exact preVotePart_sendAppendEntries
      · rfl
  | clientCommand payload => exact hquiet (preVotePart_submitEntry _) rfl
  | configChange change => exact hquiet (preVotePart_submitEntry _) rfl
  | message sender msg =>
    cases msg with
    | requestVote => exact hquiet (preVotePart_handleVoteRequest ..) rfl
    | requestVoteResponse =>
      exact hquiet (preVotePart_handleVoteResponse ..) rfl
    | preVoteRequest =>
      apply PreVoteStep.answers
      unfold onEvent handleMessage handlePreVoteRequest preVotePart preVoteTalk RaftNode.outbox
      dsimp only [send]
      rw [hsilent]
      rfl
    | preVoteResponse => exact preVoteStep_response hsilent
    | appendEntries => exact hquiet (preVotePart_handleAppendEntries ..) rfl
    | appendEntriesResponse =>
      exact hquiet (preVotePart_handleAppendEntriesResponse ..) rfl
    | installSnapshot =>
      exact hquiet (preVotePart_handleInstallSnapshot ..) rfl
    | installSnapshotResponse =>
      exact hquiet (preVotePart_handleInstallSnapshotResponse ..) rfl

end RaftNode

/-! ## Rounds -/

/-- A candidate's question to a peer, or the answer to it, in a round of the candidate. -/
structure Exchange where
  candidate : NodeId
  peer : NodeId
  round : Nat
  deriving DecidableEq

/-- The exchange that a marked message belongs to. -/
def exchange : Packet P × Nat → Option Exchange
  | (⟨src, dst, .preVoteRequest _ _ _ _⟩, t) => some ⟨src, dst, t⟩
  | (⟨src, dst, .preVoteResponse _ _⟩, t) => some ⟨dst, src, t⟩
  | _ => none

/-- A cluster, followed by an observer who numbers the rounds of every node: each message in flight
is marked with the round of the question that it asks or answers.  `grants` are the questions
answered with yes, and `heard` the term of the last entries a node has accepted in its round. -/
structure Rounds (P SM : Type) where
  cluster : Cluster P SM
  flight : List (Packet P × Nat)
  round : NodeId → Nat
  grants : List Exchange
  heard : NodeId → Option Nat

section

variable [StateMachine SM P]

namespace RaftNode

/-- The node accepts the entries of an AppendEntries of its term. -/
def acceptsEntries (n : TestNode P SM) : Event P → Bool
  | .message _ (.appendEntries term prev pt _ _) =>
    decide (term = n.currentTerm) && LogReplicationManager.checkLogConsistency prev pt n.storage
  | _ => false

/-- What node `v` grants when it handles an event marked with round `t`. -/
def granting (n : TestNode P SM) (v : NodeId) (t : Nat) : Event P → List Exchange
  | .message sender (.preVoteRequest term _ li lt) =>
    match ElectionManager.handlePreVoteRequest (P := P) term li lt n.currentTerm n.storage with
    | .preVoteResponse _ true => [⟨sender, v, t⟩]
    | _ => []
  | _ => []

end RaftNode

namespace Rounds

def init (d : Deployment SM) : Rounds P SM := ⟨.init d, [], fun _ => 0, [], fun _ => none⟩

/-- The marked messages that an action leaves in flight, before anything new is sent. -/
def remaining (s : Rounds P SM) : Action P → List (Packet P × Nat)
  | .deliver k | .lose k => s.flight.eraseIdx k
  | .duplicate k => s.flight ++ s.flight[k]?.toList
  | _ => s.flight

/-- The mark of what node `v` sends in an action: that of the message it handles, or its next
round. -/
def mark (s : Rounds P SM) (v : NodeId) : Action P → Nat
  | .deliver k => (s.flight[k]?.map (·.2)).getD 0
  | _ => s.round v + 1

def step (d : Deployment SM) (s : Rounds P SM) (a : Action P) : Rounds P SM :=
  match s.cluster.handled d a with
  | none => { s with cluster := s.cluster.step d a, flight := s.remaining a }
  | some (v, ev) =>
    let n := s.cluster.nodes v
    { cluster := s.cluster.step d a
      flight := s.remaining a ++ (n.onEvent .testUtils ev).outbox.map (·, s.mark v a)
      round := if n.beginsRound ev then Function.update s.round v (s.round v + 1) else s.round
      grants := s.grants ++ n.granting v (s.mark v a) ev
      heard := Function.update s.heard v
        (if n.beginsRound ev then none
        else if n.acceptsEntries ev then some n.currentTerm
        else s.heard v) }

/-- An answer that node `v` counts belongs to its current round, and where it completes the quorum
the node has not accepted entries of its term since it began the round. -/
def CountsCurrent (s : Rounds P SM) (a : Action P) (v : NodeId) : Event P → Prop
  | .message sender (.preVoteResponse term true) =>
    (s.cluster.nodes v).AwaitsPreVote term → s.mark v a = s.round v ∧
      ((s.cluster.nodes v).config.hasQuorum
          ((s.cluster.nodes v).election.preVotesReceived ++ [sender]).length = true →
        s.heard v ≠ some (s.cluster.nodes v).currentTerm)
  | _ => True

def CurrentAnswers (d : Deployment SM) (s : Rounds P SM) (a : Action P) : Prop :=
  OnEvents d (fun _ => s.CountsCurrent a) s.cluster a

/-- Fixed membership, every message delivered at most once, and current answers only. -/
def Orderly (d : Deployment SM) (s : Rounds P SM) (a : Action P) : Prop :=
  FixedMembership s.cluster a ∧ AtMostOnce s.cluster a ∧ s.CurrentAnswers d a

/-- The node stands for the next term. -/
def RaisesTerm (n n' : TestNode P SM) : Prop :=
  n'.currentTerm = n.currentTerm + 1 ∧ n'.role ≠ .follower

/-- A quorum of members, the node among them, has granted it the round that it began last, and it
has not accepted entries of its term since. -/
def EarnedByRound (s : Rounds P SM) (v : NodeId) : Prop :=
  (∃ Q : Finset NodeId, Q ⊆ (s.cluster.nodes v).config.members.toFinset ∧ v ∈ Q ∧
    (s.cluster.nodes v).config.quorumSize ≤ Q.card ∧
    ∀ w ∈ Q, w = v ∨ ⟨v, w, s.round v⟩ ∈ s.grants) ∧
  s.heard v ≠ some (s.cluster.nodes v).currentTerm

/-! ## The invariant -/

/-- The exchanges under way. -/
def underway (flight : List (Packet P × Nat)) : List Exchange := flight.filterMap exchange

structure Inv (d : Deployment SM) (s : Rounds P SM) : Prop where
  settled : Settled s.cluster
  fixed : Fixed d s.cluster
  flight : s.flight.map (·.1) = s.cluster.network
  peers : ∀ x ∈ s.grants, x.peer ∈ d.members
  backed : ∀ p t, (p, t) ∈ s.flight → ∀ term, p.msg = .preVoteResponse term true →
    ⟨p.dst, p.src, t⟩ ∈ s.grants
  counted : ∀ v ∈ d.members, (s.cluster.nodes v).election.inPreVote = true →
    (s.cluster.nodes v).election.preVotesReceived.Nodup ∧
      v ∈ (s.cluster.nodes v).election.preVotesReceived ∧
      ∀ w ∈ (s.cluster.nodes v).election.preVotesReceived,
        w = v ∨ ⟨v, w, s.round v⟩ ∈ s.grants
  once : (underway s.flight).Nodup
  past : ∀ x ∈ underway s.flight, x.round ≤ s.round x.candidate
  uncounted : ∀ x ∈ underway s.flight, x.round = s.round x.candidate →
    (s.cluster.nodes x.candidate).election.inPreVote = true →
    x.peer ∉ (s.cluster.nodes x.candidate).election.preVotesReceived

variable {d : Deployment SM} {s : Rounds P SM} {a : Action P} {v : NodeId} {ev : Event P}

/-- The observer leaves the cluster to itself. -/
theorem step_cluster : (s.step d a).cluster = s.cluster.step d a := by
  unfold step
  split <;> rfl

/-! ### What is in flight -/

omit [StateMachine SM P] in
theorem underway_append (l l' : List (Packet P × Nat)) :
    underway (l ++ l') = underway l ++ underway l' := List.filterMap_append

omit [StateMachine SM P] in
theorem underway_sublist {l l' : List (Packet P × Nat)} (h : l.Sublist l') :
    (underway l).Sublist (underway l') := h.filterMap _

omit [StateMachine SM P] in
theorem exchange_of_other {p : Packet P} (h : p.msg.isPreVote = false) (t : Nat) :
    exchange (p, t) = none := by
  obtain ⟨src, dst, msg⟩ := p
  cases msg with
  | preVoteRequest | preVoteResponse => cases h
  | _ => rfl

omit [StateMachine SM P] in
/-- Of what a node sends, the pre-vote messages are under way. -/
theorem underway_outbox (n : TestNode P SM) (t : Nat) :
    underway (n.outbox.map (·, t)) = underway (n.preVoteTalk.map (·, t)) := by
  unfold RaftNode.preVoteTalk underway
  generalize n.outbox = l
  induction l with
  | nil => rfl
  | cons p l ih =>
    cases hp : p.msg.isPreVote with
    | false =>
      rw [List.filter_cons_of_neg (by rw [hp]; exact Bool.false_ne_true), ← ih, List.map_cons,
        List.filterMap_cons_none (exchange_of_other hp t)]
    | true =>
      rw [List.filter_cons_of_pos (p := fun q : Packet P => q.msg.isPreVote) hp, List.map_cons,
        List.map_cons, List.filterMap_cons,
        List.filterMap_cons, ih]

omit [StateMachine SM P] in
theorem remaining_sublist (h : AtMostOnce s.cluster a) : (s.remaining a).Sublist s.flight := by
  cases a with
  | deliver | lose => exact List.eraseIdx_sublist _ _
  | duplicate => exact h.elim
  | _ => exact List.Sublist.refl _

/-- What the delivery of a message takes out of flight. -/
structure Delivers (s : Rounds P SM) (a : Action P) (p : Packet P) (t : Nat) : Prop where
  found : (p, t) ∈ s.flight
  rest : (underway s.flight).Perm ((exchange (p, t)).toList ++ underway (s.remaining a))

/-- Everything the observer sees of an action in which node `v` handles an event. -/
structure Seen (d : Deployment SM) (s : Rounds P SM) (a : Action P) (v : NodeId) (ev : Event P) :
    Prop where
  member : v ∈ d.members
  network : ∀ outs : List (Packet P × Nat),
    outs.map (·.1) = ((s.cluster.nodes v).onEvent .testUtils ev).outbox →
    (s.remaining a ++ outs).map (·.1) = (s.cluster.step d a).network
  delivers : ∀ sender msg, ev = .message sender msg →
    s.Delivers a ⟨sender, v, msg⟩ (s.mark v a)
  timer : ∀ kind, ev = .timerFired kind → s.remaining a = s.flight ∧ s.mark v a = s.round v + 1

theorem seen (hflight : s.flight.map (·.1) = s.cluster.network)
    (h : s.cluster.handled d a = some (v, ev)) : s.Seen d a v ev := by
  obtain ⟨c₀, hh, hstep⟩ := Cluster.handles_of_handled h
  have hnetwork : (s.remaining a).map (·.1) = c₀.network := by
    cases hh with
    | deliver found member => exact (List.eraseIdx_map _ _ _).symm.trans (by rw [hflight])
    | timer | client | configChange => exact hflight
  refine ⟨hh.member, fun outs houts => ?_, ?_, ?_⟩
  · rw [hstep, List.map_append, houts, hnetwork]
    unfold Cluster.dispatch
    rw [Cluster.withNode_network, hh.nodes]
  · rintro sender msg rfl
    cases hh with
    | @deliver k p found member =>
      rw [← hflight, List.getElem?_map, Option.map_eq_some_iff] at found
      obtain ⟨⟨q, t⟩, hq, rfl⟩ := found
      have hmark : s.mark q.dst (.deliver k) = t := by
        show (s.flight[k]?.map (·.2)).getD 0 = t
        rw [hq]
        rfl
      rw [hmark]
      refine ⟨List.mem_of_getElem? hq, ?_⟩
      obtain ⟨hk, hget⟩ := List.getElem?_eq_some_iff.mp hq
      have hperm := List.getElem_cons_eraseIdx_perm hk
      rw [hget] at hperm
      have hkeys := (hperm.filterMap exchange).symm
      rw [List.filterMap_cons] at hkeys
      unfold underway remaining
      cases hx : exchange (q, t) with
      | none =>
        rw [hx] at hkeys
        exact hkeys
      | some x =>
        rw [hx] at hkeys
        exact hkeys
  · rintro kind rfl
    cases hh with
    | timer => exact ⟨rfl, rfl⟩

/-- An action in which no node handles an event leaves the messages of the observer and those of
the cluster the same. -/
theorem flight_unhandled (hflight : s.flight.map (·.1) = s.cluster.network)
    (h : s.cluster.handled d a = none) :
    (s.remaining a).map (·.1) = (s.cluster.step d a).network := by
  have herase : ∀ k, (s.flight.eraseIdx k).map (·.1) = s.cluster.network.eraseIdx k := by
    intro k
    rw [← hflight, List.eraseIdx_map]
  cases a with
  | deliver k =>
    unfold Cluster.handled at h
    unfold remaining Cluster.step
    dsimp only at h ⊢
    rw [herase]
    split at h
    · rename_i hnone
      exact List.eraseIdx_of_length_le (List.getElem?_eq_none_iff.mp hnone)
    · split at h
      · cases h
      · rename_i hdst
        rw [if_neg hdst]
  | lose k => exact herase k
  | duplicate k =>
    unfold remaining Cluster.step
    dsimp only
    rw [List.map_append, hflight, ← hflight, List.getElem?_map]
    cases s.flight[k]? <;> rfl
  | timer u kind | client u payload | configChange u change =>
    unfold Cluster.handled at h
    unfold remaining Cluster.step
    dsimp only at h ⊢
    split at h
    · cases h
    · rename_i hu
      rw [if_neg hu]
      exact hflight
  | restart | advance => exact hflight

/-! ### One step -/

/-- The pre-vote of a node after an action in which it handles nothing. -/
theorem election_unhandled (h : s.cluster.handled d a = none) (u : NodeId)
    (hpre : ((s.cluster.step d a).nodes u).election.inPreVote = true) :
    (s.cluster.nodes u).election.inPreVote = true ∧
      ((s.cluster.step d a).nodes u).election.preVotesReceived =
        (s.cluster.nodes u).election.preVotesReceived := by
  have hnode := Cluster.node_cases d s.cluster a u
  generalize (s.cluster.step d a).nodes u = n' at hnode hpre ⊢
  cases hnode with
  | handles handled => rw [h] at handled; cases handled
  | stays => exact ⟨hpre, rfl⟩
  | restarts => cases hpre
  | ages => exact ⟨hpre, rfl⟩

theorem inv_unhandled (hinv : s.Inv d) (hok : s.Orderly d a) (h : s.cluster.handled d a = none) :
    (s.step d a).Inv d := by
  have hsub := remaining_sublist hok.2.1
  have hstep : s.step d a = { s with cluster := s.cluster.step d a, flight := s.remaining a } := by
    unfold step
    rw [h]
  rw [hstep]
  constructor
  · exact settled_step hinv.settled a
  · exact fixed_step hok.1 hinv.settled hinv.fixed
  · exact flight_unhandled hinv.flight h
  · exact hinv.peers
  · exact fun p t hp => hinv.backed p t (hsub.subset hp)
  · intro u hu hpre
    obtain ⟨hold, hreceived⟩ := election_unhandled h u hpre
    simp only [hreceived]
    exact hinv.counted u hu hold
  · exact hinv.once.sublist (underway_sublist hsub)
  · exact fun x hx => hinv.past x ((underway_sublist hsub).subset hx)
  · intro x hx hround hpre
    obtain ⟨hold, hreceived⟩ := election_unhandled h _ hpre
    simp only [hreceived]
    exact hinv.uncounted x ((underway_sublist hsub).subset hx) hround hold

/-- What has to be seen of the node `v` that handles an event and becomes `n'`, when the exchanges
`sent` come to those that are left. -/
structure Keeps (s s' : Rounds P SM) (a : Action P) (v : NodeId) (n' : TestNode P SM)
    (sent : List Exchange) : Prop where
  backed : ∀ p ∈ n'.preVoteTalk, ∀ term, p.msg = .preVoteResponse term true →
    ⟨p.dst, p.src, s.mark v a⟩ ∈ s'.grants
  counted : n'.election.inPreVote = true → n'.election.preVotesReceived.Nodup ∧
    v ∈ n'.election.preVotesReceived ∧
    ∀ w ∈ n'.election.preVotesReceived, w = v ∨ ⟨v, w, s'.round v⟩ ∈ s'.grants
  once : (underway (s.remaining a) ++ sent).Nodup
  past : ∀ x ∈ sent, x.round ≤ s'.round x.candidate
  uncounted : ∀ x ∈ underway (s.remaining a) ++ sent, x.candidate = v → x.round = s'.round v →
    n'.election.inPreVote = true → x.peer ∉ n'.election.preVotesReceived
  others : ∀ x ∈ sent, x.candidate ≠ v → x ∈ underway s.flight

theorem step_of_handled (h : s.cluster.handled d a = some (v, ev)) :
    s.step d a =
      ⟨s.cluster.step d a,
        s.remaining a ++ ((s.cluster.nodes v).onEvent .testUtils ev).outbox.map (·, s.mark v a),
        if (s.cluster.nodes v).beginsRound ev then Function.update s.round v (s.round v + 1)
        else s.round,
        s.grants ++ (s.cluster.nodes v).granting v (s.mark v a) ev,
        Function.update s.heard v
          (if (s.cluster.nodes v).beginsRound ev then none
          else if (s.cluster.nodes v).acceptsEntries ev then some (s.cluster.nodes v).currentTerm
          else s.heard v)⟩ := by
  unfold step
  rw [h]

theorem round_step (h : s.cluster.handled d a = some (v, ev)) (u : NodeId) :
    s.round u ≤ (s.step d a).round u ∧ (u ≠ v → (s.step d a).round u = s.round u) ∧
      ((s.cluster.nodes v).beginsRound ev = false → (s.step d a).round = s.round) := by
  rw [step_of_handled h]
  dsimp only
  by_cases huv : u = v
  · subst huv
    refine ⟨?_, fun hne => absurd rfl hne, fun hcalm => by rw [hcalm]; rfl⟩
    split
    · rw [Function.update_self]
      exact Nat.le_succ _
    · exact Nat.le_refl _
  · refine ⟨?_, fun _ => ?_, fun hcalm => by rw [hcalm]; rfl⟩
    · split
      · rw [Function.update_of_ne huv]
      · exact Nat.le_refl _
    · split
      · rw [Function.update_of_ne huv]
      · rfl

omit [StateMachine SM P] in
theorem mem_granting {n : TestNode P SM} {t : Nat} {x : Exchange} (h : x ∈ n.granting v t ev) :
    x.peer = v := by
  unfold RaftNode.granting at h
  split at h
  · split at h
    · rw [List.mem_singleton.mp h]
    · cases h
  · cases h

theorem Keeps.inv (hinv : s.Inv d) (hok : s.Orderly d a)
    (h : s.cluster.handled d a = some (v, ev))
    (hkeeps : s.Keeps (s.step d a) a v ((s.cluster.nodes v).onEvent .testUtils ev)
      (underway (((s.cluster.nodes v).onEvent .testUtils ev).preVoteTalk.map (·, s.mark v a)))) :
    (s.step d a).Inv d := by
  have hsub := remaining_sublist hok.2.1
  have hseen := seen hinv.flight h
  have hround := round_step h
  have hcluster : (s.step d a).cluster = s.cluster.step d a := step_cluster
  have hgrants : (s.step d a).grants =
      s.grants ++ (s.cluster.nodes v).granting v (s.mark v a) ev := by rw [step_of_handled h]
  have hflight : (s.step d a).flight = s.remaining a ++
      ((s.cluster.nodes v).onEvent .testUtils ev).outbox.map (·, s.mark v a) := by
    rw [step_of_handled h]
  have hunderway : underway (s.step d a).flight = underway (s.remaining a) ++
      underway (((s.cluster.nodes v).onEvent .testUtils ev).preVoteTalk.map (·, s.mark v a)) := by
    rw [hflight, underway_append, underway_outbox]
  have hself : ((s.step d a).cluster.nodes v).election =
      ((s.cluster.nodes v).onEvent .testUtils ev).election := by
    rw [hcluster, Cluster.step_of_handled h]
  have hother : ∀ u, u ≠ v → (s.step d a).cluster.nodes u = s.cluster.nodes u := by
    intro u hu
    obtain ⟨c₀, hh, hs⟩ := Cluster.handles_of_handled h
    rw [hcluster, hs]
    unfold Cluster.dispatch
    rw [Cluster.withNode_nodes_ne hu, hh.nodes]
  constructor
  · rw [hcluster]
    exact settled_step hinv.settled a
  · rw [hcluster]
    exact fixed_step hok.1 hinv.settled hinv.fixed
  · rw [hflight, hcluster]
    apply hseen.network
    rw [List.map_map]
    exact List.map_id _
  · intro x hx
    rw [hgrants] at hx
    rcases List.mem_append.mp hx with hx | hx
    · exact hinv.peers x hx
    · rw [mem_granting hx]
      exact hseen.member
  · intro p t hp term hmsg
    rw [hflight] at hp
    rcases List.mem_append.mp hp with hp | hp
    · rw [hgrants]
      exact List.mem_append_left _ (hinv.backed p t (hsub.subset hp) term hmsg)
    · obtain ⟨q, hq, heq⟩ := List.mem_map.mp hp
      cases heq
      apply hkeeps.backed p _ term hmsg
      unfold RaftNode.preVoteTalk
      rw [List.mem_filter, hmsg]
      exact ⟨hq, rfl⟩
  · intro u hu hpre
    by_cases huv : u = v
    · subst huv
      rw [hself] at hpre ⊢
      exact hkeeps.counted hpre
    · rw [hother u huv] at hpre ⊢
      obtain ⟨hnodup, hmem, hall⟩ := hinv.counted u hu hpre
      refine ⟨hnodup, hmem, fun w hw => (hall w hw).imp_right fun hx => ?_⟩
      rw [(hround u).2.1 huv, hgrants]
      exact List.mem_append_left _ hx
  · rw [hunderway]
    exact hkeeps.once
  · intro x hx
    rw [hunderway] at hx
    rcases List.mem_append.mp hx with hx | hx
    · exact (hinv.past x ((underway_sublist hsub).subset hx)).trans (hround _).1
    · exact hkeeps.past x hx
  · intro x hx hxround hpre
    rw [hunderway] at hx
    by_cases hxv : x.candidate = v
    · rw [hxv] at hxround
      rw [hxv, hself] at hpre ⊢
      exact hkeeps.uncounted x hx hxv hxround hpre
    · rw [hother _ hxv] at hpre ⊢
      rw [(hround _).2.1 hxv] at hxround
      apply hinv.uncounted x _ hxround hpre
      rcases List.mem_append.mp hx with hx | hx
      · exact (underway_sublist hsub).subset hx
      · exact hkeeps.others x hx hxv

omit [StateMachine SM P] in
theorem keeps_asks {s' : Rounds P SM} {n' : TestNode P SM} (hinv : s.Inv d)
    (hv : v ∈ d.members) (hround : s'.round v = s.round v + 1)
    (hflight : s.remaining a = s.flight) (hmark : s.mark v a = s.round v + 1)
    (hpart : n'.preVotePart = (true, [v],
      ((s.cluster.nodes v).config.peers v).map fun t => ⟨v, t, (s.cluster.nodes v).question⟩)) :
    s.Keeps s' a v n' (underway (n'.preVoteTalk.map (·, s.mark v a))) := by
  have hreceived : n'.election.preVotesReceived = [v] := congrArg (·.2.1) hpart
  have htalk : n'.preVoteTalk = _ := congrArg (·.2.2) hpart
  have hsent : underway (n'.preVoteTalk.map (·, s.mark v a)) =
      ((s.cluster.nodes v).config.peers v).map fun t => ⟨v, t, s.round v + 1⟩ := by
    rw [htalk, hmark]
    unfold underway
    rw [List.map_map, List.filterMap_map]
    exact congrFun (List.filterMap_eq_map' (f := fun t => Exchange.mk v t (s.round v + 1))) _
  have hpeer : ∀ x ∈ underway (n'.preVoteTalk.map (·, s.mark v a)),
      x.candidate = v ∧ x.peer ≠ v ∧ x.round = s.round v + 1 := by
    intro x hx
    rw [hsent] at hx
    obtain ⟨t, ht, rfl⟩ := List.mem_map.mp hx
    exact ⟨rfl, (Configuration.mem_peers.mp ht).2, rfl⟩
  have hfresh : ∀ x ∈ underway s.flight, x.candidate = v → x.round ≠ s.round v + 1 := by
    intro x hx hxv hxround
    have := hinv.past x hx
    rw [hxv, hxround] at this
    omega
  constructor
  · intro p hp term hmsg
    rw [htalk] at hp
    obtain ⟨t, _, rfl⟩ := List.mem_map.mp hp
    cases hmsg
  · intro _
    rw [hreceived]
    refine ⟨List.nodup_singleton v, List.mem_singleton_self v, fun w hw => ?_⟩
    exact Or.inl (List.mem_singleton.mp hw)
  · rw [hflight, List.nodup_append]
    refine ⟨hinv.once, ?_, fun x hx y hy hxy => ?_⟩
    · rw [hsent]
      apply List.Nodup.map
      · intro t t' heq
        exact congrArg Exchange.peer heq
      · have hnodup := (hinv.fixed.node v hv).config.nodup_iff.mpr d.nodup
        exact hnodup.filter _
    · subst hxy
      obtain ⟨hxv, _, hxround⟩ := hpeer x hy
      exact hfresh x hx hxv hxround
  · intro x hx
    obtain ⟨hxv, _, hxround⟩ := hpeer x hx
    rw [hxv, hxround, hround]
  · intro x hx hxv hxround _
    rw [hreceived, List.mem_singleton]
    rw [hflight] at hx
    rcases List.mem_append.mp hx with hx | hx
    · exact absurd (hxround.trans hround) (hfresh x hx hxv)
    · exact (hpeer x hx).2.1
  · intro x hx hne
    exact absurd (hpeer x hx).1 hne

omit [StateMachine SM P] in
theorem keeps_answers {s' : Rounds P SM} {n' : TestNode P SM} {sender : NodeId} {term : Nat}
    {cand : NodeId} {li lt : Nat} (hinv : s.Inv d) (hv : v ∈ d.members)
    (hround : s'.round = s.round) (hgrants : ∀ x ∈ s.grants, x ∈ s'.grants)
    (hnew : ∀ x ∈ (s.cluster.nodes v).granting v (s.mark v a)
      (.message sender (.preVoteRequest term cand li lt)), x ∈ s'.grants)
    (hdelivers : s.Delivers a ⟨sender, v, .preVoteRequest term cand li lt⟩ (s.mark v a))
    (hpart : n'.preVotePart = ((s.cluster.nodes v).election.inPreVote,
      (s.cluster.nodes v).election.preVotesReceived,
      [⟨v, sender, ElectionManager.handlePreVoteRequest term li lt
        (s.cluster.nodes v).currentTerm (s.cluster.nodes v).storage⟩])) :
    s.Keeps s' a v n' (underway (n'.preVoteTalk.map (·, s.mark v a))) := by
  have hpre : n'.election.inPreVote = _ := congrArg (·.1) hpart
  have hreceived : n'.election.preVotesReceived = _ := congrArg (·.2.1) hpart
  have htalk : n'.preVoteTalk = _ := congrArg (·.2.2) hpart
  have hsent : underway (n'.preVoteTalk.map (·, s.mark v a)) = [⟨sender, v, s.mark v a⟩] := by
    rw [htalk]
    rfl
  -- the answer takes the place of the question
  have hperm : (underway s.flight).Perm (underway (s.remaining a) ++
      underway (n'.preVoteTalk.map (·, s.mark v a))) := by
    rw [hsent]
    exact hdelivers.rest.trans List.perm_append_comm
  constructor
  · intro p hp t hmsg
    rw [htalk, List.mem_singleton] at hp
    apply hnew
    rw [hp] at hmsg ⊢
    unfold RaftNode.granting
    dsimp only at hmsg ⊢
    rw [hmsg]
    exact List.mem_singleton_self _
  · intro hin
    rw [hpre] at hin
    rw [hreceived, hround]
    obtain ⟨hnodup, hmem, hall⟩ := hinv.counted v hv hin
    exact ⟨hnodup, hmem, fun w hw => (hall w hw).imp_right (hgrants _)⟩
  · exact hperm.nodup_iff.mp hinv.once
  · intro x hx
    rw [hround]
    exact hinv.past x (hperm.mem_iff.mpr (List.mem_append_right _ hx))
  · intro x hx hxv hxround hin
    rw [hround] at hxround
    rw [hpre] at hin
    rw [hreceived]
    subst hxv
    exact hinv.uncounted x (hperm.mem_iff.mpr hx) hxround hin
  · intro x hx _
    exact hperm.mem_iff.mpr (List.mem_append_right _ hx)

omit [StateMachine SM P] in
/-- The exchange that an answer to the current round ends. -/
theorem Delivers.ends {sender : NodeId} {term : Nat} (hinv : s.Inv d)
    (h : s.Delivers a ⟨sender, v, .preVoteResponse term true⟩ (s.mark v a))
    (hmark : s.mark v a = s.round v) :
    (underway s.flight).Perm (⟨v, sender, s.round v⟩ :: underway (s.remaining a)) ∧
      (⟨v, sender, s.round v⟩ : Exchange) ∉ underway (s.remaining a) := by
  have hrest : (underway s.flight).Perm (⟨v, sender, s.round v⟩ :: underway (s.remaining a)) := by
    rw [← hmark]
    exact h.rest
  exact ⟨hrest, (List.nodup_cons.mp (hrest.nodup_iff.mp hinv.once)).1⟩

omit [StateMachine SM P] in
/-- Counting an answer to the current round, the node has counted members that granted it, each
of them once. -/
theorem counted_answer {sender : NodeId} {term : Nat} (hinv : s.Inv d) (hv : v ∈ d.members)
    (hdelivers : s.Delivers a ⟨sender, v, .preVoteResponse term true⟩ (s.mark v a))
    (hawaited : (s.cluster.nodes v).AwaitsPreVote term) (hmark : s.mark v a = s.round v) :
    ((s.cluster.nodes v).election.preVotesReceived ++ [sender]).Nodup ∧
      v ∈ (s.cluster.nodes v).election.preVotesReceived ++ [sender] ∧
      ∀ w ∈ (s.cluster.nodes v).election.preVotesReceived ++ [sender],
        w = v ∨ ⟨v, w, s.round v⟩ ∈ s.grants := by
  obtain ⟨hnodup, hmem, hall⟩ := hinv.counted v hv hawaited.2
  have hgranted : (⟨v, sender, s.round v⟩ : Exchange) ∈ s.grants := by
    rw [← hmark]
    exact hinv.backed _ _ hdelivers.found term rfl
  have hnew : sender ∉ (s.cluster.nodes v).election.preVotesReceived :=
    hinv.uncounted ⟨v, sender, s.round v⟩
      ((hdelivers.ends hinv hmark).1.mem_iff.mpr (List.mem_cons_self ..)) rfl hawaited.2
  refine ⟨?_, List.mem_append_left _ hmem, fun w hw => ?_⟩
  · rw [List.nodup_append]
    refine ⟨hnodup, List.nodup_singleton _, fun x hx y hy hxy => ?_⟩
    rw [List.mem_singleton.mp hy] at hxy
    exact hnew (hxy ▸ hx)
  · rcases List.mem_append.mp hw with hw | hw
    · exact hall w hw
    · rw [List.mem_singleton.mp hw]
      exact Or.inr hgranted

omit [StateMachine SM P] in
theorem keeps_counts {s' : Rounds P SM} {n' : TestNode P SM} {sender : NodeId} {term : Nat}
    {more : Bool} (hinv : s.Inv d) (hv : v ∈ d.members) (hround : s'.round = s.round)
    (hgrants : ∀ x ∈ s.grants, x ∈ s'.grants) (hsub : (s.remaining a).Sublist s.flight)
    (hdelivers : s.Delivers a ⟨sender, v, .preVoteResponse term true⟩ (s.mark v a))
    (hawaited : (s.cluster.nodes v).AwaitsPreVote term) (hmark : s.mark v a = s.round v)
    (hpart : n'.preVotePart =
      (more, (s.cluster.nodes v).election.preVotesReceived ++ [sender], [])) :
    s.Keeps s' a v n' (underway (n'.preVoteTalk.map (·, s.mark v a))) := by
  have hreceived : n'.election.preVotesReceived = _ := congrArg (·.2.1) hpart
  have htalk : n'.preVoteTalk = [] := congrArg (·.2.2) hpart
  have hsent : underway (n'.preVoteTalk.map (·, s.mark v a)) = [] := by
    rw [htalk]
    rfl
  obtain ⟨hrest, hended⟩ := hdelivers.ends hinv hmark
  rw [hsent]
  constructor
  · intro p hp
    rw [htalk] at hp
    cases hp
  · intro _
    rw [hreceived, hround]
    obtain ⟨hnodup, hmem, hall⟩ := counted_answer hinv hv hdelivers hawaited hmark
    exact ⟨hnodup, hmem, fun w hw => (hall w hw).imp_right (hgrants _)⟩
  · rw [List.append_nil]
    exact hinv.once.sublist (underway_sublist hsub)
  · intro x hx
    cases hx
  · intro x hx hxv hxround _
    rw [hround] at hxround
    rw [List.append_nil] at hx
    rw [hreceived, List.mem_append, List.mem_singleton, not_or]
    subst hxv
    constructor
    · exact hinv.uncounted x ((underway_sublist hsub).subset hx) hxround hawaited.2
    · intro hpeer
      apply hended
      rw [← hpeer, ← hxround]
      exact hx
  · intro x hx
    cases hx

omit [StateMachine SM P] in
theorem keeps_quiet {s' : Rounds P SM} {n' : TestNode P SM} (hinv : s.Inv d) (hv : v ∈ d.members)
    (hround : s'.round = s.round) (hgrants : ∀ x ∈ s.grants, x ∈ s'.grants)
    (hsub : (s.remaining a).Sublist s.flight)
    (hpart : n'.preVotePart = ((s.cluster.nodes v).election.inPreVote,
      (s.cluster.nodes v).election.preVotesReceived, [])) :
    s.Keeps s' a v n' (underway (n'.preVoteTalk.map (·, s.mark v a))) := by
  have hpre : n'.election.inPreVote = _ := congrArg (·.1) hpart
  have hreceived : n'.election.preVotesReceived = _ := congrArg (·.2.1) hpart
  have htalk : n'.preVoteTalk = [] := congrArg (·.2.2) hpart
  have hsent : underway (n'.preVoteTalk.map (·, s.mark v a)) = [] := by
    rw [htalk]
    rfl
  rw [hsent]
  constructor
  · intro p hp
    rw [htalk] at hp
    cases hp
  · intro hin
    rw [hpre] at hin
    rw [hreceived, hround]
    obtain ⟨hnodup, hmem, hall⟩ := hinv.counted v hv hin
    exact ⟨hnodup, hmem, fun w hw => (hall w hw).imp_right (hgrants _)⟩
  · rw [List.append_nil]
    exact hinv.once.sublist (underway_sublist hsub)
  · intro x hx
    cases hx
  · intro x hx hxv hxround hin
    rw [hround] at hxround
    rw [hpre] at hin
    rw [List.append_nil] at hx
    rw [hreceived]
    subst hxv
    exact hinv.uncounted x ((underway_sublist hsub).subset hx) hxround hin
  · intro x hx
    cases hx

theorem inv_handled (hinv : s.Inv d) (hok : s.Orderly d a) (hmany : 1 < d.members.length)
    (h : s.cluster.handled d a = some (v, ev)) : (s.step d a).Inv d := by
  apply Keeps.inv hinv hok h
  have hsub := remaining_sublist hok.2.1
  have hseen := seen hinv.flight h
  have hround := (round_step h v).2.2
  have hid := (hinv.settled v).1
  have hmembers := (hinv.fixed.node v hseen.member).config
  have hcurrent := hok.2.2 v ev h
  have hgrants : (s.step d a).grants =
      s.grants ++ (s.cluster.nodes v).granting v (s.mark v a) ev := by rw [step_of_handled h]
  have hkept : ∀ x ∈ s.grants, x ∈ (s.step d a).grants := by
    intro x hx
    rw [hgrants]
    exact List.mem_append_left _ hx
  have hpre := RaftNode.preVoteStep_onEvent (hinv.settled v).2 (hmembers.length_eq ▸ hmany) ev
  generalize (s.cluster.nodes v).onEvent .testUtils ev = n' at hpre ⊢
  cases hpre with
  | asks idle part =>
    obtain ⟨hflight, hmark⟩ := hseen.timer _ rfl
    rw [hid] at part
    apply keeps_asks hinv hseen.member _ hflight hmark part
    rw [step_of_handled h]
    dsimp only
    rw [if_pos (by simpa [RaftNode.beginsRound] using idle), Function.update_self]
  | answers part =>
    rw [hid] at part
    apply keeps_answers hinv hseen.member (hround rfl) hkept _ (hseen.delivers _ _ rfl) part
    intro x hx
    rw [hgrants]
    exact List.mem_append_right _ hx
  | counts awaited part =>
    exact keeps_counts hinv hseen.member (hround rfl) hkept hsub (hseen.delivers _ _ rfl) awaited
      (hcurrent awaited).1 part
  | quiet calm part => exact keeps_quiet hinv hseen.member (hround calm) hkept hsub part

theorem inv_step (hinv : s.Inv d) (hok : s.Orderly d a) (hmany : 1 < d.members.length) :
    (s.step d a).Inv d := by
  cases h : s.cluster.handled d a with
  | none => exact inv_unhandled hinv hok h
  | some x => exact inv_handled hinv hok hmany h

theorem inv_init (d : Deployment SM) : (init d : Rounds P SM).Inv d := by
  refine ⟨fun _ => ⟨rfl, rfl⟩, fixed_init d, rfl, ?_, ?_, ?_, List.nodup_nil, ?_, ?_⟩
  · exact fun x hx => absurd hx List.not_mem_nil
  · exact fun p t hp => absurd hp List.not_mem_nil
  · intro v hv hpre
    cases hpre
  · exact fun x hx => absurd hx List.not_mem_nil
  · exact fun x hx => absurd hx List.not_mem_nil

/-! ### Runs -/

/-- Only an event that starts an election makes a node stand for the next term. -/
theorem startsElection_of_raises {n : TestNode P SM} (h : RaisesTerm n (n.onEvent .testUtils ev)) :
    n.StartsElection .testUtils ev := by
  have hout := RaftNode.onEvent_outcome .testUtils n ev
  have hterm : (n.onEvent .testUtils ev).face.currentTerm = n.currentTerm + 1 := h.1
  have hrole : (n.onEvent .testUtils ev).face.role ≠ .follower := h.2
  generalize (n.onEvent .testUtils ev).face = f at hout hterm hrole
  have hfollow : ∀ T, (n.face.follow T).currentTerm = n.currentTerm + 1 →
      (n.face.follow T).role = .follower := by
    intro T hT
    have hlt : n.currentTerm < T := by
      have hT' : T = n.currentTerm + 1 := hT
      omega
    exact if_pos (Or.inl hlt)
  have hsame : n.currentTerm ≠ n.currentTerm + 1 := by omega
  cases hout with
  | campaigns cause | leadsAlone cause => exact cause
  | stepsDown => exact absurd rfl hrole
  | hearsSnapshot | installs => exact absurd (hfollow _ hterm) hrole
  | _ => exact absurd hterm hsame

theorem earned_of_inv (hinv : s.Inv d) (hok : s.Orderly d a) (hmany : 1 < d.members.length)
    (hraise : RaisesTerm (s.cluster.nodes v) ((s.step d a).cluster.nodes v)) :
    s.EarnedByRound v := by
  rw [step_cluster] at hraise
  have hnode := Cluster.node_cases d s.cluster a v
  generalize (s.cluster.step d a).nodes v = n' at hnode hraise
  have hsame : (s.cluster.nodes v).currentTerm ≠ (s.cluster.nodes v).currentTerm + 1 := by omega
  cases hnode with
  | stays | ages => exact absurd hraise.1 hsame
  | restarts => exact absurd rfl hraise.2
  | @handles ev handled =>
    have hseen := seen hinv.flight handled
    have hconfig := (hinv.fixed.node v hseen.member).config
    have hcause : (s.cluster.nodes v).StartsElection .testUtils ev :=
      startsElection_of_raises hraise
    unfold RaftNode.StartsElection at hcause
    split at hcause
    · have := hconfig.length_eq
      omega
    · rename_i sender term voteGranted
      obtain ⟨hterm, hpre, hgranted, hquorum⟩ := hcause
      subst hgranted
      obtain ⟨hmark, hheard⟩ := hok.2.2 v _ handled ⟨hterm, hpre⟩
      obtain ⟨hnodup, hmem, hall⟩ := counted_answer hinv hseen.member (hseen.delivers _ _ rfl)
        ⟨hterm, hpre⟩ hmark
      refine ⟨⟨((s.cluster.nodes v).election.preVotesReceived ++ [sender]).toFinset,
        ?_, ?_, ?_, ?_⟩,
        hheard hquorum⟩
      · intro w hw
        rw [List.mem_toFinset] at hw ⊢
        rcases hall w hw with rfl | hw
        · exact hconfig.mem_iff.mpr hseen.member
        · exact hconfig.mem_iff.mpr (hinv.peers _ hw)
      · exact List.mem_toFinset.mpr hmem
      · rw [List.toFinset_card_of_nodup hnodup]
        exact of_decide_eq_true hquorum
      · intro w hw
        exact hall w (List.mem_toFinset.mp hw)
    · exact hcause.elim

/-- **Whoever raises its term has been granted it in its current round**: in every run of a fixed
membership of two or more in which messages are delivered at most once and only answers to the
current round are counted, a node that stands for the next term has been granted the round that it
began last by a quorum of members, itself included, and has accepted no entries of its term
since. -/
theorem term_raised_by_round (hmany : 1 < d.members.length)
    (h : Run (step d) (fun s a => s.Orderly d a) (init d) s) (hok : s.Orderly d a)
    (hraise : RaisesTerm (s.cluster.nodes v) ((s.step d a).cluster.nodes v)) :
    s.EarnedByRound v :=
  earned_of_inv (Run.invariant (fun _ _ hinv hok => inv_step hinv hok hmany) h (inv_init d)) hok
    hmany hraise

end Rounds

end

/-! ## A round that a stale answer ends -/

instance (n : TestNode UInt8 Adder) (term : Nat) : Decidable (n.AwaitsPreVote term) :=
  inferInstanceAs (Decidable (_ ∧ _))

instance (s : Rounds UInt8 Adder) (a : Action UInt8) (v : NodeId) :
    (ev : Event UInt8) → Decidable (s.CountsCurrent a v ev)
  | .message _ (.preVoteResponse _ true) => inferInstanceAs (Decidable (_ → _ ∧ (_ → _ ≠ _)))
  | .message _ (.preVoteResponse _ false) | .message _ (.preVoteRequest _ _ _ _)
  | .message _ (.requestVote _ _ _ _) | .message _ (.requestVoteResponse _ _)
  | .message _ (.appendEntries _ _ _ _ _) | .message _ (.appendEntriesResponse _ _ _)
  | .message _ (.installSnapshot _ _ _ _ _ _ _) | .message _ (.installSnapshotResponse _ _)
  | .timerFired _ | .clientCommand _ | .configChange _ => isTrue trivial

instance (d : Deployment Adder) (s : Rounds UInt8 Adder) (a : Action UInt8) :
    Decidable (s.Orderly d a) :=
  inferInstanceAs (Decidable (_ ∧ _ ∧ OnEvents d (fun _ => s.CountsCurrent a) s.cluster a))

instance (n n' : TestNode UInt8 Adder) : Decidable (Rounds.RaisesTerm n n') :=
  inferInstanceAs (Decidable (_ ∧ _ ≠ _))

/-- Node 1 of three begins a round, and node 2 grants it. -/
def oneRound : List (Action UInt8) := [.timer 1 .election, .deliver 0]

/-- The answer of node 2 makes node 1 stand for term 1. -/
theorem term_raised_by_round_trio :
    (oneRound.foldl (Rounds.step trio) (Rounds.init trio) : Rounds UInt8 Adder).EarnedByRound 1 :=
  Rounds.term_raised_by_round (d := trio) (a := .deliver 1) (by decide)
    (Admitted.run oneRound (by decide +kernel)) (by decide +kernel) (by decide +kernel)

/-- Node 1 of five begins two rounds, and both its questions to node 2 are answered. -/
def twoRounds : List (Action UInt8) :=
  [.timer 1 .election, .deliver 0, .timer 1 .election, .deliver 4, .deliver 3]

/-- The second answer makes node 1 stand for term 1, though only node 2 has granted it anything. -/
theorem term_raised_by_stale_answer :
    ¬ ∀ (s : Rounds UInt8 Adder) (a : Action UInt8) (v : NodeId),
      Run (Rounds.step quintet) (fun s a => FixedMembership s.cluster a ∧ AtMostOnce s.cluster a)
        (Rounds.init quintet) s →
      FixedMembership s.cluster a ∧ AtMostOnce s.cluster a →
      Rounds.RaisesTerm (s.cluster.nodes v) ((s.step quintet a).cluster.nodes v) →
      s.EarnedByRound v := by
  intro h
  have hearned := h _ (.deliver 6) 1 (Admitted.run twoRounds (by
    simp [Admitted, twoRounds, FixedMembership, AtMostOnce]))
    ⟨trivial, trivial⟩ (by decide +kernel)
  obtain ⟨Q, _, _, hcard, hgranted⟩ := hearned.1
  have hquorum : 3 ≤ Q.card := hcard
  have hgrants : (twoRounds.foldl (Rounds.step quintet) (Rounds.init quintet) :
      Rounds UInt8 Adder).grants = [⟨1, 2, 1⟩, ⟨1, 2, 2⟩] := by decide +kernel
  have hsub : Q ⊆ {1, 2} := by
    intro w hw
    rcases hgranted w hw with rfl | hmem
    · decide
    · rw [hgrants] at hmem
      simp only [List.mem_cons, Exchange.mk.injEq, List.not_mem_nil, or_false] at hmem
      rcases hmem with ⟨_, rfl, _⟩ | ⟨_, rfl, _⟩
      · decide
      · decide
  have hle := Finset.card_le_card hsub
  have htwo : ({1, 2} : Finset NodeId).card = 2 := rfl
  omega

end MetalRaft
