import MetalRaft.Ballot
import MetalRaft.VoteTally

/-!
# Election safety

The cluster follows the protocol of `Voting.Ballot`: a member's stored term and vote, its role
and its messages are those of a ballot whose history of votes and leaders only grows.

* `Move.voteCases` — what a move can do to terms, votes, roles and tallies.
* `ElectionSim` — the cluster simulates a ballot; `electionSim_move` follows a move.
* `Unique` — where messages are delivered at most once, a request or a granted vote is in flight
  only as long as it has not been counted; so no vote is counted twice.
* `election_safety` — no two members lead the same term, at whatever times in a run.
-/

set_option autoImplicit false

namespace MetalRaft

open Transition Voting

variable {P SM : Type} [StateMachine SM P]

/-! ## Moves, as far as elections go -/

namespace RaftNode

/-- The move leaves terms, votes, roles and the tally alone. -/
structure Quiet (n n' : TestNode P SM) : Prop where
  currentTerm : n'.currentTerm = n.currentTerm
  stored : n'.storage.currentTerm = n.storage.currentTerm
  votedFor : n'.storage.votedFor = n.storage.votedFor
  role : n'.role = n.role
  votesReceived : n'.election.votesReceived = n.election.votesReceived

/-- Nothing that is sent asks for a vote or grants one. -/
def SpeaksOnly (ev : Event P) (n₀ n n' : TestNode P SM) : Prop :=
  ∃ outs : List (Packet P), n'.outbox = n.outbox ++ outs ∧
    ∀ p ∈ outs, p.src = n.id ∧ Speaks .testUtils ev n₀ n p.dst p.msg

inductive VoteMove (ev : Event P) (n₀ : TestNode P SM) : TestNode P SM → TestNode P SM → Prop where
  | quiet {n n'} (h : Quiet n n') (speaks : SpeaksOnly ev n₀ n n') : VoteMove ev n₀ n n'
  | adoptTerm {n T} (higher : n.currentTerm < T) : VoteMove ev n₀ n (n.inTerm T)
  | rest {n} (candidate : n.role = .candidate) : VoteMove ev n₀ n { n with role := .follower }
  | campaign {n} (cause : n₀.StartsElection .testUtils ev) :
      VoteMove ev n₀ n
        { n.standing with
          transport := n.transport ++ (n.config.peers n.id).map fun t =>
            ⟨t, .requestVote (n.currentTerm + 1) n.id n.standing.storage.lastLogIndex
              n.standing.storage.lastLogTerm, n.standing.storage⟩ }
  | tally {sender} (answer : ev = .message sender (.requestVoteResponse n₀.currentTerm true))
      (candidate : n₀.role = .candidate) : VoteMove ev n₀ n₀ (n₀.counting .testUtils sender)
  | lead {n} (candidate : n.role = .candidate)
      (quorum : n.config.hasQuorum n.election.votesReceived.length = true ∨
        n.config.members.length ≤ 1) : VoteMove ev n₀ n (n.leading .testUtils)
  | grant {n sender cand li lt}
      (asked : ev = .message sender (.requestVote n.currentTerm cand li lt))
      (silent : n.transport = n₀.transport)
      (free : n.storage.votedFor = none ∨ n.storage.votedFor = some cand)
      (upToDate : ElectionManager.isLogUpToDate li lt n.storage = true) :
      VoteMove ev n₀ n
        ((n.withStorage (n.storage.setVotedFor (some cand))).send sender
          (.requestVoteResponse n.currentTerm true))

omit [StateMachine SM P] in
theorem speaksNothing {ev : Event P} {n₀ n n' : TestNode P SM} (h : n'.outbox = n.outbox) :
    SpeaksOnly ev n₀ n n' := ⟨[], by simp [h], by simp⟩

theorem Move.voteCases {d : Deployment SM} {ev : Event P} {n₀ n n' : TestNode P SM}
    (h : Move .testUtils ev n₀ n n') (hf : FixedNode d n) : VoteMove ev n₀ n n' := by
  cases h with
  | inert h =>
    refine .quiet ⟨h.currentTerm, by rw [h.storage], by rw [h.storage], h.role, h.votesReceived⟩ ?_
    exact speaksNothing (by simp [RaftNode.outbox, h.transport, h.id])
  | adoptTerm higher => exact .adoptTerm higher
  | rest candidate => exact .rest candidate
  | campaign cause =>
    rw [broadcast_eq, peerIds_testUtils]
    exact .campaign cause
  | tally answer candidate => exact .tally answer candidate
  | lead candidate quorum => exact .lead candidate quorum
  | grant asked silent free upToDate => exact .grant asked silent free upToDate
  | say outs spoken =>
    refine .quiet ⟨rfl, rfl, rfl, rfl, rfl⟩ ⟨_, outbox_append n outs, ?_⟩
    intro p hp
    obtain ⟨o, ho, rfl⟩ := List.mem_map.mp hp
    exact ⟨rfl, (spoken o ho).2⟩
  | place =>
    refine .quiet ⟨rfl, ?_, ?_, rfl, rfl⟩ (speaksNothing rfl) <;>
      simp only [withStorage, InMemoryStorage.placeEntries_eq]
  | applyChanges changes found => exact absurd found hf.no_applyChanges
  | compact =>
    obtain ⟨_, hterm, hvote⟩ := InMemoryStorage.create_log_subset n.storage n.stateMachine
      n.replication.commitIndex
    exact .quiet ⟨rfl, hterm, hvote, rfl, rfl⟩ (speaksNothing rfl)
  | storeChunk =>
    refine .quiet ⟨rfl, ?_, ?_, rfl, rfl⟩ (speaksNothing rfl) <;>
      simp only [withStorage, chunkResult, InMemoryStorage.storage_applySnapshotChunk] <;>
      rw [InMemoryStorage.applySnapshotChunk_eq]
  | install =>
    refine .quiet ⟨rfl, ?_, ?_, rfl, rfl⟩ (speaksNothing rfl) <;>
      simp only [chunkResult, InMemoryStorage.storage_applySnapshotChunk,
        InMemoryStorage.storage_discardEntriesBefore] <;>
      rw [InMemoryStorage.discardEntriesBefore_eq, InMemoryStorage.applySnapshotChunk_eq]
  | _ => exact .quiet ⟨rfl, rfl, rfl, rfl, rfl⟩ (speaksNothing rfl)

end RaftNode

/-- Why the node votes for `x` in term `T`: it stands itself, or it has been asked for its vote. -/
def RaftNode.Votes (v : NodeId) (n : TestNode P SM) (ev : Event P) (T : Nat) (x : NodeId) : Prop :=
  n.StartsElection .testUtils ev ∧ x = v ∨
    ∃ sender li lt, ev = .message sender (.requestVote T x li lt) ∧ n.currentTerm ≤ T

/-! ## The simulation -/

/-- The role as elections see it. -/
def NodeState.toRole : NodeState → Role
  | .follower => .idle
  | .candidate => .standing
  | .leader => .leading

structure BallotNode (b : Ballot NodeId) (v : NodeId) (n : TestNode P SM) : Prop where
  currentTerm : n.currentTerm = b.term v
  stored : n.storage.currentTerm = b.term v
  votedFor : n.storage.votedFor = b.voted v (b.term v)
  role : n.role.toRole = b.role v

/-- A vote request comes from the candidate it names; a granted vote has been cast. -/
def BallotPacket (b : Ballot NodeId) (p : Packet P) : Prop :=
  match p.msg with
  | .requestVote term candidateId _ _ => candidateId = p.src ∧ term ≤ b.term p.src
  | .requestVoteResponse term granted => granted = true → b.voted p.src term = some p.dst
  | _ => True

structure ElectionSim (d : Deployment SM) (c : Cluster P SM) (b : Ballot NodeId) : Prop where
  inv : b.Inv d.members.toFinset
  node : ∀ v ∈ d.members, BallotNode b v (c.nodes v)
  sent : ∀ p ∈ c.messageLog, BallotPacket b p

section

variable {d : Deployment SM} {c : Cluster P SM} {b b' : Ballot NodeId} {v u : NodeId}
  {ev : Event P} {n₀ n n' : TestNode P SM} {p : Packet P}

omit [StateMachine SM P]

theorem BallotPacket.mono (hle : Ballot.Le b b') (h : BallotPacket b p) : BallotPacket b' p := by
  unfold BallotPacket at h ⊢
  split
  · rename_i heq; rw [heq] at h; exact ⟨h.1, h.2.trans (hle.term _)⟩
  · rename_i heq; rw [heq] at h; exact fun hg => hle.voted _ _ _ (h hg)
  · trivial

theorem BallotPacket.speaks {target : NodeId} {msg : RaftMsg P}
    (h : RaftNode.Speaks .testUtils ev n₀ n target msg) :
    BallotPacket b ⟨v, target, msg⟩ := by
  cases h with
  | entries =>
    rcases getAppendEntriesForPeer_cases n.replication target n.id n.storage with
      ⟨m, data, _, _, heq⟩ | heq <;> rw [heq] <;> trivial
  | refusal => exact fun hg => by cases hg
  | _ => trivial

/-- A ballot move of `v` carries the simulation along when it is right about `v` and about what
`v` sends. -/
theorem ElectionSim.update (h : ElectionSim d (c.withNode v n) b)
    (hinv : b'.Inv d.members.toFinset) (hle : Ballot.Le b b')
    (hothers : ∀ u, u ≠ v → b'.term u = b.term u ∧ b'.role u = b.role u ∧
      b'.voted u (b.term u) = b.voted u (b.term u))
    (hnode : BallotNode b v n → BallotNode b' v n')
    (hout : ∃ outs, n'.outbox = n.outbox ++ outs ∧ ∀ p ∈ outs, BallotPacket b' p) :
    Ballot.Le b b' ∧ ElectionSim d (c.withNode v n') b' := by
  refine ⟨hle, hinv, fun u hu => ?_, fun p hp => ?_⟩
  · have hold := h.node u hu
    by_cases huv : u = v
    · subst huv
      rw [Cluster.withNode_nodes_self] at hold ⊢
      obtain ⟨h₁, h₂, h₃, h₄⟩ := hnode ⟨hold.1, hold.2, hold.3, hold.4⟩
      exact ⟨h₁, h₂, h₃, h₄⟩
    · rw [Cluster.withNode_nodes_ne huv] at hold ⊢
      obtain ⟨hterm, hrole, hvoted⟩ := hothers u huv
      exact ⟨by rw [hterm]; exact hold.1, by rw [hterm]; exact hold.2,
        by rw [hterm, hvoted]; exact hold.3, by rw [hrole]; exact hold.4⟩
  · obtain ⟨outs, heq, houts⟩ := hout
    rw [Cluster.withNode_messageLog, heq, ← List.append_assoc] at hp
    rcases List.mem_append.mp hp with hp | hp
    · exact (h.sent p hp).mono hle
    · exact houts p hp

theorem ElectionSim.self (h : ElectionSim d (c.withNode v n) b) (hv : v ∈ d.members) :
    BallotNode b v n := by
  have hnode := h.node v hv
  rw [Cluster.withNode_nodes_self] at hnode
  exact ⟨hnode.1, hnode.2, hnode.3, hnode.4⟩

/-! ### The moves -/

theorem electionSim_quiet (hq : RaftNode.Quiet n n') (hout : RaftNode.SpeaksOnly ev n₀ n n')
    (h : ElectionSim d (c.withNode v n) b) : Ballot.Le b b ∧ ElectionSim d (c.withNode v n') b := by
  refine h.update h.inv (Ballot.Le.refl b) (fun _ _ => ⟨rfl, rfl, rfl⟩) (fun hn => ?_) ?_
  · exact ⟨hq.currentTerm.trans hn.1, hq.stored.trans hn.2, hq.votedFor.trans hn.3,
      by rw [hq.role]; exact hn.4⟩
  · obtain ⟨outs, heq, houts⟩ := hout
    refine ⟨outs, heq, fun p hp => ?_⟩
    exact BallotPacket.speaks (v := p.src) (houts p hp).2

theorem electionSim_tally {sender : NodeId} (h : ElectionSim d (c.withNode v n) b) :
    Ballot.Le b b ∧ ElectionSim d (c.withNode v (n.counting .testUtils sender)) b :=
  h.update h.inv (Ballot.Le.refl b) (fun _ _ => ⟨rfl, rfl, rfl⟩)
    (fun hn => ⟨hn.1, hn.2, hn.3, hn.4⟩) ⟨[], by simp [RaftNode.outbox, RaftNode.counting], by simp⟩

theorem electionSim_adoptTerm {T : Nat} (higher : n.currentTerm < T) (hv : v ∈ d.members)
    (h : ElectionSim d (c.withNode v n) b) :
    Ballot.Le b (b.adopt v T) ∧ ElectionSim d (c.withNode v (n.inTerm T)) (b.adopt v T) := by
  have hT : b.term v < T := by
    have := (h.self hv).currentTerm
    omega
  refine h.update (Ballot.inv_adopt h.inv hT) (Ballot.le_adopt (Nat.le_of_lt hT)) (fun u hu => ?_)
    (fun hn => ?_) ⟨[], by simp [RaftNode.outbox, RaftNode.inTerm], by simp⟩
  · simp [Ballot.adopt, hu]
  · have hnone : b.voted v T = none := by
      cases hvote : b.voted v T with
      | none => rfl
      | some x => have := h.inv.voted_le v T x hvote; omega
    constructor <;> simp [RaftNode.inTerm, Ballot.adopt, hnone, NodeState.toRole]

theorem electionSim_rest (h : ElectionSim d (c.withNode v n) b) :
    Ballot.Le b (b.rest v) ∧
      ElectionSim d (c.withNode v { n with role := .follower }) (b.rest v) := by
  refine h.update (Ballot.inv_rest h.inv) Ballot.le_rest (fun u hu => ?_) (fun hn => ?_)
    ⟨[], by simp [RaftNode.outbox], by simp⟩
  · simp [Ballot.rest, hu]
  · exact ⟨hn.1, hn.2, hn.3, by simp [Ballot.rest, NodeState.toRole]⟩

theorem electionSim_campaign {li lt : Nat} {peers : List NodeId} (hid : n.id = v)
    (h : ElectionSim d (c.withNode v n) b) (hv : v ∈ d.members) :
    Ballot.Le b (b.campaign v) ∧ ElectionSim d (c.withNode v
      { n.standing with
        transport := n.transport ++ peers.map fun t =>
          ⟨t, .requestVote (n.currentTerm + 1) n.id li lt, n.standing.storage⟩ })
      (b.campaign v) := by
  have hterm : n.currentTerm = b.term v := (h.self hv).currentTerm
  refine h.update (Ballot.inv_campaign h.inv) (Ballot.le_campaign h.inv) (fun u hu => ?_)
    (fun hn => ?_) ⟨_, RaftNode.outbox_append n.standing _, fun p hp => ?_⟩
  · simp [Ballot.campaign, hu]
  · constructor <;> simp [RaftNode.standing, Ballot.campaign, hterm, hid, NodeState.toRole]
  · simp only [List.map_map, List.mem_map, Function.comp] at hp
    obtain ⟨t, _, rfl⟩ := hp
    refine ⟨rfl, ?_⟩
    simp [RaftNode.standing, Ballot.campaign, hid, hterm]

/-- A full tally, or a configuration of one, is a majority of votes. -/
theorem elected_of_tally (hid : n.id = v) (hv : v ∈ d.members)
    (hcand : n.role = .candidate)
    (hquorum : n.config.hasQuorum n.election.votesReceived.length = true ∨
      n.config.members.length ≤ 1) (hfixed : FixedNode d n) {L : List (Packet P)}
    (htally : TallyNode d L n) (hL : ∀ p ∈ L, BallotPacket b p)
    (h : ElectionSim d (c.withNode v n) b) :
    Ballot.Elected d.members.toFinset b v (b.term v) := by
  have hnode := h.self hv
  have hrole : b.role v ≠ .idle := by
    rw [← hnode.role, hcand]; simp [NodeState.toRole]
  have hself : b.voted v (b.term v) = some v := h.inv.own_vote v hrole
  have hcard : d.members.toFinset.card = n.config.members.length := by
    rw [List.toFinset_card_of_nodup d.nodup, hfixed.config.length_eq]
  rcases hquorum with hquorum | hone
  · refine ⟨n.election.votesReceived.toFinset, ⟨fun u hu => ?_, ?_⟩, fun u hu => ?_⟩
    · exact List.mem_toFinset.mpr (htally.member u (List.mem_toFinset.mp hu))
    · rw [hcard, List.toFinset_card_of_nodup htally.nodup]
      have hq : n.election.votesReceived.length ≥ n.config.quorumSize := of_decide_eq_true hquorum
      have hpos : n.config.size ≠ 0 := by
        have := List.length_pos_of_mem (hfixed.config.mem_iff.mpr hv)
        unfold Configuration.size; omega
      simp only [Configuration.quorumSize, hpos, if_false] at hq
      unfold Configuration.size at hq
      omega
    · rcases htally.granted hcand u (List.mem_toFinset.mp hu) with rfl | hmsg
      · rw [hid]; exact hself
      · have := hL _ hmsg rfl
        rw [hid] at this
        rwa [← hnode.currentTerm]
  · refine ⟨{v}, ⟨by simpa using hv, ?_⟩, fun u hu => ?_⟩
    · rw [hcard]; simp; omega
    · rw [Finset.mem_singleton.mp hu]; exact hself

theorem electionSim_lead (hcand : n.role = .candidate) (hv : v ∈ d.members)
    (hel : Ballot.Elected d.members.toFinset b v (b.term v))
    (h : ElectionSim d (c.withNode v n) b) :
    Ballot.Le b (b.lead v) ∧ ElectionSim d (c.withNode v (n.leading .testUtils)) (b.lead v) := by
  have hnode := h.self hv
  have hrole : b.role v = .standing := by rw [← hnode.role, hcand]; rfl
  refine h.update (Ballot.inv_lead h.inv hrole hel)
    (Ballot.le_lead (h.inv.leader_eq_none hrole hel)) (fun u hu => ?_) (fun hn => ?_)
    ⟨[], by simp [RaftNode.outbox, RaftNode.leading], by simp⟩
  · simp [Ballot.lead, hu]
  · exact ⟨hn.1, hn.2, hn.3, by simp [RaftNode.leading, Ballot.lead, NodeState.toRole]⟩

theorem electionSim_grant {sender cand : NodeId} {li lt : Nat} (hid : n.id = v)
    (hv : v ∈ d.members) (free : n.storage.votedFor = none ∨ n.storage.votedFor = some cand)
    (hreq : BallotPacket b (⟨sender, v, .requestVote n.currentTerm cand li lt⟩ : Packet P))
    (h : ElectionSim d (c.withNode v n) b) :
    Ballot.Le b (b.vote v cand) ∧
      ElectionSim d (c.withNode v ((n.withStorage (n.storage.setVotedFor (some cand))).send sender
      (.requestVoteResponse n.currentTerm true))) (b.vote v cand) := by
  have hnode := h.self hv
  have hterm : n.currentTerm = b.term v := hnode.currentTerm
  obtain ⟨rfl, hle⟩ : cand = sender ∧ n.currentTerm ≤ b.term sender := hreq
  have hfree : b.voted v (b.term v) = none ∨ b.voted v (b.term v) = some cand := by
    rw [← hnode.votedFor]; exact free
  refine h.update (Ballot.inv_vote h.inv hfree (by omega)) (Ballot.le_vote hfree) (fun u hu => ?_)
    (fun hn => ?_) ⟨_, RaftNode.outbox_append (n.withStorage _) _, fun p hp => ?_⟩
  · simp [Ballot.vote, hu]
  · refine ⟨hn.1, hn.2, ?_, hn.4⟩
    simp [RaftNode.send, RaftNode.withStorage, InMemoryStorage.setVotedFor, Ballot.vote]
  · simp only [List.map_cons, List.map_nil, List.mem_singleton] at hp
    subst hp
    intro _
    simp [RaftNode.withStorage, hid, Ballot.vote, hterm]

end

section

variable {d : Deployment SM} {c : Cluster P SM} {b : Ballot NodeId} {v : NodeId}
  {ev : Event P} {n₀ n n' : TestNode P SM}

open RaftNode

omit [StateMachine SM P] in
theorem electionSim_move (hid : n.id = v) (hv : v ∈ d.members) (hfixed : FixedNode d n)
    {L : List (Packet P)} (htally : TallyNode d L n) (hL : ∀ p ∈ L, BallotPacket b p)
    (hmsg : ∀ sender msg, ev = .message sender msg →
      BallotPacket b (⟨sender, v, msg⟩ : Packet P)) (hterm : n₀.currentTerm ≤ n.currentTerm)
    (hmove : VoteMove ev n₀ n n') (h : ElectionSim d (c.withNode v n) b) :
    ∃ b', Ballot.Le b b' ∧ ElectionSim d (c.withNode v n') b' ∧
      Ballot.NewVotes (fun u T x => u = v ∧ Votes v n₀ ev T x) b b' := by
  cases hmove with
  | quiet hq speaks =>
    obtain ⟨hle, hsim⟩ := electionSim_quiet hq speaks h
    exact ⟨b, hle, hsim, .of_eq rfl⟩
  | adoptTerm higher =>
    obtain ⟨hle, hsim⟩ := electionSim_adoptTerm higher hv h
    exact ⟨_, hle, hsim, .of_eq rfl⟩
  | rest =>
    obtain ⟨hle, hsim⟩ := electionSim_rest h
    exact ⟨_, hle, hsim, .of_eq rfl⟩
  | campaign cause =>
    obtain ⟨hle, hsim⟩ := electionSim_campaign hid h hv
    exact ⟨_, hle, hsim, Ballot.newVotes_campaign ⟨rfl, Or.inl ⟨cause, rfl⟩⟩⟩
  | tally =>
    obtain ⟨hle, hsim⟩ := electionSim_tally h
    exact ⟨b, hle, hsim, .of_eq rfl⟩
  | lead candidate quorum =>
    obtain ⟨hle, hsim⟩ := electionSim_lead candidate hv
      (elected_of_tally hid hv candidate quorum hfixed htally hL h) h
    exact ⟨_, hle, hsim, .of_eq rfl⟩
  | grant asked silent free =>
    obtain ⟨hle, hsim⟩ := electionSim_grant hid hv free (hmsg _ _ asked) h
    rw [(h.self hv).currentTerm] at asked hterm
    exact ⟨_, hle, hsim, Ballot.newVotes_vote ⟨rfl, Or.inr ⟨_, _, _, asked, hterm⟩⟩⟩

/-- A restarted member is a follower in the term that it has stored. -/
theorem electionSim_restart (h : ElectionSim d c b) :
    Ballot.Le b (b.rest v) ∧ ElectionSim d
      { c with nodes := Function.update c.nodes v ((c.nodes v).restart d) } (b.rest v) := by
  refine ⟨Ballot.le_rest, Ballot.inv_rest h.inv, fun u hu => ?_,
    fun p hp => (h.sent p hp).mono Ballot.le_rest⟩
  have hold := h.node u hu
  by_cases huv : u = v
  · subst huv
    simp only [Function.update_self]
    exact ⟨hold.2, hold.2, hold.3, by simp [restart, boot, newFromBuilder, NodeState.toRole,
      Ballot.rest]⟩
  · simp only [Function.update_of_ne huv]
    exact ⟨hold.1, hold.2, hold.3, by simp [Ballot.rest, huv, hold.4]⟩

omit [StateMachine SM P] in
theorem electionSim_advance {ms : Nat} (h : ElectionSim d c b) :
    ElectionSim d { c with nodes := fun v => (c.nodes v).advanceClock ms } b :=
  ⟨h.inv, fun u hu => ⟨(h.node u hu).1, (h.node u hu).2, (h.node u hu).3, (h.node u hu).4⟩, h.sent⟩

theorem electionSim_step {a : Action P} (hok : OneVoteEach d c a) (hs : Settled c) (hf : Fixed d c)
    (ht : Tallied d c) (h : ElectionSim d c b) :
    ∃ b', Ballot.Le b b' ∧ ElectionSim d (c.step d a) b' := by
  rcases Cluster.step_cases d c a with ⟨v, ev, c₀, hh, hstep⟩ | ⟨net, _, hstep⟩ |
    ⟨k, p, _, _, hstep⟩ | ⟨v, _, hstep⟩ | ⟨ms, _, hstep⟩ <;> rw [hstep]
  · have hv := hh.member
    have hlog : ∀ sender msg, ev = .message sender msg → ⟨sender, v, msg⟩ ∈ c.messageLog := by
      rintro sender msg rfl
      exact hf.inFlight _ hh.delivered
    have h₀ : ElectionSim d c₀ b :=
      ⟨h.inv, by rw [hh.nodes]; exact h.node, by rw [hh.messageLog]; exact h.sent⟩
    refine Cluster.dispatch_simulate (ElectionSim d) Ballot.Le Ballot.Le.refl
      (fun _ _ _ => Ballot.Le.trans) (by rw [hh.nodes]; exact (hs v).2) ?_ h₀
    intro n n' b' hmoves hmove hle hsim
    rw [hh.nodes] at hmoves hmove
    have hfixed := hf.between hok.1 hv hh.handled hlog hmoves
    have hL : ∀ p ∈ c.messageLog, BallotPacket b' p := fun p hp => (h.sent p hp).mono hle
    obtain ⟨b'', hle', hsim', _⟩ := electionSim_move ((Moves.id_eq hmoves).trans (hs v).1) hv hfixed
      (ht.between hs hf hok hv hh.handled hlog hmoves) hL
      (fun sender msg he => hL _ (hlog sender msg he)) (Moves.currentTerm_le hmoves)
      (hmove.voteCases hfixed) hsim
    exact ⟨b'', hle', hsim'⟩
  · exact ⟨b, Ballot.Le.refl b, h.inv, h.node, h.sent⟩
  · exact ⟨b, Ballot.Le.refl b, h.inv, h.node, h.sent⟩
  · exact ⟨_, electionSim_restart h⟩
  · exact ⟨b, Ballot.Le.refl b, electionSim_advance h⟩

/-- What is known of a cluster in which no vote is counted twice. -/
structure Electing (d : Deployment SM) (c : Cluster P SM) (b : Ballot NodeId) : Prop where
  settled : Settled c
  fixed : Fixed d c
  tallied : Tallied d c
  sim : ElectionSim d c b

theorem electing_init (d : Deployment SM) :
    Electing d (Cluster.init d : Cluster P SM) Ballot.init := by
  refine ⟨fun _ => ⟨rfl, rfl⟩, fixed_init d, tallied_init d, Ballot.inv_init, fun v _ => ?_, ?_⟩
  · exact ⟨rfl, rfl, rfl, rfl⟩
  · simp [Cluster.init]

theorem Electing.run {c' : Cluster P SM} (h : Run (Cluster.step d) (OneVoteEach d) c c')
    (hc : Electing d c b) : ∃ b', Ballot.Le b b' ∧ Electing d c' b' := by
  refine Run.simulate (Electing d) Ballot.Le Ballot.Le.refl
    (fun _ _ _ => Ballot.Le.trans) ?_ h hc
  rintro c a b ⟨hs, hf, ht, hsim⟩ hok
  obtain ⟨b', hle, hsim'⟩ := electionSim_step hok hs hf ht hsim
  exact ⟨b', hle, settled_step hs a, fixed_step hok.1 hs hf, tallied_step hok.1 hok.2 hs hf ht,
    hsim'⟩

end

/-! ## At most one delivery -/

/-- The message asks for a vote in term `T`. -/
def RaftMsg.asks (T : Nat) : RaftMsg P → Bool
  | .requestVote term _ _ _ => decide (term = T)
  | _ => false

/-- The packet is a request of `x` for the vote of `v` in term `T`, or that vote. -/
def Packet.Concerns (x v : NodeId) (T : Nat) (p : Packet P) : Bool :=
  (decide (p.src = x) && decide (p.dst = v) && p.msg.asks T) ||
    (decide (p.src = v) && decide (p.dst = x) && p.msg.grants T)

/-- How often the vote of `v` for `x` in term `T` is under way. -/
def pending (x v : NodeId) (T : Nat) (network : List (Packet P)) : Nat :=
  network.countP (Packet.Concerns x v T)

/-- A vote is under way at most once, and not once it has been counted. -/
structure Unique (d : Deployment SM) (c : Cluster P SM) : Prop where
  future : ∀ x ∈ d.members, ∀ v T, (c.nodes x).currentTerm < T → pending x v T c.network = 0
  once : ∀ x ∈ d.members, (c.nodes x).role = .candidate → ∀ v,
    (c.nodes x).election.votesReceived.count v +
      pending x v (c.nodes x).currentTerm c.network ≤ 1

section

variable {d : Deployment SM} {c : Cluster P SM} {v x u : NodeId} {T : Nat}
  {ev : Event P} {n₀ n n' : TestNode P SM}

open RaftNode

omit [StateMachine SM P]

theorem pending_append (l l' : List (Packet P)) :
    pending x u T (l ++ l') = pending x u T l + pending x u T l' := by
  simp [pending]

theorem pending_eq_zero {l : List (Packet P)} (h : ∀ p ∈ l, p.Concerns x u T = false) :
    pending x u T l = 0 := by
  rw [pending, List.countP_eq_zero]
  intro p hp
  simp [h p hp]

theorem Speaks.concerns {w target : NodeId} {msg : RaftMsg P}
    (h : Speaks .testUtils ev n₀ n target msg) :
    (⟨w, target, msg⟩ : Packet P).Concerns x u T = false := by
  cases h with
  | entries =>
    rcases getAppendEntriesForPeer_cases n.replication target n.id n.storage with
      ⟨m, data, _, _, heq⟩ | heq <;> rw [heq] <;>
      simp [Packet.Concerns, RaftMsg.asks, RaftMsg.grants,
        LogReplicationManager.getAppendEntriesForFollower]
  | _ => simp [Packet.Concerns, RaftMsg.asks, RaftMsg.grants]

/-- A move that sends nothing about votes and starts no candidacy. -/
theorem unique_calm (hout : pending x u T n'.outbox = pending x u T n.outbox) :
    pending x u T (c.withNode v n').network = pending x u T (c.withNode v n).network := by
  rw [Cluster.withNode_network, Cluster.withNode_network, pending_append, pending_append, hout]

theorem unique_of_calm (hterm : n.currentTerm ≤ n'.currentTerm)
    (hrole : n'.role = .candidate → n.role = .candidate ∧ n'.currentTerm = n.currentTerm ∧
      n'.election.votesReceived = n.election.votesReceived)
    (hout : ∀ x u T, pending x u T n'.outbox = pending x u T n.outbox)
    (h : Unique d (c.withNode v n)) : Unique d (c.withNode v n') := by
  constructor
  · intro x hx u T hT
    rw [unique_calm (hout x u T)]
    refine h.future x hx u T ?_
    by_cases hxv : x = v
    · subst hxv
      rw [Cluster.withNode_nodes_self] at hT ⊢
      exact Nat.lt_of_le_of_lt hterm hT
    · rw [Cluster.withNode_nodes_ne hxv] at hT ⊢
      exact hT
  · intro x hx hcand u
    rw [unique_calm (hout _ _ _)]
    have hold := h.once x hx
    by_cases hxv : x = v
    · subst hxv
      rw [Cluster.withNode_nodes_self] at hcand hold ⊢
      obtain ⟨hr, ht, hvotes⟩ := hrole hcand
      simp only [ht, hvotes]
      exact hold hr u
    · rw [Cluster.withNode_nodes_ne hxv] at hcand hold ⊢
      exact hold hcand u

/-- The requests of `v` for votes in a term, as they concern a vote. -/
theorem pending_requests {li lt : Nat} (hid : n.id = v) (peers : List NodeId) (x u : NodeId)
    (T : Nat) :
    pending x u T (outbox
      { n.standing with
        transport := n.transport ++ peers.map fun t =>
          ⟨t, .requestVote (n.currentTerm + 1) n.id li lt, n.standing.storage⟩ }) =
      pending x u T n.outbox + if x = v ∧ T = n.currentTerm + 1 then peers.count u else 0 := by
  have hbox := outbox_append n.standing (peers.map fun t =>
    ⟨t, .requestVote (n.currentTerm + 1) n.id li lt, n.standing.storage⟩)
  have hsame : n.standing.outbox = n.outbox := rfl
  rw [show (outbox { n.standing with transport := n.transport ++ _ } : List (Packet P)) = _
    from hbox, pending_append, hsame]
  congr 1
  have hid' : n.standing.id = v := hid
  rw [hid', hid, pending, List.map_map, List.countP_map]
  split
  · rename_i hx
    obtain ⟨rfl, rfl⟩ := hx
    rw [List.count]
    congr 1
    funext t
    simp [Packet.Concerns, RaftMsg.asks, RaftMsg.grants, Function.comp, beq_eq_decide]
  · rename_i hx
    rw [List.countP_eq_zero]
    intro t _
    simp only [Function.comp, Packet.Concerns, RaftMsg.asks, RaftMsg.grants, Bool.and_false,
      Bool.or_false, Bool.and_eq_true, decide_eq_true_eq, not_and]
    rintro ⟨rfl, _⟩ rfl
    exact hx ⟨rfl, rfl⟩

/-- A node counts itself once and is not among its peers. -/
theorem count_self_peers (hfixed : FixedNode d n) (u : NodeId) :
    [n.id].count u + (n.config.peers n.id).count u ≤ 1 := by
  have hpeers : (n.config.peers n.id).Nodup := (hfixed.config.nodup_iff.mpr d.nodup).filter _
  by_cases hu : u = n.id
  · subst hu
    have hnot : n.id ∉ n.config.peers n.id := fun hm => (Configuration.mem_peers.mp hm).2 rfl
    rw [List.count_eq_zero.mpr hnot]
    simp
  · have hone := List.nodup_iff_count_le_one.mp hpeers u
    rw [List.count_eq_zero.mpr (by simpa using hu)]
    omega

/-- A new candidacy asks every peer once. -/
theorem unique_campaign {li lt : Nat} (hid : n.id = v) (hv : v ∈ d.members)
    (hfixed : FixedNode d n) (h : Unique d (c.withNode v n)) :
    Unique d (c.withNode v
      { n.standing with
        transport := n.transport ++ (n.config.peers n.id).map fun t =>
          ⟨t, .requestVote (n.currentTerm + 1) n.id li lt, n.standing.storage⟩ }) := by
  constructor
  · intro x hx u T hT
    rw [Cluster.withNode_network, pending_append, pending_requests hid]
    by_cases hxv : x = v
    · subst hxv
      rw [Cluster.withNode_nodes_self] at hT
      have hT' : n.currentTerm + 1 < T := hT
      have hold := h.future x hx u T (by rw [Cluster.withNode_nodes_self]; simp only; omega)
      rw [Cluster.withNode_network, pending_append] at hold
      rw [if_neg (by omega)]
      omega
    · rw [Cluster.withNode_nodes_ne hxv] at hT
      have hold := h.future x hx u T (by rw [Cluster.withNode_nodes_ne hxv]; exact hT)
      rw [Cluster.withNode_network, pending_append] at hold
      rw [if_neg (fun hh => hxv hh.1)]
      omega
  · intro x hx hcand u
    rw [Cluster.withNode_network, pending_append, pending_requests hid]
    by_cases hxv : x = v
    · subst hxv
      rw [Cluster.withNode_nodes_self]
      have hold := h.future x hx u (n.currentTerm + 1)
        (by rw [Cluster.withNode_nodes_self]; simp)
      rw [Cluster.withNode_network, pending_append] at hold
      simp only [standing, and_self, if_true]
      have hcount := count_self_peers hfixed u
      omega
    · rw [Cluster.withNode_nodes_ne hxv] at hcand ⊢
      have hold := h.once x hx (by rw [Cluster.withNode_nodes_ne hxv]; exact hcand) u
      rw [Cluster.withNode_nodes_ne hxv, Cluster.withNode_network, pending_append] at hold
      rw [if_neg (fun hh => hxv hh.1)]
      omega

/-- What the delivered message leaves room for, it being out of the network of `c`. -/
structure Room (c : Cluster P SM) (v : NodeId) (ev : Event P) : Prop where
  ask : ∀ x T cand li lt, ev = .message x (.requestVote T cand li lt) →
    x ≠ v ∧ T ≤ (c.nodes x).currentTerm ∧ ((c.nodes x).role = .candidate →
      T = (c.nodes x).currentTerm →
        (c.nodes x).election.votesReceived.count v + pending x v T c.network = 0)
  answer : ∀ u, ev = .message u (.requestVoteResponse (c.nodes v).currentTerm true) →
    (c.nodes v).role = .candidate →
      (c.nodes v).election.votesReceived.count u +
        pending v u (c.nodes v).currentTerm c.network = 0

theorem unique_tally {sender : NodeId} (hsilent : (c.nodes v).transport = [])
    (hroom : Room c v ev)
    (answer : ev = .message sender (.requestVoteResponse (c.nodes v).currentTerm true))
    (candidate : (c.nodes v).role = .candidate) (h : Unique d (c.withNode v (c.nodes v))) :
    Unique d (c.withNode v ((c.nodes v).counting .testUtils sender)) := by
  have hbox : ((c.nodes v).counting .testUtils sender).outbox = (c.nodes v).outbox := rfl
  constructor
  · intro x hx u T hT
    rw [unique_calm (n := c.nodes v) (by rw [hbox])]
    refine h.future x hx u T ?_
    by_cases hxv : x = v
    · subst hxv; rw [Cluster.withNode_nodes_self] at hT ⊢; exact hT
    · rw [Cluster.withNode_nodes_ne hxv] at hT ⊢; exact hT
  · intro x hx hcand u
    rw [unique_calm (n := c.nodes v) (by rw [hbox])]
    have hold := h.once x hx
    by_cases hxv : x = v
    · subst hxv
      rw [Cluster.withNode_nodes_self] at hold ⊢
      have hzero := hroom.answer sender answer candidate
      have hnet : (c.withNode x (c.nodes x)).network = c.network := by
        simp [outbox, hsilent]
      rw [hnet]
      simp only [counting, Realization.testUtils, pushWithin_none, List.count_append]
      have hold' := hold candidate u
      rw [hnet] at hold'
      by_cases hu : u = sender
      · subst hu; simp only [List.count_singleton_self]; omega
      · rw [List.count_eq_zero.mpr (show u ∉ [sender] by simpa using hu)]
        simpa using hold'
    · rw [Cluster.withNode_nodes_ne hxv] at hcand hold ⊢
      exact hold hcand u

/-- A vote in term `S`, as it concerns a vote. -/
theorem pending_vote (v sender x u : NodeId) (S T : Nat) :
    pending x u T [(⟨v, sender, .requestVoteResponse S true⟩ : Packet P)] =
      if x = sender ∧ u = v ∧ T = S then 1 else 0 := by
  have hiff : (⟨v, sender, .requestVoteResponse S true⟩ : Packet P).Concerns x u T = true ↔
      (x = sender ∧ u = v ∧ T = S) := by
    simp only [Packet.Concerns, RaftMsg.asks, RaftMsg.grants, Bool.and_false, Bool.false_or,
      Bool.and_true, Bool.and_eq_true, decide_eq_true_eq]
    constructor
    · rintro ⟨⟨h₁, h₂⟩, h₃⟩; exact ⟨h₂.symm, h₁.symm, h₃.symm⟩
    · rintro ⟨h₁, h₂, h₃⟩; exact ⟨⟨h₂.symm, h₁.symm⟩, h₃.symm⟩
  rw [pending, List.countP_singleton]
  simp only [hiff]

theorem unique_grant {sender cand : NodeId} {li lt : Nat} (hid : n.id = v)
    (hsilent : n.transport = []) (hroom : Room c v ev)
    (asked : ev = .message sender (.requestVote n.currentTerm cand li lt))
    (h : Unique d (c.withNode v n)) :
    Unique d (c.withNode v ((n.withStorage (n.storage.setVotedFor (some cand))).send sender
      (.requestVoteResponse n.currentTerm true))) := by
  obtain ⟨hne, hle, hzero⟩ := hroom.ask sender n.currentTerm cand li lt asked
  have hbox : ((n.withStorage (n.storage.setVotedFor (some cand))).send sender
      (.requestVoteResponse n.currentTerm true)).outbox =
      [⟨v, sender, .requestVoteResponse n.currentTerm true⟩] := by
    simp [outbox, send, withStorage, hsilent, hid]
  have hempty : n.outbox = [] := by simp [outbox, hsilent]
  constructor
  · intro x hx u T hT
    rw [Cluster.withNode_network, hbox, pending_append, pending_vote]
    have hold := h.future x hx u T
    rw [Cluster.withNode_network, hempty, List.append_nil] at hold
    by_cases hxv : x = v
    · subst hxv
      rw [Cluster.withNode_nodes_self] at hT hold
      rw [if_neg (fun hh => hne hh.1.symm), hold hT]
    · rw [Cluster.withNode_nodes_ne hxv] at hT hold
      rw [hold hT, if_neg]
      rintro ⟨rfl, _, rfl⟩
      omega
  · intro x hx hcand u
    rw [Cluster.withNode_network, hbox, pending_append, pending_vote]
    have hold := h.once x hx
    rw [Cluster.withNode_network, hempty, List.append_nil] at hold
    by_cases hxv : x = v
    · subst hxv
      rw [Cluster.withNode_nodes_self] at hcand hold ⊢
      rw [if_neg (fun hh => hne hh.1.symm)]
      exact hold hcand u
    · rw [Cluster.withNode_nodes_ne hxv] at hcand hold ⊢
      split
      · rename_i hh
        obtain ⟨rfl, rfl, hT⟩ := hh
        have := hzero hcand hT.symm
        rw [← hT] at this
        omega
      · exact hold hcand u

theorem unique_move (hid : n.id = v) (hv : v ∈ d.members) (hsilent : (c.nodes v).transport = [])
    (hroom : Room c v ev) (hfixed : FixedNode d n) (hmove : VoteMove ev (c.nodes v) n n')
    (h : Unique d (c.withNode v n)) : Unique d (c.withNode v n') := by
  cases hmove with
  | quiet hq speaks =>
    refine unique_of_calm (Nat.le_of_eq hq.currentTerm.symm) (fun hr => ?_) (fun x u T => ?_) h
    · exact ⟨hq.role ▸ hr, hq.currentTerm, hq.votesReceived⟩
    · obtain ⟨outs, heq, houts⟩ := speaks
      rw [heq, pending_append, pending_eq_zero (l := outs), Nat.add_zero]
      intro p hp
      exact Speaks.concerns (w := p.src) (houts p hp).2
  | adoptTerm higher =>
    exact unique_of_calm (Nat.le_of_lt higher) (fun hr => by cases hr) (fun _ _ _ => rfl) h
  | rest =>
    exact unique_of_calm (n := n) (Nat.le_refl _) (fun hr => by cases hr) (fun _ _ _ => rfl) h
  | campaign => exact unique_campaign hid hv hfixed h
  | tally answer candidate => exact unique_tally hsilent hroom answer candidate h
  | lead =>
    exact unique_of_calm (n := n) (Nat.le_refl _) (fun hr => by cases hr) (fun _ _ _ => rfl) h
  | grant asked silent =>
    exact unique_grant hid (silent.trans hsilent) hroom asked h

end

section

variable {d : Deployment SM} {c c₀ : Cluster P SM} {b : Ballot NodeId} {v : NodeId}
  {ev : Event P} {a : Action P}

open RaftNode

omit [StateMachine SM P] in
theorem Unique.of_le (hnodes : ∀ x ∈ d.members, (c₀.nodes x).currentTerm = (c.nodes x).currentTerm ∧
      ((c₀.nodes x).role = .candidate → (c.nodes x).role = .candidate ∧
        (c₀.nodes x).election.votesReceived = (c.nodes x).election.votesReceived))
    (hnet : ∀ x u T, pending x u T c₀.network ≤ pending x u T c.network) (h : Unique d c) :
    Unique d c₀ := by
  constructor
  · intro x hx u T hT
    have := h.future x hx u T (by rw [← (hnodes x hx).1]; exact hT)
    have := hnet x u T
    omega
  · intro x hx hcand u
    obtain ⟨hterm, hrole⟩ := hnodes x hx
    obtain ⟨hr, hvotes⟩ := hrole hcand
    have := h.once x hx hr u
    have := hnet x u (c.nodes x).currentTerm
    rw [hterm, hvotes]
    omega

omit [StateMachine SM P] in
/-- The delivered message was counted in the network of `c`, and is not in that of `c₀`. -/
theorem Cluster.Handles.pending (hh : Cluster.Handles d c a v ev c₀) (x u : NodeId) (T : Nat) :
    pending x u T c₀.network ≤ pending x u T c.network ∧
    ∀ sender msg, ev = .message sender msg →
      (⟨sender, v, msg⟩ : Packet P).Concerns x u T = true →
      MetalRaft.pending x u T c₀.network + 1 = MetalRaft.pending x u T c.network := by
  refine ⟨hh.network.countP_le, ?_⟩
  rintro sender msg rfl hconcerns
  cases hh with
  | @deliver k p found member =>
    have hk : k < c.network.length := (List.getElem?_eq_some_iff.mp found).1
    have hp : c.network[k] = p := (List.getElem?_eq_some_iff.mp found).2
    have hperm := (List.getElem_cons_eraseIdx_perm hk).countP_eq (Packet.Concerns x u T)
    rw [hp, List.countP_cons, if_pos hconcerns] at hperm
    exact hperm

omit [StateMachine SM P] in
theorem room_of_unique (hf : Fixed d c) (hsim : ElectionSim d c b)
    (h : Unique d c) (hh : Cluster.Handles d c a v ev c₀) : Room c₀ v ev := by
  have hv := hh.member
  constructor
  · rintro x T cand li lt rfl
    have hp := hf.inFlight _ hh.delivered
    have hx : x ∈ d.members := (hf.sent _ hp).src
    have hreq : cand = x ∧ T ≤ b.term x := hsim.sent _ hp
    rw [hh.nodes]
    refine ⟨(hf.sent _ hp).ne.symm, by rw [(hsim.node x hx).currentTerm]; exact hreq.2, ?_⟩
    rintro hcand rfl
    have hone := h.once x hx hcand v
    have hless := (hh.pending x v (c.nodes x).currentTerm).2 _ _ rfl
      (by simp [Packet.Concerns, RaftMsg.asks])
    omega
  · rintro u rfl hcand
    rw [hh.nodes] at hcand ⊢
    have hone := h.once v hv hcand u
    have hless := (hh.pending v u (c.nodes v).currentTerm).2 _ _ rfl
      (by simp [Packet.Concerns, RaftMsg.grants, hh.nodes])
    omega

omit [StateMachine SM P] in
theorem countsOnce_of_room (hh : Cluster.Handles d c a v ev c₀) (hroom : Room c₀ v ev) :
    CountsOnce d c a := by
  intro u ev' hev
  have heq := hh.handled.symm.trans hev
  simp only [Option.some.injEq, Prod.mk.injEq] at heq
  obtain ⟨rfl, rfl⟩ := heq
  intro hagain
  cases ev with
  | message sender msg =>
    obtain ⟨hcand, hgrants, hmem⟩ := hagain
    unfold RaftMsg.grants at hgrants
    split at hgrants
    · rename_i term granted
      simp only [Bool.and_eq_true, decide_eq_true_eq] at hgrants
      obtain ⟨rfl, rfl⟩ := hgrants
      have hzero := hroom.answer sender (by rw [hh.nodes]) (by rw [hh.nodes]; exact hcand)
      rw [hh.nodes] at hzero
      have := List.count_pos_iff.mpr hmem
      omega
    · cases hgrants
  | timerFired | clientCommand | configChange => exact hagain

theorem countsOnce_of_unique (hf : Fixed d c) (hsim : ElectionSim d c b) (h : Unique d c)
    (a : Action P) : CountsOnce d c a := by
  intro v ev hev
  obtain ⟨c₀, hh, _⟩ := Cluster.handles_of_handled hev
  exact countsOnce_of_room hh (room_of_unique hf hsim h hh) v ev hev

/-- Fixed membership, and no message delivered twice. -/
def SingleDelivery (c : Cluster P SM) (a : Action P) : Prop := FixedMembership c a ∧ AtMostOnce c a

instance (c : Cluster P SM) (a : Action P) : Decidable (SingleDelivery c a) :=
  inferInstanceAs (Decidable (_ ∧ _))

theorem unique_step (hok : SingleDelivery c a) (hs : Settled c) (hf : Fixed d c)
    (hsim : ElectionSim d c b) (h : Unique d c) : Unique d (c.step d a) := by
  rcases Cluster.step_cases d c a with ⟨v, ev, c₀, hh, hstep⟩ | ⟨net, hnet, hstep⟩ |
    ⟨k, p, rfl, _, hstep⟩ | ⟨v, rfl, hstep⟩ | ⟨ms, rfl, hstep⟩
  · have hv := hh.member
    have hroom := room_of_unique hf hsim h hh
    have h₀ : Unique d c₀ := by
      refine h.of_le (fun x _ => ?_) (fun x u T => (hh.pending x u T).1)
      rw [hh.nodes]
      exact ⟨rfl, fun hr => ⟨hr, rfl⟩⟩
    have hlog : ∀ sender msg, ev = .message sender msg → ⟨sender, v, msg⟩ ∈ c.messageLog := by
      rintro sender msg rfl
      exact hf.inFlight _ hh.delivered
    have hsilent : (c₀.nodes v).transport = [] := by rw [hh.nodes]; exact (hs v).2
    rw [hstep]
    obtain ⟨_, _, hend⟩ := Cluster.dispatch_simulate (g := ())
      (fun c (_ : Unit) => Unique d c) (fun _ _ => True) (fun _ => trivial)
      (fun _ _ _ _ _ => trivial) hsilent (fun n n' _ hmoves hmove _ hsim' => by
        rw [hh.nodes] at hmoves hmove
        have hfixed := hf.between hok.1 hv hh.handled hlog hmoves
        refine ⟨(), trivial, unique_move ((Moves.id_eq hmoves).trans (hs v).1) hv hsilent hroom
          hfixed ?_ hsim'⟩
        rw [hh.nodes]
        exact hmove.voteCases hfixed) h₀
    exact hend
  · rw [hstep]
    exact Unique.of_le (c := c) (fun x _ => ⟨rfl, fun hr => ⟨hr, rfl⟩⟩)
      (fun x u T => hnet.countP_le) h
  · exact absurd hok.2 id
  · rw [hstep]
    refine Unique.of_le (c := c) (fun x hx => ?_) (fun _ _ _ => Nat.le_refl _) h
    by_cases hxv : x = v
    · subst hxv
      simp only [Function.update_self]
      refine ⟨?_, fun hr => by cases hr⟩
      exact (hsim.node x hx).stored.trans (hsim.node x hx).currentTerm.symm
    · simp only [Function.update_of_ne hxv]
      exact ⟨trivial, fun hr => ⟨hr, trivial⟩⟩
  · rw [hstep]
    exact Unique.of_le (c := c) (fun x _ => ⟨rfl, fun hr => ⟨hr, rfl⟩⟩)
      (fun _ _ _ => Nat.le_refl _) h

/-- The state of a cluster in which messages are delivered at most once. -/
def Single (d : Deployment SM) (c : Cluster P SM) : Prop := ∃ b, Electing d c b ∧ Unique d c

theorem unique_init (d : Deployment SM) : Unique d (Cluster.init d : Cluster P SM) := by
  refine ⟨?_, ?_⟩
  · intro _ _ _ _ _; simp [pending, Cluster.init]
  · intro _ _ hcand; cases hcand

theorem single_init (d : Deployment SM) : Single d (Cluster.init d : Cluster P SM) :=
  ⟨_, electing_init d, unique_init d⟩

/-- Where messages are delivered at most once, no vote is counted twice. -/
theorem Single.run {c' : Cluster P SM} (h : Run (Cluster.step d) SingleDelivery c c')
    (hc : Single d c) : Run (Cluster.step d) (OneVoteEach d) c c' ∧ Single d c' := by
  refine Run.strengthen ?_ ?_ h hc
  · rintro c a ⟨b, hel, hu⟩ hok
    have honce := countsOnce_of_unique hel.fixed hel.sim hu a
    obtain ⟨b', _, hel'⟩ := Electing.run (Run.step .refl ⟨hok.1, honce⟩) hel
    exact ⟨b', hel', unique_step hok hel.settled hel.fixed hel.sim hu⟩
  · rintro c a ⟨b, hel, hu⟩ hok
    exact ⟨hok.1, countsOnce_of_unique hel.fixed hel.sim hu a⟩

/-! ## Election safety -/

omit [StateMachine SM P] in
theorem ElectionSim.leader (h : ElectionSim d c b) (hv : v ∈ d.members)
    (hl : (c.nodes v).role = .leader) : b.leader (c.nodes v).currentTerm = some v := by
  have hnode := h.node v hv
  rw [hnode.currentTerm]
  refine h.inv.leading v ?_
  rw [← hnode.role, hl]
  rfl

/-- **A term has one leader.**  Two members that lead the same term, be it at different moments
of a run, are the same: leadership is recorded in the ballot's history when it is won, and the
record is never overwritten. -/
theorem election_safety {c₁ c₂ : Cluster P SM} (h₁ : Reachable d SingleDelivery c₁)
    (h₂ : Run (Cluster.step d) SingleDelivery c₁ c₂) {v w : NodeId} (hv : v ∈ d.members)
    (hw : w ∈ d.members) (hlv : (c₁.nodes v).role = .leader) (hlw : (c₂.nodes w).role = .leader)
    (hterm : (c₁.nodes v).currentTerm = (c₂.nodes w).currentTerm) : v = w := by
  obtain ⟨b₁, hel₁, hu₁⟩ := (Single.run h₁ (single_init d)).2
  obtain ⟨b₂, hle, hel₂⟩ := Electing.run (Single.run h₂ ⟨b₁, hel₁, hu₁⟩).1 hel₁
  have hwon := hle.leader _ _ (hel₁.sim.leader hv hlv)
  have hwon' := hel₂.sim.leader hw hlw
  rw [hterm, hwon'] at hwon
  exact (Option.some.inj hwon).symm

end

/-- Node 1 of three wins term 1 and still leads it when the election timer of node 2 fires. -/
theorem election_safety_trio :
    let c := Cluster.play trio
      [.timer 1 .election, .deliver 0, .deliver 1, .deliver 1, .deliver 2]
    let c' := c.step trio (.timer 2 .election)
    (c.nodes 1).role = .leader ∧ (c'.nodes 1).role = .leader ∧
      (c.nodes 1).currentTerm = (c'.nodes 1).currentTerm ∧ (1 : NodeId) = 1 := by
  refine ⟨by decide +kernel, by decide +kernel, by decide +kernel, ?_⟩
  exact election_safety (d := trio) (play_reachable
      [.timer 1 .election, .deliver 0, .deliver 1, .deliver 1, .deliver 2] (by decide +kernel))
    (Run.step (a := .timer 2 .election) .refl (by decide +kernel)) (by decide) (by decide)
    (by decide +kernel) (by decide +kernel) (by decide +kernel)

end MetalRaft
