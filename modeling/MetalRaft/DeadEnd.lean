import MetalRaft.Restriction
import Mathlib.Data.List.Perm.Subperm
import Mathlib.Data.List.InsertIdx
import Mathlib.Data.Finset.Lattice.Fold

/-!
# Elections that cannot be held

A pre-vote asks in the node's present term and teaches no term: a node of a later term refuses, and
the answer is dropped.  So a majority in which whoever has the longer log has the lower term holds
no election, however long its timers run.

* `Sheet` — what elections rest on at a node, and what each election event does to it.
* `Electable` — timers and deliveries within a set of nodes can make one of them a leader.
* `CanStart` — the set has one member, or a leader, or a node that another one can follow both in
  term and in log.
* `electable_iff` — a majority that can start is electable, and one that cannot is not, unless
  messages are in flight.
* `dead_end` — two nodes of three that cannot elect a leader.
-/

set_option autoImplicit false

namespace MetalRaft

open Transition

variable {P SM : Type}

theorem NoLater.trans {p q r : Nat × Nat} (h₁ : NoLater p q) (h₂ : NoLater q r) : NoLater p r := by
  unfold NoLater at *
  rw [Prod.lex_def] at *
  omega

theorem NoLater.total (p q : Nat × Nat) : NoLater p q ∨ NoLater q p := by
  unfold NoLater
  rw [Prod.lex_def, Prod.lex_def]
  omega

instance (p q : Nat × Nat) : Decidable (NoLater p q) :=
  decidable_of_iff (p.1 < q.1 ∨ p.1 = q.1 ∧ p.2 ≤ q.2) (Prod.lex_def).symm

/-- In a nonempty list somebody has the latest entry. -/
theorem exists_latest (f : NodeId → Nat × Nat) :
    ∀ l : List NodeId, l ≠ [] → ∃ a ∈ l, ∀ u ∈ l, NoLater (f u) (f a)
  | [], h => absurd rfl h
  | [a], _ => ⟨a, List.mem_cons_self .., fun u hu => by
      rw [List.mem_singleton.mp hu]
      exact .refl _⟩
  | b :: c :: l, _ => by
    obtain ⟨a, ha, hlatest⟩ := exists_latest f (c :: l) (List.cons_ne_nil _ _)
    rcases NoLater.total (f b) (f a) with hba | hab
    · refine ⟨a, List.mem_cons_of_mem _ ha, fun u hu => ?_⟩
      rcases List.mem_cons.mp hu with rfl | hu
      · exact hba
      · exact hlatest u hu
    · refine ⟨b, List.mem_cons_self .., fun u hu => ?_⟩
      rcases List.mem_cons.mp hu with rfl | hu
      · exact .refl _
      · exact (hlatest u hu).trans hab

/-! ## What elections rest on -/

/-- The part of a node that elections rest on. -/
structure Sheet where
  role : NodeState
  term : Nat
  last : Nat × Nat
  inPreVote : Bool
  preVotes : List NodeId
  votes : List NodeId

/-- The question of a pre-vote, in the node's present term. -/
def Sheet.asking (s : Sheet) (v : NodeId) : RaftMsg P := .preVoteRequest s.term v s.last.2 s.last.1

/-- The question of an election in term `T`. -/
def Sheet.canvassing (s : Sheet) (v : NodeId) (T : Nat) : RaftMsg P :=
  .requestVote T v s.last.2 s.last.1

/-- The same message to each of a list of nodes. -/
def toEach (src : NodeId) (msg : RaftMsg P) (targets : List NodeId) : List (Packet P) :=
  targets.map fun t => ⟨src, t, msg⟩

theorem toEach_subperm {src : NodeId} {msg : RaftMsg P} {us targets : List NodeId}
    (hnodup : us.Nodup)
    (hsub : us ⊆ targets) : (toEach src msg us).Subperm (toEach src msg targets) := by
  obtain ⟨l, hperm, hsub⟩ := List.subperm_of_subset hnodup hsub
  exact ⟨toEach src msg l, hperm.map _, hsub.map _⟩

namespace RaftNode

def sheet (n : TestNode P SM) : Sheet :=
  ⟨n.role, n.currentTerm, lastEntry n.storage, n.election.inPreVote, n.election.preVotesReceived,
    n.election.votesReceived⟩

variable [StateMachine SM P] {n : TestNode P SM}

/-- What an event does to the sheet of a node, and what the node sends. -/
structure Yields (n : TestNode P SM) (ev : Event P) (sheet : Sheet) (sent : List (Packet P)) :
    Prop where
  sheet : (n.onEvent .testUtils ev).sheet = sheet
  sent : (n.onEvent .testUtils ev).outbox = sent

/-- The event leads to a node that has sent nothing. -/
theorem yields_silence {n' : TestNode P SM} {ev : Event P} (heq : n.onEvent .testUtils ev = n')
    (hsilent : n'.transport = []) : n.Yields ev n'.sheet [] := by
  constructor
  · rw [heq]
  · rw [heq]
    unfold RaftNode.outbox
    rw [hsilent]
    rfl

omit [StateMachine SM P] in
/-- One more vote makes a quorum, or does not. -/
theorem hasQuorum_concat (votes : List NodeId) (sender : NodeId) :
    n.config.hasQuorum (votes ++ [sender]).length =
      decide (n.config.quorumSize ≤ votes.length + 1) := by
  unfold Configuration.hasQuorum
  rw [List.length_append]
  rfl

theorem yields_timer (hsilent : n.transport = []) (hpeers : 1 < n.config.members.length)
    (hrole : n.role ≠ .leader) :
    n.Yields (.timerFired .election) { n.sheet with inPreVote := true, preVotes := [n.id] }
      (toEach n.id (n.sheet.asking n.id) (n.config.peers n.id)) := by
  have heq : n.onEvent .testUtils (.timerFired .election) = n.startPreVote .testUtils := by
    show n.handleElectionTimer .testUtils = _
    rw [handleElectionTimer_eq, if_pos hrole, if_neg (Nat.not_le.mpr hpeers)]
  constructor
  · rw [heq]
    unfold startPreVote
    rw [broadcast_eq]
    rfl
  · rw [heq]
    unfold startPreVote
    rw [broadcast_eq, peerIds_testUtils]
    unfold RaftNode.outbox
    dsimp only
    rw [hsilent, List.nil_append, List.map_map]
    rfl

theorem yields_preVoteRequest (hsilent : n.transport = []) (sender : NodeId) (term : Nat)
    (cand : NodeId) (li lt : Nat) :
    n.Yields (.message sender (.preVoteRequest term cand li lt)) n.sheet
      [⟨n.id, sender, .preVoteResponse n.currentTerm
        (decide (n.currentTerm ≤ term ∧ NoLater (lastEntry n.storage) (lt, li)))⟩] := by
  have hgrant : (if term < n.currentTerm then false
      else ElectionManager.isLogUpToDate li lt n.storage) =
        decide (n.currentTerm ≤ term ∧ NoLater (lastEntry n.storage) (lt, li)) := by
    rw [Bool.eq_iff_iff, decide_eq_true_iff, ← isLogUpToDate_iff]
    split
    · rename_i hlt
      exact ⟨fun h => absurd h Bool.false_ne_true, fun h => absurd h.1 (Nat.not_le.mpr hlt)⟩
    · rename_i hge
      exact ⟨fun h => ⟨Nat.not_lt.mp hge, h⟩, fun h => h.2⟩
  constructor
  · rfl
  · rw [← hgrant]
    show RaftNode.outbox (n.send sender _) = _
    unfold RaftNode.outbox send
    dsimp only
    rw [hsilent]
    rfl

theorem yields_refusal (hsilent : n.transport = []) (sender : NodeId) (term : Nat) :
    n.Yields (.message sender (.preVoteResponse term false)) n.sheet [] := by
  have heq : n.onEvent .testUtils (.message sender (.preVoteResponse term false)) = n := by
    show n.handlePreVoteResponse .testUtils sender term false = n
    unfold handlePreVoteResponse ElectionManager.handlePreVoteResponse
    split
    · rfl
    · simp
  exact yields_silence heq hsilent

/-- A granted pre-vote that does not complete the quorum. -/
theorem yields_preVote (hsilent : n.transport = []) (sender : NodeId) {term : Nat}
    (hterm : term ≤ n.currentTerm) (hpre : n.election.inPreVote = true)
    (hfew : n.election.preVotesReceived.length + 1 < n.config.quorumSize) :
    n.Yields (.message sender (.preVoteResponse term true))
      { n.sheet with preVotes := n.election.preVotesReceived ++ [sender] } [] := by
  have heq : n.onEvent .testUtils (.message sender (.preVoteResponse term true)) =
      { n with
        election := { n.election with
          preVotesReceived := n.election.preVotesReceived ++ [sender] } } := by
    show n.handlePreVoteResponse .testUtils sender term true = _
    unfold handlePreVoteResponse ElectionManager.handlePreVoteResponse
    have hquorum : n.config.hasQuorum (n.election.preVotesReceived ++ [sender]).length = false :=
      (hasQuorum_concat _ _).trans (decide_eq_false (Nat.not_le.mpr hfew))
    simp only [gt_iff_lt, Nat.not_lt.mpr hterm, if_false, hpre, Bool.not_true, Bool.or_self,
      Bool.false_eq_true, Realization.testUtils, pushWithin_none, hquorum]
  exact yields_silence heq hsilent

omit [StateMachine SM P] in
/-- Starting an election among several members. -/
theorem startElection_many (hsilent : n.transport = []) (hpeers : 1 < n.config.members.length) :
    (n.startElection .testUtils).sheet = ⟨.candidate, n.currentTerm + 1, lastEntry n.storage,
        false, n.election.preVotesReceived, [n.id]⟩ ∧
      (n.startElection .testUtils).outbox =
        toEach n.id (n.sheet.canvassing n.id (n.currentTerm + 1))
        (n.config.peers n.id) := by
  have hmany : ¬ n.config.members.length ≤ 1 := Nat.not_le.mpr hpeers
  unfold startElection
  dsimp only
  rw [broadcast_eq, peerIds_testUtils]
  split
  · rename_i h
    exact absurd h hmany
  · refine ⟨rfl, ?_⟩
    unfold RaftNode.outbox
    dsimp only
    rw [hsilent, List.nil_append, List.map_map]
    rfl

/-- A granted pre-vote that completes the quorum. -/
theorem yields_candidacy (hsilent : n.transport = []) (sender : NodeId) {term : Nat}
    (hpeers : 1 < n.config.members.length) (hterm : term ≤ n.currentTerm)
    (hpre : n.election.inPreVote = true)
    (hquorum : n.config.quorumSize ≤ n.election.preVotesReceived.length + 1) :
    n.Yields (.message sender (.preVoteResponse term true))
      ⟨.candidate, n.currentTerm + 1, lastEntry n.storage, false,
        n.election.preVotesReceived ++ [sender], [n.id]⟩
      (toEach n.id (n.sheet.canvassing n.id (n.currentTerm + 1))
        (n.config.peers n.id)) := by
  have hall : n.config.hasQuorum (n.election.preVotesReceived ++ [sender]).length = true :=
    (hasQuorum_concat _ _).trans (decide_eq_true hquorum)
  have heq : n.onEvent .testUtils (.message sender (.preVoteResponse term true)) =
      RaftNode.startElection .testUtils { n with
        election := { n.election with
          preVotesReceived := n.election.preVotesReceived ++ [sender]
          inPreVote := false } } := by
    show n.handlePreVoteResponse .testUtils sender term true = _
    unfold handlePreVoteResponse ElectionManager.handlePreVoteResponse
    simp only [gt_iff_lt, Nat.not_lt.mpr hterm, if_false, hpre, Bool.not_true, Bool.or_self,
      Bool.false_eq_true, Realization.testUtils, pushWithin_none, hall, if_true]
  obtain ⟨hsheet, hout⟩ := startElection_many (n := { n with
    election := { n.election with
      preVotesReceived := n.election.preVotesReceived ++ [sender]
      inPreVote := false } }) hsilent hpeers
  constructor
  · rw [heq]
    exact hsheet
  · rw [heq]
    exact hout

/-- A request for votes of a later term: the node comes to this term, and grants its vote if the
candidate's log is no earlier than its own. -/
theorem yields_requestVote (hsilent : n.transport = []) (sender cand : NodeId) (li lt : Nat)
    {term : Nat} (hterm : n.currentTerm < term) :
    ∃ s, s.role = .follower ∧ s.term = term ∧ s.last = lastEntry n.storage ∧
      n.Yields (.message sender (.requestVote term cand li lt)) s
        [⟨n.id, sender, .requestVoteResponse term
          (decide (NoLater (lastEntry n.storage) (lt, li)))⟩] := by
  have heq : n.onEvent .testUtils (.message sender (.requestVote term cand li lt)) =
      (n.stepDown term).answerVoteRequest sender term cand li lt := by
    show n.handleVoteRequest sender term cand li lt = _
    unfold handleVoteRequest
    rw [if_pos hterm]
  have hgrant : ElectionManager.shouldGrantVote term term cand li lt (n.stepDown term).storage =
      decide (NoLater (lastEntry n.storage) (lt, li)) := by
    have hsame : lastEntry (n.stepDown term).storage = lastEntry n.storage := rfl
    have hnone : Storage.votedFor (n.stepDown term).storage = none := rfl
    rw [Bool.eq_iff_iff, shouldGrantVote_iff, isLogUpToDate_iff, decide_eq_true_iff, hsame]
    exact ⟨fun h => h.2.2, fun h => ⟨Nat.le_refl _, Or.inl hnone, h⟩⟩
  refine ⟨_, ?_, ?_, ?_, ⟨rfl, ?_⟩⟩
  all_goals
    have hcurrent : (n.stepDown term).currentTerm = term := rfl
    rw [heq, answerVoteRequest_eq (Nat.le_of_eq hcurrent.symm), hcurrent, hgrant]
  · split <;> rfl
  · split <;> rfl
  · split <;> rfl
  · have hout : (n.stepDown term).transport = [] := hsilent
    split
    · rename_i h
      unfold RaftNode.outbox send
      dsimp only
      rw [hout, h]
      rfl
    · rename_i h
      unfold RaftNode.outbox send
      dsimp only
      rw [hout, Bool.eq_false_iff.mpr h]
      rfl

/-- A vote: it makes the candidate a leader, or is one more. -/
theorem yields_vote (hsilent : n.transport = []) (sender : NodeId) (hrole : n.role = .candidate)
    (hfew : n.election.votesReceived.length + 1 < n.config.quorumSize) :
    n.Yields (.message sender (.requestVoteResponse n.currentTerm true))
      { n.sheet with votes := n.election.votesReceived ++ [sender] } [] := by
  have heq : n.onEvent .testUtils (.message sender (.requestVoteResponse n.currentTerm true)) =
      { n with
        election := { n.election with
          votesReceived := n.election.votesReceived ++ [sender] } } := by
    show n.handleVoteResponse .testUtils sender n.currentTerm true = _
    unfold handleVoteResponse ElectionManager.handleVoteResponse
    have hquorum : n.config.hasQuorum (n.election.votesReceived ++ [sender]).length = false :=
      (hasQuorum_concat _ _).trans (decide_eq_false (Nat.not_le.mpr hfew))
    simp only [gt_iff_lt, Nat.lt_irrefl, if_false, hrole, ne_eq, not_true_eq_false,
      Bool.true_eq_false, or_self, Realization.testUtils, pushWithin_none, hquorum,
      Bool.false_eq_true]
  exact yields_silence heq hsilent

theorem leads_of_vote (sender : NodeId) (hrole : n.role = .candidate)
    (hquorum : n.config.quorumSize ≤ n.election.votesReceived.length + 1) :
    (n.onEvent .testUtils (.message sender (.requestVoteResponse n.currentTerm true))).role =
      .leader := by
  show (n.handleVoteResponse .testUtils sender n.currentTerm true).role = .leader
  unfold handleVoteResponse ElectionManager.handleVoteResponse
  have hall : n.config.hasQuorum (n.election.votesReceived ++ [sender]).length = true :=
    (hasQuorum_concat _ _).trans (decide_eq_true hquorum)
  simp only [gt_iff_lt, Nat.lt_irrefl, if_false, hrole, ne_eq, not_true_eq_false, Bool.true_eq_false,
    or_self, Realization.testUtils, pushWithin_none, hall, if_true]
  unfold becomeLeader
  rw [sendAppendEntriesToFollowers_eq]

theorem leads_alone (hrole : n.role ≠ .leader) (halone : n.config.members.length ≤ 1) :
    (n.onEvent .testUtils (.timerFired .election)).role = .leader := by
  have hcause : n.StartsElection .testUtils (.timerFired .election) := ⟨hrole, halone⟩
  have hface := face_of_startsElection hcause
  have hrole' := congrArg Face.role hface
  rwa [if_pos halone] at hrole'

end RaftNode

/-! ## Continuations -/

section

variable [StateMachine SM P] {d : Deployment SM} {Q : Finset NodeId} {c : Cluster P SM}
  {a : Action P} {v w : NodeId}

/-- An election timer of a node of `Q`, or a delivery between nodes of `Q`. -/
def ElectsWithin (Q : Finset NodeId) (c : Cluster P SM) : Action P → Prop
  | .timer v .election => v ∈ Q
  | .deliver k => ∃ p, c.network[k]? = some p ∧ p.src ∈ Q ∧ p.dst ∈ Q
  | _ => False

/-- Election timers and deliveries within `Q` can make one of its nodes a leader. -/
def Electable (d : Deployment SM) (Q : Finset NodeId) (c : Cluster P SM) : Prop :=
  ∃ c', Run (Cluster.step d) (ElectsWithin Q) c c' ∧ ∃ v ∈ Q, (c'.nodes v).role = .leader

/-- The nodes are members, in their places, with the membership they were built with. -/
structure Standing (d : Deployment SM) (Q : Finset NodeId) (c : Cluster P SM) : Prop where
  members : ∀ v ∈ Q, v ∈ d.members
  settled : Settled c
  fixed : Fixed d c

def Cluster.sheet (c : Cluster P SM) (v : NodeId) : Sheet := (c.nodes v).sheet

omit [StateMachine SM P] in
theorem ElectsWithin.fixedMembership (h : ElectsWithin Q c a) : FixedMembership c a := by
  cases a with
  | configChange => exact h.elim
  | _ => trivial

theorem Standing.step (h : Standing d Q c) (hok : ElectsWithin Q c a) : Standing d Q (c.step d a) :=
  ⟨h.members, settled_step h.settled a, fixed_step hok.fixedMembership h.settled h.fixed⟩

omit [StateMachine SM P] in
theorem Standing.config (h : Standing d Q c) (hv : v ∈ Q) :
    (c.nodes v).config.members.Perm d.members := (h.fixed.node v (h.members v hv)).config

theorem Standing.step_timer (h : Standing d Q c) (hv : v ∈ Q) :
    c.step d (.timer v .election) = c.dispatch v (.timerFired .election) := by
  unfold Cluster.step
  dsimp only
  rw [if_pos (h.members v hv)]

theorem Standing.step_deliver {k : Nat} {p : Packet P} (h : Standing d Q c)
    (hk : c.network[k]? = some p) (hdst : p.dst ∈ Q) : c.step d (.deliver k) =
      { c with network := c.network.eraseIdx k }.dispatch p.dst (.message p.src p.msg) := by
  unfold Cluster.step
  dsimp only
  rw [hk]
  dsimp only
  rw [if_pos (h.members _ hdst)]

theorem Electable.of_step (hok : ElectsWithin Q c a) (h : Electable d Q (c.step d a)) :
    Electable d Q c := by
  obtain ⟨c', hrun, hlead⟩ := h
  exact ⟨c', (Run.step .refl hok).trans hrun, hlead⟩

/-- `c'` comes of `c` by an event at `v`, which gives it sheet `s`; the messages `ps` are in
flight. -/
structure Becomes (d : Deployment SM) (Q : Finset NodeId) (c : Cluster P SM) (v : NodeId)
    (s : Sheet) (ps : List (Packet P)) (c' : Cluster P SM) : Prop where
  standing : Standing d Q c'
  self : c'.sheet v = s
  others : ∀ u, u ≠ v → c'.sheet u = c.sheet u
  flight : ps.Subperm c'.network

omit [StateMachine SM P] in
theorem exists_erase {p : Packet P} {ps net : List (Packet P)} (h : (p :: ps).Subperm net) :
    ∃ k, net[k]? = some p ∧ ps.Subperm (net.eraseIdx k) := by
  have hmem : p ∈ net := h.subset (List.mem_cons_self ..)
  obtain ⟨k, hk, hget⟩ := List.mem_iff_getElem.mp hmem
  refine ⟨k, by rw [List.getElem?_eq_getElem hk, hget], ?_⟩
  have hperm := List.getElem_cons_eraseIdx_perm hk
  rw [hget] at hperm
  exact (List.subperm_cons p).mp (hperm.symm.subperm_left.mp h)

theorem becomes_dispatch {c₀ : Cluster P SM} {ev : Event P} {s : Sheet}
    {sent ps : List (Packet P)} (hstanding : Standing d Q (c₀.dispatch v ev))
    (hnodes : c₀.nodes = c.nodes) (hflight : ps.Subperm c₀.network)
    (hy : (c.nodes v).Yields ev s sent) : Becomes d Q c v s (sent ++ ps) (c₀.dispatch v ev) := by
  have hout : ((c₀.nodes v).onEvent .testUtils ev).outbox = sent := by rw [hnodes]; exact hy.sent
  constructor
  · exact hstanding
  · unfold Cluster.sheet Cluster.dispatch
    rw [Cluster.withNode_nodes_self, hnodes]
    exact hy.sheet
  · intro u hu
    unfold Cluster.sheet Cluster.dispatch
    rw [Cluster.withNode_nodes_ne hu, hnodes]
  · unfold Cluster.dispatch
    rw [Cluster.withNode_network, hout]
    exact (List.perm_append_comm.subperm_left).mp ((List.subperm_append_left sent).mpr hflight)

theorem electable_timer {s : Sheet} {sent ps : List (Packet P)} (hc : Standing d Q c) (hv : v ∈ Q)
    (hflight : ps.Subperm c.network) (hy : (c.nodes v).Yields (.timerFired .election) s sent)
    (h : ∀ c', Becomes d Q c v s (sent ++ ps) c' → Electable d Q c') : Electable d Q c := by
  have hok : ElectsWithin Q c (.timer v .election) := hv
  apply Electable.of_step hok
  apply h
  have hstanding := hc.step hok
  rw [hc.step_timer hv] at hstanding ⊢
  exact becomes_dispatch hstanding rfl hflight hy

theorem electable_deliver {p : Packet P} {s : Sheet} {sent ps : List (Packet P)}
    (hc : Standing d Q c) (hflight : (p :: ps).Subperm c.network) (hsrc : p.src ∈ Q)
    (hdst : p.dst ∈ Q) (hy : (c.nodes p.dst).Yields (.message p.src p.msg) s sent)
    (h : ∀ c', Becomes d Q c p.dst s (sent ++ ps) c' → Electable d Q c') : Electable d Q c := by
  obtain ⟨k, hk, hrest⟩ := exists_erase hflight
  have hok : ElectsWithin Q c (.deliver k) := ⟨p, hk, hsrc, hdst⟩
  apply Electable.of_step hok
  apply h
  have hstanding := hc.step hok
  rw [hc.step_deliver hk hdst] at hstanding ⊢
  exact becomes_dispatch hstanding rfl hrest hy

/-! ### Standing for the next term -/

/-- Node `w` can follow node `v`, in term and in log. -/
structure CanFollow (c : Cluster P SM) (w v : NodeId) : Prop where
  ne : v ≠ w
  idle : (c.sheet v).role ≠ .leader
  term : (c.sheet w).term ≤ (c.sheet v).term
  last : NoLater (c.sheet w).last (c.sheet v).last

/-- The answer with which `w` grants a pre-vote to `v`. -/
def consent (c : Cluster P SM) (w v : NodeId) : Packet P :=
  ⟨w, v, .preVoteResponse (c.sheet w).term true⟩

omit [StateMachine SM P] in
theorem quorumSize_eq (hc : Standing d Q c) (hv : v ∈ Q) (hmany : 1 < d.members.length) :
    (c.nodes v).config.quorumSize = d.members.length / 2 + 1 := by
  unfold Configuration.quorumSize Configuration.size
  rw [(hc.config hv).length_eq]
  dsimp only
  rw [if_neg (by omega)]

omit [StateMachine SM P] in
theorem mem_peers_of_standing (hc : Standing d Q c) (hv : v ∈ Q) (hw : w ∈ Q) (hne : w ≠ v) :
    w ∈ (c.nodes v).config.peers v :=
  Configuration.mem_peers.mpr ⟨(hc.config hv).mem_iff.mpr (hc.members w hw), hne⟩

/-- One round: `v` asks, and `w` consents. -/
theorem electable_round {ps : List (Packet P)} (hc : Standing d Q c) (hmany : 1 < d.members.length)
    (hv : v ∈ Q) (hw : w ∈ Q) (hfollow : CanFollow c w v) (hflight : ps.Subperm c.network)
    (h : ∀ c', Becomes d Q c v { c.sheet v with inPreVote := true, preVotes := [v] }
      (consent c w v :: ps) c' → Electable d Q c') : Electable d Q c := by
  have hid := (hc.settled v).1
  have hy := RaftNode.yields_timer (hc.settled v).2 ((hc.config hv).length_eq ▸ hmany) hfollow.idle
  rw [hid] at hy
  apply electable_timer hc hv hflight hy
  intro c₁ h₁
  have hask : (⟨v, w, (c.sheet v).asking v⟩ :: ps : List (Packet P)).Subperm c₁.network := by
    refine List.Subperm.trans ?_ h₁.flight
    refine (List.subperm_append_right ps).mpr (toEach_subperm (List.nodup_singleton w) ?_)
    intro u hu
    rw [List.mem_singleton.mp hu]
    exact mem_peers_of_standing hc hv hw hfollow.ne.symm
  have hsame := h₁.others w hfollow.ne.symm
  have hterm : (c₁.nodes w).currentTerm = (c.sheet w).term := congrArg Sheet.term hsame
  have hlast : lastEntry (c₁.nodes w).storage = (c.sheet w).last := congrArg Sheet.last hsame
  have hy₁ := RaftNode.yields_preVoteRequest (h₁.standing.settled w).2 v (c.sheet v).term v
    (c.sheet v).last.2 (c.sheet v).last.1
  rw [hterm, hlast, decide_eq_true ⟨hfollow.term, hfollow.last⟩, (h₁.standing.settled w).1] at hy₁
  apply electable_deliver h₁.standing hask hv hw hy₁
  intro c₂ h₂
  apply h
  refine ⟨h₂.standing, ?_, fun u hu => ?_, h₂.flight⟩
  · rw [h₂.others v hfollow.ne]
    exact h₁.self
  · by_cases huw : u = w
    · subst huw
      exact h₂.self.trans hsame
    · rw [h₂.others u huw, h₁.others u hu]

/-- `k + 1` rounds: the answers of `w` gather on their way to `v`. -/
theorem electable_asks (hmany : 1 < d.members.length) (hv : v ∈ Q) (hw : w ∈ Q) (k : Nat) :
    ∀ {c : Cluster P SM}, Standing d Q c → CanFollow c w v →
      (∀ c', Becomes d Q c v { c.sheet v with inPreVote := true, preVotes := [v] }
        (List.replicate (k + 1) (consent c w v)) c' → Electable d Q c') → Electable d Q c := by
  induction k with
  | zero =>
    intro c hc hfollow h
    have hnone : ([] : List (Packet P)).Subperm c.network := List.nil_subperm
    exact electable_round hc hmany hv hw hfollow hnone h
  | succ k ih =>
    intro c hc hfollow h
    apply ih hc hfollow
    intro c₁ h₁
    have hsame := h₁.others w hfollow.ne.symm
    have hfollow₁ : CanFollow c₁ w v := by
      constructor
      · exact hfollow.ne
      · rw [h₁.self]
        exact hfollow.idle
      · rw [h₁.self, hsame]
        exact hfollow.term
      · rw [h₁.self, hsame]
        exact hfollow.last
    apply electable_round h₁.standing hmany hv hw hfollow₁ h₁.flight
    intro c₂ h₂
    apply h
    refine ⟨h₂.standing, ?_, fun u hu => (h₂.others u hu).trans (h₁.others u hu), ?_⟩
    · rw [h₂.self, h₁.self]
    · have hflight := h₂.flight
      unfold consent at hflight ⊢
      rw [hsame] at hflight
      exact hflight

/-- `c'` comes of `c` when `v` stands for the next term. -/
structure Stands (d : Deployment SM) (Q : Finset NodeId) (c : Cluster P SM) (v : NodeId)
    (c' : Cluster P SM) : Prop where
  standing : Standing d Q c'
  role : (c'.sheet v).role = .candidate
  term : (c'.sheet v).term = (c.sheet v).term + 1
  last : (c'.sheet v).last = (c.sheet v).last
  votes : (c'.sheet v).votes = [v]
  others : ∀ u, u ≠ v → c'.sheet u = c.sheet u
  flight : ∀ us : List NodeId, us.Nodup → (∀ u ∈ us, u ∈ Q ∧ u ≠ v) →
    (toEach v ((c.sheet v).canvassing v ((c.sheet v).term + 1)) us).Subperm c'.network

omit [StateMachine SM P] in
/-- Pre-votes that are gathered first leave the candidacy what it is. -/
theorem Stands.of_preVotes {c₁ c' : Cluster P SM} {asks : Bool} {preVotes : List NodeId}
    (h : Stands d Q c₁ v c')
    (hself : c₁.sheet v = { c.sheet v with inPreVote := asks, preVotes := preVotes })
    (hothers : ∀ u, u ≠ v → c₁.sheet u = c.sheet u) : Stands d Q c v c' := by
  refine ⟨h.standing, h.role, ?_, ?_, h.votes, fun u hu => ?_, ?_⟩
  · rw [h.term, hself]
  · rw [h.last, hself]
  · rw [h.others u hu, hothers u hu]
  · have hflight := h.flight
    rw [hself] at hflight
    exact hflight

/-- The answers are counted until they make a quorum. -/
theorem electable_counts (hmany : 1 < d.members.length) (hv : v ∈ Q) (hw : w ∈ Q) {t : Nat}
    (m : Nat) : ∀ {c : Cluster P SM}, Standing d Q c → (c.sheet v).inPreVote = true →
      t ≤ (c.sheet v).term →
      (c.sheet v).preVotes.length + (m + 1) = d.members.length / 2 + 1 →
      (List.replicate (m + 1) (⟨w, v, .preVoteResponse t true⟩ : Packet P)).Subperm c.network →
      (∀ c', Stands d Q c v c' → Electable d Q c') → Electable d Q c := by
  induction m with
  | zero =>
    intro c hc hpre hterm hcount hflight h
    have hpeers : 1 < (c.nodes v).config.members.length := (hc.config hv).length_eq ▸ hmany
    have hy := RaftNode.yields_candidacy (hc.settled v).2 w hpeers hterm hpre
      (by rw [quorumSize_eq hc hv hmany, ← hcount]; exact Nat.le_refl _)
    apply electable_deliver hc hflight hw hv hy
    intro c' h'
    apply h
    have hself := h'.self
    have hid := (hc.settled v).1
    refine ⟨h'.standing, ?_, ?_, ?_, ?_, h'.others, fun us hnodup hus => ?_⟩
    · rw [hself]
    · rw [hself]
      rfl
    · rw [hself]
      rfl
    · rw [hself, hid]
    · have hflight' := h'.flight
      rw [hid, List.replicate_zero, List.append_nil] at hflight'
      refine List.Subperm.trans ?_ hflight'
      apply toEach_subperm hnodup
      intro u hu
      exact mem_peers_of_standing hc hv (hus u hu).1 (hus u hu).2
  | succ m ih =>
    intro c hc hpre hterm hcount hflight h
    have hy := RaftNode.yields_preVote (hc.settled v).2 w hterm hpre
      (by rw [quorumSize_eq hc hv hmany, ← hcount]; exact Nat.add_lt_add_left (by omega) _)
    apply electable_deliver hc hflight hw hv hy
    intro c₁ h₁
    have hself : c₁.sheet v = { c.sheet v with preVotes := (c.sheet v).preVotes ++ [w] } := h₁.self
    apply ih h₁.standing
    · rw [hself]
      exact hpre
    · rw [hself]
      exact hterm
    · rw [hself, ← hcount]
      dsimp only
      rw [List.length_append, List.length_singleton]
      omega
    · exact h₁.flight
    · intro c' h'
      exact h c' (h'.of_preVotes hself h₁.others)

/-- A node that another one can follow stands for the next term. -/
theorem electable_stand (hc : Standing d Q c) (hmany : 1 < d.members.length) (hv : v ∈ Q)
    (hw : w ∈ Q) (hfollow : CanFollow c w v)
    (h : ∀ c', Stands d Q c v c' → Electable d Q c') : Electable d Q c := by
  obtain ⟨m, hm⟩ : ∃ m, d.members.length / 2 = m + 1 :=
    ⟨d.members.length / 2 - 1, by omega⟩
  apply electable_asks hmany hv hw m hc hfollow
  intro c₁ h₁
  have hself := h₁.self
  apply electable_counts hmany hv hw m h₁.standing (t := (c.sheet w).term)
  · rw [hself]
  · rw [hself]
    exact hfollow.term
  · rw [hself, hm]
    dsimp only
    rw [List.length_singleton]
    omega
  · exact h₁.flight
  · intro c' h'
    exact h c' (h'.of_preVotes hself h₁.others)

/-- A node that can be followed can raise its term as far as it likes. -/
theorem electable_raise (hmany : 1 < d.members.length) (hv : v ∈ Q) (hw : w ∈ Q) (k : Nat) :
    ∀ {c : Cluster P SM}, Standing d Q c → CanFollow c w v →
      (∀ c', Standing d Q c' → CanFollow c' w v → (c'.sheet v).term = (c.sheet v).term + k →
        (∀ u, u ≠ v → c'.sheet u = c.sheet u) → Electable d Q c') → Electable d Q c := by
  induction k with
  | zero =>
    intro c hc hfollow h
    exact h c hc hfollow rfl fun _ _ => rfl
  | succ k ih =>
    intro c hc hfollow h
    apply electable_stand hc hmany hv hw hfollow
    intro c₁ h₁
    have hsame := h₁.others w hfollow.ne.symm
    have hfollow₁ : CanFollow c₁ w v := by
      constructor
      · exact hfollow.ne
      · rw [h₁.role]
        exact NodeState.noConfusion
      · rw [h₁.term, hsame]
        exact Nat.le_succ_of_le hfollow.term
      · rw [h₁.last, hsame]
        exact hfollow.last
    apply ih h₁.standing hfollow₁
    intro c' hc' hfollow' hterm hothers
    apply h c' hc' hfollow'
    · rw [hterm, h₁.term]
      omega
    · intro u hu
      rw [hothers u hu, h₁.others u hu]

/-! ### Being elected -/

/-- The answer of `u` to the canvass of `v` for term `T` with a log that ends in `last`. -/
def ballot (c : Cluster P SM) (v : NodeId) (T : Nat) (last : Nat × Nat) (u : NodeId) : Packet P :=
  ⟨u, v, .requestVoteResponse T (decide (NoLater (c.sheet u).last last))⟩

/-- `c'` comes of `c` when `v` has canvassed the nodes `us` for term `T`. -/
structure Canvassed (d : Deployment SM) (Q : Finset NodeId) (c : Cluster P SM) (v : NodeId)
    (T : Nat) (e : Nat × Nat) (us : List NodeId) (ps : List (Packet P)) (c' : Cluster P SM) :
    Prop where
  standing : Standing d Q c'
  role : ∀ u ∈ us, (c'.sheet u).role = .follower
  term : ∀ u ∈ us, (c'.sheet u).term = T
  last : ∀ u ∈ us, (c'.sheet u).last = (c.sheet u).last
  others : ∀ u, u ∉ us → c'.sheet u = c.sheet u
  flight : (us.map (ballot c v T e) ++ ps).Subperm c'.network

theorem electable_canvass (hv : v ∈ Q) {T : Nat} {e : Nat × Nat} (us : List NodeId) :
    ∀ {c : Cluster P SM} {ps : List (Packet P)}, Standing d Q c → us.Nodup →
      (∀ u ∈ us, u ∈ Q ∧ (c.sheet u).term < T) →
      (toEach v (.requestVote T v e.2 e.1) us ++ ps).Subperm c.network →
      (∀ c', Canvassed d Q c v T e us ps c' → Electable d Q c') → Electable d Q c := by
  induction us with
  | nil =>
    intro c ps hc _ _ hflight h
    apply h
    exact ⟨hc, fun u hu => absurd hu List.not_mem_nil, fun u hu => absurd hu List.not_mem_nil,
      fun u hu => absurd hu List.not_mem_nil, fun _ _ => rfl, hflight⟩
  | cons u us ih =>
    intro c ps hc hnodup hus hflight h
    obtain ⟨hu, hnodup⟩ := List.nodup_cons.mp hnodup
    obtain ⟨huQ, hterm⟩ := hus u (List.mem_cons_self ..)
    have hne : ∀ x ∈ us, x ≠ u := fun x hx heq => hu (heq ▸ hx)
    obtain ⟨s, hrole, hsterm, hslast, hy⟩ :=
      RaftNode.yields_requestVote (hc.settled u).2 v v e.2 e.1 hterm
    rw [(hc.settled u).1] at hy
    apply electable_deliver hc hflight hv huQ hy
    intro c₁ h₁
    have hself : c₁.sheet u = s := h₁.self
    have hkeep : ∀ x ∈ us, c₁.sheet x = c.sheet x := fun x hx => h₁.others x (hne x hx)
    have hflight₁ : (toEach v (.requestVote T v e.2 e.1) us ++
        ballot c v T e u :: ps).Subperm c₁.network :=
      List.perm_middle.subperm_right.mpr h₁.flight
    apply ih h₁.standing hnodup (fun x hx => ?_) hflight₁
    · intro c' h'
      have hgone : c'.sheet u = s := (h'.others u hu).trans hself
      have hballots : us.map (ballot c₁ v T e) = us.map (ballot c v T e) := by
        apply List.map_congr_left
        intro x hx
        unfold ballot
        rw [hkeep x hx]
      apply h
      constructor
      · exact h'.standing
      · intro x hx
        rcases List.mem_cons.mp hx with rfl | hx
        · rw [hgone, hrole]
        · exact h'.role x hx
      · intro x hx
        rcases List.mem_cons.mp hx with rfl | hx
        · rw [hgone, hsterm]
        · exact h'.term x hx
      · intro x hx
        rcases List.mem_cons.mp hx with rfl | hx
        · rw [hgone, hslast]
          rfl
        · rw [h'.last x hx, hkeep x hx]
      · intro x hx
        obtain ⟨hxu, hxus⟩ := not_or.mp (mt List.mem_cons.mpr hx)
        rw [h'.others x hxus, h₁.others x hxu]
      · have hflight' := h'.flight
        rw [hballots] at hflight'
        exact List.perm_middle.subperm_right.mp hflight'
    · obtain ⟨hxQ, hxterm⟩ := hus x (List.mem_cons_of_mem _ hx)
      exact ⟨hxQ, (hkeep x hx).symm ▸ hxterm⟩

/-- Votes of `us` that complete a quorum make the candidate a leader. -/
theorem electable_votes (hmany : 1 < d.members.length) (hv : v ∈ Q) (us : List NodeId) :
    ∀ {c : Cluster P SM}, Standing d Q c → (∀ u ∈ us, u ∈ Q) → (c.sheet v).role = .candidate →
      (c.sheet v).votes.length < d.members.length / 2 + 1 →
      d.members.length / 2 + 1 ≤ (c.sheet v).votes.length + us.length →
      (us.map fun u => (⟨u, v, .requestVoteResponse (c.sheet v).term true⟩ : Packet P)).Subperm
        c.network → Electable d Q c := by
  induction us with
  | nil =>
    intro c _ _ _ hfew henough _
    exact absurd henough (Nat.not_le.mpr hfew)
  | cons u us ih =>
    intro c hc hus hrole hfew henough hflight
    have huQ := hus u (List.mem_cons_self ..)
    have hquorum := quorumSize_eq hc hv hmany
    rcases Nat.lt_or_ge ((c.sheet v).votes.length + 1) (d.members.length / 2 + 1) with hlt | hge
    · have hy := RaftNode.yields_vote (hc.settled v).2 u hrole
        (by rw [hquorum]; exact hlt)
      apply electable_deliver hc hflight huQ hv hy
      intro c₁ h₁
      have hself : c₁.sheet v = { c.sheet v with votes := (c.sheet v).votes ++ [u] } := h₁.self
      have hcount : (c₁.sheet v).votes.length = (c.sheet v).votes.length + 1 := by
        rw [hself]
        exact List.length_append
      apply ih h₁.standing (fun x hx => hus x (List.mem_cons_of_mem _ hx))
      · rw [hself]
        exact hrole
      · rw [hcount]
        exact hlt
      · rw [hcount]
        rw [List.length_cons] at henough
        omega
      · have hflight₁ := h₁.flight
        rw [hself]
        exact hflight₁
    · apply electable_deliver hc hflight huQ hv ⟨rfl, rfl⟩
      intro c₁ h₁
      refine ⟨c₁, .refl, v, hv, ?_⟩
      have hlead := RaftNode.leads_of_vote (n := c.nodes v) u hrole
        (by rw [hquorum]; exact hge)
      exact (congrArg Sheet.role h₁.self).trans hlead

/-- A candidate of a majority, of a term later than the others' and with a log no earlier than
theirs, is elected. -/
theorem electable_lead {c' : Cluster P SM} (hmany : 1 < d.members.length)
    (hmajority : d.members.length < 2 * Q.card) (hv : v ∈ Q)
    (hterm : ∀ u ∈ Q, u ≠ v → (c.sheet u).term < (c.sheet v).term + 1)
    (hlast : ∀ u ∈ Q, NoLater (c.sheet u).last (c.sheet v).last) (h : Stands d Q c v c') :
    Electable d Q c' := by
  have hus : ∀ u ∈ (Q.erase v).toList, u ∈ Q ∧ u ≠ v := by
    intro u hu
    obtain ⟨hne, hu⟩ := Finset.mem_erase.mp (Finset.mem_toList.mp hu)
    exact ⟨hu, hne⟩
  have hflight := h.flight _ (Finset.nodup_toList _) hus
  rw [← List.append_nil (toEach _ _ _)] at hflight
  apply electable_canvass hv (Q.erase v).toList h.standing (Finset.nodup_toList _) ?_ hflight
  · intro c₂ h₂
    have hself : c₂.sheet v = c'.sheet v := h₂.others v (fun hv => (hus v hv).2 rfl)
    have hcard : (Q.erase v).toList.length + 1 = Q.card := by
      rw [Finset.length_toList, Finset.card_erase_add_one hv]
    apply electable_votes hmany hv (Q.erase v).toList h₂.standing (fun u hu => (hus u hu).1)
    · rw [hself, h.role]
    · rw [hself, h.votes, List.length_singleton]
      omega
    · rw [hself, h.votes, List.length_singleton]
      omega
    · have hvotes : (Q.erase v).toList.map (ballot c' v ((c.sheet v).term + 1) (c.sheet v).last) =
          (Q.erase v).toList.map fun u =>
            ⟨u, v, .requestVoteResponse (c₂.sheet v).term true⟩ := by
        apply List.map_congr_left
        intro u hu
        obtain ⟨huQ, hne⟩ := hus u hu
        unfold ballot
        rw [h.others u hne, decide_eq_true (hlast u huQ), hself, h.term]
      have hflight₂ := h₂.flight
      rw [List.append_nil, hvotes] at hflight₂
      exact hflight₂
  · intro u hu
    obtain ⟨huQ, hne⟩ := hus u hu
    rw [h.others u hne]
    exact ⟨huQ, hterm u huQ hne⟩

/-! ## The condition -/

/-- Elections can start from `Q`: alone, with a leader, or where one node can follow another. -/
def CanStart (d : Deployment SM) (Q : Finset NodeId) (c : Cluster P SM) : Prop :=
  d.members.length ≤ 1 ∨ (∃ v ∈ Q, (c.sheet v).role = .leader) ∨
    ∃ v ∈ Q, ∃ w ∈ Q, v ≠ w ∧ (c.sheet w).term ≤ (c.sheet v).term ∧
      NoLater (c.sheet w).last (c.sheet v).last

instance : Decidable (CanStart d Q c) := inferInstanceAs (Decidable (_ ∨ _ ∨ _))

/-- Nothing is on its way from a node of `Q` to a node of `Q`. -/
def Drained (Q : Finset NodeId) (c : Cluster P SM) : Prop :=
  ∀ p ∈ c.network, p.src ∈ Q → p.dst ∉ Q

instance : Decidable (Drained Q c) :=
  inferInstanceAs (Decidable (∀ p ∈ c.network, p.src ∈ Q → p.dst ∉ Q))

/-- Nodes of one term: the one with the latest log is elected. -/
theorem electable_even (hc : Standing d Q c) (hmany : 1 < d.members.length)
    (hmajority : d.members.length < 2 * Q.card) (hv : v ∈ Q) (hw : w ∈ Q) (hne : v ≠ w) {T : Nat}
    (hterm : ∀ u ∈ Q, (c.sheet u).term = T) (hrole : ∀ u ∈ Q, (c.sheet u).role ≠ .leader) :
    Electable d Q c := by
  have hsome : Q.toList ≠ [] := List.ne_nil_of_mem (Finset.mem_toList.mpr hv)
  obtain ⟨a, ha, hlatest⟩ := exists_latest (fun u => (c.sheet u).last) Q.toList hsome
  have haQ : a ∈ Q := Finset.mem_toList.mp ha
  have hlast : ∀ u ∈ Q, NoLater (c.sheet u).last (c.sheet a).last :=
    fun u hu => hlatest u (Finset.mem_toList.mpr hu)
  obtain ⟨b, hb, hba⟩ : ∃ b ∈ Q, a ≠ b := by
    rcases eq_or_ne a v with rfl | hav
    · exact ⟨w, hw, hne⟩
    · exact ⟨v, hv, hav⟩
  have hfollow : CanFollow c b a := by
    refine ⟨hba, hrole a haQ, ?_, hlast b hb⟩
    rw [hterm b hb, hterm a haQ]
  apply electable_stand hc hmany haQ hb hfollow
  intro c' h'
  apply electable_lead hmany hmajority haQ _ hlast h'
  intro u hu _
  rw [hterm u hu, hterm a haQ]
  exact Nat.lt_succ_self T

/-- A node that another one can follow first raises its term over all of `Q`, and by asking for
votes brings the others to it. -/
theorem electable_of_canFollow (hc : Standing d Q c) (hmany : 1 < d.members.length)
    (hmajority : d.members.length < 2 * Q.card) (hv : v ∈ Q) (hw : w ∈ Q)
    (hfollow : CanFollow c w v) : Electable d Q c := by
  apply electable_raise hmany hv hw (Q.sup fun u => (c.sheet u).term) hc hfollow
  intro c₁ hc₁ hfollow₁ hterm₁ hothers₁
  apply electable_stand hc₁ hmany hv hw hfollow₁
  intro c₂ h₂
  have hus : ∀ u ∈ (Q.erase v).toList, u ∈ Q ∧ u ≠ v := by
    intro u hu
    obtain ⟨hne, hu⟩ := Finset.mem_erase.mp (Finset.mem_toList.mp hu)
    exact ⟨hu, hne⟩
  have hflight := h₂.flight _ (Finset.nodup_toList _) hus
  rw [← List.append_nil (toEach _ _ _)] at hflight
  apply electable_canvass hv (Q.erase v).toList h₂.standing (Finset.nodup_toList _) ?_ hflight
  · intro c₃ h₃
    have hself : c₃.sheet v = c₂.sheet v := h₃.others v (fun hv => (hus v hv).2 rfl)
    have hrest : ∀ u ∈ Q, u ≠ v → u ∈ (Q.erase v).toList :=
      fun u hu hne => Finset.mem_toList.mpr (Finset.mem_erase.mpr ⟨hne, hu⟩)
    apply electable_even h₃.standing hmany hmajority hv hw hfollow.ne
      (T := (c₁.sheet v).term + 1)
    · intro u hu
      rcases eq_or_ne u v with rfl | hne
      · rw [hself, h₂.term]
      · exact h₃.term u (hrest u hu hne)
    · intro u hu
      rcases eq_or_ne u v with rfl | hne
      · rw [hself, h₂.role]
        exact NodeState.noConfusion
      · rw [h₃.role u (hrest u hu hne)]
        exact NodeState.noConfusion
  · intro u hu
    obtain ⟨huQ, hne⟩ := hus u hu
    have hsup : (c.sheet u).term ≤ Q.sup fun u => (c.sheet u).term :=
      Finset.le_sup (f := fun u => (c.sheet u).term) huQ
    rw [h₂.others u hne, hothers₁ u hne, hterm₁]
    exact ⟨huQ, by omega⟩

theorem electable_of_canStart (hc : Standing d Q c) (hmajority : d.members.length < 2 * Q.card)
    (h : CanStart d Q c) : Electable d Q c := by
  by_cases hlead : ∃ v ∈ Q, (c.sheet v).role = .leader
  · exact ⟨c, .refl, hlead⟩
  · rcases Nat.lt_or_ge 1 d.members.length with hmany | halone
    · rcases h with halone | h | ⟨v, hv, w, hw, hne, hterm, hlast⟩
      · exact absurd hmany (Nat.not_lt.mpr halone)
      · exact absurd h hlead
      · exact electable_of_canFollow hc hmany hmajority hv hw
          ⟨hne, fun hv' => hlead ⟨v, hv, hv'⟩, hterm, hlast⟩
    · obtain ⟨v, hv⟩ : Q.Nonempty := Finset.card_pos.mp (by omega)
      have hnone : ([] : List (Packet P)).Subperm c.network := List.nil_subperm
      apply electable_timer hc hv hnone ⟨rfl, rfl⟩
      intro c' h'
      refine ⟨c', .refl, v, hv, ?_⟩
      have halone' : (c.nodes v).config.members.length ≤ 1 := (hc.config hv).length_eq ▸ halone
      exact (congrArg Sheet.role h'.self).trans
        (RaftNode.leads_alone (fun hv' => hlead ⟨v, hv, hv'⟩) halone')

/-! ### Where elections cannot start -/

/-- What stands between nodes of `Q` is a pre-vote's question as its sender stands, or a refusal. -/
inductive Idle (c : Cluster P SM) : Packet P → Prop where
  | question {v w : NodeId} : v ≠ w → Idle c ⟨v, w, (c.sheet v).asking v⟩
  | refusal {v w : NodeId} {t : Nat} : Idle c ⟨v, w, .preVoteResponse t false⟩

/-- Since `c₀` no node of `Q` has changed its term or its log or become a leader. -/
structure Stuck (d : Deployment SM) (Q : Finset NodeId) (c₀ c : Cluster P SM) : Prop where
  standing : Standing d Q c
  term : ∀ u ∈ Q, (c.sheet u).term = (c₀.sheet u).term
  last : ∀ u ∈ Q, (c.sheet u).last = (c₀.sheet u).last
  role : ∀ u ∈ Q, (c.sheet u).role ≠ .leader
  flight : ∀ p ∈ c.network, p.src ∈ Q → p.dst ∈ Q → Idle c₀ p

theorem Stuck.dispatch {c₀ c₁ : Cluster P SM} {ev : Event P} {s : Sheet} {sent : List (Packet P)}
    (h : Stuck d Q c₀ c) (hstanding : Standing d Q (c₁.dispatch v ev))
    (hnodes : c₁.nodes = c.nodes) (hnet : c₁.network ⊆ c.network)
    (hy : (c.nodes v).Yields ev s sent)
    (hterm : s.term = (c.sheet v).term) (hlast : s.last = (c.sheet v).last)
    (hrole : s.role ≠ .leader) (hsent : ∀ p ∈ sent, p.src ∈ Q → p.dst ∈ Q → Idle c₀ p) :
    Stuck d Q c₀ (c₁.dispatch v ev) := by
  have hout : ((c₁.nodes v).onEvent .testUtils ev).outbox = sent := by rw [hnodes]; exact hy.sent
  have hself : (c₁.dispatch v ev).sheet v = s := by
    unfold Cluster.sheet Cluster.dispatch
    rw [Cluster.withNode_nodes_self, hnodes]
    exact hy.sheet
  have hother : ∀ u, u ≠ v → (c₁.dispatch v ev).sheet u = c.sheet u := by
    intro u hu
    unfold Cluster.sheet Cluster.dispatch
    rw [Cluster.withNode_nodes_ne hu, hnodes]
  constructor
  · exact hstanding
  · intro u hu
    rcases eq_or_ne u v with rfl | hne
    · rw [hself, hterm, h.term u hu]
    · rw [hother u hne, h.term u hu]
  · intro u hu
    rcases eq_or_ne u v with rfl | hne
    · rw [hself, hlast, h.last u hu]
    · rw [hother u hne, h.last u hu]
  · intro u hu
    rcases eq_or_ne u v with rfl | hne
    · rw [hself]
      exact hrole
    · rw [hother u hne]
      exact h.role u hu
  · intro p hp
    unfold Cluster.dispatch at hp
    rw [Cluster.withNode_network, hout] at hp
    rcases List.mem_append.mp hp with hp | hp
    · exact h.flight p (hnet hp)
    · exact hsent p hp

theorem Stuck.timer {c₀ : Cluster P SM} (hmany : 1 < d.members.length) (h : Stuck d Q c₀ c)
    (hv : v ∈ Q) : Stuck d Q c₀ (c.step d (.timer v .election)) := by
  have hok : ElectsWithin Q c (.timer v .election) := hv
  have hstanding := h.standing.step hok
  rw [h.standing.step_timer hv] at hstanding ⊢
  have hy := RaftNode.yields_timer (h.standing.settled v).2
    ((h.standing.config hv).length_eq ▸ hmany) (h.role v hv)
  rw [(h.standing.settled v).1] at hy
  apply h.dispatch hstanding rfl (List.Subset.refl _) hy rfl rfl (h.role v hv)
  intro p hp _ _
  obtain ⟨w, hw, rfl⟩ := List.mem_map.mp hp
  have hasking : (c.nodes v).sheet.asking (P := P) v = (c₀.sheet v).asking v := by
    unfold Sheet.asking
    rw [← h.term v hv, ← h.last v hv]
    rfl
  rw [hasking]
  exact .question (Configuration.mem_peers.mp hw).2.symm

theorem Stuck.deliver {c₀ : Cluster P SM} (hcannot : ¬ CanStart d Q c₀) (h : Stuck d Q c₀ c)
    {k : Nat} {p : Packet P} (hk : c.network[k]? = some p) (hsrc : p.src ∈ Q) (hdst : p.dst ∈ Q) :
    Stuck d Q c₀ (c.step d (.deliver k)) := by
  have hok : ElectsWithin Q c (.deliver k) := ⟨p, hk, hsrc, hdst⟩
  have hstanding := h.standing.step hok
  rw [h.standing.step_deliver hk hdst] at hstanding ⊢
  have hnet : c.network.eraseIdx k ⊆ c.network := (List.eraseIdx_sublist ..).subset
  have hidle := h.flight p (List.mem_of_getElem? hk) hsrc hdst
  cases hidle with
  | @question v w hne =>
    have hy := RaftNode.yields_preVoteRequest (h.standing.settled w).2 v (c₀.sheet v).term v
      (c₀.sheet v).last.2 (c₀.sheet v).last.1
    rw [(h.standing.settled w).1] at hy
    apply h.dispatch hstanding rfl hnet hy rfl rfl (h.role w hdst)
    intro p hp _ _
    rw [List.mem_singleton.mp hp]
    -- a granted pre-vote would be a node that can be followed
    have hrefused : ¬ ((c.nodes w).currentTerm ≤ (c₀.sheet v).term ∧
        NoLater (lastEntry (c.nodes w).storage) ((c₀.sheet v).last.1, (c₀.sheet v).last.2)) := by
      intro hgrant
      apply hcannot
      refine .inr (.inr ⟨v, hsrc, w, hdst, hne, ?_, ?_⟩)
      · rw [← h.term w hdst]
        exact hgrant.1
      · rw [← h.last w hdst]
        exact hgrant.2
    rw [decide_eq_false hrefused]
    exact .refusal
  | @refusal v w t =>
    have hy := RaftNode.yields_refusal (h.standing.settled w).2 v t
    apply h.dispatch hstanding rfl hnet hy rfl rfl (h.role w hdst)
    intro p hp
    exact absurd hp List.not_mem_nil

/-- Timers and deliveries within `Q` change none of this, if nobody can follow anybody. -/
theorem Stuck.step {c₀ : Cluster P SM} (hcannot : ¬ CanStart d Q c₀) (h : Stuck d Q c₀ c)
    (hok : ElectsWithin Q c a) : Stuck d Q c₀ (c.step d a) := by
  have hmany : 1 < d.members.length := Nat.not_le.mp fun halone => hcannot (.inl halone)
  cases a with
  | timer v kind =>
    cases kind with
    | heartbeat => exact hok.elim
    | election => exact h.timer hmany hok
  | deliver k =>
    obtain ⟨p, hk, hsrc, hdst⟩ := hok
    exact h.deliver hcannot hk hsrc hdst
  | lose => exact hok.elim
  | duplicate => exact hok.elim
  | client => exact hok.elim
  | configChange => exact hok.elim
  | restart => exact hok.elim
  | advance => exact hok.elim

theorem canStart_of_electable (hc : Standing d Q c) (hdrained : Drained Q c)
    (h : Electable d Q c) : CanStart d Q c := by
  by_contra hcannot
  have hstuck : Stuck d Q c c := by
    refine ⟨hc, fun _ _ => rfl, fun _ _ => rfl, fun u hu hlead => ?_, fun p hp hsrc hdst => ?_⟩
    · exact hcannot (.inr (.inl ⟨u, hu, hlead⟩))
    · exact absurd hdst (hdrained p hp hsrc)
  obtain ⟨c', hrun, v, hv, hlead⟩ := h
  have hstuck' : Stuck d Q c c' :=
    hrun.invariant (fun _ _ hs hok => hs.step hcannot hok) hstuck
  exact hstuck'.role v hv hlead

/-- **No dead end where elections can start.**  In every state of a run with fixed membership, a
majority in which elections can start can elect a leader by itself; and a majority in which they
cannot start elects none, unless a message between its nodes is still in flight. -/
theorem electable_iff (hreach : Reachable d FixedMembership c) (hmembers : ∀ v ∈ Q, v ∈ d.members)
    (hmajority : d.members.length < 2 * Q.card) :
    (CanStart d Q c → Electable d Q c) ∧ (Drained Q c → Electable d Q c → CanStart d Q c) := by
  have hc : Standing d Q c := ⟨hmembers, hreach.settled, hreach.fixed fun _ _ h => h⟩
  exact ⟨electable_of_canStart hc hmajority, canStart_of_electable hc⟩

end

/-- Node 2 leads term 1 and has appended an entry that reaches nobody; with a pre-vote of node 3,
node 1 stands for term 2 and is heard by nobody; node 2 is restarted. -/
def astray : List (Action UInt8) :=
  [.timer 2 .election, .deliver 0, .deliver 1, .deliver 1, .deliver 2, .client 2 7,
    .timer 1 .election, .deliver 7, .deliver 7, .restart 2, .lose 7, .lose 6, .lose 4, .lose 2]

theorem electable_iff_astray :
    Electable trio {1, 3} (Cluster.play trio astray) ∧
      ¬ Electable trio {1, 2} (Cluster.play trio astray) :=
  ⟨(electable_iff (play_reachable astray (by decide +kernel)) (by decide) (by decide)).1
      (by decide +kernel),
    fun h => absurd ((electable_iff (play_reachable astray (by decide +kernel)) (by decide)
      (by decide)).2 (by decide +kernel) h) (by decide +kernel)⟩

/-- Nodes 1 and 2 are two of three, and none of them can be elected: node 2, with the longer log,
is refused for its term, and node 1 for its log. -/
theorem dead_end :
    ¬ ∀ (d : Deployment Adder) (c : Cluster UInt8 Adder) (Q : Finset NodeId),
      Reachable d FixedMembership c → (∀ v ∈ Q, v ∈ d.members) → d.members.length < 2 * Q.card →
      Electable d Q c := by
  intro h
  have hreach : Reachable trio FixedMembership (Cluster.play trio astray) :=
    play_reachable astray (by decide +kernel)
  have hmembers : ∀ v ∈ ({1, 2} : Finset NodeId), v ∈ trio.members := by decide
  have helectable := h trio _ {1, 2} hreach hmembers (by decide)
  have hstanding : Standing trio {1, 2} (Cluster.play trio astray) :=
    ⟨hmembers, hreach.settled, hreach.fixed fun _ _ h => h⟩
  have hstart := canStart_of_electable hstanding (by decide +kernel) helectable
  have hcannot : ¬ CanStart trio {1, 2} (Cluster.play trio astray) := by decide +kernel
  exact hcannot hstart

end MetalRaft
