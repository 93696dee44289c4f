import MetalRaft.FixedConfig
import Mathlib.Data.Finset.Card

/-!
# The vote tally

`votes_received` is an append-only list compared by its length, so a leader has a quorum behind
it only as long as no voter is counted twice.

* `TallyNode` — the tally lists distinct members, each of which granted its vote.
* `leader_backed_by_quorum` — a node that turns leader on a vote response has a quorum of
  distinct members behind it, in every run in which no candidate counts a voter again.
* `leader_not_backed_by_quorum` — a duplicated response makes a leader without one.
-/

set_option autoImplicit false

namespace MetalRaft

open Transition

variable {P SM : Type} [StateMachine SM P]

/-- The message grants a vote in term `T`. -/
def RaftMsg.grants (T : Nat) : RaftMsg P → Bool
  | .requestVoteResponse term granted => decide (term = T) && granted
  | _ => false

def Event.isVoteResponse : Event P → Bool
  | .message _ (.requestVoteResponse _ _) => true
  | _ => false

/-- The candidate is about to count a vote of a node whose vote it has counted. -/
def CountsAgain (n : TestNode P SM) : Event P → Prop
  | .message sender msg =>
    n.role = .candidate ∧ msg.grants n.currentTerm = true ∧ sender ∈ n.election.votesReceived
  | _ => False

instance (n : TestNode P SM) : (ev : Event P) → Decidable (CountsAgain n ev)
  | .message sender msg => inferInstanceAs (Decidable (n.role = .candidate ∧
      msg.grants n.currentTerm = true ∧ sender ∈ n.election.votesReceived))
  | .timerFired _ | .clientCommand _ | .configChange _ => isFalse id

/-- No candidate counts a granted vote of its term from a node that is in its tally already. -/
def CountsOnce (d : Deployment SM) : Cluster P SM → Action P → Prop :=
  OnEvents d fun c v ev => ¬ CountsAgain (c.nodes v) ev

instance (d : Deployment SM) (c : Cluster P SM) (a : Action P) : Decidable (CountsOnce d c a) :=
  inferInstanceAs (Decidable (OnEvents d (fun c v ev => ¬ CountsAgain (c.nodes v) ev) c a))

/-- The members, `v` included, that granted `v` their vote in term `T`. -/
def Cluster.grantors (c : Cluster P SM) (v : NodeId) (T : Nat) : List NodeId :=
  (c.nodes v).config.members.filter fun u =>
    decide (u = v) ||
      c.messageLog.any fun p => decide (p.src = u) && decide (p.dst = v) && p.msg.grants T

/-- What the tally of a node says, `L` being the messages sent so far. -/
structure TallyNode (d : Deployment SM) (L : List (Packet P)) (n : TestNode P SM) : Prop where
  nodup : n.election.votesReceived.Nodup
  member : ∀ u ∈ n.election.votesReceived, u ∈ d.members
  granted : n.role = .candidate → ∀ u ∈ n.election.votesReceived,
    u = n.id ∨ ⟨u, n.id, .requestVoteResponse n.currentTerm true⟩ ∈ L

/-- Every node's tally, in a cluster. -/
def Tallied (d : Deployment SM) (c : Cluster P SM) : Prop :=
  ∀ v ∈ d.members, TallyNode d c.messageLog (c.nodes v)

section

variable {d : Deployment SM} {L L' : List (Packet P)} {n₀ n n' : TestNode P SM} {ev : Event P}

omit [StateMachine SM P] in
theorem TallyNode.mono (hL : L ⊆ L') (h : TallyNode d L n) : TallyNode d L' n :=
  ⟨h.nodup, h.member, fun hr u hu => (h.granted hr u hu).imp id fun hm => hL hm⟩

open RaftNode

/-- Only a new candidacy and a counted vote touch a candidate's tally. -/
theorem tallyNode_move (hid : n.id ∈ d.members) (honce : ¬ CountsAgain n₀ ev)
    (hmsg : ∀ sender msg, ev = .message sender msg →
      sender ∈ d.members ∧ ⟨sender, n.id, msg⟩ ∈ L)
    (hmove : Move .testUtils ev n₀ n n') (hfixed : FixedNode d n) (h : TallyNode d L n) :
    TallyNode d L n' := by
  cases hmove with
  | inert hi =>
    refine ⟨by rw [hi.votesReceived]; exact h.nodup, by rw [hi.votesReceived]; exact h.member, ?_⟩
    rw [hi.role, hi.votesReceived, hi.id, hi.currentTerm]
    exact h.granted
  | adoptTerm => exact ⟨h.nodup, h.member, fun hr => by cases hr⟩
  | rest => exact ⟨h.nodup, h.member, fun hr => by cases hr⟩
  | campaign =>
    rw [broadcast_eq]
    have hself : ∀ u ∈ [n.id], u = n.id := fun u hu => List.mem_singleton.mp hu
    exact ⟨List.nodup_singleton _, fun u hu => hself u hu ▸ hid, fun _ u hu => Or.inl (hself u hu)⟩
  | @tally sender answer candidate =>
    obtain ⟨hsender, hlog⟩ := hmsg _ _ answer
    have hnew : sender ∉ n₀.election.votesReceived := by
      intro hmem
      refine honce ?_
      rw [answer]
      exact ⟨candidate, by simp [RaftMsg.grants], hmem⟩
    have hmem : ∀ u ∈ n₀.election.votesReceived ++ [sender],
        u ∈ n₀.election.votesReceived ∨ u = sender := by
      intro u hu
      simpa using hu
    refine ⟨?_, fun u hu => ?_, fun _ u hu => ?_⟩
    · exact List.nodup_append.mpr ⟨h.nodup, List.nodup_singleton _, by
        intro u hu w hw heq
        rw [heq, List.mem_singleton.mp hw] at hu
        exact hnew hu⟩
    · rcases hmem u hu with hu | rfl
      · exact h.member u hu
      · exact hsender
    · rcases hmem u hu with hu | rfl
      · exact h.granted candidate u hu
      · exact Or.inr hlog
  | lead => exact ⟨h.nodup, h.member, fun hr => by cases hr⟩
  | applyChanges changes found => exact absurd found hfixed.no_applyChanges
  | _ => exact ⟨h.nodup, h.member, h.granted⟩

end

open RaftNode in
theorem tallied_step {d : Deployment SM} {c : Cluster P SM} {a : Action P}
    (hfix : FixedMembership c a) (honce : CountsOnce d c a) (hs : Settled c) (hf : Fixed d c)
    (h : Tallied d c) : Tallied d (c.step d a) := by
  have hlocal : LocalInv d (fun _ => TallyNode d c.messageLog) (fun _ => True) c :=
    ⟨h, fun _ _ => trivial, hf.inFlight⟩
  have hstep : LocalInv d (fun _ => TallyNode d c.messageLog) (fun _ => True) (c.step d a) := by
    refine hlocal.step hs ?_ (fun _ _ hn => ⟨hn.nodup, hn.member, hn.granted⟩) ?_
      (fun _ _ _ hn => ⟨hn.nodup, hn.member, hn.granted⟩)
    · intro v hv ev hev hlog n n' hid hmoves hmove hn _
      subst hid
      refine ⟨tallyNode_move hv (honce _ _ hev) ?_ hmove (hf.between hfix hv hev hlog hmoves) hn,
        fun _ _ => trivial⟩
      intro sender msg he
      exact ⟨(hf.sent _ (hlog sender msg he)).src, hlog sender msg he⟩
    · intro v _ _ _
      exact ⟨List.nodup_nil, by simp [restart, boot, newFromBuilder, ElectionManager.new],
        fun hr => by cases hr⟩
  exact fun v hv => (hstep.node v hv).mono (Cluster.messageLog_subset d c a)

/-- The runs considered here: fixed membership, and no vote counted again. -/
def OneVoteEach (d : Deployment SM) (c : Cluster P SM) (a : Action P) : Prop :=
  FixedMembership c a ∧ CountsOnce d c a

instance (d : Deployment SM) (c : Cluster P SM) (a : Action P) : Decidable (OneVoteEach d c a) :=
  inferInstanceAs (Decidable (_ ∧ _))

theorem tallied_init (d : Deployment SM) : Tallied d (Cluster.init d : Cluster P SM) :=
  fun _ _ => ⟨List.nodup_nil, by
    simp [Cluster.init, RaftNode.boot, RaftNode.newFromBuilder, ElectionManager.new],
    fun hr => by cases hr⟩

theorem Reachable.tallied {d : Deployment SM} {c : Cluster P SM}
    (h : Reachable d (OneVoteEach d) c) : Tallied d c := by
  refine (Run.invariant (I := fun c => Settled c ∧ Fixed d c ∧ Tallied d c) ?_ h
    ⟨fun _ => ⟨rfl, rfl⟩, fixed_init d, tallied_init d⟩).2.2
  rintro c a ⟨hs, hf, ht⟩ ⟨hfix, honce⟩
  exact ⟨settled_step hs a, fixed_step hfix hs hf, tallied_step hfix honce hs hf ht⟩

open RaftNode in
/-- While a member handles an event, its tally stays right between two moves. -/
theorem Tallied.between {d : Deployment SM} {c : Cluster P SM} {a : Action P} (h : Tallied d c)
    (hs : Settled c) (hf : Fixed d c) (hok : OneVoteEach d c a) {v : NodeId} {ev : Event P}
    (hv : v ∈ d.members) (hev : c.handled d a = some (v, ev))
    (hlog : ∀ sender msg, ev = .message sender msg → ⟨sender, v, msg⟩ ∈ c.messageLog)
    {n : TestNode P SM} (hmoves : Moves .testUtils ev (c.nodes v) (c.nodes v) n) :
    TallyNode d c.messageLog n := by
  induction hmoves with
  | refl => exact h v hv
  | tail hmoves hlast ih =>
    have hid := (Moves.id_eq hmoves).trans (hs v).1
    refine tallyNode_move (hid ▸ hv) (hok.2 _ _ hev) ?_ hlast
      (hf.between hok.1 hv hev hlog hmoves) ih
    intro sender msg he
    rw [hid]
    exact ⟨(hf.sent _ (hlog sender msg he)).src, hlog sender msg he⟩

/-! ## Turning leader -/

/-- In action `a`, node `v` turns leader by counting a vote. -/
def TurnsLeader (d : Deployment SM) (c : Cluster P SM) (a : Action P) (v : NodeId) : Prop :=
  (∃ e ∈ c.handled d a, e.1 = v ∧ e.2.isVoteResponse = true) ∧
  (c.nodes v).role ≠ .leader ∧ ((c.step d a).nodes v).role = .leader

instance (d : Deployment SM) (c : Cluster P SM) (a : Action P) (v : NodeId) :
    Decidable (TurnsLeader d c a v) :=
  inferInstanceAs (Decidable (_ ∧ _))

/-- The members that granted `v` their vote in its term make up a quorum. -/
def BackedByQuorum (c : Cluster P SM) (v : NodeId) : Prop :=
  (c.nodes v).config.quorumSize ≤ (c.grantors v (c.nodes v).currentTerm).toFinset.card

instance (c : Cluster P SM) (v : NodeId) : Decidable (BackedByQuorum c v) :=
  inferInstanceAs (Decidable (_ ≤ _))

namespace RaftNode

variable {S : Type} [Storage S P]

omit [StateMachine SM P] in
/-- A vote response makes a leader only through a full tally. -/
theorem handleVoteResponse_leader {n : RaftNode P S SM} {sender : NodeId} {term : Nat}
    {granted : Bool} (hn : n.role ≠ .leader)
    (h : (n.handleVoteResponse .testUtils sender term granted).role = .leader) :
    n.role = .candidate ∧ term = n.currentTerm ∧ granted = true ∧
      n.config.hasQuorum (n.election.votesReceived ++ [sender]).length = true ∧
      (n.handleVoteResponse .testUtils sender term granted).election.votesReceived =
        n.election.votesReceived ++ [sender] ∧
      (n.handleVoteResponse .testUtils sender term granted).currentTerm = n.currentTerm ∧
      (n.handleVoteResponse .testUtils sender term granted).config = n.config := by
  unfold handleVoteResponse at h ⊢
  split at h
  · cases h
  · rename_i hle
    rw [if_neg hle]
    unfold ElectionManager.handleVoteResponse at h ⊢
    simp only [hle, if_false] at h ⊢
    split at h
    · exact absurd h hn
    · rename_i hcount
      rw [if_neg hcount]
      simp only [not_or, not_not, Bool.not_eq_false] at hcount
      dsimp only at h ⊢
      split at h
      · rename_i hq
        rw [if_pos hq]
        refine ⟨hcount.1, hcount.2.1, hcount.2.2, hq, ?_, ?_, ?_⟩ <;>
          simp only [becomeLeader, sendAppendEntriesToFollowers_eq] <;> rfl
      · exact absurd h hn

end RaftNode

/-- **A leader is backed by a quorum of distinct voters**, in every run in which no candidate
counts a voter twice: no tally ever lists a node twice or a stranger, and whoever turns leader on
a vote response has been granted the votes of a quorum. -/
theorem leader_backed_by_quorum {d : Deployment SM} {c : Cluster P SM}
    (h : Reachable d (OneVoteEach d) c) :
    (∀ v ∈ d.members, (c.nodes v).election.votesReceived.Nodup ∧
      ∀ u ∈ (c.nodes v).election.votesReceived, (c.nodes v).config.contains u = true) ∧
    ∀ a v, OneVoteEach d c a → TurnsLeader d c a v → BackedByQuorum (c.step d a) v := by
  have hfixed : ∀ {c : Cluster P SM}, Reachable d (OneVoteEach d) c → Fixed d c :=
    fun h => h.fixed fun _ _ hok => hok.1
  refine ⟨fun v hv => ⟨(h.tallied v hv).nodup, fun u hu => ?_⟩, ?_⟩
  · rw [Configuration.contains_iff, ((hfixed h).node v hv).config.mem_iff]
    exact (h.tallied v hv).member u hu
  · rintro a u hok ⟨⟨⟨v, ev⟩, hev, heq, hresponse⟩, hnot, hleads⟩
    dsimp only at heq
    subst heq
    obtain ⟨sender, term, granted, rfl⟩ : ∃ sender term granted,
        ev = .message sender (.requestVoteResponse term granted) :=
      match ev, hresponse with
      | .message sender (.requestVoteResponse term granted), _ => ⟨sender, term, granted, rfl⟩
    have hnext : Reachable d (OneVoteEach d) (c.step d a) := h.step hok
    obtain ⟨c₀, hh, hs⟩ := Cluster.handles_of_handled hev
    have hv := hh.member
    have hnode : (c.step d a).nodes v =
        { (c.nodes v).handleVoteResponse .testUtils sender term granted with transport := [] } := by
      rw [hs, Cluster.dispatch, Cluster.withNode_nodes_self, hh.nodes]
      rfl
    rw [hnode] at hleads
    obtain ⟨hcand, rfl, rfl, hq, hvotes, hterm, hconfig⟩ :=
      RaftNode.handleVoteResponse_leader hnot hleads
    have hvotes' : ((c.step d a).nodes v).election.votesReceived =
        (c.nodes v).election.votesReceived ++ [sender] := by rw [hnode]; exact hvotes
    have hterm' : ((c.step d a).nodes v).currentTerm = (c.nodes v).currentTerm := by
      rw [hnode]; exact hterm
    have hconfig' : ((c.step d a).nodes v).config = (c.nodes v).config := by
      rw [hnode]; exact hconfig
    have htally := hnext.tallied v hv
    have hsent : ⟨sender, v, .requestVoteResponse (c.nodes v).currentTerm true⟩ ∈
        (c.step d a).messageLog :=
      Cluster.messageLog_subset d c a ((hfixed h).inFlight _ hh.delivered)
    have hsub : ((c.step d a).nodes v).election.votesReceived.toFinset ⊆
        ((c.step d a).grantors v ((c.step d a).nodes v).currentTerm).toFinset := by
      intro u hu
      rw [List.mem_toFinset] at hu ⊢
      have hmember := htally.member u hu
      rw [Cluster.grantors, List.mem_filter, ((hfixed hnext).node v hv).config.mem_iff]
      refine ⟨hmember, ?_⟩
      have hgrant : u = v ∨ ⟨u, v, .requestVoteResponse (c.nodes v).currentTerm true⟩ ∈
          (c.step d a).messageLog := by
        rw [hvotes'] at hu
        rcases List.mem_append.mp hu with hu | hu
        · rcases (h.tallied v hv).granted hcand u hu with hself | hmsg
          · exact Or.inl (hself.trans (h.settled v).1)
          · rw [(h.settled v).1] at hmsg
            exact Or.inr (Cluster.messageLog_subset d c a hmsg)
        · rw [List.mem_singleton.mp hu]; exact Or.inr hsent
      rw [hterm']
      rcases hgrant with rfl | hmsg
      · simp
      · rw [Bool.or_eq_true, List.any_eq_true]
        exact Or.inr ⟨_, hmsg, by simp [RaftMsg.grants]⟩
    have hcard := Finset.card_le_card hsub
    rw [List.toFinset_card_of_nodup htally.nodup, hvotes'] at hcard
    unfold BackedByQuorum
    rw [hconfig']
    exact Nat.le_trans (of_decide_eq_true hq) hcard

/-- Three nodes with snapshots far away. -/
def trio : Deployment Adder := .plain [1, 2, 3] (by decide) 100

/-- Three nodes which compact their logs after every entry. -/
def compactingTrio : Deployment Adder := { trio with snapshotThreshold := fun _ => 1 }

/-- Node 1 of three has campaigned and node 2's vote is on its way. -/
theorem leader_backed_by_quorum_trio :
    let c := Cluster.play trio [.timer 1 .election, .deliver 0, .deliver 1, .deliver 1]
    TurnsLeader trio c (.deliver 2) 1 ∧ BackedByQuorum (c.step trio (.deliver 2)) 1 := by
  have hturns : TurnsLeader trio
      (Cluster.play trio [.timer 1 .election, .deliver 0, .deliver 1, .deliver 1])
      (.deliver 2) 1 := by decide +kernel
  exact ⟨hturns, (leader_backed_by_quorum (play_reachable _ (by decide +kernel))).2 _ _
    (by decide +kernel) hturns⟩

/-- Five nodes with snapshots far away. -/
def quintet : Deployment Adder := .plain [1, 2, 3, 4, 5] (by decide) 100

/-- Node 1 of five counts the vote of node 2 twice, once for each copy of the response, and leads
with two voters. -/
theorem leader_not_backed_by_quorum :
    ¬ ∀ c : Cluster UInt8 Adder, Reachable quintet FixedMembership c →
      (∀ v ∈ quintet.members, (c.nodes v).election.votesReceived.Nodup ∧
        ∀ u ∈ (c.nodes v).election.votesReceived, (c.nodes v).config.contains u = true) ∧
      ∀ a v, FixedMembership c a → TurnsLeader quintet c a v →
        BackedByQuorum (c.step quintet a) v := by
  intro h
  have hrun := h _ (play_reachable [.timer 1 .election, .deliver 0, .deliver 0,
    .deliver 2, .deliver 2, .deliver 2, .duplicate 5, .deliver 5] (by decide +kernel))
  exact absurd (hrun.2 (.deliver 5) 1 trivial (by decide +kernel)) (by decide +kernel)

end MetalRaft
