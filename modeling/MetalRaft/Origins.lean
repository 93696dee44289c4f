import MetalRaft.ElectionSafety
import MetalRaft.LogMoves

/-!
# Where entries come from

Only the leader of a term makes entries of that term and sends AppendEntries and InstallSnapshot
in it, whatever becomes of logs on the way.

* `SentByLeader` — what the messages of leaders say about the ballot.
* `Originated` — the simulation of elections together with the origin of every log and message.
* `Governed.step` — it holds along every run in which messages are delivered at most once.
* `Governed.not_from_other` — a leader is never sent anything of its own term.
-/

set_option autoImplicit false

namespace MetalRaft

open Transition Voting

variable {P SM : Type} [StateMachine SM P]

/-- Some member has led the term. -/
def Led (b : Ballot NodeId) (T : Nat) : Prop := ∃ a, b.leader T = some a

/-- What leaders send comes from the leader of the term, with entries of terms that were led. -/
def SentByLeader (b : Ballot NodeId) (p : Packet P) : Prop :=
  match p.msg with
  | .appendEntries T _ _ es _ => b.leader T = some p.src ∧ ∀ e ∈ es, Led b e.term
  | .installSnapshot T _ _ _ _ _ _ => b.leader T = some p.src
  | _ => True

structure Originated (d : Deployment SM) (c : Cluster P SM) (b : Ballot NodeId) : Prop where
  elections : ElectionSim d c b
  shaped : ∀ v ∈ d.members, (c.nodes v).storage.Shaped
  made : ∀ v ∈ d.members, ∀ e ∈ (c.nodes v).storage.log, Led b e.term
  sent : ∀ p ∈ c.messageLog, SentByLeader b p

section

variable {d : Deployment SM} {c : Cluster P SM} {b b' : Ballot NodeId} {v : NodeId}
  {ev : Event P} {n₀ n n' : TestNode P SM} {p : Packet P}

omit [StateMachine SM P]

theorem Led.mono (hle : Ballot.Le b b') {T : Nat} (h : Led b T) : Led b' T := by
  obtain ⟨a, ha⟩ := h
  exact ⟨a, hle.leader T a ha⟩

theorem SentByLeader.mono (hle : Ballot.Le b b') (h : SentByLeader b p) : SentByLeader b' p := by
  obtain ⟨src, dst, msg⟩ := p
  cases msg with
  | appendEntries => exact ⟨hle.leader _ _ h.1, fun e he => (h.2 e he).mono hle⟩
  | installSnapshot => exact hle.leader _ _ h
  | _ => trivial

theorem sentByLeader_speaks {target : NodeId} {msg : RaftMsg P} (hnode : BallotNode b v n)
    (hinv : b.Inv d.members.toFinset) (hfixed : FixedNode d n)
    (hmade : ∀ e ∈ n.storage.log, Led b e.term)
    (h : RaftNode.Speaks .testUtils ev n₀ n target msg) : SentByLeader b ⟨v, target, msg⟩ := by
  cases h with
  | entries peer leader =>
    have hleads : b.leader n.storage.currentTerm = some v := by
      rw [hnode.stored]
      refine hinv.leading v ?_
      rw [← hnode.role, leader.resolve_right hfixed.holdsNoChange]
      rfl
    rcases getAppendEntriesForPeer_cases n.replication target n.id n.storage with
      ⟨m, data, _, _, heq⟩ | heq <;> rw [heq]
    · exact hleads
    · exact ⟨hleads, fun e he => hmade e (InMemoryStorage.getEntries_subset _ _ _ he)⟩
  | _ => trivial

/-- The log of a node in the middle of an event. -/
theorem Originated.self (h : Originated d (c.withNode v n) b) (hv : v ∈ d.members) :
    BallotNode b v n ∧ n.storage.Shaped ∧ ∀ e ∈ n.storage.log, Led b e.term := by
  have hshaped := h.shaped v hv
  have hmade := h.made v hv
  rw [Cluster.withNode_nodes_self] at hshaped hmade
  exact ⟨h.elections.self hv, hshaped, hmade⟩

end

/-! ## Moves -/

section

variable {d : Deployment SM} {c : Cluster P SM} {b b' : Ballot NodeId} {v : NodeId}
  {ev : Event P} {n₀ n n' : TestNode P SM}

open RaftNode

/-- An entry in the log was there before, has arrived, or has been made by the leader. -/
theorem RaftNode.LogMove.mem_log (h : LogMove ev n₀ n n') {e : LogEntry P} (he : e ∈ n'.storage.log) :
    e ∈ n.storage.log ∨
      (∃ sender prev pt es lc,
        ev = .message sender (.appendEntries n₀.currentTerm prev pt es lc) ∧ e ∈ es) ∨
      (n.role = .leader ∧ e.term = n.currentTerm) := by
  cases h with
  | quiet hq => rw [hq.sameLog.log] at he; exact Or.inl he
  | place asked _ _ =>
    rcases InMemoryStorage.mem_placedLog he with he | he
    · exact Or.inl he
    · exact Or.inr (Or.inl ⟨_, _, _, _, _, asked, he⟩)
  | append leader _ =>
    rcases List.mem_append.mp he with he | he
    · exact Or.inl he
    · rw [List.mem_singleton.mp he]
      exact Or.inr (Or.inr ⟨leader, rfl⟩)
  | compact => exact Or.inl (List.drop_subset _ _ he)
  | install => exact Or.inl (List.drop_subset _ _ he)
  | _ => exact Or.inl he

theorem originated_move (hid : n.id = v) (hv : v ∈ d.members) (hfixed : FixedNode d n)
    (hmsg : ∀ sender msg, ev = .message sender msg → SentByLeader b (⟨sender, v, msg⟩ : Packet P))
    (hmove : Move .testUtils ev n₀ n n') (hle : Ballot.Le b b')
    (hsim : ElectionSim d (c.withNode v n') b') (h : Originated d (c.withNode v n) b) :
    Originated d (c.withNode v n') b' := by
  obtain ⟨hnode, hshaped, hmade⟩ := h.self hv
  refine ⟨hsim, fun u hu => ?_, fun u hu e he => ?_, fun p hp => ?_⟩
  · have hold := h.shaped u hu
    by_cases huv : u = v
    · subst huv
      rw [Cluster.withNode_nodes_self]
      have hafter : n'.storage.Shaped := shaped_move hmove hshaped
      exact hafter
    · rw [Cluster.withNode_nodes_ne huv] at hold ⊢
      exact hold
  · by_cases huv : u = v
    · subst huv
      rw [Cluster.withNode_nodes_self] at he
      rcases (hmove.logCases hshaped).mem_log he with hold | ⟨s, prev, pt, es, lc, hev, hes⟩ |
        ⟨hleader, hterm⟩
      · exact (hmade e hold).mono hle
      · exact ((hmsg _ _ hev).2 e hes).mono hle
      · refine Led.mono hle ⟨u, ?_⟩
        rw [hterm, hnode.currentTerm]
        refine h.elections.inv.leading u ?_
        rw [← hnode.role, hleader]
        rfl
    · have hold := h.made u hu
      rw [Cluster.withNode_nodes_ne huv] at hold he
      exact (hold e he).mono hle
  · obtain ⟨outs, heq, houts⟩ := hmove.outbox
    rw [Cluster.withNode_messageLog, heq, ← List.append_assoc] at hp
    rcases List.mem_append.mp hp with hp | hp
    · exact (h.sent p hp).mono hle
    · obtain ⟨hsrc, hcases⟩ := houts p hp
      obtain ⟨src, dst, msg⟩ := p
      dsimp only at hsrc hcases
      rw [hsrc, hid]
      rcases hcases with hspeak | ⟨_, li, lt, rfl⟩ | ⟨cand, li, lt, _, rfl⟩
      · exact (sentByLeader_speaks hnode h.elections.inv hfixed hmade hspeak).mono hle
      · trivial
      · trivial

end

/-! ## Runs -/

section

variable {d : Deployment SM} {c c₀ : Cluster P SM} {b : Ballot NodeId} {v : NodeId}
  {ev : Event P} {a : Action P}

open RaftNode

omit [StateMachine SM P] in
theorem Originated.of_nodes (h : Originated d c b) (hnodes : c₀.nodes = c.nodes)
    (hlog : c₀.messageLog = c.messageLog) : Originated d c₀ b :=
  ⟨⟨h.elections.inv, by rw [hnodes]; exact h.elections.node,
    by rw [hlog]; exact h.elections.sent⟩, by rw [hnodes]; exact h.shaped,
    by rw [hnodes]; exact h.made, by rw [hlog]; exact h.sent⟩

theorem originated_restart (h : Originated d c b) : Ballot.Le b (b.rest v) ∧ Originated d
    { c with nodes := Function.update c.nodes v ((c.nodes v).restart d) } (b.rest v) := by
  obtain ⟨hle, hsim⟩ := electionSim_restart (v := v) h.elections
  have hstorage : ∀ u, (Function.update c.nodes v ((c.nodes v).restart d) u).storage =
      (c.nodes u).storage := by
    intro u
    by_cases huv : u = v
    · subst huv; rw [Function.update_self]; rfl
    · rw [Function.update_of_ne huv]
  refine ⟨hle, hsim, fun u hu => ?_, fun u hu e he => ?_, fun p hp => (h.sent p hp).mono hle⟩
  · rw [hstorage]; exact h.shaped u hu
  · rw [hstorage] at he; exact (h.made u hu e he).mono hle

/-- The votes cast in an action are those of the node that handles an event. -/
def VotesIn (d : Deployment SM) (c : Cluster P SM) (a : Action P) (v : NodeId) (T : Nat)
    (x : NodeId) : Prop :=
  ∃ ev, c.handled d a = some (v, ev) ∧ (c.nodes v).Votes v ev T x

theorem originated_step (hok : OneVoteEach d c a) (hs : Settled c) (hf : Fixed d c)
    (ht : Tallied d c) (h : Originated d c b) :
    ∃ b', (Ballot.Le b b' ∧ Ballot.NewVotes (VotesIn d c a) b b') ∧
      Originated d (c.step d a) b' := by
  rcases Cluster.step_cases d c a with ⟨v, ev, c₀, hh, hstep⟩ | ⟨net, _, hstep⟩ |
    ⟨k, p, _, _, hstep⟩ | ⟨v, _, hstep⟩ | ⟨ms, _, hstep⟩ <;> rw [hstep]
  · have hv := hh.member
    have hlog : ∀ sender msg, ev = .message sender msg → ⟨sender, v, msg⟩ ∈ c.messageLog := by
      rintro sender msg rfl
      exact hf.inFlight _ hh.delivered
    refine Cluster.dispatch_simulate (Originated d)
      (fun b b' => Ballot.Le b b' ∧ Ballot.NewVotes (VotesIn d c a) b b')
      (fun b => ⟨Ballot.Le.refl b, .of_eq rfl⟩)
      (fun _ _ _ h h' => ⟨h.1.trans h'.1, h.2.trans h'.2⟩) (by rw [hh.nodes]; exact (hs v).2) ?_
      (h.of_nodes hh.nodes hh.messageLog)
    rintro n n' b' hmoves hmove ⟨hle, -⟩ hsim
    rw [hh.nodes] at hmoves hmove
    have hid := (Moves.id_eq hmoves).trans (hs v).1
    have hfixed := hf.between hok.1 hv hh.handled hlog hmoves
    have hL : ∀ p ∈ c.messageLog, BallotPacket b' p := fun p hp =>
      (h.elections.sent p hp).mono hle
    obtain ⟨b'', hle', hsim', hvotes⟩ := electionSim_move hid hv hfixed
      (ht.between hs hf hok hv hh.handled hlog hmoves) hL
      (fun sender msg he => hL _ (hlog sender msg he)) (Moves.currentTerm_le hmoves)
      (hmove.voteCases hfixed) hsim.elections
    refine ⟨b'', ⟨hle', fun u T x hvote => (hvotes u T x hvote).imp_right ?_⟩,
      originated_move hid hv hfixed
        (fun sender msg he => (h.sent _ (hlog sender msg he)).mono hle) hmove hle' hsim' hsim⟩
    rintro ⟨rfl, hcause⟩
    exact ⟨ev, hh.handled, hcause⟩
  · exact ⟨b, ⟨Ballot.Le.refl b, .of_eq rfl⟩, h.of_nodes rfl rfl⟩
  · exact ⟨b, ⟨Ballot.Le.refl b, .of_eq rfl⟩, h.of_nodes rfl rfl⟩
  · obtain ⟨hle, hrest⟩ := originated_restart (v := v) h
    exact ⟨_, ⟨hle, .of_eq rfl⟩, hrest⟩
  · exact ⟨b, ⟨Ballot.Le.refl b, .of_eq rfl⟩, electionSim_advance h.elections, h.shaped, h.made,
      h.sent⟩

/-- What is known of a cluster in which messages are delivered at most once. -/
structure Governed (d : Deployment SM) (c : Cluster P SM) (b : Ballot NodeId) : Prop where
  settled : Settled c
  fixed : Fixed d c
  tallied : Tallied d c
  unique : Unique d c
  sim : Originated d c b

theorem governed_init (d : Deployment SM) :
    Governed d (Cluster.init d : Cluster P SM) Ballot.init := by
  have hel := electing_init (P := P) d
  exact ⟨hel.settled, hel.fixed, hel.tallied, unique_init d, hel.sim, fun _ _ => rfl,
    by simp [Cluster.init, boot, newFromBuilder, InMemoryStorage.new], by simp [Cluster.init]⟩

theorem Governed.oneVoteEach (h : Governed d c b) (hok : SingleDelivery c a) :
    OneVoteEach d c a :=
  ⟨hok.1, countsOnce_of_unique h.fixed h.sim.elections h.unique a⟩

theorem Governed.step (h : Governed d c b) (hok : SingleDelivery c a) :
    ∃ b', (Ballot.Le b b' ∧ Ballot.NewVotes (VotesIn d c a) b b') ∧
      Governed d (c.step d a) b' := by
  have honce := h.oneVoteEach hok
  obtain ⟨b', hle, hsim⟩ := originated_step honce h.settled h.fixed h.tallied h.sim
  exact ⟨b', hle, settled_step h.settled a, fixed_step hok.1 h.settled h.fixed,
    tallied_step hok.1 honce.2 h.settled h.fixed h.tallied,
    unique_step hok h.settled h.fixed h.sim.elections h.unique, hsim⟩

theorem Governed.run {c' : Cluster P SM} (h : Run (Cluster.step d) SingleDelivery c c')
    (hc : Governed d c b) : ∃ b', Ballot.Le b b' ∧ Governed d c' b' :=
  Run.simulate (Governed d) Ballot.Le Ballot.Le.refl (fun _ _ _ => Ballot.Le.trans)
    (fun _ _ _ hg hok => (hg.step hok).imp fun _ hg' => ⟨hg'.1.1, hg'.2⟩) h hc

theorem Reachable.governed (h : Reachable d SingleDelivery c) : ∃ b, Governed d c b := by
  obtain ⟨b, _, hg⟩ := Governed.run h (governed_init d)
  exact ⟨b, hg⟩

omit [StateMachine SM P] in
/-- A leader is never sent anything that only the leader of its term could have sent. -/
theorem Governed.not_from_other (h : Governed d c b) (hv : v ∈ d.members)
    (hl : (c.nodes v).role = .leader) {sender : NodeId} {msg : RaftMsg P}
    (hp : ⟨sender, v, msg⟩ ∈ c.messageLog) :
    (∀ prev pt es lc, msg ≠ .appendEntries (c.nodes v).currentTerm prev pt es lc) ∧
    ∀ leaderId i t offset data done,
      msg ≠ .installSnapshot (c.nodes v).currentTerm leaderId i t offset data done := by
  have hown := h.sim.elections.leader hv hl
  have hother : b.leader (c.nodes v).currentTerm ≠ some sender := by
    intro hleader
    rw [hown] at hleader
    exact (h.fixed.sent _ hp).ne (Option.some.inj hleader)
  have hsent := h.sim.sent _ hp
  constructor
  · rintro prev pt es lc rfl
    exact hother hsent.1
  · rintro leaderId i t offset data done rfl
    exact hother hsent

end

end MetalRaft
