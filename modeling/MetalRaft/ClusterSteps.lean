import MetalRaft.Cluster
import MetalRaft.Moves

/-!
# The steps of a cluster

What an action of a cluster can do, in the form invariants are checked against.

* `Cluster.step_cases` — a node handles an event, or messages get lost, or one is duplicated, or
  a node restarts, or time passes.
* `dispatch_simulate` — the handling of an event is followed move by move, through the states
  `c.withNode v n` in which the node has got as far as `n` and what it has sent is in flight.
-/

set_option autoImplicit false

namespace MetalRaft

open Relation Transition

variable {P SM : Type} [StateMachine SM P]

namespace Cluster

variable {d : Deployment SM} {c c₀ : Cluster P SM} {a : Action P} {v u : NodeId} {ev : Event P}

/-! ## What an action can do -/

/-- In action `a` node `v` handles `ev`, the delivered message being out of `c₀`. -/
inductive Handles (d : Deployment SM) (c : Cluster P SM) :
    Action P → NodeId → Event P → Cluster P SM → Prop where
  | deliver {k : Nat} {p : Packet P} (found : c.network[k]? = some p)
      (member : p.dst ∈ d.members) :
      Handles d c (.deliver k) p.dst (.message p.src p.msg)
        { c with network := c.network.eraseIdx k }
  | timer {v : NodeId} {kind : TimerKind} (member : v ∈ d.members) :
      Handles d c (.timer v kind) v (.timerFired kind) c
  | client {v : NodeId} {payload : P} (member : v ∈ d.members) :
      Handles d c (.client v payload) v (.clientCommand payload) c
  | configChange {v : NodeId} {change : ConfigurationChange} (member : v ∈ d.members) :
      Handles d c (.configChange v change) v (.configChange change) c

section

omit [StateMachine SM P]

theorem Handles.handled (h : Handles d c a v ev c₀) : c.handled d a = some (v, ev) := by
  cases h with
  | deliver found member => simp [Cluster.handled, found, member]
  | timer member | client member | configChange member => simp [Cluster.handled, member]

theorem Handles.member (h : Handles d c a v ev c₀) : v ∈ d.members := by
  cases h <;> assumption

theorem Handles.nodes (h : Handles d c a v ev c₀) : c₀.nodes = c.nodes := by
  cases h <;> rfl

theorem Handles.messageLog (h : Handles d c a v ev c₀) : c₀.messageLog = c.messageLog := by
  cases h <;> rfl

theorem Handles.network (h : Handles d c a v ev c₀) : c₀.network.Sublist c.network := by
  cases h with
  | deliver found member => exact List.eraseIdx_sublist _ _
  | timer | client | configChange => exact List.Sublist.refl _

theorem Handles.delivered {sender : NodeId} {msg : RaftMsg P}
    (h : Handles d c a v (.message sender msg) c₀) : ⟨sender, v, msg⟩ ∈ c.network := by
  cases h with
  | deliver found member => exact List.mem_of_getElem? found

end

/-- Everything an action can do. -/
theorem step_cases (d : Deployment SM) (c : Cluster P SM) (a : Action P) :
    (∃ v ev c₀, Handles d c a v ev c₀ ∧ c.step d a = c₀.dispatch v ev) ∨
    (∃ network, network.Sublist c.network ∧ c.step d a = { c with network := network }) ∨
    (∃ k p, a = .duplicate k ∧ p ∈ c.network ∧
      c.step d a = { c with network := c.network ++ [p] }) ∨
    (∃ v, a = .restart v ∧
      c.step d a = { c with nodes := Function.update c.nodes v ((c.nodes v).restart d) }) ∨
    ∃ millis, a = .advance millis ∧
      c.step d a = { c with nodes := fun v => (c.nodes v).advanceClock millis } := by
  cases a with
  | deliver k =>
    cases hk : c.network[k]? with
    | none => exact Or.inr (Or.inl ⟨c.network, .refl _, by simp [step, hk]⟩)
    | some p =>
      by_cases hp : p.dst ∈ d.members
      · exact Or.inl ⟨_, _, _, .deliver hk hp, by simp [step, hk, hp]⟩
      · exact Or.inr (Or.inl ⟨_, List.eraseIdx_sublist _ k, by simp [step, hk, hp]⟩)
  | lose k => exact Or.inr (Or.inl ⟨_, List.eraseIdx_sublist _ k, rfl⟩)
  | duplicate k =>
    cases hk : c.network[k]? with
    | none => exact Or.inr (Or.inl ⟨c.network, .refl _, by simp [step, hk]⟩)
    | some p =>
      exact Or.inr (Or.inr (Or.inl ⟨k, p, rfl, List.mem_of_getElem? hk, by simp [step, hk]⟩))
  | timer v kind =>
    by_cases hv : v ∈ d.members
    · exact Or.inl ⟨_, _, _, .timer hv, by simp [step, hv]⟩
    · exact Or.inr (Or.inl ⟨c.network, .refl _, by simp [step, hv]⟩)
  | client v payload =>
    by_cases hv : v ∈ d.members
    · exact Or.inl ⟨_, _, _, .client hv, by simp [step, hv]⟩
    · exact Or.inr (Or.inl ⟨c.network, .refl _, by simp [step, hv]⟩)
  | configChange v change =>
    by_cases hv : v ∈ d.members
    · exact Or.inl ⟨_, _, _, .configChange hv, by simp [step, hv]⟩
    · exact Or.inr (Or.inl ⟨c.network, .refl _, by simp [step, hv]⟩)
  | restart v => exact Or.inr (Or.inr (Or.inr (Or.inl ⟨v, rfl, rfl⟩)))
  | advance millis => exact Or.inr (Or.inr (Or.inr (Or.inr ⟨millis, rfl, rfl⟩)))

theorem handles_of_handled (h : c.handled d a = some (v, ev)) :
    ∃ c₀, Handles d c a v ev c₀ ∧ c.step d a = c₀.dispatch v ev := by
  unfold handled at h
  cases a with
  | deliver k =>
    simp only at h
    split at h
    · cases h
    · rename_i p hp
      split at h
      · rename_i hd
        simp only [Option.some.injEq, Prod.mk.injEq] at h
        obtain ⟨rfl, rfl⟩ := h
        exact ⟨_, .deliver hp hd, by simp [step, hp, hd]⟩
      · cases h
  | timer u kind =>
    simp only [Option.ite_none_right_eq_some, Option.some.injEq, Prod.mk.injEq] at h
    obtain ⟨hu, rfl, rfl⟩ := h
    exact ⟨c, .timer hu, by simp [step, hu]⟩
  | client u payload =>
    simp only [Option.ite_none_right_eq_some, Option.some.injEq, Prod.mk.injEq] at h
    obtain ⟨hu, rfl, rfl⟩ := h
    exact ⟨c, .client hu, by simp [step, hu]⟩
  | configChange u change =>
    simp only [Option.ite_none_right_eq_some, Option.some.injEq, Prod.mk.injEq] at h
    obtain ⟨hu, rfl, rfl⟩ := h
    exact ⟨c, .configChange hu, by simp [step, hu]⟩
  | lose | duplicate | restart | advance => cases h

theorem messageLog_subset (d : Deployment SM) (c : Cluster P SM) (a : Action P) :
    c.messageLog ⊆ (c.step d a).messageLog := by
  rcases step_cases d c a with ⟨v, ev, c₀, hh, hs⟩ | ⟨net, _, hs⟩ | ⟨k, p, _, _, hs⟩ |
    ⟨v, _, hs⟩ | ⟨ms, _, hs⟩ <;> rw [hs]
  · unfold dispatch withNode
    rw [hh.messageLog]
    exact List.subset_append_left _ _
  all_goals exact List.Subset.refl _

/-- Everything an action can do to node `v`. -/
inductive NodeStep (d : Deployment SM) (c : Cluster P SM) (a : Action P) (v : NodeId) :
    TestNode P SM → Prop where
  | handles {ev : Event P} (handled : c.handled d a = some (v, ev)) :
      NodeStep d c a v { (c.nodes v).onEvent .testUtils ev with transport := [] }
  | stays : NodeStep d c a v (c.nodes v)
  | restarts (restarted : a = .restart v) : NodeStep d c a v ((c.nodes v).restart d)
  | ages {millis : Nat} (passed : a = .advance millis) :
      NodeStep d c a v ((c.nodes v).advanceClock millis)

theorem node_cases (d : Deployment SM) (c : Cluster P SM) (a : Action P) (v : NodeId) :
    NodeStep d c a v ((c.step d a).nodes v) := by
  rcases step_cases d c a with ⟨u, ev, c₀, hh, hs⟩ | ⟨net, _, hs⟩ | ⟨k, p, _, _, hs⟩ |
    ⟨u, ha, hs⟩ | ⟨ms, ha, hs⟩ <;> rw [hs]
  · by_cases hvu : v = u
    · subst hvu
      have hnode : (c₀.dispatch v ev).nodes v =
          { (c.nodes v).onEvent .testUtils ev with transport := [] } := by
        simp only [dispatch, withNode, Function.update_self, hh.nodes]
      rw [hnode]
      exact .handles hh.handled
    · have hnode : (c₀.dispatch u ev).nodes v = c.nodes v := by
        simp only [dispatch, withNode, Function.update_of_ne hvu, hh.nodes]
      rw [hnode]
      exact .stays
  · exact .stays
  · exact .stays
  · by_cases hvu : v = u
    · subst hvu
      simp only [Function.update_self]
      exact .restarts ha
    · simp only [Function.update_of_ne hvu]
      exact .stays
  · exact .ages ha

theorem step_of_handled (h : c.handled d a = some (v, ev)) : (c.step d a).nodes v =
    { (c.nodes v).onEvent .testUtils ev with transport := [] } := by
  obtain ⟨c₀, hh, hs⟩ := handles_of_handled h
  rw [hs]
  simp only [dispatch, withNode, Function.update_self, hh.nodes]

/-- A message is there already, or the node that handles the event sends it. -/
theorem sent_cases {p : Packet P} (h : p ∈ (c.step d a).messageLog) :
    p ∈ c.messageLog ∨ ∃ v ev, c.handled d a = some (v, ev) ∧
      p ∈ ((c.nodes v).onEvent .testUtils ev).outbox := by
  rcases step_cases d c a with ⟨u, ev, c₀, hh, hs⟩ | ⟨net, _, hs⟩ | ⟨k, q, _, _, hs⟩ |
    ⟨u, _, hs⟩ | ⟨ms, _, hs⟩ <;> rw [hs] at h
  · unfold dispatch withNode at h
    rw [hh.messageLog, hh.nodes] at h
    rcases List.mem_append.mp h with h | h
    · exact Or.inl h
    · exact Or.inr ⟨u, ev, hh.handled, h⟩
  all_goals exact Or.inl h

/-! ## Nodes between moves -/

omit [StateMachine SM P] in
theorem withNode_self (h : (c.nodes v).transport = []) : c.withNode v (c.nodes v) = c := by
  obtain ⟨nodes, network, messageLog⟩ := c
  have hn : ({ nodes v with transport := [] } : TestNode P SM) = nodes v := by
    have h' : (nodes v).transport = [] := h
    rw [← h']
  unfold withNode RaftNode.outbox
  simp only at h ⊢
  rw [h, hn, Function.update_eq_self]
  simp

omit [StateMachine SM P] in
@[simp] theorem withNode_nodes_self (n : TestNode P SM) :
    (c.withNode v n).nodes v = { n with transport := [] } := by
  simp [withNode]

omit [StateMachine SM P] in
theorem withNode_nodes_ne (h : u ≠ v) (n : TestNode P SM) :
    (c.withNode v n).nodes u = c.nodes u := by
  simp [withNode, h]

omit [StateMachine SM P] in
@[simp] theorem withNode_network (n : TestNode P SM) :
    (c.withNode v n).network = c.network ++ n.outbox := rfl

omit [StateMachine SM P] in
@[simp] theorem withNode_messageLog (n : TestNode P SM) :
    (c.withNode v n).messageLog = c.messageLog ++ n.outbox := rfl

/-- A simulation that every move extends follows the handling of a whole event. -/
theorem dispatch_simulate {γ : Type} (Sim : Cluster P SM → γ → Prop) (le : γ → γ → Prop)
    (hrefl : ∀ g, le g g) (htrans : ∀ g₁ g₂ g₃, le g₁ g₂ → le g₂ g₃ → le g₁ g₃)
    (hsilent : (c.nodes v).transport = []) {g : γ}
    (hmove : ∀ n n' g', RaftNode.Moves .testUtils ev (c.nodes v) (c.nodes v) n →
      RaftNode.Move .testUtils ev (c.nodes v) n n' → le g g' → Sim (c.withNode v n) g' →
      ∃ g'', le g' g'' ∧ Sim (c.withNode v n') g'')
    (h : Sim c g) : ∃ g', le g g' ∧ Sim (c.dispatch v ev) g' := by
  suffices hall : ∀ n, RaftNode.Moves .testUtils ev (c.nodes v) (c.nodes v) n →
      ∃ g', le g g' ∧ Sim (c.withNode v n) g' from
    hall _ (RaftNode.onEvent_moves _ _ _)
  intro n hmoves
  induction hmoves with
  | refl => exact ⟨g, hrefl g, by rw [withNode_self hsilent]; exact h⟩
  | @tail n n' hmoves hlast ih =>
    obtain ⟨g', hle, hsim⟩ := ih
    obtain ⟨g'', hle', hsim'⟩ := hmove n n' g' hmoves hlast hle hsim
    exact ⟨g'', htrans _ _ _ hle hle', hsim'⟩

end Cluster

/-- Every node is in its place, and between actions nothing waits in a transport. -/
def Settled (c : Cluster P SM) : Prop := ∀ v, (c.nodes v).id = v ∧ (c.nodes v).transport = []

theorem settled_step {d : Deployment SM} {c : Cluster P SM} (h : Settled c) (a : Action P) :
    Settled (c.step d a) := by
  rcases Cluster.step_cases d c a with ⟨v, ev, c₀, hh, hs⟩ | ⟨net, _, hs⟩ | ⟨k, p, _, _, hs⟩ |
    ⟨v, _, hs⟩ | ⟨ms, _, hs⟩ <;> rw [hs]
  · intro u
    by_cases hu : u = v
    · subst hu
      unfold Cluster.dispatch
      rw [Cluster.withNode_nodes_self]
      refine ⟨?_, rfl⟩
      have hid := (RaftNode.onEvent_moves .testUtils (c₀.nodes u) ev).id_eq
      rw [hh.nodes] at hid ⊢
      exact hid.trans (h u).1
    · unfold Cluster.dispatch
      rw [Cluster.withNode_nodes_ne hu, hh.nodes]
      exact h u
  · exact h
  · exact h
  · intro u
    by_cases hu : u = v
    · subst hu
      simp only [Function.update_self]
      exact ⟨(h u).1, rfl⟩
    · simp only [Function.update_of_ne hu]
      exact h u
  · exact h

theorem Reachable.settled {d : Deployment SM} {ok : Cluster P SM → Action P → Prop}
    {c : Cluster P SM} (h : Reachable d ok c) : Settled c :=
  Run.invariant (fun _ a hs _ => settled_step hs a) h fun _ => ⟨rfl, rfl⟩

/-! ## Invariants of nodes and messages -/

/-- `N` holds of every member and `K` of every message ever sent. -/
structure LocalInv (d : Deployment SM) (N : NodeId → TestNode P SM → Prop) (K : Packet P → Prop)
    (c : Cluster P SM) : Prop where
  node : ∀ v ∈ d.members, N v (c.nodes v)
  sent : ∀ p ∈ c.messageLog, K p
  inFlight : ∀ p ∈ c.network, p ∈ c.messageLog

/-- Such an invariant is checked event by event. -/
theorem LocalInv.handle {d : Deployment SM} {N : NodeId → TestNode P SM → Prop}
    {K : Packet P → Prop} {c : Cluster P SM} {a : Action P} (h : LocalInv d N K c)
    (hevent : ∀ v ∈ d.members, ∀ ev, c.handled d a = some (v, ev) →
      (∀ sender msg, ev = .message sender msg → ⟨sender, v, msg⟩ ∈ c.messageLog) →
      N v { (c.nodes v).onEvent .testUtils ev with transport := [] } ∧
        ∀ p ∈ ((c.nodes v).onEvent .testUtils ev).outbox, K p)
    (hrestart : ∀ v ∈ d.members, a = .restart v → N v (c.nodes v) → N v ((c.nodes v).restart d))
    (hadvance : ∀ v n millis, N v n → N v (n.advanceClock millis)) :
    LocalInv d N K (c.step d a) := by
  rcases Cluster.step_cases d c a with ⟨v, ev, c₀, hh, hs⟩ | ⟨net, hnet, hs⟩ | ⟨k, p, _, hp, hs⟩ |
    ⟨v, ha, hs⟩ | ⟨ms, _, hs⟩ <;> rw [hs]
  · have hv := hh.member
    have hev : ∀ sender msg, ev = .message sender msg → ⟨sender, v, msg⟩ ∈ c.messageLog := by
      rintro sender msg rfl
      exact h.inFlight _ hh.delivered
    have hall := hevent v hv ev hh.handled hev
    unfold Cluster.dispatch
    rw [hh.nodes]
    constructor
    · intro u hu
      by_cases huv : u = v
      · subst huv
        rw [Cluster.withNode_nodes_self]
        exact hall.1
      · rw [Cluster.withNode_nodes_ne huv, hh.nodes]
        exact h.node u hu
    · intro p hp
      rw [Cluster.withNode_messageLog, hh.messageLog] at hp
      rcases List.mem_append.mp hp with hp | hp
      · exact h.sent p hp
      · exact hall.2 p hp
    · intro p hp
      rw [Cluster.withNode_network] at hp
      rw [Cluster.withNode_messageLog, hh.messageLog]
      rcases List.mem_append.mp hp with hp | hp
      · exact List.mem_append_left _ (h.inFlight p (hh.network.subset hp))
      · exact List.mem_append_right _ hp
  · exact ⟨h.node, h.sent, fun p hp => h.inFlight p (hnet.subset hp)⟩
  · refine ⟨h.node, h.sent, fun q hq => ?_⟩
    rcases List.mem_append.mp hq with hq | hq
    · exact h.inFlight q hq
    · rw [List.mem_singleton.mp hq]; exact h.inFlight p hp
  · refine ⟨fun u hu => ?_, h.sent, h.inFlight⟩
    by_cases huv : u = v
    · subst huv
      simp only [Function.update_self]
      exact hrestart u hu ha (h.node u hu)
    · simp only [Function.update_of_ne huv]
      exact h.node u hu
  · exact ⟨fun u hu => hadvance u _ ms (h.node u hu), h.sent, h.inFlight⟩

/-- Or move by move. -/
theorem LocalInv.step {d : Deployment SM} {N : NodeId → TestNode P SM → Prop}
    {K : Packet P → Prop} {c : Cluster P SM} {a : Action P} (h : LocalInv d N K c)
    (hsettled : Settled c)
    (hmove : ∀ v ∈ d.members, ∀ ev, c.handled d a = some (v, ev) →
      (∀ sender msg, ev = .message sender msg → ⟨sender, v, msg⟩ ∈ c.messageLog) →
      ∀ n n', n.id = v →
      RaftNode.Moves .testUtils ev (c.nodes v) (c.nodes v) n →
      RaftNode.Move .testUtils ev (c.nodes v) n n' →
      N v n → (∀ p ∈ n.outbox, K p) → N v n' ∧ ∀ p ∈ n'.outbox, K p)
    (hsilent : ∀ v n, N v n → N v { n with transport := [] })
    (hrestart : ∀ v ∈ d.members, a = .restart v → N v (c.nodes v) → N v ((c.nodes v).restart d))
    (hadvance : ∀ v n millis, N v n → N v (n.advanceClock millis)) :
    LocalInv d N K (c.step d a) := by
  refine h.handle (fun v hv ev hhandled hev => ?_) hrestart hadvance
  suffices hall : N v ((c.nodes v).onEvent .testUtils ev) ∧
      ∀ p ∈ ((c.nodes v).onEvent .testUtils ev).outbox, K p from ⟨hsilent v _ hall.1, hall.2⟩
  have hmoves := RaftNode.onEvent_moves .testUtils (c.nodes v) ev
  generalize (c.nodes v).onEvent .testUtils ev = n' at hmoves ⊢
  induction hmoves with
  | refl =>
    refine ⟨h.node v hv, ?_⟩
    simp [RaftNode.outbox, (hsettled v).2]
  | tail hmoves hlast ih =>
    exact hmove v hv ev hhandled hev _ _ ((RaftNode.Moves.id_eq hmoves).trans (hsettled v).1)
      hmoves hlast ih.1 ih.2

namespace RaftNode

omit [StateMachine SM P] in
theorem outbox_append (n : TestNode P SM) (outs : List (Outgoing P (InMemoryStorage P))) :
    outbox { n with transport := n.transport ++ outs } =
      n.outbox ++ outs.map fun o => ⟨n.id, o.target, o.msg⟩ := by
  simp [outbox]

/-- Everything a move sends. -/
theorem Move.outbox {ev : Event P} {n₀ n n' : TestNode P SM} (h : Move .testUtils ev n₀ n n') :
    ∃ outs : List (Packet P), n'.outbox = n.outbox ++ outs ∧ ∀ p ∈ outs, p.src = n.id ∧
      (Speaks .testUtils ev n₀ n p.dst p.msg ∨
        (p.dst ∈ n.peerIds .testUtils ∧
          ∃ li lt, p.msg = .requestVote (n.currentTerm + 1) n.id li lt) ∨
        ∃ cand li lt, ev = .message p.dst (.requestVote n.currentTerm cand li lt) ∧
          p.msg = .requestVoteResponse n.currentTerm true) := by
  cases h with
  | campaign =>
    rw [broadcast_eq]
    refine ⟨_, outbox_append n.standing _, ?_⟩
    intro p hp
    simp only [List.map_map, List.mem_map, Function.comp] at hp
    obtain ⟨t, ht, rfl⟩ := hp
    exact ⟨rfl, Or.inr (Or.inl ⟨ht, _, _, rfl⟩)⟩
  | say outs spoken =>
    refine ⟨_, outbox_append n outs, ?_⟩
    intro p hp
    obtain ⟨o, ho, rfl⟩ := List.mem_map.mp hp
    exact ⟨rfl, Or.inl (spoken o ho).2⟩
  | @grant _ sender cand li lt asked =>
    refine ⟨[⟨n.id, sender, .requestVoteResponse n.currentTerm true⟩], ?_, ?_⟩
    · simp [send, withStorage, RaftNode.outbox]
    · intro p hp
      rw [List.mem_singleton.mp hp]
      exact ⟨rfl, Or.inr (Or.inr ⟨cand, li, lt, asked, rfl⟩)⟩
  | inert h =>
    refine ⟨[], ?_, by simp⟩
    simp [RaftNode.outbox, h.transport, h.id]
  | _ => exact ⟨[], (List.append_nil _).symm, by simp⟩

end RaftNode

end MetalRaft
