import MetalRaft.IndexMap
import MetalRaft.Quiescence

/-!
# The timeless test cluster

The harness under which the validation suite runs the core
(`validation/src/timeless_test_cluster.rs`), with the `MessageBroker` that stands between its
nodes (`test-utils/src/message_broker.rs`): one queue of messages for each receiver.

* `TimelessTestCluster.deliverMessages` — rounds in which every queue is emptied and the messages
  are then handled, until a round finds nothing; `none` if the fuel runs out first.
* `TestAction`, `TimelessTestCluster.step` — what a test does with a cluster.
* `Wired` — between two steps every node is in its place and has nothing left to send.

The nodes have a `FrozenTimer` and a `FrozenClock`, which never move, and send through an
`InMemoryTransport`, whose messages are enqueued here once the event is handled.  A test that names
a node that is not there panics, which is shown as a step that does nothing.
-/

set_option autoImplicit false

namespace MetalRaft

open Cascade

/-! ## `message_broker.rs` -/

/-- A queue is there from the first message to its receiver on. -/
structure MessageBroker (P : Type) where
  queues : NodeId → Option (List (NodeId × RaftMsg P))

namespace MessageBroker

variable {P : Type} {b : MessageBroker P} {u v sender : NodeId} {msg : RaftMsg P}

def new : MessageBroker P := ⟨fun _ => none⟩

def peak (b : MessageBroker P) (nodeId : NodeId) : Option (List (NodeId × RaftMsg P)) :=
  b.queues nodeId

def enqueue (b : MessageBroker P) (sender target : NodeId) (msg : RaftMsg P) : MessageBroker P :=
  ⟨Function.update b.queues target (some ((b.queues target).getD [] ++ [(sender, msg)]))⟩

def dequeue (b : MessageBroker P) (nodeId : NodeId) :
    Option (NodeId × RaftMsg P) × MessageBroker P :=
  match b.queues nodeId with
  | some (m :: queue) => (some m, ⟨Function.update b.queues nodeId (some queue)⟩)
  | _ => (none, b)

def dequeueFrom (b : MessageBroker P) (nodeId sender : NodeId) :
    Option (NodeId × RaftMsg P) × MessageBroker P :=
  match b.queues nodeId with
  | none => (none, b)
  | some queue =>
    match queue.findIdx? (·.1 = sender) with
    | none => (none, b)
    | some pos =>
      (queue[pos]?, ⟨Function.update b.queues nodeId (some (queue.eraseIdx pos))⟩)

/-- What waits for a node. -/
def waiting (b : MessageBroker P) (v : NodeId) : List (NodeId × RaftMsg P) := (b.peak v).getD []

@[simp] theorem waiting_new : (new : MessageBroker P).waiting v = [] := rfl

@[simp] theorem waiting_enqueue_self :
    (b.enqueue sender v msg).waiting v = b.waiting v ++ [(sender, msg)] := by
  simp [enqueue, waiting, peak]

@[simp] theorem waiting_enqueue_ne (h : u ≠ v) :
    (b.enqueue sender v msg).waiting u = b.waiting u := by
  simp [enqueue, waiting, peak, h]

/-- The oldest message is taken, and the rest stays. -/
theorem dequeue_cases (b : MessageBroker P) (v : NodeId) :
    (b.waiting v = [] ∧ b.dequeue v = (none, b)) ∨
      ∃ m b', b.dequeue v = (some m, b') ∧ b.waiting v = m :: b'.waiting v ∧
        ∀ u, u ≠ v → b'.waiting u = b.waiting u := by
  unfold dequeue waiting peak
  match h : b.queues v with
  | none => exact Or.inl ⟨rfl, rfl⟩
  | some [] => exact Or.inl ⟨rfl, rfl⟩
  | some (m :: queue) =>
    refine Or.inr ⟨m, _, rfl, by simp, fun u hu => ?_⟩
    simp only [Function.update_of_ne hu]

/-- The oldest message of a sender is taken, and the others stay. -/
theorem dequeueFrom_cases (b : MessageBroker P) (v sender : NodeId) :
    ((∀ m ∈ b.waiting v, m.1 ≠ sender) ∧ b.dequeueFrom v sender = (none, b)) ∨
      ∃ before msg after b', b.dequeueFrom v sender = (some (sender, msg), b') ∧
        b.waiting v = before ++ (sender, msg) :: after ∧ (∀ m ∈ before, m.1 ≠ sender) ∧
        b'.waiting v = before ++ after ∧ ∀ u, u ≠ v → b'.waiting u = b.waiting u := by
  unfold dequeueFrom waiting peak
  match h : b.queues v with
  | none => exact Or.inl ⟨by simp, rfl⟩
  | some queue =>
    dsimp only
    cases hpos : queue.findIdx? (·.1 = sender) with
    | none =>
      have habsent := List.findIdx?_eq_none_iff.mp hpos
      exact Or.inl ⟨fun m hm => by simpa using habsent m hm, rfl⟩
    | some pos =>
      obtain ⟨hlt, hfound, hfirst⟩ := List.findIdx?_eq_some_iff_getElem.mp hpos
      have hsender : queue[pos].1 = sender := by simpa using hfound
      have hsplit : queue = queue.take pos ++ queue[pos] :: queue.drop (pos + 1) := by
        rw [← List.drop_eq_getElem_cons hlt, List.take_append_drop]
      have hbefore : ∀ m ∈ queue.take pos, m.1 ≠ sender := by
        intro m hm
        obtain ⟨i, hi, rfl⟩ := List.getElem_of_mem hm
        rw [List.length_take] at hi
        rw [List.getElem_take]
        simpa using hfirst i (by omega)
      refine Or.inr ⟨queue.take pos, queue[pos].2, queue.drop (pos + 1),
        ⟨Function.update b.queues v (some (queue.eraseIdx pos))⟩, ?_, ?_, hbefore, ?_, ?_⟩
      · dsimp only
        rw [List.getElem?_eq_getElem hlt, ← hsender]
      · rw [← hsender]
        exact hsplit
      · simp only [Function.update_self, Option.getD_some]
        exact List.eraseIdx_eq_take_drop_succ queue pos
      · intro u hu
        simp only [Function.update_of_ne hu]

end MessageBroker

/-! ## `timeless_test_cluster.rs` -/

/-- `messageLog` holds the messages delivered. -/
structure TimelessTestCluster (P SM : Type) where
  nodes : IndexMap NodeId (TestNode P SM)
  messageBroker : MessageBroker P
  messageLog : List (Packet P)
  partitionGroups : Option (List NodeId × List NodeId)
  snapshotThreshold : Nat

/-- What a test does with a cluster.  The events are handed to a node by the test itself, and
`reconnect_node` connects all peers. -/
inductive TestAction (P : Type) where
  | addNode (v : NodeId) (storage : InMemoryStorage P)
  | removeNode (v : NodeId)
  | connectPeers
  | timer (v : NodeId) (kind : TimerKind)
  | client (v : NodeId) (payload : P)
  | configChange (v : NodeId) (change : ConfigurationChange)
  | deliverMessages
  | deliverMessageFromTo (sender target : NodeId)
  | deliverMessagesPartition (ids : List NodeId)
  | partition (group1 group2 : List NodeId)
  | partitionNode (v : NodeId)
  | healPartition
  | clearMessageLog

namespace TimelessTestCluster

variable {P SM : Type} [StateMachine SM P]

section

omit [StateMachine SM P]

def new : TimelessTestCluster P SM := ⟨.empty, .new, [], none, 10⟩

def withSnapshotThreshold (c : TimelessTestCluster P SM) (threshold : Nat) :
    TimelessTestCluster P SM :=
  { c with snapshotThreshold := threshold }

end

/-- The node that the builder makes, with its default lease duration. -/
def buildNode (c : TimelessTestCluster P SM) (id : NodeId) (storage : InMemoryStorage P)
    (stateMachine : SM) (peers : List NodeId) : TestNode P SM :=
  .newFromBuilder .testUtils id storage stateMachine ⟨none, none, 0⟩ [] peers ⟨[]⟩
    c.snapshotThreshold 0 5000

def addNodeWithStorage (freshMachine : SM) (c : TimelessTestCluster P SM) (id : NodeId)
    (storage : InMemoryStorage P) : TimelessTestCluster P SM :=
  { c with nodes := c.nodes.insert id (c.buildNode id storage freshMachine []) }

def addNode (freshMachine : SM) (c : TimelessTestCluster P SM) (id : NodeId) :
    TimelessTestCluster P SM :=
  c.addNodeWithStorage freshMachine id .new

omit [StateMachine SM P] in
/-- The comparison of `connect_peers`.  `peers()` hands out all members, the node included. -/
def peersMatch (n : TestNode P SM) (expectedPeers : List NodeId) : Bool :=
  if n.config.members.isEmpty then false
  else
    n.config.members.length = expectedPeers.length &&
      expectedPeers.all fun peerId => n.config.members.contains peerId

/-- One turn of the loop of `connect_peers`. -/
def connectNode (nodeIds : List NodeId) (c : TimelessTestCluster P SM) (nodeId : NodeId) :
    TimelessTestCluster P SM :=
  let expectedPeers := nodeIds.filter (· ≠ nodeId)
  match c.nodes.get nodeId with
  | none => c
  | some oldNode =>
    if peersMatch oldNode expectedPeers then c
    else
      let newNode := c.buildNode nodeId oldNode.storage oldNode.stateMachine expectedPeers
      { c with nodes := (c.nodes.swapRemove nodeId).insert nodeId newNode }

def connectPeers (c : TimelessTestCluster P SM) : TimelessTestCluster P SM :=
  c.nodes.keys.foldl (connectNode c.nodes.keys) c

/-- The ids are `1..=n`. -/
def withNodes (freshMachine : SM) (n : Nat) : TimelessTestCluster P SM :=
  ((List.range' 1 n).foldl (addNode freshMachine) new).connectPeers

omit [StateMachine SM P] in
def removeNode (c : TimelessTestCluster P SM) (id : NodeId) : TimelessTestCluster P SM :=
  { c with nodes := c.nodes.swapRemove id }

/-- Node `v` handles an event, and what it sends is enqueued. -/
def handle (c : TimelessTestCluster P SM) (v : NodeId) (event : Event P) :
    TimelessTestCluster P SM :=
  match c.nodes.get v with
  | none => c
  | some node =>
    let node := node.onEvent .testUtils event
    { c with
      nodes := c.nodes.insert v { node with transport := [] }
      messageBroker :=
        node.transport.foldl (fun b o => b.enqueue node.id o.target o.msg) c.messageBroker }

/-! ### Delivery -/

section

omit [StateMachine SM P]

/-- The `while let` loop of a round: the queue of node `v`, of which `fuel` messages are left. -/
def drain (shouldDeliver : NodeId → Bool) (v : NodeId) :
    Nat → MessageBroker P × List (Packet P) → MessageBroker P × List (Packet P)
  | 0, st => st
  | fuel + 1, (broker, messagesToDeliver) =>
    match broker.dequeue v with
    | (none, broker) => (broker, messagesToDeliver)
    | (some (sender, msg), broker) =>
      drain shouldDeliver v fuel
        (broker,
          if shouldDeliver sender then messagesToDeliver ++ [⟨sender, v, msg⟩]
          else messagesToDeliver)

/-- The first half of a round, over the queues of the given nodes. -/
def collect (shouldDeliver : NodeId → NodeId → Bool) (ids : List NodeId)
    (broker : MessageBroker P) : MessageBroker P × List (Packet P) :=
  ids.foldl (fun st v => drain (shouldDeliver · v) v (st.1.waiting v).length st) (broker, [])

/-- Messages cross no border between the groups. -/
def shouldDeliver (c : TimelessTestCluster P SM) (sender target : NodeId) : Bool :=
  match c.partitionGroups with
  | some (group1, group2) =>
    group1.contains sender && group1.contains target ||
      group2.contains sender && group2.contains target
  | none => true

end

/-- One turn of the second half of a round. -/
def deliver (c : TimelessTestCluster P SM) (p : Packet P) : TimelessTestCluster P SM :=
  { c with messageLog := c.messageLog ++ [p] }.handle p.dst (.message p.src p.msg)

/-- The common body of `deliver_messages` and `deliver_messages_partition`, which differ in the
queues they empty and the messages they keep. -/
def deliverLoop (shouldDeliver : NodeId → NodeId → Bool) (ids : List NodeId) :
    Nat → TimelessTestCluster P SM → Option (TimelessTestCluster P SM)
  | 0, _ => none
  | fuel + 1, c =>
    let collected := collect shouldDeliver ids c.messageBroker
    let c := { c with messageBroker := collected.1 }
    if collected.2.isEmpty then some c
    else deliverLoop shouldDeliver ids fuel (collected.2.foldl deliver c)

def deliverMessages (fuel : Nat) (c : TimelessTestCluster P SM) :
    Option (TimelessTestCluster P SM) :=
  deliverLoop c.shouldDeliver c.nodes.keys fuel c

def deliverMessagesPartition (fuel : Nat) (c : TimelessTestCluster P SM) (ids : List NodeId) :
    Option (TimelessTestCluster P SM) :=
  deliverLoop (fun sender _ => ids.contains sender) ids fuel c

def deliverMessageFromTo (c : TimelessTestCluster P SM) (sender target : NodeId) :
    TimelessTestCluster P SM :=
  match c.messageBroker.dequeueFrom target sender with
  | (some (sender, msg), broker) =>
    { c with messageBroker := broker }.deliver ⟨sender, target, msg⟩
  | (none, _) => c

/-! ### What a test does -/

/-- Enough for every delivery to come to its end (`deliverMessages_ends`). -/
def deliveryFuel : Nat := RaftMsg.ranks + 1

def step (freshMachine : SM) (c : TimelessTestCluster P SM) :
    TestAction P → TimelessTestCluster P SM
  | .addNode v storage => c.addNodeWithStorage freshMachine v storage
  | .removeNode v => c.removeNode v
  | .connectPeers => c.connectPeers
  | .timer v kind => c.handle v (.timerFired kind)
  | .client v payload => c.handle v (.clientCommand payload)
  | .configChange v change => c.handle v (.configChange change)
  | .deliverMessages => (c.deliverMessages deliveryFuel).getD c
  | .deliverMessageFromTo sender target => c.deliverMessageFromTo sender target
  | .deliverMessagesPartition ids => (c.deliverMessagesPartition deliveryFuel ids).getD c
  | .partition group1 group2 => { c with partitionGroups := some (group1, group2) }
  | .partitionNode v => { c with partitionGroups := some ([v], c.nodes.keys.filter (· ≠ v)) }
  | .healPartition => { c with partitionGroups := none }
  | .clearMessageLog => { c with messageLog := [] }

/-! ## One event -/

section

variable {c : TimelessTestCluster P SM} {u v : NodeId} {n : TestNode P SM} {ev : Event P}

/-- Every node is in its place and has nothing left to send. -/
def Wired (c : TimelessTestCluster P SM) : Prop :=
  ∀ v n, c.nodes.get v = some n → n.id = v ∧ n.transport = []

/-- What waits for a node. -/
def waiting (c : TimelessTestCluster P SM) (v : NodeId) : List (NodeId × RaftMsg P) :=
  c.messageBroker.waiting v

omit [StateMachine SM P] in
theorem waiting_enqueueAll (id v : NodeId) :
    ∀ (outs : List (Outgoing P (InMemoryStorage P))) (b : MessageBroker P),
      (outs.foldl (fun b o => b.enqueue id o.target o.msg) b).waiting v =
        b.waiting v ++ (outs.filter (·.target = v)).map fun o => (id, o.msg)
  | [], b => by simp
  | o :: outs, b => by
    rw [List.foldl_cons, waiting_enqueueAll id v outs]
    by_cases ho : o.target = v
    · subst ho
      simp
    · have hne : v ≠ o.target := fun h => ho h.symm
      simp [ho, hne]

theorem handle_of_none (h : c.nodes.get v = none) : c.handle v ev = c := by
  unfold handle
  rw [h]

theorem handle_nodes (h : c.nodes.get v = some n) :
    (c.handle v ev).nodes = c.nodes.insert v { n.onEvent .testUtils ev with transport := [] } := by
  unfold handle
  rw [h]

/-- What a node sends while it handles an event joins the queues. -/
theorem handle_waiting (hc : Wired c) (h : c.nodes.get v = some n) (u : NodeId) :
    (c.handle v ev).waiting u =
      c.waiting u ++ ((n.onEvent .testUtils ev).transport.filter (·.target = u)).map
        fun o => (v, o.msg) := by
  have hid : (n.onEvent .testUtils ev).id = v :=
    (RaftNode.onEvent_moves .testUtils n ev).id_eq.trans (hc v n h).1
  unfold handle waiting
  rw [h]
  dsimp only
  rw [hid, waiting_enqueueAll]

theorem handle_partitionGroups : (c.handle v ev).partitionGroups = c.partitionGroups := by
  unfold handle
  split <;> rfl

theorem handle_messageLog : (c.handle v ev).messageLog = c.messageLog := by
  unfold handle
  split <;> rfl

theorem handle_keys : (c.handle v ev).nodes.keys = c.nodes.keys := by
  cases h : c.nodes.get v with
  | none => rw [handle_of_none h]
  | some n =>
    rw [handle_nodes h]
    exact IndexMap.keys_insert_of_mem (IndexMap.mem_keys.mpr ⟨n, h⟩) _

theorem wired_handle (hc : Wired c) (v : NodeId) (ev : Event P) : Wired (c.handle v ev) := by
  cases h : c.nodes.get v with
  | none =>
    rw [handle_of_none h]
    exact hc
  | some n =>
    intro u n' hn'
    rw [handle_nodes h] at hn'
    by_cases hu : u = v
    · subst hu
      rw [IndexMap.get_insert_self, Option.some.injEq] at hn'
      subst hn'
      exact ⟨(RaftNode.onEvent_moves .testUtils n ev).id_eq.trans (hc u n h).1, rfl⟩
    · rw [IndexMap.get_insert_ne _ hu] at hn'
      exact hc u n' hn'

theorem wired_deliver (hc : Wired c) (p : Packet P) : Wired (c.deliver p) :=
  wired_handle (c := { c with messageLog := c.messageLog ++ [p] }) hc _ _

end

end TimelessTestCluster

end MetalRaft
