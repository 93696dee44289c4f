import MetalRaft.MessageHandler
import MetalRaft.Run

/-!
# Clusters

A cluster as the validation harness builds it (`validation/src/timeless_test_cluster.rs`, with
the `MessageBroker` of `test-utils`): nodes over in-memory storages, and the messages in flight
in the order in which they were sent.

* `Cluster.step` — one action: a delivery, a loss or a duplication of the `k`-th message in
  flight, a timer, a client command, a configuration change, a restart from the storage, or the
  passing of time.
* `Reachable d ok c` — `c` is reached from the start of deployment `d` by admitted actions.
* `FixedMembership`, `AtMostOnce`, `InOrder`, `NoSnapshot` — the assumptions about runs.
-/

set_option autoImplicit false

namespace MetalRaft

open Transition

/-- A cluster to be run: distinct members, each started with a list of all the others, and the
parameters of every node. -/
structure Deployment (SM : Type) where
  members : List NodeId
  nodup : members.Nodup
  peers : NodeId → List NodeId
  peers_perm : ∀ v ∈ members, (v :: peers v).Perm members
  snapshotThreshold : NodeId → Nat
  leaseDurationMillis : NodeId → Nat
  freshMachine : SM

structure Packet (P : Type) where
  src : NodeId
  dst : NodeId
  msg : RaftMsg P

/-- A node over the storage of the test realization. -/
abbrev TestNode (P SM : Type) := RaftNode P (InMemoryStorage P) SM

/-- `network` holds the messages in flight, `messageLog` every message ever sent. -/
structure Cluster (P SM : Type) where
  nodes : NodeId → TestNode P SM
  network : List (Packet P)
  messageLog : List (Packet P)

inductive Action (P : Type) where
  | deliver (k : Nat)
  | lose (k : Nat)
  | duplicate (k : Nat)
  | timer (v : NodeId) (kind : TimerKind)
  | client (v : NodeId) (payload : P)
  | configChange (v : NodeId) (change : ConfigurationChange)
  | restart (v : NodeId)
  | advance (millis : Nat)
  deriving DecidableEq

section

variable {P SM : Type} [StateMachine SM P]

namespace RaftNode

/-- The node as the builder makes it over a storage. -/
def boot (d : Deployment SM) (v : NodeId) (storage : InMemoryStorage P) (observer : Observer P)
    (clock : Nat) : TestNode P SM :=
  newFromBuilder .testUtils v storage d.freshMachine ⟨none, none, clock⟩ [] (d.peers v) observer
    (d.snapshotThreshold v) clock (d.leaseDurationMillis v)

/-- A crash followed by a restart: the storage is kept, the rest is built anew. -/
def restart (d : Deployment SM) (n : TestNode P SM) : TestNode P SM :=
  boot d n.id n.storage n.observer n.leaderLease.clock

def advanceClock (n : TestNode P SM) (millis : Nat) : TestNode P SM :=
  let timers := n.election.timerService
  { n with
    election := { n.election with timerService := { timers with clock := timers.clock + millis } }
    leaderLease := { n.leaderLease with clock := n.leaderLease.clock + millis } }

/-- What the node has handed to the transport, as packets on its links. -/
def outbox (n : TestNode P SM) : List (Packet P) :=
  n.transport.map fun o => ⟨n.id, o.target, o.msg⟩

end RaftNode

namespace Cluster

def init (d : Deployment SM) : Cluster P SM :=
  ⟨fun v => RaftNode.boot d v .new ⟨[]⟩ 0, [], []⟩

/-- Node `v` is in state `n`, and what `n` has handed to the transport is in flight. -/
def withNode (c : Cluster P SM) (v : NodeId) (n : TestNode P SM) : Cluster P SM :=
  ⟨Function.update c.nodes v { n with transport := [] }, c.network ++ n.outbox,
    c.messageLog ++ n.outbox⟩

/-- Node `v` handles an event; its messages join those in flight. -/
def dispatch (c : Cluster P SM) (v : NodeId) (event : Event P) : Cluster P SM :=
  c.withNode v ((c.nodes v).onEvent .testUtils event)

def step (d : Deployment SM) (c : Cluster P SM) : Action P → Cluster P SM
  | .deliver k =>
    match c.network[k]? with
    | none => c
    | some p =>
      let c := { c with network := c.network.eraseIdx k }
      if p.dst ∈ d.members then c.dispatch p.dst (.message p.src p.msg) else c
  | .lose k => { c with network := c.network.eraseIdx k }
  | .duplicate k => { c with network := c.network ++ c.network[k]?.toList }
  | .timer v kind => if v ∈ d.members then c.dispatch v (.timerFired kind) else c
  | .client v payload => if v ∈ d.members then c.dispatch v (.clientCommand payload) else c
  | .configChange v change => if v ∈ d.members then c.dispatch v (.configChange change) else c
  | .restart v => { c with nodes := Function.update c.nodes v ((c.nodes v).restart d) }
  | .advance millis => { c with nodes := fun v => (c.nodes v).advanceClock millis }

/-- The node that handles an event in an action, and the event. -/
def handled (d : Deployment SM) (c : Cluster P SM) : Action P → Option (NodeId × Event P)
  | .deliver k =>
    match c.network[k]? with
    | none => none
    | some p => if p.dst ∈ d.members then some (p.dst, .message p.src p.msg) else none
  | .timer v kind => if v ∈ d.members then some (v, .timerFired kind) else none
  | .client v payload => if v ∈ d.members then some (v, .clientCommand payload) else none
  | .configChange v change => if v ∈ d.members then some (v, .configChange change) else none
  | _ => none

/-- The state after a list of actions. -/
def play (d : Deployment SM) (actions : List (Action P)) : Cluster P SM :=
  actions.foldl (step d) (init d)

end Cluster

/-! ## Runs and what may be assumed about them -/

/-- `c` is reached from the start by actions that were admitted when they were taken. -/
def Reachable (d : Deployment SM) (ok : Cluster P SM → Action P → Prop) (c : Cluster P SM) : Prop :=
  Run (Cluster.step d) ok (Cluster.init d) c

/-- No configuration change is submitted. -/
def FixedMembership (_ : Cluster P SM) : Action P → Prop
  | .configChange _ _ => False
  | _ => True

/-- A message in flight is delivered at most once. -/
def AtMostOnce (_ : Cluster P SM) : Action P → Prop
  | .duplicate _ => False
  | _ => True

/-- A delivered message is the oldest one in flight on its link. -/
def InOrder (c : Cluster P SM) : Action P → Prop
  | .deliver k => ∀ j < k, ∀ p ∈ c.network[j]?, ∀ q ∈ c.network[k]?,
      ¬ (p.src = q.src ∧ p.dst = q.dst)
  | _ => True

/-- The action leaves every member without a snapshot. -/
def NoSnapshot (d : Deployment SM) (c : Cluster P SM) (a : Action P) : Prop :=
  ∀ v ∈ d.members, ((c.step d a).nodes v).storage.snapshot = none

/-- `Q` holds of every event handled, in the state in which it is handled. -/
def OnEvents (d : Deployment SM) (Q : Cluster P SM → NodeId → Event P → Prop) (c : Cluster P SM)
    (a : Action P) : Prop :=
  ∀ v ev, (c.handled d a) = some (v, ev) → Q c v ev

instance (c : Cluster P SM) : (a : Action P) → Decidable (FixedMembership c a)
  | .configChange _ _ => isFalse id
  | .deliver _ | .lose _ | .duplicate _ | .timer _ _ | .client _ _ | .restart _ | .advance _ =>
    isTrue trivial

instance (c : Cluster P SM) : (a : Action P) → Decidable (AtMostOnce c a)
  | .duplicate _ => isFalse id
  | .deliver _ | .lose _ | .timer _ _ | .client _ _ | .configChange _ _ | .restart _ | .advance _ =>
    isTrue trivial

instance (c : Cluster P SM) : (a : Action P) → Decidable (InOrder c a)
  | .deliver k => inferInstanceAs (Decidable (∀ j < k, ∀ p ∈ c.network[j]?, ∀ q ∈ c.network[k]?,
      ¬ (p.src = q.src ∧ p.dst = q.dst)))
  | .lose _ | .duplicate _ | .timer _ _ | .client _ _ | .configChange _ _ | .restart _
  | .advance _ => isTrue trivial

instance (d : Deployment SM) (c : Cluster P SM) (a : Action P) : Decidable (NoSnapshot d c a) :=
  inferInstanceAs (Decidable (∀ v ∈ d.members, ((c.step d a).nodes v).storage.snapshot = none))

instance (d : Deployment SM) (Q : Cluster P SM → NodeId → Event P → Prop)
    [∀ c v ev, Decidable (Q c v ev)] (c : Cluster P SM) (a : Action P) :
    Decidable (OnEvents d Q c a) :=
  match h : c.handled d a with
  | none => isTrue fun _ _ h' => nomatch h.symm.trans h'
  | some (v, ev) => decidable_of_iff (Q c v ev)
    ⟨fun hQ _ _ h' => by cases h.symm.trans h'; exact hQ, fun hQ => hQ v ev h⟩

theorem play_reachable {d : Deployment SM} {ok : Cluster P SM → Action P → Prop}
    (actions : List (Action P)) (h : Admitted (Cluster.step d) ok (Cluster.init d) actions) :
    Reachable d ok (Cluster.play d actions) :=
  h.run actions

end

/-! ## A sample state machine -/

/-- A state machine that adds up bytes. -/
structure Adder where
  total : UInt8
  deriving DecidableEq

instance : StateMachine Adder UInt8 where
  apply s payload := ⟨s.total + payload⟩
  get s _ := some (toString s.total)
  createSnapshot s := [s.total]
  restoreFromSnapshot s data :=
    match data with
    | [total] => (⟨total⟩, .ok ())
    | _ => (s, .error .deserializationFailed)
  createSnapshot_length _ := by simp [usizeMax]

/-- Nodes that know each other and share one snapshot threshold. -/
def Deployment.plain (members : List NodeId) (nodup : members.Nodup) (threshold : Nat) :
    Deployment Adder where
  members := members
  nodup := nodup
  peers v := members.erase v
  peers_perm _ hv := (List.perm_cons_erase hv).symm
  snapshotThreshold _ := threshold
  leaseDurationMillis _ := 100
  freshMachine := ⟨0⟩

end MetalRaft
