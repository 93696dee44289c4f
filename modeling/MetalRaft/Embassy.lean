import MetalRaft.Cluster
import MetalRaft.EmbassyStorage

/-!
# The embassy cluster and its clients

Five `EmbassyNode`s (`embassy/src/embassy_node.rs`), each a loop around a node of the core, and
the tasks that call `RaftClient::submit_command` (`raft_client.rs`).

* `EmbassyNode` — a client request waits in `pendingCommands` under the index of its entry until
  the commit index has passed it.
* `Call` — one call of `submit_command`, with up to three attempts.
* `EmbassyCluster.step` — one step of a task: between two steps it has awaited something.  All
  calls read their answers from one static channel of capacity one.

The LED, the log messages and `GetLeader`, which no client sends, are left out; a message may be
taken from its link in any order.
-/

set_option autoImplicit false

namespace MetalRaft

/-! ## Channels and maps -/

/-- `try_send` on a channel of capacity one, its result ignored. -/
def trySend {α : Type} (channel : Option α) (x : α) : Option α :=
  match channel with
  | none => some x
  | some y => some y

/-- `BTreeMap::insert`, on the entries in the order of their keys. -/
def insertSorted {α : Type} (key : Nat) (x : α) : List (Nat × α) → List (Nat × α)
  | [] => [(key, x)]
  | (k, y) :: m =>
    if key < k then (key, x) :: (k, y) :: m
    else if key = k then (key, x) :: m
    else (k, y) :: insertSorted key x m

inductive ClusterError where
  | notLeader (hint : Option NodeId)
  | channelFull
  | timeout
  deriving DecidableEq

/-- The sender half of the static response channel.  It names the call that it was handed out to,
which no code can see: all of them lead to the same channel. -/
abbrev ResponseTx := Nat

inductive ClientRequest (P : Type) where
  | write (payload : P) (responseTx : ResponseTx)
  | read (key : String)

/-- What lies in the response channel, and through which sender it came. -/
structure Reply where
  responseTx : ResponseTx
  result : Except ClusterError Unit

/-! ## `embassy_node.rs` -/

/-- Where the loop of `run` stands: at `select4`, at sending what it has drained from the outbox,
or behind the loop. -/
inductive LoopPhase (P : Type) where
  | selecting
  | sending (drained : List (NodeId × RaftMsg P))
  | stopped

structure EmbassyNode (P S SM : Type) where
  raftNode : RaftNode P S SM
  clientRx : List (ClientRequest P)
  pendingCommands : List (Nat × ResponseTx)
  phase : LoopPhase P

/-- The two static response channels. -/
structure Responses where
  write : Option Reply
  read : Option (Except ClusterError (Option String))

/-- The nodes that `EmbassyNode::new` takes for the cluster. -/
def embassyMembers : List NodeId := [1, 2, 3, 4, 5]

def clientChannelSize : Nat := 4

namespace EmbassyNode

variable {P S SM : Type} [Storage S P] [StateMachine SM P]

/-- With the defaults of `RaftNodeBuilder` for the snapshot threshold and the lease. -/
def new (nodeId : NodeId) (storage : S) (stateMachine : SM) : EmbassyNode P S SM :=
  let peers := (embassyMembers.filter (· ≠ nodeId)).foldl (pushWithin Realization.embassy.nodes) []
  ⟨.newFromBuilder .embassy nodeId storage stateMachine ⟨none, none, 0⟩ [] peers ⟨[]⟩ 10 0 5000,
    [], [], .selecting⟩

def handleClientRequest (n : EmbassyNode P S SM) (responses : Responses) :
    ClientRequest P → EmbassyNode P S SM × Responses
  | .write payload responseTx =>
    let submitted := n.raftNode.submitClientCommand .embassy payload
    let n := { n with raftNode := submitted.1 }
    match submitted.2 with
    | .ok index =>
      ({ n with pendingCommands := insertSorted index responseTx n.pendingCommands }, responses)
    | .error e =>
      (n, { responses with
        write := trySend responses.write ⟨responseTx, .error (.notLeader e.leaderHint)⟩ })
  | .read key =>
    match n.raftNode.readLinearizable key with
    | .ok value => (n, { responses with read := trySend responses.read (.ok value) })
    | .error e =>
      (n, { responses with
        read := trySend responses.read (.error (.notLeader e.leaderHint)) })

/-- One round of the second loop of `process_committed_requests`. -/
def complete (st : List (Nat × ResponseTx) × Option Reply) (index : Nat) :
    List (Nat × ResponseTx) × Option Reply :=
  match st.1.find? (·.1 = index) with
  | some x => (st.1.filter (·.1 ≠ index), trySend st.2 ⟨x.2, .ok ()⟩)
  | none => st

def processCommittedRequests (n : EmbassyNode P S SM) (responses : Responses) :
    EmbassyNode P S SM × Responses :=
  let commitIndex := n.raftNode.replication.commitIndex
  let completed := (n.pendingCommands.takeWhile (·.1 ≤ commitIndex)).map (·.1)
  let st := completed.foldl complete (n.pendingCommands, responses.write)
  ({ n with pendingCommands := st.1 }, { responses with write := st.2 })

/-- The outbox of the transport is drained at once; what was in it is then sent one by one. -/
def drain (n : EmbassyNode P S SM) : EmbassyNode P S SM :=
  { n with
    phase := .sending (n.raftNode.transport.map fun o => (o.target, o.msg))
    raftNode := { n.raftNode with transport := [] } }

end EmbassyNode

/-! ## `raft_client.rs` -/

/-- Where a call of `submit_command` stands: before an attempt (past the pause of the last one), at
`receive` under the timeout of five seconds, or at its end. -/
inductive CallPhase where
  | ready
  | waiting
  | returned (result : Except ClusterError Unit)
  deriving DecidableEq

structure Call (P : Type) where
  payload : P
  targetNode : Nat
  attempt : Nat
  phase : CallPhase
  deriving DecidableEq

namespace Call

variable {P : Type}

def maxRetries : Nat := 3

def new (payload : P) : Call P := ⟨payload, 0, 0, .ready⟩

/-- What a call makes of an answer. -/
def receive (call : Call P) : Except ClusterError Unit → Call P
  | .ok () => { call with phase := .returned (.ok ()) }
  | .error (.notLeader (some leaderId)) =>
    let call := { call with targetNode := leaderId - 1, attempt := call.attempt + 1 }
    if call.attempt < maxRetries then { call with phase := .ready }
    else { call with phase := .returned (.error (.notLeader none)) }
  | .error err => { call with phase := .returned (.error err) }

end Call

/-! ## The cluster -/

/-- The arms of `select4` other than the client's. -/
inductive Arm (P : Type) where
  | cancel
  | timer (kind : TimerKind)
  | message (k : Nat)

inductive EmbassyAction (P : Type) where
  | submit (payload : P)
  | attempt (k : Nat)
  | receive (k : Nat)
  | timeout (k : Nat)
  | read (v : NodeId) (key : String)
  | client (v : NodeId)
  | select (v : NodeId) (arm : Arm P)
  | send (v : NodeId)
  | process (v : NodeId)
  | lose (k : Nat)
  | advance (millis : Nat)

structure EmbassyCluster (P S SM : Type) where
  nodes : NodeId → EmbassyNode P S SM
  network : List (Packet P)
  responses : Responses
  calls : List (Call P)

namespace EmbassyCluster

variable {P S SM : Type} [Storage S P] [StateMachine SM P]

def init (storage : NodeId → S) (stateMachine : SM) : EmbassyCluster P S SM :=
  ⟨fun v => .new v (storage v) stateMachine, [], ⟨none, none⟩, []⟩

omit [Storage S P] [StateMachine SM P] in
def withNode (c : EmbassyCluster P S SM) (v : NodeId) (n : EmbassyNode P S SM) :
    EmbassyCluster P S SM :=
  { c with nodes := Function.update c.nodes v n }

section

omit [Storage S P] [StateMachine SM P]

variable {c : EmbassyCluster P S SM} {u v : NodeId} {n : EmbassyNode P S SM}

@[simp] theorem withNode_nodes_self : (c.withNode v n).nodes v = n := Function.update_self ..

@[simp] theorem withNode_nodes_ne (h : u ≠ v) : (c.withNode v n).nodes u = c.nodes u :=
  Function.update_of_ne h _ _

end

/-- The next request that node `v` would take. -/
def nextRequest (c : EmbassyCluster P S SM) (v : NodeId) : Option (ClientRequest P) :=
  match (c.nodes v).phase with
  | .selecting => (c.nodes v).clientRx.head?
  | _ => none

/-- The event that an arm of node `v` would hand to the core. -/
def nextEvent (c : EmbassyCluster P S SM) (v : NodeId) : Arm P → Option (Event P)
  | .cancel => none
  | .timer kind =>
    match (c.nodes v).phase with
    | .selecting => some (.timerFired kind)
    | _ => none
  | .message k =>
    match (c.nodes v).phase, c.network[k]? with
    | .selecting, some p => if p.dst = v then some (.message p.src p.msg) else none
    | _, _ => none

/-- The client arm of `select4` at node `v`. -/
def takeRequest (c : EmbassyCluster P S SM) (v : NodeId) : EmbassyCluster P S SM :=
  match c.nextRequest v with
  | some request =>
    let n := c.nodes v
    let handled := { n with clientRx := n.clientRx.tail }.handleClientRequest c.responses request
    { c.withNode v handled.1.drain with responses := handled.2 }
  | none => c

def takeEvent (c : EmbassyCluster P S SM) (v : NodeId) (arm : Arm P) : EmbassyCluster P S SM :=
  match c.nextEvent v arm with
  | some ev =>
    let n := c.nodes v
    let c := c.withNode v { n with raftNode := n.raftNode.onEvent .embassy ev }.drain
    match arm with
    | .message k => { c with network := c.network.eraseIdx k }
    | _ => c
  | none =>
    match arm, (c.nodes v).phase with
    | .cancel, .selecting => c.withNode v { c.nodes v with phase := .stopped }
    | _, _ => c

/-- One attempt of call `k`: it empties the response channel and sends its request. -/
def attempt (c : EmbassyCluster P S SM) (k : Nat) : EmbassyCluster P S SM :=
  match c.calls[k]? with
  | some call =>
    match call.phase with
    | .ready =>
      let v := call.targetNode + 1
      if v ∈ embassyMembers then
        let c := { c with responses := { c.responses with write := none } }
        let n := c.nodes v
        if n.clientRx.length < clientChannelSize then
          { c.withNode v { n with clientRx := n.clientRx ++ [.write call.payload k] } with
            calls := c.calls.set k { call with phase := .waiting } }
        else
          { c with calls := c.calls.set k { call with phase := .returned (.error .channelFull) } }
      else c
    | _ => c
  | none => c

def receive (c : EmbassyCluster P S SM) (k : Nat) : EmbassyCluster P S SM :=
  match c.calls[k]?, c.responses.write with
  | some call, some reply =>
    match call.phase with
    | .waiting =>
      { c with
        calls := c.calls.set k (call.receive reply.result)
        responses := { c.responses with write := none } }
    | _ => c
  | _, _ => c

def timeout (c : EmbassyCluster P S SM) (k : Nat) : EmbassyCluster P S SM :=
  match c.calls[k]?, c.responses.write with
  | some call, none =>
    match call.phase with
    | .waiting =>
      { c with calls := c.calls.set k { call with phase := .returned (.error .timeout) } }
    | _ => c
  | _, _ => c

/-- The next drained message goes on its way. -/
def send (c : EmbassyCluster P S SM) (v : NodeId) : EmbassyCluster P S SM :=
  match (c.nodes v).phase with
  | .sending ((target, msg) :: rest) =>
    { c.withNode v { c.nodes v with phase := .sending rest } with
      network := c.network ++ [⟨v, target, msg⟩] }
  | _ => c

/-- The end of a round of the loop, once everything is sent. -/
def process (c : EmbassyCluster P S SM) (v : NodeId) : EmbassyCluster P S SM :=
  match (c.nodes v).phase with
  | .sending [] =>
    let processed := (c.nodes v).processCommittedRequests c.responses
    { c.withNode v { processed.1 with phase := .selecting } with responses := processed.2 }
  | _ => c

def step (c : EmbassyCluster P S SM) : EmbassyAction P → EmbassyCluster P S SM
  | .submit payload => { c with calls := c.calls ++ [.new payload] }
  | .attempt k => c.attempt k
  | .receive k => c.receive k
  | .timeout k => c.timeout k
  | .read v key =>
    let n := c.nodes v
    if n.clientRx.length < clientChannelSize then
      c.withNode v { n with clientRx := n.clientRx ++ [.read key] }
    else c
  | .client v => c.takeRequest v
  | .select v arm => c.takeEvent v arm
  | .send v => c.send v
  | .process v => c.process v
  | .lose k => { c with network := c.network.eraseIdx k }
  | .advance millis =>
    { c with
      nodes := fun v =>
        let n := c.nodes v
        let lease := n.raftNode.leaderLease
        { n with
          raftNode := { n.raftNode with leaderLease := { lease with clock := lease.clock + millis } } } }

end EmbassyCluster

end MetalRaft
