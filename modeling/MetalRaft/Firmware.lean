import MetalRaft.Embassy
import MetalRaft.EmbassyStateMachine
import MetalRaft.TimerServices

/-!
# The firmware

The five node tasks that `main.rs` spawns, over an `AsyncTransport`
(`embassy/src/configurations/transport/async_transport.rs`): how `EmbassyNode::run` picks the next
event, and what it waits for.

* `AsyncTransport` — the trait; the transports of all nodes and the tasks behind them are one state.
* `ChannelTransportHub` — the transport of the `memory_channel` configuration.
* `Firmware.ready` — the arms of `select4` that are ready when a node is polled, in their order.
* `Firmware.step` — one step of a task; what clients send, and when they take their answers, is
  left open.

The token and the timers are looked at every 10 ms while a node waits, and at once when it has just
come round its loop.
-/

set_option autoImplicit false

namespace MetalRaft

/-! ## `async_transport.rs` -/

/-- A `send` that has to wait fails. -/
class AsyncTransport (T : Type) (P : outParam Type) where
  Task : Type
  run : T → Task → T
  send : T → NodeId → NodeId → RaftMsg P → Option T
  recv : T → NodeId → Option ((NodeId × RaftMsg P) × T)

/-! ## `channel/channel_transport_hub.rs` -/

/-- What waits in the channel of each node; an `Envelope` is a `Packet`. -/
structure ChannelTransportHub (P : Type) where
  channels : NodeId → List (Packet P)

namespace ChannelTransportHub

variable {P : Type}

def channelSize : Nat := 32

def new : ChannelTransportHub P := ⟨fun _ => []⟩

def send (hub : ChannelTransportHub P) (nodeId target : NodeId) (message : RaftMsg P) :
    Option (ChannelTransportHub P) :=
  if target = 0 ∨ target > 5 then some hub
  else
    let channel := hub.channels target
    if channel.length < channelSize then
      some ⟨Function.update hub.channels target (channel ++ [⟨nodeId, target, message⟩])⟩
    else none

def recv (hub : ChannelTransportHub P) (nodeId : NodeId) :
    Option ((NodeId × RaftMsg P) × ChannelTransportHub P) :=
  match hub.channels nodeId with
  | [] => none
  | envelope :: rest =>
    some ((envelope.src, envelope.msg), ⟨Function.update hub.channels nodeId rest⟩)

instance : AsyncTransport (ChannelTransportHub P) P where
  Task := Empty
  run hub _ := hub
  send := send
  recv := recv

end ChannelTransportHub

/-! ## The tasks -/

/-- The outcome of `select4`. -/
inductive Selected (P : Type) where
  | cancelled
  | client (request : ClientRequest P)
  | timer (kind : TimerKind)
  | message (sender : NodeId) (msg : RaftMsg P)

/-- The event that the node of the core is to handle. -/
def Selected.event {P : Type} : Selected P → Option (Event P)
  | .cancelled | .client (.read _) => none
  | .client (.write payload _) => some (.clientCommand payload)
  | .timer kind => some (.timerFired kind)
  | .message sender msg => some (.message sender msg)

/-- `paused v` is the end of the 10 ms for which the token and the timers of node `v` are not looked
at; there is none when the node has come round its loop. -/
structure Firmware (P S SM T : Type) where
  nodes : NodeId → EmbassyNode P S SM
  transport : T
  paused : NodeId → Option Nat
  responses : Responses
  cancelled : Bool
  now : Nat

/-- What can happen; in `poll`, `expired` is what the timer service of the node reports, and the
`arm`-th future that is ready is taken. -/
inductive FirmwareAction (P Task : Type) where
  | poll (v : NodeId) (arm : Nat) (expired : List TimerKind)
  | send (v : NodeId)
  | process (v : NodeId)
  | transport (task : Task)
  | request (v : NodeId) (request : ClientRequest P)
  | takeWrite
  | takeRead
  | shutdown
  | advance (millis : Nat)

namespace RaftNode

variable {P S SM : Type}

/-- The clock that the timers and the lease read has moved on. -/
def aged (n : RaftNode P S SM) (millis : Nat) : RaftNode P S SM :=
  let timers := n.election.timerService
  { n with
    election := { n.election with timerService := { timers with clock := timers.clock + millis } }
    leaderLease := { n.leaderLease with clock := n.leaderLease.clock + millis } }

end RaftNode

instance (p : Pace) (expired : List TimerKind) (r : TimerService) :
    Decidable (InTime p expired r) :=
  decidable_of_iff (expired.Sublist [.election, .heartbeat] ∧
      (.election ∈ expired → ∃ reset ∈ r.election, reset + p.electionMin ≤ r.clock) ∧
      ((∃ reset ∈ r.election, reset + p.electionMax ≤ r.clock) → .election ∈ expired) ∧
      (.heartbeat ∈ expired ↔ ∃ reset ∈ r.heartbeat, reset + p.heartbeat ≤ r.clock))
    ⟨fun ⟨h₁, h₂, h₃, h₄⟩ => ⟨h₁, h₂, h₃, h₄⟩, fun ⟨h₁, h₂, h₃, h₄⟩ => ⟨h₁, h₂, h₃, h₄⟩⟩

namespace Firmware

variable {P S SM T : Type} [Storage S P] [StateMachine SM P] [AsyncTransport T P]

/-- The nodes over their storages. -/
def init (transport : T) (storage : NodeId → S) (stateMachine : SM) : Firmware P S SM T :=
  ⟨fun v => .new v (storage v) stateMachine, transport, fun _ => none, ⟨none, none⟩, false, 0⟩

section

omit [Storage S P] [StateMachine SM P] [AsyncTransport T P]

def withNode (f : Firmware P S SM T) (v : NodeId) (n : EmbassyNode P S SM) : Firmware P S SM T :=
  { f with nodes := Function.update f.nodes v n }

/-- The token and the timers are looked at. -/
def Awake (f : Firmware P S SM T) (v : NodeId) : Prop := ∀ t ∈ f.paused v, t ≤ f.now

instance (f : Firmware P S SM T) (v : NodeId) : Decidable (f.Awake v) :=
  inferInstanceAs (Decidable (∀ t ∈ f.paused v, t ≤ f.now))

variable {f : Firmware P S SM T} {u v : NodeId} {n : EmbassyNode P S SM}

@[simp] theorem withNode_nodes_self : (f.withNode v n).nodes v = n := Function.update_self ..

@[simp] theorem withNode_nodes_ne (h : u ≠ v) : (f.withNode v n).nodes u = f.nodes u :=
  Function.update_of_ne h _ _

end

/-- The futures of `select4` that are ready, in their order. -/
def ready (f : Firmware P S SM T) (v : NodeId) (expired : List TimerKind) : List (Selected P) :=
  let cancel := if f.Awake v ∧ f.cancelled then some .cancelled else none
  let client := (f.nodes v).clientRx.head?.map .client
  let timer := if f.Awake v then expired.head?.map .timer else none
  let transport := (AsyncTransport.recv f.transport v).map fun r => .message r.1.1 r.1.2
  [cancel, client, timer, transport].filterMap id

/-- The node after an event, with its messages drained. -/
def handle (f : Firmware P S SM T) (v : NodeId) (event : Event P) : Firmware P S SM T :=
  let n := f.nodes v
  f.withNode v { n with raftNode := n.raftNode.onEvent .embassy event }.drain

/-- The body of the loop up to the first message that is sent. -/
def take (f : Firmware P S SM T) (v : NodeId) : Selected P → Firmware P S SM T
  | .cancelled => f.withNode v { f.nodes v with phase := .stopped }
  | .client request =>
    let n := f.nodes v
    let handled := { n with clientRx := n.clientRx.tail }.handleClientRequest f.responses request
    { f.withNode v handled.1.drain with responses := handled.2 }
  | .timer kind => f.handle v (.timerFired kind)
  | .message sender msg =>
    match AsyncTransport.recv f.transport v with
    | some r => { f.handle v (.message sender msg) with transport := r.2 }
    | none => f

/-- A poll of `select4`.  With nothing ready the token and the timers are put off. -/
def poll (f : Firmware P S SM T) (v : NodeId) (arm : Nat) (expired : List TimerKind) :
    Firmware P S SM T :=
  match (f.nodes v).phase with
  | .selecting =>
    match f.ready v expired with
    | [] =>
      if f.Awake v then { f with paused := Function.update f.paused v (some (f.now + 10)) } else f
    | first :: others =>
      match (first :: others)[arm]? with
      | some selected => { f.take v selected with paused := Function.update f.paused v none }
      | none => f
  | _ => f

/-- The next drained message is handed to the transport. -/
def send (f : Firmware P S SM T) (v : NodeId) : Firmware P S SM T :=
  match (f.nodes v).phase with
  | .sending ((target, msg) :: rest) =>
    match AsyncTransport.send f.transport v target msg with
    | some transport =>
      { f.withNode v { f.nodes v with phase := .sending rest } with transport := transport }
    | none => f
  | _ => f

/-- The end of a round of the loop, once everything is sent. -/
def process (f : Firmware P S SM T) (v : NodeId) : Firmware P S SM T :=
  match (f.nodes v).phase with
  | .sending [] =>
    let processed := (f.nodes v).processCommittedRequests f.responses
    { f.withNode v { processed.1 with phase := .selecting } with responses := processed.2 }
  | _ => f

def step (f : Firmware P S SM T) : FirmwareAction P (AsyncTransport.Task T) → Firmware P S SM T
  | .poll v arm expired => if v ∈ embassyMembers then f.poll v arm expired else f
  | .send v => if v ∈ embassyMembers then f.send v else f
  | .process v => if v ∈ embassyMembers then f.process v else f
  | .transport task => { f with transport := AsyncTransport.run f.transport task }
  | .request v request =>
    let n := f.nodes v
    if n.clientRx.length < clientChannelSize then
      f.withNode v { n with clientRx := n.clientRx ++ [request] }
    else f
  | .takeWrite => { f with responses := { f.responses with write := none } }
  | .takeRead => { f with responses := { f.responses with read := none } }
  | .shutdown => { f with cancelled := true }
  | .advance millis =>
    { f with
      nodes := fun v => { f.nodes v with raftNode := (f.nodes v).raftNode.aged millis }
      now := f.now + millis }

omit [Storage S P] [StateMachine SM P] in
/-- Timers are reported as `EmbassyTimer` does: an election timeout lasts between 300 and 600 ms, and
heartbeats are due every 100 ms. -/
def Timely (f : Firmware P S SM T) : FirmwareAction P (AsyncTransport.Task T) → Prop
  | .poll v _ expired =>
    InTime ⟨electionTimeoutMinMs, electionTimeoutMaxMs, heartbeatTimeoutMs⟩ expired
      (f.nodes v).raftNode.election.timerService
  | _ => True

instance (f : Firmware P S SM T) :
    (a : FirmwareAction P (AsyncTransport.Task T)) → Decidable (f.Timely a)
  | .poll v _ expired =>
    inferInstanceAs (Decidable (InTime _ expired (f.nodes v).raftNode.election.timerService))
  | .send _ | .process _ | .transport _ | .request _ _ | .takeWrite | .takeRead | .shutdown
  | .advance _ => isTrue trivial

/-! ## What a step does -/

section

variable {f : Firmware P S SM T} {u v : NodeId} {n : EmbassyNode P S SM}
  {selected : Selected P} {expired : List TimerKind} {ev : Event P}

omit [Storage S P] [StateMachine SM P] [AsyncTransport T P] in
theorem withNode_others (u : NodeId) (hu : u ≠ v) : (f.withNode v n).nodes u = f.nodes u :=
  withNode_nodes_ne hu

/-- What a future that is ready has to offer. -/
def Offers (f : Firmware P S SM T) (v : NodeId) (expired : List TimerKind) : Selected P → Prop
  | .cancelled => f.cancelled = true
  | .client request => (f.nodes v).clientRx.head? = some request
  | .timer kind => expired.head? = some kind
  | .message sender msg => ∃ t, AsyncTransport.recv f.transport v = some ((sender, msg), t)

omit [StateMachine SM P] [Storage S P] in
theorem offers_of_ready (h : selected ∈ f.ready v expired) : f.Offers v expired selected := by
  unfold ready at h
  simp only [List.mem_filterMap, List.mem_cons, List.not_mem_nil, or_false, id,
    exists_eq_right] at h
  rcases h with h | h | h | h
  · rw [eq_comm, Option.ite_none_right_eq_some] at h
    obtain ⟨⟨-, hcancelled⟩, heq⟩ := h
    cases heq
    exact hcancelled
  · obtain ⟨request, hhead, rfl⟩ := Option.map_eq_some_iff.mp h.symm
    exact hhead
  · rw [eq_comm, Option.ite_none_right_eq_some] at h
    obtain ⟨kind, hhead, rfl⟩ := Option.map_eq_some_iff.mp h.2
    exact hhead
  · obtain ⟨⟨⟨sender, msg⟩, t⟩, hrecv, rfl⟩ := Option.map_eq_some_iff.mp h.symm
    exact ⟨t, hrecv⟩

omit [AsyncTransport T P] in
/-- What a client request does to the node of the core. -/
theorem raftNode_handleClientRequest (n : EmbassyNode P S SM) (responses : Responses)
    (request : ClientRequest P) : (n.handleClientRequest responses request).1.raftNode =
      match request with
      | .write payload _ => n.raftNode.onEvent .embassy (.clientCommand payload)
      | .read _ => n.raftNode := by
  unfold EmbassyNode.handleClientRequest
  cases request with
  | write =>
    dsimp only
    split <;> rfl
  | read =>
    dsimp only
    split <;> rfl

theorem nodes_take_ne (hu : u ≠ v) : (f.take v selected).nodes u = f.nodes u := by
  cases selected with
  | message =>
    unfold take
    dsimp only
    split
    · exact withNode_others u hu
    · rfl
  | _ => exact withNode_others u hu

/-- An event is handled, and what the node has to say is drained. -/
theorem take_event (hoffer : f.Offers v expired selected) (hev : selected.event = some ev) :
    ((f.take v selected).nodes v).raftNode =
        { (f.nodes v).raftNode.onEvent .embassy ev with transport := [] } ∧
      ((f.take v selected).nodes v).phase =
        .sending (((f.nodes v).raftNode.onEvent .embassy ev).transport.map
          fun o => (o.target, o.msg)) := by
  have hself : ∀ {n : EmbassyNode P S SM}, (f.withNode v n).nodes v = n := withNode_nodes_self
  cases selected with
  | cancelled => cases hev
  | client request =>
    cases request with
    | read => cases hev
    | write payload responseTx =>
      cases hev
      unfold take
      dsimp only
      rw [hself]
      unfold EmbassyNode.drain
      dsimp only
      rw [raftNode_handleClientRequest]
      exact ⟨rfl, rfl⟩
  | timer kind =>
    cases hev
    unfold take handle
    rw [hself]
    exact ⟨rfl, rfl⟩
  | message sender msg =>
    cases hev
    obtain ⟨t, hrecv⟩ := hoffer
    unfold take handle
    dsimp only
    rw [hrecv]
    dsimp only
    rw [hself]
    exact ⟨rfl, rfl⟩

/-- Nothing is handled. -/
theorem take_quiet (hsilent : (f.nodes v).raftNode.transport = [])
    (hev : selected.event = none) :
    ((f.take v selected).nodes v).raftNode = (f.nodes v).raftNode ∧
      (((f.take v selected).nodes v).phase = .stopped ∨
        ((f.take v selected).nodes v).phase = .sending []) := by
  have hself : ∀ {n : EmbassyNode P S SM}, (f.withNode v n).nodes v = n := withNode_nodes_self
  cases selected with
  | cancelled =>
    unfold take
    rw [hself]
    exact ⟨rfl, Or.inl rfl⟩
  | client request =>
    cases request with
    | write => cases hev
    | read key =>
      unfold take
      dsimp only
      rw [hself]
      unfold EmbassyNode.drain
      dsimp only
      rw [raftNode_handleClientRequest]
      dsimp only
      rw [hsilent]
      refine ⟨?_, Or.inr rfl⟩
      rw [← hsilent]
  | _ => cases hev

/-- What a step makes of node `v`. -/
inductive NodeStep (f : Firmware P S SM T) (v : NodeId) (n : EmbassyNode P S SM) :
    FirmwareAction P (AsyncTransport.Task T) → Prop where
  | rests {a} (core : n.raftNode = (f.nodes v).raftNode) (phase : n.phase = (f.nodes v).phase) :
      NodeStep f v n a
  | takes {arm expired selected} (selecting : (f.nodes v).phase = .selecting)
      (ready : (f.ready v expired)[arm]? = some selected) (taken : n = (f.take v selected).nodes v) :
      NodeStep f v n (.poll v arm expired)
  | sends {first rest t} (sending : (f.nodes v).phase = .sending (first :: rest))
      (handed : AsyncTransport.send f.transport v first.1 first.2 = some t)
      (core : n.raftNode = (f.nodes v).raftNode) (phase : n.phase = .sending rest) :
      NodeStep f v n (.send v)
  | ends (sending : (f.nodes v).phase = .sending [])
      (core : n.raftNode = (f.nodes v).raftNode) (phase : n.phase = .selecting) :
      NodeStep f v n (.process v)
  | ages {millis} (core : n.raftNode = (f.nodes v).raftNode.aged millis)
      (phase : n.phase = (f.nodes v).phase) : NodeStep f v n (.advance millis)

theorem nodeStep_poll (u : NodeId) (arm : Nat) (expired : List TimerKind) :
    NodeStep f v ((f.poll u arm expired).nodes v) (.poll u arm expired) := by
  unfold poll
  split
  · rename_i hselecting
    split
    · split <;> exact .rests rfl rfl
    · rename_i first others hready
      split
      · rename_i selected hselected
        by_cases hv : v = u
        · subst hv
          exact .takes hselecting (hready ▸ hselected) rfl
        · have hsame : ({ f.take u selected with
              paused := Function.update f.paused u none } : Firmware P S SM T).nodes v =
                f.nodes v := nodes_take_ne hv
          exact .rests (congrArg EmbassyNode.raftNode hsame) (congrArg EmbassyNode.phase hsame)
      · exact .rests rfl rfl
  · exact .rests rfl rfl

theorem nodeStep_send (u : NodeId) : NodeStep f v ((f.send u).nodes v) (.send u) := by
  unfold send
  split
  · rename_i target msg rest hphase
    split
    · rename_i t hsent
      by_cases hv : v = u
      · subst hv
        refine .sends hphase hsent ?_ ?_
        · exact (congrArg EmbassyNode.raftNode withNode_nodes_self).trans rfl
        · exact congrArg EmbassyNode.phase withNode_nodes_self
      · exact .rests (congrArg EmbassyNode.raftNode (withNode_nodes_ne hv))
          (congrArg EmbassyNode.phase (withNode_nodes_ne hv))
    · exact .rests rfl rfl
  · exact .rests rfl rfl

theorem nodeStep_process (u : NodeId) : NodeStep f v ((f.process u).nodes v) (.process u) := by
  unfold process
  split
  · rename_i hphase
    by_cases hv : v = u
    · subst hv
      refine .ends hphase ?_ ?_
      · exact (congrArg EmbassyNode.raftNode withNode_nodes_self).trans rfl
      · exact congrArg EmbassyNode.phase withNode_nodes_self
    · exact .rests (congrArg EmbassyNode.raftNode (withNode_nodes_ne hv))
        (congrArg EmbassyNode.phase (withNode_nodes_ne hv))
  · exact .rests rfl rfl

theorem nodeStep (f : Firmware P S SM T) (v : NodeId)
    (a : FirmwareAction P (AsyncTransport.Task T)) : NodeStep f v ((f.step a).nodes v) a := by
  cases a with
  | poll u arm expired =>
    show NodeStep f v ((if u ∈ embassyMembers then f.poll u arm expired else f).nodes v) _
    split
    · exact nodeStep_poll u arm expired
    · exact .rests rfl rfl
  | send u =>
    show NodeStep f v ((if u ∈ embassyMembers then f.send u else f).nodes v) _
    split
    · exact nodeStep_send u
    · exact .rests rfl rfl
  | process u =>
    show NodeStep f v ((if u ∈ embassyMembers then f.process u else f).nodes v) _
    split
    · exact nodeStep_process u
    · exact .rests rfl rfl
  | request u request =>
    show NodeStep f v ((if (f.nodes u).clientRx.length < clientChannelSize then _ else f).nodes v) _
    split
    · by_cases hv : v = u
      · subst hv
        exact .rests ((congrArg EmbassyNode.raftNode withNode_nodes_self).trans rfl)
          ((congrArg EmbassyNode.phase withNode_nodes_self).trans rfl)
      · exact .rests (congrArg EmbassyNode.raftNode (withNode_nodes_ne hv))
          (congrArg EmbassyNode.phase (withNode_nodes_ne hv))
    · exact .rests rfl rfl
  | transport | takeWrite | takeRead | shutdown => exact .rests rfl rfl
  | advance millis => exact .ages rfl rfl

/-- What a step does to a node of the core. -/
inductive CoreStep (n n' : RaftNode P S SM) : Prop
  | rests (same : n' = n)
  | handles (ev : Event P) (handled : n' = { n.onEvent .embassy ev with transport := [] })
  | ages (millis : Nat) (aged : n' = n.aged millis)

theorem coreStep (hsilent : (f.nodes v).raftNode.transport = [])
    (a : FirmwareAction P (AsyncTransport.Task T)) :
    CoreStep (f.nodes v).raftNode ((f.step a).nodes v).raftNode := by
  have hstep := nodeStep f v a
  generalize (f.step a).nodes v = n at hstep ⊢
  cases hstep with
  | rests core | sends _ _ core | ends _ core => exact .rests core
  | ages core => exact .ages _ core
  | @takes _ _ selected _ ready taken =>
    subst taken
    cases hevent : selected.event with
    | none => exact .rests (take_quiet hsilent hevent).1
    | some ev =>
      exact .handles ev (take_event (offers_of_ready (List.mem_of_getElem? ready)) hevent).1

/-- What a step makes of the transport. -/
inductive TransportStep (f : Firmware P S SM T) (t : T) :
    FirmwareAction P (AsyncTransport.Task T) → Prop where
  | rests {a} (same : t = f.transport) : TransportStep f t a
  | sends {u first rest} (sending : (f.nodes u).phase = .sending (first :: rest))
      (handed : AsyncTransport.send f.transport u first.1 first.2 = some t) :
      TransportStep f t (.send u)
  | receives {u arm expired sender msg} (selecting : (f.nodes u).phase = .selecting)
      (ready : (f.ready u expired)[arm]? = some (.message sender msg))
      (received : AsyncTransport.recv f.transport u = some ((sender, msg), t)) :
      TransportStep f t (.poll u arm expired)
  | runs {task} (ran : t = AsyncTransport.run f.transport task) :
      TransportStep f t (.transport task)

theorem transportStep_poll (u : NodeId) (arm : Nat) (expired : List TimerKind) :
    TransportStep f (f.poll u arm expired).transport (.poll u arm expired) := by
  unfold poll
  split
  · rename_i hselecting
    split
    · split <;> exact .rests rfl
    · rename_i first others hready
      split
      · rename_i selected hselected
        have hoffer : f.Offers u expired selected :=
          offers_of_ready (hready ▸ List.mem_of_getElem? hselected)
        cases selected with
        | message sender msg =>
          obtain ⟨t, hrecv⟩ := hoffer
          refine .receives hselecting (hready ▸ hselected) ?_
          unfold take
          dsimp only
          rw [hrecv]
        | _ => exact .rests rfl
      · exact .rests rfl
  · exact .rests rfl

theorem transportStep (f : Firmware P S SM T) (a : FirmwareAction P (AsyncTransport.Task T)) :
    TransportStep f (f.step a).transport a := by
  cases a with
  | poll u arm expired =>
    show TransportStep f (if u ∈ embassyMembers then f.poll u arm expired else f).transport _
    split
    · exact transportStep_poll u arm expired
    · exact .rests rfl
  | send u =>
    show TransportStep f (if u ∈ embassyMembers then f.send u else f).transport _
    split
    · unfold send
      split
      · rename_i target msg rest hphase
        split
        · rename_i t hsent
          exact .sends hphase hsent
        · exact .rests rfl
      · exact .rests rfl
    · exact .rests rfl
  | process u =>
    show TransportStep f (if u ∈ embassyMembers then f.process u else f).transport _
    unfold process
    split
    · split <;> exact .rests rfl
    · exact .rests rfl
  | request u request =>
    show TransportStep f
      (if (f.nodes u).clientRx.length < clientChannelSize then _ else f).transport _
    split <;> exact .rests rfl
  | transport task => exact .runs rfl
  | takeWrite | takeRead | shutdown | advance => exact .rests rfl

end

/-! ## `memory_channel/setup.rs` -/

/-- `initialize_client`: five nodes that hold nothing yet, connected by the hub. -/
def memoryChannel :
    Firmware String (EmbassyStorage String) EmbassyStateMachine (ChannelTransportHub String) :=
  init .new (fun _ => .new) .new

end Firmware

end MetalRaft
