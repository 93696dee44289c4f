import MetalRaft.Reign
import MetalRaft.TestClusterRuns
import MetalRaft.TimerServices

/-!
# The timefull test cluster

The harness in which time passes (`validation/src/timefull_test_cluster.rs`).  All nodes share a
`MockClock`; `advance_time` moves it and hands every node the timers that have expired at it.

* `MockTimerService.since` — the service of a node, read off the times of its last resets.
* `TimefullTestCluster.advanceTime`, `TimedAction`, `TimefullTestCluster.step` — what a test does.
* `Clocked` — a test cluster shows the state of a cluster, its clock included.
* `timed_tests_refine_cluster` — what a test does is a run of a cluster over orderly links in which
  no election timer fires before the least timeout.
-/

set_option autoImplicit false

namespace MetalRaft

open Transition TimelessTestCluster

/-! ## The timer of a node -/

namespace MockTimerService

/-- The service that has been reset when the core says. -/
def since (t : MockTimerService) (r : TimerService) : MockTimerService :=
  { t with
    electionDeadline := r.election.map fun reset => reset + t.randomElectionTimeout reset
    heartbeatDeadline := r.heartbeat.map (· + t.heartbeatInterval) }

end MockTimerService

/-! ## `timefull_test_cluster.rs` -/

/-- The nodes keep the times of their last resets; `settings` are those of their timer services. -/
structure TimefullTestCluster (P SM : Type) where
  nodes : IndexMap NodeId (TestNode P SM)
  settings : NodeId → MockTimerService
  broker : MessageBroker P
  messageLog : List (Packet P)
  clock : Nat
  snapshotThreshold : Nat

/-- What a test does with a cluster; commands are handed to a node by the test itself. -/
inductive TimedAction (P : Type) where
  | addNode (v : NodeId) (electionTimeoutMin electionTimeoutMax : Nat)
  | connectPeers
  | client (v : NodeId) (payload : P)
  | configChange (v : NodeId) (change : ConfigurationChange)
  | deliverMessages
  | processTimerEvents
  | advanceTime (millis : Nat)

namespace TimedAction

variable {P : Type}

/-- The actions that leave the population alone. -/
def KeepsNodes : TimedAction P → Prop
  | .addNode _ _ _ | .connectPeers => False
  | _ => True

/-- The actions that submit no configuration change. -/
def KeepsMembership : TimedAction P → Prop
  | .configChange _ _ => False
  | _ => True

instance : (a : TimedAction P) → Decidable a.KeepsNodes
  | .addNode _ _ _ | .connectPeers => isFalse id
  | .client _ _ | .configChange _ _ | .deliverMessages | .processTimerEvents | .advanceTime _ =>
    isTrue trivial

instance : (a : TimedAction P) → Decidable a.KeepsMembership
  | .configChange _ _ => isFalse id
  | .addNode _ _ _ | .connectPeers | .client _ _ | .deliverMessages | .processTimerEvents
  | .advanceTime _ => isTrue trivial

end TimedAction

namespace TimefullTestCluster

variable {P SM : Type} [StateMachine SM P]

section

omit [StateMachine SM P]

def new : TimefullTestCluster P SM :=
  ⟨.empty, fun v => .new 150 300 50 v, .new, [], 0, 10⟩

def withSnapshotThreshold (c : TimefullTestCluster P SM) (threshold : Nat) :
    TimefullTestCluster P SM :=
  { c with snapshotThreshold := threshold }

/-- The nodes and the messages, as in the timeless cluster. -/
def network (c : TimefullTestCluster P SM) : TimelessTestCluster P SM :=
  ⟨c.nodes, c.broker, c.messageLog, none, c.snapshotThreshold⟩

def withNetwork (c : TimefullTestCluster P SM) (t : TimelessTestCluster P SM) :
    TimefullTestCluster P SM :=
  { c with nodes := t.nodes, broker := t.messageBroker, messageLog := t.messageLog }

/-- `timer_service` of a node. -/
def timerService (c : TimefullTestCluster P SM) (v : NodeId) (n : TestNode P SM) :
    MockTimerService :=
  (c.settings v).since n.election.timerService

end

/-- The node that the builder makes, with its default lease duration. -/
def buildNode (c : TimefullTestCluster P SM) (id : NodeId) (storage : InMemoryStorage P)
    (stateMachine : SM) (timer : TimerService) (peers : List NodeId) : TestNode P SM :=
  .newFromBuilder .testUtils id storage stateMachine { timer with clock := c.clock } [] peers ⟨[]⟩
    c.snapshotThreshold c.clock 5000

def addNodeWithTimeouts (freshMachine : SM) (c : TimefullTestCluster P SM) (id : NodeId)
    (electionTimeoutMin electionTimeoutMax : Nat) : TimefullTestCluster P SM :=
  { c with
    nodes := c.nodes.insert id (c.buildNode id .new freshMachine ⟨none, none, c.clock⟩ [])
    settings := Function.update c.settings id (.new electionTimeoutMin electionTimeoutMax 50 id) }

def addNode (freshMachine : SM) (c : TimefullTestCluster P SM) (id : NodeId) :
    TimefullTestCluster P SM :=
  c.addNodeWithTimeouts freshMachine id 150 300

/-- One turn of the loop of `connect_peers`; the new node takes over the timer of the old one. -/
def connectNode (nodeIds : List NodeId) (c : TimefullTestCluster P SM) (nodeId : NodeId) :
    TimefullTestCluster P SM :=
  match c.nodes.get nodeId with
  | none => c
  | some oldNode =>
    let newNode := c.buildNode nodeId oldNode.storage oldNode.stateMachine
      oldNode.election.timerService (nodeIds.filter (· ≠ nodeId))
    { c with nodes := (c.nodes.swapRemove nodeId).insert nodeId newNode }

def connectPeers (c : TimefullTestCluster P SM) : TimefullTestCluster P SM :=
  c.nodes.keys.foldl (connectNode c.nodes.keys) c

/-- Node `v` handles an event. -/
def handle (c : TimefullTestCluster P SM) (v : NodeId) (event : Event P) :
    TimefullTestCluster P SM :=
  c.withNetwork (c.network.handle v event)

/-- One turn of the loop of `process_timer_events`. -/
def processTimer (c : TimefullTestCluster P SM) (v : NodeId) : TimefullTestCluster P SM :=
  match c.nodes.get v with
  | none => c
  | some n =>
    (Timers.checkExpired c.clock (c.timerService v n)).iter.foldl
      (fun c kind => c.handle v (.timerFired kind)) c

def processTimerEvents (c : TimefullTestCluster P SM) : TimefullTestCluster P SM :=
  c.nodes.keys.foldl processTimer c

/-- The loop of `deliver_messages` is the one of the timeless cluster, without its partitions. -/
def deliverMessages (fuel : Nat) (c : TimefullTestCluster P SM) :
    Option (TimefullTestCluster P SM) :=
  (deliverLoop (fun _ _ => true) c.nodes.keys fuel c.network).map c.withNetwork

/-- The clock is shared by the nodes. -/
def advanceTime (c : TimefullTestCluster P SM) (millis : Nat) : TimefullTestCluster P SM :=
  { c with
    nodes := c.nodes.mapValues (·.advanceClock millis)
    clock := c.clock + millis }.processTimerEvents

def step (freshMachine : SM) (c : TimefullTestCluster P SM) :
    TimedAction P → TimefullTestCluster P SM
  | .addNode v electionTimeoutMin electionTimeoutMax =>
    c.addNodeWithTimeouts freshMachine v electionTimeoutMin electionTimeoutMax
  | .connectPeers => c.connectPeers
  | .client v payload => c.handle v (.clientCommand payload)
  | .configChange v change => c.handle v (.configChange change)
  | .deliverMessages => (c.deliverMessages deliveryFuel).getD c
  | .processTimerEvents => c.processTimerEvents
  | .advanceTime millis => c.advanceTime millis

/-! ## The start -/

/-- The cluster that a test starts with: nodes with the given ids and timeouts, connected to each
other. -/
def populated (fresh : SM) (threshold : Nat) (specs : List (NodeId × Nat × Nat)) :
    TimefullTestCluster P SM :=
  (specs.foldl (fun c s => c.addNodeWithTimeouts fresh s.1 s.2.1 s.2.2)
    (new.withSnapshotThreshold threshold)).connectPeers

/-- A node without peers, as it is added at the start. -/
def loneNode (fresh : SM) (threshold : Nat) (v : NodeId) : TestNode P SM :=
  .newFromBuilder .testUtils v .new fresh ⟨none, none, 0⟩ [] [] ⟨[]⟩ threshold 0 5000

/-- What has been set up before the nodes are connected. -/
structure Added (fresh : SM) (threshold : Nat) (specs : List (NodeId × Nat × Nat))
    (c : TimefullTestCluster P SM) : Prop where
  keys : c.nodes.keys = specs.map (·.1)
  nodes : ∀ v n, c.nodes.get v = some n → n = loneNode fresh threshold v
  settings : ∀ s ∈ specs, c.settings s.1 = .new s.2.1 s.2.2 50 s.1
  broker : c.broker = .new
  clock : c.clock = 0
  snapshotThreshold : c.snapshotThreshold = threshold

theorem Added.add {fresh : SM} {threshold : Nat} {specs : List (NodeId × Nat × Nat)}
    {c : TimefullTestCluster P SM} (h : Added fresh threshold specs c) {s : NodeId × Nat × Nat}
    (hnew : s.1 ∉ specs.map (·.1)) :
    Added fresh threshold (specs ++ [s]) (c.addNodeWithTimeouts fresh s.1 s.2.1 s.2.2) := by
  constructor
  · show (c.nodes.insert s.1 _).keys = _
    rw [IndexMap.keys_insert, h.keys, if_neg hnew, List.map_append]
    rfl
  · intro v n hn
    by_cases hv : v = s.1
    · subst hv
      rw [← Option.some.inj (hn.symm.trans (IndexMap.get_insert_self _ _ _)).symm]
      unfold buildNode loneNode
      rw [h.clock, h.snapshotThreshold]
    · exact h.nodes v n ((IndexMap.get_insert_ne _ hv _).symm.trans hn)
  · intro s' hs'
    show Function.update c.settings s.1 _ s'.1 = _
    rcases List.mem_append.mp hs' with hmem | hmem
    · have hne : s'.1 ≠ s.1 := fun heq => hnew (heq ▸ List.mem_map_of_mem hmem)
      rw [Function.update_of_ne hne]
      exact h.settings s' hmem
    · obtain rfl := List.mem_singleton.mp hmem
      exact Function.update_self ..
  · exact h.broker
  · exact h.clock
  · exact h.snapshotThreshold

theorem added_all (fresh : SM) (threshold : Nat) :
    ∀ (specs done : List (NodeId × Nat × Nat)) {c : TimefullTestCluster P SM},
      Added fresh threshold done c → ((done ++ specs).map (·.1)).Nodup →
      Added fresh threshold (done ++ specs)
        (specs.foldl (fun c s => c.addNodeWithTimeouts fresh s.1 s.2.1 s.2.2) c)
  | [], done, c, h, _ => by simpa using h
  | s :: specs, done, c, h, hnodup => by
    have hnew : s.1 ∉ done.map (·.1) := by
      rw [List.map_append, List.map_cons, List.nodup_append] at hnodup
      exact fun hmem => hnodup.2.2 _ hmem _ List.mem_cons_self rfl
    have hrest := added_all fresh threshold specs (done ++ [s]) (h.add hnew) (by simpa using hnodup)
    simpa using hrest

/-- `connect_peers` refreshes every node once. -/
theorem connectPeers_eq (c : TimefullTestCluster P SM) :
    c.connectPeers =
      { c with
        nodes := c.nodes.keys.foldl (IndexMap.refresh fun v n =>
          c.buildNode v n.storage n.stateMachine n.election.timerService
            (c.nodes.keys.filter (· ≠ v))) c.nodes } := by
  have hloop : ∀ (ids vs : List NodeId) (nodes : IndexMap NodeId (TestNode P SM)),
      vs.foldl (connectNode ids) { c with nodes := nodes } =
        { c with
          nodes := vs.foldl (IndexMap.refresh fun v n =>
            c.buildNode v n.storage n.stateMachine n.election.timerService
              (ids.filter (· ≠ v))) nodes } := by
    intro ids vs
    induction vs with
    | nil => exact fun _ => rfl
    | cons v vs ih =>
      intro nodes
      rw [List.foldl_cons, List.foldl_cons, ← ih]
      congr 1
      unfold connectNode IndexMap.refresh
      dsimp only
      cases nodes.get v <;> rfl
  exact hloop c.nodes.keys c.nodes.keys c.nodes

theorem populated_spec (fresh : SM) (threshold : Nat) {specs : List (NodeId × Nat × Nat)}
    (h : (specs.map (·.1)).Nodup) :
    let c : TimefullTestCluster P SM := populated fresh threshold specs
    (∀ v, v ∈ c.nodes.keys ↔ v ∈ specs.map (·.1)) ∧ c.broker = .new ∧ c.clock = 0 ∧
      (∀ s ∈ specs, c.settings s.1 = .new s.2.1 s.2.2 50 s.1) ∧
      ∀ v n, c.nodes.get v = some n →
        n = RaftNode.boot (deployment fresh threshold (specs.map (·.1)) h) v .new ⟨[]⟩ 0 := by
  have hadded : Added fresh threshold specs (specs.foldl
      (fun c s => c.addNodeWithTimeouts fresh s.1 s.2.1 s.2.2)
      ((new : TimefullTestCluster P SM).withSnapshotThreshold threshold)) := by
    have hempty : Added fresh threshold []
        ((new : TimefullTestCluster P SM).withSnapshotThreshold threshold) :=
      ⟨rfl, fun _ _ hn => (by cases hn), by simp, rfl, rfl, rfl⟩
    exact added_all fresh threshold specs [] hempty h
  generalize hc : specs.foldl (fun c s => c.addNodeWithTimeouts fresh s.1 s.2.1 s.2.2)
    ((new : TimefullTestCluster P SM).withSnapshotThreshold threshold) = c at hadded
  unfold populated
  rw [hc, connectPeers_eq]
  dsimp only
  have hget := IndexMap.get_refreshAll (fun v (n : TestNode P SM) =>
    c.buildNode v n.storage n.stateMachine n.election.timerService
      (c.nodes.keys.filter (· ≠ v))) c.nodes
  refine ⟨fun v => ?_, hadded.broker, hadded.clock, hadded.settings, fun v n hn => ?_⟩
  · rw [← hadded.keys, IndexMap.mem_keys, IndexMap.mem_keys, hget]
    simp
  · rw [hget, Option.map_eq_some_iff] at hn
    obtain ⟨old, hold, rfl⟩ := hn
    rw [hadded.nodes v old hold, hadded.keys]
    unfold buildNode
    rw [hadded.clock, hadded.snapshotThreshold]
    rfl

/-! ## Mirroring -/

section

variable {d : Deployment SM} {t : TimefullTestCluster P SM} {c c' : Cluster P SM} {v : NodeId}
  {n : TestNode P SM} {fixed : Prop} {E : Nat}

/-- A test cluster shows the state of a cluster, and so does its clock. -/
structure Clocked (d : Deployment SM) (t : TimefullTestCluster P SM) (c : Cluster P SM) : Prop where
  mirrors : Mirrors d t.network [] c
  clock : c.Shows t.clock

omit [StateMachine SM P] in
theorem Clocked.node (h : Clocked d t c) (hn : t.nodes.get v = some n) : c.nodes v = n :=
  h.mirrors.nodes v n hn

omit [StateMachine SM P] in
theorem Clocked.member (h : Clocked d t c) : v ∈ t.nodes.keys ↔ v ∈ d.members :=
  h.mirrors.members v

/-- No timeout of a member is shorter. -/
def WaitsAtLeast (d : Deployment SM) (E : Nat) (t : TimefullTestCluster P SM) : Prop :=
  ∀ v ∈ d.members, E ≤ (t.settings v).electionTimeoutMin

/-- The runs that tests make in which time passes. -/
def Timed (fixed : Prop) (E : Nat) (c : Cluster P SM) (a : Action P) : Prop :=
  Tested fixed c a ∧ TimersWait E c a

omit [StateMachine SM P] in
theorem Serves.timed {should : NodeId → NodeId → Bool} {a : Action P} (h : Serves should c a) :
    Timed fixed E c a := by
  refine ⟨h.tested, ?_⟩
  cases a with
  | deliver | lose => trivial
  | duplicate | timer | client | configChange | restart | advance => cases h

theorem shows_run {should : NodeId → NodeId → Bool} {now : Nat}
    (hrun : Run (Cluster.step d) (Serves should) c c') (h : c.Shows now) : c'.Shows now :=
  Run.invariant (I := fun c => c.Shows now) (fun _ a hn hok => shows_step hn fun millis heq => by
    subst heq
    cases hok) hrun h

theorem clocked_handle {a : Action P} {ev : Event P} (h : Clocked d t c)
    (hstep : c.step d a = if v ∈ d.members then c.dispatch v ev else c)
    (ha : ∀ millis, a ≠ .advance millis) : Clocked d (t.handle v ev) (c.step d a) := by
  have hmirrors := mirrors_event h.mirrors hstep
  refine ⟨⟨hmirrors.members, hmirrors.nodes, hmirrors.wired, hmirrors.network⟩, shows_step h.clock ha⟩

omit [StateMachine SM P] in
/-- What the service of a node reports. -/
theorem iter_checkExpired (t : TimefullTestCluster P SM) (v : NodeId) (n : TestNode P SM) :
    (Timers.checkExpired t.clock (t.timerService v n)).iter =
      (if Due t.clock (t.timerService v n).electionDeadline then [.election] else []) ++
        if Due t.clock (t.timerService v n).heartbeatDeadline then [.heartbeat] else [] :=
  iter_checkDeadlines ..

omit [StateMachine SM P] in
/-- An election timer that has expired has run for the least timeout. -/
theorem timersWait_of_due (h : Clocked d t c) (hE : WaitsAtLeast d E t) (hn : t.nodes.get v = some n)
    (hdue : Due t.clock (t.timerService v n).electionDeadline) :
    TimersWait E c (.timer v .election) := by
  have hv : v ∈ d.members := h.member.mp (IndexMap.mem_keys.mpr ⟨n, hn⟩)
  have hnode := h.node hn
  have hclock : (c.nodes v).election.timerService.clock = t.clock := congrArg Prod.fst (h.clock v)
  obtain ⟨deadline, hdeadline, hle⟩ := hdue
  obtain ⟨reset, hreset, rfl⟩ := Option.map_eq_some_iff.mp hdeadline
  have hmin : E ≤ (t.settings v).randomElectionTimeout reset := by
    refine (hE v hv).trans ?_
    unfold MockTimerService.randomElectionTimeout
    dsimp only
    split
    · exact Nat.le_refl _
    · exact Nat.le_add_right _ _
  refine ⟨reset, ?_, ?_⟩
  · rw [hnode]
    exact hreset
  · rw [hclock]
    omega

/-- The timers that are due fire one after the other. -/
theorem clocked_fire : ∀ (kinds : List TimerKind) {t : TimefullTestCluster P SM} {c : Cluster P SM},
    Clocked d t c →
    Clocked d (kinds.foldl (fun t kind => t.handle v (.timerFired kind)) t)
      (kinds.foldl (fun c kind => c.step d (.timer v kind)) c)
  | [], _, _, h => h
  | _ :: kinds, _, _, h => clocked_fire kinds (clocked_handle h rfl nofun)

theorem clocked_processTimer (h : Clocked d t c) (hE : WaitsAtLeast d E t) (v : NodeId) :
    ∃ c', Run (Cluster.step d) (Timed fixed E) c c' ∧ Clocked d (t.processTimer v) c' := by
  unfold processTimer
  cases hn : t.nodes.get v with
  | none => exact ⟨c, .refl, h⟩
  | some n =>
    refine ⟨_, ?_, clocked_fire _ h⟩
    have hfires : ∀ kind (c : Cluster P SM),
        (kind = .election → TimersWait E c (.timer v .election)) →
        Timed fixed E c (.timer v kind) := by
      intro kind c hwait
      refine ⟨⟨trivial, trivial, fun _ => trivial⟩, ?_⟩
      cases kind with
      | election => exact hwait rfl
      | heartbeat => trivial
    rw [iter_checkExpired]
    split
    · rename_i hdue
      have hfirst := hfires .election c fun _ => timersWait_of_due h hE hn hdue
      split
      · exact .step (.step .refl hfirst) (hfires .heartbeat _ nofun)
      · exact .step .refl hfirst
    · split
      · exact .step .refl (hfires .heartbeat c nofun)
      · exact .refl

/-- The timers of a node leave the clock and the settings alone. -/
theorem processTimer_kept (t : TimefullTestCluster P SM) (v : NodeId) :
    (t.processTimer v).settings = t.settings ∧ (t.processTimer v).clock = t.clock := by
  have hloop : ∀ (kinds : List TimerKind) (t : TimefullTestCluster P SM),
      (kinds.foldl (fun t kind => t.handle v (.timerFired kind)) t).settings = t.settings ∧
        (kinds.foldl (fun t kind => t.handle v (.timerFired kind)) t).clock = t.clock := by
    intro kinds
    induction kinds with
    | nil => exact fun _ => ⟨rfl, rfl⟩
    | cons kind kinds ih => exact fun t => ih (t.handle v (.timerFired kind))
  unfold processTimer
  split
  · exact ⟨rfl, rfl⟩
  · exact hloop _ t

theorem clocked_processTimers : ∀ (ids : List NodeId) {t : TimefullTestCluster P SM}
    {c : Cluster P SM}, Clocked d t c → WaitsAtLeast d E t →
    ∃ c', Run (Cluster.step d) (Timed fixed E) c c' ∧ Clocked d (ids.foldl processTimer t) c' ∧
      (ids.foldl processTimer t).settings = t.settings
  | [], t, c, h, _ => ⟨c, .refl, h, rfl⟩
  | v :: ids, t, c, h, hE => by
    have hsame := (processTimer_kept t v).1
    obtain ⟨c₁, hrun₁, h₁⟩ : ∃ c₁, Run (Cluster.step d) (Timed fixed E) c c₁ ∧ _ :=
      clocked_processTimer h hE v
    obtain ⟨c₂, hrun₂, h₂, hset⟩ := clocked_processTimers ids h₁
      (fun u hu => (hE u hu).trans_eq (by rw [hsame]))
    exact ⟨c₂, hrun₁.trans hrun₂, h₂, hset.trans hsame⟩

/-- The clock moves for every node. -/
theorem clocked_advance (h : Clocked d t c) (millis : Nat) :
    Clocked d
      { t with nodes := t.nodes.mapValues (·.advanceClock millis), clock := t.clock + millis }
      (c.step d (.advance millis)) := by
  refine ⟨⟨fun v => ?_, fun v n hn => ?_, fun v n hn => ?_, h.mirrors.network⟩,
    shows_advance h.clock millis⟩
  · show v ∈ (t.nodes.mapValues _).keys ↔ _
    rw [IndexMap.keys_mapValues]
    exact h.mirrors.members v
  · obtain ⟨old, hold, rfl⟩ := Option.map_eq_some_iff.mp
      ((IndexMap.get_mapValues t.nodes _ v).symm.trans hn)
    show (c.nodes v).advanceClock millis = _
    rw [h.mirrors.nodes v old hold]
  · obtain ⟨old, hold, rfl⟩ := Option.map_eq_some_iff.mp
      ((IndexMap.get_mapValues t.nodes _ v).symm.trans hn)
    exact h.mirrors.wired v old hold

/-- The messages are delivered, and none is left. -/
theorem clocked_deliver (h : Clocked d t c) :
    ∃ t' c', t.deliverMessages deliveryFuel = some t' ∧
      Run (Cluster.step d) (Serves fun _ _ => true) c c' ∧ Clocked d t' c' ∧
      t'.settings = t.settings ∧ t'.clock = t.clock ∧
      ∀ u ∈ d.members, t'.network.waiting u = [] := by
  obtain ⟨t', hloop, -, hempty⟩ := deliverLoop_ends (fun _ _ => true) t.nodes.keys h.mirrors.wired
  have hdone := hloop deliveryFuel (Nat.le_refl _)
  obtain ⟨c', hrun, h'⟩ := mirrors_loop _ _ deliveryFuel h.mirrors hdone
  refine ⟨t.withNetwork t', c', ?_, hrun, ⟨⟨h'.members, h'.nodes, h'.wired, h'.network⟩, ?_⟩, rfl,
    rfl, fun u hu => hempty u (h.member.mpr hu)⟩
  · unfold deliverMessages
    rw [hdone]
    rfl
  · exact shows_run hrun h.clock

theorem step_advanceTime (fresh : SM) (t : TimefullTestCluster P SM) (millis : Nat) :
    t.step fresh (.advanceTime millis) = t.nodes.keys.foldl processTimer
      { t with nodes := t.nodes.mapValues (·.advanceClock millis), clock := t.clock + millis } := by
  show processTimerEvents _ = _
  unfold processTimerEvents
  dsimp only
  rw [IndexMap.keys_mapValues]

theorem clocked_step {fresh : SM} {a : TimedAction P} (h : Clocked d t c)
    (hE : WaitsAtLeast d E t) (ha : a.KeepsNodes) (hfixed : fixed → a.KeepsMembership) :
    ∃ c', Run (Cluster.step d) (Timed fixed E) c c' ∧ Clocked d (t.step fresh a) c' ∧
      (t.step fresh a).settings = t.settings := by
  cases a with
  | addNode | connectPeers => cases ha
  | client v payload =>
    have hok : Timed fixed E c (.client v payload) :=
      ⟨⟨trivial, trivial, fun _ => trivial⟩, trivial⟩
    exact ⟨_, .step .refl hok, clocked_handle h rfl nofun, rfl⟩
  | configChange v change =>
    have hok : Timed fixed E c (.configChange v change) :=
      ⟨⟨trivial, trivial, hfixed⟩, trivial⟩
    exact ⟨_, .step .refl hok, clocked_handle h rfl nofun, rfl⟩
  | deliverMessages =>
    obtain ⟨t', c', hdone, hrun, h', hset, -⟩ := clocked_deliver h
    refine ⟨c', hrun.mono fun _ _ hok => Serves.timed hok, ?_⟩
    show Clocked d ((t.deliverMessages deliveryFuel).getD t) c' ∧
      ((t.deliverMessages deliveryFuel).getD t).settings = _
    rw [hdone]
    exact ⟨h', hset⟩
  | processTimerEvents => exact clocked_processTimers t.nodes.keys h hE
  | advanceTime millis =>
    have hok : Timed fixed E c (.advance millis) :=
      ⟨⟨trivial, trivial, fun _ => trivial⟩, trivial⟩
    obtain ⟨c', hrun, h', hset⟩ : ∃ c', Run (Cluster.step d) (Timed fixed E)
        (c.step d (.advance millis)) c' ∧ _ :=
      clocked_processTimers t.nodes.keys (clocked_advance h millis) hE
    rw [step_advanceTime]
    exact ⟨c', (Run.step .refl hok).trans hrun, h', hset⟩

theorem clocked_actions {fresh : SM} : ∀ (actions : List (TimedAction P))
    {t : TimefullTestCluster P SM} {c : Cluster P SM}, Clocked d t c → WaitsAtLeast d E t →
    (∀ a ∈ actions, a.KeepsNodes) → (fixed → ∀ a ∈ actions, a.KeepsMembership) →
    ∃ c', Run (Cluster.step d) (Timed fixed E) c c' ∧ Clocked d (actions.foldl (step fresh) t) c' ∧
      (actions.foldl (step fresh) t).settings = t.settings
  | [], t, c, h, _, _, _ => ⟨c, .refl, h, rfl⟩
  | a :: actions, t, c, h, hE, hkeeps, hfixed => by
    obtain ⟨c₁, hrun₁, h₁, hset₁⟩ := clocked_step h hE (hkeeps a List.mem_cons_self)
      (fun hf => hfixed hf a List.mem_cons_self)
    obtain ⟨c₂, hrun₂, h₂, hset₂⟩ := clocked_actions actions h₁
      (fun u hu => (hE u hu).trans_eq (by rw [hset₁]))
      (fun b hb => hkeeps b (List.mem_cons_of_mem _ hb))
      (fun hf b hb => hfixed hf b (List.mem_cons_of_mem _ hb))
    exact ⟨c₂, hrun₁.trans hrun₂, h₂, hset₂.trans hset₁⟩

end

/-- The start of a test shows the start of a cluster. -/
theorem clocked_populated (fresh : SM) (threshold : Nat) {specs : List (NodeId × Nat × Nat)}
    (h : (specs.map (·.1)).Nodup) :
    Clocked (deployment fresh threshold (specs.map (·.1)) h)
      (populated fresh threshold specs : TimefullTestCluster P SM)
      (Cluster.init (deployment fresh threshold (specs.map (·.1)) h)) := by
  obtain ⟨hkeys, hbroker, hclock, -, hnodes⟩ := populated_spec (P := P) fresh threshold h
  refine ⟨⟨hkeys, fun v n hn => (hnodes v n hn).symm, fun v n hn => ?_, fun v => ?_⟩, ?_⟩
  · rw [hnodes v n hn]
    exact ⟨rfl, rfl⟩
  · unfold TimelessTestCluster.waiting network
    rw [hbroker]
    rfl
  · rw [hclock]
    exact fun _ => rfl

theorem waitsAtLeast_populated (fresh : SM) (threshold : Nat) {specs : List (NodeId × Nat × Nat)}
    (h : (specs.map (·.1)).Nodup) {E : Nat} (hE : ∀ s ∈ specs, E ≤ s.2.1) :
    WaitsAtLeast (deployment fresh threshold (specs.map (·.1)) h) E
      (populated fresh threshold specs : TimefullTestCluster P SM) := by
  obtain ⟨-, -, -, hset, -⟩ := populated_spec (P := P) fresh threshold h
  intro v hv
  obtain ⟨s, hs, rfl⟩ := List.mem_map.mp hv
  rw [hset s hs]
  exact hE s hs

/-- **What a test does in which time passes is a run of a cluster**: with a fixed population, the
nodes end where some run of the cluster ends in which no message is delivered twice or out of order
and no election timer fires before the least timeout, and all clocks show the time of the test. -/
theorem timed_tests_refine_cluster (fresh : SM) (threshold : Nat)
    {specs : List (NodeId × Nat × Nat)} (h : (specs.map (·.1)).Nodup) {E : Nat}
    (hE : ∀ s ∈ specs, E ≤ s.2.1) {actions : List (TimedAction P)}
    (hkeeps : ∀ a ∈ actions, a.KeepsNodes) :
    ∃ c, Reachable (deployment fresh threshold (specs.map (·.1)) h)
        (Timed (∀ a ∈ actions, a.KeepsMembership) E) c ∧
      Clocked (deployment fresh threshold (specs.map (·.1)) h)
        (actions.foldl (step fresh) (populated fresh threshold specs)) c := by
  obtain ⟨c, hrun, hclocked, -⟩ : ∃ c, Reachable _ _ c ∧ Clocked _ (actions.foldl (step fresh) _) c
      ∧ _ := clocked_actions actions (clocked_populated fresh threshold h)
        (waitsAtLeast_populated fresh threshold h hE) hkeeps id
  exact ⟨c, hrun, hclocked⟩

/-- The timeouts of the suite's timed elections: node 1 is always first. -/
def hastyFirst : List (NodeId × Nat × Nat) := [(1, 100, 150), (2, 10000, 10000), (3, 10000, 10000)]

/-- Node 1 is elected, and stays. -/
def timedTest : List (TimedAction UInt8) :=
  [.advanceTime 350, .deliverMessages, .advanceTime 60, .client 1 7, .deliverMessages,
    .advanceTime 300, .deliverMessages]

def timedOutcome : TimefullTestCluster UInt8 Adder :=
  timedTest.foldl (step ⟨0⟩) (populated ⟨0⟩ 10 hastyFirst)

theorem timedOutcome_leader : (timedOutcome.nodes.get 1).map
    (fun n => (n.role, n.replication.commitIndex)) = some (.leader, 1) := by decide +kernel

theorem hastyFirst_nodup : (hastyFirst.map (·.1)).Nodup := by decide

theorem timed_tests_refine_cluster_hasty :
    ∃ (c : Cluster UInt8 Adder) (n : TestNode UInt8 Adder),
      Reachable (deployment (⟨0⟩ : Adder) 10 (hastyFirst.map (·.1)) hastyFirst_nodup)
        (Timed True 100) c ∧
      timedOutcome.nodes.get 1 = some n ∧ c.nodes 1 = n ∧ n.role = .leader ∧
      n.replication.commitIndex = 1 := by
  have hkeeps : ∀ a ∈ timedTest, a.KeepsNodes := by decide
  have hmembership : ∀ a ∈ timedTest, a.KeepsMembership := by decide
  have hE : ∀ s ∈ hastyFirst, 100 ≤ s.2.1 := by decide
  obtain ⟨c, hreach, hclocked⟩ :=
    timed_tests_refine_cluster (⟨0⟩ : Adder) 10 hastyFirst_nodup hE hkeeps
  have houtcome : timedTest.foldl (step (⟨0⟩ : Adder)) (populated ⟨0⟩ 10 hastyFirst) =
      timedOutcome := by
    unfold timedOutcome
    rfl
  rw [houtcome] at hclocked
  have hreach' := hreach.mono fun _ _ hok =>
    (⟨⟨hok.1.1, hok.1.2.1, fun _ => hok.1.2.2 hmembership⟩, hok.2⟩ : Timed True 100 _ _)
  obtain ⟨n, hn, hfields⟩ := Option.map_eq_some_iff.mp timedOutcome_leader
  exact ⟨c, n, hreach', hn, hclocked.node hn, congrArg Prod.fst hfields, congrArg Prod.snd hfields⟩

end TimefullTestCluster

end MetalRaft
