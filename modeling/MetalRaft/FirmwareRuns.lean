import MetalRaft.Clocks
import MetalRaft.DeviceCluster
import MetalRaft.Links

/-!
# What the firmware does is a run of a cluster

The cluster delivers whole events to nodes without limits, over one network.  The firmware runs five
tasks over collections of fixed capacity and a transport that may hold up a sender; a node that
sends has handed out only some of what it has drained.  As long as no log outgrows a collection,
every run of the firmware is still a run of the cluster.

* `Carried` — the runs of the cluster that the firmware makes.
* `Carries` — the firmware shows the state of a cluster.
* `firmware_refines_cluster` — the refinement, over any transport of which the links are known.
* `firmware_one_leader_per_term` — election safety, carried over to the firmware.
-/

set_option autoImplicit false

namespace MetalRaft

open Transition

variable {P S SM T : Type}

/-- The deployment that `EmbassyNode::new` sets up. -/
def embassyDeployment (stateMachine : SM) : Deployment SM :=
  TimelessTestCluster.deployment stateMachine 10 embassyMembers (by decide)

/-- What a node has drained from its outbox and not yet handed to the transport. -/
def EmbassyNode.drained (n : EmbassyNode P S SM) : List (NodeId × RaftMsg P) :=
  match n.phase with
  | .sending drained => drained
  | _ => []

/-- The part of it that goes to node `v`. -/
def EmbassyNode.drainedTo (n : EmbassyNode P S SM) (v : NodeId) : List (RaftMsg P) :=
  (n.drained.filter (·.1 = v)).map (·.2)

namespace EmbassyNode

variable {n n' : EmbassyNode P S SM}

theorem drained_selecting (h : n.phase = .selecting) : n.drained = [] := by
  unfold drained
  rw [h]

theorem drained_sending {messages : List (NodeId × RaftMsg P)} (h : n.phase = .sending messages) :
    n.drained = messages := by
  unfold drained
  rw [h]

theorem drained_of_phase (h : n'.phase = n.phase) : n'.drained = n.drained := by
  unfold drained
  rw [h]

theorem drainedTo_selecting (h : n.phase = .selecting) (v : NodeId) : n.drainedTo v = [] := by
  unfold drainedTo
  rw [drained_selecting h]
  rfl

end EmbassyNode

section

variable [StateMachine SM P]

/-- The runs of the cluster that the firmware makes: fixed membership, no restart, no message
delivered twice, no election timer before its least timeout; and over a `fifo` transport no message
lost or overtaken on its link. -/
structure Carried (fifo : Prop) (c : Cluster P SM) (a : Action P) : Prop where
  once : AtMostOnce c a
  fixed : FixedMembership c a
  waits : TimersWait electionTimeoutMinMs c a
  stays : ∀ v, a ≠ .restart v
  kept : fifo → ∀ k, a ≠ .lose k
  inOrder : fifo → InOrder c a

end

variable [Storage S P] [LogStorage S P] [StateMachine SM P] [AsyncTransport T P] [Links T P]

namespace Firmware

/-- No log outgrows a collection of the device. -/
def Roomy (f : Firmware P S SM T) : Prop :=
  ∀ v ∈ embassyMembers, (LogStorage.image (f.nodes v).raftNode.storage).log.items.length ≤
    EmbassyStorage.collectionCapacity

instance (f : Firmware P S SM T) : Decidable f.Roomy :=
  inferInstanceAs (Decidable (∀ v ∈ embassyMembers, _ ≤ _))

/-- The firmware shows the state of a cluster. -/
structure Carries (f : Firmware P S SM T) (c : Cluster P SM) : Prop where
  silent : ∀ v, (f.nodes v).raftNode.transport = []
  nodes : ∀ v ∈ embassyMembers, c.nodes v = (f.nodes v).raftNode.inMemory
  links : ∀ u v, Queued (Links.fifo T) (Cluster.onLink c.network u v)
    (Links.link f.transport u v ++ (f.nodes u).drainedTo v)

variable {f f' : Firmware P S SM T} {c : Cluster P SM} {v : NodeId} {ev : Event P}
  {d : Deployment SM}

omit [StateMachine SM P] in
/-- Only the nodes of the core, what they have drained, and the transport matter. -/
theorem Carries.of_same (h : Carries f c)
    (hnodes : ∀ v, (f'.nodes v).raftNode = (f.nodes v).raftNode)
    (hdrained : ∀ v, (f'.nodes v).drained = (f.nodes v).drained)
    (htransport : f'.transport = f.transport) : Carries f' c := by
  refine ⟨fun v => ?_, fun v hv => ?_, fun u v => ?_⟩
  · rw [hnodes]
    exact h.silent v
  · rw [hnodes]
    exact h.nodes v hv
  · unfold EmbassyNode.drainedTo
    rw [htransport, hdrained]
    exact h.links u v

omit [AsyncTransport T P] [Links T P] [StateMachine SM P] in
/-- What a node has put into its outbox, link by link. -/
theorem onLink_outbox (n : RaftNode P S SM) (u w : NodeId) :
    Cluster.onLink n.inMemory.outbox u w =
      if n.id = u then
        ((n.transport.map fun o => (o.target, o.msg)).filter (·.1 = w)).map (·.2)
      else [] := by
  unfold Cluster.onLink RaftNode.outbox RaftNode.inMemory
  rw [List.map_map, List.filter_map, List.map_map, List.filter_map, List.map_map]
  by_cases hu : n.id = u
  · rw [if_pos hu]
    have hsame : ((fun p : Packet P => decide (p.src = u ∧ p.dst = w)) ∘
        (fun o : Outgoing P (InMemoryStorage P) => (⟨n.id, o.target, o.msg⟩ : Packet P)) ∘
        fun o : Outgoing P S => ⟨o.target, o.msg, LogStorage.inMemory o.stored⟩) =
        (fun x : NodeId × RaftMsg P => decide (x.1 = w)) ∘ fun o => (o.target, o.msg) := by
      funext o
      simp [hu]
    rw [hsame]
    rfl
  · rw [if_neg hu]
    have hnone : n.transport.filter ((fun p : Packet P => decide (p.src = u ∧ p.dst = w)) ∘
        (fun o : Outgoing P (InMemoryStorage P) => (⟨n.id, o.target, o.msg⟩ : Packet P)) ∘
        fun o : Outgoing P S => ⟨o.target, o.msg, LogStorage.inMemory o.stored⟩) = [] :=
      List.filter_eq_nil_iff.mpr fun o _ => by simp [hu]
    rw [hnone]
    rfl

variable [LawfulStorage S P] [DeviceStorage S P]

/-- **Both sides handle an event.**  The firmware has drained what the cluster has sent. -/
theorem Carries.handled (h : Carries f c) (hv : v ∈ embassyMembers) (hid : (c.nodes v).id = v)
    (hselecting : (f.nodes v).phase = .selecting) (hdevice : (c.nodes v).OnDevice)
    (hroom : (c.nodes v).RoomForVotes) (hev : (c.nodes v).Familiar ev)
    {n : RaftNode P S SM} (hn : (f.nodes v).raftNode.onEvent .embassy ev = n)
    (hheld : (LogStorage.image n.storage).log.items.length ≤ EmbassyStorage.collectionCapacity)
    (hself : (f'.nodes v).raftNode = { n with transport := [] })
    (hdrained : (f'.nodes v).drained = n.transport.map fun o => (o.target, o.msg))
    (hothers : ∀ u, u ≠ v → (f'.nodes u).raftNode = (f.nodes u).raftNode ∧
      (f'.nodes u).drained = (f.nodes u).drained)
    (htransport : f'.transport = f.transport) : Carries f' (c.dispatch v ev) := by
  have hnode := h.nodes v hv
  rw [hnode] at hid hdevice hroom hev
  have hcopy : n.inMemory = (c.nodes v).onEvent .testUtils ev := by
    rw [hnode, ← hn]
    exact RaftNode.inMemory_onEvent (RaftNode.onDevice_inMemory.mp hdevice)
      ⟨hroom.preVotes, hroom.votes⟩ hev (hn ▸ hheld)
  have hown : n.id = v := by
    rw [← hn]
    exact (RaftNode.onEvent_moves .embassy (f.nodes v).raftNode ev).id_eq.trans hid
  refine ⟨fun u => ?_, fun u hu => ?_, fun u w => ?_⟩
  · by_cases huv : u = v
    · subst huv
      rw [hself]
    · rw [(hothers u huv).1]
      exact h.silent u
  · unfold Cluster.dispatch
    by_cases huv : u = v
    · subst huv
      rw [Cluster.withNode_nodes_self, hself, ← hcopy]
      rfl
    · rw [Cluster.withNode_nodes_ne huv, (hothers u huv).1]
      exact h.nodes u hu
  · unfold Cluster.dispatch
    rw [Cluster.withNode_network, ← hcopy, Cluster.onLink_append, onLink_outbox, hown, htransport]
    have hlink := h.links u w
    by_cases huv : v = u
    · subst huv
      rw [if_pos rfl]
      rw [EmbassyNode.drainedTo_selecting hselecting, List.append_nil] at hlink
      unfold EmbassyNode.drainedTo
      rw [hdrained]
      exact hlink.append _
    · rw [if_neg huv, List.append_nil]
      unfold EmbassyNode.drainedTo at hlink ⊢
      rw [(hothers u fun heq => huv heq.symm).2]
      exact hlink

/-! ## Messages -/

omit [LawfulStorage S P] [DeviceStorage S P] [StateMachine SM P] in
/-- What lies on a link, or is still to be sent on it, is in flight. -/
theorem Carries.off (h : Carries f c) {u w : NodeId} {i : Nat} {m : RaftMsg P}
    (hi : (Links.link f.transport u w ++ (f.nodes u).drainedTo w)[i]? = some m)
    (hfirst : Links.fifo T → i = 0) :
    ∃ k, c.network[k]? = some ⟨u, w, m⟩ ∧ (Links.fifo T → InOrder c (.deliver k)) ∧
      Queued (Links.fifo T) (Cluster.onLink (c.network.eraseIdx k) u w)
        ((Links.link f.transport u w ++ (f.nodes u).drainedTo w).eraseIdx i) ∧
      ∀ u' w', ¬ (u' = u ∧ w' = w) →
        Cluster.onLink (c.network.eraseIdx k) u' w' = Cluster.onLink c.network u' w' := by
  obtain ⟨j, hj, hfront, hrest⟩ := (h.links u w).take hi hfirst
  obtain ⟨k, hk, herased, hothers, holdest⟩ := Cluster.takeOffLink hj
  refine ⟨k, hk, fun hf i' hi' p hp q hq => ?_, herased ▸ hrest, hothers⟩
  rw [hk] at hq
  cases hq
  exact holdest (hfront hf) i' hi' p hp

omit [LawfulStorage S P] [DeviceStorage S P] [StateMachine SM P] in
/-- Both sides are without a message of one link. -/
theorem Carries.without {k : Nat} {u w : NodeId} (h : Carries f c)
    (hnodes : ∀ v, (f'.nodes v).raftNode = (f.nodes v).raftNode)
    (hlink : Queued (Links.fifo T) (Cluster.onLink (c.network.eraseIdx k) u w)
      (Links.link f'.transport u w ++ (f'.nodes u).drainedTo w))
    (hsame : ∀ u' w', ¬ (u' = u ∧ w' = w) →
      Cluster.onLink (c.network.eraseIdx k) u' w' = Cluster.onLink c.network u' w')
    (hothers : ∀ u' w', ¬ (u' = u ∧ w' = w) → Queued (Links.fifo T)
      (Links.link f.transport u' w' ++ (f.nodes u').drainedTo w')
      (Links.link f'.transport u' w' ++ (f'.nodes u').drainedTo w')) :
    Carries f' { c with network := c.network.eraseIdx k } := by
  refine ⟨fun v => ?_, fun v hv => ?_, fun u' w' => ?_⟩
  · rw [hnodes]
    exact h.silent v
  · rw [hnodes]
    exact h.nodes v hv
  · by_cases hhere : u' = u ∧ w' = w
    · obtain ⟨rfl, rfl⟩ := hhere
      exact hlink
    · show Queued _ (Cluster.onLink (c.network.eraseIdx k) u' w') _
      rw [hsame u' w' hhere]
      exact (h.links u' w').trans (hothers u' w' hhere)

/-! ## Steps -/

section

variable {sm : SM} {fifo : Prop}

/-- The cluster that the firmware follows, and what is known of it. -/
structure Follows (sm : SM) (f : Firmware P S SM T) (c : Cluster P SM) : Prop where
  reachable : Reachable (embassyDeployment sm) (Carried (Links.fifo T)) c
  carries : Carries f c
  roomy : f.Roomy

/-- The cluster takes one step, or none. -/
def Advances (sm : SM) (f' : Firmware P S SM T) (c : Cluster P SM) : Prop :=
  ∃ c', Run (Cluster.step (embassyDeployment sm)) (Carried (Links.fifo T)) c c' ∧ Carries f' c'

omit [LawfulStorage S P] [DeviceStorage S P] in
theorem advances_rest (h : Carries f' c) : Advances sm f' c := ⟨c, .refl, h⟩

omit [LawfulStorage S P] [DeviceStorage S P] in
theorem Follows.fits (hlittle : SavesLittle SM) (h : Follows sm f c) (hv : v ∈ embassyMembers) :
    FitsDevice (embassyDeployment sm) c v ∧ (c.nodes v).OnDevice ∧ (c.nodes v).id = v := by
  have hmany : 1 < embassyMembers.length := by decide
  have hfew : embassyMembers.length ≤ 8 := by decide
  have hfits := h.reachable.fits hlittle hmany hfew (fun _ _ hok => hok.fixed) hv
  refine ⟨hfits, hfits.onDevice ?_, (h.reachable.settled v).1⟩
  rw [h.carries.nodes v hv]
  exact h.roomy v hv

/-- A member that handles an event in an action of the cluster. -/
theorem advances_event (hlittle : SavesLittle SM) (h : Follows sm f c) (hv : v ∈ embassyMembers)
    (hselecting : (f.nodes v).phase = .selecting) {a : Action P}
    (ha : Carried (Links.fifo T) c a) (hstep : c.step (embassyDeployment sm) a = c.dispatch v ev)
    (hev : (c.nodes v).Familiar ev) (hroomy : f'.Roomy)
    (hself : (f'.nodes v).raftNode =
      { (f.nodes v).raftNode.onEvent .embassy ev with transport := [] })
    (hdrained : (f'.nodes v).drained = ((f.nodes v).raftNode.onEvent .embassy ev).transport.map
      fun o => (o.target, o.msg))
    (hothers : ∀ u, u ≠ v → f'.nodes u = f.nodes u) (htransport : f'.transport = f.transport) :
    Advances sm f' c := by
  obtain ⟨hfits, hdevice, hid⟩ := h.fits hlittle hv
  have hheld := hroomy v hv
  rw [hself] at hheld
  refine ⟨_, .step .refl ha, ?_⟩
  rw [hstep]
  exact h.carries.handled hv hid hselecting hdevice hfits.room hev rfl hheld hself hdrained
    (fun u hu => by rw [hothers u hu]; exact ⟨rfl, rfl⟩) htransport

/-- A message that a member receives is delivered in the cluster. -/
theorem advances_message (hlittle : SavesLittle SM) (h : Follows sm f c) (hv : v ∈ embassyMembers)
    (hselecting : (f.nodes v).phase = .selecting) {sender : NodeId} {msg : RaftMsg P} {t : T}
    (hrecv : AsyncTransport.recv f.transport v = some ((sender, msg), t)) (hroomy : f'.Roomy)
    (hself : (f'.nodes v).raftNode =
      { (f.nodes v).raftNode.onEvent .embassy (.message sender msg) with transport := [] })
    (hdrained : (f'.nodes v).drained =
      ((f.nodes v).raftNode.onEvent .embassy (.message sender msg)).transport.map
        fun o => (o.target, o.msg))
    (hothers : ∀ u, u ≠ v → f'.nodes u = f.nodes u) (htransport : f'.transport = t) :
    Advances sm f' c := by
  obtain ⟨hfits, hdevice, hid⟩ := h.fits hlittle hv
  obtain ⟨⟨i, hfirst, hi, hrest⟩, hlinks⟩ := Links.recv_link hrecv
  have hlt := (List.getElem?_eq_some_iff.mp hi).1
  obtain ⟨k, hk, horder, herased, hsame⟩ := h.carries.off (i := i)
    ((List.getElem?_append_left hlt).trans hi) hfirst
  have htaken : Carries { f with transport := t } { c with network := c.network.eraseIdx k } := by
    refine h.carries.without (u := sender) (w := v) (fun _ => rfl) ?_ hsame fun u' w' hne => ?_
    · show Queued _ _ (Links.link t sender v ++ _)
      rw [hrest, ← List.eraseIdx_append_of_lt_length hlt]
      exact herased
    · show Queued _ _ (Links.link t u' w' ++ _)
      rw [hlinks u' w' hne]
      exact .refl _
  have hok : Carried (Links.fifo T) c (.deliver k) :=
    ⟨trivial, trivial, trivial, fun _ heq => (by cases heq), fun _ _ heq => (by cases heq), horder⟩
  have hstep : c.step (embassyDeployment sm) (.deliver k) =
      { c with network := c.network.eraseIdx k }.dispatch v (.message sender msg) := by
    unfold Cluster.step
    dsimp only
    rw [hk]
    exact if_pos hv
  have hheld := hroomy v hv
  rw [hself] at hheld
  refine ⟨_, .step .refl hok, ?_⟩
  rw [hstep]
  exact htaken.handled hv hid hselecting hdevice hfits.room
    (hfits.familiar _ (List.mem_of_getElem? hk) rfl) rfl hheld hself hdrained
    (fun u hu => by rw [hothers u hu]; exact ⟨rfl, rfl⟩) htransport

omit [LawfulStorage S P] [DeviceStorage S P] [StateMachine SM P] in
/-- The node of the core and what it has drained are as before. -/
theorem Carries.idle (h : Carries f c) {n : EmbassyNode P S SM} {responses : Responses}
    (hnode : n.raftNode = (f.nodes v).raftNode) (hdrained : n.drained = (f.nodes v).drained) :
    Carries { f.withNode v n with responses := responses } c := by
  refine h.of_same (fun u => ?_) (fun u => ?_) rfl
  · by_cases hu : u = v
    · subst hu
      exact (congrArg EmbassyNode.raftNode withNode_nodes_self).trans hnode
    · exact congrArg EmbassyNode.raftNode (withNode_nodes_ne hu)
  · by_cases hu : u = v
    · subst hu
      exact (congrArg EmbassyNode.drained withNode_nodes_self).trans hdrained
    · exact congrArg EmbassyNode.drained (withNode_nodes_ne hu)

/-- An arm of `select4` is taken. -/
theorem advances_take (hlittle : SavesLittle SM) (h : Follows sm f c) (hv : v ∈ embassyMembers)
    (hselecting : (f.nodes v).phase = .selecting) {expired : List TimerKind}
    (htimely : InTime ⟨electionTimeoutMinMs, electionTimeoutMaxMs, heartbeatTimeoutMs⟩ expired
      (f.nodes v).raftNode.election.timerService)
    {selected : Selected P} (hoffer : f.Offers v expired selected)
    (hroomy : (f.take v selected).Roomy) : Advances sm (f.take v selected) c := by
  have hnone := EmbassyNode.drained_selecting hselecting
  have hothers : ∀ u, u ≠ v → (f.take v selected).nodes u = f.nodes u := fun u hu =>
    nodes_take_ne hu
  cases hevent : selected.event with
  | none =>
    obtain ⟨hcore, hphase⟩ := take_quiet (h.carries.silent v) hevent
    have hdrained : ((f.take v selected).nodes v).drained = [] := by
      unfold EmbassyNode.drained
      rcases hphase with hphase | hphase <;> rw [hphase]
    have htransport : (f.take v selected).transport = f.transport := by
      cases selected with
      | message => cases hevent
      | _ => rfl
    refine advances_rest (h.carries.of_same (fun u => ?_) (fun u => ?_) htransport)
    · by_cases hu : u = v
      · subst hu
        exact hcore
      · rw [hothers u hu]
    · by_cases hu : u = v
      · subst hu
        rw [hdrained, hnone]
      · rw [hothers u hu]
  | some ev =>
    obtain ⟨hcore, hphase⟩ := take_event hoffer hevent
    have hdrained : ((f.take v selected).nodes v).drained =
        ((f.nodes v).raftNode.onEvent .embassy ev).transport.map fun o => (o.target, o.msg) :=
      EmbassyNode.drained_sending hphase
    cases selected with
    | cancelled => cases hevent
    | client request =>
      cases request with
      | read => cases hevent
      | write payload responseTx =>
        cases hevent
        have hok : Carried (Links.fifo T) c (.client v payload) :=
          ⟨trivial, trivial, trivial, nofun, nofun, fun _ => trivial⟩
        have hstep : c.step (embassyDeployment sm) (.client v payload) =
            c.dispatch v (.clientCommand payload) := if_pos hv
        exact advances_event hlittle h hv hselecting hok hstep trivial hroomy hcore hdrained
          hothers rfl
    | timer kind =>
      cases hevent
      refine advances_event hlittle h hv hselecting (a := .timer v kind) ?_ (if_pos hv) trivial
        hroomy hcore hdrained hothers rfl
      refine ⟨trivial, trivial, ?_, nofun, nofun, fun _ => trivial⟩
      cases kind with
      | heartbeat => trivial
      | election =>
        show ∃ reset ∈ (c.nodes v).election.timerService.election, _
        rw [h.carries.nodes v hv]
        exact htimely.notEarly (List.mem_of_mem_head? hoffer)
    | message sender msg =>
      cases hevent
      obtain ⟨t, hrecv⟩ := hoffer
      have htransport : (f.take v (.message sender msg)).transport = t := by
        unfold take
        rw [hrecv]
      exact advances_message hlittle h hv hselecting hrecv hroomy hcore hdrained hothers htransport

theorem advances_poll (hlittle : SavesLittle SM) (h : Follows sm f c) (hv : v ∈ embassyMembers)
    {arm : Nat} {expired : List TimerKind}
    (htimely : InTime ⟨electionTimeoutMinMs, electionTimeoutMaxMs, heartbeatTimeoutMs⟩ expired
      (f.nodes v).raftNode.election.timerService)
    (hroomy : (f.poll v arm expired).Roomy) : Advances sm (f.poll v arm expired) c := by
  unfold poll at hroomy ⊢
  split at hroomy
  · rename_i hselecting
    split at hroomy
    · split
      · exact advances_rest (h.carries.of_same (fun _ => rfl) (fun _ => rfl) rfl)
      · exact advances_rest h.carries
    · rename_i first others hready
      split at hroomy
      · rename_i selected hselected
        have hoffer : f.Offers v expired selected :=
          offers_of_ready (hready ▸ List.mem_of_getElem? hselected)
        obtain ⟨c', hrun, h'⟩ := advances_take hlittle h hv hselecting htimely hoffer hroomy
        exact ⟨c', hrun, h'.of_same (fun _ => rfl) (fun _ => rfl) rfl⟩
      · exact advances_rest h.carries
  · exact advances_rest h.carries

omit [LawfulStorage S P] [DeviceStorage S P] in
/-- What has been drained is in flight. -/
theorem Follows.inFlight (h : Follows sm f c) {x : NodeId × RaftMsg P}
    (hx : x ∈ (f.nodes v).drained) : ⟨v, x.1, x.2⟩ ∈ c.network := by
  have hmem : x.2 ∈ (f.nodes v).drainedTo x.1 :=
    List.mem_map.mpr ⟨x, List.mem_filter.mpr ⟨hx, by simp⟩, rfl⟩
  have hlink := (h.carries.links v x.1).perm.mem_iff.mpr (List.mem_append_right _ hmem)
  obtain ⟨⟨src, dst, msg⟩, hp, hmsg⟩ := List.mem_map.mp hlink
  rw [List.mem_filter, decide_eq_true_eq] at hp
  obtain ⟨hp, rfl, rfl⟩ := hp
  exact hmsg ▸ hp

omit [LawfulStorage S P] [DeviceStorage S P] in
/-- It goes to a member. -/
theorem Follows.target (h : Follows sm f c) {x : NodeId × RaftMsg P}
    (hx : x ∈ (f.nodes v).drained) : x.1 ∈ embassyMembers := by
  have hfixed := h.reachable.fixed fun _ _ hok => hok.fixed
  exact (hfixed.sent _ (hfixed.inFlight _ (h.inFlight hx))).dst

/-- Node `v` has handed one message to the transport, which has become `t`. -/
structure HandsOver (f f' : Firmware P S SM T) (v target : NodeId) (msg : RaftMsg P) (t : T) :
    Prop where
  nodes : ∀ u, (f'.nodes u).raftNode = (f.nodes u).raftNode
  transport : f'.transport = t
  first : (f.nodes v).drainedTo target = msg :: (f'.nodes v).drainedTo target
  others : ∀ u w, ¬ (u = v ∧ w = target) → (f'.nodes u).drainedTo w = (f.nodes u).drainedTo w

omit [LogStorage S P] [LawfulStorage S P] [DeviceStorage S P] [Links T P] [AsyncTransport T P]
  [StateMachine SM P] [Storage S P] in
theorem handsOver {target : NodeId} {msg : RaftMsg P} {rest : List (NodeId × RaftMsg P)}
    (hdrained : (f.nodes v).drained = (target, msg) :: rest) (t : T) :
    HandsOver f
      { f.withNode v { f.nodes v with phase := .sending rest } with transport := t } v target msg
      t := by
  refine ⟨fun u => ?_, rfl, ?_, fun u w hne => ?_⟩
  · by_cases hu : u = v
    · subst hu
      dsimp only
      rw [withNode_nodes_self]
    · dsimp only
      rw [withNode_nodes_ne hu]
  · dsimp only
    rw [withNode_nodes_self]
    unfold EmbassyNode.drainedTo
    rw [hdrained]
    simp [EmbassyNode.drained]
  · dsimp only
    by_cases hu : u = v
    · subst hu
      have hw : ¬ target = w := fun heq => hne ⟨rfl, heq.symm⟩
      rw [withNode_nodes_self]
      unfold EmbassyNode.drainedTo
      rw [hdrained]
      simp [EmbassyNode.drained, hw]
    · rw [withNode_nodes_ne hu]

omit [LawfulStorage S P] [DeviceStorage S P] in
/-- A drained message is handed over, or lost where the transport may lose it. -/
theorem advances_send (h : Follows sm f c) : Advances sm (f.send v) c := by
  unfold send
  split
  · rename_i target msg rest hphase
    have hdrained : (f.nodes v).drained = (target, msg) :: rest :=
      EmbassyNode.drained_sending hphase
    split
    · rename_i t hsent
      obtain ⟨hlink, hothers⟩ := Links.send_link (h.target (hdrained ▸ List.mem_cons_self)) hsent
      have hhanded := handsOver hdrained t
      generalize ({ f.withNode v { f.nodes v with phase := .sending rest } with
        transport := t } : Firmware P S SM T) = f' at hhanded ⊢
      obtain ⟨hnodes, rfl, hto, hkept⟩ := hhanded
      rcases hlink with hlink | ⟨hlossy, hlink⟩
      · refine advances_rest ⟨fun u => ?_, fun u hu => ?_, fun u w => ?_⟩
        · rw [hnodes]
          exact h.carries.silent u
        · rw [hnodes]
          exact h.carries.nodes u hu
        · have hold := h.carries.links u w
          by_cases hhere : u = v ∧ w = target
          · obtain ⟨rfl, rfl⟩ := hhere
            rw [hlink, List.append_assoc]
            rw [hto] at hold
            exact hold
          · rw [hothers u w hhere, hkept u w hhere]
            exact hold
      · obtain ⟨k, -, -, herased, hsame⟩ := h.carries.off
          (i := (Links.link f.transport v target).length) (m := msg)
          (by rw [hto]; simp) (fun hf => absurd hf hlossy)
        have hok : Carried (Links.fifo T) c (.lose k) :=
          ⟨trivial, trivial, trivial, nofun, fun hf => absurd hf hlossy, fun _ => trivial⟩
        refine ⟨_, .step .refl hok, h.carries.without hnodes ?_ hsame fun u w hne => ?_⟩
        · rw [hlink]
          rw [hto, List.eraseIdx_append_of_length_le (Nat.le_refl _), Nat.sub_self] at herased
          exact herased
        · rw [hothers u w hne, hkept u w hne]
          exact .refl _
    · exact advances_rest h.carries
  · exact advances_rest h.carries

omit [LawfulStorage S P] [DeviceStorage S P] in
/-- What the transport does by itself loses a message at most. -/
theorem advances_transport (h : Follows sm f c) (task : AsyncTransport.Task T) :
    Advances sm { f with transport := AsyncTransport.run f.transport task } c := by
  obtain ⟨u, w, hchange, hothers⟩ := Links.run_link f.transport task
  cases hchange with
  | keeps same =>
    refine advances_rest ⟨h.carries.silent, h.carries.nodes, fun u' w' => ?_⟩
    by_cases hhere : u' = u ∧ w' = w
    · obtain ⟨rfl, rfl⟩ := hhere
      exact (h.carries.links u' w').trans (same.append _)
    · exact (h.carries.links u' w').trans ((hothers u' w' hhere).append _)
  | loses lossy i found rest =>
    obtain ⟨k, -, -, herased, hsame⟩ := h.carries.off (f := f) (u := u) (w := w) (i := i)
      (List.getElem?_append_left found |>.trans (List.getElem?_eq_getElem found))
      (fun hf => absurd hf lossy)
    have hok : Carried (Links.fifo T) c (.lose k) :=
      ⟨trivial, trivial, trivial, nofun, fun hf => absurd hf lossy, fun _ => trivial⟩
    refine ⟨_, .step .refl hok, h.carries.without (fun _ => rfl) ?_ hsame fun u' w' hne => ?_⟩
    · rw [List.eraseIdx_append_of_lt_length found] at herased
      exact herased.trans ⟨rest.append_right _, fun hf => absurd hf lossy⟩
    · exact (hothers u' w' hne).append _

omit [LawfulStorage S P] [DeviceStorage S P] in
/-- Time passes on both sides. -/
theorem advances_clock (h : Carries f c) (millis : Nat) :
    Advances sm (f.step (.advance millis)) c := by
  refine ⟨c.step _ (.advance millis), .step .refl
    ⟨trivial, trivial, trivial, nofun, fun _ => nofun, fun _ => trivial⟩, h.silent, fun v hv => ?_,
    h.links⟩
  show (c.nodes v).advanceClock millis = _
  rw [h.nodes v hv]
  rfl

/-- The runs considered here: timers are reported in time, and no log outgrows a collection. -/
def Sound (f : Firmware P S SM T) (a : FirmwareAction P (AsyncTransport.Task T)) : Prop :=
  f.Timely a ∧ (f.step a).Roomy

instance (f : Firmware P S SM T) (a : FirmwareAction P (AsyncTransport.Task T)) :
    Decidable (f.Sound a) :=
  inferInstanceAs (Decidable (_ ∧ _))

omit [LawfulStorage S P] [DeviceStorage S P] in
/-- Only the members have a task. -/
theorem advances_member (h : Carries f c) (hmember : v ∈ embassyMembers → Advances sm f' c) :
    Advances sm (if v ∈ embassyMembers then f' else f) c := by
  split
  · rename_i hv
    exact hmember hv
  · exact advances_rest h

theorem advances_step (hlittle : SavesLittle SM) (h : Follows sm f c)
    {a : FirmwareAction P (AsyncTransport.Task T)} (ha : f.Sound a) : Advances sm (f.step a) c := by
  obtain ⟨htimely, hroomy⟩ := ha
  cases a with
  | poll v arm expired =>
    refine advances_member h.carries fun hv => ?_
    have hstep : f.step (.poll v arm expired) = f.poll v arm expired := if_pos hv
    rw [hstep] at hroomy
    exact advances_poll hlittle h hv htimely hroomy
  | send v => exact advances_member h.carries fun _ => advances_send h
  | process v =>
    refine advances_member h.carries fun _ => ?_
    unfold process
    split
    · rename_i hphase
      exact advances_rest (h.carries.idle rfl (EmbassyNode.drained_sending hphase).symm)
    · exact advances_rest h.carries
  | transport task => exact advances_transport h task
  | request v request =>
    refine advances_rest ?_
    show Carries (if (f.nodes v).clientRx.length < clientChannelSize then _ else f) c
    split
    · exact h.carries.idle (n := { f.nodes v with clientRx := (f.nodes v).clientRx ++ [request] })
        rfl rfl
    · exact h.carries
  | takeWrite | takeRead | shutdown =>
    exact advances_rest (h.carries.of_same (fun _ => rfl) (fun _ => rfl) rfl)
  | advance millis => exact advances_clock h.carries millis

/-- A run of the firmware is followed by a run of the cluster. -/
theorem follows_run (hlittle : SavesLittle SM) (hrun : Run step Sound f f') (h : Follows sm f c) :
    ∃ c', Run (Cluster.step (embassyDeployment sm)) (Carried (Links.fifo T)) c c' ∧
      Follows sm f' c' := by
  induction hrun with
  | refl => exact ⟨c, .refl, h⟩
  | step _ ha ih =>
    obtain ⟨c₁, hrun₁, h₁⟩ := ih
    obtain ⟨c₂, hrun₂, hcarries⟩ := advances_step hlittle h₁ ha
    exact ⟨c₂, hrun₁.trans hrun₂, h₁.reachable.trans hrun₂, hcarries, ha.2⟩

/-! ## The start -/

/-- A storage that holds nothing yet. -/
def Blank (storage : S) : Prop := LogStorage.inMemory storage = .new

omit [AsyncTransport T P] [Links T P] [StateMachine SM P] [LogStorage S P] [Storage S P]
  [LawfulStorage S P] [DeviceStorage S P] in
theorem blank_new : Blank (EmbassyStorage.new : EmbassyStorage P) := rfl

omit [LawfulStorage S P] [DeviceStorage S P] in
theorem boot_inMemory {storage : S} (h : Blank storage) (hv : v ∈ embassyMembers) :
    (EmbassyNode.new v storage sm).raftNode.inMemory =
      RaftNode.boot (embassyDeployment sm) v .new ⟨[]⟩ 0 := by
  have hsnapshot : Storage.loadSnapshot storage = none := by
    rw [← LogStorage.inMemory_loadSnapshot, h]
    rfl
  have hterm : Storage.currentTerm storage = 0 := by
    rw [← LogStorage.inMemory_currentTerm, h]
    rfl
  unfold EmbassyNode.new RaftNode.boot RaftNode.newFromBuilder RaftNode.inMemory
  dsimp only
  rw [hsnapshot, hterm, h]
  simp only [embassyMembers, List.mem_cons, List.not_mem_nil, or_false] at hv
  rcases hv with rfl | rfl | rfl | rfl | rfl <;> rfl

omit [LawfulStorage S P] [DeviceStorage S P] in
theorem follows_init {transport : T} {storage : NodeId → S} (hblank : ∀ v, Blank (storage v))
    (hempty : ∀ u v, Links.link transport u v = []) :
    Follows sm (init transport storage sm) (Cluster.init (embassyDeployment sm)) := by
  refine ⟨.refl, ⟨fun _ => rfl, fun v hv => (boot_inMemory (hblank v) hv).symm, fun u v => ?_⟩,
    fun v _ => ?_⟩
  · show Queued _ [] (Links.link transport u v ++ [])
    rw [hempty]
    exact .refl _
  · show (LogStorage.inMemory (storage v)).log.length ≤ _
    rw [hblank v]
    exact Nat.zero_le _

/-- **What the firmware does is a run of the cluster**, over any storage of the device and any
transport of which the links are known, as long as no log outgrows a collection. -/
theorem firmware_refines_cluster (hlittle : SavesLittle SM) {transport : T} {storage : NodeId → S}
    (hblank : ∀ v, Blank (storage v)) (hempty : ∀ u v, Links.link transport u v = [])
    (hrun : Run step Sound (init transport storage sm) f) :
    ∃ c, Reachable (embassyDeployment sm) (Carried (Links.fifo T)) c ∧ Carries f c := by
  obtain ⟨c, -, h⟩ := follows_run hlittle hrun (follows_init hblank hempty)
  exact ⟨c, h.reachable, h.carries⟩

/-- Node `v` handles an event that makes it send some messages. -/
def roundOf (v : NodeId) (expired : List TimerKind) (messages : Nat) :
    List (FirmwareAction String Empty) :=
  .poll v 0 expired :: List.replicate messages (.send v) ++ [.process v]

/-- Node 1 is elected by 2 and 3. -/
def elected : List (FirmwareAction String Empty) :=
  .advance 300 :: roundOf 1 [.election] 4 ++ roundOf 2 [] 1 ++ roundOf 3 [] 1 ++
    roundOf 1 [] 0 ++ roundOf 1 [] 4 ++ roundOf 2 [] 1 ++ roundOf 3 [] 1 ++ roundOf 1 [] 0 ++
    roundOf 1 [] 4

theorem firmware_refines_cluster_elected :
    ∃ c, Reachable (embassyDeployment EmbassyStateMachine.new) (Carried True) c ∧
      Carries (elected.foldl step memoryChannel) c ∧ (c.nodes 1).role = .leader := by
  have hsound : Admitted step Sound memoryChannel elected := by decide +kernel
  have hlead : ((elected.foldl step memoryChannel).nodes 1).raftNode.role = .leader := by
    decide +kernel
  obtain ⟨c, hreach, hcarries⟩ := firmware_refines_cluster EmbassyStateMachine.savesLittle
    (fun _ => blank_new) (fun _ _ => rfl) (hsound.run elected)
  refine ⟨c, hreach, hcarries, ?_⟩
  rw [hcarries.nodes 1 (by decide)]
  exact hlead

/-- **Two nodes of the firmware that lead the same term are the same**, now or at an earlier moment
of the run. -/
theorem firmware_one_leader_per_term (hlittle : SavesLittle SM) {transport : T}
    {storage : NodeId → S} (hblank : ∀ v, Blank (storage v))
    (hempty : ∀ u v, Links.link transport u v = [])
    (hrun : Run step Sound (init transport storage sm) f) (hlater : Run step Sound f f')
    {v w : NodeId} (hv : v ∈ embassyMembers) (hw : w ∈ embassyMembers)
    (hlead : (f.nodes v).raftNode.role = .leader) (hlead' : (f'.nodes w).raftNode.role = .leader)
    (hterm : (f.nodes v).raftNode.currentTerm = (f'.nodes w).raftNode.currentTerm) : v = w := by
  have hsingle : ∀ (c : Cluster P SM) a, Carried (Links.fifo T) c a → SingleDelivery c a :=
    fun _ _ hok => ⟨hok.fixed, hok.once⟩
  obtain ⟨c₁, hrun₁, h₁⟩ := follows_run hlittle hrun (follows_init hblank hempty)
  obtain ⟨c₂, hrun₂, h₂⟩ := follows_run hlittle hlater h₁
  obtain ⟨b₁, hel₁, hu₁⟩ := (Single.run (hrun₁.mono hsingle) (single_init _)).2
  obtain ⟨b₂, hle, hel₂⟩ := Electing.run (Single.run (hrun₂.mono hsingle) ⟨b₁, hel₁, hu₁⟩).1 hel₁
  have hnode := h₁.carries.nodes v hv
  have hnode' := h₂.carries.nodes w hw
  have hwon := hle.leader _ _ (hel₁.sim.leader hv (hnode.symm ▸ hlead))
  have hwon' := hel₂.sim.leader hw (hnode'.symm ▸ hlead')
  rw [hnode] at hwon
  rw [hnode'] at hwon'
  change b₂.leader (f.nodes v).raftNode.currentTerm = some v at hwon
  change b₂.leader (f'.nodes w).raftNode.currentTerm = some w at hwon'
  rw [← hterm, hwon] at hwon'
  exact Option.some.inj hwon'

/-- Node 1 leads still after a heartbeat. -/
theorem firmware_one_leader_per_term_elected :
    let f := elected.foldl step memoryChannel
    let f' := (.advance 100 :: roundOf 1 [.heartbeat] 4).foldl step f
    (f.nodes 1).raftNode.role = .leader ∧ (f'.nodes 1).raftNode.role = .leader ∧
      (f.nodes 1).raftNode.currentTerm = (f'.nodes 1).raftNode.currentTerm ∧
      (1 : NodeId) = 1 := by
  have hsound : Admitted step Sound memoryChannel elected := by decide +kernel
  have hlater : Admitted step Sound (elected.foldl step memoryChannel)
      (.advance 100 :: roundOf 1 [.heartbeat] 4) := by decide +kernel
  have hlead : ((elected.foldl step memoryChannel).nodes 1).raftNode.role = .leader := by
    decide +kernel
  have hlead' : (((.advance 100 :: roundOf 1 [.heartbeat] 4).foldl step
      (elected.foldl step memoryChannel)).nodes 1).raftNode.role = .leader := by decide +kernel
  have hterm : ((elected.foldl step memoryChannel).nodes 1).raftNode.currentTerm =
      (((.advance 100 :: roundOf 1 [.heartbeat] 4).foldl step
        (elected.foldl step memoryChannel)).nodes 1).raftNode.currentTerm := by decide +kernel
  exact ⟨hlead, hlead', hterm, firmware_one_leader_per_term EmbassyStateMachine.savesLittle
    (fun _ => blank_new) (fun _ _ => rfl) (hsound.run elected) (hlater.run _) (by decide)
    (by decide)
    hlead hlead' hterm⟩

end

end Firmware

end MetalRaft
