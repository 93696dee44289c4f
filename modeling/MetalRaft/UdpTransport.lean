import MetalRaft.FirmwareRuns
import MetalRaft.Postcard

/-!
# The UDP transport of the firmware

`udp/transport.rs` and `udp/udp_transport_hub.rs`: every node has an outbox, an inbox and two tasks
that convert messages, write them as bytes and read them again.  The network stack beneath is not
part of the repository: it delivers each datagram unaltered, at most once, in any order, or not at
all.

* `UdpTransportHub` — the channels and the datagrams under way; both channels drop what they have no
  room for.
* `open_envelope` — what the sender task writes, the listener task reads.
* The hub is a transport whose links are known: it loses and overtakes, but neither doubles nor
  alters.
* `Firmware.drained_fits` — no message of a node is too long for its collections.
* `transports_deliver` — what is received over either transport has been sent.
-/

set_option autoImplicit false

namespace MetalRaft

instance : (msg : RaftMsg String) → Decidable msg.FitsCollections
  | .appendEntries _ _ _ entries _ =>
    inferInstanceAs (Decidable (entries.length ≤ EmbassyStorage.collectionCapacity))
  | .installSnapshot _ _ _ _ _ data _ => inferInstanceAs (Decidable (data.length ≤ chunkCapacity))
  | .requestVote _ _ _ _ | .requestVoteResponse _ _ | .appendEntriesResponse _ _ _
  | .installSnapshotResponse _ _ | .preVoteRequest _ _ _ _ | .preVoteResponse _ _ => isTrue trivial

/-- `datagrams` have been sent to the port of a node and have not arrived. -/
structure UdpTransportHub where
  outbox : NodeId → List (NodeId × EmbassyRaftMsg)
  inbox : NodeId → List (NodeId × EmbassyRaftMsg)
  datagrams : List (NodeId × List UInt8)

/-- A datagram under way is handed to a listener, or lost. -/
inductive UdpTask where
  | sender (v : NodeId)
  | listener (v : NodeId) (datagram : Nat)
  | lose (datagram : Nat)

namespace UdpTransportHub

def channelSize : Nat := 64

def new : UdpTransportHub := ⟨fun _ => [], fun _ => [], []⟩

/-- The type of a message keeps its collections within their capacity, so that every message
fits. -/
def send (hub : UdpTransportHub) (nodeId target : NodeId) (message : RaftMsg String) :
    Option UdpTransportHub :=
  if h : message.FitsCollections then
    if (hub.outbox nodeId).length < channelSize then
      some { hub with
        outbox := Function.update hub.outbox nodeId (hub.outbox nodeId ++ [(target, ⟨message, h⟩)]) }
    else some hub
  else some hub

def recv (hub : UdpTransportHub) (nodeId : NodeId) :
    Option ((NodeId × RaftMsg String) × UdpTransportHub) :=
  match hub.inbox nodeId with
  | [] => none
  | (sender, message) :: rest =>
    some ((sender, message.1), { hub with inbox := Function.update hub.inbox nodeId rest })

/-- The messages of a channel that bear one name. -/
def named (w : NodeId) (channel : List (NodeId × EmbassyRaftMsg)) : List (RaftMsg String) :=
  (channel.filter (·.1 = w)).map (·.2.1)

theorem named_append (w : NodeId) (channel : List (NodeId × EmbassyRaftMsg))
    (x : NodeId × EmbassyRaftMsg) :
    named w (channel ++ [x]) = named w channel ++ if x.1 = w then [x.2.1] else [] := by
  unfold named
  rw [List.filter_append, List.map_append]
  by_cases h : x.1 = w <;> simp [h]

theorem named_cons (w : NodeId) (x : NodeId × EmbassyRaftMsg)
    (channel : List (NodeId × EmbassyRaftMsg)) :
    named w (x :: channel) = (if x.1 = w then [x.2.1] else []) ++ named w channel := by
  unfold named
  rw [List.filter_cons]
  by_cases h : x.1 = w <;> simp [h]

variable [Postcard WireRaftMsg] [Postcard Envelope]

/-- The bytes of a datagram. -/
def envelope (nodeId target : NodeId) (message : EmbassyRaftMsg) : Option (List UInt8) :=
  match Postcard.toAllocvec (WireRaftMsg.fromMsg message) with
  | some messageBytes => Postcard.toAllocvec (⟨nodeId, target, messageBytes⟩ : Envelope)
  | none => none

/-- What a listener makes of the bytes of a datagram. -/
def openEnvelope (bytes : List UInt8) : Option (NodeId × EmbassyRaftMsg) :=
  match (Postcard.fromBytes bytes : Option Envelope) with
  | none => none
  | some envelope =>
    match (Postcard.fromBytes envelope.messageBytes : Option WireRaftMsg) with
    | none => none
    | some wire =>
      match wire.tryInto with
      | .ok message => some (envelope.sender, message)
      | .error _ => none

/-- A round of `run_udp_sender`.  There is no address for a target outside the cluster: the task
panics. -/
def runUdpSender (hub : UdpTransportHub) (nodeId : NodeId) : UdpTransportHub :=
  match hub.outbox nodeId with
  | [] => hub
  | (target, message) :: rest =>
    if target ∈ embassyMembers then
      let taken := { hub with outbox := Function.update hub.outbox nodeId rest }
      match envelope nodeId target message with
      | some bytes => { taken with datagrams := hub.datagrams ++ [(target, bytes)] }
      | none => taken
    else hub

/-- A round of `run_udp_listener`. -/
def runUdpListener (hub : UdpTransportHub) (nodeId : NodeId) (datagram : Nat) : UdpTransportHub :=
  match hub.datagrams[datagram]? with
  | none => hub
  | some (port, bytes) =>
    if port = nodeId then
      let taken := { hub with datagrams := hub.datagrams.eraseIdx datagram }
      match openEnvelope bytes with
      | none => taken
      | some received =>
        if (hub.inbox nodeId).length < channelSize then
          { taken with inbox := Function.update hub.inbox nodeId (hub.inbox nodeId ++ [received]) }
        else taken
    else hub

def run (hub : UdpTransportHub) : UdpTask → UdpTransportHub
  | .sender v => hub.runUdpSender v
  | .listener v datagram => hub.runUdpListener v datagram
  | .lose datagram => { hub with datagrams := hub.datagrams.eraseIdx datagram }

instance : AsyncTransport UdpTransportHub String where
  Task := UdpTask
  run := run
  send := send
  recv := recv

/-! ## Links -/

/-- **What a sender writes, a listener reads.** -/
theorem open_envelope {nodeId target : NodeId} {message : EmbassyRaftMsg} {bytes : List UInt8}
    (h : envelope nodeId target message = some bytes) :
    openEnvelope bytes = some (nodeId, message) := by
  unfold envelope at h
  split at h
  · rename_i messageBytes hwritten
    unfold openEnvelope
    rw [Postcard.fromBytes_toAllocvec h]
    dsimp only
    rw [Postcard.fromBytes_toAllocvec hwritten]
    dsimp only
    rw [tryInto_fromMsg]
  · cases h

/-- What a datagram carries from node `u` to node `v`. -/
def carried (u v : NodeId) (datagram : NodeId × List UInt8) : Option (RaftMsg String) :=
  if datagram.1 = v then
    match openEnvelope datagram.2 with
    | some (sender, message) => if sender = u then some message.1 else none
    | none => none
  else none

def link (hub : UdpTransportHub) (u v : NodeId) : List (RaftMsg String) :=
  named u (hub.inbox v) ++ hub.datagrams.filterMap (carried u v) ++ named v (hub.outbox u)

theorem carried_of_open {bytes : List UInt8} {sender : NodeId} {message : EmbassyRaftMsg}
    (h : openEnvelope bytes = some (sender, message)) (u v w : NodeId) :
    carried u v (w, bytes) = if sender = u ∧ w = v then some message.1 else none := by
  unfold carried
  dsimp only
  rw [h]
  dsimp only
  by_cases hw : w = v <;> by_cases hu : sender = u <;> simp [hw, hu]

theorem carried_of_unread {bytes : List UInt8} (h : openEnvelope bytes = none) (u v w : NodeId) :
    carried u v (w, bytes) = none := by
  unfold carried
  dsimp only
  rw [h]
  exact ite_self _

theorem link_send {hub hub' : UdpTransportHub} {u v : NodeId} {m : RaftMsg String}
    (h : hub.send u v m = some hub') :
    (hub'.link u v = hub.link u v ++ [m] ∨ hub'.link u v = hub.link u v) ∧
      ∀ u' v', ¬ (u' = u ∧ v' = v) → hub'.link u' v' = hub.link u' v' := by
  unfold send at h
  split at h
  · split at h
    · cases h
      refine ⟨Or.inl ?_, fun u' v' hne => ?_⟩
      · unfold link
        dsimp only
        rw [Function.update_self, named_append, if_pos rfl, List.append_assoc _ _ [m]]
      · unfold link
        dsimp only
        by_cases hu : u' = u
        · subst hu
          have hv : ¬ v = v' := fun heq => hne ⟨rfl, heq.symm⟩
          rw [Function.update_self, named_append, if_neg hv, List.append_nil]
        · rw [Function.update_of_ne hu]
    · cases h
      exact ⟨Or.inr rfl, fun _ _ _ => rfl⟩
  · cases h
    exact ⟨Or.inr rfl, fun _ _ _ => rfl⟩

theorem link_recv {hub hub' : UdpTransportHub} {u v : NodeId} {m : RaftMsg String}
    (h : hub.recv v = some ((u, m), hub')) :
    hub.link u v = m :: hub'.link u v ∧
      ∀ u' v', ¬ (u' = u ∧ v' = v) → hub'.link u' v' = hub.link u' v' := by
  unfold recv at h
  split at h
  · cases h
  · rename_i sender message rest hinbox
    cases h
    refine ⟨?_, fun u' v' hne => ?_⟩
    · unfold link
      dsimp only
      rw [Function.update_self, hinbox, named_cons, if_pos rfl]
      rfl
    · unfold link
      dsimp only
      by_cases hv : v' = v
      · subst hv
        have hu : ¬ u = u' := fun heq => hne ⟨heq.symm, rfl⟩
        rw [Function.update_self, hinbox, named_cons, if_neg hu, List.nil_append]
      · rw [Function.update_of_ne hv]

/-- A message leaves the outbox of its sender, unless it cannot be written. -/
theorem link_runUdpSender (hub : UdpTransportHub) (v : NodeId) :
    ∃ w, LinkChange False (hub.link v w) ((hub.runUdpSender v).link v w) ∧
      ∀ u' v', ¬ (u' = v ∧ v' = w) → (hub.link u' v').Perm ((hub.runUdpSender v).link u' v') := by
  unfold runUdpSender
  split
  · exact ⟨v, .same (.refl _), fun _ _ _ => .refl _⟩
  · rename_i target message rest houtbox
    have hwaits : ∀ w, named w (hub.outbox v) =
        (if target = w then [message.1] else []) ++ named w rest := fun w => by
      rw [houtbox, named_cons]
    split
    · dsimp only
      split
      · rename_i bytes hbytes
        have hsame : ∀ u w, hub.link u w =
            link ⟨Function.update hub.outbox v rest, hub.inbox,
              hub.datagrams ++ [(target, bytes)]⟩ u w := by
          intro u w
          unfold link
          dsimp only
          rw [List.filterMap_append, List.filterMap_cons, List.filterMap_nil,
            carried_of_open (open_envelope hbytes)]
          by_cases hu : u = v
          · subst hu
            rw [Function.update_self, hwaits]
            by_cases hw : target = w <;> simp [hw]
          · have hv : ¬ v = u := fun heq => hu heq.symm
            rw [Function.update_of_ne hu]
            simp [hv]
        exact ⟨v, .same (.of_eq (hsame v v)), fun u' v' _ => .of_eq (hsame u' v')⟩
      · refine ⟨target, .without (x := message.1) ?_, fun u' v' hne => .of_eq ?_⟩
        · unfold link
          dsimp only
          rw [Function.update_self, hwaits, if_pos rfl]
          exact List.perm_middle
        · unfold link
          dsimp only
          by_cases hu : u' = v
          · subst hu
            have hw : ¬ target = v' := fun heq => hne ⟨rfl, heq.symm⟩
            rw [Function.update_self, hwaits, if_neg hw, List.nil_append]
          · rw [Function.update_of_ne hu]
    · exact ⟨v, .same (.refl _), fun _ _ _ => .refl _⟩

/-- Links without one of the datagrams. -/
theorem link_datagram {hub : UdpTransportHub} {k : Nat} {datagram : NodeId × List UInt8}
    (h : hub.datagrams[k]? = some datagram) (u v : NodeId) :
    (hub.link u v).Perm ((carried u v datagram).toList ++
      link { hub with datagrams := hub.datagrams.eraseIdx k } u v) := by
  unfold link
  dsimp only
  rw [← List.append_assoc, ← List.append_assoc]
  refine .append_right _ ?_
  rw [List.append_assoc]
  exact ((filterMap_eraseIdx_perm _ h).append_left _).trans
    (List.perm_append_comm_assoc _ _ _)

/-- A datagram that carries a message does so on one link. -/
theorem carried_cases (datagram : NodeId × List UInt8) :
    (∀ u v, carried u v datagram = none) ∨
      ∃ u v m, carried u v datagram = some m ∧
        ∀ u' v', ¬ (u' = u ∧ v' = v) → carried u' v' datagram = none := by
  obtain ⟨port, bytes⟩ := datagram
  cases hopen : openEnvelope bytes with
  | none => exact Or.inl fun u v => carried_of_unread hopen u v port
  | some received =>
    obtain ⟨sender, message⟩ := received
    refine Or.inr ⟨sender, port, message.1, ?_, fun u' v' hne => ?_⟩
    · rw [carried_of_open hopen, if_pos ⟨rfl, rfl⟩]
    · rw [carried_of_open hopen, if_neg fun h => hne ⟨h.1.symm, h.2.symm⟩]

/-- A datagram is lost. -/
theorem link_lose (hub : UdpTransportHub) (k : Nat) :
    ∃ u v, LinkChange False (hub.link u v)
        (link { hub with datagrams := hub.datagrams.eraseIdx k } u v) ∧
      ∀ u' v', ¬ (u' = u ∧ v' = v) →
        (hub.link u' v').Perm (link { hub with datagrams := hub.datagrams.eraseIdx k } u' v') := by
  cases hget : hub.datagrams[k]? with
  | none =>
    rw [List.eraseIdx_of_length_le (List.getElem?_eq_none_iff.mp hget)]
    exact ⟨0, 0, .same (.refl _), fun _ _ _ => .refl _⟩
  | some datagram =>
    have hlinks := link_datagram hget
    rcases carried_cases datagram with hnone | ⟨u, v, m, hcarried, hothers⟩
    · have hsame : ∀ u v, (hub.link u v).Perm
          (link { hub with datagrams := hub.datagrams.eraseIdx k } u v) := fun u v => by
        simpa only [hnone u v, Option.toList_none, List.nil_append] using hlinks u v
      exact ⟨0, 0, .same (hsame 0 0), fun u' v' _ => hsame u' v'⟩
    · refine ⟨u, v, .without (x := m) ?_, fun u' v' hne => ?_⟩
      · simpa only [hcarried, Option.toList_some, List.singleton_append] using hlinks u v
      · simpa only [hothers u' v' hne, Option.toList_none, List.nil_append] using hlinks u' v'

/-- A datagram arrives in the inbox, unless there is no room. -/
theorem link_runUdpListener (hub : UdpTransportHub) (w : NodeId) (k : Nat) :
    ∃ u v, LinkChange False (hub.link u v) ((hub.runUdpListener w k).link u v) ∧
      ∀ u' v', ¬ (u' = u ∧ v' = v) →
        (hub.link u' v').Perm ((hub.runUdpListener w k).link u' v') := by
  unfold runUdpListener
  split
  · exact ⟨0, 0, .same (.refl _), fun _ _ _ => .refl _⟩
  · rename_i port bytes hget
    split
    · rename_i hport
      subst hport
      dsimp only
      split
      · exact link_lose hub k
      · rename_i received hopen
        obtain ⟨sender, message⟩ := received
        split
        · have hsame : ∀ u v, (hub.link u v).Perm
              (link ⟨hub.outbox, Function.update hub.inbox port
                (hub.inbox port ++ [(sender, message)]), hub.datagrams.eraseIdx k⟩ u v) := by
            intro u v
            refine (link_datagram hget u v).trans ?_
            rw [carried_of_open hopen]
            unfold link
            dsimp only
            by_cases hv : v = port
            · subst hv
              rw [Function.update_self, named_append]
              by_cases hu : sender = u
              · rw [if_pos ⟨hu, rfl⟩, if_pos hu]
                simp only [Option.toList_some, List.append_assoc, List.singleton_append]
                exact List.perm_middle.symm
              · simp [hu]
            · have hne : ¬ port = v := fun heq => hv heq.symm
              rw [Function.update_of_ne hv]
              simp [hne]
          exact ⟨0, 0, .same (hsame 0 0), fun u' v' _ => hsame u' v'⟩
        · exact link_lose hub k
    · exact ⟨0, 0, .same (.refl _), fun _ _ _ => .refl _⟩

instance : Links UdpTransportHub String where
  fifo := False
  link := link
  send_link {hub hub' u v m} _ h := by
    obtain ⟨hlink, hothers⟩ := link_send h
    exact ⟨hlink.imp_right fun heq => ⟨id, heq⟩, hothers⟩
  recv_link {hub hub' u v m} h := by
    obtain ⟨hlink, hothers⟩ := link_recv h
    exact ⟨⟨0, fun _ => rfl, by rw [hlink]; rfl, by rw [hlink]; rfl⟩, hothers⟩
  run_link hub task := by
    have hqueued : ∀ {l l' : List (RaftMsg String)}, l.Perm l' → Queued False l l' :=
      fun h => ⟨h, False.elim⟩
    cases task with
    | sender v =>
      obtain ⟨w, hchange, hothers⟩ := link_runUdpSender hub v
      exact ⟨v, w, hchange, fun u' v' hne => hqueued (hothers u' v' hne)⟩
    | listener v k =>
      obtain ⟨u, w, hchange, hothers⟩ := link_runUdpListener hub v k
      exact ⟨u, w, hchange, fun u' v' hne => hqueued (hothers u' v' hne)⟩
    | lose k =>
      obtain ⟨u, w, hchange, hothers⟩ := link_lose hub k
      exact ⟨u, w, hchange, fun u' v' hne => hqueued (hothers u' v' hne)⟩

end UdpTransportHub

open Transition

/-! ## Messages fit their collections -/

/-- The entries fit the collection of a message. -/
def RaftMsg.FewEntries {P : Type} : RaftMsg P → Prop
  | .appendEntries _ _ _ entries _ => entries.length ≤ EmbassyStorage.collectionCapacity
  | _ => True

section

variable {P S SM T : Type} [Storage S P] [LogStorage S P] [DeviceStorage S P] [StateMachine SM P]

omit [StateMachine SM P] in
theorem fewEntries_forPeer (r : LogReplicationManager) (peer leaderId : NodeId) (storage : S) :
    (r.getAppendEntriesForPeer peer leaderId storage).FewEntries := by
  have hfew : ∀ term, (r.getAppendEntriesForFollower peer term storage).FewEntries := fun term =>
    DeviceStorage.getEntries_length storage _ _
  unfold LogReplicationManager.getAppendEntriesForPeer
  dsimp only
  split
  · split
    · trivial
    · exact hfew _
  · exact hfew _

theorem fewEntries_move {R : Realization} {ev : Event P} {n₀ n n' : RaftNode P S SM}
    (hmove : RaftNode.Move R ev n₀ n n') (h : ∀ o ∈ n.transport, o.msg.FewEntries) :
    ∀ o ∈ n'.transport, o.msg.FewEntries := by
  cases hmove with
  | inert hi => exact hi.transport ▸ h
  | campaign =>
    rw [RaftNode.broadcast_eq]
    intro o ho
    rcases List.mem_append.mp ho with ho | ho
    · exact h o ho
    · obtain ⟨t, -, rfl⟩ := List.mem_map.mp ho
      trivial
  | grant =>
    intro o ho
    rcases List.mem_append.mp ho with ho | ho
    · exact h o ho
    · obtain rfl := List.mem_singleton.mp ho
      trivial
  | say outs spoken =>
    intro o ho
    rcases List.mem_append.mp ho with ho | ho
    · exact h o ho
    · obtain ⟨-, hspeaks⟩ := spoken o ho
      generalize o.msg = msg at hspeaks ⊢
      cases hspeaks with
      | entries => exact fewEntries_forPeer _ _ _ _
      | _ => trivial
  | _ => exact h

theorem fewEntries_onEvent {R : Realization} {n : RaftNode P S SM} (hsilent : n.transport = [])
    (ev : Event P) : ∀ o ∈ (n.onEvent R ev).transport, o.msg.FewEntries := by
  have hmoves := RaftNode.onEvent_moves R n ev
  generalize n.onEvent R ev = n' at hmoves
  induction hmoves with
  | refl =>
    rw [hsilent]
    exact fun o ho => nomatch ho
  | tail _ hlast ih => exact fewEntries_move hlast ih

namespace Firmware

variable [AsyncTransport T P] {f : Firmware P S SM T}

theorem fewEntries_step (hsilent : ∀ v, (f.nodes v).raftNode.transport = [])
    (h : ∀ v, ∀ x ∈ (f.nodes v).drained, x.2.FewEntries)
    (a : FirmwareAction P (AsyncTransport.Task T)) :
    ∀ v, ∀ x ∈ ((f.step a).nodes v).drained, x.2.FewEntries := by
  intro v x hx
  have hold := h v
  have hstep := nodeStep f v a
  generalize (f.step a).nodes v = n at hstep hx
  unfold EmbassyNode.drained at hx hold
  cases hstep with
  | rests core phase | ages core phase =>
    rw [phase] at hx
    exact hold x hx
  | @takes _ _ selected selecting ready taken =>
    subst taken
    cases hevent : selected.event with
    | none =>
      rcases (take_quiet (hsilent v) hevent).2 with hphase | hphase
      · rw [hphase] at hx
        cases hx
      · rw [hphase] at hx
        cases hx
    | some ev =>
      rw [(take_event (offers_of_ready (List.mem_of_getElem? ready)) hevent).2] at hx
      obtain ⟨o, ho, rfl⟩ := List.mem_map.mp hx
      exact fewEntries_onEvent (hsilent v) ev o ho
  | sends sending handed core phase =>
    rw [phase] at hx
    rw [sending] at hold
    exact hold x (List.mem_cons_of_mem _ hx)
  | ends sending core phase =>
    rw [phase] at hx
    cases hx

end Firmware

end

/-- **What a node of the device has to send fits its collections.** -/
theorem Firmware.drained_fits {S SM T : Type} [Storage S String] [LogStorage S String]
    [LawfulStorage S String] [DeviceStorage S String] [StateMachine SM String]
    [AsyncTransport T String] [Links T String] (hlittle : SavesLittle SM) {sm : SM} {transport : T}
    {storage : NodeId → S} (hblank : ∀ v, Blank (storage v))
    (hempty : ∀ u v, Links.link transport u v = []) {f : Firmware String S SM T}
    (hrun : Run step Sound (init transport storage sm) f) {v : NodeId}
    {x : NodeId × RaftMsg String} (hx : x ∈ (f.nodes v).drained) : x.2.FitsCollections := by
  have hinv := hrun.invariant
    (I := fun f => (∃ c, Follows sm f c) ∧ ∀ v, ∀ x ∈ (f.nodes v).drained, x.2.FewEntries)
    (fun f a hf ha => by
      obtain ⟨⟨c, h⟩, hfew⟩ := hf
      obtain ⟨c', -, h'⟩ := follows_run hlittle (.step .refl ha) h
      exact ⟨⟨c', h'⟩, fewEntries_step h.carries.silent hfew a⟩)
    ⟨⟨_, follows_init hblank hempty⟩, fun _ _ hx => nomatch hx⟩
  obtain ⟨⟨c, h⟩, hfew⟩ := hinv
  have hentries := hfew v x hx
  have hfamiliar := (h.fits hlittle (h.target hx)).1.familiar _ (h.inFlight hx) rfl
  obtain ⟨target, msg⟩ := x
  cases msg with
  | appendEntries => exact hentries
  | installSnapshot => exact hfamiliar.2.2.2
  | _ => trivial

/-! ## `semihosting_udp/setup.rs` -/

/-- `initialize_client`: five nodes over their files, connected by datagrams. -/
def Firmware.semihostingUdp (files : NodeId → Disk) :
    Firmware String SemihostingStorage EmbassyStateMachine UdpTransportHub :=
  .init .new (fun v => .new (files v)) .new

/-- Where there are no files yet, nothing is stored. -/
theorem Firmware.blank_empty : Blank (SemihostingStorage.new .empty) := rfl

/-- What these nodes do is a run of a cluster whose network may lose and overtake. -/
theorem Firmware.semihostingUdp_carried [Postcard WireRaftMsg] [Postcard Envelope]
    {f : Firmware String SemihostingStorage EmbassyStateMachine UdpTransportHub}
    (hrun : Run step Sound (semihostingUdp fun _ => .empty) f) :
    ∃ c, Reachable (embassyDeployment EmbassyStateMachine.new)
      (Carried (Links.fifo UdpTransportHub)) c ∧ Carries f c := by
  obtain ⟨c, -, h⟩ := follows_run EmbassyStateMachine.savesLittle hrun
    (follows_init (fun _ => blank_empty) fun _ _ => rfl)
  exact ⟨c, h.reachable, h.carries⟩

/-- **Both transports deliver what was sent**, whatever their tasks do: over the channels a node
receives the messages of another one in the order in which they were sent, without a gap; over UDP
some of them, each one unaltered and at most once. -/
theorem transports_deliver [Postcard WireRaftMsg] [Postcard Envelope] {P : Type} :
    (∀ w : Traffic (ChannelTransportHub P) P,
      Run Traffic.step Traffic.Addressed (.start .new) w →
        ∀ u v, w.received u v <+: w.sent u v) ∧
    ∀ w : Traffic UdpTransportHub String,
      Run Traffic.step Traffic.Addressed (.start .new) w →
        ∀ u v, (w.received u v).Subperm (w.sent u v) := by
  constructor
  · intro w hrun u v
    rw [← (Traffic.accounted (fun _ _ => rfl) hrun u v).order trivial]
    exact List.prefix_append _ _
  · intro w hrun u v
    have hfound := (Traffic.accounted (fun _ _ => rfl) hrun u v).found
    exact (List.sublist_append_left _ _).subperm.trans hfound

/-- Node 1 sends three messages to node 2.  The first datagram is lost, and the third overtakes the
second. -/
def overtaken : List (TrafficAction String UdpTask) :=
  [.send 1 2 (.requestVote 1 1 0 0),
    .send 1 2 (.appendEntries 2 0 0 [⟨2, .command "SET x=1"⟩] 0),
    .send 1 2 (.appendEntries 300 1 1 [] 1),
    .task (.sender 1), .task (.sender 1), .task (.sender 1), .task (.lose 0), .task (.listener 2 1),
    .task (.listener 2 0), .recv 2, .recv 2]

theorem transports_deliver_overtaken :
    let w : Traffic UdpTransportHub String := overtaken.foldl Traffic.step (.start .new)
    (w.sent 1 2).map (·.term) = [1, 2, 300] ∧ (w.received 1 2).map (·.term) = [300, 2] ∧
      (w.received 1 2).Subperm (w.sent 1 2) ∧
      ([.send 1 2 (.requestVoteResponse 1 true), .recv 2].foldl Traffic.step (.start .new) :
        Traffic (ChannelTransportHub String) String).received 1 2 <+:
      ([.send 1 2 (.requestVoteResponse 1 true), .recv 2].foldl Traffic.step (.start .new) :
        Traffic (ChannelTransportHub String) String).sent 1 2 := by
  intro w
  have hrun : Run Traffic.step Traffic.Addressed (.start .new) w :=
    Admitted.run overtaken (by decide +kernel)
  have hchannels := (transports_deliver (P := String)).1 _ (Admitted.run
    [.send 1 2 (.requestVoteResponse 1 true), .recv 2] (by decide +kernel)) 1 2
  exact ⟨by decide +kernel, by decide +kernel, (transports_deliver (P := String)).2 w hrun 1 2,
    hchannels⟩

end MetalRaft
