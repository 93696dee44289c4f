import MetalRaft.Timers
import MetalRaft.UdpTransport

/-!
# A node that hears nothing any more

A leader that steps down keeps its heartbeat timer, and nothing else ever resets it.  Once it has
run out, the timer future of `EmbassyNode::run` is ready at every poll, and `select4` polls it before
the transport: the node handles a timer that means nothing to it, over and over.

* `Mailboxes` — a transport of which is known what waits for each node.
* `Deaf` — a node in this state; `InTurn` — `select4` takes the first future that is ready.
* `deaf_for_ever` — such a node never takes a message again, over either transport.
* `resigned_goes_deaf` — a leader that has stepped down becomes one; `never_led_hears`.
* `stuck_for_ever` — over the channels, once its channel is full, whoever has a message for it is
  held up for good.
-/

set_option autoImplicit false

namespace MetalRaft

open Transition

/-- A transport of which is known what waits for each node: only its own `recv` takes from it. -/
class Mailboxes (T : Type) (P : outParam Type) [AsyncTransport T P] where
  mailbox : T → NodeId → List (NodeId × RaftMsg P)
  send_grows {t t' : T} {u w : NodeId} {m : RaftMsg P} (v : NodeId) :
    AsyncTransport.send t u w m = some t' → mailbox t v <+: mailbox t' v
  recv_grows {t t' : T} {u v : NodeId} {r : NodeId × RaftMsg P} : v ≠ u →
    AsyncTransport.recv t u = some (r, t') → mailbox t v <+: mailbox t' v
  run_grows (t : T) (task : AsyncTransport.Task T) (v : NodeId) :
    mailbox t v <+: mailbox (AsyncTransport.run t task) v

theorem update_append_grows {α : Type} (boxes : NodeId → List α) (w : NodeId) (x : α)
    (v : NodeId) : boxes v <+: Function.update boxes w (boxes w ++ [x]) v := by
  by_cases hv : v = w
  · subst hv
    rw [Function.update_self]
    exact List.prefix_append _ _
  · rw [Function.update_of_ne hv]

instance {P : Type} : Mailboxes (ChannelTransportHub P) P where
  mailbox hub v := (hub.channels v).map fun p => (p.src, p.msg)
  send_grows {hub hub' u w m} v h := by
    change hub.send u w m = some hub' at h
    unfold ChannelTransportHub.send at h
    split at h
    · cases h
      exact List.prefix_rfl
    · dsimp only at h
      split at h
      · cases h
        exact (update_append_grows _ _ _ _).map _
      · cases h
  recv_grows {hub hub' u v r} hne h := by
    change hub.recv u = some (r, hub') at h
    unfold ChannelTransportHub.recv at h
    split at h
    · cases h
    · cases h
      dsimp only
      rw [Function.update_of_ne hne]
  run_grows _ task := nomatch task

instance [Postcard WireRaftMsg] [Postcard Envelope] : Mailboxes UdpTransportHub String where
  mailbox hub v := (hub.inbox v).map fun x => (x.1, x.2.1)
  send_grows {hub hub' u w m} v h := by
    change hub.send u w m = some hub' at h
    unfold UdpTransportHub.send at h
    split at h
    · split at h <;> cases h <;> exact List.prefix_rfl
    · cases h
      exact List.prefix_rfl
  recv_grows {hub hub' u v r} hne h := by
    change hub.recv u = some (r, hub') at h
    unfold UdpTransportHub.recv at h
    split at h
    · cases h
    · cases h
      dsimp only
      rw [Function.update_of_ne hne]
  run_grows hub task v := by
    cases task with
    | sender u =>
      show _ <+: ((hub.runUdpSender u).inbox v).map _
      unfold UdpTransportHub.runUdpSender
      split
      · exact List.prefix_rfl
      · split
        · dsimp only
          split <;> exact List.prefix_rfl
        · exact List.prefix_rfl
    | listener u k =>
      show _ <+: ((hub.runUdpListener u k).inbox v).map _
      unfold UdpTransportHub.runUdpListener
      split
      · exact List.prefix_rfl
      · split
        · dsimp only
          split
          · exact List.prefix_rfl
          · split
            · exact (update_append_grows _ _ _ _).map _
            · exact List.prefix_rfl
        · exact List.prefix_rfl
    | lose k => exact List.prefix_rfl

namespace RaftNode.Inert

variable {P S SM : Type} {n n' n'' : RaftNode P S SM}

theorem refl (n : RaftNode P S SM) : Inert n n :=
  ⟨rfl, rfl, rfl, rfl, rfl, rfl, rfl, rfl, rfl, rfl, rfl⟩

theorem trans (h : Inert n n') (h' : Inert n' n'') : Inert n n'' where
  id := h'.id.trans h.id
  role := h'.role.trans h.role
  currentTerm := h'.currentTerm.trans h.currentTerm
  transport := h'.transport.trans h.transport
  storage := h'.storage.trans h.storage
  stateMachine := h'.stateMachine.trans h.stateMachine
  observer := h'.observer.trans h.observer
  votesReceived := h'.votesReceived.trans h.votesReceived
  replication := h'.replication.trans h.replication
  configManager := h'.configManager.trans h.configManager
  snapshotManager := h'.snapshotManager.trans h.snapshotManager

theorem aged (n : RaftNode P S SM) (millis : Nat) : Inert n (n.aged millis) :=
  ⟨rfl, rfl, rfl, rfl, rfl, rfl, rfl, rfl, rfl, rfl, rfl⟩

end RaftNode.Inert

namespace Firmware

variable {P S SM T : Type} [Storage S P] [StateMachine SM P] [AsyncTransport T P]

/-- A node with other members in its configuration that does not lead, has nothing left to send and
is not in its pause, while its heartbeat timer has run out. -/
structure Deaf (f : Firmware P S SM T) (v : NodeId) : Prop where
  follows : (f.nodes v).raftNode.role ≠ .leader
  crowd : 1 < (f.nodes v).raftNode.config.members.length
  silent : (f.nodes v).raftNode.transport = []
  overdue : ∃ reset ∈ (f.nodes v).raftNode.election.timerService.heartbeat,
    reset + heartbeatTimeoutMs ≤ (f.nodes v).raftNode.election.timerService.clock
  awake : f.Awake v

/-- Timers are reported in time, and `select4` takes the first future that is ready. -/
def InTurn (f : Firmware P S SM T) (a : FirmwareAction P (AsyncTransport.Task T)) : Prop :=
  f.Timely a ∧
    match a with
    | .poll _ arm _ => arm = 0
    | _ => True

variable {f f' : Firmware P S SM T} {u v : NodeId} {a : FirmwareAction P (AsyncTransport.Task T)}

omit [Storage S P] [StateMachine SM P] in
/-- With a timer that has expired, something other than a message comes first. -/
theorem ready_first {expired : List TimerKind} (hawake : f.Awake v) (hexpired : expired ≠ []) :
    ∃ first rest, f.ready v expired = first :: rest ∧
      ∀ sender msg, first ≠ .message sender msg := by
  obtain ⟨kind, kinds, rfl⟩ := List.exists_cons_of_ne_nil hexpired
  unfold ready
  rw [if_pos hawake]
  by_cases hcancel : f.Awake v ∧ f.cancelled = true
  · rw [if_pos hcancel]
    exact ⟨_, _, rfl, nofun⟩
  · rw [if_neg hcancel]
    cases (f.nodes v).clientRx with
    | nil => exact ⟨_, _, rfl, nofun⟩
    | cons => exact ⟨_, _, rfl, nofun⟩

/-- The pause of a node ends, or begins when nothing is ready. -/
theorem paused_poll (f : Firmware P S SM T) (u : NodeId) (arm : Nat) (expired : List TimerKind)
    (hready : u = v → f.ready v expired ≠ []) :
    (f.poll u arm expired).paused v = f.paused v ∨ (f.poll u arm expired).paused v = none := by
  unfold poll
  split
  · split
    · rename_i hnone
      split
      · by_cases hv : v = u
        · exact absurd hnone (hv ▸ hready hv.symm)
        · exact Or.inl (Function.update_of_ne hv _ _)
      · exact Or.inl rfl
    · split
      · by_cases hv : v = u
        · subst hv
          exact Or.inr (Function.update_self ..)
        · exact Or.inl (Function.update_of_ne hv _ _)
      · exact Or.inl rfl
  · exact Or.inl rfl

theorem now_poll (f : Firmware P S SM T) (u : NodeId) (arm : Nat) (expired : List TimerKind) :
    (f.poll u arm expired).now = f.now := by
  unfold poll
  split
  · split
    · split <;> rfl
    · split
      · rename_i selected _
        cases selected with
        | message =>
          unfold take
          dsimp only
          split <;> rfl
        | _ => rfl
      · rfl
  · rfl

/-- Node `v` stays awake as long as something is ready for it. -/
theorem awake_step (h : f.Awake v)
    (hready : ∀ arm expired, a = .poll v arm expired → f.ready v expired ≠ []) :
    (f.step a).Awake v := by
  cases a with
  | poll u arm expired =>
    show (if u ∈ embassyMembers then f.poll u arm expired else f).Awake v
    split
    · unfold Awake
      rw [now_poll]
      rcases paused_poll (v := v) f u arm expired (fun hu => hready arm expired (by rw [hu])) with
        hpaused | hpaused
      · rw [hpaused]
        exact h
      · rw [hpaused]
        exact nofun
    · exact h
  | send u =>
    show (if u ∈ embassyMembers then f.send u else f).Awake v
    unfold send
    split
    · split
      · split <;> exact h
      · exact h
    · exact h
  | process u =>
    show (if u ∈ embassyMembers then f.process u else f).Awake v
    unfold process
    split
    · split <;> exact h
    · exact h
  | request u request =>
    show (if (f.nodes u).clientRx.length < clientChannelSize then _ else f).Awake v
    split <;> exact h
  | transport | takeWrite | takeRead | shutdown => exact h
  | advance millis => exact fun t ht => Nat.le_add_right_of_le (h t ht)

/-! ## What a deaf node does -/

omit [AsyncTransport T P] in
/-- To a node that does not lead, an event that is not a message brings a pre-vote at most. -/
theorem inert_onEvent {n : RaftNode P S SM} (hrole : n.role ≠ .leader)
    (hcrowd : 1 < n.config.members.length) (hsilent : n.transport = []) {ev : Event P}
    (hev : (∃ kind, ev = .timerFired kind) ∨ ∃ payload, ev = .clientCommand payload) :
    let n' := { n.onEvent .embassy ev with transport := [] }
    RaftNode.Inert n n' ∧
      n'.election.timerService.heartbeat = n.election.timerService.heartbeat ∧
      n'.election.timerService.clock = n.election.timerService.clock := by
  have hquiet : n.onEvent .embassy ev = n →
      RaftNode.Inert n { n.onEvent .embassy ev with transport := [] } ∧
        (n.onEvent .embassy ev).election.timerService.heartbeat =
          n.election.timerService.heartbeat ∧
        (n.onEvent .embassy ev).election.timerService.clock = n.election.timerService.clock := by
    intro heq
    rw [heq]
    exact ⟨⟨rfl, rfl, rfl, hsilent.symm, rfl, rfl, rfl, rfl, rfl, rfl, rfl⟩, rfl, rfl⟩
  rcases hev with ⟨kind, rfl⟩ | ⟨payload, rfl⟩
  · cases kind with
    | heartbeat => exact hquiet (if_neg hrole)
    | election =>
      have hstarts : n.onEvent .embassy (.timerFired .election) = n.startPreVote .embassy := by
        show n.handleElectionTimer .embassy = _
        rw [RaftNode.handleElectionTimer_eq, if_pos hrole, if_neg (Nat.not_le.mpr hcrowd)]
      dsimp only
      rw [hstarts]
      unfold RaftNode.startPreVote
      rw [RaftNode.broadcast_eq]
      exact ⟨⟨rfl, rfl, rfl, hsilent.symm, rfl, rfl, rfl, rfl, rfl, rfl, rfl⟩, rfl, rfl⟩
  · exact hquiet (congrArg Prod.fst (if_pos hrole))

omit [Storage S P] [StateMachine SM P] [AsyncTransport T P] in
/-- A deaf node stays one as long as its role, its members and its heartbeat timer do. -/
theorem Deaf.of_inert (h : f.Deaf v)
    (hinert : RaftNode.Inert (f.nodes v).raftNode (f'.nodes v).raftNode)
    (hheartbeat : (f'.nodes v).raftNode.election.timerService.heartbeat =
      (f.nodes v).raftNode.election.timerService.heartbeat)
    (hclock : (f.nodes v).raftNode.election.timerService.clock ≤
      (f'.nodes v).raftNode.election.timerService.clock) (hawake : f'.Awake v) : f'.Deaf v := by
  obtain ⟨reset, hreset, hle⟩ := h.overdue
  refine ⟨hinert.role ▸ h.follows, ?_, hinert.transport.trans h.silent,
    ⟨reset, hheartbeat ▸ hreset, by omega⟩, hawake⟩
  unfold RaftNode.config
  rw [hinert.configManager]
  exact h.crowd

omit [Storage S P] [StateMachine SM P] in
/-- When it is polled, something other than a message comes first. -/
theorem Deaf.ready {arm : Nat} {expired : List TimerKind} (h : f.Deaf v)
    (ha : f.InTurn (.poll v arm expired)) :
    arm = 0 ∧ ∃ first rest, f.ready v expired = first :: rest ∧
      ∀ sender msg, first ≠ .message sender msg := by
  have hdue : TimerKind.heartbeat ∈ expired := ha.1.heartbeat.mpr h.overdue
  exact ⟨ha.2, ready_first h.awake (List.ne_nil_of_mem hdue)⟩

theorem deaf_step (h : f.Deaf v) (ha : f.InTurn a) :
    (f.step a).Deaf v ∧
      RaftNode.Inert (f.nodes v).raftNode ((f.step a).nodes v).raftNode := by
  have hawake : (f.step a).Awake v := by
    refine awake_step h.awake fun arm expired heq => ?_
    subst heq
    obtain ⟨-, first, rest, hready, -⟩ := h.ready ha
    rw [hready]
    exact List.cons_ne_nil _ _
  suffices hcore : RaftNode.Inert (f.nodes v).raftNode ((f.step a).nodes v).raftNode ∧
      ((f.step a).nodes v).raftNode.election.timerService.heartbeat =
        (f.nodes v).raftNode.election.timerService.heartbeat ∧
      (f.nodes v).raftNode.election.timerService.clock ≤
        ((f.step a).nodes v).raftNode.election.timerService.clock from
    ⟨h.of_inert hcore.1 hcore.2.1 hcore.2.2 hawake, hcore.1⟩
  have hstep := nodeStep f v a
  clear hawake
  generalize (f.step a).nodes v = n at hstep ⊢
  cases hstep with
  | rests core phase =>
    rw [core]
    exact ⟨.refl _, rfl, Nat.le_refl _⟩
  | sends sending handed core phase =>
    rw [core]
    exact ⟨.refl _, rfl, Nat.le_refl _⟩
  | ends sending core phase =>
    rw [core]
    exact ⟨.refl _, rfl, Nat.le_refl _⟩
  | ages core phase =>
    rw [core]
    exact ⟨.aged _ _, rfl, Nat.le_add_right _ _⟩
  | takes selecting ready taken =>
    obtain ⟨rfl, first, rest, hready, hfirst⟩ := h.ready ha
    have hoffer : f.Offers v _ first := offers_of_ready (hready ▸ List.mem_cons_self)
    rw [hready] at ready
    have hselected := Option.some.inj ready
    subst hselected taken
    cases hevent : first.event with
    | none =>
      rw [(take_quiet h.silent hevent).1]
      exact ⟨.refl _, rfl, Nat.le_refl _⟩
    | some ev =>
      have hev : (∃ kind, ev = .timerFired kind) ∨ ∃ payload, ev = .clientCommand payload := by
        cases first with
        | cancelled => cases hevent
        | client request =>
          cases request with
          | write => exact Or.inr ⟨_, (Option.some.inj hevent).symm⟩
          | read => cases hevent
        | timer => exact Or.inl ⟨_, (Option.some.inj hevent).symm⟩
        | message sender msg => exact absurd rfl (hfirst sender msg)
      obtain ⟨hinert, hheartbeat, hclock⟩ := inert_onEvent h.follows h.crowd h.silent hev
      rw [(take_event hoffer hevent).1]
      exact ⟨hinert, hheartbeat, hclock.ge⟩

theorem mailbox_step [Mailboxes T P] (h : f.Deaf v) (ha : f.InTurn a) :
    Mailboxes.mailbox f.transport v <+: Mailboxes.mailbox (f.step a).transport v := by
  have hstep := transportStep f a
  generalize (f.step a).transport = t at hstep ⊢
  cases hstep with
  | rests same =>
    rw [same]
  | sends sending handed => exact Mailboxes.send_grows v handed
  | receives selecting ready received =>
    refine Mailboxes.recv_grows ?_ received
    rintro rfl
    obtain ⟨rfl, first, rest, hready, hfirst⟩ := h.ready ha
    rw [hready] at ready
    cases ready
    exact hfirst _ _ rfl
  | runs ran =>
    rw [ran]
    exact Mailboxes.run_grows _ _ _

theorem Deaf.run (h : f.Deaf v) (hrun : Run step InTurn f f') : f'.Deaf v :=
  hrun.invariant (I := fun f => f.Deaf v) (fun _ _ hf ha => (deaf_step hf ha).1) h

theorem inert_run (h : f.Deaf v) (hrun : Run step InTurn f f') :
    RaftNode.Inert (f.nodes v).raftNode (f'.nodes v).raftNode := by
  induction hrun with
  | refl => exact .refl _
  | step hbefore ha ih => exact ih.trans (deaf_step (h.run hbefore) ha).2

theorem mailbox_run [Mailboxes T P] (h : f.Deaf v) (hrun : Run step InTurn f f') :
    Mailboxes.mailbox f.transport v <+: Mailboxes.mailbox f'.transport v := by
  induction hrun with
  | refl => exact List.prefix_rfl
  | step hbefore ha ih => exact ih.trans (mailbox_step (h.run hbefore) ha)

/-- **A deaf node stays deaf**: whatever happens, it takes no message that waits for it, and nothing
of it changes but its pre-votes and its clock. -/
theorem deaf_for_ever [Mailboxes T P] (h : f.Deaf v) (hrun : Run step InTurn f f') :
    f'.Deaf v ∧ RaftNode.Inert (f.nodes v).raftNode (f'.nodes v).raftNode ∧
      Mailboxes.mailbox f.transport v <+: Mailboxes.mailbox f'.transport v :=
  ⟨h.run hrun, inert_run h hrun, mailbox_run h hrun⟩

instance (f : Firmware P S SM T) :
    (a : FirmwareAction P (AsyncTransport.Task T)) → Decidable (f.InTurn a)
  | .poll v arm expired => inferInstanceAs (Decidable (f.Timely (.poll v arm expired) ∧ arm = 0))
  | .send _ | .process _ | .transport _ | .request _ _ | .takeWrite | .takeRead | .shutdown
  | .advance _ => isTrue ⟨trivial, trivial⟩

/-- Node `v` handles some events that make it send one message at most. -/
def roundsOf (v : NodeId) (rounds : Nat) : List (FirmwareAction String Empty) :=
  (List.replicate rounds (roundOf v [] 1)).flatten

/-- The last of some events makes the node send a message to each of its peers. -/
def broadcastAfter (v : NodeId) (rounds : Nat) : List (FirmwareAction String Empty) :=
  roundsOf v rounds ++ List.replicate 3 (.send v) ++ [.process v]

/-- Node 2 asks for votes in term 2, and node 1 steps down; then its heartbeat timer runs out. -/
def deposed : List (FirmwareAction String Empty) :=
  elected ++ roundsOf 4 3 ++ roundsOf 5 3 ++ .advance 300 :: roundOf 2 [.election] 4 ++
    roundsOf 3 2 ++ roundsOf 5 1 ++ broadcastAfter 2 3 ++ roundOf 1 [.heartbeat] 4 ++
    roundsOf 1 10 ++ [.advance 100]

/-- Node 2 is elected in term 2. -/
def reelected : List (FirmwareAction String Empty) :=
  roundsOf 3 1 ++ roundsOf 5 1 ++ broadcastAfter 2 4 ++ roundsOf 2 1 ++ roundsOf 4 4

theorem deposed_inTurn : Admitted step InTurn memoryChannel deposed := by decide +kernel

theorem deaf_deposed : (deposed.foldl step memoryChannel).Deaf 1 where
  follows := by decide +kernel
  crowd := by decide +kernel
  silent := by decide +kernel
  overdue := by decide +kernel
  awake := by decide +kernel

/-- Node 1 goes on handling its timer while the messages of the new leader wait. -/
theorem deaf_for_ever_deposed :
    let f := deposed.foldl step memoryChannel
    let f' := (reelected ++ roundOf 1 [.heartbeat] 0 ++ roundOf 1 [.heartbeat] 0).foldl step f
    Run step InTurn memoryChannel f ∧ (f'.nodes 2).raftNode.role = .leader ∧
      f'.Deaf 1 ∧ RaftNode.Inert (f.nodes 1).raftNode (f'.nodes 1).raftNode ∧
      Mailboxes.mailbox f.transport 1 <+: Mailboxes.mailbox f'.transport 1 := by
  have hrest : Admitted step InTurn (deposed.foldl step memoryChannel)
      (reelected ++ roundOf 1 [.heartbeat] 0 ++ roundOf 1 [.heartbeat] 0) := by decide +kernel
  have hlead : (((reelected ++ roundOf 1 [.heartbeat] 0 ++ roundOf 1 [.heartbeat] 0).foldl step
      (deposed.foldl step memoryChannel)).nodes 2).raftNode.role = .leader := by decide +kernel
  exact ⟨deposed_inTurn.run _, hlead, deaf_for_ever deaf_deposed (hrest.run _)⟩

/-! ## Who goes deaf -/

variable {ok : Firmware P S SM T → FirmwareAction P (AsyncTransport.Task T) → Prop}

/-- Outboxes have been drained, and a leader has its heartbeat timer armed. -/
structure Beating (n : RaftNode P S SM) : Prop where
  silent : n.transport = []
  armed : n.role = .leader → n.heartbeatArmed

theorem beating_step (h : Beating (f.nodes v).raftNode) :
    Beating ((f.step a).nodes v).raftNode := by
  have hstep := coreStep h.silent a
  generalize ((f.step a).nodes v).raftNode = n at hstep ⊢
  cases hstep with
  | rests same =>
    rw [same]
    exact h
  | handles ev handled =>
    rw [handled]
    exact ⟨rfl, (RaftNode.onEvent_timing .embassy (f.nodes v).raftNode ev).armed h.armed⟩
  | ages millis aged =>
    rw [aged]
    exact ⟨h.silent, h.armed⟩

theorem beating_run (h : Beating (f.nodes v).raftNode) (hrun : Run step ok f f') :
    Beating (f'.nodes v).raftNode :=
  hrun.invariant (I := fun f => Beating (f.nodes v).raftNode) (fun _ _ hf _ => beating_step hf) h

omit [AsyncTransport T P] in
theorem beating_init {transport : T} {storage : NodeId → S} {sm : SM} (v : NodeId) :
    Beating ((init transport storage sm).nodes v).raftNode :=
  ⟨rfl, fun hrole => (by cases hrole)⟩

/-- Node `v` does not lead afterwards. -/
def Unelected (v : NodeId) (f : Firmware P S SM T)
    (a : FirmwareAction P (AsyncTransport.Task T)) : Prop :=
  ((f.step a).nodes v).raftNode.role ≠ .leader

theorem heartbeat_step (h : Beating (f.nodes v).raftNode) (ha : f.Unelected v a) :
    ((f.step a).nodes v).raftNode.election.timerService.heartbeat =
      (f.nodes v).raftNode.election.timerService.heartbeat := by
  have hstep := coreStep h.silent a
  unfold Unelected at ha
  generalize ((f.step a).nodes v).raftNode = n at hstep ha ⊢
  cases hstep with
  | rests same => rw [same]
  | handles ev handled =>
    rw [handled] at ha ⊢
    exact (RaftNode.onEvent_timing .embassy (f.nodes v).raftNode ev).heartbeat_eq ha
  | ages millis aged =>
    rw [aged]
    rfl

/-- Nobody else resets the heartbeat timer that a leader has left armed. -/
theorem heartbeat_run (h : Beating (f.nodes v).raftNode) (hok : ∀ f a, ok f a → f.Unelected v a)
    (hrun : Run step ok f f') :
    (f'.nodes v).raftNode.election.timerService.heartbeat =
      (f.nodes v).raftNode.election.timerService.heartbeat := by
  induction hrun with
  | refl => rfl
  | step hbefore ha ih => exact (heartbeat_step (beating_run h hbefore) (hok _ _ ha)).trans ih

/-- A node that never leads does not go deaf. -/
theorem never_led_hears {transport : T} {storage : NodeId → S} {sm : SM}
    (hrun : Run step (fun f a => f.Unelected v a) (init transport storage sm) f) : ¬ f.Deaf v := by
  intro hdeaf
  have hnone := heartbeat_run (beating_init v) (fun _ _ hok => hok) hrun
  obtain ⟨reset, hreset, -⟩ := hdeaf.overdue
  rw [hnone] at hreset
  cases hreset

section

variable [LogStorage S P] [LawfulStorage S P] [DeviceStorage S P] [Links T P] {sm : SM}

/-- **A leader that has stepped down goes deaf**, unless it is elected again within the time of one
heartbeat. -/
theorem resigned_goes_deaf (hlittle : SavesLittle SM) {transport : T} {storage : NodeId → S}
    (hblank : ∀ v, Blank (storage v)) (hempty : ∀ u v, Links.link transport u v = [])
    (hrun : Run step Sound (init transport storage sm) f) (hv : v ∈ embassyMembers)
    (hlead : (f.nodes v).raftNode.role = .leader)
    (hlater : Run step (fun f a => f.Sound a ∧ f.Unelected v a) f f')
    (hleft : (f'.nodes v).raftNode.role ≠ .leader)
    (hdue : ∀ reset ∈ (f.nodes v).raftNode.election.timerService.heartbeat,
      reset + heartbeatTimeoutMs ≤ (f'.nodes v).raftNode.election.timerService.clock)
    (hawake : f'.Awake v) : f'.Deaf v := by
  have hbeating := beating_run (beating_init v) hrun
  obtain ⟨reset, hreset⟩ := Option.isSome_iff_exists.mp (hbeating.armed hlead)
  have hkept := heartbeat_run hbeating (fun _ _ hok => hok.2) hlater
  obtain ⟨c, -, h⟩ := follows_run hlittle (hrun.trans (hlater.mono fun _ _ hok => hok.1))
    (follows_init hblank hempty)
  have hfixed := h.reachable.fixed fun _ _ hok => hok.fixed
  have hmembers := (hfixed.node v hv).config.length_eq
  rw [h.carries.nodes v hv] at hmembers
  refine ⟨hleft, ?_, h.carries.silent v, ⟨reset, hkept ▸ hreset, hdue reset hreset⟩, hawake⟩
  have hfive : (f'.nodes v).raftNode.config.members.length = embassyMembers.length := hmembers
  rw [hfive]
  decide

end

instance (v : NodeId) (f : Firmware P S SM T) (a : FirmwareAction P (AsyncTransport.Task T)) :
    Decidable (f.Unelected v a) :=
  inferInstanceAs (Decidable (_ ≠ _))

/-- Node 1 leads until the last of its rounds, in which it steps down; 100 ms later it is deaf. -/
theorem resigned_goes_deaf_deposed :
    let f := (deposed.take 115).foldl step memoryChannel
    (f.nodes 1).raftNode.role = .leader ∧ ((deposed.drop 115).foldl step f).Deaf 1 := by
  have hsound : Admitted step Sound memoryChannel (deposed.take 115) := by decide +kernel
  have hlater : Admitted step (fun f a => f.Sound a ∧ f.Unelected 1 a)
      ((deposed.take 115).foldl step memoryChannel) (deposed.drop 115) := by decide +kernel
  refine ⟨by decide +kernel, ?_⟩
  exact resigned_goes_deaf EmbassyStateMachine.savesLittle (fun _ => blank_new)
    (fun _ _ => rfl) (hsound.run _) (by decide) (by decide +kernel) (hlater.run _)
    (by decide +kernel) (by decide +kernel) (by decide +kernel)

/-! ## Whoever has a message for a deaf node -/

section

variable {f f' : Firmware P S SM (ChannelTransportHub P)}
  {a : FirmwareAction P (AsyncTransport.Task (ChannelTransportHub P))}

/-- A full channel takes no message. -/
theorem send_full {hub : ChannelTransportHub P} {m : RaftMsg P} (hv : v ∈ embassyMembers)
    (hfull : ChannelTransportHub.channelSize ≤ (hub.channels v).length) :
    hub.send u v m = none := by
  have hvalid : ¬ (v = 0 ∨ v > 5) :=
    (by decide : ∀ w ∈ embassyMembers, ¬ (w = 0 ∨ w > 5)) v hv
  unfold ChannelTransportHub.send
  rw [if_neg hvalid]
  exact if_neg (Nat.not_lt.mpr hfull)

/-- A node waits for room in the channel of `v`, now or after the messages before that one. -/
def HeldUp (f : Firmware P S SM T) (u v : NodeId) : Prop := v ∈ (f.nodes u).drained.map (·.1)

instance (f : Firmware P S SM T) (u v : NodeId) : Decidable (f.HeldUp u v) :=
  inferInstanceAs (Decidable (v ∈ _))

theorem stuck_step (hv : v ∈ embassyMembers)
    (hfull : ChannelTransportHub.channelSize ≤ (f.transport.channels v).length)
    (h : f.HeldUp u v) : (f.step a).HeldUp u v ∧
      RaftNode.Inert (f.nodes u).raftNode ((f.step a).nodes u).raftNode := by
  have hstep := nodeStep f u a
  unfold HeldUp at h ⊢
  generalize (f.step a).nodes u = n at hstep ⊢
  cases hstep with
  | rests core phase =>
    rw [EmbassyNode.drained_of_phase phase, core]
    exact ⟨h, .refl _⟩
  | takes selecting =>
    rw [EmbassyNode.drained_selecting selecting] at h
    cases h
  | @sends first rest _ sending handed core phase =>
    rw [EmbassyNode.drained_sending sending, List.map_cons, List.mem_cons] at h
    rw [EmbassyNode.drained_sending phase, core]
    rcases h with rfl | h
    · cases (send_full hv hfull).symm.trans handed
    · exact ⟨h, .refl _⟩
  | ends sending =>
    rw [EmbassyNode.drained_sending sending] at h
    cases h
  | ages core phase =>
    rw [EmbassyNode.drained_of_phase phase, core]
    exact ⟨h, .aged _ _⟩

/-- **Behind a deaf node with a full channel everyone is stuck**: a node that has a message for it
never finishes sending, and handles no other event. -/
theorem stuck_for_ever (hdeaf : f.Deaf v) (hv : v ∈ embassyMembers)
    (hfull : ChannelTransportHub.channelSize ≤ (f.transport.channels v).length)
    (h : f.HeldUp u v) (hrun : Run step InTurn f f') :
    f'.HeldUp u v ∧ RaftNode.Inert (f.nodes u).raftNode (f'.nodes u).raftNode := by
  induction hrun with
  | refl => exact ⟨h, .refl _⟩
  | step hbefore ha ih =>
    obtain ⟨hheld, hinert⟩ := ih
    have hgrows := (mailbox_run hdeaf hbefore).length_le
    change ((f.transport.channels v).map _).length ≤ _ at hgrows
    rw [List.length_map] at hgrows
    have hfull' := hfull.trans (hgrows.trans_eq (List.length_map _))
    obtain ⟨hnext, hsame⟩ := stuck_step hv hfull' hheld
    exact ⟨hnext, hinert.trans hsame⟩

/-- The new leader beats until the channel of node 1 is full. -/
def filled : List (FirmwareAction String Empty) :=
  reelected ++ (List.replicate 31 (.advance 100 :: roundOf 2 [.heartbeat] 4)).flatten

theorem stuck_for_ever_filled :
    let f := filled.foldl step (deposed.foldl step memoryChannel)
    let f' := [.advance 600, .send 2, .poll 2 0 [.heartbeat]].foldl step f
    Run step InTurn memoryChannel f ∧ (f.nodes 2).raftNode.role = .leader ∧ f'.HeldUp 2 1 ∧
      RaftNode.Inert (f.nodes 2).raftNode (f'.nodes 2).raftNode := by
  have hfilled : Admitted step InTurn (deposed.foldl step memoryChannel) filled := by
    decide +kernel
  have hrest : Admitted step InTurn (filled.foldl step (deposed.foldl step memoryChannel))
      [.advance 600, .send 2, .poll 2 0 [.heartbeat]] := by decide +kernel
  have hlead : ((filled.foldl step (deposed.foldl step memoryChannel)).nodes 2).raftNode.role =
      .leader := by decide +kernel
  have hdeaf := deaf_deposed.run (hfilled.run _)
  exact ⟨(deposed_inTurn.run _).trans (hfilled.run _), hlead,
    stuck_for_ever hdeaf (by decide) (by decide +kernel) (by decide +kernel) (hrest.run _)⟩

end

end Firmware

end MetalRaft
