import MetalRaft.Clocks

/-!
# A leader in time stays

A leader keeps its followers from standing for election by the messages it sends.  All that is
needed is that they arrive before the clock has moved on by what an election timer waits longer
than the heartbeat timer.

* `Commands`, `Obeys` — what the leader and its followers do in the meantime, timers included.
* `Punctual` — the runs in which heartbeats are sent and arrive in time.
* `Reign` — the leader's last heartbeat has reached every follower, or is on its way to it.
* `reign_lasts` — in such runs no election timer ever runs out.
-/

set_option autoImplicit false

namespace MetalRaft

open Transition

variable {P SM : Type}

/-! ## What a leader and its followers do -/

namespace RaftNode

variable [StateMachine SM P]

section

variable {n n' : TestNode P SM} {sender : NodeId} {msg : RaftMsg P}

/-- A leader goes on leading.  Its heartbeat timer is reset only when everyone is sent a message. -/
structure Commands (n n' : TestNode P SM) : Prop where
  role : n'.role = .leader
  term : n'.currentTerm = n.currentTerm
  sent : ∀ p ∈ n'.outbox, p.src = n.id ∧ p.dst ∈ n.config.peers n.id ∧ p.msg.Leads n.currentTerm
  timers : n'.election.timerService = n.election.timerService ∨
    n'.election.timerService = n.election.timerService.resetHeartbeatTimer ∧
      ∀ u ∈ n.config.peers n.id, ∃ p ∈ n'.outbox, p.dst = u

theorem commands_heartbeat (hsilent : n.transport = []) (hstored : n.TermStored)
    (hrole : n.role = .leader) :
    Commands n (n.onEvent .testUtils (.timerFired .heartbeat)) ∧
      (n.onEvent .testUtils (.timerFired .heartbeat)).election.timerService =
        n.election.timerService.resetHeartbeatTimer := by
  obtain ⟨hsent, hall⟩ := outbox_sendAppendEntries hsilent hstored
  have heq : n.onEvent .testUtils (.timerFired .heartbeat) = n.sendHeartbeats .testUtils := by
    show n.handleHeartbeatTimer .testUtils = _
    unfold handleHeartbeatTimer
    rw [if_pos hrole]
  have htimers : (n.sendHeartbeats .testUtils).election.timerService =
      n.election.timerService.resetHeartbeatTimer := by
    unfold sendHeartbeats
    rw [sendAppendEntriesToFollowers_eq]
  rw [heq]
  refine ⟨⟨?_, ?_, hsent, Or.inr ⟨htimers, hall⟩⟩, htimers⟩
  · unfold sendHeartbeats
    rw [sendAppendEntriesToFollowers_eq]
    exact hrole
  · unfold sendHeartbeats
    rw [sendAppendEntriesToFollowers_eq]

theorem commands_client (hsilent : n.transport = []) (hstored : n.TermStored)
    (hrole : n.role = .leader) (hpeers : 1 < n.config.members.length) (payload : P) :
    Commands n (n.onEvent .testUtils (.clientCommand payload)) := by
  have heq : n.onEvent .testUtils (.clientCommand payload) =
      (n.withStorage (n.storage.appendEntries
        [⟨n.currentTerm, .command payload⟩])).sendAppendEntriesToFollowers .testUtils := by
    show (n.submitEntry .testUtils (.command payload)).1 = _
    have hmany : ¬ n.config.members.length ≤ 1 := Nat.not_le.mpr hpeers
    unfold submitEntry
    rw [if_neg (not_not.mpr hrole)]
    dsimp only
    split
    · rename_i halone
      exact absurd halone hmany
    · rfl
  obtain ⟨hsent, -⟩ := outbox_sendAppendEntries (n := n.withStorage (n.storage.appendEntries
    [⟨n.currentTerm, .command payload⟩])) hsilent hstored
  rw [heq]
  refine ⟨?_, ?_, hsent, Or.inl ?_⟩ <;> rw [sendAppendEntriesToFollowers_eq]
  · exact hrole
  · rfl
  · rfl

theorem commands_answer {d : Deployment SM} (hsilent : n.transport = []) (hfixed : FixedNode d n)
    (sender : NodeId) (hmsg : msg.Answers n.currentTerm) (hrole : n.role = .leader) :
    Commands n (n.onEvent .testUtils (.message sender msg)) := by
  obtain ⟨s, hsrole, hsterm, -, hy⟩ := yields_answer hsilent hfixed sender hmsg hrole
  refine ⟨?_, ?_, ?_, Or.inl ?_⟩
  · exact (congrArg Sheet.role hy.sheet).trans hsrole
  · exact (congrArg Sheet.term hy.sheet).trans hsterm
  · rw [hy.sent]
    exact fun p hp => absurd hp List.not_mem_nil
  · cases msg with
    | appendEntriesResponse term success m =>
      have hterm : term = n.currentTerm := hmsg
      show (n.handleAppendEntriesResponse .testUtils sender term success m).election.timerService =
        _
      unfold handleAppendEntriesResponse
      rw [if_neg (Nat.not_lt.mpr (Nat.le_of_eq hterm)), if_pos ⟨hrole, hterm⟩,
        timers_recordAppendEntriesResponse]
    | installSnapshotResponse term success =>
      have hterm : term = n.currentTerm := hmsg
      show (n.handleInstallSnapshotResponse .testUtils sender term success).election.timerService =
        _
      unfold handleInstallSnapshotResponse
      rw [if_neg (Nat.not_lt.mpr (Nat.le_of_eq hterm)), if_pos ⟨hrole, hterm⟩]
      split <;> rfl
    | preVoteRequest | preVoteResponse | requestVote | requestVoteResponse | appendEntries
    | installSnapshot => exact hmsg.elim

theorem idle_heartbeat (hrole : n.role ≠ .leader) :
    n.onEvent .testUtils (.timerFired .heartbeat) = n := by
  show n.handleHeartbeatTimer .testUtils = n
  unfold handleHeartbeatTimer
  rw [if_neg hrole]

theorem idle_client (hrole : n.role ≠ .leader) (payload : P) :
    n.onEvent .testUtils (.clientCommand payload) = n := by
  show (n.submitEntry .testUtils (.command payload)).1 = n
  unfold submitEntry
  rw [if_pos hrole]

end

end RaftNode

/-! ## The reign of a leader -/

section

variable [StateMachine SM P] {d : Deployment SM} {c c₀ c' : Cluster P SM} {a : Action P}
  {l u v : NodeId} {T E H now beat : Nat}

/-- Heartbeats go out every `H` and arrive before the clock moves on; an election timer fires only
when it has run for `E`.  Messages of a leader are not lost, and no leader crashes. -/
def Punctual (d : Deployment SM) (E H : Nat) (c : Cluster P SM) : Action P → Prop
  | .advance millis =>
    millis + H ≤ E ∧ (∀ p ∈ c.network, (c.nodes p.src).role ≠ .leader) ∧
      ∀ v ∈ d.members, (c.nodes v).role = .leader →
        ∃ reset ∈ (c.nodes v).election.timerService.heartbeat,
          (c.nodes v).election.timerService.clock < reset + H
  | .timer v kind => TimersWait E c (.timer v kind)
  | .lose i => ∀ p ∈ c.network[i]?, (c.nodes p.src).role ≠ .leader
  | .restart v => (c.nodes v).role ≠ .leader
  | .configChange _ _ => False
  | .deliver _ | .duplicate _ | .client _ _ => True

instance : (a : Action P) → Decidable (Punctual d E H c a)
  | .advance millis => inferInstanceAs (Decidable (millis + H ≤ E ∧
      (∀ p ∈ c.network, (c.nodes p.src).role ≠ .leader) ∧
        ∀ v ∈ d.members, (c.nodes v).role = .leader →
          ∃ reset ∈ (c.nodes v).election.timerService.heartbeat,
            (c.nodes v).election.timerService.clock < reset + H))
  | .timer v kind => inferInstanceAs (Decidable (TimersWait E c (.timer v kind)))
  | .lose i => inferInstanceAs (Decidable (∀ p ∈ c.network[i]?, (c.nodes p.src).role ≠ .leader))
  | .restart v => inferInstanceAs (Decidable ((c.nodes v).role ≠ .leader))
  | .configChange _ _ => isFalse id
  | .deliver _ | .duplicate _ | .client _ _ => isTrue trivial

/-- Node `l` leads term `T`, and every other member follows.  The last heartbeat was sent at `beat`;
whoever has not yet heard of it has a message of `l` waiting. -/
structure Reign (d : Deployment SM) (l : NodeId) (T E now beat : Nat) (c : Cluster P SM) :
    Prop where
  reach : Reachable d FixedMembership c
  clocks : c.Shows now
  leads : (c.nodes l).role = .leader ∧ (c.nodes l).currentTerm = T
  timers : (c.nodes l).election.timerService = ⟨none, some beat, now⟩
  past : beat ≤ now
  follows : ∀ u ∈ d.members, u ≠ l →
    (c.nodes u).role = .follower ∧ (c.nodes u).currentTerm = T
  sent : ∀ p ∈ c.network, (p.src = l ∧ p.dst ≠ l ∧ p.msg.Leads T) ∨
    (p.src ≠ l ∧ p.dst = l ∧ p.msg.Answers T)
  waits : ∀ u ∈ d.members, u ≠ l →
    ∃ reset, (c.nodes u).election.timerService.election = some reset ∧ now < reset + E ∧
      (beat ≤ reset ∨ ∃ msg, ⟨l, u, msg⟩ ∈ c.network)

theorem Reign.standing (h : Reign d l T E now beat c) : Standing d d.members.toFinset c :=
  standing_of_reachable h.reach fun _ hv => List.mem_toFinset.mp hv

/-- The leader handles an event. -/
theorem Reign.command {ev : Event P} (h : Reign d l T E now beat c) (hl : l ∈ d.members)
    (hreach : Reachable d FixedMembership (c₀.dispatch l ev)) (hnodes : c₀.nodes = c.nodes)
    (hold : ∀ q ∈ c₀.network, q ∈ c.network)
    (hkept : ∀ q ∈ c.network, q.dst ≠ l → q ∈ c₀.network)
    (hcom : RaftNode.Commands (c.nodes l) ((c.nodes l).onEvent .testUtils ev)) :
    ∃ beat', beat ≤ beat' ∧ Reign d l T E now beat' (c₀.dispatch l ev) := by
  have hc := h.standing
  have hclocks := h.clocks.withNode hnodes l ev
  have hself : (c₀.dispatch l ev).nodes l =
      { (c.nodes l).onEvent .testUtils ev with transport := [] } := by
    unfold Cluster.dispatch
    rw [Cluster.withNode_nodes_self, hnodes]
  have hothers : ∀ u, u ≠ l → (c₀.dispatch l ev).nodes u = c.nodes u := by
    intro u hu
    unfold Cluster.dispatch
    rw [Cluster.withNode_nodes_ne hu, hnodes]
  have hnet : (c₀.dispatch l ev).network =
      c₀.network ++ ((c.nodes l).onEvent .testUtils ev).outbox := by
    unfold Cluster.dispatch
    rw [Cluster.withNode_network, hnodes]
  have hid : (c.nodes l).id = l := (hc.settled l).1
  have hleads : ((c₀.dispatch l ev).nodes l).role = .leader ∧
      ((c₀.dispatch l ev).nodes l).currentTerm = T := by
    rw [hself]
    exact ⟨hcom.role, hcom.term.trans h.leads.2⟩
  have hfollows : ∀ u ∈ d.members, u ≠ l → ((c₀.dispatch l ev).nodes u).role = .follower ∧
      ((c₀.dispatch l ev).nodes u).currentTerm = T := by
    intro u hu hne
    rw [hothers u hne]
    exact h.follows u hu hne
  have hsent : ∀ p ∈ (c₀.dispatch l ev).network, (p.src = l ∧ p.dst ≠ l ∧ p.msg.Leads T) ∨
      (p.src ≠ l ∧ p.dst = l ∧ p.msg.Answers T) := by
    intro p hp
    rw [hnet] at hp
    rcases List.mem_append.mp hp with hp | hp
    · exact h.sent p (hold p hp)
    · obtain ⟨hsrc, hdst, hmsg⟩ := hcom.sent p hp
      rw [hid] at hsrc hdst
      rw [h.leads.2] at hmsg
      exact Or.inl ⟨hsrc, (Configuration.mem_peers.mp hdst).2, hmsg⟩
  have hwaiting : ∀ u msg, u ≠ l → ⟨l, u, msg⟩ ∈ c.network →
      ⟨l, u, msg⟩ ∈ (c₀.dispatch l ev).network := by
    intro u msg hne hm
    rw [hnet]
    exact List.mem_append_left _ (hkept _ hm hne)
  rcases hcom.timers with htimers | ⟨htimers, hall⟩
  · refine ⟨beat, Nat.le_refl _, hreach, hclocks, hleads, ?_, h.past, hfollows, hsent,
      fun u hu hne => ?_⟩
    · rw [hself]
      exact htimers.trans h.timers
    · obtain ⟨reset, hreset, hlt, hheard⟩ := h.waits u hu hne
      rw [hothers u hne]
      exact ⟨reset, hreset, hlt, hheard.imp_right fun ⟨msg, hm⟩ => ⟨msg, hwaiting u msg hne hm⟩⟩
  · -- everyone has a new message waiting
    refine ⟨now, h.past, hreach, hclocks, hleads, ?_, Nat.le_refl _, hfollows, hsent,
      fun u hu hne => ?_⟩
    · rw [hself]
      exact htimers.trans (by rw [h.timers]; rfl)
    · obtain ⟨reset, hreset, hlt, -⟩ := h.waits u hu hne
      rw [hothers u hne]
      refine ⟨reset, hreset, hlt, Or.inr ?_⟩
      obtain ⟨p, hp, rfl⟩ := hall u (hid.symm ▸
        mem_peers_of_standing hc (List.mem_toFinset.mpr hl) (List.mem_toFinset.mpr hu) hne)
      obtain ⟨hsrc, -, -⟩ := hcom.sent p hp
      have heq : ⟨l, p.dst, p.msg⟩ = p :=
        congrArg (Packet.mk · p.dst p.msg) (hid.symm.trans hsrc.symm)
      refine ⟨p.msg, ?_⟩
      rw [heq, hnet]
      exact List.mem_append_right _ hp

/-- A follower hears of its leader. -/
theorem Reign.hear {i : Nat} {msg : RaftMsg P} (h : Reign d l T E now beat c) (hE : 0 < E)
    (hu : u ∈ d.members) (hne : u ≠ l) (hmsg : msg.Leads T)
    (hi : c.network[i]? = some ⟨l, u, msg⟩)
    (hreach : Reachable d FixedMembership (c.step d (.deliver i))) :
    Reign d l T E now beat (c.step d (.deliver i)) := by
  have hc := h.standing
  obtain ⟨hrole, hterm⟩ := h.follows u hu hne
  subst hterm
  obtain ⟨s, sent, hsrole, hsterm, hsent, hy⟩ :=
    RaftNode.yields_lead (hc.settled u).2 l hmsg (Or.inr ⟨rfl, hrole⟩)
  have hid : (c.nodes u).id = u := (hc.settled u).1
  have hstep := hc.step_deliver hi (List.mem_toFinset.mpr hu)
  dsimp only at hstep
  rw [hstep] at hreach ⊢
  have hself : (Cluster.dispatch { c with network := c.network.eraseIdx i } u
      (.message l msg)).nodes u =
        { (c.nodes u).onEvent .testUtils (.message l msg) with transport := [] } := by
    unfold Cluster.dispatch
    rw [Cluster.withNode_nodes_self]
  have hothers : ∀ w, w ≠ u → (Cluster.dispatch { c with network := c.network.eraseIdx i } u
      (.message l msg)).nodes w = c.nodes w := by
    intro w hw
    unfold Cluster.dispatch
    rw [Cluster.withNode_nodes_ne hw]
  have hnet : (Cluster.dispatch { c with network := c.network.eraseIdx i } u
      (.message l msg)).network = c.network.eraseIdx i ++ sent := by
    unfold Cluster.dispatch
    rw [Cluster.withNode_network, hy.sent]
  have hlead := hothers l hne.symm
  refine ⟨hreach, h.clocks.withNode rfl u _, ?_, ?_, h.past, fun w hw hwl => ?_, fun p hp => ?_,
    fun w hw hwl => ?_⟩
  · rw [hlead]
    exact h.leads
  · rw [hlead]
    exact h.timers
  · by_cases hwu : w = u
    · rw [hwu, hself]
      exact ⟨(congrArg Sheet.role hy.sheet).trans hsrole,
        (congrArg Sheet.term hy.sheet).trans hsterm⟩
    · rw [hothers w hwu]
      exact h.follows w hw hwl
  · rw [hnet] at hp
    rcases List.mem_append.mp hp with hp | hp
    · exact h.sent p (List.mem_of_mem_eraseIdx hp)
    · obtain ⟨hsrc, hdst, hanswers⟩ := hsent p hp
      refine Or.inr ⟨?_, hdst, hanswers⟩
      rw [hsrc, hid]
      exact hne
  · by_cases hwu : w = u
    · have hclock : (c.nodes u).election.timerService.clock = now :=
        congrArg Prod.fst (h.clocks u)
      rw [hwu, hself]
      refine ⟨now, ?_, Nat.lt_add_of_pos_right hE, Or.inl h.past⟩
      show ((c.nodes u).onEvent .testUtils (.message l msg)).election.timerService.election = _
      rw [RaftNode.timers_lead hmsg]
      exact congrArg some hclock
    · obtain ⟨reset, hreset, hlt, hheard⟩ := h.waits w hw hwl
      rw [hothers w hwu]
      refine ⟨reset, hreset, hlt, hheard.imp_right fun ⟨m, hm⟩ => ⟨m, ?_⟩⟩
      rw [hnet]
      refine List.mem_append_left _ (mem_eraseIdx_of_ne hm fun hsame => hwu ?_)
      rw [hi, Option.mem_some] at hsame
      exact (congrArg Packet.dst hsame).symm

omit [StateMachine SM P] in
theorem Punctual.fixedMembership (h : Punctual d E H c a) : FixedMembership c a := by
  cases a with
  | configChange => exact h.elim
  | _ => trivial

/-- An event that leaves a node as it was leaves the cluster as it was. -/
theorem dispatch_idle {ev : Event P} (hs : Settled c)
    (hidle : (c.nodes v).onEvent .testUtils ev = c.nodes v) : c.dispatch v ev = c := by
  have hsilent : (c.nodes v).transport = [] := (hs v).2
  have hsame : ({ c.nodes v with transport := [] } : TestNode P SM) = c.nodes v :=
    (congrArg (fun t => ({ c.nodes v with transport := t } : TestNode P SM)) hsilent).symm
  have hout : (c.nodes v).outbox = [] := by
    unfold RaftNode.outbox
    rw [hsilent]
    rfl
  unfold Cluster.dispatch Cluster.withNode
  rw [hidle, hsame, hout, Function.update_eq_self, List.append_nil, List.append_nil]

theorem Reign.deliver {i : Nat} (h : Reign d l T E now beat c) (hl : l ∈ d.members) (hE : 0 < E)
    (hreach : Reachable d FixedMembership (c.step d (.deliver i))) :
    ∃ beat', beat ≤ beat' ∧ Reign d l T E now beat' (c.step d (.deliver i)) := by
  have hc := h.standing
  cases hi : c.network[i]? with
  | none =>
    have hsame : c.step d (.deliver i) = c := by simp [Cluster.step, hi]
    exact ⟨beat, Nat.le_refl _, hsame.symm ▸ h⟩
  | some p =>
    have hp := List.mem_of_getElem? hi
    have hdst : p.dst ∈ d.members := (hc.fixed.sent _ (hc.fixed.inFlight _ hp)).dst
    obtain ⟨src, dst, msg⟩ := p
    rcases h.sent _ hp with ⟨hsrc, hne, hleads⟩ | ⟨-, hto, hanswers⟩
    · obtain rfl : src = l := hsrc
      exact ⟨beat, Nat.le_refl _, h.hear hE hdst hne hleads hi hreach⟩
    · obtain rfl : dst = l := hto
      have hstep := hc.step_deliver hi (List.mem_toFinset.mpr hdst)
      dsimp only at hstep
      rw [hstep] at hreach ⊢
      refine h.command hl hreach rfl (fun q hq => List.mem_of_mem_eraseIdx hq)
        (fun q hq hne => mem_eraseIdx_of_ne hq fun hsame => hne ?_)
        (RaftNode.commands_answer (hc.settled _).2 (hc.fixed.node _ hdst) src
          (h.leads.2.symm ▸ hanswers) h.leads.1)
      rw [hi, Option.mem_some] at hsame
      exact (congrArg Packet.dst hsame).symm

/-- No election timer has run out. -/
theorem Reign.timers_wait (h : Reign d l T E now beat c) (hv : v ∈ d.members) {reset : Nat}
    (hreset : reset ∈ (c.nodes v).election.timerService.election) :
    (c.nodes v).election.timerService.clock < reset + E := by
  have hclock : (c.nodes v).election.timerService.clock = now := congrArg Prod.fst (h.clocks v)
  rw [hclock]
  by_cases hvl : v = l
  · rw [hvl, h.timers] at hreset
    cases hreset
  · obtain ⟨r, hr, hlt, -⟩ := h.waits v hv hvl
    rw [hr, Option.mem_some] at hreset
    exact hreset ▸ hlt

/-- Timers and commands. -/
theorem Reign.event {ev : Event P} (h : Reign d l T E now beat c) (hl : l ∈ d.members)
    (hreach : Reachable d FixedMembership (c.dispatch v ev))
    (hidle : (c.nodes v).role ≠ .leader → (c.nodes v).onEvent .testUtils ev = c.nodes v)
    (hcom : (c.nodes l).role = .leader →
      RaftNode.Commands (c.nodes l) ((c.nodes l).onEvent .testUtils ev)) (hv : v ∈ d.members) :
    ∃ beat', beat ≤ beat' ∧ Reign d l T E now beat' (c.dispatch v ev) := by
  by_cases hvl : v = l
  · subst hvl
    exact h.command hl hreach rfl (fun _ hq => hq) (fun _ hq _ => hq) (hcom h.leads.1)
  · have hrole : (c.nodes v).role ≠ .leader := by
      rw [(h.follows v hv hvl).1]
      exact nofun
    rw [dispatch_idle h.standing.settled (hidle hrole)]
    exact ⟨beat, Nat.le_refl _, h⟩

/-- Nothing happens to the nodes, and no message of the leader disappears. -/
theorem Reign.rest {net log : List (Packet P)} (h : Reign d l T E now beat c)
    (hreach : Reachable d FixedMembership ⟨c.nodes, net, log⟩)
    (hold : ∀ q ∈ net, q ∈ c.network) (hkept : ∀ q ∈ c.network, q.src = l → q ∈ net) :
    Reign d l T E now beat ⟨c.nodes, net, log⟩ :=
  ⟨hreach, h.clocks, h.leads, h.timers, h.past, h.follows, fun q hq => h.sent q (hold q hq),
    fun u hu hne => (h.waits u hu hne).imp fun _ hr => ⟨hr.1, hr.2.1,
      hr.2.2.imp_right fun ⟨msg, hm⟩ => ⟨msg, hkept _ hm rfl⟩⟩⟩

/-- A follower begins anew, over what it has stored. -/
theorem Reign.restart (h : Reign d l T E now beat c) (hE : 0 < E) (hvl : v ≠ l)
    (hreach : Reachable d FixedMembership (c.step d (.restart v))) :
    Reign d l T E now beat (c.step d (.restart v)) := by
  have hself : (c.step d (.restart v)).nodes v = (c.nodes v).restart d := by
    unfold Cluster.step
    exact Function.update_self ..
  have hothers : ∀ u, u ≠ v → (c.step d (.restart v)).nodes u = c.nodes u := by
    intro u hu
    unfold Cluster.step
    exact Function.update_of_ne hu ..
  have hlead := hothers l hvl.symm
  have hlease : (c.nodes v).leaderLease.clock = now := congrArg Prod.snd (h.clocks v)
  refine ⟨hreach, shows_restart h.clocks v, ?_, ?_, h.past, fun u hu hne => ?_, h.sent,
    fun u hu hne => ?_⟩
  · rw [hlead]
    exact h.leads
  · rw [hlead]
    exact h.timers
  · by_cases huv : u = v
    · subst huv
      have hstored : (c.nodes u).storage.currentTerm = (c.nodes u).currentTerm :=
        h.reach.termStored hu
      rw [hself]
      exact ⟨rfl, hstored.trans (h.follows u hu hne).2⟩
    · rw [hothers u huv]
      exact h.follows u hu hne
  · by_cases huv : u = v
    · rw [huv, hself]
      exact ⟨now, congrArg some hlease, Nat.lt_add_of_pos_right hE, Or.inl h.past⟩
    · rw [hothers u huv]
      exact h.waits u hu hne

/-- The clock moves on when everyone has heard of the last heartbeat, and this is not long ago. -/
theorem Reign.advance {millis : Nat} (h : Reign d l T E now beat c) (hl : l ∈ d.members)
    (hok : Punctual d E H c (.advance millis))
    (hreach : Reachable d FixedMembership (c.step d (.advance millis))) :
    Reign d l T E (now + millis) beat (c.step d (.advance millis)) := by
  obtain ⟨hmillis, hquiet, hbeats⟩ := hok
  obtain ⟨reset, hreset, hrecent⟩ := hbeats l hl h.leads.1
  rw [h.timers] at hreset hrecent
  obtain rfl : beat = reset := Option.some.inj hreset
  have hnone : ∀ u msg, ⟨l, u, msg⟩ ∉ c.network := fun u msg hm => hquiet _ hm h.leads.1
  refine ⟨hreach, shows_advance h.clocks millis, h.leads, ?_, Nat.le_add_right_of_le h.past,
    h.follows, h.sent, fun u hu hne => ?_⟩
  · show ({ (c.nodes l).election.timerService with
      clock := (c.nodes l).election.timerService.clock + millis } : TimerService) = _
    rw [h.timers]
  · obtain ⟨r, hr, -, hheard⟩ := h.waits u hu hne
    have hle : beat ≤ r := hheard.resolve_right fun ⟨msg, hm⟩ => hnone u msg hm
    refine ⟨r, hr, ?_, Or.inl hle⟩
    dsimp only at hrecent
    omega

/-- Nothing takes the leader its place while the clock stands still. -/
theorem Reign.act (h : Reign d l T E now beat c) (hl : l ∈ d.members)
    (hmany : 1 < d.members.length) (hE : 0 < E) (hok : Punctual d E H c a)
    (ha : ∀ millis, a ≠ .advance millis) :
    ∃ beat', beat ≤ beat' ∧ Reign d l T E now beat' (c.step d a) := by
  have hc := h.standing
  have hreach : Reachable d FixedMembership (c.step d a) := .step h.reach hok.fixedMembership
  have hevent : ∀ v ev, c.step d a = (if v ∈ d.members then c.dispatch v ev else c) →
      ((c.nodes v).role ≠ .leader → (c.nodes v).onEvent .testUtils ev = c.nodes v) →
      ((c.nodes l).role = .leader →
        RaftNode.Commands (c.nodes l) ((c.nodes l).onEvent .testUtils ev)) →
      ∃ beat', beat ≤ beat' ∧ Reign d l T E now beat' (c.step d a) := by
    intro v ev hstep hidle hcom
    by_cases hv : v ∈ d.members
    · rw [if_pos hv] at hstep
      rw [hstep] at hreach ⊢
      exact h.event hl hreach hidle hcom hv
    · rw [if_neg hv] at hstep
      exact ⟨beat, Nat.le_refl _, hstep.symm ▸ h⟩
  have hsilent := (hc.settled l).2
  have hstored := h.reach.termStored hl
  cases a with
  | deliver i => exact h.deliver hl hE hreach
  | lose i =>
    refine ⟨beat, Nat.le_refl _, h.rest hreach (fun q hq => List.mem_of_mem_eraseIdx hq)
      fun q hq hsrc => mem_eraseIdx_of_ne hq fun hsame => ?_⟩
    exact hok q hsame (hsrc.symm ▸ h.leads.1)
  | duplicate i =>
    refine ⟨beat, Nat.le_refl _, h.rest hreach (fun q hq => ?_)
      fun q hq _ => List.mem_append_left _ hq⟩
    rcases List.mem_append.mp hq with hq | hq
    · exact hq
    · exact List.mem_of_getElem? (Option.mem_toList.mp hq)
  | timer v kind =>
    cases kind with
    | election =>
      obtain ⟨reset, hreset, hdue⟩ := hok
      by_cases hv : v ∈ d.members
      · exact absurd hdue (Nat.not_le.mpr (h.timers_wait hv hreset))
      · have hsame : c.step d (.timer v .election) = c := by
          unfold Cluster.step
          exact if_neg hv
        exact ⟨beat, Nat.le_refl _, hsame.symm ▸ h⟩
    | heartbeat =>
      exact hevent v _ rfl (fun hrole => RaftNode.idle_heartbeat hrole) fun hrole =>
        (RaftNode.commands_heartbeat hsilent hstored hrole).1
  | client v payload =>
    refine hevent v _ rfl (fun hrole => RaftNode.idle_client hrole payload) fun hrole =>
      RaftNode.commands_client hsilent hstored hrole ?_ payload
    exact (hc.config (List.mem_toFinset.mpr hl)).length_eq ▸ hmany
  | restart v =>
    refine ⟨beat, Nat.le_refl _, h.restart hE (fun hvl => ?_) hreach⟩
    exact hok (hvl.symm ▸ h.leads.1)
  | advance millis => exact absurd rfl (ha millis)
  | configChange => exact hok.elim

theorem Reign.step (h : Reign d l T E now beat c) (hl : l ∈ d.members)
    (hmany : 1 < d.members.length) (hE : 0 < E) (hok : Punctual d E H c a) :
    ∃ now' beat', Reign d l T E now' beat' (c.step d a) := by
  by_cases ha : ∃ millis, a = .advance millis
  · obtain ⟨millis, rfl⟩ := ha
    exact ⟨_, _, h.advance hl hok (.step h.reach hok.fixedMembership)⟩
  · obtain ⟨beat', -, hreign⟩ := h.act hl hmany hE hok fun millis heq => ha ⟨millis, heq⟩
    exact ⟨now, beat', hreign⟩

/-- **A leader in time stays.**  Let everyone follow a leader who has sent its last heartbeat less
than `E` ago, and everyone have heard of it since.  As long as heartbeats go out every `H` and
arrive before the clock moves on, by no more than what `E` exceeds `H`, the leader leads its term,
everyone follows in it, and no election timer runs for `E`. -/
theorem reign_lasts (h : Reachable d FixedMembership c) (hmany : 1 < d.members.length)
    (hl : l ∈ d.members) (hlead : (c.nodes l).role = .leader)
    (hfollow : ∀ u ∈ d.members, u ≠ l →
      (c.nodes u).role = .follower ∧ (c.nodes u).currentTerm = (c.nodes l).currentTerm)
    (hquiet : c.network = [])
    (htimers : (c.nodes l).election.timerService = ⟨none, some beat, now⟩)
    (hpast : beat ≤ now) (hrecent : now < beat + E)
    (hheard : ∀ u ∈ d.members, u ≠ l →
      ∃ reset, (c.nodes u).election.timerService.election = some reset ∧ beat ≤ reset)
    (hrun : Run (Cluster.step d) (Punctual d E H) c c') :
    (c'.nodes l).role = .leader ∧ (c'.nodes l).currentTerm = (c.nodes l).currentTerm ∧
      (∀ u ∈ d.members, u ≠ l →
        (c'.nodes u).role = .follower ∧ (c'.nodes u).currentTerm = (c.nodes l).currentTerm) ∧
      ∀ v ∈ d.members, ∀ reset ∈ (c'.nodes v).election.timerService.election,
        (c'.nodes v).election.timerService.clock < reset + E := by
  obtain ⟨now', hclocks⟩ := h.shows
  obtain rfl : now = now' := by
    have hclock := congrArg Prod.fst (hclocks l)
    unfold RaftNode.clocks at hclock
    rw [htimers] at hclock
    exact hclock
  have hstart : Reign d l (c.nodes l).currentTerm E now beat c := by
    refine ⟨h, hclocks, ⟨hlead, rfl⟩, htimers, hpast, hfollow, ?_, fun u hu hne => ?_⟩
    · rw [hquiet]
      exact fun p hp => absurd hp List.not_mem_nil
    · obtain ⟨reset, hreset, hle⟩ := hheard u hu hne
      exact ⟨reset, hreset, by omega, Or.inl hle⟩
  obtain ⟨now', beat', hreign⟩ := Run.invariant
    (I := fun c' => ∃ now' beat', Reign d l (c.nodes l).currentTerm E now' beat' c')
    (fun _ _ ⟨_, _, hr⟩ hok => hr.step hl hmany (by omega) hok) hrun ⟨now, beat, hstart⟩
  exact ⟨hreign.leads.1, hreign.leads.2, hreign.follows,
    fun v hv reset hreset => hreign.timers_wait hv hreset⟩

end

/-- Node 1 of three is elected after 150 ms. -/
def electedRun : List (Action UInt8) :=
  .advance 150 :: .timer 1 .election :: List.replicate 14 (.deliver 0)

def electedTrio : Cluster UInt8 Adder := Cluster.play trio electedRun

/-- Commands, heartbeats, a crash of node 2 and lost answers, for 300 ms. -/
def reignRun : List (Action UInt8) :=
  [.advance 40, .client 1 7, .duplicate 1, .deliver 1, .deliver 0, .timer 1 .heartbeat, .deliver 0,
    .lose 0, .restart 2, .deliver 1, .deliver 1, .advance 100, .timer 1 .heartbeat, .deliver 4,
    .deliver 3, .client 1 8, .deliver 5, .deliver 5, .deliver 3, .advance 49, .timer 3 .heartbeat,
    .advance 100, .timer 1 .heartbeat]

theorem reign_lasts_trio :
    let c := reignRun.foldl (Cluster.step trio) electedTrio
    (c.nodes 1).role = .leader ∧ (c.nodes 1).currentTerm = (electedTrio.nodes 1).currentTerm ∧
      (∀ u ∈ trio.members, u ≠ 1 → (c.nodes u).role = .follower ∧
        (c.nodes u).currentTerm = (electedTrio.nodes 1).currentTerm) ∧
      ∀ v ∈ trio.members, ∀ reset ∈ (c.nodes v).election.timerService.election,
        (c.nodes v).election.timerService.clock < reset + 150 := by
  intro c
  have hreach : Reachable trio FixedMembership electedTrio :=
    Admitted.run electedRun (by decide +kernel)
  have hrun : Run (Cluster.step trio) (Punctual trio 150 50) electedTrio c :=
    Admitted.run reignRun (by decide +kernel)
  have htimers : (electedTrio.nodes 1).election.timerService = ⟨none, some 150, 150⟩ := by
    decide +kernel
  exact reign_lasts hreach (by decide) (by decide) (by decide +kernel) (by decide +kernel)
    (by decide +kernel) htimers (by decide) (by decide) (by decide +kernel) hrun

end MetalRaft
