import MetalRaft.DeliveryRounds
import MetalRaft.ElectionSafety

/-!
# What a test does is a run of a cluster

The network of `Cluster` is one list of messages; the test cluster keeps a queue for each receiver
and delivers in rounds.  Still every step of a test is a run of the cluster, in which each message
is delivered at most once and in the order of its link.

* `connectPeers_get` — `connect_peers` builds anew, over its old storage, every node that is in its
  own configuration.
* `Mirrors` — a test cluster, with the messages taken from the queues and not yet handled, shows
  the state of a cluster.
* `tests_refine_cluster` — the refinement; `test_one_leader_per_term` carries election safety over
  to whatever a test with a fixed population does.
-/

set_option autoImplicit false

namespace MetalRaft

open Transition

/-- An element that a filter keeps is found in the list itself, between what else it keeps. -/
theorem exists_getElem?_of_filter {α : Type} {l before after : List α} {p : α → Bool} {x : α}
    (h : l.filter p = before ++ x :: after) :
    ∃ k, l[k]? = some x ∧ (l.take k).filter p = before ∧ (l.drop (k + 1)).filter p = after := by
  obtain ⟨l₁, l₂, rfl, hbefore, hafter⟩ := List.filter_eq_append_iff.mp h
  obtain ⟨l₃, l₄, rfl, hskipped, -, hrest⟩ := List.filter_eq_cons_iff.mp hafter
  have htake : (l₁ ++ (l₃ ++ x :: l₄)).take (l₁.length + l₃.length) = l₁ ++ l₃ := by
    rw [← List.append_assoc, ← List.length_append, List.take_left]
  have hdrop : (l₁ ++ (l₃ ++ x :: l₄)).drop (l₁.length + l₃.length + 1) = l₄ := by
    rw [← List.append_assoc, ← List.length_append, ← List.drop_drop, List.drop_left]
    rfl
  refine ⟨l₁.length + l₃.length, ?_, ?_, ?_⟩
  · rw [← List.append_assoc, ← List.length_append, List.getElem?_append_right (Nat.le_refl _)]
    simp
  · rw [htake, List.filter_append, hbefore, List.filter_eq_nil_iff.mpr hskipped, List.append_nil]
  · rw [hdrop, hrest]

/-- Removing an element that a filter does not keep. -/
theorem filter_eraseIdx {α : Type} {l : List α} {p : α → Bool} {x : α} {k : Nat}
    (hk : l[k]? = some x) (hx : p x = false) : (l.eraseIdx k).filter p = l.filter p := by
  obtain ⟨hlt, rfl⟩ := List.getElem?_eq_some_iff.mp hk
  have hsplit : l.filter p = (l.take k ++ l[k] :: l.drop (k + 1)).filter p := by
    rw [← List.drop_eq_getElem_cons hlt, List.take_append_drop]
  rw [hsplit, List.eraseIdx_eq_take_drop_succ, List.filter_append, List.filter_append,
    List.filter_cons_of_neg (by simp [hx])]

variable {P SM : Type}

namespace TestAction

/-- The actions that leave the population alone. -/
def KeepsNodes : TestAction P → Prop
  | .addNode _ _ | .removeNode _ | .connectPeers => False
  | _ => True

/-- The actions that submit no configuration change. -/
def KeepsMembership : TestAction P → Prop
  | .configChange _ _ => False
  | _ => True

instance : (a : TestAction P) → Decidable a.KeepsNodes
  | .addNode _ _ | .removeNode _ | .connectPeers => isFalse id
  | .timer _ _ | .client _ _ | .configChange _ _ | .deliverMessages | .deliverMessageFromTo _ _
  | .deliverMessagesPartition _ | .partition _ _ | .partitionNode _ | .healPartition
  | .clearMessageLog => isTrue trivial

instance : (a : TestAction P) → Decidable a.KeepsMembership
  | .configChange _ _ => isFalse id
  | .addNode _ _ | .removeNode _ | .connectPeers | .timer _ _ | .client _ _ | .deliverMessages
  | .deliverMessageFromTo _ _ | .deliverMessagesPartition _ | .partition _ _ | .partitionNode _
  | .healPartition | .clearMessageLog => isTrue trivial

end TestAction

namespace TimelessTestCluster

variable [StateMachine SM P]

/-! ## Connecting the peers -/

omit [StateMachine SM P] in
/-- `connect_peers` compares the members of a node, which include the node, with the other nodes. -/
theorem peersMatch_eq_false {n : TestNode P SM} {v : NodeId} {expected : List NodeId}
    (hself : v ∈ n.config.members) (hnodup : expected.Nodup) (hout : v ∉ expected) :
    peersMatch n expected = false := by
  unfold peersMatch
  split
  · rfl
  · by_contra hmatch
    simp only [Bool.and_eq_false_imp, decide_eq_true_eq, List.all_eq_false, not_forall, not_exists,
      not_and, List.contains_iff_mem, exists_prop, not_not] at hmatch
    obtain ⟨hlength, hsub⟩ := hmatch
    have hnodup' : (v :: expected).Nodup := List.nodup_cons.mpr ⟨hout, hnodup⟩
    have hsub' : (v :: expected) ⊆ n.config.members := by
      intro u hu
      rcases List.mem_cons.mp hu with rfl | hu
      · exact hself
      · simpa using hsub u hu
    have hle := (hnodup'.subperm hsub').length_le
    rw [List.length_cons] at hle
    omega

/-- The node as `connect_peers` builds it anew. -/
def reconnected (c : TimelessTestCluster P SM) (ids : List NodeId) (v : NodeId)
    (n : TestNode P SM) : TestNode P SM :=
  c.buildNode v n.storage n.stateMachine (ids.filter (· ≠ v))

/-- Nothing but the nodes differs, and the same ids have nodes. -/
structure SamePlaces (c c' : TimelessTestCluster P SM) : Prop where
  keys : ∀ v, v ∈ c'.nodes.keys ↔ v ∈ c.nodes.keys
  messageBroker : c'.messageBroker = c.messageBroker
  messageLog : c'.messageLog = c.messageLog
  partitionGroups : c'.partitionGroups = c.partitionGroups
  snapshotThreshold : c'.snapshotThreshold = c.snapshotThreshold

omit [StateMachine SM P] in
theorem SamePlaces.trans {c₁ c₂ c₃ : TimelessTestCluster P SM} (h₁ : SamePlaces c₁ c₂)
    (h₂ : SamePlaces c₂ c₃) : SamePlaces c₁ c₃ :=
  ⟨fun v => (h₂.keys v).trans (h₁.keys v), h₂.messageBroker.trans h₁.messageBroker,
    h₂.messageLog.trans h₁.messageLog, h₂.partitionGroups.trans h₁.partitionGroups,
    h₂.snapshotThreshold.trans h₁.snapshotThreshold⟩

omit [StateMachine SM P] in
theorem peersMatch_out {n : TestNode P SM} {v : NodeId} {ids : List NodeId} (h : ids.Nodup)
    (hself : v ∈ n.config.members) : peersMatch n (ids.filter (· ≠ v)) = false :=
  peersMatch_eq_false hself (h.filter _) (by simp)

/-- What a turn of the loop leaves at the id of a node. -/
def connected (c : TimelessTestCluster P SM) (ids : List NodeId) (v : NodeId)
    (n : TestNode P SM) : TestNode P SM :=
  if peersMatch n (ids.filter (· ≠ v)) then n else c.reconnected ids v n

theorem connectNode_spec {c : TimelessTestCluster P SM} (ids : List NodeId) {v : NodeId}
    {n : TestNode P SM} (hget : c.nodes.get v = some n) :
    SamePlaces c (connectNode ids c v) ∧
      (connectNode ids c v).nodes.get v = some (c.connected ids v n) ∧
      ∀ u, u ≠ v → (connectNode ids c v).nodes.get u = c.nodes.get u := by
  unfold connectNode connected
  rw [hget]
  dsimp only
  split
  · exact ⟨⟨fun _ => Iff.rfl, rfl, rfl, rfl, rfl⟩, hget, fun _ _ => rfl⟩
  · refine ⟨⟨fun u => ?_, rfl, rfl, rfl, rfl⟩, IndexMap.get_insert_self _ _ _, fun u hu => ?_⟩
    · by_cases hu : u = v
      · subst hu
        simp [IndexMap.mem_keys, hget]
      · simp [IndexMap.mem_keys, hu]
    · simp [hu]

/-- The loop, over any of the nodes: each id is visited once. -/
theorem connectNodes_get (ids : List NodeId) : ∀ (vs : List NodeId)
    {c : TimelessTestCluster P SM}, vs.Nodup → (∀ v ∈ vs, ∃ n, c.nodes.get v = some n) →
    SamePlaces c (vs.foldl (connectNode ids) c) ∧
      ∀ v, (vs.foldl (connectNode ids) c).nodes.get v =
        if v ∈ vs then (c.nodes.get v).map (c.connected ids v) else c.nodes.get v
  | [], _, _, _ => ⟨⟨fun _ => Iff.rfl, rfl, rfl, rfl, rfl⟩, fun v => by simp⟩
  | v :: vs, c, hvs, hthere => by
    rw [List.nodup_cons] at hvs
    obtain ⟨n, hget⟩ := hthere v List.mem_cons_self
    obtain ⟨hplaces, hnew, hothers⟩ := connectNode_spec ids hget
    have hrest : ∀ u ∈ vs, ∃ n, (connectNode ids c v).nodes.get u = some n := by
      intro u hu
      rw [hothers u fun h => hvs.1 (h ▸ hu)]
      exact hthere u (List.mem_cons_of_mem _ hu)
    obtain ⟨hplaces', hget'⟩ := connectNodes_get ids vs hvs.2 hrest
    have hsame : (connectNode ids c v).connected ids = c.connected ids := by
      funext u n'
      unfold connected reconnected buildNode
      rw [hplaces.snapshotThreshold]
    refine ⟨hplaces.trans hplaces', fun u => ?_⟩
    rw [List.foldl_cons, hget' u, hsame]
    by_cases hu : u = v
    · subst hu
      rw [if_neg hvs.1, hnew, if_pos List.mem_cons_self, hget]
      rfl
    · rw [hothers u hu]
      simp [hu]

theorem connectPeers_spec (c : TimelessTestCluster P SM) :
    SamePlaces c c.connectPeers ∧
      ∀ v, c.connectPeers.nodes.get v = (c.nodes.get v).map (c.connected c.nodes.keys v) := by
  obtain ⟨hplaces, hget⟩ := connectNodes_get c.nodes.keys c.nodes.keys (c := c) c.nodes.nodup
    fun v hv => IndexMap.mem_keys.mp hv
  refine ⟨hplaces, fun v => ?_⟩
  unfold connectPeers
  rw [hget v]
  split
  · rfl
  · rename_i hv
    rw [IndexMap.get_eq_none.mpr hv]
    rfl

theorem mem_reconnected {c : TimelessTestCluster P SM} {ids : List NodeId} {v u : NodeId}
    {n : TestNode P SM} (hv : v ∈ ids) :
    u ∈ (c.reconnected ids v n).config.members ↔ u ∈ ids := by
  have hmembers : ∀ (vs l : List NodeId),
      vs.foldl (pushWithin Realization.testUtils.nodes) l = l ++ vs := by
    intro vs
    induction vs with
    | nil => exact fun l => (List.append_nil l).symm
    | cons w vs ih => exact fun l => (ih _).trans (by simp [pushWithin, Realization.testUtils])
  unfold reconnected buildNode RaftNode.newFromBuilder RaftNode.config ConfigChangeManager.new
  dsimp only
  rw [hmembers]
  by_cases hu : u = v
  · subst hu
    simp [hv, pushWithin, Realization.testUtils]
  · simp [hu, pushWithin, Realization.testUtils]

/-- **`connect_peers` visits every node once.**  One that is in its own configuration is always
built anew, over the storage and the state machine it has, with all the others as its peers: it
forgets its role, its term's leader, its votes and what it has committed, and a snapshot in its
storage restores the machine.  Only a node outside its own configuration can be kept. -/
theorem connectPeers_get (c : TimelessTestCluster P SM) :
    SamePlaces c c.connectPeers ∧
      ∀ v, c.connectPeers.nodes.get v = (c.nodes.get v).map (c.connected c.nodes.keys v) ∧
        ∀ n, c.nodes.get v = some n →
          (v ∈ n.config.members →
            c.connected c.nodes.keys v n = c.reconnected c.nodes.keys v n) ∧
          ∀ u, u ∈ (c.reconnected c.nodes.keys v n).config.members ↔ u ∈ c.nodes.keys := by
  obtain ⟨hplaces, hget⟩ := connectPeers_spec c
  refine ⟨hplaces, fun v => ⟨hget v, fun n hn => ⟨fun hself => ?_, fun u => ?_⟩⟩⟩
  · unfold connected
    rw [peersMatch_out (show c.nodes.keys.Nodup from c.nodes.nodup) hself]
    rfl
  · exact mem_reconnected (IndexMap.mem_keys.mpr ⟨n, hn⟩)

/-- A leader that has removed itself is kept, with what it has committed, when three nodes are
connected again; the others are built anew. -/
theorem connectPeers_get_trio :
    let c := [TestAction.timer 1 .election, .deliverMessages, .configChange 1 (.removeServer 1),
        .deliverMessages].foldl (step (⟨0⟩ : Adder))
      (withNodes ⟨0⟩ 3 : TimelessTestCluster UInt8 Adder)
    (c.connectPeers.nodes.get 1).map (fun n => (n.config.members, n.replication.commitIndex)) =
        some ([2, 3], 1) ∧
      c.connectPeers.nodes.get 2 = (c.nodes.get 2).map (c.reconnected c.nodes.keys 2) := by
  intro c
  have hself : ∀ e ∈ c.nodes.entries, e.1 = 2 → 2 ∈ e.2.config.members := by decide +kernel
  obtain ⟨-, hget⟩ := connectPeers_get c
  refine ⟨?_, ?_⟩
  · rw [(hget 1).1]
    decide +kernel
  · obtain ⟨hnew, hbuilt⟩ := hget 2
    rw [hnew]
    cases hn : c.nodes.get 2 with
    | none => rfl
    | some n => exact congrArg some ((hbuilt n hn).1 (hself _ (IndexMap.get_eq_some.mp hn) rfl))

/-! ## The start -/

/-- The cluster that a test starts with: nodes with the given ids, connected to each other. -/
def populated (fresh : SM) (threshold : Nat) (ids : List NodeId) : TimelessTestCluster P SM :=
  (ids.foldl (addNode fresh) (new.withSnapshotThreshold threshold)).connectPeers

omit [StateMachine SM P] in
/-- The deployment of the nodes that a test starts with. -/
def deployment (fresh : SM) (threshold : Nat) (ids : List NodeId) (h : ids.Nodup) :
    Deployment SM where
  members := ids
  nodup := h
  peers v := ids.filter (· ≠ v)
  peers_perm v hv := by
    have herase : ids.filter (· ≠ v) = ids.erase v := by
      rw [List.Nodup.erase_eq_filter h v]
      exact List.filter_congr fun u _ => by by_cases hu : u = v <;> simp [hu]
    rw [herase]
    exact (List.perm_cons_erase hv).symm
  snapshotThreshold _ := threshold
  leaseDurationMillis _ := 5000
  freshMachine := fresh

theorem addNodes_get (fresh : SM) (threshold : Nat) :
    ∀ (ids : List NodeId) {c : TimelessTestCluster P SM}, c.snapshotThreshold = threshold →
      (∀ v n, c.nodes.get v = some n →
        n = .newFromBuilder .testUtils v .new fresh ⟨none, none, 0⟩ [] [] ⟨[]⟩ threshold 0 5000) →
      ids.Nodup → (∀ v ∈ ids, v ∉ c.nodes.keys) →
      let c' := ids.foldl (addNode fresh) c
      c'.nodes.keys = c.nodes.keys ++ ids ∧ c'.messageBroker = c.messageBroker ∧
        c'.snapshotThreshold = threshold ∧ ∀ v n, c'.nodes.get v = some n →
          n = .newFromBuilder .testUtils v .new fresh ⟨none, none, 0⟩ [] [] ⟨[]⟩ threshold 0 5000
  | [], c, hthreshold, hc, _, _ => ⟨by simp, rfl, hthreshold, hc⟩
  | id :: ids, c, hthreshold, hc, hids, hnew => by
    rw [List.nodup_cons] at hids
    have hkeys : (c.addNode fresh id).nodes.keys = c.nodes.keys ++ [id] := by
      show (c.nodes.insert id _).keys = _
      rw [IndexMap.keys_insert, if_neg (hnew id List.mem_cons_self)]
    obtain ⟨hkeys', hbroker, hthreshold', hnodes⟩ := addNodes_get fresh threshold ids
      (c := c.addNode fresh id) hthreshold (fun v n hn => by
        by_cases hv : v = id
        · subst hv
          rw [← Option.some.inj (hn.symm.trans (IndexMap.get_insert_self _ _ _)).symm]
          unfold buildNode
          rw [hthreshold]
        · exact hc v n ((IndexMap.get_insert_ne _ hv _).symm.trans hn)) hids.2 (fun v hv => by
        rw [hkeys, List.mem_append, List.mem_singleton, not_or]
        exact ⟨hnew v (List.mem_cons_of_mem _ hv), fun h => hids.1 (h ▸ hv)⟩)
    refine ⟨?_, hbroker, hthreshold', hnodes⟩
    rw [List.foldl_cons, hkeys', hkeys, List.append_assoc]
    rfl

theorem populated_spec (fresh : SM) (threshold : Nat) {ids : List NodeId} (h : ids.Nodup) :
    let c : TimelessTestCluster P SM := populated fresh threshold ids
    (∀ v, v ∈ c.nodes.keys ↔ v ∈ ids) ∧ (∀ v, c.waiting v = []) ∧
      ∀ v n, c.nodes.get v = some n →
        n = RaftNode.boot (deployment fresh threshold ids h) v .new ⟨[]⟩ 0 := by
  obtain ⟨hkeys, hbroker, hthreshold, hnodes⟩ := addNodes_get (P := P) fresh threshold ids
    (c := new.withSnapshotThreshold threshold) rfl (fun v n hn => by cases hn) h
    (fun v _ hv => by cases hv)
  generalize hc : ids.foldl (addNode fresh)
    ((new : TimelessTestCluster P SM).withSnapshotThreshold threshold) = c at *
  obtain ⟨hplaces, hget⟩ := connectPeers_spec c
  have hnodup : c.nodes.keys.Nodup := c.nodes.nodup
  have hkeys : c.nodes.keys = ids := hkeys
  unfold populated
  rw [hc]
  refine ⟨fun v => by rw [hplaces.keys, hkeys], fun v => ?_, fun v n hn => ?_⟩
  · unfold waiting
    rw [hplaces.messageBroker, hbroker]
    rfl
  · rw [hget, Option.map_eq_some_iff] at hn
    obtain ⟨old, hold, rfl⟩ := hn
    have hself : v ∈ old.config.members := by
      rw [hnodes v old hold]
      simp [RaftNode.newFromBuilder, RaftNode.config, ConfigChangeManager.new, pushWithin,
        Realization.testUtils]
    unfold connected
    rw [peersMatch_out hnodup hself, hkeys, hnodes v old hold]
    unfold reconnected buildNode
    rw [hthreshold]
    rfl

/-! ## Mirroring -/

section

variable {d : Deployment SM} {t t' : TimelessTestCluster P SM} {c c' : Cluster P SM}
  {ps : List (Packet P)} {p : Packet P} {v : NodeId} {ev : Event P} {fixed : Prop}

/-- A test cluster shows the state of a cluster, while the messages `ps` have been taken from the
queues and are still to be handled. -/
structure Mirrors (d : Deployment SM) (t : TimelessTestCluster P SM) (ps : List (Packet P))
    (c : Cluster P SM) : Prop where
  members : ∀ v, v ∈ t.nodes.keys ↔ v ∈ d.members
  nodes : ∀ v n, t.nodes.get v = some n → c.nodes v = n
  wired : Wired t
  network : ∀ v, c.network.filter (·.dst = v) =
    ps.filter (·.dst = v) ++ (t.waiting v).map fun m => ⟨m.1, v, m.2⟩

/-- The runs that tests make: no message is delivered twice or out of order, and unless a test
submits a configuration change the membership is fixed. -/
def Tested (fixed : Prop) (c : Cluster P SM) (a : Action P) : Prop :=
  AtMostOnce c a ∧ InOrder c a ∧ (fixed → FixedMembership c a)

/-- What the delivery of messages does: those that the network lets pass are delivered, each behind
the earlier ones on its link, and the others are lost. -/
def Serves (should : NodeId → NodeId → Bool) (c : Cluster P SM) : Action P → Prop
  | .deliver k => InOrder c (.deliver k) ∧ ∃ p, c.network[k]? = some p ∧ should p.src p.dst = true
  | .lose k => ∃ p, c.network[k]? = some p ∧ should p.src p.dst = false
  | _ => False

omit [StateMachine SM P] in
theorem Serves.tested {should : NodeId → NodeId → Bool} {a : Action P} (h : Serves should c a) :
    Tested fixed c a := by
  cases a with
  | deliver => exact ⟨trivial, h.1, fun _ => trivial⟩
  | lose => exact ⟨trivial, trivial, fun _ => trivial⟩
  | duplicate | timer | client | configChange | restart | advance => cases h

omit [StateMachine SM P] in
theorem Mirrors.log (h : Mirrors d t ps c) (log : List (Packet P)) :
    Mirrors d { t with messageLog := log } ps c :=
  ⟨h.members, h.nodes, h.wired, h.network⟩

omit [StateMachine SM P] in
theorem Mirrors.groups (h : Mirrors d t ps c) (groups : Option (List NodeId × List NodeId)) :
    Mirrors d { t with partitionGroups := groups } ps c :=
  ⟨h.members, h.nodes, h.wired, h.network⟩

/-- Both sides handle an event. -/
theorem mirrors_dispatch (h : Mirrors d t ps c) (hv : v ∈ d.members) :
    Mirrors d (t.handle v ev) ps (c.dispatch v ev) := by
  obtain ⟨n, hget⟩ := IndexMap.mem_keys.mp ((h.members v).mpr hv)
  have hnode : c.nodes v = n := h.nodes v n hget
  have hid : (n.onEvent .testUtils ev).id = v :=
    (RaftNode.onEvent_moves .testUtils n ev).id_eq.trans (h.wired v n hget).1
  refine ⟨fun u => ?_, fun u n' hn' => ?_, wired_handle h.wired v ev, fun u => ?_⟩
  · rw [handle_keys]
    exact h.members u
  · rw [handle_nodes hget] at hn'
    unfold Cluster.dispatch
    by_cases hu : u = v
    · subst hu
      rw [IndexMap.get_insert_self, Option.some.injEq] at hn'
      rw [Cluster.withNode_nodes_self, hnode]
      exact hn'
    · rw [IndexMap.get_insert_ne _ hu] at hn'
      rw [Cluster.withNode_nodes_ne hu]
      exact h.nodes u n' hn'
  · rw [handle_waiting h.wired hget, List.map_append, ← List.append_assoc, ← h.network u]
    show (c.network ++ ((c.nodes v).onEvent .testUtils ev).outbox).filter (·.dst = u) = _
    rw [hnode, List.filter_append]
    unfold RaftNode.outbox
    rw [hid, List.filter_map, List.map_map]
    congr 1
    apply List.map_congr_left
    intro o ho
    have htarget : o.target = u := by simpa using (List.mem_filter.mp ho).2
    simp [htarget]

omit [StateMachine SM P] in
/-- A message that waits, or has been taken, can be found in the network, behind none for the same
receiver but those in front of it. -/
theorem mirrors_find (h : Mirrors d t ps c) (p : Packet P) (before after : List (Packet P))
    (hv : ps.filter (·.dst = p.dst) ++ (t.waiting p.dst).map (fun m => ⟨m.1, p.dst, m.2⟩) =
      before ++ p :: after) :
    ∃ k, c.network[k]? = some p ∧
      (∀ q, (∃ j < k, c.network[j]? = some q) → q.dst = p.dst → q ∈ before) ∧
      (c.network.eraseIdx k).filter (·.dst = p.dst) = before ++ after ∧
      ∀ u, u ≠ p.dst →
        (c.network.eraseIdx k).filter (·.dst = u) = c.network.filter (·.dst = u) := by
  obtain ⟨k, hk, hbefore, hafter⟩ := exists_getElem?_of_filter ((h.network p.dst).trans hv)
  refine ⟨k, hk, fun q hq hdst => ?_, ?_, fun u hu => ?_⟩
  · obtain ⟨j, hj, hq⟩ := hq
    rw [← hbefore, List.mem_filter]
    refine ⟨List.mem_of_getElem? (i := j) ?_, by simpa using hdst⟩
    rw [List.getElem?_take_of_lt hj]
    exact hq
  · rw [List.eraseIdx_eq_take_drop_succ, List.filter_append, hbefore, hafter]
  · exact filter_eraseIdx hk (by simpa using fun h => hu h.symm)

/-- Both sides deliver a message that is out of the queues and out of the network. -/
theorem mirrors_delivered {k : Nat} (hk : c.network[k]? = some p)
    (h : Mirrors d t ps { c with network := c.network.eraseIdx k }) :
    Mirrors d (t.deliver p) ps (c.step d (.deliver k)) := by
  have hlogged := h.log (t.messageLog ++ [p])
  unfold deliver
  by_cases hd : p.dst ∈ d.members
  · have hstep : c.step d (.deliver k) =
        { c with network := c.network.eraseIdx k }.dispatch p.dst (.message p.src p.msg) := by
      simp [Cluster.step, hk, hd]
    rw [hstep]
    exact mirrors_dispatch hlogged hd
  · have hstep : c.step d (.deliver k) = { c with network := c.network.eraseIdx k } := by
      simp [Cluster.step, hk, hd]
    have hnone : t.nodes.get p.dst = none :=
      IndexMap.get_eq_none.mpr fun hin => hd ((h.members _).mp hin)
    rw [hstep, handle_of_none (c := { t with messageLog := t.messageLog ++ [p] }) hnone]
    exact hlogged

/-- Both sides deliver the message that was taken first. -/
theorem mirrors_deliver {should : NodeId → NodeId → Bool} (hp : should p.src p.dst = true)
    (h : Mirrors d t (p :: ps) c) :
    ∃ c', Run (Cluster.step d) (Serves should) c c' ∧ Mirrors d (t.deliver p) ps c' := by
  obtain ⟨k, hk, hfirst, hleft, hothers⟩ := mirrors_find h p []
    (ps.filter (·.dst = p.dst) ++ (t.waiting p.dst).map fun m => ⟨m.1, p.dst, m.2⟩)
    (by simp)
  have hok : Serves should c (.deliver k) := by
    refine ⟨fun j hj q hq q' hq' => ?_, p, hk, hp⟩
    rw [hk] at hq'
    cases hq'
    exact fun hlink => absurd (hfirst q ⟨j, hj, hq⟩ hlink.2) List.not_mem_nil
  refine ⟨_, .step .refl hok, mirrors_delivered hk ⟨h.members, h.nodes, h.wired, fun u => ?_⟩⟩
  by_cases hu : u = p.dst
  · subst hu
    exact hleft
  · have hne : ¬ p.dst = u := fun hd => hu hd.symm
    exact (hothers u hu).trans ((h.network u).trans (by simp [hne]))

theorem mirrors_deliverAll (should : NodeId → NodeId → Bool) : ∀ (ps : List (Packet P))
    {t : TimelessTestCluster P SM} {c : Cluster P SM},
    (∀ p ∈ ps, should p.src p.dst = true) → Mirrors d t ps c →
    ∃ c', Run (Cluster.step d) (Serves should) c c' ∧ Mirrors d (ps.foldl deliver t) [] c'
  | [], t, c, _, h => ⟨c, .refl, h⟩
  | p :: ps, t, c, hps, h => by
    obtain ⟨c₁, hrun₁, h₁⟩ := mirrors_deliver (hps p List.mem_cons_self) h
    obtain ⟨c₂, hrun₂, h₂⟩ := mirrors_deliverAll should ps
      (fun q hq => hps q (List.mem_cons_of_mem _ hq)) h₁
    exact ⟨c₂, hrun₁.trans hrun₂, h₂⟩

/-- A message is taken from a queue, to be delivered or to be dropped, which is a loss. -/
theorem mirrors_drain (should : NodeId → NodeId → Bool) (v : NodeId) :
    ∀ (fuel : Nat) {b : MessageBroker P} {ps : List (Packet P)} {c : Cluster P SM},
      Mirrors d { t with messageBroker := b } ps c →
      ∃ c', Run (Cluster.step d) (Serves should) c c' ∧
        Mirrors d { t with messageBroker := (drain (should · v) v fuel (b, ps)).1 }
          (drain (should · v) v fuel (b, ps)).2 c'
  | 0, b, ps, c, h => ⟨c, .refl, h⟩
  | fuel + 1, b, ps, c, h => by
    unfold drain
    rcases b.dequeue_cases v with ⟨-, hdequeue⟩ | ⟨m, b', hdequeue, hwaiting, hothers⟩
    · rw [hdequeue]
      exact ⟨c, .refl, h⟩
    · rw [hdequeue]
      dsimp only
      have hnet : ∀ u, u ≠ v → c.network.filter (·.dst = u) =
          ps.filter (·.dst = u) ++ (b'.waiting u).map fun m => ⟨m.1, u, m.2⟩ := by
        intro u hu
        rw [hothers u hu]
        exact h.network u
      have hv := h.network v
      simp only [waiting, hwaiting, List.map_cons] at hv
      cases hs : should m.1 v with
      | true =>
        refine mirrors_drain should v fuel ⟨h.members, h.nodes, h.wired, fun u => ?_⟩
        by_cases hu : u = v
        · subst hu
          simpa [List.filter_append, waiting] using hv
        · have hne : ¬ v = u := fun hd => hu hd.symm
          simpa [List.filter_append, hne, waiting] using hnet u hu
      | false =>
        obtain ⟨k, hk, -, hleft, hrest⟩ := mirrors_find h ⟨m.1, v, m.2⟩
          (ps.filter (·.dst = v)) ((b'.waiting v).map fun m => ⟨m.1, v, m.2⟩)
          (by simp [waiting, hwaiting])
        have hlost : Mirrors d { t with messageBroker := b' } ps (c.step d (.lose k)) := by
          refine ⟨h.members, h.nodes, h.wired, fun u => ?_⟩
          by_cases hu : u = v
          · subst hu
            exact hleft
          · exact (hrest u hu).trans (hnet u hu)
        have hok : Serves should c (.lose k) := ⟨⟨m.1, v, m.2⟩, hk, hs⟩
        obtain ⟨c', hrun, hmirrors⟩ := mirrors_drain should v fuel hlost
        exact ⟨c', (Run.step .refl hok).trans hrun, hmirrors⟩

theorem mirrors_collect (should : NodeId → NodeId → Bool) :
    ∀ (ids : List NodeId) (st : MessageBroker P × List (Packet P)) {c : Cluster P SM},
      Mirrors d { t with messageBroker := st.1 } st.2 c →
      let st' := ids.foldl (fun st v => drain (should · v) v (st.1.waiting v).length st) st
      ∃ c', Run (Cluster.step d) (Serves should) c c' ∧
        Mirrors d { t with messageBroker := st'.1 } st'.2 c'
  | [], st, c, h => ⟨c, .refl, h⟩
  | v :: ids, st, c, h => by
    obtain ⟨c₁, hrun₁, h₁⟩ := mirrors_drain should v (st.1.waiting v).length h
    obtain ⟨c₂, hrun₂, h₂⟩ := mirrors_collect should ids _ h₁
    exact ⟨c₂, hrun₁.trans hrun₂, h₂⟩

theorem mirrors_loop (should : NodeId → NodeId → Bool) (ids : List NodeId) :
    ∀ (fuel : Nat) {t : TimelessTestCluster P SM} {c : Cluster P SM}, Mirrors d t [] c →
      deliverLoop should ids fuel t = some t' →
      ∃ c', Run (Cluster.step d) (Serves should) c c' ∧ Mirrors d t' [] c'
  | 0, _, _, _, hloop => by cases hloop
  | fuel + 1, t, c, h, hloop => by
    obtain ⟨c₁, hrun₁, h₁⟩ := mirrors_collect should ids (t.messageBroker, []) h
    rw [deliverLoop_succ] at hloop
    split at hloop
    · rename_i hempty
      cases hloop
      exact ⟨c₁, hrun₁, List.isEmpty_iff.mp hempty ▸ h₁⟩
    · have hpass : ∀ p ∈ (collect should ids t.messageBroker).2, should p.src p.dst = true := by
        intro p hp
        obtain ⟨hdst, -, hs⟩ := mem_kept.mp (mem_collect hp).2
        exact hdst ▸ hs
      obtain ⟨c₂, hrun₂, h₂⟩ := mirrors_deliverAll should _ hpass h₁
      obtain ⟨c₃, hrun₃, h₃⟩ := mirrors_loop should ids fuel h₂ hloop
      exact ⟨c₃, (hrun₁.trans hrun₂).trans hrun₃, h₃⟩

/-! ## Every step -/

theorem mirrors_event {a : Action P} (h : Mirrors d t [] c)
    (hstep : c.step d a = if v ∈ d.members then c.dispatch v ev else c) :
    Mirrors d (t.handle v ev) [] (c.step d a) := by
  rw [hstep]
  by_cases hv : v ∈ d.members
  · rw [if_pos hv]
    exact mirrors_dispatch h hv
  · rw [if_neg hv, handle_of_none (IndexMap.get_eq_none.mpr fun hin => hv ((h.members v).mp hin))]
    exact h

theorem mirrors_fromTo (h : Mirrors d t [] c) (sender target : NodeId) :
    ∃ c', Run (Cluster.step d) (Tested fixed) c c' ∧
      Mirrors d (t.deliverMessageFromTo sender target) [] c' := by
  unfold deliverMessageFromTo
  rcases t.messageBroker.dequeueFrom_cases target sender with
    ⟨-, hdequeue⟩ | ⟨before, msg, after, b', hdequeue, hwaiting, hbefore, hleft, hothers⟩
  · rw [hdequeue]
    exact ⟨c, .refl, h⟩
  · rw [hdequeue]
    obtain ⟨k, hk, hfirst, hrest, hnet⟩ := mirrors_find h ⟨sender, target, msg⟩
      (before.map fun m => ⟨m.1, target, m.2⟩) (after.map fun m => ⟨m.1, target, m.2⟩)
      (by simp [waiting, hwaiting])
    have hok : Tested fixed c (.deliver k) := by
      refine ⟨trivial, fun j hj q hq q' hq' => ?_, fun _ => trivial⟩
      rw [hk] at hq'
      cases hq'
      rintro ⟨hsrc, hdst⟩
      obtain ⟨m, hm, rfl⟩ := List.mem_map.mp (hfirst q ⟨j, hj, hq⟩ hdst)
      exact hbefore m hm hsrc
    refine ⟨_, .step .refl hok, mirrors_delivered (t := { t with messageBroker := b' }) hk
      ⟨h.members, h.nodes, h.wired, fun u => ?_⟩⟩
    by_cases hu : u = target
    · subst hu
      exact hrest.trans (by simp [waiting, hleft])
    · exact (hnet u hu).trans ((h.network u).trans (by simp [waiting, hothers u hu]))

theorem mirrors_step {fresh : SM} {a : TestAction P} (h : Mirrors d t [] c) (ha : a.KeepsNodes)
    (hfixed : fixed → a.KeepsMembership) :
    ∃ c', Run (Cluster.step d) (Tested fixed) c c' ∧ Mirrors d (t.step fresh a) [] c' := by
  cases a with
  | addNode | removeNode | connectPeers => cases ha
  | timer v kind =>
    have hok : Tested fixed c (.timer v kind) := ⟨trivial, trivial, fun _ => trivial⟩
    exact ⟨_, .step .refl hok, mirrors_event h rfl⟩
  | client v payload =>
    have hok : Tested fixed c (.client v payload) := ⟨trivial, trivial, fun _ => trivial⟩
    exact ⟨_, .step .refl hok, mirrors_event h rfl⟩
  | configChange v change =>
    have hok : Tested fixed c (.configChange v change) := ⟨trivial, trivial, hfixed⟩
    exact ⟨_, .step .refl hok, mirrors_event h rfl⟩
  | deliverMessages =>
    obtain ⟨t', hloop, -, -⟩ := deliverLoop_ends t.shouldDeliver t.nodes.keys h.wired
    show ∃ c', _ ∧ Mirrors d ((deliverLoop _ _ deliveryFuel t).getD t) [] c'
    rw [hloop deliveryFuel (Nat.le_refl _)]
    obtain ⟨c', hrun, h'⟩ := mirrors_loop _ _ deliveryFuel h (hloop deliveryFuel (Nat.le_refl _))
    exact ⟨c', hrun.mono fun _ _ hok => hok.tested, h'⟩
  | deliverMessageFromTo sender target => exact mirrors_fromTo h sender target
  | deliverMessagesPartition ids =>
    obtain ⟨t', hloop, -, -⟩ := deliverLoop_ends (fun sender _ => ids.contains sender) ids h.wired
    show ∃ c', _ ∧ Mirrors d ((deliverLoop _ _ deliveryFuel t).getD t) [] c'
    rw [hloop deliveryFuel (Nat.le_refl _)]
    obtain ⟨c', hrun, h'⟩ := mirrors_loop _ _ deliveryFuel h (hloop deliveryFuel (Nat.le_refl _))
    exact ⟨c', hrun.mono fun _ _ hok => hok.tested, h'⟩
  | partition | partitionNode | healPartition => exact ⟨c, .refl, h.groups _⟩
  | clearMessageLog => exact ⟨c, .refl, h.log _⟩

theorem mirrors_actions {fresh : SM} : ∀ (actions : List (TestAction P))
    {t : TimelessTestCluster P SM} {c : Cluster P SM}, Mirrors d t [] c →
    (∀ a ∈ actions, a.KeepsNodes) → (fixed → ∀ a ∈ actions, a.KeepsMembership) →
    ∃ c', Run (Cluster.step d) (Tested fixed) c c' ∧
      Mirrors d (actions.foldl (step fresh) t) [] c'
  | [], t, c, h, _, _ => ⟨c, .refl, h⟩
  | a :: actions, t, c, h, hkeeps, hfixed => by
    obtain ⟨c₁, hrun₁, h₁⟩ := mirrors_step h (hkeeps a List.mem_cons_self)
      (fun hf => hfixed hf a List.mem_cons_self)
    obtain ⟨c₂, hrun₂, h₂⟩ := mirrors_actions actions h₁
      (fun b hb => hkeeps b (List.mem_cons_of_mem _ hb))
      (fun hf b hb => hfixed hf b (List.mem_cons_of_mem _ hb))
    exact ⟨c₂, hrun₁.trans hrun₂, h₂⟩

end

theorem mirrors_populated (fresh : SM) (threshold : Nat) {ids : List NodeId} (h : ids.Nodup) :
    Mirrors (deployment fresh threshold ids h)
      (populated fresh threshold ids : TimelessTestCluster P SM) []
      (Cluster.init (deployment fresh threshold ids h)) := by
  obtain ⟨hkeys, hempty, hnodes⟩ := populated_spec (P := P) fresh threshold h
  refine ⟨hkeys, fun v n hn => (hnodes v n hn).symm, fun v n hn => ?_, fun v => ?_⟩
  · rw [hnodes v n hn]
    exact ⟨rfl, rfl⟩
  · simp [Cluster.init, hempty]

/-- **What a test does is a run of a cluster**: with a fixed population, whatever events it hands to
nodes, however it partitions and heals the network and delivers the messages, the nodes end where
some run of the cluster ends in which no message is delivered twice or out of order, and in which
no configuration change is submitted unless the test does so. -/
theorem tests_refine_cluster (fresh : SM) (threshold : Nat) {ids : List NodeId} (h : ids.Nodup)
    {actions : List (TestAction P)} (hkeeps : ∀ a ∈ actions, a.KeepsNodes) :
    ∃ c, Reachable (deployment fresh threshold ids h)
        (Tested (∀ a ∈ actions, a.KeepsMembership)) c ∧
      Mirrors (deployment fresh threshold ids h)
        (actions.foldl (step fresh) (populated fresh threshold ids)) [] c :=
  mirrors_actions actions (mirrors_populated fresh threshold h) hkeeps id

/-- Node 1 of three is elected, is cut off, and node 2 is elected. -/
def splitTest : List (TestAction UInt8) :=
  [.timer 1 .election, .deliverMessages, .client 1 10, .partitionNode 1, .timer 2 .election,
    .deliverMessages]

theorem tests_refine_cluster_split :
    ∃ c, Reachable (deployment (⟨0⟩ : Adder) 10 [1, 2, 3] (by decide)) (Tested True) c ∧
      ((splitTest.foldl (step (⟨0⟩ : Adder)) (populated (⟨0⟩ : Adder) 10 [1, 2, 3])).nodes.get
        2).map (fun n => (n.role, n.currentTerm)) = some (.leader, 2) ∧
        (c.nodes 2).role = .leader := by
  have hget : ((splitTest.foldl (step (⟨0⟩ : Adder)) (populated (⟨0⟩ : Adder) 10 [1, 2, 3])).nodes.get
      2).map (fun n => (n.role, n.currentTerm)) = some (.leader, 2) := by decide +kernel
  have hkeeps : ∀ a ∈ splitTest, a.KeepsNodes := by decide
  have hnodup : [1, 2, 3].Nodup := by decide
  obtain ⟨c, hreach, hmirrors⟩ := tests_refine_cluster (⟨0⟩ : Adder) 10 hnodup hkeeps
  obtain ⟨n, hn, hfields⟩ := Option.map_eq_some_iff.mp hget
  refine ⟨c, hreach.mono fun _ _ hok => ⟨hok.1, hok.2.1, fun _ => hok.2.2 (by decide)⟩, hget, ?_⟩
  rw [hmirrors.nodes 2 n hn]
  exact congrArg Prod.fst hfields

/-- **In a test a term has one leader**: two nodes that lead the same term, now or at an earlier
moment of the test, are the same. -/
theorem test_one_leader_per_term (fresh : SM) (threshold : Nat) {ids : List NodeId}
    (h : ids.Nodup) {before after : List (TestAction P)}
    (hkeeps : ∀ a ∈ before ++ after, a.KeepsNodes ∧ a.KeepsMembership) {v w : NodeId}
    {n n' : TestNode P SM}
    (hn : (before.foldl (step fresh) (populated fresh threshold ids)).nodes.get v = some n)
    (hn' : ((before ++ after).foldl (step fresh) (populated fresh threshold ids)).nodes.get w =
      some n')
    (hlead : n.role = .leader) (hlead' : n'.role = .leader)
    (hterm : n.currentTerm = n'.currentTerm) : v = w := by
  have hsingle : ∀ (c : Cluster P SM) a, Tested True c a → SingleDelivery c a :=
    fun _ _ hok => ⟨hok.2.2 trivial, hok.1⟩
  obtain ⟨c₁, hrun₁, h₁⟩ := mirrors_actions before
    (mirrors_populated fresh threshold h)
    (fun a ha => (hkeeps a (List.mem_append_left _ ha)).1)
    (fun _ a ha => (hkeeps a (List.mem_append_left _ ha)).2)
  obtain ⟨c₂, hrun₂, h₂⟩ := mirrors_actions after h₁
    (fun a ha => (hkeeps a (List.mem_append_right _ ha)).1)
    (fun _ a ha => (hkeeps a (List.mem_append_right _ ha)).2)
  rw [List.foldl_append] at hn'
  have hv := (h₁.members v).mp (IndexMap.mem_keys.mpr ⟨n, hn⟩)
  have hw := (h₂.members w).mp (IndexMap.mem_keys.mpr ⟨n', hn'⟩)
  obtain ⟨b₁, hel₁, hu₁⟩ := (Single.run (hrun₁.mono hsingle) (single_init _)).2
  obtain ⟨b₂, hle, hel₂⟩ := Electing.run (Single.run (hrun₂.mono hsingle) ⟨b₁, hel₁, hu₁⟩).1 hel₁
  have hnode := h₁.nodes v n hn
  have hnode' := h₂.nodes w n' hn'
  have hwon := hle.leader _ _ (hel₁.sim.leader hv (hnode.symm ▸ hlead))
  have hwon' := hel₂.sim.leader hw (hnode'.symm ▸ hlead')
  rw [hnode] at hwon
  rw [hnode', ← hterm, hwon] at hwon'
  exact Option.some.inj hwon'

/-- Node 1 leads before and after node 2 is elected behind its back. -/
theorem test_one_leader_per_term_split :
    ∃ n n' : TestNode UInt8 Adder,
      ((splitTest.take 2).foldl (step ⟨0⟩) (populated ⟨0⟩ 10 [1, 2, 3])).nodes.get 1 = some n ∧
      ((splitTest.take 2 ++ splitTest.drop 2).foldl (step ⟨0⟩)
        (populated ⟨0⟩ 10 [1, 2, 3])).nodes.get 1 = some n' ∧
      n.role = .leader ∧ n'.role = .leader ∧ n.currentTerm = n'.currentTerm ∧
      (1 : NodeId) = 1 := by
  have hbefore : (((splitTest.take 2).foldl (step ⟨0⟩)
      (populated (⟨0⟩ : Adder) 10 [1, 2, 3])).nodes.get 1).map
        (fun n => (n.role, n.currentTerm)) = some (.leader, 1) := by decide +kernel
  have hafter : (((splitTest.take 2 ++ splitTest.drop 2).foldl (step ⟨0⟩)
      (populated (⟨0⟩ : Adder) 10 [1, 2, 3])).nodes.get 1).map
        (fun n => (n.role, n.currentTerm)) = some (.leader, 1) := by decide +kernel
  obtain ⟨n, hn, hfields⟩ := Option.map_eq_some_iff.mp hbefore
  obtain ⟨n', hn', hfields'⟩ := Option.map_eq_some_iff.mp hafter
  rw [Prod.mk.injEq] at hfields hfields'
  have hterm : n.currentTerm = n'.currentTerm := hfields.2.trans hfields'.2.symm
  exact ⟨n, n', hn, hn', hfields.1, hfields'.1, hterm, test_one_leader_per_term (⟨0⟩ : Adder) 10
    (by decide) (by decide) hn hn' hfields.1 hfields'.1 hterm⟩

end TimelessTestCluster

end MetalRaft
