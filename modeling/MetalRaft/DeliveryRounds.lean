import MetalRaft.TimelessTestCluster

/-!
# The rounds of the test cluster come to an end

* `kept`, `collect_eq` — what a round takes from the queues.
* `Pending` — every message that a round would find ranks below a bound, which each round lowers.
* `deliverMessages_ends` — `deliver_messages` returns, whatever a test has done before, and leaves
  every queue of a node empty.
-/

set_option autoImplicit false

namespace MetalRaft

namespace TimelessTestCluster

open Cascade

variable {P SM : Type}

/-! ## Emptying the queues -/

/-- What a round keeps of the queue of node `v`. -/
def kept (should : NodeId → NodeId → Bool) (b : MessageBroker P) (v : NodeId) : List (Packet P) :=
  ((b.waiting v).filter fun m => should m.1 v).map fun m => ⟨m.1, v, m.2⟩

theorem mem_kept {should : NodeId → NodeId → Bool} {b : MessageBroker P} {v : NodeId}
    {p : Packet P} :
    p ∈ kept should b v ↔ p.dst = v ∧ (p.src, p.msg) ∈ b.waiting v ∧ should p.src v = true := by
  simp only [kept, List.mem_map, List.mem_filter]
  constructor
  · rintro ⟨m, ⟨hm, hs⟩, rfl⟩
    exact ⟨rfl, hm, hs⟩
  · rintro ⟨rfl, hm, hs⟩
    exact ⟨_, ⟨hm, hs⟩, rfl⟩

/-- The loop over one queue empties it and keeps what may be delivered, in order. -/
theorem drain_spec (should : NodeId → Bool) (v : NodeId) :
    ∀ (fuel : Nat) (b : MessageBroker P) (ms : List (Packet P)), (b.waiting v).length = fuel →
      (drain should v fuel (b, ms)).1.waiting v = [] ∧
      (∀ u, u ≠ v → (drain should v fuel (b, ms)).1.waiting u = b.waiting u) ∧
      (drain should v fuel (b, ms)).2 =
        ms ++ ((b.waiting v).filter (should ·.1)).map fun m => ⟨m.1, v, m.2⟩
  | 0, b, ms, h => by
    have hempty := List.length_eq_zero_iff.mp h
    exact ⟨hempty, fun _ _ => rfl, by simp [drain, hempty]⟩
  | fuel + 1, b, ms, h => by
    rcases b.dequeue_cases v with ⟨hempty, -⟩ | ⟨m, b', hdequeue, hwaiting, hothers⟩
    · rw [hempty] at h
      cases h
    · rw [hwaiting, List.length_cons, Nat.add_right_cancel_iff] at h
      unfold drain
      rw [hdequeue]
      obtain ⟨hdone, hrest, hkept⟩ := drain_spec should v fuel b'
        (if should m.1 then ms ++ [⟨m.1, v, m.2⟩] else ms) h
      refine ⟨hdone, fun u hu => (hrest u hu).trans (hothers u hu), ?_⟩
      dsimp only
      rw [hkept, hwaiting]
      cases hs : should m.1 <;> simp [hs]

/-- Emptying the queues of some nodes, whatever has been kept before. -/
theorem collect_from (should : NodeId → NodeId → Bool) :
    ∀ (ids : List NodeId) (b : MessageBroker P) (ms : List (Packet P)),
      let st := ids.foldl (fun st v => drain (should · v) v (st.1.waiting v).length st) (b, ms)
      (∀ v ∈ ids, st.1.waiting v = []) ∧ (∀ v ∉ ids, st.1.waiting v = b.waiting v) ∧
      (∀ p ∈ st.2, p ∈ ms ∨ p.dst ∈ ids ∧ p ∈ kept should b p.dst) ∧
      (ids.Nodup → st.2 = ms ++ ids.flatMap (kept should b))
  | [], b, ms => by simp
  | v :: ids, b, ms => by
    obtain ⟨hdone, hothers, hkept⟩ := drain_spec (should · v) v (b.waiting v).length b ms rfl
    rw [List.foldl_cons]
    generalize drain (should · v) v (b.waiting v).length (b, ms) = st at hdone hothers hkept
    obtain ⟨b', ms'⟩ := st
    obtain ⟨hempty, hrest, hmem, heq⟩ := collect_from should ids b' ms'
    dsimp only at hdone hothers hkept ⊢
    refine ⟨?_, ?_, ?_, ?_⟩
    · intro u hu
      by_cases hin : u ∈ ids
      · exact hempty u hin
      · rcases List.mem_cons.mp hu with rfl | hu
        · exact (hrest u hin).trans hdone
        · exact absurd hu hin
    · intro u hu
      rw [List.mem_cons, not_or] at hu
      exact (hrest u hu.2).trans (hothers u hu.1)
    · intro p hp
      rcases hmem p hp with hp | ⟨hin, hp⟩
      · rw [hkept] at hp
        rcases List.mem_append.mp hp with hp | hp
        · exact Or.inl hp
        · have hdst : p.dst = v := (mem_kept.mp hp).1
          exact Or.inr ⟨by simp [hdst], hdst ▸ hp⟩
      · obtain ⟨-, hwaits, hs⟩ := mem_kept.mp hp
        by_cases hv : p.dst = v
        · rw [hv, hdone] at hwaits
          cases hwaits
        · rw [hothers _ hv] at hwaits
          exact Or.inr ⟨List.mem_cons_of_mem _ hin, mem_kept.mpr ⟨rfl, hwaits, hs⟩⟩
    · intro hnodup
      rw [List.nodup_cons] at hnodup
      rw [heq hnodup.2, hkept, List.flatMap_cons, ← List.append_assoc]
      refine congrArg₂ (· ++ ·) rfl (List.flatMap_congr fun u hu => ?_)
      have hne : u ≠ v := fun h => hnodup.1 (h ▸ hu)
      unfold kept
      rw [hothers u hne]

section

variable {should : NodeId → NodeId → Bool} {ids : List NodeId} {b : MessageBroker P} {v : NodeId}
  {p : Packet P}

theorem collect_waiting_of_mem (h : v ∈ ids) : (collect should ids b).1.waiting v = [] :=
  (collect_from should ids b []).1 v h

theorem collect_waiting_of_not_mem (h : v ∉ ids) :
    (collect should ids b).1.waiting v = b.waiting v :=
  (collect_from should ids b []).2.1 v h

theorem mem_collect (h : p ∈ (collect should ids b).2) :
    p.dst ∈ ids ∧ p ∈ kept should b p.dst := by
  rcases (collect_from should ids b []).2.2.1 p h with h | h
  · cases h
  · exact h

/-- A round takes the queues node by node. -/
theorem collect_eq (h : ids.Nodup) : (collect should ids b).2 = ids.flatMap (kept should b) :=
  ((collect_from should ids b []).2.2.2 h).trans (List.nil_append _)

end

/-! ## Rounds -/

variable [StateMachine SM P] {should : NodeId → NodeId → Bool} {ids : List NodeId}
  {c : TimelessTestCluster P SM} {k : Nat}

/-- What waits for the given nodes ranks below `k`. -/
def Pending (ids : List NodeId) (k : Nat) (c : TimelessTestCluster P SM) : Prop :=
  ∀ v ∈ ids, RankBelow (fun m : NodeId × RaftMsg P => m.2.rank) k (c.waiting v)

theorem pending_deliver {p : Packet P} (hc : Wired c) (hp : p.msg.rank ≤ k)
    (h : Pending ids k c) : Pending ids k (c.deliver p) := by
  intro v hv
  show RankBelow _ k (({ c with messageLog := c.messageLog ++ [p] }.handle p.dst _).waiting v)
  cases hget : c.nodes.get p.dst with
  | none =>
    rw [handle_of_none (c := { c with messageLog := c.messageLog ++ [p] }) hget]
    exact h v hv
  | some n =>
    obtain ⟨outs, hto, hrank⟩ := RaftNode.onEvent_says .testUtils n p.src p.msg
    rw [(hc _ _ hget).2, List.nil_append] at hto
    rw [handle_waiting (c := { c with messageLog := c.messageLog ++ [p] }) hc hget,
      rankBelow_append]
    refine ⟨h v hv, fun m hm => ?_⟩
    obtain ⟨o, ho, rfl⟩ := List.mem_map.mp hm
    have ho := (List.mem_filter.mp ho).1
    rw [hto] at ho
    exact Nat.lt_of_lt_of_le (hrank o ho) hp

theorem pending_deliverAll : ∀ (ps : List (Packet P)) {c : TimelessTestCluster P SM}, Wired c →
    (∀ p ∈ ps, p.msg.rank ≤ k) → Pending ids k c →
    Wired (ps.foldl deliver c) ∧ Pending ids k (ps.foldl deliver c)
  | [], _, hc, _, h => ⟨hc, h⟩
  | p :: ps, _, hc, hps, h => by
    rw [List.foldl_cons]
    have hp := hps p List.mem_cons_self
    exact pending_deliverAll ps (wired_deliver hc p)
      (fun q hq => hps q (List.mem_cons_of_mem _ hq)) (pending_deliver hc hp h)

theorem deliverLoop_succ (fuel : Nat) (c : TimelessTestCluster P SM) :
    deliverLoop should ids (fuel + 1) c =
      if (collect should ids c.messageBroker).2.isEmpty then
        some { c with messageBroker := (collect should ids c.messageBroker).1 }
      else deliverLoop should ids fuel ((collect should ids c.messageBroker).2.foldl deliver
        { c with messageBroker := (collect should ids c.messageBroker).1 }) := rfl

/-- More fuel changes nothing once the rounds have come to an end. -/
theorem deliverLoop_add {c' : TimelessTestCluster P SM} (j : Nat) :
    ∀ {fuel : Nat} {c : TimelessTestCluster P SM}, deliverLoop should ids fuel c = some c' →
      deliverLoop should ids (fuel + j) c = some c'
  | 0, _, h => by cases h
  | fuel + 1, c, h => by
    rw [deliverLoop_succ] at h
    rw [Nat.add_right_comm, deliverLoop_succ]
    split at h
    · rename_i hempty
      rw [if_pos hempty]
      exact h
    · rename_i hfound
      rw [if_neg hfound]
      exact deliverLoop_add j h

variable (should) in
/-- Each round lowers the ranks of what is pending, so that so many rounds are enough. -/
theorem deliverLoop_quiet : ∀ (k : Nat) {c : TimelessTestCluster P SM}, Wired c → Pending ids k c →
    ∃ c', deliverLoop should ids (k + 1) c = some c' ∧ Wired c' ∧ ∀ v ∈ ids, c'.waiting v = []
  | k, c, hc, h => by
    have hcollected : Wired { c with messageBroker := (collect should ids c.messageBroker).1 } := hc
    rw [deliverLoop_succ]
    by_cases hempty : (collect should ids c.messageBroker).2.isEmpty = true
    · rw [if_pos hempty]
      exact ⟨_, rfl, hcollected, fun v hv => collect_waiting_of_mem hv⟩
    · rw [if_neg hempty]
      match k with
      | 0 =>
        -- nothing ranks below zero, so nothing was found
        rw [List.isEmpty_iff, ← List.eq_nil_iff_forall_not_mem.symm.not] at hempty
        refine absurd (fun p hp => ?_) hempty
        obtain ⟨hin, hkept⟩ := mem_collect hp
        exact Nat.not_lt_zero _ (h _ hin _ (mem_kept.mp hkept).2.1)
      | k + 1 =>
        have hranks : ∀ p ∈ (collect should ids c.messageBroker).2, p.msg.rank ≤ k := by
          intro p hp
          obtain ⟨hin, hkept⟩ := mem_collect hp
          exact Nat.le_of_lt_succ (h _ hin _ (mem_kept.mp hkept).2.1)
        have hemptied : Pending ids k
            { c with messageBroker := (collect should ids c.messageBroker).1 } :=
          fun v hv => by simp [waiting, collect_waiting_of_mem hv, RankBelow]
        obtain ⟨hwired, hpending⟩ := pending_deliverAll _ hcollected hranks hemptied
        exact deliverLoop_quiet k hwired hpending

omit [StateMachine SM P] in
theorem pending_ranks (ids : List NodeId) (c : TimelessTestCluster P SM) :
    Pending ids RaftMsg.ranks c :=
  fun _ _ m _ => m.2.rank_lt

/-- Every delivery comes to its end within the fuel of `step`. -/
theorem deliverLoop_ends (should : NodeId → NodeId → Bool) (ids : List NodeId) (hc : Wired c) :
    ∃ c', (∀ fuel, deliveryFuel ≤ fuel → deliverLoop should ids fuel c = some c') ∧ Wired c' ∧
      ∀ v ∈ ids, c'.waiting v = [] := by
  obtain ⟨c', hloop, hwired, hquiet⟩ := deliverLoop_quiet should RaftMsg.ranks hc
    (pending_ranks ids c)
  refine ⟨c', fun fuel hfuel => ?_, hwired, hquiet⟩
  obtain ⟨j, rfl⟩ := Nat.exists_eq_add_of_le hfuel
  exact deliverLoop_add j hloop

/-! ## Every step -/

omit [StateMachine SM P] in
theorem wired_insert {n : TestNode P SM} {v : NodeId} {m : IndexMap NodeId (TestNode P SM)}
    (h : ∀ u n, m.get u = some n → n.id = u ∧ n.transport = [])
    (hn : n.id = v ∧ n.transport = []) (u : NodeId) (n' : TestNode P SM)
    (hn' : (m.insert v n).get u = some n') : n'.id = u ∧ n'.transport = [] := by
  by_cases hu : u = v
  · subst hu
    rw [IndexMap.get_insert_self, Option.some.injEq] at hn'
    exact hn' ▸ hn
  · rw [IndexMap.get_insert_ne _ hu] at hn'
    exact h u n' hn'

omit [StateMachine SM P] in
theorem wired_swapRemove {v : NodeId} {m : IndexMap NodeId (TestNode P SM)}
    (h : ∀ u n, m.get u = some n → n.id = u ∧ n.transport = []) (u : NodeId)
    (n : TestNode P SM) (hn : (m.swapRemove v).get u = some n) :
    n.id = u ∧ n.transport = [] := by
  by_cases hu : u = v
  · subst hu
    rw [IndexMap.get_swapRemove_self] at hn
    cases hn
  · rw [IndexMap.get_swapRemove_ne _ hu] at hn
    exact h u n hn

theorem wired_connectNode (nodeIds : List NodeId) (hc : Wired c) (v : NodeId) :
    Wired (connectNode nodeIds c v) := by
  unfold connectNode
  split
  · exact hc
  · dsimp only
    split
    · exact hc
    · exact wired_insert (wired_swapRemove hc) ⟨rfl, rfl⟩

theorem wired_connectPeers (hc : Wired c) : Wired c.connectPeers := by
  unfold connectPeers
  generalize c.nodes.keys = nodeIds
  suffices h : ∀ (vs : List NodeId) (c : TimelessTestCluster P SM), Wired c →
      Wired (vs.foldl (connectNode nodeIds) c) from h nodeIds c hc
  intro vs
  induction vs with
  | nil => exact fun _ h => h
  | cons v vs ih => exact fun c hc => ih _ (wired_connectNode nodeIds hc v)

theorem wired_step (fresh : SM) (hc : Wired c) (a : TestAction P) : Wired (c.step fresh a) := by
  cases a with
  | addNode v storage => exact wired_insert hc ⟨rfl, rfl⟩
  | removeNode v => exact wired_swapRemove hc
  | connectPeers => exact wired_connectPeers hc
  | timer | client | configChange => exact wired_handle hc _ _
  | deliverMessages =>
    obtain ⟨c', hloop, hwired, -⟩ := deliverLoop_ends c.shouldDeliver c.nodes.keys hc
    show Wired ((deliverLoop _ _ deliveryFuel c).getD c)
    rw [hloop deliveryFuel (Nat.le_refl _)]
    exact hwired
  | deliverMessageFromTo sender target =>
    unfold step deliverMessageFromTo
    dsimp only
    split
    · rename_i broker _
      exact wired_deliver (c := { c with messageBroker := broker }) hc _
    · exact hc
  | deliverMessagesPartition ids =>
    obtain ⟨c', hloop, hwired, -⟩ := deliverLoop_ends (fun sender _ => ids.contains sender) ids hc
    show Wired ((deliverLoop _ _ deliveryFuel c).getD c)
    rw [hloop deliveryFuel (Nat.le_refl _)]
    exact hwired
  | partition | partitionNode | healPartition | clearMessageLog => exact hc

omit [StateMachine SM P] in
theorem wired_new : Wired (new : TimelessTestCluster P SM) := by
  intro v n h
  cases h

theorem wired_actions (fresh : SM) : ∀ (actions : List (TestAction P))
    {c : TimelessTestCluster P SM}, Wired c → Wired (actions.foldl (step fresh) c)
  | [], _, hc => hc
  | a :: actions, _, hc => wired_actions fresh actions (wired_step fresh hc a)

/-- **`deliver_messages` always returns**: whatever a test has done to a cluster, after at most
seven rounds no message waits for any of its nodes, and each one's own transport is drained. -/
theorem deliverMessages_ends (fresh : SM) (actions : List (TestAction P)) (threshold : Nat) :
    ∃ c' : TimelessTestCluster P SM,
      (∀ fuel, RaftMsg.ranks < fuel → deliverMessages fuel
        (actions.foldl (step fresh) (new.withSnapshotThreshold threshold)) = some c') ∧
      (∀ v ∈ (actions.foldl (step fresh)
        (new.withSnapshotThreshold threshold : TimelessTestCluster P SM)).nodes.keys,
        c'.waiting v = []) ∧
      ∀ v n, c'.nodes.get v = some n → n.transport = [] := by
  have hwired := wired_actions fresh actions
    (c := (new.withSnapshotThreshold threshold : TimelessTestCluster P SM)) wired_new
  obtain ⟨c', hloop, hdrained, hquiet⟩ := deliverLoop_ends (shouldDeliver _) _ hwired
  exact ⟨c', fun fuel hfuel => hloop fuel hfuel, hquiet, fun v n hn => (hdrained v n hn).2⟩

end TimelessTestCluster

end MetalRaft
