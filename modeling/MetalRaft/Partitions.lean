import MetalRaft.DeliveryRounds

/-!
# A partition isolates its groups

While the network of a test cluster is partitioned, the nodes of a group go on as if there were no
others.

* `Agree` — two test clusters look the same to the nodes of a group: the same nodes, the same
  messages waiting from within the group, the same deliveries so far.
* `deliverLoop_agree` — rounds of delivery that keep what comes from within the group keep them so,
  however many rounds the others need and whatever goes on outside.
* `partition_isolates` — what is delivered under a partition does not depend on the other side, and
  `partition_delivers_alone` — it is what `deliver_messages_partition` would deliver to the group.
-/

set_option autoImplicit false

namespace MetalRaft

namespace TimelessTestCluster

variable {P SM : Type} {g : List NodeId} {s t u s' t' : TimelessTestCluster P SM} {p : Packet P}

/-- Two test clusters look the same to the nodes of `g`. -/
structure Agree (g : List NodeId) (s t : TimelessTestCluster P SM) : Prop where
  nodes : ∀ v ∈ g, s.nodes.get v = t.nodes.get v
  waiting : ∀ v ∈ g, ((s.waiting v).filter fun m => m.1 ∈ g) = (t.waiting v).filter fun m => m.1 ∈ g
  messageLog : (s.messageLog.filter fun p => p.dst ∈ g) = t.messageLog.filter fun p => p.dst ∈ g

theorem Agree.refl (s : TimelessTestCluster P SM) : Agree g s s :=
  ⟨fun _ _ => rfl, fun _ _ => rfl, rfl⟩

theorem Agree.symm (h : Agree g s t) : Agree g t s :=
  ⟨fun v hv => (h.nodes v hv).symm, fun v hv => (h.waiting v hv).symm, h.messageLog.symm⟩

theorem Agree.trans (h₁ : Agree g s t) (h₂ : Agree g t u) : Agree g s u :=
  ⟨fun v hv => (h₁.nodes v hv).trans (h₂.nodes v hv),
    fun v hv => (h₁.waiting v hv).trans (h₂.waiting v hv), h₁.messageLog.trans h₂.messageLog⟩

/-! ## One delivery -/

section

variable [StateMachine SM P]

/-- What a node outside the group does is not noticed within it. -/
theorem agree_handle_outside {v : NodeId} {ev : Event P} (hs : Wired s) (hv : v ∉ g) :
    Agree g (s.handle v ev) s := by
  cases hget : s.nodes.get v with
  | none =>
    rw [handle_of_none hget]
    exact .refl s
  | some n =>
    refine ⟨fun u hu => ?_, fun u hu => ?_, by rw [handle_messageLog]⟩
    · have hne : u ≠ v := fun h => hv (h ▸ hu)
      rw [handle_nodes hget, IndexMap.get_insert_ne _ hne]
    · rw [handle_waiting hs hget, List.filter_append, List.filter_map]
      simp [hv]

theorem agree_deliver_outside (hs : Wired s) (hp : p.dst ∉ g) : Agree g (s.deliver p) s := by
  have hlogged : Agree g { s with messageLog := s.messageLog ++ [p] } s :=
    ⟨fun _ _ => rfl, fun _ _ => rfl, by simp [List.filter_append, hp]⟩
  exact (agree_handle_outside (s := { s with messageLog := s.messageLog ++ [p] }) hs hp).trans
    hlogged

/-- A delivery within the group. -/
theorem agree_deliver (hs : Wired s) (ht : Wired t) (h : Agree g s t) (hp : p.dst ∈ g) :
    Agree g (s.deliver p) (t.deliver p) := by
  have hlog : ((s.messageLog ++ [p]).filter fun q => q.dst ∈ g) =
      (t.messageLog ++ [p]).filter fun q => q.dst ∈ g := by
    rw [List.filter_append, List.filter_append, h.messageLog]
  have hnode := h.nodes p.dst hp
  unfold deliver
  cases hget : s.nodes.get p.dst with
  | none =>
    have hget' : t.nodes.get p.dst = none := hnode ▸ hget
    rw [handle_of_none (c := { s with messageLog := s.messageLog ++ [p] }) hget,
      handle_of_none (c := { t with messageLog := t.messageLog ++ [p] }) hget']
    exact ⟨h.nodes, h.waiting, hlog⟩
  | some n =>
    have hget' : t.nodes.get p.dst = some n := hnode ▸ hget
    refine ⟨fun v hv => ?_, fun v hv => ?_, ?_⟩
    · rw [handle_nodes (c := { s with messageLog := s.messageLog ++ [p] }) hget,
        handle_nodes (c := { t with messageLog := t.messageLog ++ [p] }) hget']
      by_cases hv' : v = p.dst
      · subst hv'
        simp
      · rw [IndexMap.get_insert_ne _ hv', IndexMap.get_insert_ne _ hv']
        exact h.nodes v hv
    · rw [handle_waiting (c := { s with messageLog := s.messageLog ++ [p] }) hs hget,
        handle_waiting (c := { t with messageLog := t.messageLog ++ [p] }) ht hget',
        List.filter_append, List.filter_append]
      exact congrArg (· ++ _) (h.waiting v hv)
    · rw [handle_messageLog, handle_messageLog]
      exact hlog

theorem wired_deliverAll : ∀ (ps : List (Packet P)) {s : TimelessTestCluster P SM}, Wired s →
    Wired (ps.foldl deliver s)
  | [], _, hs => hs
  | p :: ps, _, hs => wired_deliverAll ps (wired_deliver hs p)

/-- Of many deliveries the group notices its own. -/
theorem agree_deliverAll : ∀ (ps : List (Packet P)) {s t : TimelessTestCluster P SM}, Wired s →
    Wired t → Agree g s t →
    Agree g (ps.foldl deliver s) ((ps.filter fun p => p.dst ∈ g).foldl deliver t)
  | [], _, _, _, _, h => h
  | p :: ps, s, t, hs, ht, h => by
    by_cases hp : p.dst ∈ g
    · rw [List.filter_cons_of_pos (by simpa using hp)]
      exact agree_deliverAll ps (wired_deliver hs p) (wired_deliver ht p)
        (agree_deliver hs ht h hp)
    · rw [List.filter_cons_of_neg (by simpa using hp)]
      exact agree_deliverAll ps (wired_deliver hs p) ht
        ((agree_deliver_outside hs hp).trans h)

/-! ## One round -/

/-- A delivery keeps, of what goes to the group, what comes from within it. -/
def Cuts (g : List NodeId) (should : NodeId → NodeId → Bool) : Prop :=
  ∀ u v, v ∈ g → should u v = decide (u ∈ g)

variable {should should' : NodeId → NodeId → Bool} {ids ids' : List NodeId}

/-- What a round takes, with the queues emptied. -/
def emptied (should : NodeId → NodeId → Bool) (ids : List NodeId) (s : TimelessTestCluster P SM) :
    TimelessTestCluster P SM :=
  { s with messageBroker := (collect should ids s.messageBroker).1 }

/-- One whole round. -/
def round (should : NodeId → NodeId → Bool) (ids : List NodeId) (s : TimelessTestCluster P SM) :
    TimelessTestCluster P SM :=
  (collect should ids s.messageBroker).2.foldl deliver (emptied should ids s)

omit [StateMachine SM P] in
theorem mem_iff_of_filter_eq (hsame : ids.filter (· ∈ g) = ids'.filter (· ∈ g)) {v : NodeId}
    (hv : v ∈ g) : v ∈ ids ↔ v ∈ ids' := by
  have hmem : v ∈ ids.filter (· ∈ g) ↔ v ∈ ids'.filter (· ∈ g) := by rw [hsame]
  simpa [hv] using hmem

omit [StateMachine SM P] in
theorem kept_of_cuts (hcuts : Cuts g should) {v : NodeId} (hv : v ∈ g) :
    kept should s.messageBroker v =
      ((s.waiting v).filter fun m => m.1 ∈ g).map fun m => ⟨m.1, v, m.2⟩ := by
  unfold kept
  congr 1
  exact List.filter_congr fun m _ => hcuts m.1 v hv

omit [StateMachine SM P] in
/-- What a round takes for the group. -/
theorem collected_within (hcuts : Cuts g should) (hids : ids.Nodup) :
    ((collect should ids s.messageBroker).2.filter fun p => p.dst ∈ g) =
      (ids.filter (· ∈ g)).flatMap fun v =>
        ((s.waiting v).filter fun m => m.1 ∈ g).map fun m => ⟨m.1, v, m.2⟩ := by
  rw [collect_eq hids]
  clear hids
  induction ids with
  | nil => rfl
  | cons v ids ih =>
    rw [List.flatMap_cons, List.filter_append, ih]
    by_cases hv : v ∈ g
    · rw [List.filter_cons_of_pos (by simpa using hv), List.flatMap_cons, kept_of_cuts hcuts hv]
      congr 1
      rw [List.filter_eq_self]
      intro p hp
      obtain ⟨m, -, rfl⟩ := List.mem_map.mp hp
      simpa using hv
    · rw [List.filter_cons_of_neg (by simpa using hv)]
      have hnone : ((kept should s.messageBroker v).filter fun p => p.dst ∈ g) = [] := by
        rw [List.filter_eq_nil_iff]
        intro p hp
        rw [(mem_kept.mp hp).1]
        simpa using hv
      rw [hnone, List.nil_append]

omit [StateMachine SM P] in
theorem waiting_emptied (v : NodeId) :
    (emptied should ids s).waiting v = if v ∈ ids then [] else s.waiting v := by
  split
  · rename_i hv
    exact collect_waiting_of_mem hv
  · rename_i hv
    exact collect_waiting_of_not_mem hv

omit [StateMachine SM P] in
theorem agree_emptied (hsame : ids.filter (· ∈ g) = ids'.filter (· ∈ g)) (h : Agree g s t) :
    Agree g (emptied should ids s) (emptied should' ids' t) := by
  refine ⟨h.nodes, fun v hv => ?_, h.messageLog⟩
  have hiff := mem_iff_of_filter_eq hsame hv
  rw [waiting_emptied, waiting_emptied]
  by_cases hin : v ∈ ids
  · rw [if_pos hin, if_pos (hiff.mp hin)]
  · rw [if_neg hin, if_neg fun h' => hin (hiff.mpr h')]
    exact h.waiting v hv

/-- One round on either side. -/
theorem agree_round (hs : Wired s) (ht : Wired t) (hcuts : Cuts g should) (hcuts' : Cuts g should')
    (hids : ids.Nodup) (hids' : ids'.Nodup) (hsame : ids.filter (· ∈ g) = ids'.filter (· ∈ g))
    (h : Agree g s t) : Agree g (round should ids s) (round should' ids' t) := by
  have hagree : Agree g (emptied should ids s) (emptied should' ids' t) := agree_emptied hsame h
  have hwired : Wired (emptied should ids s) := hs
  have hwired' : Wired (emptied should' ids' t) := ht
  have hleft := agree_deliverAll (collect should ids s.messageBroker).2 hwired hwired' hagree
  have hright := agree_deliverAll (collect should' ids' t.messageBroker).2 hwired' hwired'
    (Agree.refl (g := g) _)
  have htaken : ((collect should ids s.messageBroker).2.filter fun p => p.dst ∈ g) =
      (collect should' ids' t.messageBroker).2.filter fun p => p.dst ∈ g := by
    rw [collected_within hcuts hids, collected_within hcuts' hids', hsame]
    exact List.flatMap_congr fun v hv => by
      have hv : v ∈ g := by simpa using (List.mem_filter.mp hv).2
      rw [h.waiting v hv]
  rw [htaken] at hleft
  exact hleft.trans hright.symm

/-! ## Many rounds -/

/-- Nothing waits for the group from within. -/
def Idle (g ids : List NodeId) (s : TimelessTestCluster P SM) : Prop :=
  ∀ v ∈ ids, v ∈ g → ((s.waiting v).filter fun m => m.1 ∈ g) = []

theorem agree_round_idle (hs : Wired s) (hcuts : Cuts g should) (hids : ids.Nodup)
    (hidle : Idle g ids s) : Agree g (round should ids s) s := by
  have hwired : Wired (emptied should ids s) := hs
  have hagree := agree_deliverAll (g := g) (collect should ids s.messageBroker).2 hwired hwired
    (Agree.refl _)
  have hnone : ((collect should ids s.messageBroker).2.filter fun p => p.dst ∈ g) = [] := by
    rw [collected_within hcuts hids, List.flatMap_eq_nil_iff]
    intro v hv
    rw [hidle v (List.mem_filter.mp hv).1 (by simpa using (List.mem_filter.mp hv).2)]
    rfl
  rw [hnone] at hagree
  refine hagree.trans ⟨fun _ _ => rfl, fun v hv => ?_, rfl⟩
  rw [List.foldl_nil, waiting_emptied]
  split
  · rename_i hin
    rw [hidle v hin hv]
    rfl
  · rfl

omit [StateMachine SM P] in
theorem Idle.of_agree (h : Agree g s t) (hidle : Idle g ids s) : Idle g ids t :=
  fun v hin hv => (h.waiting v hv) ▸ hidle v hin hv

omit [StateMachine SM P] in
theorem idle_of_empty (hcuts : Cuts g should) (hids : ids.Nodup)
    (hempty : (collect should ids s.messageBroker).2.isEmpty = true) : Idle g ids s := by
  intro v hin hv
  have hnone := collected_within (s := s) hcuts hids
  rw [List.isEmpty_iff.mp hempty, List.filter_nil] at hnone
  have hnone := List.flatMap_eq_nil_iff.mp hnone.symm v (by simp [hin, hv])
  exact List.map_eq_nil_iff.mp hnone

theorem wired_round (hs : Wired s) : Wired (round should ids s) :=
  wired_deliverAll _ hs

/-- A group for which nothing waits notices no round. -/
theorem deliverLoop_idle (hcuts : Cuts g should) (hids : ids.Nodup) :
    ∀ (fuel : Nat) {s : TimelessTestCluster P SM}, Wired s → Idle g ids s →
      deliverLoop should ids fuel s = some s' → Agree g s' s
  | 0, _, _, _, hloop => by cases hloop
  | fuel + 1, s, hs, hidle, hloop => by
    have hround := agree_round_idle hs hcuts hids hidle
    rw [deliverLoop_succ] at hloop
    split at hloop
    · rename_i hempty
      have heq : round should ids s = emptied should ids s := by
        unfold round
        rw [List.isEmpty_iff.mp hempty]
        rfl
      cases hloop
      rw [heq] at hround
      exact hround
    · exact (deliverLoop_idle hcuts hids fuel (wired_round hs)
        (Idle.of_agree hround.symm hidle) hloop).trans hround

/-- **Rounds of delivery keep a group and its double alike**, as long as they keep what comes from
within the group and go through its queues in the same order. -/
theorem deliverLoop_agree (hcuts : Cuts g should) (hcuts' : Cuts g should') (hids : ids.Nodup)
    (hids' : ids'.Nodup) (hsame : ids.filter (· ∈ g) = ids'.filter (· ∈ g)) :
    ∀ (fuel fuel' : Nat) {s t : TimelessTestCluster P SM}, Wired s → Wired t → Agree g s t →
      deliverLoop should ids fuel s = some s' → deliverLoop should' ids' fuel' t = some t' →
      Agree g s' t'
  | 0, _, _, _, _, _, _, hloop, _ => by cases hloop
  | _, 0, _, _, _, _, _, _, hloop' => by cases hloop'
  | fuel + 1, fuel' + 1, s, t, hs, ht, h, hloop, hloop' => by
    have hround := agree_round hs ht hcuts hcuts' hids hids' hsame h
    by_cases hempty : (collect should ids s.messageBroker).2.isEmpty = true
    · -- nothing waits for the group on either side
      have hidle := idle_of_empty hcuts hids hempty
      have hidle' : Idle g ids' t := fun v hin hv =>
        (h.waiting v hv) ▸ hidle v ((mem_iff_of_filter_eq hsame hv).mpr hin) hv
      exact ((deliverLoop_idle hcuts hids _ hs hidle hloop).trans h).trans
        (deliverLoop_idle hcuts' hids' _ ht hidle' hloop').symm
    by_cases hempty' : (collect should' ids' t.messageBroker).2.isEmpty = true
    · have hidle' := idle_of_empty hcuts' hids' hempty'
      have hidle : Idle g ids s := fun v hin hv =>
        (h.waiting v hv).symm ▸ hidle' v ((mem_iff_of_filter_eq hsame hv).mp hin) hv
      exact ((deliverLoop_idle hcuts hids _ hs hidle hloop).trans h).trans
        (deliverLoop_idle hcuts' hids' _ ht hidle' hloop').symm
    · rw [deliverLoop_succ, if_neg hempty] at hloop
      rw [deliverLoop_succ, if_neg hempty'] at hloop'
      exact deliverLoop_agree hcuts hcuts' hids hids' hsame fuel fuel' (wired_round hs)
        (wired_round ht) hround hloop hloop'

/-! ## Partitions -/

omit [StateMachine SM P] in
theorem cuts_shouldDeliver {group₁ group₂ : List NodeId}
    (hgroups : s.partitionGroups = some (group₁, group₂)) (hdisjoint : ∀ v ∈ group₁, v ∉ group₂) :
    Cuts group₁ s.shouldDeliver := by
  intro u v hv
  unfold shouldDeliver
  rw [hgroups]
  simp [hv, hdisjoint v hv]

/-- **A partition isolates**: two test clusters that look the same to the first group of a partition
still do so once the messages are delivered, whatever the other group and the queues towards it
are. -/
theorem partition_isolates (fresh : SM) {group₁ group₂ group₂' : List NodeId} (hs : Wired s)
    (ht : Wired t) (hgroups : s.partitionGroups = some (group₁, group₂))
    (hgroups' : t.partitionGroups = some (group₁, group₂'))
    (hdisjoint : ∀ v ∈ group₁, v ∉ group₂ ∧ v ∉ group₂')
    (hsame : s.nodes.keys.filter (· ∈ group₁) = t.nodes.keys.filter (· ∈ group₁))
    (h : Agree group₁ s t) :
    Agree group₁ (s.step fresh .deliverMessages) (t.step fresh .deliverMessages) := by
  obtain ⟨s', hloop, -, -⟩ := deliverLoop_ends s.shouldDeliver s.nodes.keys hs
  obtain ⟨t', hloop', -, -⟩ := deliverLoop_ends t.shouldDeliver t.nodes.keys ht
  have hloop := hloop deliveryFuel (Nat.le_refl _)
  have hloop' := hloop' deliveryFuel (Nat.le_refl _)
  show Agree group₁ ((deliverLoop _ _ deliveryFuel s).getD s)
    ((deliverLoop _ _ deliveryFuel t).getD t)
  rw [hloop, hloop']
  exact deliverLoop_agree (cuts_shouldDeliver hgroups fun v hv => (hdisjoint v hv).1)
    (cuts_shouldDeliver hgroups' fun v hv => (hdisjoint v hv).2) s.nodes.nodup t.nodes.nodup hsame
    _ _ hs ht h hloop hloop'

/-- **The first group of a partition is served alone**: to its nodes `deliver_messages` and
`deliver_messages_partition` do the same, where the group is listed in the order of the cluster. -/
theorem partition_delivers_alone (fresh : SM) {group₁ group₂ : List NodeId} (hs : Wired s)
    (hgroups : s.partitionGroups = some (group₁, group₂)) (hdisjoint : ∀ v ∈ group₁, v ∉ group₂)
    (horder : s.nodes.keys.filter (· ∈ group₁) = group₁) :
    Agree group₁ (s.step fresh .deliverMessages)
      (s.step fresh (.deliverMessagesPartition group₁)) := by
  have hnodup : group₁.Nodup := horder ▸ s.nodes.nodup.filter _
  have hcuts : Cuts group₁ fun sender _ => group₁.contains sender := fun u v _ => by simp
  obtain ⟨s', hloop, -, -⟩ := deliverLoop_ends s.shouldDeliver s.nodes.keys hs
  obtain ⟨t', hloop', -, -⟩ := deliverLoop_ends (fun sender _ => group₁.contains sender) group₁ hs
  have hloop := hloop deliveryFuel (Nat.le_refl _)
  have hloop' := hloop' deliveryFuel (Nat.le_refl _)
  have hself : group₁.filter (· ∈ group₁) = group₁ := by
    rw [List.filter_eq_self]
    simp
  show Agree group₁ ((deliverLoop _ _ deliveryFuel s).getD s)
    ((deliverLoop _ _ deliveryFuel s).getD s)
  rw [hloop, hloop']
  exact deliverLoop_agree (cuts_shouldDeliver hgroups hdisjoint) hcuts s.nodes.nodup hnodup
    (horder.trans hself.symm) _ _ hs hs (.refl s) hloop hloop'

end

/-- Node 2 of three is about to be elected behind the back of node 1, which goes on by itself. -/
def besideTest : List (TestAction UInt8) :=
  [.addNode 1 .new, .addNode 2 .new, .addNode 3 .new, .connectPeers, .timer 1 .election,
    .deliverMessages, .partition [2, 3] [1], .timer 2 .election]

/-- The cluster of `besideTest`. -/
def beside : TimelessTestCluster UInt8 Adder := besideTest.foldl (step ⟨0⟩) new

theorem wired_beside : Wired beside := wired_actions (⟨0⟩ : Adder) besideTest wired_new

theorem partition_isolates_beside :
    let t := beside.handle 1 (.clientCommand 10)
    ((t.nodes.get 1).map fun n => n.storage.log.length) = some 1 ∧
      ((beside.nodes.get 1).map fun n => n.storage.log.length) = some 0 ∧
      Agree [2, 3] (t.step ⟨0⟩ .deliverMessages) (beside.step ⟨0⟩ .deliverMessages) := by
  intro t
  have hgroups : beside.partitionGroups = some ([2, 3], [1]) := by decide +kernel
  have hgroups' : t.partitionGroups = some ([2, 3], [1]) := by decide +kernel
  have hsame : t.nodes.keys.filter (· ∈ [2, 3]) = beside.nodes.keys.filter (· ∈ [2, 3]) := by
    decide +kernel
  refine ⟨by decide +kernel, by decide +kernel, ?_⟩
  exact partition_isolates ⟨0⟩ (wired_handle wired_beside _ _) wired_beside hgroups' hgroups
    (by decide) hsame (agree_handle_outside wired_beside (by decide))

theorem partition_delivers_alone_beside :
    Agree [2, 3] (beside.step ⟨0⟩ .deliverMessages)
      (beside.step ⟨0⟩ (.deliverMessagesPartition [2, 3])) := by
  have hgroups : beside.partitionGroups = some ([2, 3], [1]) := by decide +kernel
  have horder : beside.nodes.keys.filter (· ∈ [2, 3]) = [2, 3] := by decide +kernel
  exact partition_delivers_alone ⟨0⟩ wired_beside hgroups (by decide) horder

end TimelessTestCluster

end MetalRaft
