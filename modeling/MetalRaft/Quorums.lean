import MetalRaft.Median
import MetalRaft.VoteTally

/-!
# Commit quorums and election quorums

`compute_median` counts the leader and the members that are not catching up; `has_quorum` counts
all members.  Whether the two kinds of quorum always meet depends on how many are catching up.

* `Suffices` — the logs of a set of nodes suffice for a commit, whatever the other logs are;
  `suffices_iff` reduces this to a majority of the voters.
* `quorumsMeet_iff` — the two kinds of quorum meet exactly when few enough members are catching
  up; `fewCatchingUp_iff` says how many that is in a configuration without repetitions.
-/

set_option autoImplicit false

namespace MetalRaft

open Selection

variable {P S SM : Type}

/-- The server is marked catching up. -/
def LogReplicationManager.marked (r : LogReplicationManager) (x : NodeId) : Bool :=
  (r.catchingUpServers.get x).isSome

namespace RaftNode

/-! ## Two kinds of quorum -/

/-- The leader, and the members that are neither the leader nor catching up. -/
def voters (n : RaftNode P S SM) : List NodeId :=
  n.id :: n.config.members.filter fun x =>
    x != n.id && !(n.replication.catchingUpServers.get x).isSome

/-- Once the nodes of `W` hold index `i`, the median is an index that has reached `i`, whatever
the leader knows of the other logs. -/
def Suffices (n : RaftNode P S SM) (W : Finset NodeId) : Prop :=
  ∀ (i lastLogIndex : Nat) (matchIndex : MapCollection),
    (n.id ∈ W → i ≤ lastLogIndex) →
    (∀ x ∈ W, x ≠ n.id → i ≤ (matchIndex.get x).getD 0) →
    ∃ j ∈ matchIndex.computeMedian .testUtils lastLogIndex n.config
      n.replication.catchingUpServers n.id, i ≤ j

/-- Every set of nodes that suffices for a commit meets every set of members that suffices for
an election. -/
def QuorumsMeet (n : RaftNode P S SM) : Prop :=
  ∀ W E : Finset NodeId, n.Suffices W → E ⊆ n.config.members.toFinset →
    n.config.hasQuorum E.card = true → ∃ x ∈ W, x ∈ E

/-- The voters left when the members with the fewest votes, `quorum_size` of them, are taken
away do not make up a majority. -/
def FewCatchingUp (n : RaftNode P S SM) : Prop :=
  n.config.members.dedup.length < n.config.quorumSize ∨
    n.voters.length < smallestSum n.config.quorumSize
      (n.config.members.dedup.map fun x => n.voters.count x) + (n.voters.length / 2 + 1)

instance (n : RaftNode P S SM) : Decidable n.FewCatchingUp := inferInstanceAs (Decidable (_ ∨ _))

variable {n : RaftNode P S SM} {W : Finset NodeId}

/-- The median reaches `i` exactly when a majority of the voters' indices does. -/
theorem computeMedian_reaches (matchIndex : MapCollection) (lastLogIndex i : Nat) :
    (∃ j ∈ matchIndex.computeMedian .testUtils lastLogIndex n.config
      n.replication.catchingUpServers n.id, i ≤ j) ↔
    n.voters.length / 2 + 1 ≤ n.voters.countP fun x =>
      decide (i ≤ if x = n.id then lastLogIndex else (matchIndex.get x).getD 0) := by
  obtain ⟨m, hm, hreach⟩ := MapCollection.computeMedian_spec (R := .testUtils) matchIndex lastLogIndex
    (fun _ hcap => (by cases hcap) :
      MapCollection.VotersFit .testUtils n.config n.replication.catchingUpServers n.id)
  simp only [hm, Option.mem_def, Option.some.injEq, exists_eq_left']
  exact hreach i

/-- **A set of nodes suffices for a commit exactly when it holds a majority of the voters.** -/
theorem suffices_iff :
    n.Suffices W ↔ n.voters.length / 2 + 1 ≤ n.voters.countP fun x => decide (x ∈ W) := by
  constructor
  · intro h
    -- index 1 is held by the nodes of `W` and by no other
    have hget : ∀ x, ((⟨W.toList.map fun y => (y, 1)⟩ : MapCollection).get x).getD 0 =
        if x ∈ W then 1 else 0 := by
      intro x
      unfold MapCollection.get
      cases hfind : (W.toList.map fun y => (y, 1)).find? (·.1 == x) with
      | none =>
        rw [List.find?_eq_none] at hfind
        rw [if_neg]
        · rfl
        · intro hx
          exact hfind (x, 1) (List.mem_map.mpr ⟨x, Finset.mem_toList.mpr hx, rfl⟩)
            (beq_self_eq_true x)
      | some e =>
        have hmem := List.mem_of_find?_eq_some hfind
        obtain ⟨y, hy, rfl⟩ := List.mem_map.mp hmem
        have hyx : y = x := by simpa using List.find?_some hfind
        subst hyx
        rw [if_pos (Finset.mem_toList.mp hy)]
        rfl
    have hreach := (computeMedian_reaches _ _ _).mp
      (h 1 (if n.id ∈ W then 1 else 0) ⟨W.toList.map fun y => (y, 1)⟩
        (fun hid => by rw [if_pos hid]) (fun x hx _ => by rw [hget, if_pos hx]))
    refine Nat.le_trans hreach (List.countP_mono_left fun x _ hx => ?_)
    rw [decide_eq_true_eq, hget] at hx
    by_contra hmem
    have hmem' : x ∉ W := fun hxW => hmem (decide_eq_true hxW)
    by_cases hid : x = n.id
    · subst hid; simp [hmem'] at hx
    · simp [hid, hmem'] at hx
  · intro h i lastLogIndex matchIndex hself hothers
    refine (computeMedian_reaches _ _ _).mpr (Nat.le_trans h ?_)
    refine List.countP_mono_left fun x _ hx => decide_eq_true ?_
    have hxW : x ∈ W := of_decide_eq_true hx
    by_cases hid : x = n.id
    · rw [if_pos hid]; exact hself (hid ▸ hxW)
    · rw [if_neg hid]; exact hothers x hxW hid

/-- **The two kinds of quorum meet exactly when few members are catching up.** -/
theorem quorumsMeet_iff (n : RaftNode P S SM) : n.QuorumsMeet ↔ n.FewCatchingUp := by
  constructor
  · intro h
    by_contra hmany
    unfold FewCatchingUp at hmany
    simp only [not_or, Nat.not_lt] at hmany
    obtain ⟨hq, hsum⟩ := hmany
    obtain ⟨ys, hsub, hlen, hweight⟩ := exists_smallestSum (w := fun x => n.voters.count x) hq
    have hnodup : ys.Nodup := by
      obtain ⟨zs, hperm, hzs⟩ := hsub
      exact hperm.nodup_iff.mp ((List.nodup_dedup _).sublist hzs)
    have hsplit : n.voters.countP (fun x => decide (x ∈ n.voters.toFinset \ ys.toFinset)) +
        n.voters.countP (fun x => decide (x ∈ ys)) = n.voters.length := by
      rw [List.length_eq_countP_add_countP (fun x => decide (x ∈ ys)) (l := n.voters), Nat.add_comm]
      congr 1
      refine List.countP_congr fun x hx => ?_
      simp [hx]
    rw [countP_mem _ hnodup, hweight] at hsplit
    obtain ⟨x, hxW, hxE⟩ := h (n.voters.toFinset \ ys.toFinset) ys.toFinset
      (suffices_iff.mpr (by omega))
      (fun x hx => List.mem_toFinset.mpr
        (List.mem_dedup.mp (hsub.subset (List.mem_toFinset.mp hx))))
      (decide_eq_true (by rw [List.toFinset_card_of_nodup hnodup, hlen]))
    exact (Finset.mem_sdiff.mp hxW).2 hxE
  · intro hfew W E hW hE hquorum
    have hW' := suffices_iff.mp hW
    have hq : n.config.quorumSize ≤ E.card := of_decide_eq_true hquorum
    by_contra hapart
    have hlist : E.toList.Subperm n.config.members.dedup :=
      List.subperm_of_subset E.nodup_toList fun x hx =>
        List.mem_dedup.mpr (List.mem_toFinset.mp (hE (Finset.mem_toList.mp hx)))
    have hcard : E.toList.length = E.card := Finset.length_toList E
    have hcount : n.voters.countP (fun x => decide (x ∈ W)) +
        n.voters.countP (fun x => decide (x ∈ E.toList)) ≤ n.voters.length := by
      rw [List.length_eq_countP_add_countP (fun x => decide (x ∈ W)) (l := n.voters)]
      refine Nat.add_le_add_left (List.countP_mono_left fun x _ hx => ?_) _
      have hxE : x ∈ E := Finset.mem_toList.mp (of_decide_eq_true hx)
      have hxW : x ∉ W := fun hxW => hapart ⟨x, hxW, hxE⟩
      simp [hxW]
    rw [countP_mem _ E.nodup_toList] at hcount
    rcases hfew with hfew | hfew
    · have := hlist.length_le
      omega
    · have := smallestSum_le (w := fun x => n.voters.count x) (q := n.config.quorumSize) hlist
        (by omega)
      omega

/-- How many nodes count in one of the two kinds of quorum only: members that are marked, and the
leader where it is no member itself. -/
def countedOnce (self : NodeId) (members : List NodeId) (marked : NodeId → Bool) : Nat :=
  (members.countP fun x => x != self && marked x) + if self ∈ members then 0 else 1

/-- At most one such node, or two beside an even number of members. -/
def Close (self : NodeId) (members : List NodeId) (marked : NodeId → Bool) : Prop :=
  countedOnce self members marked ≤ 1 ∨
    countedOnce self members marked = 2 ∧ members.length % 2 = 0

instance (self : NodeId) (members : List NodeId) (marked : NodeId → Bool) :
    Decidable (Close self members marked) := inferInstanceAs (Decidable (_ ∨ _))

theorem voters_length (hnodup : n.config.members.Nodup) :
    n.voters.length + (n.config.members.countP fun x => x != n.id && n.replication.marked x) =
      n.config.members.length + if n.id ∈ n.config.members then 0 else 1 := by
  have hone : n.config.members.countP (· == n.id) = if n.id ∈ n.config.members then 1 else 0 :=
    hnodup.count
  have hrest : ∀ l : List NodeId,
      l.countP (· == n.id) + ((l.filter fun x => x != n.id && !n.replication.marked x).length +
        l.countP fun x => x != n.id && n.replication.marked x) = l.length := by
    intro l
    rw [← List.countP_eq_length_filter]
    induction l with
    | nil => rfl
    | cons x l ih =>
      simp only [List.countP_cons, List.length_cons]
      by_cases hx : x = n.id
      · simp only [hx, beq_self_eq_true, bne_self_eq_false, Bool.false_and, Bool.false_eq_true,
          if_false, if_true]
        omega
      · cases hc : n.replication.marked x <;>
          simp only [hx, beq_iff_eq, bne_iff_ne, ne_eq, not_false_eq_true, Bool.not_true,
            Bool.not_false, Bool.and_true, Bool.and_false, Bool.false_eq_true, if_false,
            if_true] <;> omega
  have hall := hrest n.config.members
  rw [hone] at hall
  show (n.config.members.filter fun x => x != n.id && !n.replication.marked x).length + 1 + _ = _
  split at hall <;> rename_i hself <;> simp only [hself, if_true, if_false] <;> omega

/-- **In a configuration without repetitions** few are catching up exactly when few count in one
kind of quorum only. -/
theorem fewCatchingUp_iff (hnodup : n.config.members.Nodup) (hne : n.config.members ≠ []) :
    n.FewCatchingUp ↔ Close n.id n.config.members n.replication.marked := by
  have hlen := voters_length hnodup
  have hpos : 0 < n.voters.length := List.length_pos_of_mem (List.mem_cons_self ..)
  have hsome : 0 < n.config.members.length := List.length_pos_iff.mpr hne
  have hq : n.config.quorumSize = n.config.members.length / 2 + 1 := by
    unfold Configuration.quorumSize Configuration.size
    simp only
    rw [if_neg (by omega)]
  have hcount : ∀ x ∈ n.config.members, n.voters.count x =
      if (x != n.id && n.replication.marked x) = true then 0 else 1 := by
    intro x hx
    have hone := List.count_eq_one_of_mem hnodup hx
    unfold voters
    by_cases hid : x = n.id
    · subst hid
      rw [List.count_cons_self, List.count_eq_zero.mpr (by simp)]
      simp
    · rw [List.count_cons_of_ne (Ne.symm hid)]
      unfold LogReplicationManager.marked
      cases hc : n.replication.catchingUpServers.get x with
      | none => rw [List.count_filter (by simp [hid, hc]), hone]; simp
      | some i => rw [List.count_eq_zero.mpr (by simp [hc])]; simp [hid]
  have hzero : (n.config.members.map fun x => n.voters.count x).count 0 =
      n.config.members.countP fun x => x != n.id && n.replication.marked x := by
    rw [List.map_congr_left hcount, List.count, List.countP_map]
    refine List.countP_congr fun x _ => ?_
    simp only [Function.comp]
    split <;> simp_all
  unfold FewCatchingUp Close countedOnce
  rw [List.dedup_eq_self.mpr hnodup, smallestSum_of_le_one, hzero, hq]
  · split at hlen <;> rename_i hself <;> simp only [hself, if_true, if_false] <;> omega
  · intro w hw
    obtain ⟨x, hx, rfl⟩ := List.mem_map.mp hw
    rw [hcount x hx]
    split <;> omega
  · rw [List.length_map, hq]
    omega

end RaftNode

end MetalRaft
