import MetalRaft.LockStep

/-!
# A peer that can be caught up

Rounds bring a peer up to the leader's log where the leader gets to an entry that both know, or
to a snapshot that the peer installs; `CanCatchUp` says when that is.

* `follower_catches_up` — exactly then, for a leader that can send its snapshot.
* `install_refused_forever` — a lost answer to an InstallSnapshot is enough to get stuck.
-/

set_option autoImplicit false

namespace MetalRaft

open Transition Voting RaftNode

variable {P SM : Type} [StateMachine SM P]

/-! ## Snapshot prefix and log -/

/-- What the snapshot stands for, and the log behind it. -/
def wholeLog (covers : Snapshot → List (LogEntry P)) (s : InMemoryStorage P) : List (LogEntry P) :=
  s.snapshot.elim [] covers ++ s.log

/-- Entries of one term at the same index: the logs begin alike. -/
def LogsMatch (l l' : List (LogEntry P)) : Prop :=
  ∀ j e e', l[j]? = some e → l'[j]? = some e' → e.term = e'.term → Agree (j + 1) l l'

/-- Both storages know the term at index `p`, and it is the same. -/
def Common (s s' : InMemoryStorage P) (p : Nat) : Prop := ∃ t ∈ s.termAt p, t ∈ s'.termAt p

instance (s s' : InMemoryStorage P) (p : Nat) : Decidable (Common s s' p) :=
  inferInstanceAs (Decidable (∃ t ∈ s.termAt p, t ∈ s'.termAt p))

/-- Below the peer's next index there is one that both know alike, or the leader has a newer
snapshot than the peer and can send it. -/
def CanCatchUp (leader peer : TestNode P SM) : Prop :=
  (∃ p < (leader.replication.nextIndex.get peer.id).getD 1, Common leader.storage peer.storage p) ∨
    peer.storage.snapIndex < leader.storage.snapIndex ∧ leader.storage.ServesSnapshot

instance (leader peer : TestNode P SM) : Decidable (CanCatchUp leader peer) :=
  inferInstanceAs (Decidable (_ ∨ _))

/-- The leader, of the first node, has the log `l`, and that of the peer agrees with it on every
index of `l`. -/
def CaughtUp (covers : Snapshot → List (LogEntry P)) (l : List (LogEntry P))
    (x : TestNode P SM × TestNode P SM) : Prop :=
  FullLog x.1.storage l ∧ Agree l.length (wholeLog covers x.2.storage) l

section

variable {s s' : InMemoryStorage P} {l l' : List (LogEntry P)} {p : Nat}
  {covers : Snapshot → List (LogEntry P)}

omit [StateMachine SM P]

theorem SameLog.wholeLog (h : SameLog s s') : wholeLog covers s' = wholeLog covers s := by
  unfold MetalRaft.wholeLog
  rw [h.snapshot, h.log]

theorem FullLog.wholeLog_eq (h : FullLog s l)
    (hcovers : s.snapshot.elim [] covers = l.take s.snapIndex) : wholeLog covers s = l := by
  unfold MetalRaft.wholeLog
  rw [hcovers, h.log, List.take_append_drop]

/-- The snapshot stands for as many entries as its index says. -/
theorem FullLog.covers_eq (h : FullLog s (wholeLog covers s)) :
    s.snapshot.elim [] covers = (wholeLog covers s).take s.snapIndex := by
  have hlen : s.log.length = ((s.snapshot.elim [] covers) ++ s.log).length - s.snapIndex := by
    conv_lhs => rw [h.log]
    rw [List.length_drop]
    rfl
  have hle : s.snapIndex ≤ ((s.snapshot.elim [] covers) ++ s.log).length := h.le
  rw [List.length_append] at hlen hle
  unfold MetalRaft.wholeLog
  rw [← show (s.snapshot.elim [] covers).length = s.snapIndex by omega, List.take_left]

theorem LogsMatch.common (h : LogsMatch l l') (hl : FullLog s l) (hl' : FullLog s' l')
    (hp : Common s s' p) : Agree p l' l := by
  obtain ⟨t, ht, ht'⟩ := hp
  rcases (hl.of_termAt ht).2.2 with h0 | ⟨e, he, hterm⟩
  · rw [h0]
    exact Agree.zero _ _
  · rcases (hl'.of_termAt ht').2.2 with h0 | ⟨e', he', hterm'⟩
    · rw [h0]
      exact Agree.zero _ _
    · exact ((h (p - 1) e e' he he' (hterm.trans hterm'.symm)).mono (by omega)).symm

theorem InMemoryStorage.ServesSnapshot.snapIndex_pos (h : s.ServesSnapshot) (hl : FullLog s l) :
    0 < s.snapIndex := by
  obtain ⟨chunk, hchunk, _⟩ := h
  cases hx : s.snapshot with
  | none =>
    unfold InMemoryStorage.getSnapshotChunk at hchunk
    rw [hx] at hchunk
    cases hchunk
  | some m =>
    have hm : s.snapshotMetadata = some m.metadata := by simp [snapshotMetadata, hx]
    rw [FullLog.snapIndex_of_metadata hm]
    exact (hl.boundary _ hm).1

/-- A snapshot is refused that ends no later than the node's own. -/
theorem alreadyCovered_eq {i : Nat} (hi : 0 < i) :
    LogReplicationManager.alreadyCovered i s = decide (i ≤ s.snapIndex) := by
  unfold LogReplicationManager.alreadyCovered InMemoryStorage.snapIndex
  rw [InMemoryStorage.storage_snapshotMetadata]
  unfold InMemoryStorage.snapshotMetadata
  cases s.snapshot with
  | none => exact (decide_eq_false (Nat.not_le.mpr hi)).symm
  | some x => rfl

/-- A snapshot that stands for the beginning of another log replaces that of this one. -/
theorem FullLog.compactedTo (hl : FullLog s l) (hl' : FullLog s' l') {m : Snapshot}
    (hm : s.snapshot = some m) (hbelow : s'.snapIndex ≤ s.snapIndex) :
    FullLog (s'.compactedTo m) (l.take s.snapIndex ++ l'.drop s.snapIndex) := by
  have hmeta : s.snapshotMetadata = some m.metadata := by
    simp [InMemoryStorage.snapshotMetadata, hm]
  have hsnap : s.snapIndex = m.metadata.lastIncludedIndex := FullLog.snapIndex_of_metadata hmeta
  obtain ⟨hpos, e, he, hterm⟩ := hl.boundary _ hmeta
  rw [← hsnap] at hpos he
  have hlen : (l.take s.snapIndex).length = s.snapIndex := by
    rw [List.length_take]
    exact Nat.min_eq_left hl.le
  refine ⟨rfl, ?_, ?_, fun m' hm' => ?_⟩
  · rw [InMemoryStorage.snapIndex_compactedTo, ← hsnap, List.length_append]
    omega
  · rw [InMemoryStorage.snapIndex_compactedTo, ← hsnap]
    show s'.log.drop (m.metadata.lastIncludedIndex - s'.snapIndex) = _
    rw [List.drop_append_of_le_length (Nat.le_of_eq hlen.symm),
      List.drop_eq_nil_of_le (Nat.le_of_eq hlen), List.nil_append, hl'.log, List.drop_drop, ← hsnap]
    congr 1
    omega
  · cases hm'
    rw [← hsnap]
    refine ⟨hpos, e, ?_, hterm⟩
    rw [List.getElem?_append_left (by omega), List.getElem?_take_of_lt (by omega)]
    exact he

end

/-! ## Rounds until the logs agree -/

section

variable {x : TestNode P SM × TestNode P SM} {s s' : InMemoryStorage P} {next : Nat}
  {covers : Snapshot → List (LogEntry P)}

/-- Known alike, the entry before the peer's next index settles the matter. -/
theorem Facing.accept_common {l : List (LogEntry P)} (h : Facing s s' next x) (hl : FullLog s l)
    (hl' : FullLog s' (wholeLog covers s')) (hterm : x.2.currentTerm = s.currentTerm)
    (hfirst : s.firstIndex ≤ next) (hcommon : Common s s' (next - 1))
    (hagree : Agree (next - 1) (wholeLog covers s') l) : CaughtUp covers l (lockStep x) := by
  obtain ⟨t, ht, ht'⟩ := hcommon
  have hcheck : s'.termAt (next - 1) = some ((s.termAt (next - 1)).getD 0) := by
    rw [Option.mem_def.mp ht, Option.mem_def.mp ht']
    rfl
  obtain ⟨hleader, hsnapshot, l₂, hl₂, htop, hbottom⟩ := h.accept_step hl hl' hfirst hterm
    (Or.inr hcheck) (hl'.of_termAt ht').1 hagree
  have hsnap : (lockStep x).2.storage.snapIndex = s'.snapIndex := by
    unfold InMemoryStorage.snapIndex
    rw [hsnapshot]
  refine ⟨hleader, ?_⟩
  rw [hl₂.wholeLog_eq (by rw [hsnapshot, hsnap, hl'.covers_eq]; exact hbottom.symm)]
  exact htop

variable (hl : FullLog s (wholeLog covers s)) (hl' : FullLog s' (wholeLog covers s'))

include hl hl'

/-- A snapshot that the peer installs, and the entries behind it. -/
theorem Facing.installs (h : Facing s s' next x) (hserves : s.ServesSnapshot)
    (hbelow : s'.snapIndex < s.snapIndex) (hfirst : next < s.firstIndex) :
    ∃ k, CaughtUp covers (wholeLog covers s) (lockStep^[k] x) := by
  have hfresh : LogReplicationManager.alreadyCovered s.snapIndex s' = false := by
    rw [alreadyCovered_eq (by omega)]
    exact decide_eq_false (Nat.not_le.mpr hbelow)
  obtain ⟨m, hm, hfacing, hterm⟩ := h.install_step hl'.shaped hserves hfirst hfresh
  have hcompacted := hl.compactedTo hl' hm (Nat.le_of_lt hbelow)
  have hcovers : covers m = (wholeLog covers s).take s.snapIndex := by
    rw [← hl.covers_eq, hm]
    rfl
  have hsnap : s.snapIndex = m.metadata.lastIncludedIndex := by
    simp [InMemoryStorage.snapIndex, hm]
  have hlen : s.snapIndex ≤ ((wholeLog covers s).take s.snapIndex).length := by
    rw [List.length_take]
    exact Nat.le_min.mpr ⟨Nat.le_refl _, hl.le⟩
  have hwhole : wholeLog covers (s'.compactedTo m) = (wholeLog covers s).take s.snapIndex ++
      (wholeLog covers s').drop s.snapIndex := by
    refine hcompacted.wholeLog_eq ?_
    rw [InMemoryStorage.snapIndex_compactedTo, ← hsnap, List.take_append_of_le_length hlen,
      List.take_take, Nat.min_self]
    exact hcovers
  rw [← hwhole] at hcompacted
  have hcommon : Common s (s'.compactedTo m) s.snapIndex := by
    refine ⟨s.snapTerm, InMemoryStorage.termAt_snapIndex s, ?_⟩
    have hterm : s.snapTerm = (s'.compactedTo m).snapTerm := by
      simp [InMemoryStorage.snapTerm, hm]
      rfl
    rw [hterm, hsnap, ← InMemoryStorage.snapIndex_compactedTo (s := s') m]
    exact InMemoryStorage.termAt_snapIndex _
  refine ⟨2, hfacing.accept_common hl hcompacted hterm (Nat.le_of_eq hl.shaped) hcommon ?_⟩
  rw [hwhole]
  exact (agree_append hlen).symm.trans (agree_take (Nat.le_refl _) _)

variable (hpos : ∀ i t, 0 < i → s'.termAt i = some t → 0 < t)

include hpos

/-- Not known alike, it takes the leader back. -/
theorem Facing.reject_uncommon (h : Facing s s' next x) (hterm : x.2.currentTerm = s.currentTerm)
    (hfirst : s.firstIndex ≤ next) (hnext : 1 < next) (hcommon : ¬ Common s s' (next - 1)) :
    Facing s s' (next - 1) (lockStep x) ∧ (lockStep x).2.currentTerm = s.currentTerm := by
  refine h.reject_step hl hl' hfirst hterm hnext fun ht' => ?_
  cases ht : s.termAt (next - 1) with
  | none =>
    rw [ht] at ht'
    exact absurd (hpos (next - 1) 0 (by omega) ht') (Nat.lt_irrefl 0)
  | some t =>
    rw [ht] at ht'
    exact hcommon ⟨t, ht, ht'⟩

/-- Otherwise the peer keeps the log that it has. -/
theorem Facing.stuck (h : Facing s s' next x) (hserves : s.ServesSnapshot)
    (hcommon : ¬ ∃ p < next, Common s s' p) (hbelow : s.snapIndex ≤ s'.snapIndex) (k : Nat) :
    ∃ next' ≤ next, Facing s s' next' (lockStep^[k] x) := by
  have hshaped : s.firstIndex = s.snapIndex + 1 := hl.shaped
  have hserved := hserves.snapIndex_pos hl
  induction k with
  | zero => exact ⟨next, Nat.le_refl _, h⟩
  | succ k ih =>
    obtain ⟨now, hnow, hfacing⟩ := ih
    rw [Function.iterate_succ_apply']
    by_cases hfirst : s.firstIndex ≤ now
    · rcases Nat.lt_or_eq_of_le hfacing.behind with hlt | hterm
      · exact ⟨now, hnow, (hfacing.behind_step hl hfirst hlt).1⟩
      · have hhere : ¬ Common s s' (now - 1) := fun hc => hcommon ⟨now - 1, by omega, hc⟩
        exact ⟨now - 1, by omega,
          (hfacing.reject_uncommon hl hl' hpos hterm hfirst (by omega) hhere).1⟩
    · have hcovered : LogReplicationManager.alreadyCovered s.snapIndex s' = true := by
        rw [alreadyCovered_eq hserved]
        exact decide_eq_true hbelow
      exact ⟨now, hnow, hfacing.refuse_step hserves (Nat.lt_of_not_le hfirst) hcovered⟩

variable (hmatch : LogsMatch (wholeLog covers s) (wholeLog covers s'))

include hmatch

/-- Going back by single indices, the leader comes to one that both know alike. -/
theorem Facing.comes_to_common (h : Facing s s' next x) (hterm : x.2.currentTerm = s.currentTerm)
    (hcommon : ∃ p < next, Common s s' p) :
    ∃ k, CaughtUp covers (wholeLog covers s) (lockStep^[k] x) := by
  obtain ⟨p, hp, hknown⟩ := hcommon
  have hsnap : s.snapIndex ≤ p := by
    obtain ⟨t, ht, _⟩ := hknown
    exact (hl.of_termAt ht).1
  have hshaped : s.firstIndex = s.snapIndex + 1 := hl.shaped
  induction next generalizing x with
  | zero => omega
  | succ next ih =>
    have hfirst : s.firstIndex ≤ next + 1 := by omega
    by_cases hhere : Common s s' next
    · exact ⟨1, h.accept_common hl hl' hterm hfirst hhere (hmatch.common hl hl' hhere)⟩
    · have hlt : p < next := by
        refine lt_of_le_of_ne (Nat.le_of_lt_succ hp) fun heq => ?_
        rw [heq] at hknown
        exact hhere hknown
      obtain ⟨hfacing, hsame⟩ := h.reject_uncommon hl hl' hpos hterm hfirst (by omega) hhere
      obtain ⟨k, hk⟩ := ih hfacing hsame hlt
      exact ⟨k + 1, hk⟩

/-- Or it comes to its own snapshot, and the peer installs that. -/
theorem Facing.comes_to_snapshot (h : Facing s s' next x) (hserves : s.ServesSnapshot)
    (hbelow : s'.snapIndex < s.snapIndex)
    (hterm : s.firstIndex ≤ next → x.2.currentTerm = s.currentTerm) :
    ∃ k, CaughtUp covers (wholeLog covers s) (lockStep^[k] x) := by
  have hshaped : s.firstIndex = s.snapIndex + 1 := hl.shaped
  induction next generalizing x with
  | zero => exact h.installs hl hl' hserves hbelow (by omega)
  | succ next ih =>
    by_cases hfirst : s.firstIndex ≤ next + 1
    · by_cases hhere : Common s s' next
      · exact ⟨1, h.accept_common hl hl' (hterm hfirst) hfirst hhere
          (hmatch.common hl hl' hhere)⟩
      · obtain ⟨hfacing, hsame⟩ :=
          h.reject_uncommon hl hl' hpos (hterm hfirst) hfirst (by omega) hhere
        obtain ⟨k, hk⟩ := ih hfacing fun _ => hsame
        exact ⟨k + 1, hk⟩
    · exact h.installs hl hl' hserves hbelow (Nat.lt_of_not_le hfirst)

/-- Rounds bring the peer up to the leader's log where the condition holds. -/
theorem Facing.catches_up (h : Facing s s' next x) (hcan : (∃ p < next, Common s s' p) ∨
      s'.snapIndex < s.snapIndex ∧ s.ServesSnapshot) :
    ∃ k, CaughtUp covers (wholeLog covers s) (lockStep^[k] x) := by
  have hlevel : ∀ y : TestNode P SM × TestNode P SM, Facing s s' next y →
      (s.firstIndex ≤ next → y.2.currentTerm = s.currentTerm) →
      ∃ k, CaughtUp covers (wholeLog covers s) (lockStep^[k] y) := by
    intro y hy hterm
    rcases hcan with hcommon | ⟨hbelow, hserves⟩
    · have hfirst : s.firstIndex ≤ next := by
        obtain ⟨p, hp, t, ht, _⟩ := hcommon
        have hsnap := (hl.of_termAt ht).1
        have hshaped : s.firstIndex = s.snapIndex + 1 := hl.shaped
        omega
      exact hy.comes_to_common hl hl' hpos hmatch (hterm hfirst) hcommon
    · exact hy.comes_to_snapshot hl hl' hpos hmatch hserves hbelow hterm
  by_cases hbehind : s.firstIndex ≤ next ∧ x.2.currentTerm < s.currentTerm
  · obtain ⟨hfacing, hterm⟩ := h.behind_step hl hbehind.1 hbehind.2
    obtain ⟨k, hk⟩ := hlevel _ hfacing fun _ => hterm
    exact ⟨k + 1, hk⟩
  · exact hlevel x h fun hfirst => by have := h.behind; omega

end

/-! ## Every run in which logs stay whole -/

/-- What the snapshots stand for, so that the logs of all nodes are whole and match. -/
structure Reading (d : Deployment SM) (c : Cluster P SM)
    (covers : Snapshot → List (LogEntry P)) : Prop where
  whole : ∀ v ∈ d.members, FullLog (c.nodes v).storage (wholeLog covers (c.nodes v).storage)
  matching : ∀ v ∈ d.members, ∀ w ∈ d.members,
    LogsMatch (wholeLog covers (c.nodes v).storage) (wholeLog covers (c.nodes w).storage)

section

variable {d : Deployment SM} {c : Cluster P SM} {g : Replicated NodeId (LogEntry P)}

omit [StateMachine SM P] in
theorem logsMatch_ghost (hi : g.Inv d.members.toFinset) (v w : NodeId) :
    LogsMatch (g.log v) (g.log w) :=
  fun _ _ _ he he' hterm => (hi.log v).matching (hi.log w) he he' hterm

omit [StateMachine SM P] in
theorem Replicating.reading (h : Replicating d c g) :
    ∃ covers, Reading d c covers := by
  have hstands : ∀ x : Snapshot, ∃ l, ∀ v ∈ d.members, (c.nodes v).storage.snapshot = some x →
      l = (g.log v).take (c.nodes v).storage.snapIndex := by
    intro x
    by_cases hx : ∃ v ∈ d.members, (c.nodes v).storage.snapshot = some x
    · obtain ⟨v, hv, hvx⟩ := hx
      refine ⟨(g.log v).take (c.nodes v).storage.snapIndex, fun w hw hwx => ?_⟩
      have hsnap : (c.nodes w).storage.snapIndex = (c.nodes v).storage.snapIndex := by
        unfold InMemoryStorage.snapIndex
        rw [hvx, hwx]
      have hterm : (c.nodes w).storage.snapTerm = (c.nodes v).storage.snapTerm := by
        unfold InMemoryStorage.snapTerm
        rw [hvx, hwx]
      have hcommon : Common (c.nodes w).storage (c.nodes v).storage
          (c.nodes v).storage.snapIndex := by
        refine ⟨(c.nodes v).storage.snapTerm, ?_, InMemoryStorage.termAt_snapIndex _⟩
        rw [← hsnap, ← hterm]
        exact InMemoryStorage.termAt_snapIndex _
      rw [hsnap]
      exact (logsMatch_ghost h.sim.inv w v).common (h.sim.node w hw) (h.sim.node v hv) hcommon
    · exact ⟨[], fun v hv hvx => absurd ⟨v, hv, hvx⟩ hx⟩
  choose covers hcovers using hstands
  have hwhole : ∀ v ∈ d.members, wholeLog covers (c.nodes v).storage = g.log v := by
    intro v hv
    refine (h.sim.node v hv).wholeLog_eq ?_
    cases hx : (c.nodes v).storage.snapshot with
    | none => simp [InMemoryStorage.snapIndex, hx]
    | some x => exact hcovers x v hv hx
  refine ⟨covers, fun v hv => ?_, fun v hv w hw => ?_⟩
  · rw [hwhole v hv]
    exact h.sim.node v hv
  · rw [hwhole v hv, hwhole w hw]
    exact logsMatch_ghost h.sim.inv v w

omit [StateMachine SM P] in
theorem Replicating.facing {leader peer : NodeId} (h : Replicating d c g)
    (hv : leader ∈ d.members) (hrole : (c.nodes leader).role = .leader)
    (hterm : (c.nodes peer).currentTerm ≤ (c.nodes leader).currentTerm) :
    Facing (c.nodes leader).storage (c.nodes peer).storage
      (((c.nodes leader).replication.nextIndex.get (c.nodes peer).id).getD 1)
      (c.nodes leader, c.nodes peer) := by
  have hballot := h.sim.elections.node leader hv
  have hstored := hballot.currentTerm.trans hballot.stored.symm
  exact ⟨hrole, rfl, hstored, hstored ▸ hterm, SameLog.refl _, rfl⟩

omit [StateMachine SM P] in
theorem Replicating.known_pos {v : NodeId} (h : Replicating d c g) (hv : v ∈ d.members) (i t : Nat)
    (hi : 0 < i) (ht : (c.nodes v).storage.termAt i = some t) : 0 < t := by
  obtain ⟨e, he, rfl⟩ := ((h.sim.node v hv).of_termAt ht).2.2.resolve_left (Nat.ne_of_gt hi)
  exact (h.sim.inv.log_stamp v e (List.mem_of_getElem? he)).1

theorem replicating_of_reachable (h : Reachable d (WholeLogs d) c) : ∃ g, Replicating d c g := by
  obtain ⟨g, _, hg⟩ := Run.simulate (Replicating d) Replicated.Le Replicated.Le.refl
    (fun _ _ _ => Replicated.Le.trans) (fun _ _ _ hg hok => hg.step hok) h (replicating_init d)
  exact ⟨g, hg⟩

/-- **Catching up.**  In every run in which logs stay whole: where a leader and a peer in no later
term meet the condition, lock-step rounds bring the peer up to the leader's log; and a leader that
can send its snapshot brings no other peer there. -/
theorem follower_catches_up (h : Reachable d (WholeLogs d) c) :
    (∃ covers, Reading d c covers) ∧
      ∀ covers, Reading d c covers → ∀ leader ∈ d.members, ∀ peer ∈ d.members,
        (c.nodes leader).role = .leader →
        (c.nodes peer).currentTerm ≤ (c.nodes leader).currentTerm →
        let x := (c.nodes leader, c.nodes peer)
        let l := wholeLog covers (c.nodes leader).storage
        (CaughtUp covers l x ∨ CanCatchUp x.1 x.2 → ∃ k, CaughtUp covers l (lockStep^[k] x)) ∧
          (x.1.storage.ServesSnapshot → (∃ k, CaughtUp covers l (lockStep^[k] x)) →
            CaughtUp covers l x ∨ CanCatchUp x.1 x.2) := by
  obtain ⟨g, hg⟩ := replicating_of_reachable h
  refine ⟨hg.reading, fun covers hr leader hv peer hw hrole hterm => ?_⟩
  have hfacing := hg.facing hv hrole hterm
  have hl := hr.whole leader hv
  have hl' := hr.whole peer hw
  have hpos := hg.known_pos hw
  refine ⟨fun hcan => ?_, fun hserves hk => ?_⟩
  · rcases hcan with hlevel | hcan
    · exact ⟨0, hlevel⟩
    · exact hfacing.catches_up hl hl' hpos (hr.matching leader hv peer hw) hcan
  · by_contra hnot
    rw [not_or] at hnot
    obtain ⟨k, _, hagree⟩ := hk
    have hbelow : (c.nodes leader).storage.snapIndex ≤ (c.nodes peer).storage.snapIndex :=
      Nat.le_of_not_lt fun hlt => hnot.2 (Or.inr ⟨hlt, hserves⟩)
    obtain ⟨_, _, hstuck⟩ := hfacing.stuck hl hl' hpos hserves
      (fun hcommon => hnot.2 (Or.inl hcommon)) hbelow k
    rw [hstuck.same.wholeLog] at hagree
    exact hnot.1 ⟨hl, hagree⟩

end

/-- Leader 1 has committed and compacted an entry that node 3 has missed, and makes another: node 3
installs the snapshot and is sent the entry behind it. -/
theorem follower_catches_up_trio :
    let c : Cluster UInt8 Adder := Cluster.play compactingTrio
      [.timer 1 .election, .deliver 0, .deliver 1, .deliver 1, .deliver 2, .client 1 7, .deliver 2,
        .lose 2, .deliver 2, .deliver 3, .deliver 3, .client 1 8]
    ∃ covers, Reading compactingTrio c covers ∧
      ∃ k, CaughtUp covers (wholeLog covers (c.nodes 1).storage)
        (lockStep^[k] (c.nodes 1, c.nodes 3)) := by
  intro c
  obtain ⟨⟨covers, hr⟩, hall⟩ := follower_catches_up (d := compactingTrio) (c := c)
    (play_reachable _ (by decide +kernel))
  exact ⟨covers, hr, (hall covers hr 1 (by decide) 3 (by decide) (by decide +kernel)
    (by decide +kernel)).1 (Or.inr (by decide +kernel))⟩

/-- Node 3 installs the snapshot of leader 1, and its answer is lost.  From then on the leader sends
the snapshot again and again, and node 3 refuses it. -/
theorem install_refused_forever :
    ¬ ∀ c : Cluster UInt8 Adder, Reachable compactingTrio FixedMembership c →
      ∀ covers, Reading compactingTrio c covers →
        ∀ leader ∈ compactingTrio.members, ∀ peer ∈ compactingTrio.members,
          (c.nodes leader).role = .leader →
          (c.nodes peer).currentTerm ≤ (c.nodes leader).currentTerm →
          ∃ k, CaughtUp covers (wholeLog covers (c.nodes leader).storage)
            (lockStep^[k] (c.nodes leader, c.nodes peer)) := by
  intro h
  let acts : List (Action UInt8) :=
    [.timer 1 .election, .deliver 0, .deliver 1, .deliver 1, .deliver 2, .client 1 7, .deliver 2,
      .lose 2, .deliver 2, .deliver 3, .deliver 3, .lose 0, .lose 0, .lose 0, .timer 1 .heartbeat,
      .deliver 1, .lose 1, .client 1 8]
  let c : Cluster UInt8 Adder := Cluster.play compactingTrio acts
  obtain ⟨g, hg⟩ := replicating_of_reachable (d := compactingTrio) (c := c)
    (play_reachable _ (by decide +kernel))
  obtain ⟨covers, hr⟩ := hg.reading
  have hrole : (c.nodes 1).role = .leader := by decide +kernel
  have hterm : (c.nodes 3).currentTerm ≤ (c.nodes 1).currentTerm := by decide +kernel
  obtain ⟨k, _, hagree⟩ := h c (play_reachable _ (by decide +kernel)) covers hr 1 (by decide)
    3 (by decide) hrole hterm
  have hl := hr.whole 1 (by decide)
  have hl' := hr.whole 3 (by decide)
  obtain ⟨_, _, hstuck⟩ := (hg.facing (by decide) hrole hterm).stuck hl hl'
    (hg.known_pos (by decide)) (by decide +kernel) (by decide +kernel) (by decide +kernel) k
  rw [hstuck.same.wholeLog] at hagree
  have hlast : (c.nodes 1).storage.lastLogIndex = 2 := by decide +kernel
  have hlast' : (c.nodes 3).storage.lastLogIndex = 1 := by decide +kernel
  rw [hl.lastLogIndex] at hlast
  rw [hl'.lastLogIndex] at hlast'
  have := hagree.le_length (Nat.le_refl _)
  omega

end MetalRaft
