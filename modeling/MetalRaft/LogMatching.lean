import MetalRaft.LogSim

/-!
# Log matching

* `installed_snapshot` — a completed transfer leaves a snapshot behind, so where no snapshot is
  taken none is completed.
* `Plain` — the state of a cluster without snapshots in which messages are delivered at most once.
* `log_matching` — logs with entries of one term at the same index are the same up to there.
-/

set_option autoImplicit false

namespace MetalRaft

open Transition Voting

variable {P SM : Type} [StateMachine SM P]

/-! ## Transfers -/

theorem InMemoryStorage.applySnapshotChunk_done {s : InMemoryStorage P} {offset : Nat}
    (i t : Nat) (data : List UInt8) (hfits : offset = (s.pendingFor offset).length) :
    ∃ s' x, s.applySnapshotChunk offset data true i t = (s', .ok ()) ∧ s'.snapshot = some x := by
  unfold applySnapshotChunk
  unfold pendingFor at hfits
  by_cases h0 : offset = 0
  · subst h0; exact ⟨_, _, rfl, rfl⟩
  · simp only [h0, if_false] at hfits ⊢
    rw [if_neg (not_ne_iff.mpr hfits)]
    exact ⟨_, _, rfl, rfl⟩

/-- A completed transfer leaves a snapshot behind. -/
theorem installed_snapshot {n : TestNode P SM} {sender leaderId : NodeId} {T i t offset : Nat}
    {data : List UInt8} {done : Bool} (h : Completes n T i offset done) :
    (n.onEvent .testUtils
      (.message sender (.installSnapshot T leaderId i t offset data done))).storage.snapshot ≠
      none := by
  obtain ⟨hT, rfl, hfits, hfresh⟩ := h
  show (n.handleInstallSnapshot sender T i t offset data true).storage.snapshot ≠ none
  -- adopting the term leaves snapshot and pending data alone
  have hsame : (n.storageIn T).snapshot = n.storage.snapshot ∧
      (n.storageIn T).pendingFor offset = n.storage.pendingFor offset := by
    unfold RaftNode.storageIn
    split <;> exact ⟨rfl, rfl⟩
  have hcovered : LogReplicationManager.alreadyCovered i (n.storageIn T) = false := by
    rw [(SameLog.storageIn n T).alreadyCovered, hfresh]
  rw [RaftNode.handleInstallSnapshot_of_le hT, if_neg (by rw [hcovered]; simp)]
  obtain ⟨s', x, heq, hx⟩ := InMemoryStorage.applySnapshotChunk_done (s := n.storageIn T) i t data
    (by rw [hsame.2]; exact hfits)
  unfold LogReplicationManager.installChunk
  simp only [InMemoryStorage.storage_applySnapshotChunk, heq, if_true,
    InMemoryStorage.storage_loadSnapshot, hx, InMemoryStorage.storage_discardEntriesBefore]
  rw [InMemoryStorage.discardEntriesBefore_eq]
  simp [hx, RaftNode.send, RaftNode.takeInstall]

/-! ## Runs without snapshots -/

/-- Fixed membership, no message delivered twice, no snapshot. -/
def SingleNoSnapshot (d : Deployment SM) (c : Cluster P SM) (a : Action P) : Prop :=
  SingleDelivery c a ∧ NoSnapshot d c a

instance (d : Deployment SM) (c : Cluster P SM) (a : Action P) :
    Decidable (SingleNoSnapshot d c a) :=
  inferInstanceAs (Decidable (_ ∧ _))

/-- The state of a cluster without snapshots in which messages are delivered at most once. -/
structure Plain (d : Deployment SM) (c : Cluster P SM) (g : Replicated NodeId (LogEntry P)) :
    Prop where
  replicating : Replicating d c g
  unique : Unique d c
  noSnapshot : ∀ v ∈ d.members, (c.nodes v).storage.snapshot = none

section

variable {d : Deployment SM} {c : Cluster P SM} {g : Replicated NodeId (LogEntry P)}
  {a : Action P}

theorem plain_init (d : Deployment SM) :
    Plain d (Cluster.init d : Cluster P SM) Replicated.init :=
  ⟨replicating_init d, unique_init d, fun _ _ => rfl⟩

/-- Handling an event leaves no snapshot behind. -/
theorem NoSnapshot.onEvent {v : NodeId} {ev : Event P} (h : NoSnapshot d c a)
    (hev : c.handled d a = some (v, ev)) :
    ((c.nodes v).onEvent .testUtils ev).storage.snapshot = none := by
  obtain ⟨c₀, hh, hstep⟩ := Cluster.handles_of_handled hev
  have hnode := h v hh.member
  rw [hstep, Cluster.dispatch, Cluster.withNode_nodes_self, hh.nodes] at hnode
  exact hnode

/-- Without snapshots there is nothing that a log could be torn from. -/
theorem Plain.fitsSnapshot (h : Plain d c g) (hok : NoSnapshot d c a) :
    OnEvents d (fun c v => FitsSnapshot (c.nodes v)) c a := by
  intro v ev hev
  obtain ⟨_, hh, _⟩ := Cluster.handles_of_handled hev
  have hnone := h.noSnapshot v hh.member
  unfold FitsSnapshot
  split
  · intro _ _
    have hshaped : (c.nodes v).storage.firstIndex = (c.nodes v).storage.snapIndex + 1 :=
      (h.replicating.sim.node v hh.member).shaped
    rw [hshaped, InMemoryStorage.snapIndex, hnone]
    exact Nat.succ_le_succ (Nat.zero_le _)
  · intro hcompletes
    exact absurd (hok.onEvent hev) (installed_snapshot hcompletes)
  · trivial

theorem Plain.step (h : Plain d c g) (hok : SingleNoSnapshot d c a) :
    WholeLogs d c a ∧ ∃ g', Replicated.Le g g' ∧ Plain d (c.step d a) g' := by
  obtain ⟨hwhole, hunique⟩ := h.replicating.wholeLogs h.unique hok.1 (h.fitsSnapshot hok.2)
  obtain ⟨g', hle, hsim⟩ := h.replicating.step hwhole
  exact ⟨hwhole, g', hle, hsim, hunique, hok.2⟩

omit [StateMachine SM P] in
/-- Without a snapshot the storage holds the whole log. -/
theorem FullLog.getEntry_eq {s : InMemoryStorage P} {l : List (LogEntry P)} {i : Nat}
    (h : FullLog s l) (hnone : s.snapshot = none) :
    s.getEntry i = if i = 0 then none else l[i - 1]? := by
  have hsnap : s.snapIndex = 0 := by simp [InMemoryStorage.snapIndex, hnone]
  split
  · rename_i h0
    rw [h.shaped.getEntry_eq, if_pos (by omega)]
  · exact h.getEntry (by omega)

/-- **Log matching.**  Where two logs hold entries of one term at the same index, they agree on
every entry up to there: both have grown out of that term's ledger. -/
theorem log_matching (h : Reachable d (SingleNoSnapshot d) c) {v w : NodeId}
    (hv : v ∈ d.members) (hw : w ∈ d.members) {i : Nat} {e e' : LogEntry P}
    (he : (c.nodes v).storage.getEntry i = some e)
    (he' : (c.nodes w).storage.getEntry i = some e') (hterm : e.term = e'.term) :
    ∀ j ≤ i, (c.nodes v).storage.getEntry j = (c.nodes w).storage.getEntry j := by
  obtain ⟨g, _, hplain⟩ := Run.simulate (Plain d) Replicated.Le Replicated.Le.refl
    (fun _ _ _ => Replicated.Le.trans) (fun _ _ _ hp hok => (hp.step hok).2) h (plain_init d)
  have hlv := hplain.replicating.sim.node v hv
  have hlw := hplain.replicating.sim.node w hw
  have hinv := hplain.replicating.sim.inv
  have hagree : Agree (i - 1 + 1) (g.log v) (g.log w) :=
    (hinv.log v).matching (hinv.log w) (hlv.of_getEntry he).2.2 (hlw.of_getEntry he').2.2 hterm
  intro j hj
  rw [hlv.getEntry_eq (hplain.noSnapshot v hv), hlw.getEntry_eq (hplain.noSnapshot w hw)]
  split
  · rfl
  · exact hagree.getElem? (by omega)

end

/-- Node 1 leads term 1 and has sent its two entries to node 2, which holds them from index 1. -/
theorem log_matching_trio :
    let c := Cluster.play trio
      [.timer 1 .election, .deliver 0, .deliver 1, .deliver 1, .deliver 2, .client 1 7,
        .client 1 8, .deliver 4, .deliver 5]
    (c.nodes 2).storage.getEntry 2 = some ⟨1, .command 8⟩ ∧
      ∀ j ≤ 2, (c.nodes 1).storage.getEntry j = (c.nodes 2).storage.getEntry j := by
  intro c
  have h₁ : (c.nodes 1).storage.getEntry 2 = some ⟨1, .command 8⟩ := by decide +kernel
  have h₂ : (c.nodes 2).storage.getEntry 2 = some ⟨1, .command 8⟩ := by decide +kernel
  exact ⟨h₂, log_matching (d := trio) (play_reachable _ (by decide +kernel)) (by decide)
    (by decide) h₁ h₂ rfl⟩

end MetalRaft
