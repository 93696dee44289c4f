import MetalRaft.ClusterSteps
import MetalRaft.LogFacts

/-!
# Fixed membership

While no configuration change is submitted, none is in any log or message, so every member keeps
the configuration it was built with, and messages travel between distinct members.

* `Fixed` — this invariant; `Reachable.fixed` — it holds in every reachable state.
-/

set_option autoImplicit false

namespace MetalRaft

open Transition

variable {P SM : Type} [StateMachine SM P]

/-- The message carries no configuration change. -/
def RaftMsg.NoChange : RaftMsg P → Prop
  | .appendEntries _ _ _ entries _ => ∀ e ∈ entries, ¬ e.IsConfigChange
  | _ => True

structure FixedNode (d : Deployment SM) (n : TestNode P SM) : Prop where
  config : n.config.members.Perm d.members
  log : ∀ e ∈ n.storage.log, ¬ e.IsConfigChange

structure FixedPacket (d : Deployment SM) (p : Packet P) : Prop where
  src : p.src ∈ d.members
  dst : p.dst ∈ d.members
  ne : p.dst ≠ p.src
  msg : p.msg.NoChange

/-- Fixed membership as an invariant of clusters. -/
def Fixed (d : Deployment SM) : Cluster P SM → Prop :=
  LocalInv d (fun _ => FixedNode d) (FixedPacket d)

namespace RaftNode

omit [StateMachine SM P] in
@[simp] theorem peerIds_testUtils (n : TestNode P SM) :
    n.peerIds .testUtils = n.config.peers n.id := by
  simp [peerIds, Realization.testUtils]

theorem boot_config (d : Deployment SM) (v : NodeId) (storage : InMemoryStorage P)
    (observer : Observer P) (clock : Nat) :
    (boot d v storage observer clock).config.members = v :: d.peers v := by
  simp [boot, newFromBuilder, config, ConfigChangeManager.new, Realization.testUtils]

end RaftNode

section

variable {d : Deployment SM} {n : TestNode P SM} {u : NodeId}

omit [StateMachine SM P]

theorem FixedNode.holdsNoChange (h : FixedNode d n) : ¬ n.HoldsConfigChange := by
  rintro ⟨i, e, he, hchange⟩
  exact h.log e (InMemoryStorage.getEntry_mem he) hchange

theorem FixedNode.mem_peerIds (h : FixedNode d n) (hu : u ∈ n.peerIds .testUtils) :
    u ∈ d.members ∧ u ≠ n.id := by
  rw [RaftNode.peerIds_testUtils, Configuration.mem_peers] at hu
  exact ⟨h.config.mem_iff.mp hu.1, hu.2⟩

/-- Nothing in the log is a configuration change, so none is ever applied. -/
theorem FixedNode.no_applyChanges (h : FixedNode d n) {changes : ConfigChangeCollection} :
    ¬ ∃ ch ∈ changes, ∃ e, Storage.getEntry n.storage ch.1 = some e ∧
      e.entryType = .configChange ch.2 := by
  rintro ⟨ch, _, e, he, htype⟩
  exact h.log e (InMemoryStorage.getEntry_mem he) ⟨ch.2, htype⟩

end

namespace RaftNode

variable {d : Deployment SM} {n₀ n n' : TestNode P SM} {ev : Event P}

theorem fixedNode_move (hev : ∀ change, ev ≠ .configChange change)
    (hmsg : ∀ sender msg, ev = .message sender msg → msg.NoChange)
    (hmove : Move .testUtils ev n₀ n n') (h : FixedNode d n) : FixedNode d n' := by
  cases hmove with
  | inert hi =>
    refine ⟨?_, by rw [hi.storage]; exact h.log⟩
    unfold config
    rw [hi.configManager]
    exact h.config
  | campaign =>
    rw [broadcast_eq]
    exact ⟨h.config, h.log⟩
  | @place sender prev pt es lc asked _ =>
    refine ⟨h.config, fun e he => ?_⟩
    simp only [withStorage, InMemoryStorage.placeEntries_eq] at he
    rcases InMemoryStorage.mem_placedLog he with he | he
    · exact h.log e he
    · exact hmsg _ _ asked e he
  | applyChanges changes found => exact absurd found h.no_applyChanges
  | append _ submits =>
    refine ⟨h.config, fun e he => ?_⟩
    rcases List.mem_append.mp he with he | he
    · exact h.log e he
    · rw [List.mem_singleton.mp he]
      cases submits with
      | command payload => rintro ⟨ch, hch⟩; cases hch
      | configChange change => exact absurd rfl (hev change)
  | compact => exact ⟨h.config, fun e he =>
      h.log e ((InMemoryStorage.create_log_subset _ _ _).1 he)⟩
  | storeChunk =>
    refine ⟨h.config, fun e he => ?_⟩
    simp only [withStorage, chunkResult, InMemoryStorage.storage_applySnapshotChunk] at he
    rw [InMemoryStorage.applySnapshotChunk_eq] at he
    exact h.log e he
  | install =>
    refine ⟨h.config, fun e he => ?_⟩
    have he' := InMemoryStorage.discardEntriesBefore_log_subset _ _ he
    simp only [chunkResult, InMemoryStorage.storage_applySnapshotChunk] at he'
    rw [InMemoryStorage.applySnapshotChunk_eq] at he'
    exact h.log e he'
  | _ => exact ⟨h.config, h.log⟩

theorem fixedNode_moves (hev : ∀ change, ev ≠ .configChange change)
    (hmsg : ∀ sender msg, ev = .message sender msg → msg.NoChange)
    (hmoves : Moves .testUtils ev n₀ n₀ n) (h : FixedNode d n₀) : FixedNode d n := by
  induction hmoves with
  | refl => exact h
  | tail _ hlast ih => exact fixedNode_move hev hmsg hlast ih

omit [StateMachine SM P] in
theorem entries_noChange {r : LogReplicationManager} {s : InMemoryStorage P}
    {peer leaderId : NodeId}
    (h : ∀ e ∈ s.log, ¬ e.IsConfigChange) :
    (r.getAppendEntriesForPeer peer leaderId s).NoChange := by
  rcases getAppendEntriesForPeer_cases r peer leaderId s with ⟨m, data, _, _, heq⟩ | heq <;>
    rw [heq]
  · trivial
  · exact fun e he => h e (InMemoryStorage.getEntries_subset _ _ _ he)

theorem fixedPacket_move (hn : n.id ∈ d.members)
    (hmsg : ∀ sender msg, ev = .message sender msg → FixedPacket d ⟨sender, n.id, msg⟩)
    (hmove : Move .testUtils ev n₀ n n') (h : FixedNode d n)
    (hout : ∀ p ∈ n.outbox, FixedPacket d p) : ∀ p ∈ n'.outbox, FixedPacket d p := by
  obtain ⟨outs, heq, hall⟩ := hmove.outbox
  have hanswer : ∀ p : Packet P, p.src = n.id → p.msg.NoChange →
      ∀ msg, ev = .message p.dst msg → FixedPacket d p := by
    intro p hsrc hp msg hev
    have hm := hmsg _ _ hev
    exact ⟨hsrc ▸ hn, hm.src, by rw [hsrc]; exact hm.ne.symm, hp⟩
  have hpeer : ∀ p : Packet P, p.src = n.id → p.msg.NoChange →
      p.dst ∈ n.peerIds .testUtils → FixedPacket d p := by
    intro p hsrc hp hdst
    have hm := h.mem_peerIds hdst
    exact ⟨hsrc ▸ hn, hm.1, by rw [hsrc]; exact hm.2, hp⟩
  intro p hp
  rw [heq] at hp
  rcases List.mem_append.mp hp with hp | hp
  · exact hout p hp
  · obtain ⟨hsrc, hcases⟩ := hall p hp
    obtain ⟨src, dst, msg⟩ := p
    dsimp only at hsrc hcases
    subst hsrc
    rcases hcases with hspeak | ⟨hdst, li, lt, rfl⟩ | ⟨cand, li, lt, hev, rfl⟩
    · cases hspeak with
      | preVoteRequest peer => exact hpeer _ rfl trivial peer
      | entries peer _ => exact hpeer _ rfl (entries_noChange h.log) peer
      | preVoteResponse asked | refusal asked | rejection asked | acknowledgement asked
      | chunkResponse asked => exact hanswer _ rfl trivial _ asked
    · exact hpeer _ rfl trivial hdst
    · exact hanswer _ rfl trivial _ hev

end RaftNode

omit [StateMachine SM P] in
theorem handled_configChange {d : Deployment SM} {c : Cluster P SM} {a : Action P} {v : NodeId}
    {change : ConfigurationChange} (h : c.handled d a = some (v, .configChange change)) :
    a = .configChange v change := by
  unfold Cluster.handled at h
  split at h
  · split at h
    · simp at h
    · split at h <;> simp at h
  · split at h <;> simp at h
  · split at h <;> simp at h
  · split at h
    · simp only [Option.some.injEq, Prod.mk.injEq, Event.configChange.injEq] at h
      rw [h.1, h.2]
    · simp at h
  · simp at h

omit [StateMachine SM P] in
theorem FixedMembership.not_change {d : Deployment SM} {c : Cluster P SM} {a : Action P}
    (h : FixedMembership c a) {v : NodeId} {ev : Event P} (hev : c.handled d a = some (v, ev))
    (change : ConfigurationChange) : ev ≠ .configChange change := by
  rintro rfl
  rw [handled_configChange hev] at h
  exact h

open RaftNode in
theorem fixed_step {d : Deployment SM} {c : Cluster P SM} {a : Action P}
    (hfix : FixedMembership c a)
    (hs : Settled c) (h : Fixed d c) : Fixed d (c.step d a) := by
  refine LocalInv.step h hs ?_ (fun _ _ hn => ⟨hn.config, hn.log⟩) ?_
    (fun _ _ _ hn => ⟨hn.config, hn.log⟩)
  · intro v hv ev hev hlog n n' hid _ hmove hn hout
    subst hid
    have hmsg := fun sender msg he => h.sent _ (hlog sender msg he)
    exact ⟨fixedNode_move (hfix.not_change hev) (fun sender msg he => (hmsg sender msg he).msg)
      hmove hn, fixedPacket_move hv hmsg hmove hn hout⟩
  · intro v hv _ hn
    refine ⟨?_, hn.log⟩
    unfold RaftNode.restart
    rw [boot_config, (hs v).1]
    exact d.peers_perm v hv

theorem fixed_init (d : Deployment SM) : Fixed d (Cluster.init d : Cluster P SM) := by
  refine ⟨fun v hv => ⟨?_, ?_⟩, by simp [Cluster.init], by simp [Cluster.init]⟩
  · simp only [Cluster.init]
    rw [RaftNode.boot_config]
    exact d.peers_perm v hv
  · simp [Cluster.init, RaftNode.boot, RaftNode.newFromBuilder, InMemoryStorage.new]

theorem Reachable.fixed {d : Deployment SM} {ok : Cluster P SM → Action P → Prop}
    {c : Cluster P SM} (hok : ∀ c a, ok c a → FixedMembership c a) (h : Reachable d ok c) :
    Fixed d c :=
  (Run.invariant (I := fun c => Settled c ∧ Fixed d c)
    (fun _ a hc ha => ⟨settled_step hc.1 a, fixed_step (hok _ _ ha) hc.1 hc.2⟩) h
    ⟨fun _ => ⟨rfl, rfl⟩, fixed_init d⟩).2

open RaftNode in
/-- While a member handles an event, its state between two moves is fixed as well. -/
theorem Fixed.between {d : Deployment SM} {c : Cluster P SM} {a : Action P} (h : Fixed d c)
    (hfix : FixedMembership c a) {v : NodeId} {ev : Event P} (hv : v ∈ d.members)
    (hev : c.handled d a = some (v, ev))
    (hlog : ∀ sender msg, ev = .message sender msg → ⟨sender, v, msg⟩ ∈ c.messageLog)
    {n : TestNode P SM} (hmoves : Moves .testUtils ev (c.nodes v) (c.nodes v) n) :
    FixedNode d n :=
  fixedNode_moves (hfix.not_change hev)
    (fun sender msg he => (h.sent _ (hlog sender msg he)).msg) hmoves (h.node v hv)

end MetalRaft
