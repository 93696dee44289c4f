import MetalRaft.Committing
import MetalRaft.Delays

/-!
# What is committed over links that delay

With snapshots, and with messages that overtake each other, whatever a node has committed or
compacted is still known to be chosen, as long as the acknowledgements are true.

* `Tells` — an AppendEntries and an InstallSnapshot both tell that a beginning of the ledger of
  their term is committed.
* `MatchedBeyond` — the answer to a snapshot is recorded with the leader's present snapshot, below
  which a leader commits nothing.
* `Decided` — the invariant; `Decided.step` follows an action.
-/

set_option autoImplicit false

namespace MetalRaft

open Transition Voting

variable {P SM : Type} [StateMachine SM P]

/-! ## Messages -/

/-- `A` holds of the term of the message and of the index up to which it tells that the entries are
committed. -/
def Tells (A : Nat → Nat → Prop) (p : Packet P) : Prop :=
  match p.msg with
  | .appendEntries T _ _ _ lc => A T lc
  | .installSnapshot T _ i _ _ _ _ => A T i
  | _ => True

section

variable {A B : Nat → Nat → Prop} {ev : Event P} {n₀ n n' : TestNode P SM} {p : Packet P}

omit [StateMachine SM P] in
theorem Tells.imp (hAB : ∀ T k, A T k → B T k) (h : Tells A p) : Tells B p := by
  obtain ⟨src, dst, msg⟩ := p
  cases msg with
  | appendEntries => exact hAB _ _ h
  | installSnapshot => exact hAB _ _ h
  | _ => trivial

/-- What a move sends tells what the node has committed, or compacted. -/
theorem tells_move (hmove : RaftNode.Move .testUtils ev n₀ n n')
    (h : n.role = .leader ∨ n.HoldsConfigChange →
      A n.storage.currentTerm n.replication.commitIndex ∧
        A n.storage.currentTerm n.storage.snapIndex) :
    ∃ outs, n'.outbox = n.outbox ++ outs ∧ ∀ p ∈ outs, Tells A p := by
  obtain ⟨outs, heq, hall⟩ := hmove.outbox
  refine ⟨outs, heq, fun p hp => ?_⟩
  obtain ⟨src, dst, msg⟩ := p
  obtain ⟨_, hcases⟩ := hall _ hp
  dsimp only at hcases
  rcases hcases with hspeaks | ⟨_, _, _, rfl⟩ | ⟨_, _, _, _, rfl⟩
  · cases hspeaks with
    | entries peer leader =>
      obtain ⟨hcommitted, hcompacted⟩ := h leader
      rcases getAppendEntriesForPeer_cases n.replication dst n.id n.storage with
        ⟨m, _, hm, _, heq⟩ | heq <;> rw [heq]
      · rw [FullLog.snapIndex_of_metadata hm] at hcompacted
        exact hcompacted
      · exact hcommitted
    | _ => trivial
  · trivial
  · trivial

end

/-! ## The invariant -/

/-- What a leader has recorded of a member goes no further than what the member has acknowledged, or
than the leader's own snapshot. -/
def MatchedBeyond (d : Deployment SM) (g : Replicated NodeId (LogEntry P)) (n : TestNode P SM) :
    Prop :=
  n.role = .leader → ∀ u ∈ d.members, ∀ m, n.replication.matchIndex.get u = some m →
    m ≤ g.acked u n.currentTerm ∨ m ≤ n.storage.snapIndex

/-- What node `v` has committed, compacted and applied is known to be chosen. -/
structure DecidedNode (d : Deployment SM) (g : Replicated NodeId (LogEntry P)) (v : NodeId)
    (n : TestNode P SM) : Prop where
  matched : MatchedBeyond d g n
  caughtUp : n.AllCaughtUp
  committed : g.Known d.members.toFinset (g.ballot.term v) (g.log v) n.replication.commitIndex
  compacted : g.Known d.members.toFinset (g.ballot.term v) (g.log v) n.storage.snapIndex
  applied : ∀ x ∈ n.observer.applied, AppliedChosen d g x
  reached : n.replication.lastApplied ≤ max n.replication.commitIndex n.storage.snapIndex

/-- The first `k` entries of the ledger of term `T` are known to be chosen. -/
def LedgerKnown (d : Deployment SM) (g : Replicated NodeId (LogEntry P)) (T k : Nat) : Prop :=
  g.Known d.members.toFinset T (g.ledger T) k

/-- What every member has committed, and what every message tells, is known to be chosen. -/
structure AllDecided (d : Deployment SM) (c : Cluster P SM) (g : Replicated NodeId (LogEntry P)) :
    Prop where
  node : ∀ v ∈ d.members, DecidedNode d g v (c.nodes v)
  sent : ∀ p ∈ c.messageLog, Tells (LedgerKnown d g) p

/-- The state of a cluster in which the acknowledgements are true. -/
structure Decided (d : Deployment SM) (c : Cluster P SM) (g : Replicated NodeId (LogEntry P)) :
    Prop where
  following : Following d c g
  decided : AllDecided d c g

section

variable {d : Deployment SM} {c c₀ c₁ c₂ : Cluster P SM} {g g' : Replicated NodeId (LogEntry P)}
  {v : NodeId} {ev : Event P} {n n' : TestNode P SM} {front : List (Packet P)} {a : Action P}

open RaftNode

omit [StateMachine SM P] in
theorem LedgerKnown.mono {T k : Nat} (hle : Replicated.Le g g') (hi : g.Inv d.members.toFinset)
    (h : LedgerKnown d g T k) : LedgerKnown d g' T k :=
  Replicated.Known.mono hle hi (Nat.le_refl _) (h.of_agree
    (agree_of_isPrefix (hle.ledger T) (h.le_length hi)).symm (Nat.le_refl _))

omit [StateMachine SM P] in
theorem DecidedNode.advance (hadv : Replicated.Advances d.members.toFinset g g')
    (hi : g.Inv d.members.toFinset) (h : DecidedNode d g v n) : DecidedNode d g' v n :=
  ⟨fun hr u hu m hm => (h.matched hr u hu m hm).imp_left fun ha => ha.trans (hadv.le.acked _ _),
    h.caughtUp, hadv.known _ _ h.committed, hadv.known _ _ h.compacted,
    fun x hx => (h.applied x hx).mono hadv.le hi, h.reached⟩

/-! ### Moves -/

theorem matchedBeyond_move (hn : Attending d c g v ev n)
    (hmove : Move .testUtils ev (c.nodes v) n n') (hs : n.storage.Shaped)
    (hacks : ∀ sender msg, ev = .message sender msg → AckPacket g' ⟨sender, v, msg⟩)
    (h : MatchedBeyond d g' n) : MatchedBeyond d g' n' := by
  have hsnap := snapIndex_move hmove hs
  cases hmove.matchCases hn.fixed with
  | same hmap hleader =>
    intro hr u hu m hm
    obtain ⟨hrole, hterm⟩ := hleader hr
    rw [hmap] at hm
    rw [hterm]
    exact (h hrole u hu m hm).imp_right fun hle => hle.trans hsnap
  | lead =>
    intro _ u hu m hm
    have hzero := LogReplicationManager.matchIndex_initialize n.storage n.config.members
      n.replication (Or.inl (hn.fixed.config.mem_iff.mpr hu))
    obtain rfl : 0 = m := Option.some.inj (hzero.symm.trans hm)
    exact Or.inl (Nat.zero_le _)
  | record answer =>
    exact fun hr => LogReplicationManager.get_recorded (h hr) (Or.inl (hacks _ _ answer rfl))
  | recordSnapshot answer leader stored =>
    exact fun hr => LogReplicationManager.get_recorded (h hr)
      (Or.inr (FullLog.snapIndex_of_metadata stored).ge)

omit [StateMachine SM P] in
/-- **What an installed snapshot covers is chosen**: its last entry is the one that the log has
there. -/
theorem known_install {sender : NodeId} {T : Nat} {m : SnapshotMetadata} {s : InMemoryStorage P}
    (hi : g.Inv d.members.toFinset) (hl : FullLog s (g.log v))
    (hstored : s.snapshotMetadata = some m)
    (hvalid : ValidSnapshot g sender T m.lastIncludedIndex m.lastIncludedTerm)
    (hterm : T = g.ballot.term v) (h : LedgerKnown d g T m.lastIncludedIndex) :
    g.Known d.members.toFinset (g.ballot.term v) (g.log v) m.lastIncludedIndex := by
  obtain ⟨_, e, he, heterm⟩ := hl.boundary m hstored
  rw [← hterm]
  exact h.of_agree (hvalid.agree hi he heterm) (Nat.le_refl _)

theorem decidedNode_move (hn : Attending d c g v ev n)
    (hmove : Move .testUtils ev (c.nodes v) n n') (hs : n.storage.Shaped)
    (hi : g.Inv d.members.toFinset) (h : DecidedNode d g v n)
    (htold : ∀ sender msg, ev = .message sender msg →
      Tells (LedgerKnown d g) ⟨sender, v, msg⟩)
    (hacks : ∀ sender msg, ev = .message sender msg → AckPacket g ⟨sender, v, msg⟩)
    (hadv : Replicated.Advances d.members.toFinset g g')
    (hstr : Streamed d front (c₀.withNode v n') g') :
    ∃ g'', Replicated.Advances d.members.toFinset g' g'' ∧
      Streamed d front (c₀.withNode v n') g'' ∧ DecidedNode d g'' v n' := by
  have hle := hadv.le
  have hold := h.advance hadv hi
  have hmatched := matchedBeyond_move hn hmove hs
    (fun sender msg he => (hacks sender msg he).mono hle) hold.matched
  have hcaught := caughtUp_move hmove hn.fixed h.caughtUp
  obtain ⟨hb, hl⟩ := hstr.logs.self hn.member
  have hsame : n'.replication.commitIndex = n.replication.commitIndex →
      n'.replication.lastApplied = n.replication.lastApplied →
      n'.storage.snapIndex = n.storage.snapIndex → n'.observer = n.observer →
      ∃ g'', Replicated.Advances d.members.toFinset g' g'' ∧
        Streamed d front (c₀.withNode v n') g'' ∧ DecidedNode d g'' v n' := by
    intro hcommit happlied hsnap hobserver
    refine ⟨g', .refl g', hstr, hmatched, hcaught, ?_, ?_, ?_, ?_⟩
    · rw [hcommit]
      exact hold.committed
    · rw [hsnap]
      exact hold.compacted
    · rw [hobserver]
      exact hold.applied
    · rw [hcommit, happlied, hsnap]
      exact hold.reached
  cases hmove.logCases hs with
  | quiet hq => exact hsame hq.commitIndex hq.lastApplied hq.sameLog.snapIndex hq.observer
  | place | append => exact hsame rfl rfl rfl rfl
  | applyNone below =>
    exact ⟨g', .refl g', hstr, hmatched, hcaught, hold.committed, hold.compacted, hold.applied,
      le_max_of_le_left below⟩
  | @learnCommit n sender prev pt es lc asked consistent placed higher =>
    have hterm : n.currentTerm = (c.nodes v).currentTerm := by rw [placed]; rfl
    have hanswers := answers_of_placed asked consistent placed
    have hk : LedgerKnown d g' (c.nodes v).currentTerm lc := (htold _ _ asked).mono hle hi
    rw [← hterm] at hk
    -- the log reaches beyond what is committed
    have hcommit : n.replication.commitIndex ≤ min lc n.storage.lastLogIndex := by
      have hlength := hold.committed.le_length hstr.logs.inv
      rw [← hl.lastLogIndex] at hlength
      exact Nat.le_min.mpr ⟨Nat.le_of_lt (by rw [placed]; exact higher), hlength⟩
    exact ⟨g', .refl g', hstr, hmatched, hcaught,
      known_learn hstr.logs.inv hl ⟨hb.1, hb.2, hb.3, hb.4⟩ (hn.delivered.mono hle) hn.fits
        hn.checks hanswers hk, hold.compacted, hold.applied,
      hold.reached.trans (max_le_max_right _ hcommit)⟩
  | @applyEntry n entry below found =>
    refine ⟨g', .refl g', hstr, hmatched, hcaught, hold.committed, hold.compacted, fun x hx => ?_,
      le_max_of_le_left below⟩
    rcases List.mem_append.mp hx with hx | hx
    · exact hold.applied x hx
    · rw [List.mem_singleton.mp hx]
      exact appliedChosen_of_getEntry hl hold.committed below found
  | @commit n entry newCommit leader median higher found term =>
    -- the leader's snapshot ends below the entry, so that whoever reaches it has acknowledged it
    have hbeyond := (hs.getEntry_bounds found).1
    have hacked : ∀ u ∈ d.members, ∀ m, n.replication.matchIndex.get u = some m →
        newCommit ≤ m → newCommit ≤ g'.acked u n.currentTerm := by
      intro u hu m hm him
      rcases hold.matched leader u hu m hm with hacked | hcovered
      · exact him.trans hacked
      · omega
    obtain ⟨g₂, hadv₂, hstr₂, hk⟩ := known_commit hn.member hn.id hn.fixed h.caughtUp hacked
      leader median found term ⟨hb.1, hb.2, hb.3, hb.4⟩ hl hstr
    have hlater := hold.advance hadv₂ hstr.logs.inv
    exact ⟨g₂, hadv₂, hstr₂, hlater.matched, hcaught, hk, hlater.compacted, hlater.applied,
      hlater.reached.trans (max_le_max_right _ (Nat.le_of_lt higher))⟩
  | compact raised found =>
    have hsnap := snapIndex_move hmove hs
    refine ⟨g', .refl g', hstr, hmatched, hcaught, hold.committed, ?_, hold.applied,
      hold.reached.trans (max_le_max_left _ hsnap)⟩
    rw [withStorage_storage, InMemoryStorage.snapIndex_compactedTo]
    exact hold.committed
  | @install n sender leaderId offset data x asked _ fits same fresh below =>
    have hknown := known_install (m := x.metadata) hstr.logs.inv hl rfl
      ((hn.delivered.mono hle).sound _ _ asked).2.2 hb.currentTerm ((htold _ _ asked).mono hle hi)
    have hreached : max n.replication.lastApplied x.metadata.lastIncludedIndex ≤
        max n.replication.commitIndex x.metadata.lastIncludedIndex :=
      Nat.max_le.mpr ⟨hold.reached.trans (max_le_max_left _ below), Nat.le_max_right _ _⟩
    refine ⟨g', .refl g', hstr, hmatched, hcaught, ?_, hknown, hold.applied,
      le_max_of_le_left hreached⟩
    show g'.Known _ _ _ (max n.replication.commitIndex x.metadata.lastIncludedIndex)
    rcases max_choice n.replication.commitIndex x.metadata.lastIncludedIndex with hmax | hmax <;>
      rw [hmax]
    · exact hold.committed
    · exact hknown

/-! ### Actions -/

omit [StateMachine SM P] in
theorem allDecided_others (hadv : Replicated.Advances d.members.toFinset g g')
    (hi : g.Inv d.members.toFinset) (h : AllDecided d (c.withNode v n) g)
    (hv : DecidedNode d g' v n')
    (hsent : ∃ outs, n'.outbox = n.outbox ++ outs ∧ ∀ p ∈ outs, Tells (LedgerKnown d g') p) :
    AllDecided d (c.withNode v n') g' := by
  refine ⟨fun u hu => ?_, fun p hp => ?_⟩
  · by_cases huv : u = v
    · subst huv
      rw [Cluster.withNode_nodes_self]
      exact ⟨hv.matched, hv.caughtUp, hv.committed, hv.compacted, hv.applied, hv.reached⟩
    · have hold := (h.node u hu).advance hadv hi
      rw [Cluster.withNode_nodes_ne huv] at hold ⊢
      exact hold
  · obtain ⟨outs, heq, houts⟩ := hsent
    rw [Cluster.withNode_messageLog, heq, ← List.append_assoc] at hp
    rcases List.mem_append.mp hp with hp | hp
    · exact (h.sent p hp).imp fun T k hk => hk.mono hadv.le hi
    · exact houts p hp

/-- Any move carries along what all members have decided. -/
theorem allDecided_move (hn : Attending d c g v ev n)
    (hmove : Move .testUtils ev (c.nodes v) n n') (hstr : Streamed d front (c₀.withNode v n) g)
    (hlog : ∀ sender msg, ev = .message sender msg →
      ⟨sender, v, msg⟩ ∈ (c₀.withNode v n).messageLog)
    (h : AllDecided d (c₀.withNode v n) g)
    (hadv : Replicated.Advances d.members.toFinset g g')
    (hstr' : Streamed d front (c₀.withNode v n') g') :
    ∃ g'', Replicated.Advances d.members.toFinset g' g'' ∧
      Streamed d front (c₀.withNode v n') g'' ∧ AllDecided d (c₀.withNode v n') g'' := by
  have hself := h.node v hn.member
  rw [Cluster.withNode_nodes_self] at hself
  have hself' : DecidedNode d g v n :=
    ⟨hself.matched, hself.caughtUp, hself.committed, hself.compacted, hself.applied, hself.reached⟩
  have hi := hstr.logs.inv
  obtain ⟨hb, hl⟩ := hstr.logs.self hn.member
  obtain ⟨g₁, hadv₁, hstr₁, hv⟩ := decidedNode_move hn hmove hl.shaped hi hself'
    (fun sender msg he => h.sent _ (hlog sender msg he))
    (fun sender msg he => hstr.acks _ (hlog sender msg he)) hadv hstr'
  have hall := hadv.trans hadv₁
  refine ⟨g₁, hadv₁, hstr₁, allDecided_others hall hi h hv (tells_move hmove fun hleads => ?_)⟩
  have hrole : g.ballot.role v = .leading := by
    rw [← hb.role, hleads.resolve_right hn.fixed.holdsNoChange]
    rfl
  have hknown : ∀ k, g.Known d.members.toFinset (g.ballot.term v) (g.log v) k →
      LedgerKnown d g₁ n.storage.currentTerm k := by
    intro k hk
    refine LedgerKnown.mono hall.le hi ?_
    unfold LedgerKnown
    rw [hb.stored, hi.leading v hrole]
    exact hk
  exact ⟨hknown _ hself'.committed, hknown _ hself'.compacted⟩

omit [StateMachine SM P] in
theorem AllDecided.of_nodes (hnodes : c₂.nodes = c₁.nodes) (hlog : c₂.messageLog = c₁.messageLog)
    (h : AllDecided d c₁ g) : AllDecided d c₂ g :=
  ⟨fun u hu => by rw [hnodes]; exact h.node u hu, fun p hp => h.sent p (hlog ▸ hp)⟩

omit [StateMachine SM P] in
theorem AllDecided.advance (h : AllDecided d c g) (millis : Nat) :
    AllDecided d { c with nodes := fun v => (c.nodes v).advanceClock millis } g := by
  refine ⟨fun u hu => ?_, h.sent⟩
  have hold := h.node u hu
  exact ⟨hold.matched, hold.caughtUp, hold.committed, hold.compacted, hold.applied, hold.reached⟩

theorem AllDecided.restart (h : AllDecided d c g) (hi : g.Inv d.members.toFinset) (v : NodeId) :
    AllDecided d { c with nodes := Function.update c.nodes v ((c.nodes v).restart d) }
      (g.rest v) := by
  have hle : Replicated.Le g (g.rest v) := Replicated.le_rest
  refine ⟨fun u hu => ?_, fun p hp => (h.sent p hp).imp fun T k hk => hk.mono hle hi⟩
  have hold := (h.node u hu).advance (Replicated.advances_of_log hle hi rfl) hi
  by_cases huv : u = v
  · subst huv
    simp only [Function.update_self]
    exact ⟨fun hr => (by cases hr), fun _ => rfl, Or.inl rfl, hold.compacted, hold.applied,
      le_max_of_le_right (lastApplied_boot d _ _ _ _).le⟩
  · simp only [Function.update_of_ne huv]
    exact hold

theorem decided_init (d : Deployment SM) :
    Decided d (Cluster.init d : Cluster P SM) Replicated.init := by
  refine ⟨following_init d, fun v _ => ⟨fun hr => (by cases hr), fun _ => rfl, Or.inl rfl,
    Or.inl rfl, fun x hx => absurd hx List.not_mem_nil, Nat.zero_le _⟩,
    fun p hp => absurd hp List.not_mem_nil⟩

theorem Decided.step (h : Decided d c g) (hok : Delaying d c a) :
    ∃ g', Replicated.Advances d.members.toFinset g g' ∧ Decided d (c.step d a) g' := by
  have hi := h.following.streamed.logs.inv
  suffices hstep : ∃ g', Replicated.Advances d.members.toFinset g g' ∧
      Following d (c.step d a) g' ∧ AllDecided d (c.step d a) g' by
    obtain ⟨g', hadv, hfollowing, hall⟩ := hstep
    exact ⟨g', hadv, hfollowing, hall⟩
  refine h.following.step hok h.decided (fun _ _ _ hnodes hlog hX => hX.of_nodes hnodes hlog) ?_
    (h.decided.restart hi) h.decided.advance
  intro v ev n n' g₁ g₂ hn hmove hstr hX hadv hstr'
  exact allDecided_move hn hmove hstr
    (fun sender msg he => List.mem_append_left _ (hn.sent sender msg he).2) hX hadv hstr'

theorem Decided.run (h : Run (Cluster.step d) (Delaying d) c₁ c₂) (h₁ : Decided d c₁ g) :
    ∃ g', Replicated.Advances d.members.toFinset g g' ∧ Decided d c₂ g' :=
  Run.simulate (Decided d) (Replicated.Advances d.members.toFinset) Replicated.Advances.refl
    (fun _ _ _ => Replicated.Advances.trans) (fun _ _ _ hdec hok => hdec.step hok) h h₁

end

end MetalRaft
