import MetalRaft.Streams

/-!
# Logs over links that delay

Messages that overtake each other may take a log back: an AppendEntries that has been delayed cuts
off what came after its entries.  Where that does not happen to entries of the message's own term,
the simulation of `Streams` needs no order on the links.

* `ReachesOwn` — accepted entries reach as far as the entries of their term that the node holds.
* `Following` — the simulation, blind to what is in flight; `Following.step` follows an action, for
  any invariant on top of it.
-/

set_option autoImplicit false

namespace MetalRaft

open Transition Voting

variable {P SM : Type} [StateMachine SM P]

/-- If the event is an AppendEntries with entries that the node accepts, and the node's log ends in
the message's term, then the entries reach to the end of the log. -/
def ReachesOwn (n : TestNode P SM) : Event P → Prop
  | .message _ (.appendEntries T prev pt es _) =>
    Accepts n T prev pt → es.isEmpty = false → n.storage.lastLogTerm = T →
      n.storage.lastLogIndex ≤ prev + es.length
  | _ => True

instance (n : TestNode P SM) : (ev : Event P) → Decidable (ReachesOwn n ev)
  | .message _ (.appendEntries T prev pt es _) => inferInstanceAs (Decidable
      (Accepts n T prev pt → es.isEmpty = false → n.storage.lastLogTerm = T →
        n.storage.lastLogIndex ≤ prev + es.length))
  | .message _ (.requestVote _ _ _ _) | .message _ (.requestVoteResponse _ _)
  | .message _ (.preVoteRequest _ _ _ _) | .message _ (.preVoteResponse _ _)
  | .message _ (.appendEntriesResponse _ _ _) | .message _ (.installSnapshot _ _ _ _ _ _ _)
  | .message _ (.installSnapshotResponse _ _) | .timerFired _ | .clientCommand _
  | .configChange _ => isTrue trivial

/-- Whatever is in flight is left out of account. -/
def Cluster.drained (c : Cluster P SM) : Cluster P SM := { c with network := [] }

section

variable {d : Deployment SM} {c c₀ : Cluster P SM} {g : Replicated NodeId (LogEntry P)}
  {v : NodeId} {ev : Event P} {n n' : TestNode P SM} {front : List (Packet P)} {a : Action P}

open RaftNode

omit [StateMachine SM P] in
/-- A log with an entry of the term that its owner is in ends in that term. -/
theorem lastStamp_of_own (hi : g.Inv d.members.toFinset) {j : Nat} {e : LogEntry P}
    (he : (g.log v)[j]? = some e) (hT : e.term = g.ballot.term v) :
    Replicated.lastStamp (g.log v) = g.ballot.term v := by
  have hj := (List.getElem?_eq_some_iff.mp he).1
  have hget : (g.log v)[(g.log v).length - 1]? = some ((g.log v)[(g.log v).length - 1]) :=
    List.getElem?_eq_getElem _
  have hlow := (hi.log v).stamp_le (fun T e he => (hi.ledger_stamp T e he).2) he hget (by omega)
  have hhigh := (hi.log_stamp v _ (List.mem_of_getElem? hget)).2
  rw [stamp_eq, hT] at hlow
  unfold Replicated.lastStamp
  rw [List.getLast?_eq_getElem?, hget]
  exact Nat.le_antisymm hhigh hlow

omit [StateMachine SM P] in
/-- What follows from the simulation does not depend on the messages in flight. -/
theorem Streamed.drain (h : Streamed d front c₀ g) (hnodes : c.nodes = c₀.nodes)
    (hlog : c.messageLog = c₀.messageLog) : Streamed d [] c.drained g :=
  ⟨h.logs.of_nodes hnodes hlog, h.sound, h.flow.sublist (List.nil_sublist _),
    by rw [show c.drained.messageLog = c₀.messageLog from hlog]; exact h.acks⟩

omit [StateMachine SM P] in
/-- A message may be put in front when it reaches as far as the node's own entries of its term: what
the node has sent is on other links. -/
theorem Streamed.deliver {sender : NodeId} {msg : RaftMsg P} (hid : n.id = v) (hne : sender ≠ v)
    (hvalid : LogPacket g ⟨sender, v, msg⟩)
    (hown : ∀ T k, msg.CarriesTo T k → g.ballot.term v ≤ T →
      ∀ (j : Nat) (e : LogEntry P), (g.log v)[j]? = some e → e.term = T → j < k)
    (h : Streamed d [] (c.drained.withNode v n) g) :
    Streamed d [⟨sender, v, msg⟩] (c.drained.withNode v n) g := by
  refine ⟨h.logs, h.sound, ⟨fun p hp => ?_, fun p hp => ?_, fun p hp => ?_, ?_⟩, h.acks⟩
  · exact (List.mem_cons.mp hp).elim (fun he => he ▸ hvalid) (h.flow.valid p)
  · exact (List.mem_cons.mp hp).elim (fun he => he ▸ hne.symm) (h.flow.apart p)
  · exact (List.mem_cons.mp hp).elim (fun he => he ▸ hown) (h.flow.own p)
  · refine List.pairwise_cons.mpr ⟨fun p hp hsrc => ?_, h.flow.ordered⟩
    have hp' : p ∈ n.outbox := hp
    obtain ⟨o, _, rfl⟩ := List.mem_map.mp hp'
    exact absurd (hsrc.trans hid) hne

theorem followed_move (hn : Attending d c g v ev n) (hreaches : ReachesOwn (c.nodes v) ev)
    (hmove : Move .testUtils ev (c.nodes v) n n') (h : Streamed d [] (c.drained.withNode v n) g) :
    ∃ g', Replicated.Advances d.members.toFinset g g' ∧
      Streamed d [] (c.drained.withNode v n') g' := by
  obtain ⟨hb, hl⟩ := h.logs.self hn.member
  refine streamed_other hn hmove h (fun sender prev pt es lc asked same consistent nonempty => ?_)
    fun sender leaderId offset data x asked hx => ?_ <;>
    obtain ⟨hne, _, hvalid⟩ := hn.delivered.sound _ _ asked
  · have hfits := hn.fits
    have hempty : es.isEmpty = false := by simpa using nonempty
    rw [← same, asked] at hfits hreaches
    have hfront := h.deliver hn.id hne hvalid fun T k hk _ j e he hT => by
      obtain ⟨rfl, _, rfl⟩ := hk
      rw [hb.currentTerm] at hT
      have hend := hreaches ⟨rfl, consistent⟩ hempty (by
        rw [hl.lastLogTerm, lastStamp_of_own h.logs.inv he hT, hb.currentTerm])
      rw [hl.lastLogIndex] at hend
      exact Nat.lt_of_lt_of_le (List.getElem?_eq_some_iff.mp he).1 hend
    obtain ⟨hadv, hplaced⟩ := streamed_place hn.member nonempty consistent
      (hfits ⟨rfl, consistent⟩ hempty) hfront
    exact ⟨_, hadv, hplaced.logs, hplaced.sound,
      hplaced.flow.sublist (List.sublist_append_right _ _), hplaced.acks⟩
  · have hfront := h.deliver hn.id hne hvalid fun T k hk => by cases hk
    obtain ⟨hadv, hinstalled⟩ := streamed_installBeyond hn.member hx hfront
    exact ⟨_, hadv, hinstalled.logs, hinstalled.sound,
      hinstalled.flow.sublist (List.sublist_append_right _ _), hinstalled.acks⟩

end

/-! ## Runs -/

/-- Fixed membership and no message delivered twice; logs that are not torn from their snapshots,
and acknowledgements that are true: what a node accepts reaches to the end of its log wherever that
is of the message's term, and where it is not, the log ends with what the message brings. -/
def Delaying (d : Deployment SM) (c : Cluster P SM) (a : Action P) : Prop :=
  SingleDelivery c a ∧ OnEvents d (fun c v => FitsSnapshot (c.nodes v)) c a ∧
    OnEvents d (fun c v => ChecksWhole (c.nodes v)) c a ∧
      OnEvents d (fun c v => ReachesOwn (c.nodes v)) c a

instance (d : Deployment SM) (c : Cluster P SM) (a : Action P) : Decidable (Delaying d c a) :=
  inferInstanceAs (Decidable (_ ∧ _ ∧ _ ∧ _))

/-- What is known of a cluster after such a run. -/
structure Following (d : Deployment SM) (c : Cluster P SM) (g : Replicated NodeId (LogEntry P)) :
    Prop where
  settled : Settled c
  fixed : Fixed d c
  tallied : Tallied d c
  unique : Unique d c
  streamed : Streamed d [] c.drained g

theorem following_init (d : Deployment SM) :
    Following d (Cluster.init d : Cluster P SM) Replicated.init := by
  have h := streaming_init (P := P) d
  exact ⟨h.settled, h.fixed, h.tallied, h.unique, h.streamed.drain rfl rfl⟩

section

variable {d : Deployment SM} {c : Cluster P SM} {g : Replicated NodeId (LogEntry P)} {a : Action P}

omit [StateMachine SM P] in
theorem Following.logs (h : Following d c g) : LogSim d c g := h.streamed.logs.of_nodes rfl rfl

/-- **The step of a run over links that delay**, with any further invariant `X` that every move can
carry along with the simulation. -/
theorem Following.step (h : Following d c g) (hok : Delaying d c a)
    {X : Cluster P SM → Replicated NodeId (LogEntry P) → Prop} (hX : X c g)
    (hnodes : ∀ c₁ c₂ g, c₂.nodes = c₁.nodes → c₂.messageLog = c₁.messageLog → X c₁ g → X c₂ g)
    (hmove : ∀ v ev n n' g₁ g₂, Attending d c g₁ v ev n →
      RaftNode.Move .testUtils ev (c.nodes v) n n' →
      Streamed d [] (c.drained.withNode v n) g₁ → X (c.drained.withNode v n) g₁ →
      Replicated.Advances d.members.toFinset g₁ g₂ →
      Streamed d [] (c.drained.withNode v n') g₂ →
      ∃ g₃, Replicated.Advances d.members.toFinset g₂ g₃ ∧
        Streamed d [] (c.drained.withNode v n') g₃ ∧ X (c.drained.withNode v n') g₃)
    (hrestart : ∀ v, X { c with nodes := Function.update c.nodes v ((c.nodes v).restart d) }
      (g.rest v))
    (hadvance : ∀ millis, X { c with nodes := fun v => (c.nodes v).advanceClock millis } g) :
    ∃ g', Replicated.Advances d.members.toFinset g g' ∧ Following d (c.step d a) g' ∧
      X (c.step d a) g' := by
  obtain ⟨hsingle, hfits, hchecks, hreaches⟩ := hok
  have hrep : Replicating d c g := ⟨h.settled, h.fixed, h.tallied, h.logs⟩
  obtain ⟨hwhole, hunique⟩ := hrep.wholeLogs h.unique hsingle hfits
  obtain ⟨hs, hf, ht, _, hstr⟩ := h
  suffices hall : ∃ g', Replicated.Advances d.members.toFinset g g' ∧
      Streamed d [] (c.step d a).drained g' ∧ X (c.step d a) g' by
    obtain ⟨g', hadv, hstr', hX'⟩ := hall
    exact ⟨g', hadv, ⟨settled_step hs a, fixed_step hsingle.1 hs hf,
      tallied_step hsingle.1 hwhole.1.2 hs hf ht, hunique, hstr'⟩, hX'⟩
  have hi := hstr.logs.inv
  rcases Cluster.step_cases d c a with ⟨v, ev, c₀, hh, hstep⟩ | ⟨net, _, hstep⟩ |
    ⟨k, p, rfl, _, _⟩ | ⟨v, _, hstep⟩ | ⟨ms, _, hstep⟩
  · rw [hstep]
    obtain ⟨g', hadv, hstr', hX'⟩ : ∃ g', Replicated.Advances d.members.toFinset g g' ∧
        Streamed d [] (c.drained.dispatch v ev) g' ∧ X (c.drained.dispatch v ev) g' :=
      Cluster.dispatch_simulate (c := c.drained) (fun c g => Streamed d [] c g ∧ X c g)
      (Replicated.Advances d.members.toFinset)
      Replicated.Advances.refl (fun _ _ _ => Replicated.Advances.trans) (hs v).2
      (fun n n' g₁ hmoves hmove' hadv hboth => by
        have hn : Attending d c g₁ v ev n := .of_moves hs hf ht hrep.sim hwhole.1 hh
          (hfits v ev hh.handled) (hchecks v ev hh.handled) hmoves hadv.le
        obtain ⟨g₂, hadv₂, hstr₂⟩ :=
          followed_move hn (hreaches v ev hh.handled) hmove' hboth.1
        obtain ⟨g₃, hadv₃, hstr₃, hX₃⟩ :=
          hmove v ev n n' g₁ g₂ hn hmove' hboth.1 hboth.2 hadv₂ hstr₂
        exact ⟨g₃, hadv₂.trans hadv₃, hstr₃, hX₃⟩)
      ⟨hstr, hnodes c _ g rfl rfl hX⟩
    have hsame : (c₀.dispatch v ev).nodes = (c.drained.dispatch v ev).nodes ∧
        (c₀.dispatch v ev).messageLog = (c.drained.dispatch v ev).messageLog := by
      simp only [Cluster.dispatch, Cluster.withNode, hh.nodes, hh.messageLog]
      exact ⟨rfl, rfl⟩
    exact ⟨g', hadv, hstr'.drain hsame.1 hsame.2, hnodes _ _ g' hsame.1 hsame.2 hX'⟩
  · rw [hstep]
    exact ⟨g, .refl g, hstr.drain rfl rfl, hnodes c _ g rfl rfl hX⟩
  · exact absurd hsingle.2 id
  · rw [hstep]
    obtain ⟨hle, hlogs⟩ := logSim_restart (v := v) hrep.sim
    exact ⟨_, Replicated.advances_of_log hle hi rfl,
      ⟨hlogs.of_nodes rfl rfl, Replicated.sound_rest hstr.sound hi,
        (hstr.flow.of_log hle rfl).sublist (List.nil_sublist _),
        fun p hp => (hstr.acks p hp).mono hle⟩, hrestart v⟩
  · rw [hstep]
    exact ⟨g, .refl g, ⟨⟨electionSim_advance hstr.logs.elections, hi, hstr.logs.node,
      hstr.logs.sent⟩, hstr.sound, hstr.flow, hstr.acks⟩, hadvance ms⟩

end

end MetalRaft
