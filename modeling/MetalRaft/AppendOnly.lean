import MetalRaft.Origins

/-!
# Leaders only append

* `AppendOnly` — how the log of a leader may change, seen as a map from indexes to entries.
* `appendOnly_moves` — it changes in no other way while a leader stays in its term, as long as it is
  sent nothing that only the leader of the term could send.
* `leader_append_only` — nobody sends it such a thing, so this holds for a whole leadership.
-/

set_option autoImplicit false

namespace MetalRaft

open Transition Voting

variable {P SM : Type}

/-- The log of `s'` is that of `s` with entries of term `T` added behind its last index, and
without the beginning that the snapshot of `s'` covers; a new snapshot ends at an entry that the
log has had. -/
structure AppendOnly (T : Nat) (s s' : InMemoryStorage P) : Prop where
  last : s.lastLogIndex ≤ s'.lastLogIndex
  snap : s.snapIndex ≤ s'.snapIndex
  kept : ∀ i ≤ s.lastLogIndex, s'.snapIndex < i → s'.getEntry i = s.getEntry i
  gained : ∀ i, s.lastLogIndex < i → ∀ e, s'.getEntry i = some e → e.term = T
  held : ∀ i, s'.snapIndex < i → i ≤ s'.lastLogIndex → ∃ e, s'.getEntry i = some e
  lost : ∀ i, i ≤ s'.snapIndex ∨ s'.lastLogIndex < i → s'.getEntry i = none
  own : s'.snapshot = s.snapshot ∨
    s.snapIndex < s'.snapIndex ∧ s'.snapIndex ≤ s'.lastLogIndex ∧
      (s.lastLogIndex < s'.snapIndex → s'.snapTerm = T) ∧
      (s'.snapIndex ≤ s.lastLogIndex →
        ∃ e, s.getEntry s'.snapIndex = some e ∧ e.term = s'.snapTerm)

namespace AppendOnly

variable {T : Nat} {s s' s'' : InMemoryStorage P} {e : LogEntry P}

theorem outside (h : s.Shaped) {i : Nat} (hi : i ≤ s.snapIndex ∨ s.lastLogIndex < i) :
    s.getEntry i = none := by
  cases he : s.getEntry i with
  | none => rfl
  | some e =>
    have := h.getEntry_bounds he
    omega

theorem of_same (h : s.Shaped) (hs : SameLog s s') : AppendOnly T s s' := by
  have hsnap := hs.snapIndex
  have hlast := hs.lastLogIndex
  refine ⟨by omega, by omega, fun i _ _ => hs.getEntry i, fun i hi e he => ?_, fun i hi hle => ?_,
    fun i hi => ?_, Or.inl hs.snapshot⟩
  · rw [hs.getEntry, outside h (Or.inr hi)] at he
    cases he
  · rw [hs.getEntry]
    exact h.exists_getEntry (by omega) (by omega)
  · rw [hs.getEntry]
    exact outside h (by omega)

theorem append (h : s.Shaped) (hT : e.term = T) : AppendOnly T s (s.withLog (s.log ++ [e])) := by
  have hshaped := h.withLog (s.log ++ [e])
  have hlast : (s.withLog (s.log ++ [e])).lastLogIndex = s.lastLogIndex + 1 := by
    rw [hshaped.lastLogIndex_eq, h.lastLogIndex_eq]
    show s.snapIndex + (s.log ++ [e]).length = _
    rw [List.length_append, List.length_singleton]
    omega
  refine ⟨by omega, Nat.le_refl _, fun i hi _ => h.getEntry_append hi, fun i hi x hx => ?_,
    fun i hi hle => hshaped.exists_getEntry hi hle, fun i hi => outside hshaped hi, Or.inl rfl⟩
  have hb := hshaped.getEntry_bounds hx
  have hi' : i = s.lastLogIndex + 1 := by omega
  rw [h.getEntry_withLog, h.lastLogIndex_eq] at *
  split at hx
  · cases hx
  · rw [List.getElem?_append_right (by omega)] at hx
    have hmem := List.mem_of_getElem? hx
    rw [List.mem_singleton.mp hmem]
    exact hT

theorem compact (h : s.Shaped) {x : Snapshot}
    (he : s.getEntry x.metadata.lastIncludedIndex = some e)
    (hx : e.term = x.metadata.lastIncludedTerm) : AppendOnly T s (s.compactedTo x) := by
  have hb := h.getEntry_bounds he
  have hshaped := InMemoryStorage.shaped_compactedTo (s := s) x
  have hlast := h.lastLogIndex_compactedTo (x := x) (Nat.le_of_lt hb.1)
  have hsnap := InMemoryStorage.snapIndex_compactedTo (s := s) x
  refine ⟨by omega, by omega, fun i _ hi => ?_, fun i hi y hy => ?_,
    fun i hi hle => hshaped.exists_getEntry hi hle, fun i hi => outside hshaped hi,
    Or.inr ⟨by omega, by omega, fun hlt => by omega, fun _ => ⟨e, by rw [hsnap]; exact he, hx⟩⟩⟩
  · rw [h.getEntry_compactedTo (Nat.le_of_lt hb.1), if_neg (by omega)]
  · have := hshaped.getEntry_bounds hy
    omega

theorem trans (h : AppendOnly T s s') (h' : AppendOnly T s' s'') : AppendOnly T s s'' := by
  have hlast := h.last
  have hlast' := h'.last
  have hsnap := h.snap
  have hsnap' := h'.snap
  refine ⟨by omega, by omega, fun i hi hlt => ?_, fun i hi e he => ?_, h'.held, h'.lost, ?_⟩
  · rw [h'.kept i (by omega) hlt, h.kept i hi (by omega)]
  · by_cases hi' : s'.lastLogIndex < i
    · exact h'.gained i hi' e he
    · have hin : s''.snapIndex < i := by
        by_contra hle
        rw [h'.lost i (Or.inl (by omega))] at he
        cases he
      rw [h'.kept i (by omega) hin] at he
      exact h.gained i hi e he
  · have hnew : s''.snapshot = s'.snapshot → s''.snapIndex = s'.snapIndex ∧
        s''.snapTerm = s'.snapTerm := by
      intro heq
      unfold InMemoryStorage.snapIndex InMemoryStorage.snapTerm
      rw [heq]
      exact ⟨rfl, rfl⟩
    rcases h'.own with heq | ⟨hlt, hle, hterm, hentry⟩
    · rcases h.own with heq' | ⟨hlt', hle', hterm', hentry'⟩
      · exact Or.inl (heq.trans heq')
      · obtain ⟨hi, ht⟩ := hnew heq
        rw [hi, ht]
        exact Or.inr ⟨hlt', by omega, hterm', hentry'⟩
    · refine Or.inr ⟨by omega, hle, fun hgt => ?_, fun hin => ?_⟩
      · by_cases hin : s'.lastLogIndex < s''.snapIndex
        · exact hterm hin
        · obtain ⟨e, he, ht⟩ := hentry (by omega)
          rw [← ht]
          exact h.gained _ hgt e he
      · obtain ⟨e, he, ht⟩ := hentry (by omega)
        rw [h.kept _ hin hlt] at he
        exact ⟨e, he, ht⟩

end AppendOnly

/-! ## Leaders -/

variable [StateMachine SM P]

/-- The event is nothing that the leader of term `T` sends. -/
def NotFromLeader (T : Nat) (ev : Event P) : Prop :=
  ∀ sender msg, ev = .message sender msg →
    (∀ prev pt es lc, msg ≠ .appendEntries T prev pt es lc) ∧
    ∀ leaderId i t offset data done, msg ≠ .installSnapshot T leaderId i t offset data done

open RaftNode in
theorem appendOnly_moves {ev : Event P} {n₀ n : TestNode P SM}
    (hev : NotFromLeader n₀.currentTerm ev) (hs : n₀.storage.Shaped)
    (hmoves : Moves .testUtils ev n₀ n₀ n) (hterm : n.currentTerm = n₀.currentTerm) :
    n.storage.Shaped ∧ AppendOnly n₀.currentTerm n₀.storage n.storage := by
  induction hmoves with
  | refl => exact ⟨hs, .of_same hs (.refl _)⟩
  | @tail n n' hmoves hlast ih =>
    have hterm' : n.currentTerm = n₀.currentTerm := by
      have := hlast.currentTerm_le
      have := Moves.currentTerm_le hmoves
      omega
    obtain ⟨hshaped, honly⟩ := ih hterm'
    refine ⟨shaped_move hlast hshaped, honly.trans ?_⟩
    cases hlast.logCases hshaped with
    | quiet hq => exact .of_same hshaped hq.sameLog
    | place asked => exact absurd rfl ((hev _ _ asked).1 _ _ _ _)
    | append => exact .append hshaped rfl
    | compact raised found => exact .compact hshaped found rfl
    | @install _ _ leaderId offset data x asked =>
      rw [hterm'] at asked
      exact absurd rfl ((hev _ _ asked).2 _ _ _ _ _ _)
    | _ => exact .of_same hshaped (.refl _)

/-- Member `v` leads term `T`. -/
def Leads (c : Cluster P SM) (v : NodeId) (T : Nat) : Prop :=
  (c.nodes v).role = .leader ∧ (c.nodes v).currentTerm = T

instance (c : Cluster P SM) (v : NodeId) (T : Nat) : Decidable (Leads c v T) :=
  inferInstanceAs (Decidable (_ ∧ _))

section

variable {d : Deployment SM} {c : Cluster P SM} {b : Ballot NodeId} {v : NodeId} {T : Nat}
  {a : Action P}

theorem Governed.appendOnly (h : Governed d c b) (hv : v ∈ d.members) (hl : Leads c v T)
    (hl' : Leads (c.step d a) v T) :
    AppendOnly T (c.nodes v).storage ((c.step d a).nodes v).storage := by
  obtain ⟨hrole, rfl⟩ := hl
  have hsame : AppendOnly (c.nodes v).currentTerm (c.nodes v).storage (c.nodes v).storage :=
    .of_same (h.sim.shaped v hv) (.refl _)
  rcases Cluster.step_cases d c a with ⟨u, ev, c₀, hh, hstep⟩ | ⟨net, _, hstep⟩ |
    ⟨k, p, _, _, hstep⟩ | ⟨u, _, hstep⟩ | ⟨ms, _, hstep⟩ <;> rw [hstep] at hl' ⊢
  · by_cases huv : v = u
    · subst huv
      unfold Cluster.dispatch at hl' ⊢
      have hterm := hl'.2
      rw [Cluster.withNode_nodes_self, hh.nodes] at hterm ⊢
      refine (appendOnly_moves ?_ (h.sim.shaped v hv) (RaftNode.onEvent_moves _ _ _) hterm).2
      rintro sender msg rfl
      exact h.not_from_other hv hrole (h.fixed.inFlight _ hh.delivered)
    · unfold Cluster.dispatch
      rw [Cluster.withNode_nodes_ne huv, hh.nodes]
      exact hsame
  · exact hsame
  · exact hsame
  · by_cases huv : v = u
    · subst huv
      have hfollower := hl'.1
      simp only [Function.update_self] at hfollower
      cases hfollower
    · simp only [Function.update_of_ne huv]
      exact hsame
  · exact hsame

/-- **Leaders only append.**  From the moment a member leads a term until it leaves that role, its
log gains entries of that term at its end and loses what its own snapshots cover. -/
theorem leader_append_only {c₁ c₂ : Cluster P SM} (h₁ : Reachable d SingleDelivery c₁)
    (hv : v ∈ d.members) (hl : Leads c₁ v T)
    (h₂ : Run (Cluster.step d) (fun c a => SingleDelivery c a ∧ Leads (c.step d a) v T) c₁ c₂) :
    AppendOnly T (c₁.nodes v).storage (c₂.nodes v).storage := by
  obtain ⟨b, hg⟩ := h₁.governed
  suffices hall : AppendOnly T (c₁.nodes v).storage (c₂.nodes v).storage ∧ Leads c₂ v T ∧
      ∃ b, Governed d c₂ b from hall.1
  refine Run.invariant (I := fun c => AppendOnly T (c₁.nodes v).storage (c.nodes v).storage ∧
    Leads c v T ∧ ∃ b, Governed d c b) ?_ h₂ ⟨.of_same (hg.sim.shaped v hv) (.refl _), hl, b, hg⟩
  rintro c a ⟨honly, hlead, b, hg⟩ ⟨hok, hlead'⟩
  obtain ⟨b', _, hg'⟩ := hg.step hok
  exact ⟨honly.trans (hg.appendOnly hv hlead hlead'), hlead', b', hg'⟩

end

/-- Node 1 of three commits its first two entries, compacts them and makes a third one. -/
theorem leader_append_only_compacting :
    let d := Deployment.plain [1, 2, 3] (by decide) 2
    let c₁ : Cluster UInt8 Adder := Cluster.play d
      [.timer 1 .election, .deliver 0, .deliver 1, .deliver 1, .deliver 2, .client 1 7,
        .client 1 8, .deliver 4, .deliver 5]
    let c₂ := [Action.deliver 7, .client 1 9].foldl (Cluster.step d) c₁
    (c₁.nodes 1).storage.lastLogIndex = 2 ∧ (c₂.nodes 1).storage.snapIndex = 2 ∧
      AppendOnly 1 (c₁.nodes 1).storage (c₂.nodes 1).storage := by
  intro d c₁ c₂
  exact ⟨by decide +kernel, by decide +kernel,
    leader_append_only (play_reachable _ (by decide +kernel)) (by decide) (by decide +kernel)
      (Admitted.run [Action.deliver 7, .client 1 9] (by decide +kernel))⟩

end MetalRaft
