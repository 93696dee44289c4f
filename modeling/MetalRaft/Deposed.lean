import MetalRaft.ClusterSteps
import MetalRaft.Outcome
import MetalRaft.Outsider
import MetalRaft.VoteTally

/-!
# How a leader loses its role

A leader is meant to give way to a higher term, or to its own removal, and to nothing else.  The
pre-vote flag does not know about roles, though: a node that began another pre-vote while it stood
for election keeps the flag as a leader, and the answer that completes the quorum makes it stand
again.

* `deposedRightly_iff` — for one event, the late pre-vote is the only other way out.
* `leader_deposed_rightly` — a run has rightful depositions only if and only if no late pre-vote
  is among its steps.
* `leader_deposed_by_late_preVote` — a run with one, though every message is delivered once.
-/

set_option autoImplicit false

namespace MetalRaft

open Transition

namespace RaftNode

variable {P S SM : Type} [Storage S P] [StateMachine SM P] {R : Realization} {ev : Event P}
  {n n' : RaftNode P S SM}

/-- Between `n` and `n'` the node has applied a committed entry that removes it. -/
def AppliesOwnRemoval (n n' : RaftNode P S SM) : Prop :=
  ∃ x ∈ n'.observer.applied.drop n.observer.applied.length,
    x.1 ≤ n'.replication.commitIndex ∧ x.2.change = some (.removeServer n.id)

/-- The event is a message of a later term. -/
def HigherTerm (n : RaftNode P S SM) (ev : Event P) : Prop :=
  ∃ sender msg, ev = .message sender msg ∧ n.currentTerm < msg.term

/-- A pre-vote response that makes a leader stand for the next term. -/
def LatePreVote (R : Realization) (n : RaftNode P S SM) (ev : Event P) : Prop :=
  n.role = .leader ∧ n.StartsElection R ev ∧ 1 < n.config.members.length

/-- A leader that handles the event keeps its role, or loses it to a later term or to its own
removal. -/
def DeposedRightly (R : Realization) (n : RaftNode P S SM) (ev : Event P) : Prop :=
  n.role = .leader → (n.onEvent R ev).role ≠ .leader →
    n.HigherTerm ev ∨ n.AppliesOwnRemoval (n.onEvent R ev)

/-- Whoever collects its own removal from a batch has applied it. -/
theorem appliesOwnRemoval_of_commit {f : Face P SM} {i c : Nat} {storage : S}
    (hface : n'.face = f.commit R n.id c (LogReplicationManager.batch storage i (c - i)))
    (hobserver : f.observer = n.observer)
    (h : .removeServer n.id ∈
      (Face.collected R (LogReplicationManager.batch storage i (c - i))).map (·.2)) :
    n.AppliesOwnRemoval n' := by
  have happlied : n'.observer.applied =
      n.observer.applied ++ LogReplicationManager.batch storage i (c - i) := by
    rw [← hobserver]
    exact congrArg (fun f => f.observer.applied) hface
  have hcommit : n'.replication.commitIndex = c := congrArg Face.commitIndex hface
  unfold AppliesOwnRemoval
  rw [happlied, List.drop_left, hcommit]
  obtain ⟨⟨j, change⟩, hmem, rfl⟩ := List.mem_map.mp h
  obtain ⟨e, he, hchange⟩ := LogReplicationManager.mem_changesIn.mp
    ((mem_of_mem_foldl_pushWithin hmem).resolve_left List.not_mem_nil)
  have hb := LogReplicationManager.mem_batch he
  exact ⟨(j, e), he, by omega, hchange⟩

/-- **The late pre-vote is the only wrongful deposition.** -/
theorem deposedRightly_iff : DeposedRightly R n ev ↔ ¬ LatePreVote R n ev := by
  constructor
  · rintro h ⟨hrole, hcause, hpeers⟩
    have hface := face_of_startsElection hcause
    have hrole' : (n.onEvent R ev).role = .candidate := by
      have := congrArg Face.role hface
      rwa [if_neg (Nat.not_le.mpr hpeers)] at this
    have hobserver : (n.onEvent R ev).observer = n.observer := congrArg Face.observer hface
    rcases h hrole (by rw [hrole']; decide) with ⟨sender, msg, rfl, hterm⟩ | ⟨x, hx, _⟩
    · cases msg with
      | preVoteResponse term granted => exact absurd hcause.1 (Nat.not_le.mpr hterm)
      | _ => exact hcause
    · rw [hobserver, List.drop_length] at hx
      cases hx
  · intro hlate hrole hnot
    have hout := onEvent_outcome R n ev
    have hface : (n.onEvent R ev).face.role ≠ .leader := hnot
    have hkept : ∀ {T : Nat}, T = n.currentTerm → (n.face.follow T).role = .leader := by
      rintro T rfl
      exact Face.follow_leader.mpr ⟨hrole, Nat.lt_irrefl _⟩
    generalize hf : (n.onEvent R ev).face = f at hout hface
    cases hout with
    | keeps => exact absurd hrole hface
    | stepsDown asked higher => exact Or.inl ⟨_, _, asked, higher⟩
    | yields => exact absurd (hkept rfl) hface
    | hearsSnapshot asked reached | installs asked reached =>
      rcases Nat.lt_or_eq_of_le reached with hlt | heq
      · exact Or.inl ⟨_, _, asked, hlt⟩
      · exact absurd (hkept heq.symm) hface
    | learns | commits | commitsAlone =>
      refine Or.inr (appliesOwnRemoval_of_commit hf rfl ?_)
      by_contra hmem
      refine hface (Face.commit_leader.mpr ⟨?_, hmem⟩)
      first | exact hkept rfl | exact hrole
    | campaigns cause peers => exact absurd ⟨hrole, cause, peers⟩ hlate
    | leadsAlone | wins => exact absurd rfl hface

end RaftNode

variable {P SM : Type} [StateMachine SM P] {d : Deployment SM} {c : Cluster P SM} {a : Action P}

/-! ## Runs -/

/-- Every leader that loses its role in action `a` is restarted, handles a message of a later term
or applies its own removal. -/
def DeposesRightly (d : Deployment SM) (c : Cluster P SM) (a : Action P) : Prop :=
  ∀ v, (c.nodes v).role = .leader → ((c.step d a).nodes v).role ≠ .leader →
    a = .restart v ∨
    (∃ sender msg, c.handled d a = some (v, .message sender msg) ∧
      (c.nodes v).currentTerm < msg.term) ∨
    (c.nodes v).AppliesOwnRemoval ((c.step d a).nodes v)

/-- No leader with more than one member is delivered the granted pre-vote response, of a term up
to its own, that completes the quorum of a pre-vote it has not given up. -/
def NoLatePreVote (d : Deployment SM) : Cluster P SM → Action P → Prop :=
  OnEvents d fun c v ev => ¬ (c.nodes v).LatePreVote .testUtils ev

instance (n : TestNode UInt8 Adder) (ev : Event UInt8) :
    Decidable (n.LatePreVote .testUtils ev) :=
  inferInstanceAs (Decidable (_ ∧ _ ∧ _))

instance (d : Deployment Adder) (c : Cluster UInt8 Adder) (a : Action UInt8) :
    Decidable (NoLatePreVote d c a) :=
  inferInstanceAs (Decidable (OnEvents _ _ _ _))

theorem deposesRightly_iff : DeposesRightly d c a ↔ NoLatePreVote d c a := by
  constructor
  · intro h v ev hev
    obtain ⟨c₀, hh, hstep⟩ := Cluster.handles_of_handled hev
    have hnode : (c.step d a).nodes v =
        { (c.nodes v).onEvent .testUtils ev with transport := [] } := by
      rw [hstep, Cluster.dispatch, Cluster.withNode_nodes_self, hh.nodes]
    refine RaftNode.deposedRightly_iff.mp fun hrole hnot => ?_
    have hcauses := h v hrole
    rw [hnode] at hcauses
    rcases hcauses hnot with rfl | ⟨sender, msg, hmsg, hterm⟩ | hremoved
    · cases hev
    · rw [hev] at hmsg
      cases hmsg
      exact Or.inl ⟨sender, msg, rfl, hterm⟩
    · exact Or.inr hremoved
  · intro h v hrole hnot
    rcases Cluster.step_cases d c a with ⟨u, ev, c₀, hh, hstep⟩ | ⟨net, _, hstep⟩ |
      ⟨k, p, _, _, hstep⟩ | ⟨u, rfl, hstep⟩ | ⟨ms, _, hstep⟩ <;> rw [hstep] at hnot ⊢
    · by_cases huv : v = u
      · subst huv
        unfold Cluster.dispatch at hnot ⊢
        rw [Cluster.withNode_nodes_self, hh.nodes] at hnot ⊢
        have hright := RaftNode.deposedRightly_iff.mpr (h v ev hh.handled) hrole hnot
        rcases hright with ⟨sender, msg, rfl, hterm⟩ | hremoved
        · exact Or.inr (Or.inl ⟨sender, msg, hh.handled, hterm⟩)
        · exact Or.inr (Or.inr hremoved)
      · unfold Cluster.dispatch at hnot
        rw [Cluster.withNode_nodes_ne huv, hh.nodes] at hnot
        exact absurd hrole hnot
    · exact absurd hrole hnot
    · exact absurd hrole hnot
    · by_cases huv : v = u
      · exact Or.inl (by rw [huv])
      · simp only [Function.update_of_ne huv] at hnot
        exact absurd hrole hnot
    · exact absurd hrole hnot

/-- **A leader is deposed by a later term or by its own removal**, and in no other way, in exactly
the runs without a late pre-vote: every step of a run has only such depositions if and only if no
step delivers one. -/
theorem leader_deposed_rightly (d : Deployment SM) (actions : List (Action P)) :
    Admitted (Cluster.step d) (DeposesRightly d) (Cluster.init d) actions ↔
      Admitted (Cluster.step d) (NoLatePreVote d) (Cluster.init d) actions :=
  Admitted.congr fun _ _ => deposesRightly_iff

/-- Node 1 of three begins a second pre-vote as a candidate, is elected, and then hears of the
pre-vote. -/
theorem leader_deposed_by_late_preVote :
    ¬ ∀ actions : List (Action UInt8),
      Admitted (Cluster.step trio) (fun c a => AtMostOnce c a ∧ FixedMembership c a)
        (Cluster.init trio) actions →
      Admitted (Cluster.step trio) (DeposesRightly trio) (Cluster.init trio) actions := by
  intro h
  have hright := h [.timer 1 .election, .deliver 0, .deliver 1, .deliver 1, .timer 1 .election,
    .deliver 3, .deliver 2, .deliver 3] (by decide +kernel)
  rw [Admitted.congr fun _ _ => deposesRightly_iff] at hright
  exact absurd hright (by decide +kernel)

end MetalRaft
