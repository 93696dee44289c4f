import MetalRaft.CommitPoint
import MetalRaft.Lifetime
import MetalRaft.Membership

/-!
# Well-formed configurations

`add_server` refuses a node that is a member already and `remove_server` the last member, but what
they check is the configuration at the time of the call.  A change is applied as it stands when it
commits, and `Event::ConfigChange` hands one in without any check.

* `WellFormed` — no member twice, and at least one.
* `KeepsForm` — the changes that keep it so; `wellFormed_changeMembers` says that they are exactly
  those.
* `configuration_well_formed` — lives in which only such changes are applied.
* `member_added_twice` — a leader that adds itself.
-/

set_option autoImplicit false

namespace MetalRaft

open Transition LogReplicationManager ConfigChangeManager

/-- The member collection names nobody twice and is not empty. -/
structure WellFormed (members : List NodeId) : Prop where
  nodup : members.Nodup
  nonempty : members ≠ []

namespace ConfigChangeManager

variable {R : Realization} {members : List NodeId}

/-- The member collection has no room left. -/
def Full (R : Realization) (members : List NodeId) : Prop := ∃ cap ∈ R.nodes, cap ≤ members.length

/-- An added server is new, unless it is dropped for want of room; a removed one leaves somebody
behind. -/
def KeepsForm (R : Realization) (members : List NodeId) : ConfigurationChange → Prop
  | .addServer nodeId => nodeId ∉ members ∨ Full R members
  | .removeServer nodeId => ∃ v ∈ members, v ≠ nodeId

/-- Every change of a list keeps the form of the members that it is applied to. -/
def KeepsForms (R : Realization) : List NodeId → List ConfigurationChange → Prop
  | _, [] => True
  | members, change :: changes =>
    KeepsForm R members change ∧ KeepsForms R (changeMembers R members change) changes

instance (members : List NodeId) : Decidable (Full R members) :=
  inferInstanceAs (Decidable (∃ _ ∈ _, _ ≤ _))

instance (members : List NodeId) : (change : ConfigurationChange) →
    Decidable (KeepsForm R members change)
  | .addServer _ => inferInstanceAs (Decidable (_ ∨ _))
  | .removeServer _ => inferInstanceAs (Decidable (∃ _ ∈ _, _))

instance KeepsForms.decidable : (members : List NodeId) → (changes : List ConfigurationChange) →
    Decidable (KeepsForms R members changes)
  | _, [] => isTrue trivial
  | members, change :: changes =>
    @instDecidableAnd _ _ _ (KeepsForms.decidable (changeMembers R members change) changes)

theorem pushWithin_of_full {nodeId : NodeId} (h : Full R members) :
    pushWithin R.nodes members nodeId = members := by
  obtain ⟨cap, hcap, hle⟩ := h
  rw [Option.mem_def.mp hcap]
  exact if_neg (Nat.not_lt.mpr hle)

theorem pushWithin_of_not_full {nodeId : NodeId} (h : ¬ Full R members) :
    pushWithin R.nodes members nodeId = members ++ [nodeId] := by
  unfold pushWithin
  split
  · rfl
  · rename_i cap hcap
    refine if_pos ?_
    by_contra hfull
    exact h ⟨cap, hcap, Nat.not_lt.mp hfull⟩

/-- **A change keeps the configuration well formed** exactly if it adds somebody new or removes
somebody who is not alone. -/
theorem wellFormed_changeMembers (hfits : Fits R members) (h : WellFormed members)
    {change : ConfigurationChange} :
    WellFormed (changeMembers R members change) ↔ KeepsForm R members change := by
  cases change with
  | addServer nodeId =>
    simp only [changeMembers, copy_members hfits, KeepsForm]
    by_cases hfull : Full R members
    · rw [pushWithin_of_full hfull]
      exact iff_of_true h (Or.inr hfull)
    · rw [pushWithin_of_not_full hfull]
      constructor
      · intro hwell
        refine Or.inl fun hmem => ?_
        have hdisjoint := (List.nodup_append.mp hwell.nodup).2.2
        exact hdisjoint nodeId hmem nodeId (List.mem_singleton_self _) rfl
      · rintro (hnew | hfull')
        · refine ⟨List.nodup_append.mpr ⟨h.nodup, List.nodup_singleton _, ?_⟩, by simp⟩
          rintro v hv w hw rfl
          exact hnew (List.mem_singleton.mp hw ▸ hv)
        · exact absurd hfull' hfull
  | removeServer nodeId =>
    simp only [changeMembers, copy_members (fits_filter hfits _), KeepsForm]
    constructor
    · intro hwell
      obtain ⟨v, hv⟩ := List.exists_mem_of_ne_nil _ hwell.nonempty
      obtain ⟨hmem, hne⟩ := List.mem_filter.mp hv
      exact ⟨v, hmem, by simpa using hne⟩
    · rintro ⟨v, hmem, hne⟩
      refine ⟨h.nodup.filter _, List.ne_nil_of_mem (a := v) ?_⟩
      exact List.mem_filter.mpr ⟨hmem, by simpa using hne⟩

theorem wellFormed_foldl (changes : List ConfigurationChange) :
    ∀ {members : List NodeId}, Fits R members → WellFormed members →
      KeepsForms R members changes → WellFormed (changes.foldl (changeMembers R) members) := by
  induction changes with
  | nil => exact fun _ h _ => h
  | cons change changes ih =>
    intro members hfits h hkeeps
    exact ih (fits_changeMembers hfits change)
      ((wellFormed_changeMembers hfits h).mpr hkeeps.1) hkeeps.2

end ConfigChangeManager

namespace RaftNode

variable {P S SM : Type} [Storage S P] [StateMachine SM P] {R : Realization} {ev : Event P}
  {n : RaftNode P S SM}

/-- Every configuration change that the turn makes the node apply keeps the form of the members
that it finds. -/
def AppliesInForm (R : Realization) (n : RaftNode P S SM) (t : Turn P S SM) : Prop :=
  ∀ ev ∈ n.asEvent t,
    KeepsForms R n.config.members ((Face.collected R (n.newlyCommitted R ev)).map (·.2))

omit [Storage S P] [StateMachine SM P] in
/-- A node is started with distinct peers, itself not among them. -/
def StartsDistinct (n : RaftNode P S SM) : Turn P S SM → Prop
  | .restart _ boot => (n.id :: boot.peers).Nodup
  | _ => True

instance (n : RaftNode P S SM) (t : Turn P S SM) : Decidable (n.AppliesInForm R t) :=
  inferInstanceAs (Decidable (∀ _ ∈ _, _))

instance (n : RaftNode P S SM) : (t : Turn P S SM) → Decidable (StartsDistinct n t)
  | .restart _ boot => inferInstanceAs (Decidable (n.id :: boot.peers).Nodup)
  | .event _ | .addServer _ | .removeServer _ => isTrue trivial

/-- The members after an event are those before, with the changes applied that it commits. -/
theorem members_onEvent (R : Realization) (n : RaftNode P S SM) (ev : Event P) :
    (n.onEvent R ev).config.members =
      ((Face.collected R (n.newlyCommitted R ev)).map (·.2)).foldl (changeMembers R)
        n.config.members := by
  have hquiet : n.commitPoint R ev = none → (n.onEvent R ev).configManager = n.configManager →
      (n.onEvent R ev).config.members =
        ((Face.collected R (n.newlyCommitted R ev)).map (·.2)).foldl (changeMembers R)
          n.config.members := by
    intro hpoint hmanager
    rw [newlyCommitted_of_none hpoint, config, hmanager]
    rfl
  cases onEvent_commits R n ev with
  | nothing point manager => exact hquiet point manager
  | installs asked _ _ _ _ _ manager => exact hquiet (by rw [asked]; rfl) manager
  | upTo _ _ manager _ _ _ face =>
    have hmembers := congrArg (fun f => f.configManager.config.members) face
    refine hmembers.trans ?_
    unfold Face.commit
    dsimp only
    rw [foldl_changed_members, manager]
    rfl

/-- The members fit their collection and are well formed. -/
structure InForm (R : Realization) (n : RaftNode P S SM) : Prop where
  fits : Fits R n.config.members
  wellFormed : WellFormed n.config.members

theorem inForm_start (hR : ∀ cap ∈ R.nodes, 0 < cap) {id : NodeId} {storage : S} {boot : Boot SM}
    (h : (id :: boot.peers).Nodup) : (start R id storage boot).InForm R := by
  have hmembers : (start R id storage boot).config.members = builtMembers R id boot.peers := rfl
  have hfitting : builtMembers R id boot.peers = fitting R.nodes 0 (id :: boot.peers) :=
    (foldl_pushWithin_eq R.nodes (id :: boot.peers) []).trans (List.nil_append _)
  refine ⟨hmembers ▸ fits_builtMembers R id boot.peers, ?_⟩
  rw [hmembers, hfitting]
  unfold fitting
  split
  · exact ⟨h, List.cons_ne_nil _ _⟩
  · rename_i cap hcap
    obtain ⟨k, rfl⟩ := Nat.exists_eq_succ_of_ne_zero (Nat.ne_of_gt (hR cap hcap))
    exact ⟨h.sublist (List.take_sublist _ _), List.cons_ne_nil _ _⟩

theorem inForm_turn (hR : ∀ cap ∈ R.nodes, 0 < cap) {t : Turn P S SM} (h : n.InForm R)
    (hstarts : StartsDistinct n t) (happlies : n.AppliesInForm R t) : (n.turn R t).InForm R := by
  rcases turn_cases R n t with ⟨storage, boot, rfl⟩ | ⟨_, heq⟩ | ⟨ev, m, hev, heq, hm⟩
  · exact inForm_start hR hstarts
  · rw [heq]
    exact h
  · have hmembers : (n.turn R t).config.members = (n.onEvent R ev).config.members := by
      rw [heq]
      exact congrArg Configuration.members hm
    rw [members_onEvent] at hmembers
    constructor
    · rw [hmembers]
      exact fits_foldl _ h.fits
    · rw [hmembers]
      exact wellFormed_foldl _ h.fits h.wellFormed (happlies ev hev)

/-- **The configuration stays well formed** in every life of a node, with either family of
collections, in which every change that it applies adds somebody new or removes somebody who is
not alone. -/
theorem configuration_well_formed (hR : ∀ cap ∈ R.nodes, 0 < cap) {id : NodeId} {storage : S}
    {boot : Boot SM} (hboot : (id :: boot.peers).Nodup)
    (h : Run (turn R) (fun n t => StartsDistinct n t ∧ n.AppliesInForm R t)
      (start R id storage boot) n) : WellFormed n.config.members :=
  (h.invariant (fun _ _ hn hok => inForm_turn hR hn hok.1 hok.2) (inForm_start hR hboot)).wellFormed

/-- A leader of three adds a fourth server and removes the third. -/
def exchangeTurns : List (Turn UInt8 (InMemoryStorage UInt8) Adder) :=
  [.event (.timerFired .election), .event (.message 2 (.preVoteResponse 0 true)),
    .event (.message 2 (.requestVoteResponse 1 true)), .addServer 4,
    .event (.message 2 (.appendEntriesResponse 1 true 1)), .event (.configChange (.removeServer 3)),
    .event (.message 2 (.appendEntriesResponse 1 true 2))]

theorem configuration_well_formed_exchange :
    WellFormed (exchangeTurns.foldl (turn .testUtils)
      (start .testUtils 1 .new trioBoot)).config.members :=
  configuration_well_formed (fun _ hcap => (by cases hcap)) (by decide)
    (Admitted.run _ (by decide +kernel))

/-- A leader of one is handed its own addition. -/
def doubledTurns : List (Turn UInt8 (InMemoryStorage UInt8) Adder) :=
  [.event (.timerFired .election), .event (.configChange (.addServer 1))]

theorem member_added_twice :
    ¬ ∀ n : TestNode UInt8 Adder,
      Run (turn .testUtils) (fun n t => KeepsStorage n t ∧ StartsDistinct n t)
        (start .testUtils 1 .new ⟨⟨0⟩, ⟨none, none, 0⟩, [], 100, 0, 100⟩) n →
        WellFormed n.config.members := by
  intro h
  have hwell := h _ (Admitted.run doubledTurns ⟨⟨trivial, trivial⟩, ⟨trivial, trivial⟩, trivial⟩)
  exact absurd hwell.nodup (by decide +kernel)

end RaftNode

end MetalRaft
