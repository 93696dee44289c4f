import Mathlib.Data.Finset.Card
import Mathlib.Logic.Function.Basic

/-!
# Elections by majority vote

A protocol pattern, independent of any program: parties move through increasing terms, stand
for a term, vote at most once per term and lead a term once a majority has voted for them.

* `IsMajority` and `IsMajority.inter` — two majorities of the same set share a member.
* `Ballot` — the parties' terms and roles, with two history variables: every vote ever cast
  and the leader of every term.
* `Ballot.Inv` — kept by each of the five moves (`inv_adopt`, `inv_rest`, `inv_campaign`,
  `inv_vote`, `inv_lead`).
* `Ballot.NewVotes` — the votes cast on the way from one ballot to another.
* `Ballot.Inv.leader_eq_none` — a party that is about to lead a term is its first leader, so
  that `leader` is never overwritten and grows along `Ballot.Le`.
-/

set_option autoImplicit false

namespace Voting

open Function

/-! ## Majorities -/

variable {ι : Type} [DecidableEq ι]

/-- A set of members that makes up more than half of them. -/
def IsMajority (members Q : Finset ι) : Prop := Q ⊆ members ∧ members.card < 2 * Q.card

theorem IsMajority.inter {members Q Q' : Finset ι} (h : IsMajority members Q)
    (h' : IsMajority members Q') : ∃ v, v ∈ Q ∧ v ∈ Q' := by
  have hcard : members.card < Q.card + Q'.card := by have := h.2; have := h'.2; omega
  obtain ⟨v, hv⟩ := Finset.inter_nonempty_of_card_lt_card_add_card h.1 h'.1 hcard
  exact ⟨v, Finset.mem_inter.mp hv⟩

theorem IsMajority.nonempty {members Q : Finset ι} (h : IsMajority members Q) : ∃ v, v ∈ Q := by
  obtain ⟨v, hv, _⟩ := h.inter h
  exact ⟨v, hv⟩

/-! ## Ballots -/

inductive Role where
  | idle
  | standing
  | leading

/-- Terms and roles of the parties, and the history of votes and leaders. -/
structure Ballot (ι : Type) where
  term : ι → ℕ
  role : ι → Role
  voted : ι → ℕ → Option ι
  leader : ℕ → Option ι

namespace Ballot

variable {members : Finset ι} {b b' : Ballot ι} {v a c : ι} {T : ℕ}

def init : Ballot ι := ⟨fun _ => 0, fun _ => .idle, fun _ _ => none, fun _ => none⟩

/-- `v` learns of term `T`. -/
def adopt (b : Ballot ι) (v : ι) (T : ℕ) : Ballot ι :=
  { b with term := update b.term v T, role := update b.role v .idle }

/-- `v` gives up its role but stays in its term. -/
def rest (b : Ballot ι) (v : ι) : Ballot ι := { b with role := update b.role v .idle }

/-- `v` stands for the next term and votes for itself. -/
def campaign (b : Ballot ι) (v : ι) : Ballot ι :=
  { b with
    term := update b.term v (b.term v + 1)
    role := update b.role v .standing
    voted := update b.voted v (update (b.voted v) (b.term v + 1) (some v)) }

/-- `v` votes for `c` in its own term. -/
def vote (b : Ballot ι) (v c : ι) : Ballot ι :=
  { b with voted := update b.voted v (update (b.voted v) (b.term v) (some c)) }

/-- `c` becomes the leader of its term. -/
def lead (b : Ballot ι) (c : ι) : Ballot ι :=
  { b with
    role := update b.role c .leading
    leader := update b.leader (b.term c) (some c) }

/-- A majority of the members voted for `a` in term `T`. -/
def Elected (members : Finset ι) (b : Ballot ι) (a : ι) (T : ℕ) : Prop :=
  ∃ Q, IsMajority members Q ∧ ∀ v ∈ Q, b.voted v T = some a

structure Inv (members : Finset ι) (b : Ballot ι) : Prop where
  voted_le : ∀ v T c, b.voted v T = some c → T ≤ b.term v
  voted_le_candidate : ∀ v T c, b.voted v T = some c → T ≤ b.term c
  own_vote : ∀ v, b.role v ≠ .idle → b.voted v (b.term v) = some v
  term_pos : ∀ v, b.role v ≠ .idle → 0 < b.term v
  leader_pos : ∀ T a, b.leader T = some a → 0 < T
  leader_le : ∀ T a, b.leader T = some a → T ≤ b.term a
  leader_not_standing : ∀ T a, b.leader T = some a → b.term a = T → b.role a ≠ .standing
  elected : ∀ T a, b.leader T = some a → Elected members b a T
  leading : ∀ a, b.role a = .leading → b.leader (b.term a) = some a

/-- Terms go up; votes and leaders, once recorded, stay. -/
structure Le (b b' : Ballot ι) : Prop where
  term : ∀ v, b.term v ≤ b'.term v
  voted : ∀ v T c, b.voted v T = some c → b'.voted v T = some c
  leader : ∀ T a, b.leader T = some a → b'.leader T = some a

omit [DecidableEq ι] in
theorem Le.refl (b : Ballot ι) : Le b b :=
  ⟨fun _ => Nat.le_refl _, fun _ _ _ h => h, fun _ _ h => h⟩

omit [DecidableEq ι] in
theorem Le.trans {b₁ b₂ b₃ : Ballot ι} (h : Le b₁ b₂) (h' : Le b₂ b₃) : Le b₁ b₃ :=
  ⟨fun v => (h.term v).trans (h'.term v), fun v T c hv => h'.voted v T c (h.voted v T c hv),
    fun T a ha => h'.leader T a (h.leader T a ha)⟩

/-- Every vote that has been cast on the way from `b` to `b'` is one of those in `P`. -/
def NewVotes (P : ι → ℕ → ι → Prop) (b b' : Ballot ι) : Prop :=
  ∀ v T c, b'.voted v T = some c → b.voted v T = some c ∨ P v T c

omit [DecidableEq ι] in
theorem NewVotes.of_eq {P : ι → ℕ → ι → Prop} (h : b'.voted = b.voted) : NewVotes P b b' :=
  fun v T c hv => Or.inl (by rw [← h]; exact hv)

omit [DecidableEq ι] in
theorem NewVotes.trans {P : ι → ℕ → ι → Prop} {b₁ b₂ b₃ : Ballot ι} (h : NewVotes P b₁ b₂)
    (h' : NewVotes P b₂ b₃) : NewVotes P b₁ b₃ :=
  fun v T c hv => (h' v T c hv).elim (h v T c) Or.inr

omit [DecidableEq ι] in
theorem Elected.mono (hle : Le b b') (h : Elected members b a T) : Elected members b' a T := by
  obtain ⟨Q, hQ, hv⟩ := h
  exact ⟨Q, hQ, fun v hvQ => hle.voted v T a (hv v hvQ)⟩

omit [DecidableEq ι] in
theorem inv_init : Inv members (init : Ballot ι) := by
  constructor <;> simp [init]

/-- **A term is led once.**  A standing party with a majority behind it finds the term without
a leader: the earlier leader would share a voter with it, hence be the party itself, which has
not been leading since it stood for the term. -/
theorem Inv.leader_eq_none (h : Inv members b) (hrole : b.role c = .standing)
    (hel : Elected members b c (b.term c)) : b.leader (b.term c) = none := by
  cases hl : b.leader (b.term c) with
  | none => rfl
  | some a =>
    obtain ⟨Q, hQ, hvQ⟩ := hel
    obtain ⟨Q', hQ', hvQ'⟩ := h.elected _ _ hl
    obtain ⟨u, hu, hu'⟩ := hQ.inter hQ'
    have hac : a = c := by
      have h₁ := hvQ u hu
      rw [hvQ' u hu'] at h₁
      exact Option.some.inj h₁
    subst hac
    exact absurd hrole (h.leader_not_standing _ _ hl rfl)

/-! ## The moves keep the invariant and only extend the history -/

theorem newVotes_campaign {P : ι → ℕ → ι → Prop} (h : P v (b.term v + 1) v) :
    NewVotes P b (b.campaign v) := by
  intro u T c hv
  by_cases hu : u = v
  · subst hu
    by_cases hT : T = b.term u + 1
    · subst hT
      obtain rfl : u = c := by simpa [campaign] using hv
      exact Or.inr h
    · exact Or.inl (by simpa [campaign, hT] using hv)
  · exact Or.inl (by simpa [campaign, hu] using hv)

theorem newVotes_vote {P : ι → ℕ → ι → Prop} (h : P v (b.term v) c) :
    NewVotes P b (b.vote v c) := by
  intro u T x hv
  by_cases hu : u = v
  · subst hu
    by_cases hT : T = b.term u
    · subst hT
      obtain rfl : c = x := by simpa [vote] using hv
      exact Or.inr h
    · exact Or.inl (by simpa [vote, hT] using hv)
  · exact Or.inl (by simpa [vote, hu] using hv)

theorem le_adopt (hT : b.term v ≤ T) : Le b (b.adopt v T) := by
  refine ⟨fun u => ?_, fun _ _ _ h => h, fun _ _ h => h⟩
  by_cases hu : u = v
  · subst hu; simpa [adopt] using hT
  · simp [adopt, hu]

theorem le_rest : Le b (b.rest v) :=
  ⟨fun _ => Nat.le_refl _, fun _ _ _ h => h, fun _ _ h => h⟩

theorem le_campaign (h : Inv members b) : Le b (b.campaign v) := by
  refine ⟨fun u => ?_, fun u T c hv => ?_, fun _ _ h => h⟩
  · by_cases hu : u = v
    · subst hu; simp [campaign]
    · simp [campaign, hu]
  · by_cases hu : u = v
    · subst hu
      have hT := h.voted_le u T c hv
      have hne : T ≠ b.term u + 1 := by omega
      simpa [campaign, hne] using hv
    · simpa [campaign, hu] using hv

theorem le_vote (hfree : b.voted v (b.term v) = none ∨ b.voted v (b.term v) = some c) :
    Le b (b.vote v c) := by
  refine ⟨fun _ => Nat.le_refl _, fun u T d hv => ?_, fun _ _ h => h⟩
  by_cases hu : u = v
  · subst hu
    by_cases hT : T = b.term u
    · subst hT
      rcases hfree with hfree | hfree
      · rw [hfree] at hv; cases hv
      · rw [hfree] at hv; simpa [vote] using hv
    · simpa [vote, hT] using hv
  · simpa [vote, hu] using hv

theorem le_lead (h : b.leader (b.term c) = none) : Le b (b.lead c) := by
  refine ⟨fun _ => Nat.le_refl _, fun _ _ _ h => h, fun T a ha => ?_⟩
  have hT : T ≠ b.term c := by
    intro hT; rw [hT, h] at ha; cases ha
  simpa [lead, hT] using ha

theorem inv_adopt (h : Inv members b) (hT : b.term v < T) : Inv members (b.adopt v T) := by
  have hle : Le b (b.adopt v T) := le_adopt (Nat.le_of_lt hT)
  have hne : ∀ u, (b.adopt v T).role u ≠ .idle → u ≠ v := by
    intro u hu he; subst he; simp [adopt] at hu
  constructor
  · intro u S c hv; exact (h.voted_le u S c hv).trans (hle.term u)
  · intro u S c hv; exact (h.voted_le_candidate u S c hv).trans (hle.term c)
  · intro u hu
    have huv := hne u hu
    simp only [adopt, update_of_ne huv] at hu ⊢
    exact h.own_vote u hu
  · intro u hu
    have huv := hne u hu
    simp only [adopt, update_of_ne huv] at hu ⊢
    exact h.term_pos u hu
  · intro S a ha; exact h.leader_pos S a ha
  · intro S a ha; exact (h.leader_le S a ha).trans (hle.term a)
  · intro S a ha hS
    by_cases hav : a = v
    · subst hav; simp [adopt]
    · simp only [adopt, update_of_ne hav] at hS ⊢
      exact h.leader_not_standing S a ha hS
  · intro S a ha; exact (h.elected S a ha).mono hle
  · intro a ha
    have hav := hne a (by rw [ha]; simp)
    simp only [adopt, update_of_ne hav] at ha ⊢
    exact h.leading a ha

theorem inv_rest (h : Inv members b) : Inv members (b.rest v) := by
  have hrole : ∀ u, (b.rest v).role u ≠ .idle → (b.rest v).role u = b.role u := by
    intro u hu
    have huv : u ≠ v := by intro he; subst he; simp [rest] at hu
    simp [rest, huv]
  constructor
  · exact h.voted_le
  · exact h.voted_le_candidate
  · intro u hu; exact h.own_vote u (by rwa [hrole u hu] at hu)
  · intro u hu; exact h.term_pos u (by rwa [hrole u hu] at hu)
  · exact h.leader_pos
  · exact h.leader_le
  · intro S a ha hS hst
    rw [hrole a (by rw [hst]; simp)] at hst
    exact h.leader_not_standing S a ha hS hst
  · exact h.elected
  · intro a ha; exact h.leading a (by rwa [hrole a (by rw [ha]; simp)] at ha)

theorem inv_campaign (h : Inv members b) : Inv members (b.campaign v) := by
  have hle : Le b (b.campaign v) := le_campaign h
  constructor
  · intro u S c hv
    by_cases hu : u = v
    · subst hu
      by_cases hS : S = b.term u + 1
      · simp [campaign, hS]
      · have hv' : b.voted u S = some c := by simpa [campaign, hS] using hv
        exact (h.voted_le u S c hv').trans (hle.term u)
    · have hv' : b.voted u S = some c := by simpa [campaign, hu] using hv
      exact (h.voted_le u S c hv').trans (hle.term u)
  · intro u S c hv
    by_cases hu : u = v
    · subst hu
      by_cases hS : S = b.term u + 1
      · have hc : c = u := by simpa [campaign, hS] using hv.symm
        subst hc; simp [campaign, hS]
      · have hv' : b.voted u S = some c := by simpa [campaign, hS] using hv
        exact (h.voted_le_candidate u S c hv').trans (hle.term c)
    · have hv' : b.voted u S = some c := by simpa [campaign, hu] using hv
      exact (h.voted_le_candidate u S c hv').trans (hle.term c)
  · intro u hu
    by_cases huv : u = v
    · subst huv; simp [campaign]
    · simp only [campaign, update_of_ne huv] at hu ⊢
      exact h.own_vote u hu
  · intro u hu
    by_cases huv : u = v
    · subst huv; simp [campaign]
    · simp only [campaign, update_of_ne huv] at hu ⊢
      exact h.term_pos u hu
  · intro S a ha; exact h.leader_pos S a ha
  · intro S a ha; exact (h.leader_le S a ha).trans (hle.term a)
  · intro S a ha hS
    by_cases hav : a = v
    · subst hav
      have := h.leader_le S a ha
      simp only [campaign, update_self] at hS
      omega
    · simp only [campaign, update_of_ne hav] at hS ⊢
      exact h.leader_not_standing S a ha hS
  · intro S a ha; exact (h.elected S a ha).mono hle
  · intro a ha
    by_cases hav : a = v
    · subst hav; simp [campaign] at ha
    · simp only [campaign, update_of_ne hav] at ha ⊢
      exact h.leading a ha

theorem inv_vote (h : Inv members b)
    (hfree : b.voted v (b.term v) = none ∨ b.voted v (b.term v) = some c)
    (hc : b.term v ≤ b.term c) : Inv members (b.vote v c) := by
  have hle : Le b (b.vote v c) := le_vote hfree
  have hcases : ∀ u S d, (b.vote v c).voted u S = some d →
      b.voted u S = some d ∨ (u = v ∧ S = b.term v ∧ d = c) := by
    intro u S d hv
    by_cases hu : u = v
    · subst hu
      by_cases hS : S = b.term u
      · exact Or.inr ⟨rfl, hS, by simpa [vote, hS] using hv.symm⟩
      · exact Or.inl (by simpa [vote, hS] using hv)
    · exact Or.inl (by simpa [vote, hu] using hv)
  constructor
  · intro u S d hv
    rcases hcases u S d hv with hv | ⟨rfl, rfl, rfl⟩
    · exact h.voted_le u S d hv
    · exact Nat.le_refl _
  · intro u S d hv
    rcases hcases u S d hv with hv | ⟨rfl, rfl, rfl⟩
    · exact h.voted_le_candidate u S d hv
    · exact hc
  · intro u hu; exact hle.voted _ _ _ (h.own_vote u hu)
  · exact h.term_pos
  · exact h.leader_pos
  · exact h.leader_le
  · exact h.leader_not_standing
  · intro S a ha; exact (h.elected S a ha).mono hle
  · exact h.leading

theorem inv_lead (h : Inv members b) (hrole : b.role c = .standing)
    (hel : Elected members b c (b.term c)) : Inv members (b.lead c) := by
  have hnone := h.leader_eq_none hrole hel
  have hle : Le b (b.lead c) := le_lead hnone
  have hcases : ∀ S a, (b.lead c).leader S = some a →
      b.leader S = some a ∨ (S = b.term c ∧ a = c) := by
    intro S a ha
    by_cases hS : S = b.term c
    · exact Or.inr ⟨hS, by simpa [lead, hS] using ha.symm⟩
    · exact Or.inl (by simpa [lead, hS] using ha)
  have hold : ∀ u, (b.lead c).role u ≠ .idle → b.role u ≠ .idle := by
    intro u hu
    by_cases huc : u = c
    · subst huc; rw [hrole]; simp
    · simpa [lead, huc] using hu
  constructor
  · exact h.voted_le
  · exact h.voted_le_candidate
  · intro u hu; exact h.own_vote u (hold u hu)
  · intro u hu; exact h.term_pos u (hold u hu)
  · intro S a ha
    rcases hcases S a ha with ha | ⟨rfl, rfl⟩
    · exact h.leader_pos S a ha
    · exact h.term_pos a (by rw [hrole]; simp)
  · intro S a ha
    rcases hcases S a ha with ha | ⟨rfl, rfl⟩
    · exact h.leader_le S a ha
    · exact Nat.le_refl _
  · intro S a ha hS
    by_cases hac : a = c
    · subst hac; simp [lead]
    · rcases hcases S a ha with ha | ⟨_, hac'⟩
      · simp only [lead, update_of_ne hac]
        exact h.leader_not_standing S a ha hS
      · exact absurd hac' hac
  · intro S a ha
    rcases hcases S a ha with ha | ⟨rfl, rfl⟩
    · exact (h.elected S a ha).mono hle
    · exact hel
  · intro a ha
    by_cases hac : a = c
    · subst hac; simp [lead]
    · have ha' : b.role a = .leading := by simpa [lead, hac] using ha
      exact hle.leader _ _ (h.leading a ha')

end Ballot

end Voting
