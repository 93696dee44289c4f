import MetalRaft.Ballot
import Mathlib.Data.List.Infix

/-!
# Logs and ledgers

Entries carry the term in which they were made, and each term has a ledger: the log of its leader,
as long as it has become.

* `Agree` — two lists have the same first `m` elements.
* `Rooted` — every beginning of a log that ends in an entry of term `T` is a beginning of the
  ledger of `T`; `Rooted.matching` is log matching.
* `Replicated` — a ballot with logs and ledgers and, as history, the logs with which parties
  stood for a term, the length of a ledger when its leader won, and what was acknowledged.
* `Replicated.Inv` — kept by every move, whatever is accepted as long as it comes out of the
  ledger of the party's term.
-/

set_option autoImplicit false

namespace Voting

open Function

/-- Entries that carry the term in which they were made. -/
class Stamped (ε : Type) where
  stamp : ε → ℕ

open Stamped

/-! ## Common beginnings -/

section

variable {α : Type} {m k i : ℕ} {l l' l'' : List α} {x : α}

/-- The first `m` elements, or all there are, are the same. -/
def Agree (m : ℕ) (l l' : List α) : Prop := l.take m = l'.take m

theorem Agree.refl (m : ℕ) (l : List α) : Agree m l l := rfl

theorem Agree.zero (l l' : List α) : Agree 0 l l' := rfl

theorem Agree.symm (h : Agree m l l') : Agree m l' l := Eq.symm h

theorem Agree.trans (h : Agree m l l') (h' : Agree m l' l'') : Agree m l l'' := Eq.trans h h'

theorem Agree.mono (hk : k ≤ m) (h : Agree m l l') : Agree k l l' := by
  unfold Agree at *
  rw [← Nat.min_eq_left hk, ← List.take_take, ← List.take_take, h]

theorem Agree.le_length (h : Agree m l l') (hm : m ≤ l'.length) : m ≤ l.length := by
  have hlen := congrArg List.length h
  simp only [List.length_take] at hlen
  omega

theorem Agree.getElem? (h : Agree m l l') (hi : i < m) : l[i]? = l'[i]? := by
  have heq := congrArg (·[i]?) h
  simpa only [List.getElem?_take_of_lt hi] using heq

theorem agree_take (h : m ≤ k) (l : List α) : Agree m (l.take k) l := by
  unfold Agree
  rw [List.take_take, Nat.min_eq_left h]

theorem agree_of_isPrefix (h : l <+: l') (hm : m ≤ l.length) : Agree m l l' := by
  obtain ⟨t, rfl⟩ := h
  exact (List.take_append_of_le_length hm).symm

theorem agree_append (hm : m ≤ l.length) : Agree m l (l ++ l') :=
  agree_of_isPrefix (List.prefix_append _ _) hm

end

/-! ## Rooted logs -/

section

variable {ε : Type} [Stamped ε] {ledger ledger' : ℕ → List ε} {l l' : List ε} {i j k T : ℕ}
  {e e' : ε}

/-- Up to any of its entries the log is the ledger of that entry's term. -/
def Rooted (ledger : ℕ → List ε) (l : List ε) : Prop :=
  ∀ j e, l[j]? = some e → Agree (j + 1) l (ledger (stamp e))

theorem Rooted.nil (ledger : ℕ → List ε) : Rooted ledger [] := by
  intro j e he
  simp at he

theorem Rooted.take (h : Rooted ledger l) (k : ℕ) : Rooted ledger (l.take k) := by
  intro j e he
  rw [List.getElem?_take] at he
  split at he
  · rename_i hj
    exact (agree_take hj l).trans (h j e he)
  · cases he

/-- **Log matching**: two logs with entries of one term at the same index begin alike. -/
theorem Rooted.matching (h : Rooted ledger l) (h' : Rooted ledger l') (he : l[j]? = some e)
    (he' : l'[j]? = some e') (hstamp : stamp e = stamp e') : Agree (j + 1) l l' := by
  have hroot := h j e he
  rw [hstamp] at hroot
  exact hroot.trans (h' j e' he').symm

theorem Rooted.getElem?_ledger (h : Rooted ledger l) (he : l[j]? = some e) :
    (ledger (stamp e))[j]? = some e := by
  rw [← (h j e he).getElem? (Nat.lt_succ_self j)]
  exact he

theorem Rooted.mono (hle : ∀ T, ledger T <+: ledger' T) (h : Rooted ledger l) :
    Rooted ledger' l := by
  intro j e he
  have hlen : j + 1 ≤ (ledger (stamp e)).length :=
    (List.getElem?_eq_some_iff.mp (h.getElem?_ledger he)).1
  exact (h j e he).trans (agree_of_isPrefix (hle _) hlen)

/-- Stamps do not go down along a rooted log. -/
theorem Rooted.stamp_le (h : Rooted ledger l) (hledger : ∀ T, ∀ e ∈ ledger T, stamp e ≤ T)
    (he : l[i]? = some e) (he' : l[j]? = some e') (hij : i ≤ j) : stamp e ≤ stamp e' := by
  refine hledger _ _ (List.mem_of_getElem? (i := i) ?_)
  rw [← (h j e' he').getElem? (Nat.lt_succ_of_le hij)]
  exact he

omit [Stamped ε] in
theorem update_prefix (h : ledger T <+: l) (S : ℕ) : ledger S <+: update ledger T l S := by
  by_cases hS : S = T
  · subst hS; simpa using h
  · simp [hS]

end

/-! ## Replicated logs -/

/-- The state of a replicated log, with its history: `bid v T` is the log with which `v` stood for
term `T`, `start T` the length of the ledger when the leader of `T` won, and `acked v T` how much
of the ledger of `T` party `v` has acknowledged while in term `T`. -/
structure Replicated (ι ε : Type) where
  ballot : Ballot ι
  log : ι → List ε
  ledger : ℕ → List ε
  start : ℕ → ℕ
  bid : ι → ℕ → List ε
  acked : ι → ℕ → ℕ

namespace Replicated

variable {ι ε : Type} [DecidableEq ι]

def init : Replicated ι ε :=
  ⟨Ballot.init, fun _ => [], fun _ => [], fun _ => 0, fun _ _ => [], fun _ _ => 0⟩

def adopt (g : Replicated ι ε) (v : ι) (T : ℕ) : Replicated ι ε :=
  { g with ballot := g.ballot.adopt v T }

def rest (g : Replicated ι ε) (v : ι) : Replicated ι ε := { g with ballot := g.ballot.rest v }

/-- `v` stands for the next term with the log that it has. -/
def campaign (g : Replicated ι ε) (v : ι) : Replicated ι ε :=
  { g with
    ballot := g.ballot.campaign v
    bid := update g.bid v (update (g.bid v) (g.ballot.term v + 1) (g.log v)) }

def vote (g : Replicated ι ε) (v c : ι) : Replicated ι ε :=
  { g with ballot := g.ballot.vote v c }

/-- `v` acknowledges that it holds the first `m` entries of its term's ledger. -/
def ack (g : Replicated ι ε) (v : ι) (m : ℕ) : Replicated ι ε :=
  { g with
    acked := update g.acked v
      (update (g.acked v) (g.ballot.term v) (max (g.acked v (g.ballot.term v)) m)) }

/-- `c` becomes the leader of its term; its log is the ledger from now on. -/
def lead (g : Replicated ι ε) (c : ι) : Replicated ι ε :=
  { g with
    ballot := g.ballot.lead c
    ledger := update g.ledger (g.ballot.term c) (g.log c)
    start := update g.start (g.ballot.term c) (g.log c).length
    acked := update g.acked c (update (g.acked c) (g.ballot.term c) (g.log c).length) }

/-- The leader `v` makes an entry. -/
def append (g : Replicated ι ε) (v : ι) (e : ε) : Replicated ι ε :=
  { g with
    log := update g.log v (g.log v ++ [e])
    ledger := update g.ledger (g.ballot.term v) (g.log v ++ [e])
    acked := update g.acked v (update (g.acked v) (g.ballot.term v) ((g.log v).length + 1)) }

/-- `v` takes over the first `k` entries of its term's ledger. -/
def accept (g : Replicated ι ε) (v : ι) (k : ℕ) : Replicated ι ε :=
  { g with log := update g.log v ((g.ledger (g.ballot.term v)).take k) }

variable [Stamped ε]

structure Inv (members : Finset ι) (g : Replicated ι ε) : Prop where
  ballot : g.ballot.Inv members
  log : ∀ v, Rooted g.ledger (g.log v)
  ledger : ∀ T, Rooted g.ledger (g.ledger T)
  log_stamp : ∀ v, ∀ e ∈ g.log v, 0 < stamp e ∧ stamp e ≤ g.ballot.term v
  ledger_stamp : ∀ T, ∀ e ∈ g.ledger T, 0 < stamp e ∧ stamp e ≤ T
  unled : ∀ T, g.ballot.leader T = none → g.ledger T = []
  leading : ∀ v, g.ballot.role v = .leading → g.ledger (g.ballot.term v) = g.log v
  start_le : ∀ T, g.start T ≤ (g.ledger T).length
  acked_le : ∀ v T, g.acked v T ≤ (g.ledger T).length
  acked_future : ∀ v T, g.ballot.term v < T → g.acked v T = 0

/-- Histories only grow; what a party acknowledged in a term it has left is final. -/
structure Le (g g' : Replicated ι ε) : Prop where
  ballot : Ballot.Le g.ballot g'.ballot
  ledger : ∀ T, g.ledger T <+: g'.ledger T
  start : ∀ T a, g.ballot.leader T = some a → g'.start T = g.start T
  bid : ∀ v T, T ≤ g.ballot.term v → g'.bid v T = g.bid v T
  acked : ∀ v T, g.acked v T ≤ g'.acked v T
  acked_past : ∀ v T, T < g.ballot.term v → g'.acked v T = g.acked v T

variable {members : Finset ι} {g g' g₁ g₂ g₃ : Replicated ι ε} {b : Ballot ι} {v c a : ι}
  {T k m : ℕ} {e : ε}

omit [DecidableEq ι] [Stamped ε] in
theorem Le.refl (g : Replicated ι ε) : Le g g :=
  ⟨Ballot.Le.refl _, fun _ => List.prefix_refl _, fun _ _ _ => rfl, fun _ _ _ => rfl,
    fun _ _ => Nat.le_refl _, fun _ _ _ => rfl⟩

omit [DecidableEq ι] [Stamped ε] in
theorem Le.trans (h : Le g₁ g₂) (h' : Le g₂ g₃) : Le g₁ g₃ := by
  refine ⟨h.ballot.trans h'.ballot, fun T => (h.ledger T).trans (h'.ledger T),
    fun T a ha => ?_, fun v T hT => ?_, fun v T => (h.acked v T).trans (h'.acked v T),
    fun v T hT => ?_⟩
  · rw [h'.start T a (h.ballot.leader T a ha), h.start T a ha]
  · rw [h'.bid v T (hT.trans (h.ballot.term v)), h.bid v T hT]
  · rw [h'.acked_past v T (Nat.lt_of_lt_of_le hT (h.ballot.term v)), h.acked_past v T hT]

omit [DecidableEq ι] in
theorem inv_init : Inv members (init : Replicated ι ε) := by
  refine ⟨Ballot.inv_init, fun _ => Rooted.nil _, fun _ => Rooted.nil _, ?_, ?_, fun _ _ => rfl,
    fun _ _ => rfl, fun _ => Nat.le_refl _, fun _ _ => Nat.zero_le _, fun _ _ _ => rfl⟩ <;>
    simp [init]

omit [DecidableEq ι] in
/-- An entry of a term is made by a leader of the term. -/
theorem Inv.exists_leader (h : Inv members g) (hne : g.ledger T ≠ []) :
    ∃ a, g.ballot.leader T = some a := by
  cases hl : g.ballot.leader T with
  | none => exact absurd (h.unled T hl) hne
  | some a => exact ⟨a, rfl⟩

/-! ## The moves keep the invariant and only extend the history -/

omit [DecidableEq ι] [Stamped ε] in
theorem le_withBallot (hle : Ballot.Le g.ballot b) : Le g { g with ballot := b } :=
  ⟨hle, fun _ => List.prefix_refl _, fun _ _ _ => rfl, fun _ _ _ => rfl, fun _ _ => Nat.le_refl _,
    fun _ _ _ => rfl⟩

omit [DecidableEq ι] in
/-- A move of the ballot alone, after which no party leads that did not lead before. -/
theorem inv_withBallot (h : Inv members g) (hb : b.Inv members) (hle : Ballot.Le g.ballot b)
    (hleading : ∀ v, b.role v = .leading →
      g.ballot.role v = .leading ∧ b.term v = g.ballot.term v) :
    Inv members { g with ballot := b } := by
  refine ⟨hb, h.log, h.ledger, fun v e he => ?_, h.ledger_stamp, fun T hT => h.unled T ?_,
    fun v hv => ?_, h.start_le, h.acked_le, fun v T hT => h.acked_future v T
      (Nat.lt_of_le_of_lt (hle.term v) hT)⟩
  · obtain ⟨hpos, hle'⟩ := h.log_stamp v e he
    exact ⟨hpos, hle'.trans (hle.term v)⟩
  · cases hl : g.ballot.leader T with
    | none => rfl
    | some a => rw [hle.leader T a hl] at hT; cases hT
  · obtain ⟨hrole, hterm⟩ := hleading v hv
    simp only [hterm]
    exact h.leading v hrole

omit [Stamped ε] in
theorem le_adopt (hT : g.ballot.term v ≤ T) : Le g (g.adopt v T) :=
  le_withBallot (Ballot.le_adopt hT)

theorem inv_adopt (h : Inv members g) (hT : g.ballot.term v < T) : Inv members (g.adopt v T) := by
  refine inv_withBallot h (Ballot.inv_adopt h.ballot hT) (Ballot.le_adopt (Nat.le_of_lt hT))
    fun u hu => ?_
  by_cases huv : u = v
  · subst huv; simp [Ballot.adopt] at hu
  · simpa [Ballot.adopt, huv] using hu

omit [Stamped ε] in
theorem le_rest : Le g (g.rest v) := le_withBallot Ballot.le_rest

theorem inv_rest (h : Inv members g) : Inv members (g.rest v) := by
  refine inv_withBallot h (Ballot.inv_rest h.ballot) Ballot.le_rest fun u hu => ?_
  by_cases huv : u = v
  · subst huv; simp [Ballot.rest] at hu
  · simpa [Ballot.rest, huv] using hu

theorem le_campaign (h : Inv members g) : Le g (g.campaign v) := by
  refine ⟨Ballot.le_campaign h.ballot, fun _ => List.prefix_refl _, fun _ _ _ => rfl,
    fun u T hT => ?_, fun _ _ => Nat.le_refl _, fun _ _ _ => rfl⟩
  by_cases huv : u = v
  · subst huv
    have hne : T ≠ g.ballot.term u + 1 := by omega
    simp [campaign, hne]
  · simp [campaign, huv]

theorem inv_campaign (h : Inv members g) : Inv members (g.campaign v) := by
  have hb := inv_withBallot h (Ballot.inv_campaign (v := v) h.ballot)
    (Ballot.le_campaign h.ballot) fun u hu => by
      by_cases huv : u = v
      · subst huv; simp [Ballot.campaign] at hu
      · simpa [Ballot.campaign, huv] using hu
  exact ⟨hb.ballot, hb.log, hb.ledger, hb.log_stamp, hb.ledger_stamp, hb.unled, hb.leading,
    hb.start_le, hb.acked_le, hb.acked_future⟩

omit [Stamped ε] in
theorem le_vote (hfree : g.ballot.voted v (g.ballot.term v) = none ∨
    g.ballot.voted v (g.ballot.term v) = some c) : Le g (g.vote v c) :=
  le_withBallot (Ballot.le_vote hfree)

theorem inv_vote (h : Inv members g) (hfree : g.ballot.voted v (g.ballot.term v) = none ∨
    g.ballot.voted v (g.ballot.term v) = some c) (hc : g.ballot.term v ≤ g.ballot.term c) :
    Inv members (g.vote v c) :=
  inv_withBallot h (Ballot.inv_vote h.ballot hfree hc) (Ballot.le_vote hfree)
    fun _ hu => ⟨hu, rfl⟩

omit [Stamped ε] in
theorem le_ack : Le g (g.ack v m) := by
  refine ⟨Ballot.Le.refl _, fun _ => List.prefix_refl _, fun _ _ _ => rfl, fun _ _ _ => rfl,
    fun u T => ?_, fun u T hT => ?_⟩ <;> by_cases huv : u = v
  · subst huv
    by_cases hT : T = g.ballot.term u
    · subst hT; simp [ack]
    · simp [ack, hT]
  · simp [ack, huv]
  · subst huv
    have hne : T ≠ g.ballot.term u := Nat.ne_of_lt hT
    simp [ack, hne]
  · simp [ack, huv]

theorem inv_ack (h : Inv members g) (hm : m ≤ (g.ledger (g.ballot.term v)).length) :
    Inv members (g.ack v m) := by
  refine ⟨h.ballot, h.log, h.ledger, h.log_stamp, h.ledger_stamp, h.unled, h.leading, h.start_le,
    fun u T => ?_, fun u T hT => ?_⟩ <;> by_cases huv : u = v
  · subst huv
    by_cases hT : T = g.ballot.term u
    · subst hT
      simpa [ack] using ⟨h.acked_le u _, hm⟩
    · simpa [ack, hT] using h.acked_le u T
  · simpa [ack, huv] using h.acked_le u T
  · subst huv
    have hne : T ≠ g.ballot.term u := Nat.ne_of_gt hT
    simpa [ack, hne] using h.acked_future u T hT
  · simpa [ack, huv] using h.acked_future u T hT

theorem le_lead (h : Inv members g) (hnone : g.ballot.leader (g.ballot.term c) = none) :
    Le g (g.lead c) := by
  have hacked : g.acked c (g.ballot.term c) = 0 := by
    have := h.acked_le c (g.ballot.term c)
    rw [h.unled _ hnone] at this
    exact Nat.le_zero.mp this
  refine ⟨Ballot.le_lead hnone, update_prefix (by rw [h.unled _ hnone]; exact List.nil_prefix),
    fun T a ha => ?_, fun _ _ _ => rfl, fun u T => ?_, fun u T hT => ?_⟩
  · have hne : T ≠ g.ballot.term c := by
      intro hT; rw [hT, hnone] at ha; cases ha
    simp [lead, hne]
  · by_cases huc : u = c
    · subst huc
      by_cases hT : T = g.ballot.term u
      · subst hT; rw [hacked]; exact Nat.zero_le _
      · simp [lead, hT]
    · simp [lead, huc]
  · by_cases huc : u = c
    · subst huc
      have hne : T ≠ g.ballot.term u := Nat.ne_of_lt hT
      simp [lead, hne]
    · simp [lead, huc]

theorem inv_lead (h : Inv members g) (hrole : g.ballot.role c = .standing)
    (hel : Ballot.Elected members g.ballot c (g.ballot.term c)) : Inv members (g.lead c) := by
  have hnone := h.ballot.leader_eq_none hrole hel
  have hpre : ∀ S, g.ledger S <+: (g.lead c).ledger S :=
    update_prefix (by rw [h.unled _ hnone]; exact List.nil_prefix)
  refine ⟨Ballot.inv_lead h.ballot hrole hel, fun v => (h.log v).mono hpre, fun T => ?_,
    h.log_stamp, fun T e he => ?_, fun T hT => ?_, fun v hv => ?_, fun T => ?_,
    fun v T => ?_, fun v T hT => ?_⟩
  · by_cases hT : T = g.ballot.term c
    · subst hT; simpa [lead] using (h.log c).mono hpre
    · simpa [lead, hT] using (h.ledger T).mono hpre
  · by_cases hT : T = g.ballot.term c
    · subst hT
      exact h.log_stamp c e (by simpa [lead] using he)
    · exact h.ledger_stamp T e (by simpa [lead, hT] using he)
  · have hne : T ≠ g.ballot.term c := by
      intro heq; subst heq; simp [lead, Ballot.lead] at hT
    have hT' : g.ballot.leader T = none := by simpa [lead, Ballot.lead, hne] using hT
    simp [lead, hne, h.unled T hT']
  · by_cases hvc : v = c
    · subst hvc; simp [lead, Ballot.lead]
    · have hv' : g.ballot.role v = .leading := by simpa [lead, Ballot.lead, hvc] using hv
      have hne : g.ballot.term v ≠ g.ballot.term c := by
        intro heq
        have := h.ballot.leading v hv'
        rw [heq, hnone] at this
        cases this
      simpa [lead, Ballot.lead, hne] using h.leading v hv'
  · by_cases hT : T = g.ballot.term c
    · subst hT; simp [lead]
    · simpa [lead, hT] using h.start_le T
  · by_cases hvc : v = c
    · subst hvc
      by_cases hT : T = g.ballot.term v
      · subst hT; simp [lead]
      · simpa [lead, hT] using h.acked_le v T
    · have hle := (h.acked_le v T).trans (hpre T).length_le
      simpa [lead, hvc] using hle
  · have hT' : g.ballot.term v < T := hT
    by_cases hvc : v = c
    · subst hvc
      have hne : T ≠ g.ballot.term v := Nat.ne_of_gt hT'
      simpa [lead, hne] using h.acked_future v T hT'
    · simpa [lead, hvc] using h.acked_future v T hT'

theorem le_append (h : Inv members g) (hrole : g.ballot.role v = .leading) :
    Le g (g.append v e) := by
  have hacked : g.acked v (g.ballot.term v) ≤ (g.log v).length := by
    rw [← h.leading v hrole]
    exact h.acked_le v _
  refine ⟨Ballot.Le.refl _,
    update_prefix (by rw [h.leading v hrole]; exact List.prefix_append _ _),
    fun _ _ _ => rfl, fun _ _ _ => rfl, fun u T => ?_, fun u T hT => ?_⟩ <;> by_cases huv : u = v
  · subst huv
    by_cases hT : T = g.ballot.term u
    · subst hT; simp [append]; omega
    · simp [append, hT]
  · simp [append, huv]
  · subst huv
    have hne : T ≠ g.ballot.term u := Nat.ne_of_lt hT
    simp [append, hne]
  · simp [append, huv]

/-- The leader's entry ends both its log and its ledger. -/
theorem inv_append (h : Inv members g) (hrole : g.ballot.role v = .leading)
    (he : stamp e = g.ballot.term v) : Inv members (g.append v e) := by
  have hledger := h.leading v hrole
  have hpos : 0 < g.ballot.term v := h.ballot.term_pos v (by rw [hrole]; simp)
  have hpre : ∀ S, g.ledger S <+: (g.append v e).ledger S :=
    update_prefix (by rw [hledger]; exact List.prefix_append _ _)
  have hnew : Rooted (g.append v e).ledger (g.log v ++ [e]) := by
    intro j x hx
    by_cases hj : j < (g.log v).length
    · rw [List.getElem?_append_left hj] at hx
      exact (agree_append (Nat.succ_le_of_lt hj)).symm.trans ((h.log v).mono hpre j x hx)
    · have hxe : x = e := by
        rw [List.getElem?_append_right (Nat.not_lt.mp hj)] at hx
        simpa using List.mem_of_getElem? hx
      rw [hxe, he]
      simp [append, Agree]
  have hstamp : ∀ x ∈ g.log v ++ [e], 0 < stamp x ∧ stamp x ≤ g.ballot.term v := by
    intro x hx
    rcases List.mem_append.mp hx with hx | hx
    · exact h.log_stamp v x hx
    · rw [List.mem_singleton.mp hx, he]; exact ⟨hpos, Nat.le_refl _⟩
  refine ⟨h.ballot, fun u => ?_, fun T => ?_, fun u x hx => ?_, fun T x hx => ?_, fun T hT => ?_,
    fun u hu => ?_, fun T => (h.start_le T).trans (hpre T).length_le, fun u T => ?_,
    fun u T hT => ?_⟩
  · by_cases huv : u = v
    · subst huv; simpa [append] using hnew
    · simpa [append, huv] using (h.log u).mono hpre
  · by_cases hT : T = g.ballot.term v
    · subst hT; simpa [append] using hnew
    · simpa [append, hT] using (h.ledger T).mono hpre
  · by_cases huv : u = v
    · subst huv; exact hstamp x (by simpa [append] using hx)
    · exact h.log_stamp u x (by simpa [append, huv] using hx)
  · by_cases hT : T = g.ballot.term v
    · subst hT; exact hstamp x (by simpa [append] using hx)
    · exact h.ledger_stamp T x (by simpa [append, hT] using hx)
  · have hne : T ≠ g.ballot.term v := by
      intro heq
      have hl : g.ballot.leader T = none := hT
      rw [heq, h.ballot.leading v hrole] at hl
      cases hl
    simpa [append, hne] using h.unled T hT
  · by_cases huv : u = v
    · subst huv; simp [append]
    · have hu' : g.ballot.role u = .leading := hu
      have hne : g.ballot.term u ≠ g.ballot.term v := by
        intro heq
        have hl := h.ballot.leading u hu'
        rw [heq, h.ballot.leading v hrole] at hl
        exact huv (Option.some.inj hl).symm
      simpa [append, huv, hne] using h.leading u hu'
  · by_cases huv : u = v
    · subst huv
      by_cases hT : T = g.ballot.term u
      · subst hT; simp [append]
      · simpa [append, hT] using h.acked_le u T
    · have hle := (h.acked_le u T).trans (hpre T).length_le
      simpa [append, huv] using hle
  · have hT' : g.ballot.term u < T := hT
    by_cases huv : u = v
    · subst huv
      have hne : T ≠ g.ballot.term u := Nat.ne_of_gt hT'
      simpa [append, hne] using h.acked_future u T hT'
    · simpa [append, huv] using h.acked_future u T hT'

omit [Stamped ε] in
theorem le_accept : Le g (g.accept v k) :=
  ⟨Ballot.Le.refl _, fun _ => List.prefix_refl _, fun _ _ _ => rfl, fun _ _ _ => rfl,
    fun _ _ => Nat.le_refl _, fun _ _ _ => rfl⟩

theorem inv_accept (h : Inv members g) (hrole : g.ballot.role v ≠ .leading) :
    Inv members (g.accept v k) := by
  refine ⟨h.ballot, fun u => ?_, h.ledger, fun u e he => ?_, h.ledger_stamp, h.unled,
    fun u hu => ?_, h.start_le, h.acked_le, h.acked_future⟩ <;> by_cases huv : u = v
  · subst huv; simpa [accept] using (h.ledger _).take k
  · simpa [accept, huv] using h.log u
  · subst huv
    exact h.ledger_stamp _ e (List.mem_of_mem_take (by simpa [accept] using he))
  · exact h.log_stamp u e (by simpa [accept, huv] using he)
  · subst huv; exact absurd hu hrole
  · simpa [accept, huv] using h.leading u hu

end Replicated

end Voting
