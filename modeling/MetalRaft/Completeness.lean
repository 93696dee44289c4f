import MetalRaft.Ledger

/-!
# Leader completeness

What a majority has acknowledged of the ledger of a term is part of every later ledger, provided
that parties vote for up-to-date logs only and that no party gives up what it has acknowledged.

* `Dead` — a majority can no longer come to acknowledge so much of a ledger.
* `Sound` — the invariant: what is acknowledged stays in logs, in the logs voters have approved
  and in later ledgers, unless it is dead.
* `Chosen` and `Chosen.agree` — beginnings of ledgers that a majority has acknowledged are
  beginnings of each other.
* `Known` — a beginning of a list that is known to be chosen, in any term up to a given one.
* `Advances` — growth of the whole state that keeps what is known of logs.
-/

set_option autoImplicit false

namespace Voting

open Function Stamped

namespace Replicated

variable {ι ε : Type} [DecidableEq ι] [Stamped ε]

/-- The stamp of the last entry. -/
def lastStamp (l : List ε) : ℕ := (l.getLast?.map stamp).getD 0

/-- The log `b` of a candidate is good enough for a voter with log `l`. -/
def UpToDate (b l : List ε) : Prop :=
  lastStamp l < lastStamp b ∨ (lastStamp b = lastStamp l ∧ l.length ≤ b.length)

omit [DecidableEq ι] in
variable (members : Finset ι) (g : Replicated ι ε) in
/-- Every majority has a member that has left term `T` with less than `m` acknowledged. -/
def Dead (T m : ℕ) : Prop :=
  ∀ Q, IsMajority members Q → ∃ u ∈ Q, T < g.ballot.term u ∧ g.acked u T < m

structure Sound (members : Finset ι) (g : Replicated ι ε) : Prop where
  stamp_start : ∀ T j e, (g.ledger T)[j]? = some e → (stamp e < T ↔ j < g.start T)
  bid_rooted : ∀ v T, Rooted g.ledger (g.bid v T)
  standing : ∀ v, g.ballot.role v = .standing → g.ballot.leader (g.ballot.term v) = none →
    g.bid v (g.ballot.term v) = g.log v
  own : ∀ v, Agree (g.acked v (g.ballot.term v)) (g.log v) (g.ledger (g.ballot.term v))
  kept : ∀ v T m, g.start T < m → m ≤ g.acked v T →
    Dead members g T m ∨ Agree m (g.log v) (g.ledger T)
  votes : ∀ v T' c, g.ballot.voted v T' = some c → ∀ T < T', ∀ m, g.start T < m →
    m ≤ g.acked v T → Dead members g T m ∨ Agree m (g.bid c T') (g.ledger T)
  later : ∀ T T' a, g.ballot.leader T' = some a → T < T' → ∀ m, g.start T < m →
    m ≤ (g.ledger T).length →
    Dead members g T m ∨ (m ≤ g.start T' ∧ Agree m (g.ledger T') (g.ledger T))

variable {members : Finset ι} {g g' : Replicated ι ε} {b : Ballot ι} {v c a : ι}
  {T T' k m : ℕ} {e : ε} {l l' : List ε}

omit [DecidableEq ι] [Stamped ε] in
theorem Dead.mono (hle : Le g g') (h : Dead members g T m) : Dead members g' T m := by
  intro Q hQ
  obtain ⟨u, hu, hterm, hacked⟩ := h Q hQ
  refine ⟨u, hu, Nat.lt_of_lt_of_le hterm (hle.ballot.term u), ?_⟩
  rw [hle.acked_past u T hterm]
  exact hacked

omit [DecidableEq ι] in
theorem sound_init : Sound members (init : Replicated ι ε) := by
  constructor
  · intro _ _ _ he; simp [init] at he
  · intro _ _; exact Rooted.nil _
  · intro _ hv; cases hv
  · intro _; rfl
  · intro _ _ _ hm hle; simp [init] at hm hle; omega
  · intro _ _ _ hv; cases hv
  · intro _ _ _ ha; cases ha

omit [DecidableEq ι] in
/-- What agrees with a ledger beyond its start ends in an entry of its term. -/
theorem Sound.stamp_eq (h : Sound members g) (hi : Inv members g) (hm : g.start T < m)
    (hle : m ≤ (g.ledger T).length) :
    ∃ e, (g.ledger T)[m - 1]? = some e ∧ stamp e = T := by
  have hlt : m - 1 < (g.ledger T).length := by omega
  refine ⟨_, List.getElem?_eq_getElem hlt, ?_⟩
  have hstamp := (h.stamp_start T (m - 1) _ (List.getElem?_eq_getElem hlt)).not
  have := (hi.ledger_stamp T _ (List.getElem_mem hlt)).2
  have : ¬ m - 1 < g.start T := by omega
  omega

/-! ## Voting for up-to-date logs -/

omit [DecidableEq ι] in
theorem exists_last (h : 0 < lastStamp l) :
    ∃ e, l[l.length - 1]? = some e ∧ stamp e = lastStamp l := by
  unfold lastStamp at h ⊢
  rw [List.getLast?_eq_getElem?] at h ⊢
  cases he : l[l.length - 1]? with
  | none => rw [he] at h; simp at h
  | some e => exact ⟨e, rfl, rfl⟩

omit [DecidableEq ι] in
/-- **An up-to-date log has what its voter acknowledged**, where that can still count. -/
theorem Sound.upToDate (h : Sound members g) (hi : Inv members g) (hb : Rooted g.ledger l)
    (hup : UpToDate l (g.log v)) (hm : g.start T < m) (hle : m ≤ g.acked v T) :
    Dead members g T m ∨ Agree m l (g.ledger T) := by
  have hlen := hle.trans (hi.acked_le v T)
  rcases h.kept v T m hm hle with hdead | hkept
  · exact Or.inl hdead
  obtain ⟨e, he, hstamp⟩ := h.stamp_eq hi hm hlen
  have hmlog : m ≤ (g.log v).length := hkept.le_length hlen
  have hev : (g.log v)[m - 1]? = some e := by
    rw [hkept.getElem? (by omega)]
    exact he
  have hTpos : 0 < T := by
    rw [← hstamp]
    exact (hi.ledger_stamp T e (List.mem_of_getElem? he)).1
  -- the last stamp of the voter is at least `T`
  have hlast : T ≤ lastStamp (g.log v) := by
    have hget : (g.log v)[(g.log v).length - 1]? = some ((g.log v)[(g.log v).length - 1]) :=
      List.getElem?_eq_getElem (by omega)
    have hmono := (hi.log v).stamp_le (fun T e he => (hi.ledger_stamp T e he).2) hev hget
      (by omega)
    unfold lastStamp
    rw [List.getLast?_eq_getElem?, hget]
    simp only [Option.map_some, Option.getD_some]
    omega
  obtain ⟨f, hf, hfstamp⟩ := exists_last (l := l) (by rcases hup with hup | hup <;> omega)
  have hroot : Agree (l.length - 1 + 1) l (g.ledger (stamp f)) := hb _ f hf
  have hlpos : l.length - 1 < l.length := (List.getElem?_eq_some_iff.mp hf).1
  by_cases hs : stamp f = T
  · right
    rw [hs] at hroot
    refine hroot.mono ?_
    rcases hup with hup | hup <;> omega
  · have hTs : T < stamp f := by rcases hup with hup | hup <;> omega
    have hfledger := hb.getElem?_ledger hf
    obtain ⟨a, ha⟩ := hi.exists_leader (T := stamp f) (by
      intro hnil; rw [hnil] at hfledger; simp at hfledger)
    refine (h.later T _ a ha hTs m hm hlen).imp id fun hlater => ?_
    obtain ⟨hstart, hagree⟩ := hlater
    have := (h.stamp_start _ _ f hfledger).not.mp (Nat.lt_irrefl _)
    exact (hroot.mono (by omega)).trans hagree

/-! ## The moves keep soundness -/

omit [DecidableEq ι] in
theorem sound_withBallot (h : Sound members g) (hi : Inv members g)
    (hle : Ballot.Le g.ballot b)
    (hvoted : ∀ v T' c, b.voted v T' = some c → g.ballot.voted v T' = some c)
    (hleader : b.leader = g.ballot.leader)
    (hstanding : ∀ v, b.role v = .standing →
      g.ballot.role v = .standing ∧ b.term v = g.ballot.term v) :
    Sound members { g with ballot := b } := by
  have hLe : Le g { g with ballot := b } := le_withBallot hle
  refine ⟨h.stamp_start, h.bid_rooted, fun v hv hnone => ?_, fun v => ?_,
    fun v T m hm hack => (h.kept v T m hm hack).imp (Dead.mono hLe) id,
    fun v T' c hv T hT m hm hack =>
      (h.votes v T' c (hvoted v T' c hv) T hT m hm hack).imp (Dead.mono hLe) id,
    fun T T' a ha hT m hm hlen => ?_⟩
  · obtain ⟨hrole, hterm⟩ := hstanding v hv
    simp only [hterm, hleader] at hnone ⊢
    exact h.standing v hrole hnone
  · by_cases hterm : b.term v = g.ballot.term v
    · simp only [hterm]; exact h.own v
    · have hlt : g.ballot.term v < b.term v := lt_of_le_of_ne (hle.term v) (Ne.symm hterm)
      simp only [hi.acked_future v _ hlt]
      exact Agree.zero _ _
  · have ha' : g.ballot.leader T' = some a := by rw [← hleader]; exact ha
    exact (h.later T T' a ha' hT m hm hlen).imp (Dead.mono hLe) id

theorem sound_adopt (h : Sound members g) (hi : Inv members g) (hT : g.ballot.term v < T) :
    Sound members (g.adopt v T) := by
  refine sound_withBallot h hi (Ballot.le_adopt (Nat.le_of_lt hT)) (fun _ _ _ hv => hv) rfl
    fun u hu => ?_
  by_cases huv : u = v
  · subst huv; simp [Ballot.adopt] at hu
  · simpa [Ballot.adopt, huv] using hu

theorem sound_rest (h : Sound members g) (hi : Inv members g) : Sound members (g.rest v) := by
  refine sound_withBallot h hi Ballot.le_rest (fun _ _ _ hv => hv) rfl fun u hu => ?_
  by_cases huv : u = v
  · subst huv; simp [Ballot.rest] at hu
  · simpa [Ballot.rest, huv] using hu

theorem sound_campaign (h : Sound members g) (hi : Inv members g) :
    Sound members (g.campaign v) := by
  have hLe := le_campaign (v := v) hi
  have hbid : ∀ u S, (u = v ∧ S = g.ballot.term v + 1 ∧ (g.campaign v).bid u S = g.log v) ∨
      (g.campaign v).bid u S = g.bid u S := by
    intro u S
    by_cases hu : u = v
    · subst hu
      by_cases hS : S = g.ballot.term u + 1
      · exact Or.inl ⟨rfl, hS, by simp [campaign, hS]⟩
      · exact Or.inr (by simp [campaign, hS])
    · exact Or.inr (by simp [campaign, hu])
  refine ⟨h.stamp_start, fun u S => ?_, fun u hu hnone => ?_, fun u => ?_,
    fun u T m hm hack => (h.kept u T m hm hack).imp (Dead.mono hLe) id,
    fun u T' c hv T hT m hm hack => ?_,
    fun T T' a ha hT m hm hlen => (h.later T T' a ha hT m hm hlen).imp (Dead.mono hLe) id⟩
  · rcases hbid u S with ⟨_, _, heq⟩ | heq <;> rw [heq]
    · exact hi.log v
    · exact h.bid_rooted u S
  · by_cases huv : u = v
    · subst huv; simp [campaign, Ballot.campaign]
    · have hu' : g.ballot.role u = .standing := by simpa [campaign, Ballot.campaign, huv] using hu
      simp only [campaign, Ballot.campaign, update_of_ne huv] at hnone ⊢
      exact h.standing u hu' hnone
  · by_cases huv : u = v
    · subst huv
      have hzero : g.acked u (g.ballot.term u + 1) = 0 := hi.acked_future u _ (Nat.lt_succ_self _)
      simp only [campaign, Ballot.campaign, update_self, hzero]
      exact Agree.zero _ _
    · simp only [campaign, Ballot.campaign, update_of_ne huv]
      exact h.own u
  · have hcases : g.ballot.voted u T' = some c ∨ (u = v ∧ T' = g.ballot.term v + 1 ∧ c = v) := by
      by_cases huv : u = v
      · subst huv
        by_cases hT' : T' = g.ballot.term u + 1
        · exact Or.inr ⟨rfl, hT', by simpa [campaign, Ballot.campaign, hT'] using hv.symm⟩
        · exact Or.inl (by simpa [campaign, Ballot.campaign, hT'] using hv)
      · exact Or.inl (by simpa [campaign, Ballot.campaign, huv] using hv)
    rcases hcases with hv | ⟨rfl, rfl, rfl⟩
    · have hold := (h.votes u T' c hv T hT m hm hack).imp (Dead.mono hLe) id
      have hbound := hi.ballot.voted_le_candidate u T' c hv
      rcases hbid c T' with ⟨rfl, hT', _⟩ | heq
      · omega
      · rw [heq]; exact hold
    · rw [show (g.campaign c).bid c (g.ballot.term c + 1) = g.log c by simp [campaign]]
      exact (h.kept c T m hm hack).imp (Dead.mono hLe) id

/-- The only way to vote: for a log that is up to date. -/
theorem sound_vote (h : Sound members g) (hi : Inv members g)
    (hfree : g.ballot.voted v (g.ballot.term v) = none ∨
      g.ballot.voted v (g.ballot.term v) = some c)
    (hup : UpToDate (g.bid c (g.ballot.term v)) (g.log v)) : Sound members (g.vote v c) := by
  have hLe : Le g (g.vote v c) := le_vote hfree
  refine ⟨h.stamp_start, h.bid_rooted, h.standing, h.own,
    fun u T m hm hack => (h.kept u T m hm hack).imp (Dead.mono hLe) id,
    fun u T' x hv T hT m hm hack => ?_,
    fun T T' a ha hT m hm hlen => (h.later T T' a ha hT m hm hlen).imp (Dead.mono hLe) id⟩
  have hcases : g.ballot.voted u T' = some x ∨ (u = v ∧ T' = g.ballot.term v ∧ x = c) := by
    by_cases huv : u = v
    · subst huv
      by_cases hT' : T' = g.ballot.term u
      · exact Or.inr ⟨rfl, hT', by simpa [vote, Ballot.vote, hT'] using hv.symm⟩
      · exact Or.inl (by simpa [vote, Ballot.vote, hT'] using hv)
    · exact Or.inl (by simpa [vote, Ballot.vote, huv] using hv)
  rcases hcases with hv | ⟨rfl, rfl, rfl⟩
  · exact (h.votes u T' x hv T hT m hm hack).imp (Dead.mono hLe) id
  · exact (h.upToDate hi (h.bid_rooted _ _) hup hm hack).imp (Dead.mono hLe) id

/-- Acknowledging what the log has of the ledger. -/
theorem sound_ack (h : Sound members g)
    (hagree : Agree m (g.log v) (g.ledger (g.ballot.term v))) (hi : Inv members g) :
    Sound members (g.ack v m) := by
  have hLe : Le g (g.ack v m) := le_ack
  have hcases : ∀ u T, (g.ack v m).acked u T = g.acked u T ∨
      (u = v ∧ T = g.ballot.term v ∧ (g.ack v m).acked u T = m) := by
    intro u T
    by_cases huv : u = v
    · subst huv
      by_cases hT : T = g.ballot.term u
      · subst hT
        rcases Nat.le_total m (g.acked u (g.ballot.term u)) with hm | hm
        · exact Or.inl (by simp [ack, hm])
        · exact Or.inr ⟨rfl, rfl, by simp [ack, hm]⟩
      · exact Or.inl (by simp [ack, hT])
    · exact Or.inl (by simp [ack, huv])
  refine ⟨h.stamp_start, h.bid_rooted, h.standing, fun u => ?_,
    fun u T k hk hack => ?_, fun u T' c hv T hT k hk hack => ?_,
    fun T T' a ha hT k hk hlen => (h.later T T' a ha hT k hk hlen).imp (Dead.mono hLe) id⟩
  · show Agree ((g.ack v m).acked u (g.ballot.term u)) _ _
    rcases hcases u (g.ballot.term u) with heq | ⟨rfl, _, heq⟩ <;> rw [heq]
    · exact h.own u
    · exact hagree
  · rcases hcases u T with heq | ⟨rfl, rfl, heq⟩ <;> rw [heq] at hack
    · exact (h.kept u T k hk hack).imp (Dead.mono hLe) id
    · exact Or.inr (hagree.mono hack)
  · rcases hcases u T with heq | ⟨rfl, rfl, heq⟩
    · rw [heq] at hack
      exact (h.votes u T' c hv T hT k hk hack).imp (Dead.mono hLe) id
    · have := hi.ballot.voted_le u T' c hv
      omega

omit [DecidableEq ι] in
/-- In a term without a leader no entry has been made. -/
theorem stamp_lt_of_unled (hi : Inv members g) (hnone : g.ballot.leader (g.ballot.term c) = none)
    (he : e ∈ g.log c) : stamp e < g.ballot.term c := by
  obtain ⟨j, hj⟩ := List.mem_iff_getElem?.mp he
  have hroot := (hi.log c).getElem?_ledger hj
  refine lt_of_le_of_ne (hi.log_stamp c e he).2 fun heq => ?_
  rw [heq, hi.unled _ hnone] at hroot
  simp at hroot

/-- **A new leader has everything that a majority may have acknowledged**: one of its voters has
it as well, and approved its log. -/
theorem Sound.holds_of_elected (h : Sound members g) (hi : Inv members g)
    (hrole : g.ballot.role c = .standing)
    (hel : Ballot.Elected members g.ballot c (g.ballot.term c)) (hT : T < g.ballot.term c)
    (hm : g.start T < m) : Dead members g T m ∨ Agree m (g.log c) (g.ledger T) := by
  by_cases hdead : Dead members g T m
  · exact Or.inl hdead
  -- some majority may still acknowledge `m`; it shares a voter with the one that elected `c`
  obtain ⟨Q, hQ, hlive⟩ : ∃ Q, IsMajority members Q ∧
      ∀ u ∈ Q, T < g.ballot.term u → m ≤ g.acked u T := by
    unfold Dead at hdead
    push Not at hdead
    exact hdead
  obtain ⟨Q', hQ', hvoted⟩ := hel
  obtain ⟨u, huQ, huQ'⟩ := hQ.inter hQ'
  have hvote := hvoted u huQ'
  have hterm := hi.ballot.voted_le u _ c hvote
  have hack := hlive u huQ (Nat.lt_of_lt_of_le hT hterm)
  rw [← h.standing c hrole (hi.ballot.leader_eq_none hrole ⟨Q', hQ', hvoted⟩)]
  exact h.votes u _ c hvote T hT m hm hack

omit [Stamped ε] in
/-- Only the ledger of its own term changes when a leader begins. -/
theorem lead_other (hT : T ≠ g.ballot.term c) : (g.lead c).start T = g.start T ∧
    (g.lead c).ledger T = g.ledger T ∧ ∀ u, (g.lead c).acked u T = g.acked u T := by
  refine ⟨by simp [lead, hT], by simp [lead, hT], fun u => ?_⟩
  by_cases huc : u = c
  · subst huc; simp [lead, hT]
  · simp [lead, huc]

theorem sound_lead (h : Sound members g) (hi : Inv members g)
    (hrole : g.ballot.role c = .standing)
    (hel : Ballot.Elected members g.ballot c (g.ballot.term c)) : Sound members (g.lead c) := by
  have hnone := hi.ballot.leader_eq_none hrole hel
  have hLe : Le g (g.lead c) := le_lead hi hnone
  have hzero : ∀ u, g.acked u (g.ballot.term c) = 0 := by
    intro u
    have := hi.acked_le u (g.ballot.term c)
    rw [hi.unled _ hnone] at this
    exact Nat.le_zero.mp this
  -- the term of the new leader has nothing acknowledged beyond its start
  have hstart : (g.lead c).start (g.ballot.term c) = (g.log c).length := by simp [lead]
  have hledger : (g.lead c).ledger (g.ballot.term c) = g.log c := by simp [lead]
  have hacked : ∀ u, (g.lead c).acked u (g.ballot.term c) ≤ (g.log c).length := by
    intro u
    have := (inv_lead hi hrole hel).acked_le u (g.ballot.term c)
    rwa [hledger] at this
  refine ⟨fun T j e he => ?_, fun u T => (h.bid_rooted u T).mono hLe.ledger,
    fun u hu hl => ?_, fun u => ?_, fun u T m hm hack => ?_, fun u T' x hv T hT m hm hack => ?_,
    fun T T' a ha hT m hm hlen => ?_⟩
  · by_cases hT : T = g.ballot.term c
    · rw [hT, hledger] at he
      rw [hT, hstart]
      have := stamp_lt_of_unled hi hnone (List.mem_of_getElem? he)
      exact ⟨fun _ => (List.getElem?_eq_some_iff.mp he).1, fun _ => this⟩
    · rw [(lead_other hT).2.1] at he
      rw [(lead_other hT).1]
      exact h.stamp_start T j e he
  · by_cases huc : u = c
    · subst huc; simp [lead, Ballot.lead] at hu
    · have hu' : g.ballot.role u = .standing := by simpa [lead, Ballot.lead, huc] using hu
      have hne : g.ballot.term u ≠ g.ballot.term c := by
        intro heq
        simp [lead, Ballot.lead, heq] at hl
      have hl' : g.ballot.leader (g.ballot.term u) = none := by
        simpa [lead, Ballot.lead, hne] using hl
      exact h.standing u hu' hl'
  · show Agree ((g.lead c).acked u (g.ballot.term u)) (g.log u)
      ((g.lead c).ledger (g.ballot.term u))
    by_cases hT : g.ballot.term u = g.ballot.term c
    · by_cases huc : u = c
      · subst huc; rw [hledger]; exact Agree.refl _ _
      · rw [hT, show (g.lead c).acked u (g.ballot.term c) = 0 by simp [lead, huc, hzero u]]
        exact Agree.zero _ _
    · rw [(lead_other hT).2.1, (lead_other hT).2.2 u]; exact h.own u
  · by_cases hT : T = g.ballot.term c
    · rw [hT] at hm hack
      have := hacked u
      omega
    · rw [(lead_other hT).1] at hm
      rw [(lead_other hT).2.2 u] at hack
      rw [(lead_other hT).2.1]
      exact (h.kept u T m hm hack).imp (Dead.mono hLe) id
  · by_cases hT' : T = g.ballot.term c
    · rw [hT'] at hm hack
      have := hacked u
      omega
    · rw [(lead_other hT').1] at hm
      rw [(lead_other hT').2.2 u] at hack
      rw [(lead_other hT').2.1]
      exact (h.votes u T' x hv T hT m hm hack).imp (Dead.mono hLe) id
  · by_cases hTc : T = g.ballot.term c
    · rw [hTc, hledger] at hlen
      rw [hTc] at hm
      omega
    rw [(lead_other hTc).1] at hm
    rw [(lead_other hTc).2.1] at hlen ⊢
    by_cases hT' : T' = g.ballot.term c
    · subst hT'
      rw [hstart, hledger]
      exact (h.holds_of_elected hi hrole hel hT hm).imp (Dead.mono hLe)
        fun hagree => ⟨hagree.le_length hlen, hagree⟩
    · rw [(lead_other hT').1, (lead_other hT').2.1]
      have ha' : g.ballot.leader T' = some a := by simpa [lead, Ballot.lead, hT'] using ha
      exact (h.later T T' a ha' hT m hm hlen).imp (Dead.mono hLe) id

/-- **What a leader adds after a later leader has won is dead**: the majority behind the later leader
does not have it. -/
theorem dead_of_later_leader (hi : Inv members g) (hLe : Le g g')
    (ha : g.ballot.leader T' = some a) (hT : T < T') (hm : (g.ledger T).length < m) :
    Dead members g' T m := by
  obtain ⟨Q, hQ, hvoted⟩ := hi.ballot.elected T' a ha
  intro Q' hQ'
  obtain ⟨u, huQ, huQ'⟩ := hQ.inter hQ'
  have hterm : T < g.ballot.term u :=
    Nat.lt_of_lt_of_le hT (hi.ballot.voted_le u T' a (hvoted u huQ))
  refine ⟨u, huQ', Nat.lt_of_lt_of_le hterm (hLe.ballot.term u), ?_⟩
  rw [hLe.acked_past u T hterm]
  exact Nat.lt_of_le_of_lt (hi.acked_le u T) hm

theorem sound_append (h : Sound members g) (hi : Inv members g)
    (hrole : g.ballot.role v = .leading) (he : stamp e = g.ballot.term v) :
    Sound members (g.append v e) := by
  have hi' := inv_append hi hrole he
  have hLe : Le g (g.append v e) := le_append hi hrole
  have hlead := hi.leading v hrole
  have hstart : g.start (g.ballot.term v) ≤ (g.log v).length := by
    rw [← hlead]; exact hi.start_le _
  -- up to the old length nothing has changed in any ledger
  have hold : ∀ T m, m ≤ (g.ledger T).length →
      Agree m (g.ledger T) ((g.append v e).ledger T) := fun T m hm =>
    agree_of_isPrefix (hLe.ledger T) hm
  have hacked : ∀ u T, (g.append v e).acked u T = g.acked u T ∨
      (u = v ∧ T = g.ballot.term v) := by
    intro u T
    by_cases huv : u = v
    · subst huv
      by_cases hT : T = g.ballot.term u
      · exact Or.inr ⟨rfl, hT⟩
      · exact Or.inl (by simp [append, hT])
    · exact Or.inl (by simp [append, huv])
  have hledger : (g.append v e).ledger (g.ballot.term v) = (g.append v e).log v := by
    simp [append]
  refine ⟨fun T j x hx => ?_, fun u T => (h.bid_rooted u T).mono hLe.ledger,
    fun u hu hl => ?_, fun u => ?_,
    fun u T m hm hack => ?_, fun u T' x hv T hT m hm hack => ?_,
    fun T T' a ha hT m hm hlen => ?_⟩
  · show stamp x < T ↔ j < g.start T
    by_cases hT : T = g.ballot.term v
    · subst hT
      by_cases hj : j < (g.log v).length
      · refine h.stamp_start _ j x ?_
        rw [hlead]
        simpa [append, List.getElem?_append_left hj] using hx
      · have hxe : x = e := by
          have hx' : (g.log v ++ [e])[j]? = some x := by simpa [append] using hx
          rw [List.getElem?_append_right (Nat.not_lt.mp hj)] at hx'
          simpa using List.mem_of_getElem? hx'
        rw [hxe, he]
        omega
    · exact h.stamp_start T j x (by simpa [append, hT] using hx)
  · have hne : u ≠ v := by
      intro heq; subst heq
      rw [show (g.append u e).ballot = g.ballot from rfl, hrole] at hu
      cases hu
    simpa [append, hne] using h.standing u hu hl
  · by_cases huv : u = v
    · subst huv
      show Agree _ ((g.append u e).log u) ((g.append u e).ledger (g.ballot.term u))
      rw [hledger]
      exact Agree.refl _ _
    · have hlog : (g.append v e).log u = g.log u := by simp [append, huv]
      have hack : (g.append v e).acked u = g.acked u := by simp [append, huv]
      show Agree ((g.append v e).acked u (g.ballot.term u)) _ ((g.append v e).ledger _)
      rw [hlog, hack]
      exact (h.own u).trans (hold _ _ (hi.acked_le u _))
  · rcases hacked u T with heq | ⟨rfl, rfl⟩
    · rw [heq] at hack
      have hlen := hack.trans (hi.acked_le u T)
      refine (h.kept u T m hm hack).imp (Dead.mono hLe) fun hagree => ?_
      refine Agree.trans ?_ (hagree.trans (hold T m hlen))
      by_cases huv : u = v
      · subst huv
        simp only [append, update_self]
        exact (agree_append (hagree.le_length hlen)).symm
      · simp only [append, update_of_ne huv]
        exact Agree.refl _ _
    · right
      rw [hledger]
      exact Agree.refl _ _
  · rcases hacked u T with heq | ⟨rfl, rfl⟩
    · rw [heq] at hack
      exact (h.votes u T' x hv T hT m hm hack).imp (Dead.mono hLe)
        fun hagree => hagree.trans (hold T m (hack.trans (hi.acked_le u T)))
    · have := hi.ballot.voted_le u T' x hv
      omega
  · by_cases hm' : m ≤ (g.ledger T).length
    · refine (h.later T T' a ha hT m hm hm').imp (Dead.mono hLe) fun hlater => ?_
      obtain ⟨hstart', hagree⟩ := hlater
      exact ⟨hstart', ((hold T' m (hstart'.trans (hi.start_le T'))).symm.trans hagree).trans
        (hold T m hm')⟩
    · exact Or.inl (dead_of_later_leader hi hLe ha hT (Nat.not_le.mp hm'))

omit [DecidableEq ι] in
/-- The guard of an acceptance: it does not shorten the log, or it keeps the start of the ledger
and the log's own entries of the term. -/
def Keeps (g : Replicated ι ε) (v : ι) (k : ℕ) : Prop :=
  (g.log v).length ≤ k ∨ (g.start (g.ballot.term v) ≤ k ∧
    ∀ j e, (g.log v)[j]? = some e → stamp e = g.ballot.term v → j < k)

omit [DecidableEq ι] in
/-- What agrees with the ledger of the own term is kept. -/
theorem Keeps.le (hk : Keeps g v k) (h : Sound members g) (hi : Inv members g)
    (hagree : Agree m (g.log v) (g.ledger (g.ballot.term v)))
    (hm : m ≤ (g.ledger (g.ballot.term v)).length) : m ≤ k := by
  rcases hk with hk | ⟨hstart, hk⟩
  · exact (hagree.le_length hm).trans hk
  · by_cases hms : m ≤ g.start (g.ballot.term v)
    · exact hms.trans hstart
    · obtain ⟨e, he, hstamp⟩ := h.stamp_eq hi (Nat.not_le.mp hms) hm
      rw [← hagree.getElem? (by omega)] at he
      have := hk _ e he hstamp
      omega

theorem sound_accept (h : Sound members g) (hi : Inv members g)
    (hleader : g.ballot.leader (g.ballot.term v) = some a) (hk : Keeps g v k) :
    Sound members (g.accept v k) := by
  have hLe : Le g (g.accept v k) := le_accept
  have hown : g.acked v (g.ballot.term v) ≤ k := hk.le h hi (h.own v) (hi.acked_le v _)
  refine ⟨h.stamp_start, h.bid_rooted, fun u hu hl => ?_, fun u => ?_,
    fun u T m hm hack => ?_,
    fun u T' c hv T hT m hm hack => (h.votes u T' c hv T hT m hm hack).imp (Dead.mono hLe) id,
    fun T T' a ha hT m hm hlen => (h.later T T' a ha hT m hm hlen).imp (Dead.mono hLe) id⟩
  · have huv : u ≠ v := by
      intro heq; subst heq
      rw [show (g.accept u k).ballot = g.ballot from rfl, hleader] at hl
      cases hl
    simpa [accept, huv] using h.standing u hu hl
  · by_cases huv : u = v
    · subst huv
      simp only [accept, update_self]
      exact agree_take hown _
    · simpa [accept, huv] using h.own u
  · by_cases huv : u = v
    · subst huv
      have hlen := hack.trans (hi.acked_le u T)
      simp only [accept, update_self]
      rcases Nat.lt_trichotomy T (g.ballot.term u) with hT | rfl | hT
      · rcases h.later T _ a hleader hT m hm hlen with hdead | ⟨hstart, hagree⟩
        · exact Or.inl (hdead.mono hLe)
        · rcases h.kept u T m hm hack with hdead | hkept
          · exact Or.inl (hdead.mono hLe)
          · have hmk : m ≤ k := by
              rcases hk with hk | ⟨hk, _⟩
              · exact (hkept.le_length hlen).trans hk
              · exact hstart.trans hk
            exact Or.inr ((agree_take hmk _).trans hagree)
      · exact Or.inr (agree_take (hack.trans hown) _)
      · have hzero : g.acked u T = 0 := hi.acked_future u T hT
        have hack' : m ≤ g.acked u T := hack
        omega
    · have hold := (h.kept u T m hm hack).imp (Dead.mono hLe) id
      simpa [accept, huv] using hold

/-! ## Chosen beginnings -/

omit [DecidableEq ι] in
variable (members : Finset ι) (g : Replicated ι ε) in
/-- A majority has acknowledged the first `m` entries of the ledger of `T`, of which the last is
of term `T` itself. -/
def Chosen (T m : ℕ) : Prop :=
  g.start T < m ∧ ∃ Q, IsMajority members Q ∧ ∀ u ∈ Q, m ≤ g.acked u T

omit [DecidableEq ι] [Stamped ε] in
theorem Chosen.not_dead (h : Chosen members g T m) : ¬ Dead members g T m := by
  obtain ⟨_, Q, hQ, hall⟩ := h
  intro hdead
  obtain ⟨u, hu, _, hlt⟩ := hdead Q hQ
  have := hall u hu
  omega

theorem Chosen.le_length (h : Chosen members g T m) (hi : Inv members g) :
    m ≤ (g.ledger T).length := by
  obtain ⟨_, Q, hQ, hall⟩ := h
  obtain ⟨u, hu⟩ := hQ.nonempty
  exact (hall u hu).trans (hi.acked_le u T)

theorem Chosen.exists_leader (h : Chosen members g T m) (hi : Inv members g) :
    ∃ a, g.ballot.leader T = some a := by
  refine hi.exists_leader fun hnil => ?_
  have hlen := h.le_length hi
  rw [hnil] at hlen
  have := h.1
  simp only [List.length_nil] at hlen
  omega

theorem Chosen.mono (hle : Le g g') (hi : Inv members g) (h : Chosen members g T m) :
    Chosen members g' T m := by
  obtain ⟨a, ha⟩ := h.exists_leader hi
  obtain ⟨hm, Q, hQ, hall⟩ := h
  refine ⟨?_, Q, hQ, fun u hu => (hall u hu).trans (hle.acked u T)⟩
  rw [hle.start T a ha]
  exact hm

omit [DecidableEq ι] in
theorem Chosen.later (h : Chosen members g T m) (hs : Sound members g) (hT : T < T')
    (hlen : m ≤ (g.ledger T).length) (ha : g.ballot.leader T' = some a) :
    m ≤ g.start T' ∧ Agree m (g.ledger T') (g.ledger T) :=
  (hs.later T T' a ha hT m h.1 hlen).resolve_left h.not_dead

/-- **Chosen beginnings are beginnings of each other.** -/
theorem Chosen.agree {m' : ℕ} (h : Chosen members g T m) (h' : Chosen members g T' m')
    (hi : Inv members g) (hs : Sound members g) : Agree (min m m') (g.ledger T) (g.ledger T') := by
  rcases Nat.lt_trichotomy T T' with hT | rfl | hT
  · obtain ⟨a, ha⟩ := h'.exists_leader hi
    exact (h.later hs hT (h.le_length hi) ha).2.symm.mono (Nat.min_le_left _ _)
  · exact Agree.refl _ _
  · obtain ⟨a, ha⟩ := h.exists_leader hi
    exact (h'.later hs hT (h'.le_length hi) ha).2.mono (Nat.min_le_right _ _)

/-! ## Known beginnings -/

omit [DecidableEq ι] in
variable (members : Finset ι) (g : Replicated ι ε) in
/-- The first `k` entries of `l` are chosen, in a term up to `T`. -/
def Known (T : ℕ) (l : List ε) (k : ℕ) : Prop :=
  k = 0 ∨ ∃ S ≤ T, ∃ m, k ≤ m ∧ Chosen members g S m ∧ Agree k l (g.ledger S)

theorem Known.le_length (h : Known members g T l k) (hi : Inv members g) : k ≤ l.length := by
  rcases h with rfl | ⟨S, _, m, hkm, hchosen, hagree⟩
  · exact Nat.zero_le _
  · exact hagree.le_length (hkm.trans (hchosen.le_length hi))

theorem Known.mono (hle : Le g g') (hi : Inv members g) (hT : T ≤ T')
    (h : Known members g T l k) : Known members g' T' l k := by
  rcases h with rfl | ⟨S, hS, m, hkm, hchosen, hagree⟩
  · exact Or.inl rfl
  · exact Or.inr ⟨S, hS.trans hT, m, hkm, hchosen.mono hle hi,
      hagree.trans (agree_of_isPrefix (hle.ledger S) (hkm.trans (hchosen.le_length hi)))⟩

omit [DecidableEq ι] [Stamped ε] in
theorem Known.of_agree (h : Known members g T l k) (hl : Agree m l' l) (hm : m ≤ k) :
    Known members g T l' m := by
  rcases h with rfl | ⟨S, hS, n, hkn, hchosen, hagree⟩
  · exact Or.inl (Nat.le_zero.mp hm)
  · exact Or.inr ⟨S, hS, n, hm.trans hkn, hchosen, hl.trans (hagree.mono hm)⟩

omit [DecidableEq ι] in
/-- What is known up to an entry is chosen in the term of the entry. -/
theorem Known.chosen (h : Known members g T l k) (hi : Inv members g) (hs : Sound members g)
    (hpos : 0 < k) (he : l[k - 1]? = some e) (hstamp : stamp e = T) : Chosen members g T k := by
  obtain rfl | ⟨S, hS, m, hkm, ⟨_, Q, hQ, hall⟩, hagree⟩ := h
  · omega
  rw [hagree.getElem? (by omega)] at he
  have hTS := (hi.ledger_stamp S e (List.mem_of_getElem? he)).2
  rw [hstamp] at hTS
  obtain rfl : S = T := Nat.le_antisymm hS hTS
  have hstart := hs.stamp_start S _ e he
  exact ⟨by omega, Q, hQ, fun u hu => hkm.trans (hall u hu)⟩

/-- An acceptance that keeps what must be kept keeps what is known. -/
theorem Known.accept (h : Known members g (g.ballot.term v) (g.log v) m) (hi : Inv members g)
    (hs : Sound members g) (hleader : g.ballot.leader (g.ballot.term v) = some a)
    (hk : Keeps g v k) :
    Known members g (g.ballot.term v) ((g.ledger (g.ballot.term v)).take k) m := by
  have hmlog := h.le_length hi
  rcases h with rfl | ⟨S, hS, n, hmn, hchosen, hagree⟩
  · exact Or.inl rfl
  refine Or.inr ⟨S, hS, n, hmn, hchosen, ?_⟩
  have hlen := hchosen.le_length hi
  rcases Nat.lt_or_eq_of_le hS with hS | rfl
  · obtain ⟨hstart, hlater⟩ := hchosen.later hs hS hlen hleader
    have hmk : m ≤ k := by
      rcases hk with hk | ⟨hk, _⟩
      · exact hmlog.trans hk
      · exact hmn.trans (hstart.trans hk)
    exact (agree_take hmk _).trans (hlater.mono hmn)
  · exact agree_take (hk.le hs hi hagree (hmn.trans hlen)) _

/-- What is known of a list is in the log of every later leader from the moment it wins. -/
theorem Known.later (h : Known members g T l k) (hi : Inv members g) (hs : Sound members g)
    (hT : T < T') (ha : g.ballot.leader T' = some a) :
    k ≤ g.start T' ∧ Agree k (g.ledger T') l := by
  rcases h with rfl | ⟨S, hS, m, hkm, hchosen, hagree⟩
  · exact ⟨Nat.zero_le _, Agree.zero _ _⟩
  · obtain ⟨hstart, hlater⟩ :=
      hchosen.later hs (Nat.lt_of_le_of_lt hS hT) (hchosen.le_length hi) ha
    exact ⟨hkm.trans hstart, (hlater.mono hkm).trans hagree.symm⟩

/-- What is known of two lists is the same. -/
theorem Known.agree {k' : ℕ} (h : Known members g T l k) (h' : Known members g T' l' k')
    (hi : Inv members g) (hs : Sound members g) : Agree (min k k') l l' := by
  rcases h with rfl | ⟨S, _, m, hkm, hchosen, hagree⟩
  · rw [Nat.zero_min]; exact Agree.zero _ _
  rcases h' with rfl | ⟨S', _, m', hkm', hchosen', hagree'⟩
  · rw [Nat.min_zero]; exact Agree.zero _ _
  have hboth : Agree (min k k') (g.ledger S) (g.ledger S') :=
    (hchosen.agree hchosen' hi hs).mono (by omega)
  exact ((hagree.mono (Nat.min_le_left _ _)).trans hboth).trans
    (hagree'.mono (Nat.min_le_right _ _)).symm

/-! ## Growing with what is known -/

omit [DecidableEq ι] in
variable (members : Finset ι) in
/-- Histories grow, and whatever was known of the log of a party still is. -/
structure Advances (g g' : Replicated ι ε) : Prop where
  le : Le g g'
  known : ∀ u k, Known members g (g.ballot.term u) (g.log u) k →
    Known members g' (g'.ballot.term u) (g'.log u) k

omit [DecidableEq ι] [Stamped ε] in
theorem Advances.refl (g : Replicated ι ε) : Advances members g g := ⟨Le.refl g, fun _ _ h => h⟩

omit [DecidableEq ι] [Stamped ε] in
theorem Advances.trans {g₁ g₂ g₃ : Replicated ι ε} (h : Advances members g₁ g₂)
    (h' : Advances members g₂ g₃) : Advances members g₁ g₃ :=
  ⟨h.le.trans h'.le, fun u k hk => h'.known u k (h.known u k hk)⟩

theorem advances_of_log (hle : Le g g') (hi : Inv members g) (hlog : g'.log = g.log) :
    Advances members g g' :=
  ⟨hle, fun u _ hk => by rw [hlog]; exact hk.mono hle hi (hle.ballot.term u)⟩

theorem advances_append (hi : Inv members g) (hrole : g.ballot.role v = .leading) :
    Advances members g (g.append v e) := by
  refine ⟨le_append hi hrole, fun u k hk => ?_⟩
  have hk' : Known members (g.append v e) (g.ballot.term u) (g.log u) k :=
    hk.mono (le_append hi hrole) hi (Nat.le_refl _)
  by_cases huv : u = v
  · subst huv
    simp only [append, update_self]
    exact hk'.of_agree (agree_append (hk.le_length hi)).symm (Nat.le_refl _)
  · simpa [append, huv] using hk'

theorem advances_accept (hi : Inv members g) (hs : Sound members g)
    (hleader : g.ballot.leader (g.ballot.term v) = some a) (hk : Keeps g v k) :
    Advances members g (g.accept v k) := by
  refine ⟨le_accept, fun u m hm => ?_⟩
  by_cases huv : u = v
  · subst huv
    have hkept := (hm.accept hi hs hleader hk).mono (le_accept (v := u) (k := k)) hi (Nat.le_refl _)
    simpa [accept] using hkept
  · have hold := hm.mono (le_accept (v := v) (k := k)) hi (Nat.le_refl _)
    simpa [accept, huv] using hold

end Replicated

end Voting
