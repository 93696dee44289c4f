import MetalRaft.LogSim

/-!
# Logs over links that keep their order

Where a link delivers in the order of sending, and no message twice, what a leader has in flight
to a peer never takes the peer's log back.

* `RaftMsg.CarriesTo`, `RaftMsg.ExtendsTo` — how far the entries, or the snapshot, of a message
  reach.
* `Flow` — the invariant of the messages in flight.
* `EndsAtChecked` — an accepted AppendEntries without entries finds the log to end at the entry
  that was checked; only then, or where it ends in the message's term (`ChecksWhole`), does the
  answer tell what has been compared.
* `Streamed` — the simulation of `LogSim` with sound acknowledgements; `streamed_move` follows a
  move.
* `Streaming.step` — the simulation along orderly runs, for any invariant on top of it.
-/

set_option autoImplicit false

namespace MetalRaft

open Transition Voting

variable {P SM : Type} [StateMachine SM P]

/-! ## Messages in flight -/

/-- The message carries entries of a leader of term `T`, the last one for index `k`. -/
def RaftMsg.CarriesTo (T k : Nat) : RaftMsg P → Prop
  | .appendEntries term prev _ es _ => term = T ∧ es ≠ [] ∧ prev + es.length = k
  | _ => False

/-- The message carries entries or a snapshot of a leader of term `T`, up to index `k`. -/
def RaftMsg.ExtendsTo (T k : Nat) : RaftMsg P → Prop
  | .appendEntries term prev _ es _ => term = T ∧ es ≠ [] ∧ prev + es.length = k
  | .installSnapshot term _ i _ _ _ _ => term = T ∧ i = k
  | _ => False

/-- On one link, entries sent later reach at least as far as what was sent before. -/
def Follows (p q : Packet P) : Prop :=
  p.src = q.src → p.dst = q.dst → ∀ T i k, p.msg.ExtendsTo T i → q.msg.CarriesTo T k → i ≤ k

/-- What is in flight: entries for a node that has not left their term reach beyond all entries
of the term that the node holds, and links are ordered. -/
structure Flow (g : Replicated NodeId (LogEntry P)) (flight : List (Packet P)) : Prop where
  valid : ∀ p ∈ flight, LogPacket g p
  apart : ∀ p ∈ flight, p.dst ≠ p.src
  own : ∀ p ∈ flight, ∀ T k, p.msg.CarriesTo T k → g.ballot.term p.dst ≤ T →
    ∀ (j : Nat) (e : LogEntry P), (g.log p.dst)[j]? = some e → e.term = T → j < k
  ordered : flight.Pairwise Follows

section

variable {g g' : Replicated NodeId (LogEntry P)} {p : Packet P} {members : Finset NodeId}
  {flight flight' outs : List (Packet P)} {v : NodeId} {T i k : Nat} {e : LogEntry P}
  {s : InMemoryStorage P}

omit [StateMachine SM P]

theorem RaftMsg.CarriesTo.extendsTo {msg : RaftMsg P} (h : msg.CarriesTo T k) :
    msg.ExtendsTo T k := by
  cases msg with
  | appendEntries => exact h
  | _ => cases h

/-- Nothing reaches beyond the ledger of its term. -/
theorem LogPacket.extendsTo_le (h : LogPacket g p) (hp : p.msg.ExtendsTo T k) :
    g.ballot.leader T = some p.src ∧ k ≤ (g.ledger T).length := by
  obtain ⟨src, dst, msg⟩ := p
  cases msg with
  | appendEntries term prev pt es lc =>
    obtain ⟨rfl, hne, rfl⟩ := hp
    have hvalid : ValidEntries g src term prev pt es := h
    have hlen := hvalid.entries.length_le
    have hpos := List.length_pos_iff.mpr hne
    rw [List.length_drop] at hlen
    exact ⟨hvalid.leader, by omega⟩
  | installSnapshot term leaderId i t offset data done =>
    obtain ⟨rfl, rfl⟩ := hp
    have hvalid : ValidSnapshot g src term i t := h
    obtain ⟨e, he, _⟩ := hvalid.entry
    have hlt := (List.getElem?_eq_some_iff.mp he).1
    have hpos := hvalid.pos
    exact ⟨hvalid.leader, by omega⟩
  | _ => cases hp

/-- An entry of term `T` in a log is one of the ledger of `T`. -/
theorem index_lt_ledger (hi : g.Inv members) {j : Nat} (he : (g.log v)[j]? = some e)
    (hT : e.term = T) : j < (g.ledger T).length := by
  have hledger := (hi.log v).getElem?_ledger he
  rw [stamp_eq, hT] at hledger
  exact (List.getElem?_eq_some_iff.mp hledger).1

/-! ### How the flow changes -/

theorem Flow.sublist (h : Flow g flight) (hsub : flight'.Sublist flight) : Flow g flight' :=
  ⟨fun p hp => h.valid p (hsub.subset hp), fun p hp => h.apart p (hsub.subset hp),
    fun p hp => h.own p (hsub.subset hp), h.ordered.sublist hsub⟩

theorem Flow.of_log (h : Flow g flight) (hle : Replicated.Le g g') (hlog : g'.log = g.log) :
    Flow g' flight := by
  refine ⟨fun p hp => (h.valid p hp).mono hle, h.apart, fun p hp T k hk hT => ?_, h.ordered⟩
  rw [hlog]
  exact h.own p hp T k hk ((hle.ballot.term _).trans hT)

/-- Entries that are sent reach to the end of their ledger. -/
theorem Flow.send (h : Flow g flight) (hi : g.Inv members) (hvalid : ∀ p ∈ outs, LogPacket g p)
    (hapart : ∀ p ∈ outs, p.dst ≠ p.src)
    (hfull : ∀ p ∈ outs, ∀ T k, p.msg.CarriesTo T k → k = (g.ledger T).length) :
    Flow g (flight ++ outs) := by
  have hfollows : ∀ p, LogPacket g p → ∀ q ∈ outs, Follows p q := by
    intro p hp q hq _ _ T i k hext hcarries
    rw [hfull q hq T k hcarries]
    exact (hp.extendsTo_le hext).2
  refine ⟨fun p hp => ?_, fun p hp => ?_, fun p hp T k hk hT j e he hterm => ?_, ?_⟩
  · exact (List.mem_append.mp hp).elim (h.valid p) (hvalid p)
  · exact (List.mem_append.mp hp).elim (h.apart p) (hapart p)
  · rcases List.mem_append.mp hp with hp | hp
    · exact h.own p hp T k hk hT j e he hterm
    · rw [hfull p hp T k hk]
      exact index_lt_ledger hi he hterm
  · rw [List.pairwise_append]
    refine ⟨h.ordered, List.pairwise_of_forall_mem_list fun p hp q hq => ?_, fun p hp q hq => ?_⟩
    · exact hfollows p (hvalid p hp) q hq
    · exact hfollows p (h.valid p hp) q hq

/-- A leader's own entry: nobody sends it entries of its term. -/
theorem Flow.append (h : Flow g flight) (hi : g.Inv members)
    (hrole : g.ballot.role v = .leading) (he : e.term = g.ballot.term v) :
    Flow (g.append v e) flight := by
  have hle : Replicated.Le g (g.append v e) := Replicated.le_append hi hrole
  refine ⟨fun p hp => (h.valid p hp).mono hle, h.apart, fun p hp T k hk hT j x hx hterm => ?_,
    h.ordered⟩
  by_cases hv : p.dst = v
  · simp only [Replicated.append, hv, Function.update_self] at hx
    by_cases hj : j < (g.log v).length
    · rw [List.getElem?_append_left hj] at hx
      exact h.own p hp T k hk hT j x (by rw [hv]; exact hx) hterm
    · have hxe : x = e := by
        rw [List.getElem?_append_right (Nat.not_lt.mp hj)] at hx
        simpa using List.mem_of_getElem? hx
      have hleader := ((h.valid p hp).extendsTo_le hk.extendsTo).1
      rw [← hterm, hxe, he, hi.ballot.leading v hrole] at hleader
      exact absurd (hv.trans (Option.some.inj hleader)) (h.apart p hp)
  · simp only [Replicated.append, ne_eq, hv, not_false_eq_true, Function.update_of_ne] at hx
    exact h.own p hp T k hk hT j x hx hterm

/-- Accepting the first message in flight: what follows it on its link reaches as far. -/
theorem Flow.accept (h : Flow g (p :: flight)) (hi : g.Inv members) (hv : p.dst = v)
    (hp : p.msg.ExtendsTo (g.ballot.term v) k) : Flow (g.accept v k) (p :: flight) := by
  refine ⟨fun q hq => (h.valid q hq).mono Replicated.le_accept, h.apart,
    fun q hq T k' hk' hT j x hx hterm => ?_, h.ordered⟩
  have hT' : g.ballot.term q.dst ≤ T := hT
  by_cases hqv : q.dst = v
  · simp only [Replicated.accept, hqv, Function.update_self] at hx
    have hle := (hi.ledger_stamp _ x (List.mem_of_mem_take (List.mem_of_getElem? hx))).2
    rw [stamp_eq, hterm] at hle
    rw [hqv] at hT'
    obtain rfl : g.ballot.term v = T := Nat.le_antisymm hT' hle
    have hjk : j < k := by
      have hlen := (List.getElem?_eq_some_iff.mp hx).1
      rw [List.length_take] at hlen
      omega
    rcases List.mem_cons.mp hq with rfl | hq
    · obtain ⟨src, dst, msg⟩ := q
      cases msg with
      | appendEntries =>
        obtain ⟨_, _, hk⟩ := hp
        obtain ⟨_, _, hk'⟩ := hk'
        omega
      | _ => cases hk'
    · have hpl := ((h.valid p (List.mem_cons_self ..)).extendsTo_le hp).1
      have hql := ((h.valid q (List.mem_cons_of_mem _ hq)).extendsTo_le hk'.extendsTo).1
      have hsrc : p.src = q.src := Option.some.inj (hpl.symm.trans hql)
      have hkk := (List.pairwise_cons.mp h.ordered).1 q hq hsrc (hv.trans hqv.symm) _ k k' hp hk'
      omega
  · simp only [Replicated.accept, ne_eq, hqv, not_false_eq_true, Function.update_of_ne] at hx
    exact h.own q hq T k' hk' hT' j x hx hterm

/-- Entries that a leader sends are those of its log, to the end. -/
theorem request_carriesTo {l : List (LogEntry P)} (hl : FullLog s l) (r : LogReplicationManager)
    (peer leaderId : NodeId) (h : (r.getAppendEntriesForPeer peer leaderId s).CarriesTo T k) :
    T = s.currentTerm ∧ k = l.length := by
  rcases getAppendEntriesForPeer_cases r peer leaderId s with ⟨m, data, _, _, heq⟩ | heq <;>
    rw [heq] at h
  · cases h
  · obtain ⟨prev, pt, es, heq, hes, _⟩ := hl.request r peer s.currentTerm
    rw [heq] at h
    obtain ⟨rfl, hne, rfl⟩ := h
    rcases hes with rfl | rfl
    · exact absurd rfl hne
    · have hpos := List.length_pos_iff.mpr hne
      rw [List.length_drop] at hpos ⊢
      exact ⟨rfl, by omega⟩

end

/-! ## Acknowledgements -/

/-- If the event is an AppendEntries without entries that the node accepts, then the log ends at
the entry that is checked. -/
def EndsAtChecked (n : TestNode P SM) : Event P → Prop
  | .message _ (.appendEntries T prev pt es _) =>
    Accepts n T prev pt → es.isEmpty = true → n.storage.lastLogIndex = prev
  | _ => True

instance (n : TestNode P SM) : (ev : Event P) → Decidable (EndsAtChecked n ev)
  | .message _ (.appendEntries T prev pt es _) => inferInstanceAs (Decidable
      (Accepts n T prev pt → es.isEmpty = true → n.storage.lastLogIndex = prev))
  | .message _ (.requestVote _ _ _ _) | .message _ (.requestVoteResponse _ _)
  | .message _ (.preVoteRequest _ _ _ _) | .message _ (.preVoteResponse _ _)
  | .message _ (.appendEntriesResponse _ _ _) | .message _ (.installSnapshot _ _ _ _ _ _ _)
  | .message _ (.installSnapshotResponse _ _) | .timerFired _ | .clientCommand _
  | .configChange _ => isTrue trivial

/-- If the event is such an AppendEntries, then what is checked tells about the whole log: it ends
at the entry that is checked, or at an entry of the message's term. -/
def ChecksWhole (n : TestNode P SM) : Event P → Prop
  | .message _ (.appendEntries T prev pt es _) =>
    Accepts n T prev pt → es.isEmpty = true →
      n.storage.lastLogIndex = prev ∨ n.storage.lastLogTerm = T
  | _ => True

instance (n : TestNode P SM) : (ev : Event P) → Decidable (ChecksWhole n ev)
  | .message _ (.appendEntries T prev pt es _) => inferInstanceAs (Decidable
      (Accepts n T prev pt → es.isEmpty = true →
        n.storage.lastLogIndex = prev ∨ n.storage.lastLogTerm = T))
  | .message _ (.requestVote _ _ _ _) | .message _ (.requestVoteResponse _ _)
  | .message _ (.preVoteRequest _ _ _ _) | .message _ (.preVoteResponse _ _)
  | .message _ (.appendEntriesResponse _ _ _) | .message _ (.installSnapshot _ _ _ _ _ _ _)
  | .message _ (.installSnapshotResponse _ _) | .timerFired _ | .clientCommand _
  | .configChange _ => isTrue trivial

/-- What an answer says about its sender. -/
def AckPacket (g : Replicated NodeId (LogEntry P)) (p : Packet P) : Prop :=
  match p.msg with
  | .appendEntriesResponse T success m => success = true → m ≤ g.acked p.src T
  | .installSnapshotResponse T _ => T ≤ g.ballot.term p.src
  | _ => True

/-- The node has accepted the AppendEntries that it handles, and placed its entries. -/
def Answers (ev : Event P) (n₀ n : TestNode P SM) : Prop :=
  ∃ target prev pt es lc, ev = .message target (.appendEntries n.currentTerm prev pt es lc) ∧
    n.currentTerm = n₀.currentTerm ∧
    LogReplicationManager.checkLogConsistency prev pt n₀.storage = true ∧
    n.storage = LogReplicationManager.placeEntries prev es n₀.storage

section

variable {d : Deployment SM} {g g' : Replicated NodeId (LogEntry P)} {p : Packet P} {v : NodeId}
  {ev : Event P} {n₀ n : TestNode P SM} {members : Finset NodeId}

omit [StateMachine SM P]

theorem AckPacket.mono (hle : Replicated.Le g g') (h : AckPacket g p) : AckPacket g' p := by
  unfold AckPacket at h ⊢
  split
  · rename_i heq; rw [heq] at h; exact fun hs => (h hs).trans (hle.acked _ _)
  · rename_i heq; rw [heq] at h; exact h.trans (hle.ballot.term _)
  · trivial

theorem EndsAtChecked.checksWhole (h : EndsAtChecked n ev) : ChecksWhole n ev := by
  cases ev with
  | message sender msg =>
    cases msg with
    | appendEntries => exact fun haccepts hempty => Or.inl (h haccepts hempty)
    | _ => trivial
  | _ => trivial

/-- A log that ends at an entry of some term is a beginning of the ledger of that term. -/
theorem agree_of_lastStamp (hi : g.Inv members) {T : Nat}
    (hT : Replicated.lastStamp (g.log v) = T) :
    Agree (g.log v).length (g.log v) (g.ledger T) := by
  rcases List.eq_nil_or_concat (g.log v) with hnil | ⟨l, e, hlast⟩
  · rw [hnil]
    exact Agree.zero _ _
  · have hterm : Stamped.stamp e = T := by
      rw [← hT, hlast]
      simp [Replicated.lastStamp]
    have hget : (g.log v)[l.length]? = some e := by
      rw [hlast]
      simp
    have hagree := hi.log v _ e hget
    rw [hterm] at hagree
    rwa [show (g.log v).length = l.length + 1 by rw [hlast]; simp]

/-- **What is acknowledged has been compared**: after an accepted AppendEntries the whole log is a
beginning of the ledger. -/
theorem agree_answered (hi : g.Inv members) (hl : FullLog n.storage (g.log v))
    (hb : BallotNode g.ballot v n) (hev : Delivered d g v ev) (hfits : FitsSnapshot n₀ ev)
    (hchecks : ChecksWhole n₀ ev) (h : Answers ev n₀ n) :
    Agree (g.log v).length (g.log v) (g.ledger (g.ballot.term v)) ∧
      (g.log v).length ≤ (g.ledger (g.ballot.term v)).length := by
  obtain ⟨target, prev, pt, es, lc, rfl, hterm, consistent, hstorage⟩ := h
  have hvalid : ValidEntries g target n.currentTerm prev pt es := (hev.sound _ _ rfl).2.2
  rw [← hb.currentTerm]
  suffices hagree : Agree (g.log v).length (g.log v) (g.ledger n.currentTerm) from
    ⟨hagree, hagree.symm.le_length (Nat.le_refl _)⟩
  by_cases hne : es = []
  · subst hne
    -- nothing is placed, and the check tells about the whole log
    have hsame : n.storage = n₀.storage := hstorage
    have hwhole := hchecks ⟨hterm, consistent⟩ rfl
    rw [← hsame, hl.lastLogIndex, hl.lastLogTerm] at hwhole
    rw [← hsame] at consistent
    rcases hwhole with hlast | hlast
    · rw [hlast]
      exact (hvalid.agree hi hl consistent).1
    · exact agree_of_lastStamp hi hlast
  · rw [InMemoryStorage.placeEntries_eq] at hstorage
    have hstorage' : n.storage = n₀.storage.withLog (n₀.storage.placedLog prev es) := hstorage
    have hs : n₀.storage.Shaped := by
      have := hl.shaped
      rw [hstorage'] at this
      exact this
    have hsnap : n₀.storage.snapIndex ≤ prev := by
      have hfirst : n₀.storage.firstIndex = n₀.storage.snapIndex + 1 := hs
      have := hfits ⟨hterm, consistent⟩ (by simpa using hne)
      omega
    have hlen : (g.log v).length = prev + es.length := by
      rw [← hl.lastLogIndex, hstorage',
        hs.lastLogIndex_place (hs.prev_le consistent) hne, Nat.max_eq_left hsnap]
    -- the last entry came out of the ledger
    have hpos := List.length_pos_iff.mpr hne
    obtain ⟨e, he⟩ : ∃ e, es[es.length - 1]? = some e :=
      ⟨_, List.getElem?_eq_getElem (Nat.sub_lt hpos Nat.one_pos)⟩
    have hlog : (g.log v)[prev + es.length - 1]? = some e := by
      have hget : n.storage.getEntry (prev + es.length) = some e := by
        rw [hstorage', hs.getEntry_place (hs.prev_le consistent) hne, if_neg (by omega),
          if_neg (by omega), Nat.max_eq_left hsnap, ← he]
        congr 1
        omega
      exact (hl.of_getEntry hget).2.2
    have hledger : (g.ledger n.currentTerm)[prev + es.length - 1]? = some e := by
      have := getElem?_of_isPrefix hvalid.entries he
      rw [List.getElem?_drop] at this
      rw [← this]
      congr 1
      omega
    have hagree := (hi.log v).matching (hi.ledger _) hlog hledger rfl
    rwa [show prev + es.length - 1 + 1 = (g.log v).length by omega] at hagree

end

/-! ## The simulation -/

/-- The message that the event delivers, if it delivers one. -/
def Event.packet (v : NodeId) : Event P → List (Packet P)
  | .message sender msg => [⟨sender, v, msg⟩]
  | _ => []

/-- The simulation of logs with acknowledgements that hold; `front` is what is being delivered. -/
structure Streamed (d : Deployment SM) (front : List (Packet P)) (c : Cluster P SM)
    (g : Replicated NodeId (LogEntry P)) : Prop where
  logs : LogSim d c g
  sound : g.Sound d.members.toFinset
  flow : Flow g (front ++ c.network)
  acks : ∀ p ∈ c.messageLog, AckPacket g p

section

variable {d : Deployment SM} {c : Cluster P SM} {g g' : Replicated NodeId (LogEntry P)}
  {front : List (Packet P)} {v u : NodeId} {ev : Event P} {n₀ n n' : TestNode P SM} {m : Nat}

open RaftNode

omit [StateMachine SM P]

/-- What `v` sends is sound: nothing to itself, acknowledgements that hold, entries to the end. -/
def SendsSoundly (g : Replicated NodeId (LogEntry P)) (n n' : TestNode P SM) : Prop :=
  ∃ outs : List (Packet P), n'.outbox = n.outbox ++ outs ∧ ∀ p ∈ outs, p.dst ≠ p.src ∧
    AckPacket g p ∧ ∀ T k, p.msg.CarriesTo T k → k = (g.ledger T).length

theorem sendsNothing (h : n'.outbox = n.outbox) : SendsSoundly g n n' := ⟨[], by simp [h], by simp⟩

/-- A move of `v` carries the simulation along when the simulation of logs follows it. -/
theorem Streamed.update (h : Streamed d front (c.withNode v n) g)
    (hlogs : Replicated.Le g g' ∧ LogSim d (c.withNode v n') g')
    (hsound : g'.Sound d.members.toFinset)
    (hflow : Flow g' (front ++ (c.withNode v n).network)) (hout : SendsSoundly g' n n') :
    Streamed d front (c.withNode v n') g' := by
  obtain ⟨outs, heq, houts⟩ := hout
  refine ⟨hlogs.2, hsound, ?_, fun p hp => ?_⟩
  · rw [Cluster.withNode_network, heq, ← List.append_assoc, ← List.append_assoc]
    rw [Cluster.withNode_network, ← List.append_assoc] at hflow
    refine hflow.send hlogs.2.inv (fun p hp => hlogs.2.sent p ?_) (fun p hp => (houts p hp).1)
      (fun p hp => (houts p hp).2.2)
    rw [Cluster.withNode_messageLog, heq]
    exact List.mem_append_right _ (List.mem_append_right _ hp)
  · rw [Cluster.withNode_messageLog, heq, ← List.append_assoc] at hp
    rcases List.mem_append.mp hp with hp | hp
    · exact (h.acks p hp).mono hlogs.1
    · exact (houts p hp).2.1

theorem Streamed.ack (h : Streamed d front c g)
    (hagree : Agree m (g.log u) (g.ledger (g.ballot.term u)))
    (hm : m ≤ (g.ledger (g.ballot.term u)).length) :
    Replicated.Advances d.members.toFinset g (g.ack u m) ∧ Streamed d front c (g.ack u m) := by
  have hle : Replicated.Le g (g.ack u m) := Replicated.le_ack
  have hi := h.logs.inv
  refine ⟨Replicated.advances_of_log hle hi rfl,
    ⟨h.logs.elections, Replicated.inv_ack hi hm, h.logs.node,
      fun p hp => (h.logs.sent p hp).mono hle⟩,
    Replicated.sound_ack h.sound hagree hi, h.flow.of_log hle rfl,
    fun p hp => (h.acks p hp).mono hle⟩

/-! ### The moves -/

/-- The logs are as before, and so is what is in flight. -/
theorem Streamed.keep (h : Streamed d front (c.withNode v n) g)
    (hlogs : Replicated.Le g g' ∧ LogSim d (c.withNode v n') g')
    (hsound : g'.Sound d.members.toFinset) (hlog : g'.log = g.log) (hout : SendsSoundly g' n n') :
    Replicated.Advances d.members.toFinset g g' ∧ Streamed d front (c.withNode v n') g' :=
  ⟨Replicated.advances_of_log hlogs.1 h.logs.inv hlog,
    h.update hlogs hsound (h.flow.of_log hlogs.1 hlog) hout⟩

theorem sendsSoundly_speaks (hid : n.id = v) (hv : v ∈ d.members) (hfixed : FixedNode d n)
    (hev : Delivered d g v ev)
    (hack : Answers ev n₀ n → n.storage.lastLogIndex ≤ g.acked v n.currentTerm)
    (hout : SpeaksOnly ev n₀ n n') (h : LogSim d (c.withNode v n) g) : SendsSoundly g n n' := by
  obtain ⟨hb, hl⟩ := h.self hv
  obtain ⟨outs, heq, houts⟩ := hout
  refine ⟨outs, heq, fun p hp => ?_⟩
  obtain ⟨hsrc, hspeaks⟩ := houts p hp
  obtain ⟨src, dst, msg⟩ := p
  dsimp only at hsrc hspeaks ⊢
  subst hsrc
  have hpeer : dst ∈ n.peerIds .testUtils → dst ≠ n.id := fun hd => (hfixed.mem_peerIds hd).2
  have hasked : ∀ msg, ev = .message dst msg → dst ≠ n.id := fun msg he => by
    rw [hid]; exact (hev.sound _ _ he).1
  cases hspeaks with
  | preVoteRequest peer => exact ⟨hpeer peer, trivial, fun _ _ hk => by cases hk⟩
  | preVoteResponse asked => exact ⟨hasked _ asked, trivial, fun _ _ hk => by cases hk⟩
  | refusal asked => exact ⟨hasked _ asked, trivial, fun _ _ hk => by cases hk⟩
  | rejection asked =>
    exact ⟨hasked _ asked, fun hs => (by cases hs), fun _ _ hk => by cases hk⟩
  | acknowledgement asked hterm consistent storage =>
    refine ⟨hasked _ asked, fun _ => ?_, fun _ _ hk => by cases hk⟩
    rw [hid]
    exact hack ⟨dst, _, _, _, _, asked, hterm, consistent, storage⟩
  | entries peer leader =>
    refine ⟨hpeer peer, ?_, fun T k hk => ?_⟩
    · rcases getAppendEntriesForPeer_cases n.replication dst n.id n.storage with
        ⟨m, data, _, _, heq⟩ | heq <;> rw [heq] <;> trivial
    · obtain ⟨rfl, rfl⟩ := request_carriesTo hl n.replication dst n.id hk
      have hlead : g.ballot.role v = .leading := by
        rw [← hb.role, leader.resolve_right hfixed.holdsNoChange]; rfl
      rw [hb.stored, h.inv.leading v hlead]
  | chunkResponse asked =>
    refine ⟨hasked _ asked, ?_, fun _ _ hk => by cases hk⟩
    show n.currentTerm ≤ g.ballot.term n.id
    rw [hid, hb.currentTerm]

/-- Where the node has accepted entries, its whole log is acknowledged before it answers. -/
theorem streamed_calm (hq : Quiet n n') (hsame : SameLog n.storage n'.storage)
    (hout : SpeaksOnly ev n₀ n n') (hid : n.id = v) (hv : v ∈ d.members) (hfixed : FixedNode d n)
    (hev : Delivered d g v ev) (hfits : FitsSnapshot n₀ ev) (hchecks : ChecksWhole n₀ ev)
    (h : Streamed d front (c.withNode v n) g) :
    ∃ g', Replicated.Advances d.members.toFinset g g' ∧ Streamed d front (c.withNode v n') g' := by
  obtain ⟨hb, hl⟩ := h.logs.self hv
  by_cases ha : Answers ev n₀ n
  · obtain ⟨hagree, hlen⟩ := agree_answered h.logs.inv hl hb hev hfits hchecks ha
    obtain ⟨hadv, hacked⟩ := h.ack hagree hlen
    have hkept := hacked.keep (logSim_calm hq hsame hout hid hv hfixed hacked.logs) hacked.sound rfl
      (sendsSoundly_speaks hid hv hfixed (hev.mono hadv.le) (fun _ => ?_) hout hacked.logs)
    · exact ⟨_, hadv.trans hkept.1, hkept.2⟩
    · rw [hl.lastLogIndex, hb.currentTerm]
      simp [Replicated.ack]
  · exact ⟨g, h.keep (logSim_calm hq hsame hout hid hv hfixed h.logs) h.sound rfl
      (sendsSoundly_speaks hid hv hfixed hev (fun hanswers => absurd hanswers ha) hout h.logs)⟩

/-- The candidate's log is up to date for a voter that finds it so. -/
theorem upToDate_of_grant {sender cand : NodeId} {li lt : Nat}
    (hreq : LogPacket g (⟨sender, v, .requestVote n.currentTerm cand li lt⟩ : Packet P))
    (hb : BallotNode g.ballot v n) (hl : FullLog n.storage (g.log v))
    (upToDate : ElectionManager.isLogUpToDate li lt n.storage = true) :
    Replicated.UpToDate (g.bid cand (g.ballot.term v)) (g.log v) := by
  obtain ⟨_, hlen, hstamp⟩ : n.currentTerm ≤ g.ballot.term cand ∧
    (g.bid cand n.currentTerm).length = li ∧
      Replicated.lastStamp (g.bid cand n.currentTerm) = lt := hreq
  unfold ElectionManager.isLogUpToDate at upToDate
  simp only [InMemoryStorage.storage_lastLogTerm, InMemoryStorage.storage_lastLogIndex,
    hl.lastLogIndex, hl.lastLogTerm, Bool.or_eq_true, Bool.and_eq_true, decide_eq_true_eq]
    at upToDate
  rw [hb.currentTerm] at hlen hstamp
  unfold Replicated.UpToDate
  omega

theorem streamed_grant {sender cand : NodeId} {li lt : Nat} (hid : n.id = v) (hv : v ∈ d.members)
    (free : n.storage.votedFor = none ∨ n.storage.votedFor = some cand)
    (upToDate : ElectionManager.isLogUpToDate li lt n.storage = true)
    (hev : Delivered d g v (.message sender (.requestVote n.currentTerm cand li lt)))
    (h : Streamed d front (c.withNode v n) g) :
    Replicated.Advances d.members.toFinset g (g.vote v cand) ∧
      Streamed d front (c.withNode v
        ((n.withStorage (n.storage.setVotedFor (some cand))).send sender
          (.requestVoteResponse n.currentTerm true))) (g.vote v cand) := by
  obtain ⟨hb, hl⟩ := h.logs.self hv
  obtain ⟨hne, hballot, hlog⟩ := hev.sound _ _ rfl
  have hfree : g.ballot.voted v (g.ballot.term v) = none ∨
      g.ballot.voted v (g.ballot.term v) = some cand := by rw [← hb.votedFor]; exact free
  refine h.keep (logSim_grant hid hv free hballot h.logs) (Replicated.sound_vote h.sound h.logs.inv
    hfree (upToDate_of_grant hlog hb hl upToDate)) rfl
    ⟨_, outbox_append (n.withStorage _) _, fun p hp => ?_⟩
  simp only [List.map_cons, List.map_nil, List.mem_singleton] at hp
  subst hp
  refine ⟨?_, trivial, fun _ _ hk => by cases hk⟩
  show sender ≠ n.id
  rw [hid]
  exact hne

theorem streamed_campaign (hid : n.id = v) (hv : v ∈ d.members)
    (h : Streamed d front (c.withNode v n) g) :
    Replicated.Advances d.members.toFinset g (g.campaign v) ∧
      Streamed d front (c.withNode v
        { n.standing with
          transport := n.transport ++ (n.config.peers n.id).map fun t =>
            ⟨t, .requestVote (n.currentTerm + 1) n.id n.standing.storage.lastLogIndex
              n.standing.storage.lastLogTerm, n.standing.storage⟩ }) (g.campaign v) := by
  refine h.keep (logSim_campaign hid hv h.logs) (Replicated.sound_campaign h.sound h.logs.inv) rfl
    ⟨_, outbox_append n.standing _, fun p hp => ?_⟩
  simp only [List.map_map, List.mem_map, Function.comp] at hp
  obtain ⟨t, ht, rfl⟩ := hp
  exact ⟨(Configuration.mem_peers.mp ht).2, trivial, fun _ _ hk => by cases hk⟩

theorem streamed_lead (hcand : n.role = .candidate) (hv : v ∈ d.members)
    (hel : Ballot.Elected d.members.toFinset g.ballot v (g.ballot.term v))
    (h : Streamed d front (c.withNode v n) g) :
    Replicated.Advances d.members.toFinset g (g.lead v) ∧
      Streamed d front (c.withNode v (n.leading .testUtils)) (g.lead v) := by
  have hrole : g.ballot.role v = .standing := by rw [← (h.logs.self hv).1.role, hcand]; rfl
  exact h.keep (logSim_lead hcand hv hel h.logs)
    (Replicated.sound_lead h.sound h.logs.inv hrole hel) rfl (sendsNothing rfl)

theorem streamed_append {entryType : EntryType P} (leader : n.role = .leader) (hv : v ∈ d.members)
    (h : Streamed d front (c.withNode v n) g) :
    Replicated.Advances d.members.toFinset g (g.append v ⟨n.currentTerm, entryType⟩) ∧
      Streamed d front (c.withNode v
        (n.withStorage (n.storage.withLog (n.storage.log ++ [⟨n.currentTerm, entryType⟩]))))
        (g.append v ⟨n.currentTerm, entryType⟩) := by
  have hb := (h.logs.self hv).1
  have hi := h.logs.inv
  have hrole : g.ballot.role v = .leading := by rw [← hb.role, leader]; rfl
  exact ⟨Replicated.advances_append hi hrole,
    h.update (logSim_append leader hv h.logs)
      (Replicated.sound_append h.sound hi hrole hb.currentTerm)
      (h.flow.append hi hrole hb.currentTerm) (sendsNothing rfl)⟩

/-- Accepting what is being delivered, up to where it reaches. -/
theorem streamed_accept {p : Packet P} {k : Nat} (hp : p.dst = v) (hv : v ∈ d.members)
    (hext : p.msg.ExtendsTo n.currentTerm k) (hkeeps : Replicated.Keeps g v k)
    (hlogs : Replicated.Le g (g.accept v k) ∧ LogSim d (c.withNode v n') (g.accept v k))
    (hsilent : n'.outbox = n.outbox) (h : Streamed d [p] (c.withNode v n) g) :
    Replicated.Advances d.members.toFinset g (g.accept v k) ∧
      Streamed d [p] (c.withNode v n') (g.accept v k) := by
  have hi := h.logs.inv
  rw [(h.logs.self hv).1.currentTerm] at hext
  have hleader := ((h.flow.valid p (List.mem_cons_self ..)).extendsTo_le hext).1
  exact ⟨Replicated.advances_accept hi h.sound hleader hkeeps,
    h.update hlogs (Replicated.sound_accept h.sound hi hleader hkeeps)
      (h.flow.accept hi hp hext) (sendsNothing hsilent)⟩

theorem streamed_place {sender : NodeId} {prev pt lc : Nat} {es : List (LogEntry P)}
    (hv : v ∈ d.members) (nonempty : es ≠ [])
    (consistent : LogReplicationManager.checkLogConsistency prev pt n.storage = true)
    (hfits : n.storage.firstIndex ≤ prev + 1)
    (h : Streamed d [⟨sender, v, .appendEntries n.currentTerm prev pt es lc⟩] (c.withNode v n) g) :
    Replicated.Advances d.members.toFinset g (g.accept v (prev + es.length)) ∧
      Streamed d [⟨sender, v, .appendEntries n.currentTerm prev pt es lc⟩] (c.withNode v
        (n.withStorage (n.storage.withLog (n.storage.placedLog prev es))))
        (g.accept v (prev + es.length)) := by
  have hfirst := List.mem_cons_self (a := (⟨sender, v, .appendEntries n.currentTerm prev pt es lc⟩ :
    Packet P)) (l := (c.withNode v n).network)
  have hreq := h.flow.valid _ hfirst
  have hne := h.flow.apart _ hfirst
  have hterm := (h.logs.self hv).1.currentTerm
  refine streamed_accept rfl hv ⟨rfl, nonempty, rfl⟩ (Or.inr ⟨?_, fun j e he hstamp => ?_⟩)
    (logSim_place hv (Ne.symm hne) nonempty consistent hfits hreq h.logs) rfl h
  · rw [← hterm]
    have hvalid : ValidEntries g sender n.currentTerm prev pt es := hreq
    exact hvalid.start nonempty
  · exact h.flow.own _ hfirst n.currentTerm _ ⟨rfl, nonempty, rfl⟩ (Nat.le_of_eq hterm.symm) j e he
      (hstamp.trans hterm.symm)

theorem streamed_compact [StateMachine SM P] {e : LogEntry P}
    (found : n.storage.getEntry n.replication.commitIndex = some e)
    (h : Streamed d front (c.withNode v n) g) :
    Replicated.Advances d.members.toFinset g g ∧ Streamed d front (c.withNode v
      (n.withStorage (n.storage.compactedTo (n.ownSnapshot e.term)))) g :=
  h.keep (logSim_compact found h.logs) h.sound rfl (sendsNothing rfl)

theorem streamed_installWithin [StateMachine SM P] {x : Snapshot} {e : LogEntry P}
    (found : n.storage.getEntry x.metadata.lastIncludedIndex = some e)
    (hterm : e.term = x.metadata.lastIncludedTerm) (h : Streamed d front (c.withNode v n) g) :
    Replicated.Advances d.members.toFinset g g ∧
      Streamed d front (c.withNode v (n.installed x)) g :=
  h.keep (logSim_installWithin found hterm h.logs) h.sound rfl (sendsNothing rfl)

theorem streamed_installBeyond [StateMachine SM P] {sender leaderId : NodeId} {offset : Nat}
    {data : List UInt8} {done : Bool} {x : Snapshot} (hv : v ∈ d.members)
    (hx : n.storage.lastLogIndex ≤ x.metadata.lastIncludedIndex)
    (h : Streamed d [⟨sender, v, .installSnapshot n.currentTerm leaderId
      x.metadata.lastIncludedIndex x.metadata.lastIncludedTerm offset data done⟩]
      (c.withNode v n) g) :
    Replicated.Advances d.members.toFinset g (g.accept v x.metadata.lastIncludedIndex) ∧
      Streamed d [⟨sender, v, .installSnapshot n.currentTerm leaderId
        x.metadata.lastIncludedIndex x.metadata.lastIncludedTerm offset data done⟩]
        (c.withNode v (n.installed x)) (g.accept v x.metadata.lastIncludedIndex) := by
  have hfirst := List.mem_cons_self (a := (⟨sender, v, .installSnapshot n.currentTerm leaderId
    x.metadata.lastIncludedIndex x.metadata.lastIncludedTerm offset data done⟩ : Packet P))
    (l := (c.withNode v n).network)
  have hne := h.flow.apart _ hfirst
  refine streamed_accept rfl hv ⟨rfl, rfl⟩ (Or.inl ?_)
    (logSim_installBeyond hv (Ne.symm hne) hx (h.flow.valid _ hfirst) h.logs) rfl h
  rw [← (h.logs.self hv).2.lastLogIndex]
  exact hx

end

/-! ### Any move -/

/-- What is known of node `v` of `c` when it has got as far as `n` in handling `ev`. -/
structure Handling (d : Deployment SM) (c : Cluster P SM) (g : Replicated NodeId (LogEntry P))
    (v : NodeId) (ev : Event P) (n : TestNode P SM) : Prop where
  id : n.id = v
  member : v ∈ d.members
  fixed : FixedNode d n
  tally : TallyNode d c.messageLog n
  ballots : ∀ p ∈ c.messageLog, BallotPacket g.ballot p
  sent : ∀ sender msg, ev = .message sender msg →
    sender ∈ d.members ∧ ⟨sender, v, msg⟩ ∈ c.messageLog
  delivered : Delivered d g v ev
  fits : FitsSnapshot (c.nodes v) ev
  ends : EndsAtChecked (c.nodes v) ev
  term : (c.nodes v).currentTerm ≤ n.currentTerm

/-- The same where the links need not keep the order of messages: what is checked tells about the
whole log, but the log may go on beyond it. -/
structure Attending (d : Deployment SM) (c : Cluster P SM) (g : Replicated NodeId (LogEntry P))
    (v : NodeId) (ev : Event P) (n : TestNode P SM) : Prop where
  id : n.id = v
  member : v ∈ d.members
  fixed : FixedNode d n
  tally : TallyNode d c.messageLog n
  ballots : ∀ p ∈ c.messageLog, BallotPacket g.ballot p
  sent : ∀ sender msg, ev = .message sender msg →
    sender ∈ d.members ∧ ⟨sender, v, msg⟩ ∈ c.messageLog
  delivered : Delivered d g v ev
  fits : FitsSnapshot (c.nodes v) ev
  checks : ChecksWhole (c.nodes v) ev
  term : (c.nodes v).currentTerm ≤ n.currentTerm

section

variable {d : Deployment SM} {c c₀ : Cluster P SM} {g : Replicated NodeId (LogEntry P)}
  {v : NodeId} {ev : Event P} {a : Action P} {n n' : TestNode P SM} {front : List (Packet P)}

open RaftNode

omit [StateMachine SM P] in
theorem Handling.attending (h : Handling d c g v ev n) : Attending d c g v ev n :=
  ⟨h.id, h.member, h.fixed, h.tally, h.ballots, h.sent, h.delivered, h.fits, h.ends.checksWhole,
    h.term⟩

/-- What is known at any point of handling an event. -/
theorem Attending.of_moves {g₀ : Replicated NodeId (LogEntry P)} (hsettled : Settled c)
    (hfixed : Fixed d c) (htallied : Tallied d c) (hlogs : LogSim d c g₀)
    (hok : OneVoteEach d c a)
    (hh : Cluster.Handles d c a v ev c₀) (hfits : FitsSnapshot (c.nodes v) ev)
    (hchecks : ChecksWhole (c.nodes v) ev)
    (hmoves : Moves .testUtils ev (c.nodes v) (c.nodes v) n) (hle : Replicated.Le g₀ g) :
    Attending d c g v ev n := by
  have hv := hh.member
  have hlog : ∀ sender msg, ev = .message sender msg → ⟨sender, v, msg⟩ ∈ c.messageLog := by
    rintro sender msg rfl
    exact hfixed.inFlight _ hh.delivered
  exact ⟨(Moves.id_eq hmoves).trans (hsettled v).1, hv,
    hfixed.between hok.1 hv hh.handled hlog hmoves,
    htallied.between hsettled hfixed hok hv hh.handled hlog hmoves,
    fun p hp => (hlogs.elections.sent p hp).mono hle.ballot,
    fun sender msg he => ⟨(hfixed.sent _ (hlog sender msg he)).src, hlog sender msg he⟩,
    (hh.delivery hfixed hlogs).mono hle, hfits, hchecks, Moves.currentTerm_le hmoves⟩

/-- Any move but those that take over entries, or a snapshot, from the message, which are left to
the caller. -/
theorem streamed_other (hn : Attending d c g v ev n)
    (hmove : Move .testUtils ev (c.nodes v) n n') (h : Streamed d front (c₀.withNode v n) g)
    (hplace : ∀ sender prev pt es lc,
      ev = .message sender (.appendEntries n.currentTerm prev pt es lc) → n = c.nodes v →
      LogReplicationManager.checkLogConsistency prev pt n.storage = true → es ≠ [] →
      ∃ g', Replicated.Advances d.members.toFinset g g' ∧ Streamed d front (c₀.withNode v
        (n.withStorage (n.storage.withLog (n.storage.placedLog prev es)))) g')
    (hinstall : ∀ sender leaderId offset data x,
      ev = .message sender (.installSnapshot n.currentTerm leaderId x.metadata.lastIncludedIndex
        x.metadata.lastIncludedTerm offset data true) →
      n.storage.lastLogIndex ≤ x.metadata.lastIncludedIndex →
      ∃ g', Replicated.Advances d.members.toFinset g g' ∧
        Streamed d front (c₀.withNode v (n.installed x)) g') :
    ∃ g', Replicated.Advances d.members.toFinset g g' ∧
      Streamed d front (c₀.withNode v n') g' := by
  obtain ⟨hid, hv, hfixed, htally, hL, _, hev, hfits, hchecks, hterm⟩ := hn
  obtain ⟨hb, hl⟩ := h.logs.self hv
  have hi := h.logs.inv
  cases hmove.voteCases hfixed with
  | @adoptTerm _ T higher =>
    have hT : g.ballot.term v < T := by rw [← hb.currentTerm]; exact higher
    exact ⟨_, h.keep (logSim_adoptTerm higher hv h.logs) (Replicated.sound_adopt h.sound hi hT) rfl
      (sendsNothing rfl)⟩
  | rest =>
    exact ⟨_, h.keep (logSim_rest h.logs) (Replicated.sound_rest h.sound hi) rfl (sendsNothing rfl)⟩
  | campaign => exact ⟨_, streamed_campaign hid hv h⟩
  | tally => exact ⟨_, h.keep (logSim_tally h.logs) h.sound rfl (sendsNothing rfl)⟩
  | lead candidate quorum =>
    exact ⟨_, streamed_lead candidate hv
      (elected_of_tally hid hv candidate quorum hfixed htally hL h.logs.elections) h⟩
  | grant asked silent free upToDate =>
    rw [asked] at hev
    exact ⟨_, streamed_grant hid hv free upToDate hev h⟩
  | quiet hq speaks =>
    have hcalm := fun hsame => streamed_calm hq hsame speaks hid hv hfixed hev hfits hchecks h
    cases hmove.logCases hl.shaped with
    | quiet hsame => exact hcalm hsame.sameLog
    | learnCommit | applyNone | applyEntry | commit => exact hcalm (SameLog.refl _)
    | place asked consistent nonempty => exact hplace _ _ _ _ _ asked rfl consistent nonempty
    | append leader submits => exact ⟨_, streamed_append leader hv h⟩
    | compact raised found => exact ⟨_, streamed_compact found h⟩
    | install asked _ fits same fresh =>
      rcases hfits.install asked hterm same fits fresh with hx | ⟨e, he, hterm⟩
      · exact hinstall _ _ _ _ _ asked hx
      · exact ⟨_, streamed_installWithin he hterm h⟩

theorem streamed_move (hn : Handling d c g v ev n) (hmove : Move .testUtils ev (c.nodes v) n n')
    (h : Streamed d (ev.packet v) (c₀.withNode v n) g) :
    ∃ g', Replicated.Advances d.members.toFinset g g' ∧
      Streamed d (ev.packet v) (c₀.withNode v n') g' := by
  refine streamed_other hn.attending hmove h (fun sender prev pt es lc asked same consistent
    nonempty => ?_) fun sender leaderId offset data x asked hx => ?_
  · have hfits := hn.fits
    rw [← same, asked] at hfits
    rw [asked] at h ⊢
    exact ⟨_, streamed_place hn.member nonempty consistent
      (hfits ⟨rfl, consistent⟩ (by simpa using nonempty)) h⟩
  · rw [asked] at h ⊢
    exact ⟨_, streamed_installBeyond hn.member hx h⟩

end

/-! ## Runs -/

/-- Fixed membership, links that keep the order of messages and deliver none twice, logs that are
not torn from their snapshots, and no acceptance of an AppendEntries without entries by a log that
goes on beyond the entry checked. -/
def Orderly (d : Deployment SM) (c : Cluster P SM) (a : Action P) : Prop :=
  (SingleDelivery c a ∧ InOrder c a) ∧ OnEvents d (fun c v => FitsSnapshot (c.nodes v)) c a ∧
    OnEvents d (fun c v => EndsAtChecked (c.nodes v)) c a

instance (d : Deployment SM) (c : Cluster P SM) (a : Action P) : Decidable (Orderly d c a) :=
  inferInstanceAs (Decidable (_ ∧ _))

/-- What is known of a cluster after an orderly run. -/
structure Streaming (d : Deployment SM) (c : Cluster P SM) (g : Replicated NodeId (LogEntry P)) :
    Prop where
  settled : Settled c
  fixed : Fixed d c
  tallied : Tallied d c
  unique : Unique d c
  streamed : Streamed d [] c g

theorem streaming_init (d : Deployment SM) :
    Streaming d (Cluster.init d : Cluster P SM) Replicated.init := by
  have hrep := replicating_init (P := P) d
  refine ⟨hrep.settled, hrep.fixed, hrep.tallied, unique_init d, hrep.sim, Replicated.sound_init,
    ⟨?_, ?_, ?_, List.Pairwise.nil⟩, ?_⟩ <;> simp [Cluster.init]

section

variable {d : Deployment SM} {c c₀ : Cluster P SM} {g : Replicated NodeId (LogEntry P)}
  {v : NodeId} {ev : Event P} {a : Action P}

omit [StateMachine SM P] in
/-- The delivered message was the first of its link. -/
theorem Flow.deliver (h : Flow g c.network) (hh : Cluster.Handles d c a v ev c₀)
    (ho : InOrder c a) : Flow g (ev.packet v ++ c₀.network) := by
  cases hh with
  | @deliver k p found member =>
    have hp : p ∈ c.network := List.mem_of_getElem? found
    have hrest := h.sublist (List.eraseIdx_sublist c.network k)
    show Flow g (p :: c.network.eraseIdx k)
    refine ⟨fun q hq => ?_, fun q hq => ?_, fun q hq => ?_,
      List.pairwise_cons.mpr ⟨fun q hq => ?_, hrest.ordered⟩⟩
    · exact (List.mem_cons.mp hq).elim (fun he => he ▸ h.valid p hp) (hrest.valid q)
    · exact (List.mem_cons.mp hq).elim (fun he => he ▸ h.apart p hp) (hrest.apart q)
    · exact (List.mem_cons.mp hq).elim (fun he => he ▸ h.own p hp) (hrest.own q)
    · obtain ⟨j, hj, hjk⟩ := List.mem_eraseIdx_iff_getElem?.mp hq
      rcases Nat.lt_or_gt_of_ne hj with hlt | hlt
      · intro hsrc hdst
        exact absurd ⟨hsrc.symm, hdst.symm⟩ (ho j hlt q hjk p found)
      · have hkl := (List.getElem?_eq_some_iff.mp found).1
        have hjl := (List.getElem?_eq_some_iff.mp hjk).1
        have hrel := List.pairwise_iff_getElem.mp h.ordered k j hkl hjl hlt
        rwa [(List.getElem?_eq_some_iff.mp found).2, (List.getElem?_eq_some_iff.mp hjk).2] at hrel
  | timer | client | configChange => exact h

omit [StateMachine SM P] in
theorem Streaming.replicating (h : Streaming d c g) : Replicating d c g :=
  ⟨h.settled, h.fixed, h.tallied, h.streamed.logs⟩

/-- **The step of an orderly run**, with any further invariant `X` that every move can carry along
with the simulation. -/
theorem Streaming.step (h : Streaming d c g) (hok : Orderly d c a)
    {X : Cluster P SM → Replicated NodeId (LogEntry P) → Prop} (hX : X c g)
    (hnodes : ∀ c₁ c₂ g, c₂.nodes = c₁.nodes → c₂.messageLog = c₁.messageLog → X c₁ g → X c₂ g)
    (hmove : ∀ v ev c₀ n n' g₁ g₂, Cluster.Handles d c a v ev c₀ →
      Handling d c g₁ v ev n → RaftNode.Move .testUtils ev (c.nodes v) n n' →
      Streamed d (ev.packet v) (c₀.withNode v n) g₁ → X (c₀.withNode v n) g₁ →
      Replicated.Advances d.members.toFinset g₁ g₂ →
      Streamed d (ev.packet v) (c₀.withNode v n') g₂ →
      ∃ g₃, Replicated.Advances d.members.toFinset g₂ g₃ ∧
        Streamed d (ev.packet v) (c₀.withNode v n') g₃ ∧ X (c₀.withNode v n') g₃)
    (hrestart : ∀ v, X { c with nodes := Function.update c.nodes v ((c.nodes v).restart d) }
      (g.rest v))
    (hadvance : ∀ millis, X { c with nodes := fun v => (c.nodes v).advanceClock millis } g) :
    ∃ g', Replicated.Advances d.members.toFinset g g' ∧ Streaming d (c.step d a) g' ∧
      X (c.step d a) g' := by
  obtain ⟨⟨hsingle, horder⟩, hfits, hends⟩ := hok
  obtain ⟨hwhole, hunique⟩ := h.replicating.wholeLogs h.unique hsingle hfits
  obtain ⟨hs, hf, ht, _, hstr⟩ := h
  suffices hall : ∃ g', Replicated.Advances d.members.toFinset g g' ∧
      Streamed d [] (c.step d a) g' ∧ X (c.step d a) g' by
    obtain ⟨g', hadv, hstr', hX'⟩ := hall
    exact ⟨g', hadv, ⟨settled_step hs a, fixed_step hsingle.1 hs hf,
      tallied_step hsingle.1 hwhole.1.2 hs hf ht, hunique, hstr'⟩, hX'⟩
  have hi := hstr.logs.inv
  rcases Cluster.step_cases d c a with ⟨v, ev, c₀, hh, hstep⟩ | ⟨net, hnet, hstep⟩ |
    ⟨k, p, rfl, _, _⟩ | ⟨v, _, hstep⟩ | ⟨ms, _, hstep⟩
  · rw [hstep]
    have hstart : Streamed d (ev.packet v) c₀ g :=
      ⟨hstr.logs.of_nodes hh.nodes hh.messageLog, hstr.sound, hstr.flow.deliver hh horder,
        by rw [hh.messageLog]; exact hstr.acks⟩
    obtain ⟨g', hadv, hstr', hX'⟩ := Cluster.dispatch_simulate
      (fun c g => Streamed d (ev.packet v) c g ∧ X c g)
      (Replicated.Advances d.members.toFinset) Replicated.Advances.refl
      (fun _ _ _ => Replicated.Advances.trans) (by rw [hh.nodes]; exact (hs v).2)
      (fun n n' g₁ hmoves hmove' hadv hboth => by
        rw [hh.nodes] at hmoves hmove'
        have hat : Attending d c g₁ v ev n := .of_moves hs hf ht hstr.logs hwhole.1 hh
          (hfits v ev hh.handled) (hends v ev hh.handled).checksWhole hmoves hadv.le
        have hn : Handling d c g₁ v ev n := ⟨hat.id, hat.member, hat.fixed, hat.tally, hat.ballots,
          hat.sent, hat.delivered, hat.fits, hends v ev hh.handled, hat.term⟩
        obtain ⟨g₂, hadv₂, hstr₂⟩ := streamed_move hn hmove' hboth.1
        obtain ⟨g₃, hadv₃, hstr₃, hX₃⟩ :=
          hmove v ev c₀ n n' g₁ g₂ hh hn hmove' hboth.1 hboth.2 hadv₂ hstr₂
        exact ⟨g₃, hadv₂.trans hadv₃, hstr₃, hX₃⟩)
      ⟨hstart, hnodes c c₀ g hh.nodes hh.messageLog hX⟩
    exact ⟨g', hadv, ⟨hstr'.logs, hstr'.sound, hstr'.flow.sublist (List.sublist_append_right _ _),
      hstr'.acks⟩, hX'⟩
  · rw [hstep]
    exact ⟨g, .refl g, ⟨hstr.logs.of_nodes rfl rfl, hstr.sound, hstr.flow.sublist hnet, hstr.acks⟩,
      hnodes c _ g rfl rfl hX⟩
  · exact absurd hsingle.2 id
  · rw [hstep]
    obtain ⟨hle, hlogs⟩ := logSim_restart (v := v) hstr.logs
    exact ⟨_, Replicated.advances_of_log hle hi rfl,
      ⟨hlogs, Replicated.sound_rest hstr.sound hi, hstr.flow.of_log hle rfl,
        fun p hp => (hstr.acks p hp).mono hle⟩, hrestart v⟩
  · rw [hstep]
    exact ⟨g, .refl g, ⟨⟨electionSim_advance hstr.logs.elections, hi, hstr.logs.node,
      hstr.logs.sent⟩, hstr.sound, hstr.flow, hstr.acks⟩, hadvance ms⟩

end

end MetalRaft
