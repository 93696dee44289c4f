import MetalRaft.ElectionSafety
import MetalRaft.FullLog

/-!
# The cluster as a replicated log

On top of its ballot, the cluster follows `Voting.Replicated`: every storage stands for the log of
its member, and what leaders send comes out of their terms' ledgers.

* `LogPacket` — what a message in flight says about bids and ledgers.
* `LogSim` — the simulation; one lemma for each kind of move, each naming the move it follows.
* `FitsSnapshot` — the messages that would tear a log from its snapshot are left out: an
  AppendEntries whose entries begin below the log, and a snapshot that ends inside the log at an
  entry of another term.
* `Replicating.run` — the simulation along runs.
-/

set_option autoImplicit false

namespace MetalRaft

open Transition Voting

variable {P SM : Type} [StateMachine SM P]

/-! ## Messages -/

/-- The entries come out of the ledger of `T`, up to where it ended when they were sent, and so
does the entry before them. -/
structure ValidEntries (g : Replicated NodeId (LogEntry P)) (src : NodeId) (T prev pt : Nat)
    (es : List (LogEntry P)) : Prop where
  leader : g.ballot.leader T = some src
  entries : es <+: (g.ledger T).drop prev
  start : es ≠ [] → g.start T ≤ prev + es.length
  previous : prev = 0 ∨ (pt = 0 ∧ es = []) ∨ ∃ e, (g.ledger T)[prev - 1]? = some e ∧ e.term = pt

structure ValidSnapshot (g : Replicated NodeId (LogEntry P)) (src : NodeId) (T i t : Nat) :
    Prop where
  leader : g.ballot.leader T = some src
  pos : 0 < i
  entry : ∃ e, (g.ledger T)[i - 1]? = some e ∧ e.term = t

/-- What a message says about bids and ledgers. -/
def LogPacket (g : Replicated NodeId (LogEntry P)) (p : Packet P) : Prop :=
  match p.msg with
  | .requestVote T cand li lt =>
    T ≤ g.ballot.term cand ∧ (g.bid cand T).length = li ∧ Replicated.lastStamp (g.bid cand T) = lt
  | .appendEntries T prev pt es _ => ValidEntries g p.src T prev pt es
  | .installSnapshot T _ i t _ _ _ => ValidSnapshot g p.src T i t
  | _ => True

section

variable {g g' : Replicated NodeId (LogEntry P)} {p : Packet P} {members : Finset NodeId}
  {src v : NodeId} {T prev pt i t : Nat} {es : List (LogEntry P)} {s : InMemoryStorage P}

omit [StateMachine SM P]

theorem getElem?_of_isPrefix {α : Type} {l l' : List α} {x : α} (h : l <+: l')
    (hx : l[i]? = some x) : l'[i]? = some x := by
  obtain ⟨k, rfl⟩ := h
  rw [List.getElem?_append_left (List.getElem?_eq_some_iff.mp hx).1]
  exact hx

theorem ValidEntries.mono (hle : Replicated.Le g g') (h : ValidEntries g src T prev pt es) :
    ValidEntries g' src T prev pt es := by
  refine ⟨hle.ballot.leader _ _ h.leader, h.entries.trans ((hle.ledger T).drop prev), ?_, ?_⟩
  · rw [hle.start _ _ h.leader]
    exact h.start
  · refine h.previous.imp id (Or.imp id ?_)
    rintro ⟨e, he, hterm⟩
    exact ⟨e, getElem?_of_isPrefix (hle.ledger T) he, hterm⟩

theorem ValidSnapshot.mono (hle : Replicated.Le g g') (h : ValidSnapshot g src T i t) :
    ValidSnapshot g' src T i t := by
  obtain ⟨e, he, hterm⟩ := h.entry
  exact ⟨hle.ballot.leader _ _ h.leader, h.pos, e, getElem?_of_isPrefix (hle.ledger T) he, hterm⟩

theorem LogPacket.mono (hle : Replicated.Le g g') (h : LogPacket g p) : LogPacket g' p := by
  obtain ⟨src, dst, msg⟩ := p
  cases msg with
  | requestVote T cand li lt =>
    obtain ⟨hT, hlen, hstamp⟩ := h
    refine ⟨hT.trans (hle.ballot.term _), ?_⟩
    rw [hle.bid _ _ hT]
    exact ⟨hlen, hstamp⟩
  | appendEntries => exact ValidEntries.mono hle h
  | installSnapshot => exact ValidSnapshot.mono hle h
  | _ => trivial

/-! ## Accepting -/

theorem take_append_of_isPrefix {α : Type} {l es : List α} (h : es <+: l.drop prev) :
    l.take prev ++ es = l.take (prev + es.length) := by
  obtain ⟨k, hk⟩ := h
  rw [List.take_add, ← hk, List.take_append_of_le_length (Nat.le_refl _), List.take_length]

/-- **A log that passes the consistency check agrees with the ledger** up to the entry checked. -/
theorem ValidEntries.agree (h : ValidEntries g src T prev pt es) (hi : g.Inv members)
    (hl : FullLog s (g.log v))
    (hc : LogReplicationManager.checkLogConsistency prev pt s = true) :
    Agree prev (g.log v) (g.ledger T) ∧ prev ≤ (g.log v).length := by
  obtain ⟨hle, hprev⟩ := hl.consistent hc
  refine ⟨?_, hle⟩
  rcases hprev with rfl | ⟨e, he, hterm⟩
  · exact Agree.zero _ _
  have hpos : 0 < e.term := (hi.log_stamp v e (List.mem_of_getElem? he)).1
  rcases h.previous with rfl | ⟨rfl, _⟩ | ⟨e', he', hterm'⟩
  · exact Agree.zero _ _
  · omega
  · refine ((hi.log v).matching (hi.ledger T) he he' (hterm.trans hterm'.symm)).mono ?_
    omega

/-- A log with the last entry of a snapshot agrees with the ledger up to there. -/
theorem ValidSnapshot.agree (h : ValidSnapshot g src T i t) (hi : g.Inv members)
    {e : LogEntry P} (he : (g.log v)[i - 1]? = some e) (hterm : e.term = t) :
    Agree i (g.log v) (g.ledger T) := by
  obtain ⟨e', he', hterm'⟩ := h.entry
  refine ((hi.log v).matching (hi.ledger T) he he' (hterm.trans hterm'.symm)).mono ?_
  omega

/-! ## Sending -/

/-- What a leader sends a peer is valid, and its entries reach to the end of the ledger. -/
theorem logPacket_entries (hl : FullLog s (g.ledger s.currentTerm)) (hi : g.Inv members)
    (hleader : g.ballot.leader s.currentTerm = some src) (r : LogReplicationManager)
    (peer leaderId : NodeId) :
    LogPacket g ⟨src, v, r.getAppendEntriesForPeer peer leaderId s⟩ := by
  rcases getAppendEntriesForPeer_cases r peer leaderId s with ⟨m, data, hm, _, heq⟩ | heq <;>
    rw [heq]
  · obtain ⟨hpos, e, he, hterm⟩ := hl.boundary m hm
    exact ⟨hleader, hpos, e, he, hterm⟩
  · obtain ⟨prev, pt, es, heq, hes, hprev⟩ := hl.request r peer s.currentTerm
    rw [heq]
    refine ⟨hleader, ?_, fun hne => ?_, hprev⟩
    · rcases hes with rfl | rfl
      · exact List.nil_prefix
      · exact List.prefix_refl _
    · rcases hes with rfl | rfl
      · exact absurd rfl hne
      · have := hi.start_le s.currentTerm
        rw [List.length_drop]
        omega

theorem logPacket_speaks {ev : Event P} {n₀ n : TestNode P SM} {target : NodeId} {msg : RaftMsg P}
    (hl : FullLog n.storage (g.log v)) (hi : g.Inv members)
    (hterm : n.storage.currentTerm = g.ballot.term v)
    (hrole : n.role.toRole = g.ballot.role v) (hnochange : ¬ n.HoldsConfigChange)
    (h : RaftNode.Speaks .testUtils ev n₀ n target msg) : LogPacket g ⟨v, target, msg⟩ := by
  cases h with
  | entries peer leader =>
    have hlead : g.ballot.role v = .leading := by
      rw [← hrole, leader.resolve_right hnochange]; rfl
    refine logPacket_entries ?_ hi ?_ n.replication target n.id
    · rw [hterm, hi.leading v hlead]; exact hl
    · rw [hterm]; exact hi.ballot.leading v hlead
  | _ => trivial

end

/-! ## The simulation -/

structure LogSim (d : Deployment SM) (c : Cluster P SM) (g : Replicated NodeId (LogEntry P)) :
    Prop where
  elections : ElectionSim d c g.ballot
  inv : g.Inv d.members.toFinset
  node : ∀ v ∈ d.members, FullLog (c.nodes v).storage (g.log v)
  sent : ∀ p ∈ c.messageLog, LogPacket g p

section

variable {d : Deployment SM} {c : Cluster P SM} {g g' : Replicated NodeId (LogEntry P)}
  {v u : NodeId} {ev : Event P} {n₀ n n' : TestNode P SM}

omit [StateMachine SM P]

/-- What is in flight does not matter. -/
theorem LogSim.of_nodes {c₀ : Cluster P SM} (h : LogSim d c g) (hnodes : c₀.nodes = c.nodes)
    (hlog : c₀.messageLog = c.messageLog) : LogSim d c₀ g :=
  ⟨⟨h.elections.inv, by rw [hnodes]; exact h.elections.node,
    by rw [hlog]; exact h.elections.sent⟩, h.inv, by rw [hnodes]; exact h.node,
    by rw [hlog]; exact h.sent⟩

theorem LogSim.self (h : LogSim d (c.withNode v n) g) (hv : v ∈ d.members) :
    BallotNode g.ballot v n ∧ FullLog n.storage (g.log v) := by
  refine ⟨h.elections.self hv, ?_⟩
  have hnode := h.node v hv
  rw [Cluster.withNode_nodes_self] at hnode
  exact hnode

/-- Who leads has the ledger of its term for a log. -/
theorem LogSim.leads (h : LogSim d c g) (hv : v ∈ d.members) (hlead : (c.nodes v).role = .leader) :
    g.ballot.leader (c.nodes v).currentTerm = some v ∧
      g.ledger (c.nodes v).currentTerm = g.log v := by
  have hb := h.elections.node v hv
  have hrole : g.ballot.role v = .leading := by rw [← hb.role, hlead]; rfl
  refine ⟨h.elections.leader hv hlead, ?_⟩
  rw [hb.currentTerm]
  exact h.inv.leading v hrole

/-- A move of `v` carries the simulation along when it is right about the log of `v` and about
what `v` sends. -/
theorem LogSim.update (h : LogSim d (c.withNode v n) g)
    (helections : ElectionSim d (c.withNode v n') g'.ballot) (hinv : g'.Inv d.members.toFinset)
    (hle : Replicated.Le g g') (hothers : ∀ u, u ≠ v → g'.log u = g.log u)
    (hnode : FullLog n.storage (g.log v) → FullLog n'.storage (g'.log v))
    (hout : ∃ outs, n'.outbox = n.outbox ++ outs ∧ ∀ p ∈ outs, LogPacket g' p) :
    Replicated.Le g g' ∧ LogSim d (c.withNode v n') g' := by
  refine ⟨hle, helections, hinv, fun u hu => ?_, fun p hp => ?_⟩
  · have hold := h.node u hu
    by_cases huv : u = v
    · subst huv
      rw [Cluster.withNode_nodes_self] at hold ⊢
      exact hnode hold
    · rw [Cluster.withNode_nodes_ne huv] at hold ⊢
      rw [hothers u huv]
      exact hold
  · obtain ⟨outs, heq, houts⟩ := hout
    rw [Cluster.withNode_messageLog, heq, ← List.append_assoc] at hp
    rcases List.mem_append.mp hp with hp | hp
    · exact (h.sent p hp).mono hle
    · exact houts p hp

/-- Nothing is sent. -/
theorem silentMove {K : Packet P → Prop} (h : n'.outbox = n.outbox) :
    ∃ outs, n'.outbox = n.outbox ++ outs ∧ ∀ p ∈ outs, K p := ⟨[], by simp [h], by simp⟩

/-! ### The moves -/

open RaftNode

theorem logSim_calm (hq : Quiet n n') (hsame : SameLog n.storage n'.storage)
    (hout : SpeaksOnly ev n₀ n n') (hid : n.id = v) (hv : v ∈ d.members) (hfixed : FixedNode d n)
    (h : LogSim d (c.withNode v n) g) :
    Replicated.Le g g ∧ LogSim d (c.withNode v n') g := by
  obtain ⟨hb, hl⟩ := h.self hv
  refine h.update (electionSim_quiet hq hout h.elections).2 h.inv (Replicated.Le.refl g)
    (fun _ _ => rfl) (FullLog.of_same hsame) ?_
  obtain ⟨outs, heq, houts⟩ := hout
  refine ⟨outs, heq, fun p hp => ?_⟩
  obtain ⟨hsrc, hspeak⟩ := houts p hp
  obtain ⟨src, dst, msg⟩ := p
  dsimp only at hsrc hspeak
  rw [hsrc, hid]
  exact logPacket_speaks hl h.inv hb.stored hb.role hfixed.holdsNoChange hspeak

/-- Elections do not notice a quiet move that sends nothing. -/
theorem electionSim_silent {b : Ballot NodeId} (h : ElectionSim d (c.withNode v n) b)
    (hq : Quiet n n') (hsilent : n'.outbox = n.outbox) : ElectionSim d (c.withNode v n') b :=
  have hout : SpeaksOnly (.timerFired .election) n n n' := speaksNothing hsilent
  (electionSim_quiet hq hout h).2

/-- Nothing is sent, and the log is still that of the member. -/
theorem logSim_keep (h : LogSim d (c.withNode v n) g) (hq : Quiet n n')
    (hsilent : n'.outbox = n.outbox)
    (hnode : FullLog n.storage (g.log v) → FullLog n'.storage (g.log v)) :
    Replicated.Le g g ∧ LogSim d (c.withNode v n') g :=
  h.update (electionSim_silent h.elections hq hsilent) h.inv (Replicated.Le.refl g)
    (fun _ _ => rfl) hnode (silentMove hsilent)

theorem logSim_tally {sender : NodeId} (h : LogSim d (c.withNode v n) g) :
    Replicated.Le g g ∧ LogSim d (c.withNode v (n.counting .testUtils sender)) g :=
  h.update (electionSim_tally h.elections).2 h.inv (Replicated.Le.refl g) (fun _ _ => rfl)
    (fun hl => hl) (silentMove rfl)

theorem logSim_adoptTerm {T : Nat} (higher : n.currentTerm < T) (hv : v ∈ d.members)
    (h : LogSim d (c.withNode v n) g) :
    Replicated.Le g (g.adopt v T) ∧ LogSim d (c.withNode v (n.inTerm T)) (g.adopt v T) := by
  have hT : g.ballot.term v < T := by
    have := (h.self hv).1.currentTerm
    omega
  exact h.update (electionSim_adoptTerm higher hv h.elections).2
    (Replicated.inv_adopt h.inv hT) (Replicated.le_adopt (Nat.le_of_lt hT)) (fun _ _ => rfl)
    (FullLog.of_same ⟨rfl, rfl, rfl⟩) (silentMove rfl)

theorem logSim_rest (h : LogSim d (c.withNode v n) g) :
    Replicated.Le g (g.rest v) ∧
      LogSim d (c.withNode v { n with role := .follower }) (g.rest v) :=
  h.update (electionSim_rest h.elections).2 (Replicated.inv_rest h.inv) Replicated.le_rest
    (fun _ _ => rfl) (fun hl => hl) (silentMove rfl)

theorem logSim_campaign {peers : List NodeId} (hid : n.id = v) (hv : v ∈ d.members)
    (h : LogSim d (c.withNode v n) g) :
    Replicated.Le g (g.campaign v) ∧ LogSim d (c.withNode v
      { n.standing with
        transport := n.transport ++ peers.map fun t =>
          ⟨t, .requestVote (n.currentTerm + 1) n.id n.standing.storage.lastLogIndex
            n.standing.storage.lastLogTerm, n.standing.storage⟩ }) (g.campaign v) := by
  obtain ⟨hb, hl⟩ := h.self hv
  have hstanding : FullLog n.standing.storage (g.log v) :=
    FullLog.of_same (s := n.storage) ⟨rfl, rfl, rfl⟩ hl
  refine h.update (electionSim_campaign hid h.elections hv).2 (Replicated.inv_campaign h.inv)
    (Replicated.le_campaign h.inv) (fun _ _ => rfl) (fun _ => hstanding)
    ⟨_, outbox_append n.standing _, fun p hp => ?_⟩
  simp only [List.map_map, List.mem_map, Function.comp] at hp
  obtain ⟨t, _, rfl⟩ := hp
  refine ⟨?_, ?_, ?_⟩
  · simp [Replicated.campaign, Ballot.campaign, hid, hb.currentTerm]
  · rw [hstanding.lastLogIndex]
    simp [Replicated.campaign, hid, hb.currentTerm]
  · rw [hstanding.lastLogTerm]
    simp [Replicated.campaign, hid, hb.currentTerm]

theorem logSim_lead (hcand : n.role = .candidate) (hv : v ∈ d.members)
    (hel : Ballot.Elected d.members.toFinset g.ballot v (g.ballot.term v))
    (h : LogSim d (c.withNode v n) g) :
    Replicated.Le g (g.lead v) ∧ LogSim d (c.withNode v (n.leading .testUtils)) (g.lead v) := by
  have hrole : g.ballot.role v = .standing := by rw [← (h.self hv).1.role, hcand]; rfl
  exact h.update (electionSim_lead hcand hv hel h.elections).2
    (Replicated.inv_lead h.inv hrole hel)
    (Replicated.le_lead h.inv (h.inv.ballot.leader_eq_none hrole hel)) (fun _ _ => rfl)
    (fun hl => hl) (silentMove rfl)

theorem logSim_grant {sender cand : NodeId} {li lt : Nat} (hid : n.id = v) (hv : v ∈ d.members)
    (free : n.storage.votedFor = none ∨ n.storage.votedFor = some cand)
    (hreq : BallotPacket g.ballot (⟨sender, v, .requestVote n.currentTerm cand li lt⟩ : Packet P))
    (h : LogSim d (c.withNode v n) g) :
    Replicated.Le g (g.vote v cand) ∧ LogSim d (c.withNode v
      ((n.withStorage (n.storage.setVotedFor (some cand))).send sender
        (.requestVoteResponse n.currentTerm true))) (g.vote v cand) := by
  have hb := (h.self hv).1
  have hfree : g.ballot.voted v (g.ballot.term v) = none ∨
      g.ballot.voted v (g.ballot.term v) = some cand := by rw [← hb.votedFor]; exact free
  have hcand : g.ballot.term v ≤ g.ballot.term cand := by
    obtain ⟨rfl, hle⟩ : cand = sender ∧ n.currentTerm ≤ g.ballot.term sender := hreq
    rw [← hb.currentTerm]
    exact hle
  refine h.update (electionSim_grant hid hv free hreq h.elections).2
    (Replicated.inv_vote h.inv hfree hcand) (Replicated.le_vote hfree) (fun _ _ => rfl)
    (FullLog.of_same ⟨rfl, rfl, rfl⟩)
    ⟨_, outbox_append (n.withStorage _) _, fun p hp => ?_⟩
  simp only [List.map_cons, List.map_nil, List.mem_singleton] at hp
  subst hp
  trivial

/-- Who is sent entries of its own term by another does not lead the term. -/
theorem notLeading {members : Finset NodeId} {sender : NodeId} (hi : g.Inv members)
    (hb : BallotNode g.ballot v n) (hleader : g.ballot.leader n.currentTerm = some sender)
    (hne : sender ≠ v) : g.ballot.role v ≠ .leading := by
  intro hlead
  have hown := hi.ballot.leading v hlead
  rw [← hb.currentTerm, hleader] at hown
  exact hne (Option.some.inj hown)

/-- Entries that are accepted come out of the ledger of the node's term, like all before them. -/
theorem logSim_place {sender : NodeId} {prev pt lc : Nat} {es : List (LogEntry P)}
    (hv : v ∈ d.members) (hne : sender ≠ v) (nonempty : es ≠ [])
    (consistent : LogReplicationManager.checkLogConsistency prev pt n.storage = true)
    (hfits : n.storage.firstIndex ≤ prev + 1)
    (hreq : LogPacket g (⟨sender, v, .appendEntries n.currentTerm prev pt es lc⟩ : Packet P))
    (h : LogSim d (c.withNode v n) g) :
    Replicated.Le g (g.accept v (prev + es.length)) ∧ LogSim d (c.withNode v
      (n.withStorage (n.storage.withLog (n.storage.placedLog prev es))))
      (g.accept v (prev + es.length)) := by
  obtain ⟨hb, hl⟩ := h.self hv
  have hvalid : ValidEntries g sender n.currentTerm prev pt es := hreq
  obtain ⟨hagree, hlen⟩ := hvalid.agree h.inv hl consistent
  have hsnap : n.storage.snapIndex ≤ prev := by
    have : n.storage.firstIndex = n.storage.snapIndex + 1 := hl.shaped
    omega
  refine h.update (electionSim_silent h.elections ⟨rfl, rfl, rfl, rfl, rfl⟩ rfl)
    (Replicated.inv_accept h.inv
    (notLeading h.inv hb hvalid.leader hne)) Replicated.le_accept
    (fun u hu => by simp [Replicated.accept, hu]) (fun hl => ?_) (silentMove rfl)
  have hplaced := hl.place hsnap hlen nonempty
  rw [show (g.log v).take prev = (g.ledger n.currentTerm).take prev from hagree,
    take_append_of_isPrefix hvalid.entries, hb.currentTerm] at hplaced
  simpa [Replicated.accept] using hplaced

theorem logSim_append {entryType : EntryType P} (leader : n.role = .leader) (hv : v ∈ d.members)
    (h : LogSim d (c.withNode v n) g) :
    Replicated.Le g (g.append v ⟨n.currentTerm, entryType⟩) ∧ LogSim d (c.withNode v
      (n.withStorage (n.storage.withLog (n.storage.log ++ [⟨n.currentTerm, entryType⟩]))))
      (g.append v ⟨n.currentTerm, entryType⟩) := by
  have hb := (h.self hv).1
  have hrole : g.ballot.role v = .leading := by rw [← hb.role, leader]; rfl
  refine h.update (electionSim_silent h.elections ⟨rfl, rfl, rfl, rfl, rfl⟩ rfl)
    (Replicated.inv_append h.inv hrole hb.currentTerm)
    (Replicated.le_append h.inv hrole) (fun u hu => by simp [Replicated.append, hu])
    (fun hl => ?_) (silentMove rfl)
  simpa [Replicated.append] using hl.append [⟨n.currentTerm, entryType⟩]

theorem logSim_compact [StateMachine SM P] {e : LogEntry P}
    (found : n.storage.getEntry n.replication.commitIndex = some e)
    (h : LogSim d (c.withNode v n) g) :
    Replicated.Le g g ∧ LogSim d (c.withNode v
      (n.withStorage (n.storage.compactedTo (n.ownSnapshot e.term)))) g := by
  refine logSim_keep h ⟨rfl, rfl, rfl, rfl, rfl⟩ rfl (fun hl => ?_)
  obtain ⟨hpos, _, he⟩ := hl.of_getEntry found
  exact hl.compact (Nat.le_of_lt (hl.shaped.getEntry_bounds found).1) hpos he rfl

/-- A snapshot that ends at an entry the log has covers a beginning of the log. -/
theorem logSim_installWithin [StateMachine SM P] {x : Snapshot} {e : LogEntry P}
    (found : n.storage.getEntry x.metadata.lastIncludedIndex = some e)
    (hterm : e.term = x.metadata.lastIncludedTerm) (h : LogSim d (c.withNode v n) g) :
    Replicated.Le g g ∧ LogSim d (c.withNode v (n.installed x)) g := by
  refine logSim_keep h ⟨rfl, rfl, rfl, rfl, rfl⟩ rfl (fun hl => ?_)
  obtain ⟨hpos, _, he⟩ := hl.of_getEntry found
  exact (hl.compact (Nat.le_of_lt (hl.shaped.getEntry_bounds found).1) hpos he hterm).of_same
    (installed_sameLog n x)

/-- A snapshot that reaches as far as the log replaces it. -/
theorem logSim_installBeyond [StateMachine SM P] {sender leaderId : NodeId} {offset : Nat}
    {data : List UInt8} {done : Bool} {x : Snapshot} (hv : v ∈ d.members) (hne : sender ≠ v)
    (hx : n.storage.lastLogIndex ≤ x.metadata.lastIncludedIndex)
    (hreq : LogPacket g (⟨sender, v, .installSnapshot n.currentTerm leaderId
      x.metadata.lastIncludedIndex x.metadata.lastIncludedTerm offset data done⟩ : Packet P))
    (h : LogSim d (c.withNode v n) g) :
    Replicated.Le g (g.accept v x.metadata.lastIncludedIndex) ∧
      LogSim d (c.withNode v (n.installed x)) (g.accept v x.metadata.lastIncludedIndex) := by
  obtain ⟨hb, _⟩ := h.self hv
  obtain ⟨hleader, hpos, e, he, hterm⟩ :
    ValidSnapshot g sender n.currentTerm x.metadata.lastIncludedIndex
      x.metadata.lastIncludedTerm := hreq
  refine h.update (electionSim_silent h.elections ⟨rfl, rfl, rfl, rfl, rfl⟩ rfl)
    (Replicated.inv_accept h.inv (notLeading h.inv hb hleader hne)) Replicated.le_accept
    (fun u hu => by simp [Replicated.accept, hu]) (fun hl => ?_) (silentMove rfl)
  have hlen := (List.getElem?_eq_some_iff.mp he).1
  have hreplaced : FullLog (n.storage.compactedTo x)
      ((g.ledger n.currentTerm).take x.metadata.lastIncludedIndex) :=
    hl.replace hx (by rw [List.length_take]; omega) hpos
        (by rw [List.getElem?_take_of_lt (by omega)]; exact he) hterm
  rw [hb.currentTerm] at hreplaced
  simpa [Replicated.accept] using hreplaced.of_same (installed_sameLog n x)

end

/-! ### Any move -/

/-- The node accepts these entries into its log. -/
def Accepts (n : TestNode P SM) (T prev pt : Nat) : Prop :=
  T = n.currentTerm ∧ LogReplicationManager.checkLogConsistency prev pt n.storage = true

instance (n : TestNode P SM) (T prev pt : Nat) : Decidable (Accepts n T prev pt) :=
  inferInstanceAs (Decidable (_ ∧ _))

/-- The node completes the transfer of a snapshot that ends at `i`. -/
def Completes (n : TestNode P SM) (T i offset : Nat) (done : Bool) : Prop :=
  n.currentTerm ≤ T ∧ done = true ∧ offset = (n.storage.pendingFor offset).length ∧
    LogReplicationManager.alreadyCovered i n.storage = false

instance (n : TestNode P SM) (T i offset : Nat) (done : Bool) :
    Decidable (Completes n T i offset done) :=
  inferInstanceAs (Decidable (_ ∧ _))

/-- The event does not tear the log from its snapshot: accepted entries do not begin below the
log, and a completed snapshot reaches as far as the log or ends at an entry of the log. -/
def FitsSnapshot (n : TestNode P SM) : Event P → Prop
  | .message _ (.appendEntries T prev pt es _) =>
    Accepts n T prev pt → es.isEmpty = false → n.storage.firstIndex ≤ prev + 1
  | .message _ (.installSnapshot T _ i t offset _ done) =>
    Completes n T i offset done →
      n.storage.lastLogIndex ≤ i ∨ ∃ e ∈ n.storage.getEntry i, e.term = t
  | _ => True

instance (n : TestNode P SM) : (ev : Event P) → Decidable (FitsSnapshot n ev)
  | .message _ (.appendEntries T prev pt es _) => inferInstanceAs (Decidable
      (Accepts n T prev pt → es.isEmpty = false → n.storage.firstIndex ≤ prev + 1))
  | .message _ (.installSnapshot T _ i t offset _ done) => inferInstanceAs (Decidable
      (Completes n T i offset done →
        n.storage.lastLogIndex ≤ i ∨ ∃ e ∈ n.storage.getEntry i, e.term = t))
  | .message _ (.requestVote _ _ _ _) | .message _ (.requestVoteResponse _ _)
  | .message _ (.preVoteRequest _ _ _ _) | .message _ (.preVoteResponse _ _)
  | .message _ (.appendEntriesResponse _ _ _) | .message _ (.installSnapshotResponse _ _)
  | .timerFired _ | .clientCommand _ | .configChange _ => isTrue trivial

/-- What a node knows of the event that it handles. -/
structure Delivered (d : Deployment SM) (g : Replicated NodeId (LogEntry P)) (v : NodeId)
    (ev : Event P) : Prop where
  sound : ∀ sender msg, ev = .message sender msg →
    sender ≠ v ∧ BallotPacket g.ballot ⟨sender, v, msg⟩ ∧ LogPacket g ⟨sender, v, msg⟩

section

variable {d : Deployment SM} {c : Cluster P SM} {g g' : Replicated NodeId (LogEntry P)}
  {v : NodeId} {ev : Event P} {n₀ n n' : TestNode P SM}

open RaftNode

omit [StateMachine SM P] in
theorem Delivered.mono (hle : Replicated.Le g g') (h : Delivered d g v ev) :
    Delivered d g' v ev :=
  ⟨fun sender msg he =>
    let ⟨hne, hb, hl⟩ := h.sound sender msg he
    ⟨hne, hb.mono hle.ballot, hl.mono hle⟩⟩

omit [StateMachine SM P] in
/-- A transfer that is completed while the event is handled was one from the start. -/
theorem completes_of_same {i offset : Nat} (hterm : n₀.currentTerm ≤ n.currentTerm)
    (same : SameData n₀ n) (fits : offset = (n.storage.pendingFor offset).length)
    (fresh : LogReplicationManager.alreadyCovered i n.storage = false) :
    SameLog n₀.storage n.storage ∧ Completes n₀ n.currentTerm i offset true := by
  obtain ⟨hsame, hpending⟩ : SameLog n₀.storage n.storage ∧
      n₀.storage.pendingFor offset = n.storage.pendingFor offset := by
    rcases same.storage with heq | heq <;> rw [heq]
    · exact ⟨.refl _, rfl⟩
    · exact ⟨⟨rfl, rfl, rfl⟩, rfl⟩
  have hcovered : LogReplicationManager.alreadyCovered i n₀.storage = false := by
    unfold LogReplicationManager.alreadyCovered at fresh ⊢
    simpa [InMemoryStorage.snapshotMetadata, hsame.snapshot] using fresh
  exact ⟨hsame, hterm, rfl, by rw [hpending]; exact fits, hcovered⟩

omit [StateMachine SM P] in
/-- A completed snapshot is one of the two kinds that fit. -/
theorem FitsSnapshot.install (hfits : FitsSnapshot n₀ ev) {sender leaderId : NodeId}
    {i t offset : Nat} {data : List UInt8}
    (asked : ev = .message sender (.installSnapshot n.currentTerm leaderId i t offset data true))
    (hterm : n₀.currentTerm ≤ n.currentTerm) (same : SameData n₀ n)
    (fits : offset = (n.storage.pendingFor offset).length)
    (fresh : LogReplicationManager.alreadyCovered i n.storage = false) :
    n.storage.lastLogIndex ≤ i ∨ ∃ e, n.storage.getEntry i = some e ∧ e.term = t := by
  subst asked
  obtain ⟨hsame, hcompletes⟩ := completes_of_same hterm same fits fresh
  rw [hsame.lastLogIndex, hsame.getEntry]
  exact hfits hcompletes

theorem logSim_move (hid : n.id = v) (hv : v ∈ d.members) (hfixed : FixedNode d n)
    {L : List (Packet P)} (htally : TallyNode d L n) (hL : ∀ p ∈ L, BallotPacket g.ballot p)
    (hev : Delivered d g v ev) (hfits : FitsSnapshot n₀ ev)
    (hterm : n₀.currentTerm ≤ n.currentTerm) (hmove : Move .testUtils ev n₀ n n')
    (h : LogSim d (c.withNode v n) g) :
    ∃ g', Replicated.Le g g' ∧ LogSim d (c.withNode v n') g' := by
  obtain ⟨hb, hl⟩ := h.self hv
  cases hmove.voteCases hfixed with
  | adoptTerm higher => exact ⟨_, logSim_adoptTerm higher hv h⟩
  | rest => exact ⟨_, logSim_rest h⟩
  | campaign => exact ⟨_, logSim_campaign hid hv h⟩
  | tally => exact ⟨_, logSim_tally h⟩
  | lead candidate quorum =>
    exact ⟨_, logSim_lead candidate hv
      (elected_of_tally hid hv candidate quorum hfixed htally hL h.elections) h⟩
  | grant asked silent free => exact ⟨_, logSim_grant hid hv free (hev.sound _ _ asked).2.1 h⟩
  | quiet hq speaks =>
    have hcalm := fun hsame => (⟨g, logSim_calm hq hsame speaks hid hv hfixed h⟩ :
      ∃ g', Replicated.Le g g' ∧ LogSim d (c.withNode v n') g')
    cases hmove.logCases hl.shaped with
    | quiet hsame => exact hcalm hsame.sameLog
    | learnCommit | applyNone | applyEntry | commit => exact hcalm (SameLog.refl _)
    | @place sender prev pt es lc asked consistent nonempty =>
      obtain ⟨hne, _, hreq⟩ := hev.sound _ _ asked
      rw [asked] at hfits
      exact ⟨_, logSim_place hv hne nonempty consistent
        (hfits ⟨rfl, consistent⟩ (by simpa using nonempty)) hreq h⟩
    | append leader submits => exact ⟨_, logSim_append leader hv h⟩
    | compact raised found => exact ⟨_, logSim_compact found h⟩
    | @install _ sender leaderId offset data x asked _ fits same fresh =>
      obtain ⟨hne, _, hreq⟩ := hev.sound _ _ asked
      rcases hfits.install asked hterm same fits fresh with hx | ⟨e, he, hterm⟩
      · exact ⟨_, logSim_installBeyond hv hne hx hreq h⟩
      · exact ⟨_, logSim_installWithin he hterm h⟩

/-! ### Runs -/

/-- The runs in which logs stay whole: no vote counted again, nothing torn. -/
def WholeLogs (d : Deployment SM) (c : Cluster P SM) (a : Action P) : Prop :=
  OneVoteEach d c a ∧ OnEvents d (fun c v => FitsSnapshot (c.nodes v)) c a

instance (d : Deployment SM) (c : Cluster P SM) (a : Action P) : Decidable (WholeLogs d c a) :=
  inferInstanceAs (Decidable (_ ∧ _))

/-- What is known of a cluster whose logs have stayed whole. -/
structure Replicating (d : Deployment SM) (c : Cluster P SM) (g : Replicated NodeId (LogEntry P)) :
    Prop where
  settled : Settled c
  fixed : Fixed d c
  tallied : Tallied d c
  sim : LogSim d c g

theorem replicating_init (d : Deployment SM) :
    Replicating d (Cluster.init d : Cluster P SM) Replicated.init := by
  have hel := electing_init (P := P) d
  refine ⟨hel.settled, hel.fixed, hel.tallied, hel.sim, Replicated.inv_init, fun v _ => ?_, ?_⟩
  · exact ⟨rfl, Nat.zero_le _, rfl, fun m hm => by cases hm⟩
  · simp [Cluster.init]

omit [StateMachine SM P] in
/-- What is delivered has been sent. -/
theorem Cluster.Handles.delivery {c₀ : Cluster P SM} {a : Action P} (hf : Fixed d c)
    (hh : Cluster.Handles d c a v ev c₀) (h : LogSim d c g) : Delivered d g v ev := by
  refine ⟨?_⟩
  rintro sender msg rfl
  have hlog := hf.inFlight _ hh.delivered
  exact ⟨(hf.sent _ hlog).ne.symm, h.elections.sent _ hlog, h.sent _ hlog⟩

theorem logSim_restart (h : LogSim d c g) :
    Replicated.Le g (g.rest v) ∧ LogSim d
      { c with nodes := Function.update c.nodes v ((c.nodes v).restart d) } (g.rest v) := by
  refine ⟨Replicated.le_rest, (electionSim_restart h.elections).2, Replicated.inv_rest h.inv,
    fun u hu => ?_, fun p hp => (h.sent p hp).mono Replicated.le_rest⟩
  have hold := h.node u hu
  by_cases huv : u = v
  · subst huv
    simp only [Function.update_self]
    exact hold
  · simp only [Function.update_of_ne huv]
    exact hold

theorem logSim_step {a : Action P} (hok : WholeLogs d c a) (h : Replicating d c g) :
    ∃ g', Replicated.Le g g' ∧ LogSim d (c.step d a) g' := by
  obtain ⟨hs, hf, ht, hsim⟩ := h
  rcases Cluster.step_cases d c a with ⟨v, ev, c₀, hh, hstep⟩ | ⟨net, _, hstep⟩ |
    ⟨k, p, _, _, hstep⟩ | ⟨v, _, hstep⟩ | ⟨ms, _, hstep⟩ <;> rw [hstep]
  · have hv := hh.member
    have hlog : ∀ sender msg, ev = .message sender msg → ⟨sender, v, msg⟩ ∈ c.messageLog := by
      rintro sender msg rfl
      exact hf.inFlight _ hh.delivered
    have h₀ : LogSim d c₀ g := hsim.of_nodes hh.nodes hh.messageLog
    refine Cluster.dispatch_simulate (LogSim d) Replicated.Le Replicated.Le.refl
      (fun _ _ _ => Replicated.Le.trans) (by rw [hh.nodes]; exact (hs v).2) ?_ h₀
    intro n n' g' hmoves hmove hle hsim'
    rw [hh.nodes] at hmoves hmove
    exact logSim_move ((Moves.id_eq hmoves).trans (hs v).1) hv
      (hf.between hok.1.1 hv hh.handled hlog hmoves)
      (ht.between hs hf hok.1 hv hh.handled hlog hmoves)
      (fun p hp => (hsim.elections.sent p hp).mono hle.ballot) ((hh.delivery hf hsim).mono hle)
      (hok.2 v ev hh.handled) (Moves.currentTerm_le hmoves) hmove hsim'
  · exact ⟨g, Replicated.Le.refl g, hsim.of_nodes rfl rfl⟩
  · exact ⟨g, Replicated.Le.refl g, hsim.of_nodes rfl rfl⟩
  · exact ⟨_, logSim_restart hsim⟩
  · exact ⟨g, Replicated.Le.refl g, electionSim_advance hsim.elections, hsim.inv, hsim.node,
      hsim.sent⟩

theorem Replicating.step {a : Action P} (hok : WholeLogs d c a) (h : Replicating d c g) :
    ∃ g', Replicated.Le g g' ∧ Replicating d (c.step d a) g' := by
  obtain ⟨g', hle, hsim⟩ := logSim_step hok h
  exact ⟨g', hle, settled_step h.settled a, fixed_step hok.1.1 h.settled h.fixed,
    tallied_step hok.1.1 hok.1.2 h.settled h.fixed h.tallied, hsim⟩

/-- Where messages are delivered at most once, no vote is counted twice. -/
theorem Replicating.wholeLogs {a : Action P} (h : Replicating d c g) (hu : Unique d c)
    (hok : SingleDelivery c a) (hfits : OnEvents d (fun c v => FitsSnapshot (c.nodes v)) c a) :
    WholeLogs d c a ∧ Unique d (c.step d a) :=
  ⟨⟨⟨hok.1, countsOnce_of_unique h.fixed h.sim.elections hu a⟩, hfits⟩,
    unique_step hok h.settled h.fixed h.sim.elections hu⟩

end

end MetalRaft
