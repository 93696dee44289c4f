import MetalRaft.Cluster
import MetalRaft.Journal
import MetalRaft.LogFacts

/-!
# One vote per term

The term and the vote are written one after the other, so a crash can leave a new term with an
old vote.  A node runs here over a journal of its storage, and a crash takes the storage back to
what it was after any number of the writes of an event, with every message sent by then on its
way.

* `Life` — a node through events and crashes, with all the votes it has emitted.
* `Journaled` — between two moves: every vote emitted after some number of writes is backed by
  what the storage then holds.
* `Honest` — between two turns: stored terms never go down, the term in memory is the stored one,
  and the votes of a term name one candidate; `honest_step`.

Terms have no end here; `WrappingTerm` carries this over to `u64`.
-/

set_option autoImplicit false

namespace MetalRaft

open Transition

/-! ## A storage that remembers -/

instance {D P : Type} [Storage D P] : Storage (Journal D) P where
  currentTerm j := Storage.currentTerm j.disk
  setCurrentTerm j t := j.write (Storage.setCurrentTerm j.disk t)
  votedFor j := Storage.votedFor j.disk
  setVotedFor j v := j.write (Storage.setVotedFor j.disk v)
  lastLogIndex j := Storage.lastLogIndex j.disk
  lastLogTerm j := Storage.lastLogTerm j.disk
  getEntry j := Storage.getEntry j.disk
  getEntries j := Storage.getEntries j.disk
  appendEntries j es := j.write (Storage.appendEntries j.disk es)
  truncateAfter j i := j.write (Storage.truncateAfter j.disk i)
  saveSnapshot j x := j.write (Storage.saveSnapshot j.disk x)
  loadSnapshot j := Storage.loadSnapshot j.disk
  snapshotMetadata j := Storage.snapshotMetadata j.disk
  getSnapshotChunk j := Storage.getSnapshotChunk j.disk
  applySnapshotChunk j o x done i t :=
    (j.write (Storage.applySnapshotChunk j.disk o x done i t).1,
      (Storage.applySnapshotChunk j.disk o x done i t).2)
  discardEntriesBefore j i := j.write (Storage.discardEntriesBefore j.disk i)
  firstLogIndex j := Storage.firstLogIndex j.disk

/-! ## A node through events and crashes -/

variable {P D SM : Type} [Storage D P] [StateMachine SM P]

/-- What a node is built from, besides its id and its storage. -/
structure Setup (SM : Type) where
  stateMachine : SM
  timers : TimerService
  peers : List NodeId
  snapshotThreshold : Nat
  clock : Nat
  leaseDurationMillis : Nat

/-- A vote: a term and a candidate. -/
abbrev Vote := Nat × NodeId

/-- The vote that a message carries: an answer to a vote request grants the vote to the candidate
the request names, and a vote request tells of its sender's own vote. -/
def voteIn (ev : Event P) (msg : RaftMsg P) : Option Vote :=
  match msg, ev with
  | .requestVoteResponse term true, .message _ (.requestVote _ candidateId _ _) =>
    some (term, candidateId)
  | .requestVote term candidateId _ _, _ => some (term, candidateId)
  | _, _ => none

/-- The votes among the messages that had left after `m` writes. -/
def emitted (ev : Event P) (m : Nat) (outs : List (Outgoing P (Journal D))) : List Vote :=
  (outs.filter fun o => decide (o.stored.writes ≤ m)).filterMap fun o => voteIn ev o.msg

structure Life (P D SM : Type) where
  node : RaftNode P (Journal D) SM
  votes : List Vote

/-- An event is handled to its end, or the node crashes after `k` of its writes and is built again
from what is stored. -/
inductive Turn (P SM : Type) where
  | event (ev : Event P)
  | crash (ev : Event P) (k : Nat) (setup : Setup SM)

namespace Life

def boot (R : Realization) (id : NodeId) (setup : Setup SM) (storage : Journal D) :
    RaftNode P (Journal D) SM :=
  .newFromBuilder R id storage setup.stateMachine setup.timers [] setup.peers ⟨[]⟩
    setup.snapshotThreshold setup.clock setup.leaseDurationMillis

def start (R : Realization) (id : NodeId) (setup : Setup SM) (disk : D) : Life P D SM :=
  ⟨boot R id setup ⟨[], disk⟩, []⟩

def step (R : Realization) (l : Life P D SM) : Turn P SM → Life P D SM
  | .event ev =>
    let n := l.node.onEvent R ev
    ⟨{ n with transport := [] }, l.votes ++ emitted ev n.storage.writes n.transport⟩
  | .crash ev k setup =>
    let n := l.node.onEvent R ev
    let m := l.node.storage.writes + k
    ⟨boot R l.node.id setup (n.storage.rewind m), l.votes ++ emitted ev m n.transport⟩

end Life

/-! ## Votes backed by the storage -/

/-- The storage has not forgotten the vote: its term is past, or the vote is the stored one. -/
def Backs (d : D) (x : Vote) : Prop :=
  x.1 ≤ Storage.currentTerm d ∧ (x.1 = Storage.currentTerm d → Storage.votedFor d = some x.2)

/-- `votes` had been emitted before the event, `k₀` writes ago counted from the first one. -/
structure Journaled (ev : Event P) (votes : List Vote) (k₀ : Nat)
    (outs : List (Outgoing P (Journal D))) (j : Journal D) : Prop where
  along : j.Along fun d d' => Storage.currentTerm d ≤ Storage.currentTerm d'
  since : k₀ ≤ j.writes
  left : ∀ o ∈ outs, o.stored.writes ≤ j.writes
  backed : ∀ m d, k₀ ≤ m → j.history[m]? = some d →
    ∀ x ∈ votes ++ emitted ev m outs, Backs d x
  once : ∀ T x y, (T, x) ∈ votes ++ emitted ev j.writes outs →
    (T, y) ∈ votes ++ emitted ev j.writes outs → x = y

section

variable {ev : Event P} {votes : List Vote} {k₀ m m' : Nat}
  {outs outs' : List (Outgoing P (Journal D))} {j j' : Journal D} {d' : D}

omit [Storage D P] in
theorem mem_emitted {x : Vote} :
    x ∈ emitted ev m outs ↔ ∃ o ∈ outs, o.stored.writes ≤ m ∧ voteIn ev o.msg = some x := by
  simp only [emitted, List.mem_filterMap, List.mem_filter, decide_eq_true_eq, and_assoc]

omit [Storage D P] in
theorem emitted_of_left (h : ∀ o ∈ outs, o.stored.writes ≤ m) {x : Vote}
    (hx : x ∈ emitted ev m' outs) : x ∈ emitted ev m outs := by
  obtain ⟨o, ho, _, hv⟩ := mem_emitted.mp hx
  exact mem_emitted.mpr ⟨o, ho, h o ho, hv⟩

omit [Storage D P] in
theorem history_last (j : Journal D) : j.history[j.writes]? = some j.disk := by
  simp [Journal.history, Journal.writes]

/-- What the last value backs, at the end of the history so far. -/
theorem Journaled.backs (h : Journaled ev votes k₀ outs j) {x : Vote}
    (hx : x ∈ votes ++ emitted ev j.writes outs) : Backs j.disk x :=
  h.backed _ _ h.since (history_last j) x hx

/-- A write that keeps the term from falling and keeps backing what has been emitted. -/
theorem Journaled.write (h : Journaled ev votes k₀ outs j)
    (hterm : Storage.currentTerm j.disk ≤ Storage.currentTerm d')
    (hback : ∀ x ∈ votes ++ emitted ev j.writes outs, Backs d' x) :
    Journaled ev votes k₀ outs (j.write d') := by
  have hleft : ∀ o ∈ outs, o.stored.writes ≤ (j.write d').writes := by
    intro o ho
    have := h.left o ho
    rw [Journal.writes_write]
    omega
  have hold : ∀ m x, x ∈ votes ++ emitted ev m outs → x ∈ votes ++ emitted ev j.writes outs := by
    intro m x hx
    rcases List.mem_append.mp hx with hx | hx
    · exact List.mem_append_left _ hx
    · exact List.mem_append_right _ (emitted_of_left h.left hx)
  refine ⟨?_, ?_, hleft, fun m d hm hd x hx => ?_, fun T x y hx hy => ?_⟩
  · exact Journal.along_write (fun _ _ _ => Nat.le_trans) h.along hterm
  · have := h.since; rw [Journal.writes_write]; omega
  · rw [Journal.history_write] at hd
    by_cases hlt : m < j.history.length
    · rw [List.getElem?_append_left hlt] at hd
      exact h.backed m d hm hd x hx
    · have hlast : d = d' := by
        rw [List.getElem?_append_right (Nat.not_lt.mp hlt)] at hd
        have := List.mem_of_getElem? hd
        simpa using this
      rw [hlast]
      exact hback x (hold m x hx)
  · exact h.once T x y (hold _ _ hx) (hold _ _ hy)

/-- Messages whose votes are the stored one. -/
theorem Journaled.say (h : Journaled ev votes k₀ outs j)
    (hnew : ∀ o ∈ outs', o.stored = j ∧ ∀ x, voteIn ev o.msg = some x →
      x.1 = Storage.currentTerm j.disk ∧ Storage.votedFor j.disk = some x.2) :
    Journaled ev votes k₀ (outs ++ outs') j := by
  -- a vote is an old one, or the stored one and sent after the last write
  have hcases : ∀ m x, x ∈ votes ++ emitted ev m (outs ++ outs') →
      x ∈ votes ++ emitted ev m outs ∨
        (j.writes ≤ m ∧ x.1 = Storage.currentTerm j.disk ∧
          Storage.votedFor j.disk = some x.2) := by
    intro m x hx
    rcases List.mem_append.mp hx with hx | hx
    · exact Or.inl (List.mem_append_left _ hx)
    · obtain ⟨o, ho, hle, hv⟩ := mem_emitted.mp hx
      rcases List.mem_append.mp ho with ho | ho
      · exact Or.inl (List.mem_append_right _ (mem_emitted.mpr ⟨o, ho, hle, hv⟩))
      · obtain ⟨hstored, hvote⟩ := hnew o ho
        rw [hstored] at hle
        exact Or.inr ⟨hle, hvote x hv⟩
  refine ⟨h.along, h.since, ?_, fun m d hm hd x hx => ?_, fun T x y hx hy => ?_⟩
  · intro o ho
    rcases List.mem_append.mp ho with ho | ho
    · exact h.left o ho
    · rw [(hnew o ho).1]
  · rcases hcases m x hx with hx | ⟨hle, hterm, hvote⟩
    · exact h.backed m d hm hd x hx
    · have hlast : d = j.disk := by
        have hlt := (List.getElem?_eq_some_iff.mp hd).1
        have hm' : m = j.writes := by
          simp only [Journal.history, List.length_append, List.length_singleton] at hlt
          unfold Journal.writes at hle ⊢
          omega
        rw [hm', history_last] at hd
        exact (Option.some.inj hd).symm
      rw [hlast]
      exact ⟨Nat.le_of_eq hterm, fun _ => hvote⟩
  · rcases hcases _ _ hx with hx | ⟨_, hterm, hvote⟩ <;>
      rcases hcases _ _ hy with hy | ⟨_, hterm', hvote'⟩
    · exact h.once T x y hx hy
    · have := (h.backs hx).2 hterm'
      rw [hvote'] at this
      exact (Option.some.inj this).symm
    · have := (h.backs hy).2 hterm
      rw [hvote] at this
      exact Option.some.inj this
    · rw [hvote] at hvote'
      exact Option.some.inj hvote'

/-! ### Writes to the log -/

/-- Some writes that leave the term and the vote alone. -/
def LogWrites : Journal D → Journal D → Prop :=
  Relation.ReflTransGen fun j j' => ∃ d', Storage.currentTerm d' = Storage.currentTerm j.disk ∧
    Storage.votedFor d' = Storage.votedFor j.disk ∧ j' = j.write d'

theorem LogWrites.one (h : Storage.currentTerm d' = Storage.currentTerm j.disk ∧
    Storage.votedFor d' = Storage.votedFor j.disk) : LogWrites j (j.write d') :=
  .single ⟨d', h.1, h.2, rfl⟩

theorem Journaled.logWrites (hw : LogWrites j j') (h : Journaled ev votes k₀ outs j) :
    Journaled ev votes k₀ outs j' ∧
      Storage.currentTerm j'.disk = Storage.currentTerm j.disk := by
  induction hw with
  | refl => exact ⟨h, rfl⟩
  | tail _ hlast ih =>
    obtain ⟨d', hterm, hvote, rfl⟩ := hlast
    refine ⟨ih.1.write (Nat.le_of_eq hterm.symm) fun x hx => ?_, hterm.trans ih.2⟩
    unfold Backs
    rw [hterm, hvote]
    exact ih.1.backs hx

variable [LawfulStorage D P]

theorem logWrites_place (prev : Nat) (es : List (LogEntry P)) (j : Journal D) :
    LogWrites j (LogReplicationManager.placeEntries prev es j) := by
  unfold LogReplicationManager.placeEntries
  split
  · exact .refl
  · dsimp only
    split
    · exact (LogWrites.one (LawfulStorage.cells_truncateAfter _ _)).trans
        (LogWrites.one (LawfulStorage.cells_appendEntries _ _))
    · exact LogWrites.one (LawfulStorage.cells_appendEntries _ _)

theorem logWrites_create (j : Journal D) (sm : SM) (i : Nat) :
    LogWrites j (SnapshotManager.create j sm i).1 := by
  unfold SnapshotManager.create
  split
  · exact .refl
  · split
    · exact .refl
    · exact (LogWrites.one (LawfulStorage.cells_saveSnapshot _ _)).trans
        (LogWrites.one (LawfulStorage.cells_discardEntriesBefore _ _))

end

/-! ## Moves -/

/-- A node between two moves. -/
structure JournaledNode (ev : Event P) (votes : List Vote) (k₀ : Nat)
    (n : RaftNode P (Journal D) SM) : Prop where
  currentTerm : n.currentTerm = Storage.currentTerm n.storage
  journaled : Journaled ev votes k₀ n.transport n.storage

section

variable {R : Realization} {ev : Event P} {votes : List Vote} {k₀ : Nat}
  {n₀ n n' : RaftNode P (Journal D) SM}

open RaftNode

omit [StateMachine SM P] in
theorem Speaks.voteIn {target : NodeId} {msg : RaftMsg P} (h : Speaks R ev n₀ n target msg) :
    voteIn ev msg = none := by
  cases h with
  | entries =>
    unfold LogReplicationManager.getAppendEntriesForPeer
      LogReplicationManager.getAppendEntriesForFollower
    dsimp only
    split
    · split <;> rfl
    · rfl
  | _ => rfl

omit [StateMachine SM P] in
theorem JournaledNode.of_logWrites (h : JournaledNode ev votes k₀ n) {s : Journal D}
    (hw : LogWrites n.storage s) : n.currentTerm = Storage.currentTerm s ∧
      Journaled ev votes k₀ n.transport s :=
  ⟨h.currentTerm.trans (h.journaled.logWrites hw).2.symm, (h.journaled.logWrites hw).1⟩

variable [LawfulStorage D P]

omit [StateMachine SM P] in
/-- A new term: every vote emitted so far belongs to a term that is now past. -/
theorem Journaled.newTerm {outs : List (Outgoing P (Journal D))} {j : Journal D} {T : Nat}
    (h : Journaled ev votes k₀ outs j) (hT : Storage.currentTerm j.disk < T)
    (v : Option NodeId) :
    Journaled ev votes k₀ outs (Storage.setVotedFor (Storage.setCurrentTerm j T) v) ∧
      Storage.currentTerm (Storage.setVotedFor (Storage.setCurrentTerm j T) v).disk = T := by
  have hterm : Storage.currentTerm (Storage.setCurrentTerm j.disk T) = T :=
    LawfulStorage.currentTerm_setCurrentTerm _ _
  have hpast : ∀ x ∈ votes ++ emitted ev j.writes outs, x.1 < T := fun x hx =>
    Nat.lt_of_le_of_lt (h.backs hx).1 hT
  have hfirst : Journaled ev votes k₀ outs (Storage.setCurrentTerm j T) := by
    refine h.write (by rw [hterm]; exact Nat.le_of_lt hT) fun x hx => ?_
    have := hpast x hx
    exact ⟨by rw [hterm]; omega, fun heq => by rw [hterm] at heq; omega⟩
  have hterm' : Storage.currentTerm
      (Storage.setVotedFor (Storage.setCurrentTerm j T).disk v) = T :=
    (LawfulStorage.currentTerm_setVotedFor _ _).trans hterm
  refine ⟨hfirst.write (Nat.le_of_eq (hterm.trans hterm'.symm)) fun x hx => ?_, hterm'⟩
  have hx' : x.1 < T := by
    refine hpast x ?_
    rcases List.mem_append.mp hx with hx | hx
    · exact List.mem_append_left _ hx
    · exact List.mem_append_right _ (emitted_of_left h.left hx)
  exact ⟨by rw [hterm']; omega, fun heq => by rw [hterm'] at heq; omega⟩

theorem journaledNode_move (hmove : Move R ev n₀ n n') (h : JournaledNode ev votes k₀ n) :
    JournaledNode ev votes k₀ n' := by
  have hterm : n.currentTerm = Storage.currentTerm n.storage.disk := h.currentTerm
  cases hmove with
  | inert hi =>
    exact ⟨by rw [hi.currentTerm, hi.storage]; exact h.currentTerm,
      by rw [hi.transport, hi.storage]; exact h.journaled⟩
  | adoptTerm higher =>
    obtain ⟨hj, ht⟩ := h.journaled.newTerm (hterm ▸ higher) none
    exact ⟨ht.symm, hj⟩
  | campaign =>
    obtain ⟨hj, ht⟩ := h.journaled.newTerm (T := n.currentTerm + 1) (by omega) (some n.id)
    rw [broadcast_eq]
    refine ⟨ht.symm, hj.say fun o ho => ?_⟩
    obtain ⟨t, _, rfl⟩ := List.mem_map.mp ho
    refine ⟨rfl, fun x hx => ?_⟩
    cases hx
    exact ⟨ht.symm, LawfulStorage.votedFor_setVotedFor _ _⟩
  | @grant _ sender cand li lt asked silent free =>
    have hcells : Storage.currentTerm (Storage.setVotedFor n.storage.disk (some cand)) =
        Storage.currentTerm n.storage.disk := LawfulStorage.currentTerm_setVotedFor _ _
    have hvote : Storage.votedFor (Storage.setVotedFor n.storage.disk (some cand)) = some cand :=
      LawfulStorage.votedFor_setVotedFor _ _
    have hj : Journaled ev votes k₀ n.transport (Storage.setVotedFor n.storage (some cand)) := by
      refine h.journaled.write (Nat.le_of_eq hcells.symm) fun x hx => ?_
      obtain ⟨hle, hx'⟩ := h.journaled.backs hx
      unfold Backs
      rw [hcells, hvote]
      refine ⟨hle, fun heq => ?_⟩
      have hfree : Storage.votedFor n.storage.disk = none ∨
          Storage.votedFor n.storage.disk = some cand := free
      rw [hx' heq] at hfree
      rcases hfree with hfree | hfree
      · cases hfree
      · exact hfree.symm
    refine ⟨hterm.trans hcells.symm, hj.say fun o ho => ?_⟩
    rw [List.mem_singleton.mp ho]
    refine ⟨rfl, fun x hx => ?_⟩
    simp only [voteIn, asked, Option.some.injEq] at hx
    rw [← hx]
    exact ⟨hterm.trans hcells.symm, hvote⟩
  | say outs spoken =>
    refine ⟨h.currentTerm, h.journaled.say fun o ho => ⟨(spoken o ho).1, fun x hx => ?_⟩⟩
    rw [Speaks.voteIn (spoken o ho).2] at hx
    cases hx
  | place =>
    obtain ⟨ht, hj⟩ := h.of_logWrites (logWrites_place _ _ _)
    exact ⟨ht, hj⟩
  | append =>
    obtain ⟨ht, hj⟩ := h.of_logWrites
      (LogWrites.one (LawfulStorage.cells_appendEntries _ _))
    exact ⟨ht, hj⟩
  | compact =>
    obtain ⟨ht, hj⟩ := h.of_logWrites (logWrites_create n.storage n.stateMachine
      n.replication.commitIndex)
    exact ⟨ht, hj⟩
  | storeChunk =>
    obtain ⟨ht, hj⟩ := h.of_logWrites
      (LogWrites.one (LawfulStorage.cells_applySnapshotChunk _ _ _ _ _ _))
    exact ⟨ht, hj⟩
  | install =>
    obtain ⟨ht, hj⟩ := h.of_logWrites
      ((LogWrites.one (LawfulStorage.cells_applySnapshotChunk _ _ _ _ _ _)).trans
        (LogWrites.one (LawfulStorage.cells_discardEntriesBefore _ _)))
    exact ⟨ht, hj⟩
  | _ => exact ⟨h.currentTerm, h.journaled⟩

end

/-! ## Lives -/

/-- A node between two turns. -/
structure Honest (l : Life P D SM) : Prop where
  currentTerm : l.node.currentTerm = Storage.currentTerm l.node.storage
  silent : l.node.transport = []
  along : l.node.storage.Along fun d d' => Storage.currentTerm d ≤ Storage.currentTerm d'
  backed : ∀ x ∈ l.votes, Backs l.node.storage.disk x
  once : ∀ T x y, (T, x) ∈ l.votes → (T, y) ∈ l.votes → x = y

section

variable {R : Realization} [LawfulStorage D P] {l : Life P D SM}

open RaftNode

theorem Honest.onEvent (h : Honest l) (ev : Event P) :
    JournaledNode ev l.votes l.node.storage.writes (l.node.onEvent R ev) := by
  have hstart : JournaledNode ev l.votes l.node.storage.writes l.node := by
    have hnone : ∀ m, emitted ev m l.node.transport = [] := by
      intro m; rw [h.silent]; rfl
    refine ⟨h.currentTerm, h.along, Nat.le_refl _, by rw [h.silent]; simp, ?_, ?_⟩
    · intro m d hm hd x hx
      rw [hnone, List.append_nil] at hx
      have hlt := (List.getElem?_eq_some_iff.mp hd).1
      have hm' : m = l.node.storage.writes := by
        simp only [Journal.history, List.length_append, List.length_singleton] at hlt
        unfold Journal.writes at hm ⊢
        omega
      rw [hm', history_last] at hd
      rw [← Option.some.inj hd]
      exact h.backed x hx
    · intro T x y hx hy
      rw [hnone, List.append_nil] at hx hy
      exact h.once T x y hx hy
  have hmoves := onEvent_moves R l.node ev
  generalize l.node.onEvent R ev = n' at hmoves ⊢
  induction hmoves with
  | refl => exact hstart
  | tail _ hlast ih => exact journaledNode_move hlast ih

theorem honest_step (h : Honest l) (turn : Turn P SM) : Honest (l.step R turn) := by
  cases turn with
  | event ev =>
    obtain ⟨hterm, hj⟩ := h.onEvent (R := R) ev
    exact ⟨hterm, rfl, hj.along, fun x hx => hj.backs hx, hj.once⟩
  | crash ev k setup =>
    obtain ⟨_, hj⟩ := h.onEvent (R := R) ev
    have hsub : ∀ x, x ∈ l.votes ++ emitted ev (l.node.storage.writes + k)
        (l.node.onEvent R ev).transport →
        x ∈ l.votes ++ emitted ev (l.node.onEvent R ev).storage.writes
          (l.node.onEvent R ev).transport := by
      intro x hx
      rcases List.mem_append.mp hx with hx | hx
      · exact List.mem_append_left _ hx
      · exact List.mem_append_right _ (emitted_of_left hj.left hx)
    refine ⟨rfl, rfl, Journal.along_rewind hj.along _, fun x hx => ?_,
      fun T x y hx hy => hj.once T x y (hsub _ hx) (hsub _ hy)⟩
    change Backs ((l.node.onEvent R ev).storage.rewind (l.node.storage.writes + k)).disk x
    generalize (l.node.onEvent R ev).storage = j at hj hsub hx ⊢
    unfold Journal.rewind
    cases hm : j.past[l.node.storage.writes + k]? with
    | none => exact hj.backs (hsub x hx)
    | some d =>
      refine hj.backed _ d (Nat.le_add_right _ k) ?_ x hx
      unfold Journal.history
      rw [List.getElem?_append_left (List.getElem?_eq_some_iff.mp hm).1, hm]

end

end MetalRaft
