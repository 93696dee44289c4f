import MetalRaft.Firmware
import MetalRaft.TestClusterRuns
import Mathlib.Data.List.Perm.Basic

/-!
# What lies on the links of a transport

A cluster keeps its messages in one list, a transport wherever it likes.  Both are compared link by
link.

* `Queued` — two lists with the same elements, in the same order where order is kept.
* `Links` — a transport of which is known what lies on each link, and what it does to that.
* `Traffic` — a transport with what has been handed to it and what has been received from it;
  `Traffic.accounted` — the second is found in the first.
* `Cluster.takeOffLink` — a message of a link is found in the network of a cluster.
-/

set_option autoImplicit false

namespace MetalRaft

open Transition

/-! ## Queues -/

/-- The same elements; where `fifo` holds, in the same order. -/
structure Queued {α : Type} (fifo : Prop) (l l' : List α) : Prop where
  perm : l.Perm l'
  order : fifo → l = l'

namespace Queued

variable {α : Type} {fifo : Prop} {l l' l'' : List α} {x : α} {k : Nat}

theorem refl (l : List α) : Queued fifo l l := ⟨.refl l, fun _ => rfl⟩

theorem trans (h : Queued fifo l l') (h' : Queued fifo l' l'') : Queued fifo l l'' :=
  ⟨h.perm.trans h'.perm, fun hf => (h.order hf).trans (h'.order hf)⟩

theorem append (h : Queued fifo l l') (xs : List α) : Queued fifo (l ++ xs) (l' ++ xs) :=
  ⟨h.perm.append_right xs, fun hf => by rw [h.order hf]⟩

/-- What is taken from one side is found on the other, at the front if it was taken there. -/
theorem take (h : Queued fifo l l') (hk : l'[k]? = some x) (hfirst : fifo → k = 0) :
    ∃ j, l[j]? = some x ∧ (fifo → j = 0) ∧ Queued fifo (l.eraseIdx j) (l'.eraseIdx k) := by
  by_cases hf : fifo
  · obtain rfl := h.order hf
    exact ⟨k, hk, hfirst, .refl _⟩
  · obtain ⟨j, hj⟩ := List.mem_iff_getElem?.mp (h.perm.mem_iff.mpr (List.mem_of_getElem? hk))
    exact ⟨j, hj, fun hf' => absurd hf' hf,
      (List.perm_eraseIdx_of_getElem?_eq (hj.trans hk.symm)).mpr h.perm, fun hf' => absurd hf' hf⟩

end Queued

/-! ## Links of a transport -/

/-- What a transport does to one link while nothing else happens to it. -/
inductive LinkChange {α : Type} (fifo : Prop) (l l' : List α) : Prop where
  | keeps (same : Queued fifo l l')
  | loses (lossy : ¬ fifo) (k : Nat) (found : k < l.length) (rest : (l.eraseIdx k).Perm l')

section

variable {α β : Type} {l l' : List α} {x : α}

/-- Where no order is kept, the order of what remains does not matter either. -/
theorem LinkChange.same (h : l.Perm l') : LinkChange False l l' := .keeps ⟨h, False.elim⟩

theorem LinkChange.without (h : l.Perm (x :: l')) : LinkChange False l l' := by
  obtain ⟨k, hlt, hget⟩ := List.mem_iff_getElem.mp (h.mem_iff.mpr List.mem_cons_self)
  refine .loses id k hlt (List.perm_cons x |>.mp ?_)
  rw [← hget] at h ⊢
  exact (List.getElem_cons_eraseIdx_perm hlt).trans h

theorem filterMap_eraseIdx_perm (f : α → Option β) {k : Nat} (h : l[k]? = some x) :
    (l.filterMap f).Perm ((f x).toList ++ (l.eraseIdx k).filterMap f) := by
  obtain ⟨hlt, rfl⟩ := List.getElem?_eq_some_iff.mp h
  have hperm := ((List.getElem_cons_eraseIdx_perm hlt).filterMap f).symm
  rw [List.filterMap_cons] at hperm
  split at hperm <;> simp_all

end

/-- A transport of which is known what lies on each link, the oldest message first.  With `fifo`
nothing is lost, and the oldest message is the next to be received. -/
class Links (T : Type) (P : outParam Type) [AsyncTransport T P] where
  fifo : Prop
  link : T → NodeId → NodeId → List (RaftMsg P)
  send_link {t t' : T} {u v : NodeId} {m : RaftMsg P} : v ∈ embassyMembers →
    AsyncTransport.send t u v m = some t' →
    (link t' u v = link t u v ++ [m] ∨ ¬ fifo ∧ link t' u v = link t u v) ∧
      ∀ u' v', ¬ (u' = u ∧ v' = v) → link t' u' v' = link t u' v'
  recv_link {t t' : T} {u v : NodeId} {m : RaftMsg P} :
    AsyncTransport.recv t v = some ((u, m), t') →
    (∃ k, (fifo → k = 0) ∧ (link t u v)[k]? = some m ∧ link t' u v = (link t u v).eraseIdx k) ∧
      ∀ u' v', ¬ (u' = u ∧ v' = v) → link t' u' v' = link t u' v'
  run_link (t : T) (task : AsyncTransport.Task T) :
    ∃ u v, LinkChange fifo (link t u v) (link (AsyncTransport.run t task) u v) ∧
      ∀ u' v', ¬ (u' = u ∧ v' = v) →
        Queued fifo (link t u' v') (link (AsyncTransport.run t task) u' v')

/-! ## What is received has been sent -/

/-- A transport and the past of its links. -/
structure Traffic (T P : Type) where
  transport : T
  sent : NodeId → NodeId → List (RaftMsg P)
  received : NodeId → NodeId → List (RaftMsg P)

inductive TrafficAction (P Task : Type) where
  | send (u v : NodeId) (message : RaftMsg P)
  | recv (v : NodeId)
  | task (task : Task)

namespace Traffic

variable {T P : Type} [AsyncTransport T P]

/-- One link with one more message. -/
def logged (history : NodeId → NodeId → List (RaftMsg P)) (u v : NodeId) (message : RaftMsg P) :
    NodeId → NodeId → List (RaftMsg P) :=
  fun u' v' => if u' = u ∧ v' = v then history u v ++ [message] else history u' v'

def start (transport : T) : Traffic T P := ⟨transport, fun _ _ => [], fun _ _ => []⟩

/-- A send that has to wait, and a receive that finds nothing, do nothing. -/
def step (w : Traffic T P) : TrafficAction P (AsyncTransport.Task T) → Traffic T P
  | .send u v message =>
    match AsyncTransport.send w.transport u v message with
    | some transport => { w with transport := transport, sent := logged w.sent u v message }
    | none => w
  | .recv v =>
    match AsyncTransport.recv w.transport v with
    | some ((u, message), transport) =>
      { w with transport := transport, received := logged w.received u v message }
    | none => w
  | .task task => { w with transport := AsyncTransport.run w.transport task }

omit [AsyncTransport T P] in
/-- Messages are sent within the cluster. -/
def Addressed {Task : Type} (_ : Traffic T P) : TrafficAction P Task → Prop
  | .send _ v _ => v ∈ embassyMembers
  | _ => True

omit [AsyncTransport T P] in
instance {Task : Type} (w : Traffic T P) : (a : TrafficAction P Task) → Decidable (w.Addressed a)
  | .send _ v _ => inferInstanceAs (Decidable (v ∈ embassyMembers))
  | .recv _ | .task _ => isTrue trivial

variable [Links T P]

/-- What has been sent on a link was received, lies on it, or is lost; nothing else is there.  On a
`fifo` link nothing is lost, and all is in order. -/
structure Accounted (w : Traffic T P) (u v : NodeId) : Prop where
  found : (w.received u v ++ Links.link w.transport u v).Subperm (w.sent u v)
  order : Links.fifo T → w.received u v ++ Links.link w.transport u v = w.sent u v

section

variable {w : Traffic T P} {u v : NodeId} {message : RaftMsg P} {t : T}

omit [AsyncTransport T P] [Links T P] in
@[simp] theorem logged_self (history : NodeId → NodeId → List (RaftMsg P)) :
    logged history u v message u v = history u v ++ [message] := if_pos ⟨rfl, rfl⟩

omit [AsyncTransport T P] [Links T P] in
theorem logged_other (history : NodeId → NodeId → List (RaftMsg P)) {u' v' : NodeId}
    (h : ¬ (u' = u ∧ v' = v)) : logged history u v message u' v' = history u' v' := if_neg h

theorem accounted_start {transport : T} (hempty : Links.link transport u v = []) :
    (start transport).Accounted u v := by
  unfold start
  constructor
  · rw [hempty]
    exact (List.Perm.refl _).subperm
  · intro _
    exact hempty

theorem accounted_send (h : w.Accounted u v) (hv : v ∈ embassyMembers)
    (hsent : AsyncTransport.send w.transport u v message = some t) :
    Accounted { w with transport := t, sent := logged w.sent u v message } u v := by
  rcases (Links.send_link hv hsent).1 with hlink | ⟨hlossy, hlink⟩
  · constructor
    · dsimp only
      rw [hlink, logged_self, ← List.append_assoc]
      exact (List.subperm_append_right _).mpr h.found
    · intro hf
      dsimp only
      rw [hlink, logged_self, ← List.append_assoc, h.order hf]
  · refine ⟨?_, fun hf => absurd hf hlossy⟩
    dsimp only
    rw [hlink, logged_self]
    exact h.found.trans (List.sublist_append_left _ _).subperm

theorem accounted_recv (h : w.Accounted u v)
    (hrecv : AsyncTransport.recv w.transport v = some ((u, message), t)) :
    Accounted { w with transport := t, received := logged w.received u v message } u v := by
  obtain ⟨k, hfirst, hk, hrest⟩ := (Links.recv_link hrecv).1
  obtain ⟨hlt, hget⟩ := List.getElem?_eq_some_iff.mp hk
  constructor
  · dsimp only
    rw [hrest, logged_self, List.append_assoc, List.singleton_append, ← hget]
    exact ((List.getElem_cons_eraseIdx_perm hlt).append_left _).subperm.trans h.found
  · intro hf
    obtain rfl := hfirst hf
    dsimp only
    rw [hrest, logged_self, List.append_assoc, List.singleton_append, ← hget,
      List.eraseIdx_zero, ← List.drop_one, ← List.drop_eq_getElem_cons hlt]
    exact h.order hf

theorem accounted_change (h : w.Accounted u v)
    (hchange : LinkChange (Links.fifo T) (Links.link w.transport u v) (Links.link t u v)) :
    Accounted { w with transport := t } u v := by
  cases hchange with
  | keeps same =>
    refine ⟨(same.perm.symm.append_left _).subperm.trans h.found, fun hf => ?_⟩
    show w.received u v ++ Links.link t u v = w.sent u v
    rw [← same.order hf]
    exact h.order hf
  | loses lossy k found rest =>
    refine ⟨?_, fun hf => absurd hf lossy⟩
    have hfewer := rest.symm.subperm.trans (List.eraseIdx_sublist _ k).subperm
    exact ((List.subperm_append_left _).mpr hfewer).trans h.found

theorem Accounted.of_same {w' : Traffic T P} (h : w.Accounted u v)
    (hsent : w'.sent u v = w.sent u v) (hreceived : w'.received u v = w.received u v)
    (hlink : Links.link w'.transport u v = Links.link w.transport u v) : w'.Accounted u v := by
  constructor
  · rw [hsent, hreceived, hlink]
    exact h.found
  · rw [hsent, hreceived, hlink]
    exact h.order

theorem accounted_step {a : TrafficAction P (AsyncTransport.Task T)} (ha : w.Addressed a)
    (h : ∀ u v, w.Accounted u v) : ∀ u v, (w.step a).Accounted u v := by
  intro u' v'
  have hold := h u' v'
  unfold step
  cases a with
  | send u v message =>
    dsimp only
    split
    · rename_i t hsent
      by_cases hhere : u' = u ∧ v' = v
      · obtain ⟨rfl, rfl⟩ := hhere
        exact accounted_send hold ha hsent
      · exact hold.of_same (logged_other _ hhere) rfl ((Links.send_link ha hsent).2 u' v' hhere)
    · exact hold
  | recv v =>
    dsimp only
    split
    · rename_i u message t hrecv
      by_cases hhere : u' = u ∧ v' = v
      · obtain ⟨rfl, rfl⟩ := hhere
        exact accounted_recv hold hrecv
      · exact hold.of_same rfl (logged_other _ hhere) ((Links.recv_link hrecv).2 u' v' hhere)
    · exact hold
  | task task =>
    obtain ⟨u, v, hchange, hothers⟩ := Links.run_link w.transport task
    by_cases hhere : u' = u ∧ v' = v
    · obtain ⟨rfl, rfl⟩ := hhere
      exact accounted_change hold hchange
    · exact accounted_change hold (.keeps (hothers u' v' hhere))

/-- **Whatever is sent, received and lost**, of every link all is accounted for. -/
theorem accounted {transport : T} (hempty : ∀ u v, Links.link transport u v = [])
    (hrun : Run step Addressed (start transport) w) (u v : NodeId) : w.Accounted u v := by
  have hall := hrun.invariant (I := fun w => ∀ u v, Accounted w u v)
    (fun _ _ hw ha => accounted_step ha hw) fun u v => accounted_start (hempty u v)
  exact hall u v

end

end Traffic

namespace ChannelTransportHub

variable {P : Type}

/-- The messages of one sender. -/
def ofSender (u : NodeId) (channel : List (Packet P)) : List (RaftMsg P) :=
  (channel.filter (·.src = u)).map (·.msg)

theorem ofSender_append (u : NodeId) (channel : List (Packet P)) (p : Packet P) :
    ofSender u (channel ++ [p]) =
      ofSender u channel ++ if p.src = u then [p.msg] else [] := by
  unfold ofSender
  rw [List.filter_append, List.map_append]
  by_cases h : p.src = u <;> simp [h]

theorem ofSender_cons (u : NodeId) (p : Packet P) (channel : List (Packet P)) :
    ofSender u (p :: channel) =
      (if p.src = u then [p.msg] else []) ++ ofSender u channel := by
  unfold ofSender
  by_cases h : p.src = u <;> simp [h]

/-- The hub loses nothing, and its channels are queues. -/
instance : Links (ChannelTransportHub P) P where
  fifo := True
  link hub u v := ofSender u (hub.channels v)
  send_link {hub hub' u v m} hv h := by
    have hvalid : ¬ (v = 0 ∨ v > 5) :=
      (by decide : ∀ w ∈ embassyMembers, ¬ (w = 0 ∨ w > 5)) v hv
    change send hub u v m = some hub' at h
    unfold send at h
    rw [if_neg hvalid] at h
    dsimp only at h
    split at h
    · cases h
      refine ⟨Or.inl ?_, fun u' v' hne => ?_⟩
      · dsimp only
        rw [Function.update_self, ofSender_append, if_pos rfl]
      · dsimp only
        by_cases hv' : v' = v
        · subst hv'
          have hu : u ≠ u' := fun heq => hne ⟨heq.symm, rfl⟩
          rw [Function.update_self, ofSender_append, if_neg hu, List.append_nil]
        · rw [Function.update_of_ne hv']
    · cases h
  recv_link {hub hub' u v m} h := by
    change recv hub v = some ((u, m), hub') at h
    unfold recv at h
    split at h
    · cases h
    · rename_i envelope rest hchannel
      cases h
      refine ⟨⟨0, fun _ => rfl, ?_, ?_⟩, fun u' v' hne => ?_⟩
      · rw [hchannel, ofSender_cons, if_pos rfl]
        rfl
      · dsimp only
        rw [Function.update_self, hchannel, ofSender_cons, if_pos rfl]
        rfl
      · dsimp only
        by_cases hv' : v' = v
        · subst hv'
          have hu : envelope.src ≠ u' := fun heq => hne ⟨heq.symm, rfl⟩
          rw [Function.update_self, hchannel, ofSender_cons, if_neg hu, List.nil_append]
        · rw [Function.update_of_ne hv']
  run_link _ task := nomatch task

end ChannelTransportHub

/-! ## Links of a cluster -/

namespace Cluster

variable {P SM : Type} {c : Cluster P SM} {u v : NodeId}

/-- The messages in flight from `u` to `v`, the oldest first. -/
def onLink (network : List (Packet P)) (u v : NodeId) : List (RaftMsg P) :=
  (network.filter fun p => p.src = u ∧ p.dst = v).map (·.msg)

theorem onLink_append (network outs : List (Packet P)) (u v : NodeId) :
    onLink (network ++ outs) u v = onLink network u v ++ onLink outs u v := by
  unfold onLink
  rw [List.filter_append, List.map_append]

/-- A message on a link is found in the network.  If it is the oldest of the link, no other of the
link is in front of it. -/
theorem takeOffLink {network : List (Packet P)} {j : Nat} {m : RaftMsg P}
    (h : (onLink network u v)[j]? = some m) :
    ∃ k, network[k]? = some ⟨u, v, m⟩ ∧
      onLink (network.eraseIdx k) u v = (onLink network u v).eraseIdx j ∧
      (∀ u' v', ¬ (u' = u ∧ v' = v) →
        onLink (network.eraseIdx k) u' v' = onLink network u' v') ∧
      (j = 0 → ∀ i < k, ∀ p ∈ network[i]?, ¬ (p.src = u ∧ p.dst = v)) := by
  unfold onLink at h
  rw [List.getElem?_map, Option.map_eq_some_iff] at h
  obtain ⟨p, hp, rfl⟩ := h
  have hlink : p.src = u ∧ p.dst = v := by
    simpa using (List.mem_filter.mp (List.mem_of_getElem? hp)).2
  obtain ⟨hlt, hget⟩ := List.getElem?_eq_some_iff.mp hp
  generalize hon : network.filter (fun p => decide (p.src = u ∧ p.dst = v)) = on at hp hlt hget
  have hsplit : network.filter (fun p => decide (p.src = u ∧ p.dst = v)) =
      on.take j ++ p :: on.drop (j + 1) := by
    rw [hon, ← hget, ← List.drop_eq_getElem_cons hlt, List.take_append_drop]
  obtain ⟨k, hk, hbefore, hafter⟩ := exists_getElem?_of_filter hsplit
  obtain ⟨src, dst, msg⟩ := p
  obtain ⟨rfl, rfl⟩ := hlink
  refine ⟨k, hk, ?_, fun u' v' hne => ?_, fun hj i hi q hq hlink => ?_⟩
  · unfold onLink
    rw [List.eraseIdx_eq_take_drop_succ, List.filter_append, hbefore, hafter, hon,
      List.eraseIdx_eq_take_drop_succ, List.map_append, List.map_take, List.map_drop]
  · unfold onLink
    rw [filter_eraseIdx hk (by simpa using fun h1 h2 => hne ⟨h1.symm, h2.symm⟩)]
  · subst hj
    rw [List.take_zero, List.filter_eq_nil_iff] at hbefore
    refine hbefore q (List.mem_of_getElem? (i := i) ?_) (by simpa using hlink)
    rw [List.getElem?_take_of_lt hi]
    exact hq

end Cluster

end MetalRaft
