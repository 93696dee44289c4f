import MetalRaft.Moves
import MetalRaft.Cluster
import MetalRaft.SemihostingStorage
import MetalRaft.Run

/-!
# The life of a node

A node over any storage: it is built, handles events and calls in any order and with any contents,
crashes, and is built again over what its storage kept.

* `Turn`, `turn` — one thing that happens to a node.
* `Restartable` — which storage a node starts on, and which one it finds after a crash.
* `Lived` — the states that a node can be in.
* `formed_of_lived` — in every such state the log begins where the snapshot ends.
-/

set_option autoImplicit false

namespace MetalRaft

open Transition LogReplicationManager

variable {P S SM : Type}

/-- The storages a node can begin with, and those it can find after a crash. -/
class Restartable (S : Type) where
  Fresh : S → Prop
  Reopens : S → S → Prop

instance : Restartable (InMemoryStorage P) := ⟨fun s => s = .new, fun s s' => s' = s⟩

instance : Restartable (EmbassyStorage P) := ⟨fun s => s = .new, fun s s' => s' = s⟩

/-- A crash may come after any of the writes. -/
instance : Restartable SemihostingStorage where
  Fresh s := ∃ d, s = .new d
  Reopens s s' := ∃ k, s' = .new ((s.writes.take k).foldl Disk.write s.found)

namespace RaftNode

/-- What a node is started with besides its id and its storage. -/
structure Boot (SM : Type) where
  stateMachine : SM
  timerService : TimerService
  peers : List NodeId
  snapshotThreshold : Nat
  clock : Nat
  leaseDurationMillis : Nat

inductive Turn (P S SM : Type) where
  | event (ev : Event P)
  | addServer (nodeId : NodeId)
  | removeServer (nodeId : NodeId)
  | restart (storage : S) (boot : Boot SM)

section

variable [Storage S P] [StateMachine SM P] {R : Realization} {n : RaftNode P S SM}

/-- A new process; nothing has been applied in it yet. -/
def start (R : Realization) (id : NodeId) (storage : S) (b : Boot SM) : RaftNode P S SM :=
  newFromBuilder R id storage b.stateMachine b.timerService [] b.peers ⟨[]⟩ b.snapshotThreshold
    b.clock b.leaseDurationMillis

def turn (R : Realization) (n : RaftNode P S SM) : Turn P S SM → RaftNode P S SM
  | .event ev => n.onEvent R ev
  | .addServer nodeId => (n.addServer R nodeId).1
  | .removeServer nodeId => (n.removeServer R nodeId).1
  | .restart storage boot => start R n.id storage boot

/-- A restart goes on from what the storage kept. -/
def KeepsStorage [Restartable S] (n : RaftNode P S SM) : Turn P S SM → Prop
  | .restart storage _ => Restartable.Reopens n.storage storage
  | _ => True

/-- The node is in a state that some life leads to. -/
def Lived [Restartable S] (R : Realization) (n : RaftNode P S SM) : Prop :=
  ∃ id storage boot, Restartable.Fresh storage ∧
    Run (turn R) KeepsStorage (start R id storage boot) n

/-- Events that a node handles one after another. -/
theorem Lived.events [Restartable S] (h : n.Lived R) (evs : List (Event P)) :
    (evs.foldl (onEvent R) n).Lived R := by
  obtain ⟨id, storage, boot, hfresh, hrun⟩ := h
  induction evs using List.reverseRecOn with
  | nil => exact ⟨id, storage, boot, hfresh, hrun⟩
  | append_singleton evs ev ih =>
    obtain ⟨id, storage, boot, hfresh, hrun⟩ := ih
    have hok : KeepsStorage (evs.foldl (onEvent R) n) (Turn.event ev : Turn P S SM) := trivial
    rw [List.foldl_append]
    exact ⟨id, storage, boot, hfresh, hrun.step hok⟩

theorem lived_start [Restartable S] (id : NodeId) {storage : S} (boot : Boot SM)
    (h : Restartable.Fresh storage) : (start R id storage boot).Lived R :=
  ⟨id, storage, boot, h, .refl⟩

/-- A guarded call hands its change in and may remember the index. -/
theorem submitTracked_ok (ch : ConfigurationChange) :
    ∃ m, (n.submitTracked R (.ok ch)).1 = { n.onEvent R (.configChange ch) with configManager := m } ∧
      m.config = (n.onEvent R (.configChange ch)).config := by
  unfold submitTracked
  dsimp only
  split
  · exact ⟨_, rfl, rfl⟩
  · exact ⟨_, rfl, rfl⟩

/-- The event that a turn comes to, unless it is refused or a restart. -/
def asEvent (n : RaftNode P S SM) : Turn P S SM → Option (Event P)
  | .event ev => some ev
  | .addServer nodeId =>
    (n.configManager.addServer nodeId n.id (decide (n.role = .leader))
      n.replication.commitIndex).toOption.map .configChange
  | .removeServer nodeId =>
    (n.configManager.removeServer nodeId n.id (decide (n.role = .leader))
      n.replication.commitIndex).toOption.map .configChange
  | .restart _ _ => none

/-- A turn is a restart, it is refused, or it is an event after which a guarded call may remember
an index. -/
theorem turn_cases (R : Realization) (n : RaftNode P S SM) (t : Turn P S SM) :
    (∃ storage boot, t = .restart storage boot) ∨
      (n.asEvent t = none ∧ n.turn R t = n) ∨
      ∃ ev m, n.asEvent t = some ev ∧ n.turn R t = { n.onEvent R ev with configManager := m } ∧
        m.config = (n.onEvent R ev).config := by
  have hcall : ∀ change : Except ConfigError ConfigurationChange,
      (change.toOption.map Event.configChange = (none : Option (Event P)) ∧
        (n.submitTracked R change).1 = n) ∨
      ∃ ev m, change.toOption.map Event.configChange = some ev ∧
        (n.submitTracked R change).1 = { n.onEvent R ev with configManager := m } ∧
        m.config = (n.onEvent R ev).config := by
    intro change
    cases change with
    | error e => exact Or.inl ⟨rfl, rfl⟩
    | ok ch =>
      obtain ⟨m, heq, hm⟩ := submitTracked_ok (R := R) (n := n) ch
      exact Or.inr ⟨_, m, rfl, heq, hm⟩
  cases t with
  | event ev => exact Or.inr (Or.inr ⟨ev, _, rfl, rfl, rfl⟩)
  | addServer nodeId => exact Or.inr (hcall _)
  | removeServer nodeId => exact Or.inr (hcall _)
  | restart storage boot => exact Or.inl ⟨storage, boot, rfl⟩

/-- What holds in every state of a life: what a start brings about and every event keeps, whatever
the node remembers of a pending change. -/
theorem Lived.invariant [Restartable S] {I : RaftNode P S SM → Prop}
    (hstart : ∀ id storage (boot : Boot SM), Restartable.Fresh storage →
      I (start R id storage boot))
    (hevent : ∀ n ev, I n → I (n.onEvent R ev))
    (hpending : ∀ (n : RaftNode P S SM) m, I n → m.config = n.config →
      I { n with configManager := m })
    (hrestart : ∀ n storage (boot : Boot SM), I n → Restartable.Reopens n.storage storage →
      I (start R n.id storage boot))
    (h : n.Lived R) : I n := by
  obtain ⟨id, storage, boot, hfresh, hrun⟩ := h
  refine hrun.invariant (fun n t hn hok => ?_) (hstart id storage boot hfresh)
  rcases turn_cases R n t with ⟨storage, boot, rfl⟩ | ⟨_, heq⟩ | ⟨ev, m, _, heq, hm⟩
  · exact hrestart n storage boot hn hok
  · rw [heq]
    exact hn
  · rw [heq]
    exact hpending _ m (hevent n ev hn) hm

end

/-! ## The log and the snapshot -/

section

variable [Storage S P] [LogStorage S P] [StateMachine SM P] {R : Realization} {ev : Event P}
  {n₀ n n' : RaftNode P S SM}

omit [StateMachine SM P] in
/-- A chunk that completes nothing leaves log and snapshot alone. -/
theorem image_storeChunk {index term offset : Nat} {data : List UInt8} {done : Bool}
    (hpartly : (∃ e, (n.chunkResult index term offset data done).2 = .error e) ∨ done = false ∨
      Storage.loadSnapshot (n.chunkResult index term offset data done).1 = none) :
    LogStorage.image (n.chunkResult index term offset data done).1 =
      LogStorage.image n.storage := by
  rcases LogStorage.image_applySnapshotChunk n.storage offset data done index term with
    ⟨hdone, hok, _, himage⟩ | ⟨_, himage⟩
  · exfalso
    unfold chunkResult at hpartly
    rcases hpartly with ⟨e, he⟩ | hfalse | hnone
    · rw [hok] at he
      cases he
    · rw [hdone] at hfalse
      cases hfalse
    · rw [LogStorage.loadSnapshot_eq, himage] at hnone
      cases hnone
  · exact himage

omit [StateMachine SM P] in
/-- A completed chunk is a compaction to the snapshot it brings. -/
theorem image_install {index term offset : Nat} {data : List UInt8}
    (hok : (n.chunkResult index term offset data true).2 = .ok ()) :
    ∃ bytes, LogStorage.image (Storage.discardEntriesBefore
        (n.chunkResult index term offset data true).1 (index + 1)) =
      (LogStorage.image n.storage).compactTo ⟨⟨index, term⟩, bytes⟩ := by
  rcases LogStorage.image_applySnapshotChunk n.storage offset data true index term with
    ⟨_, _, bytes, himage⟩ | ⟨hfail, _⟩
  · refine ⟨bytes, ?_⟩
    unfold chunkResult
    rw [LogStorage.image_discardEntriesBefore, himage]
    rfl
  · exfalso
    unfold chunkResult at hok
    rcases hfail with hfalse | ⟨e, he⟩
    · cases hfalse
    · rw [hok] at he
      cases he

theorem formed_move (hmove : Move R ev n₀ n n') (h : LogStorage.Formed n.storage) :
    LogStorage.Formed n'.storage := by
  cases hmove with
  | inert hi =>
    rw [hi.storage]
    exact h
  | adoptTerm => exact LogStorage.formed_of_image h (LogStorage.image_cells _ _ _)
  | campaign =>
    rw [broadcast_eq]
    exact LogStorage.formed_of_image h (LogStorage.image_cells _ _ _)
  | grant => exact LogStorage.formed_of_image h (LogStorage.image_setVotedFor _ _)
  | @place _ prev _ es => exact LogStorage.formed_placeEntries h prev es
  | append => exact LogStorage.formed_appendEntries h _
  | compact => exact LogStorage.formed_create h n.stateMachine n.replication.commitIndex
  | storeChunk _ _ _ partly => exact LogStorage.formed_of_image h (image_storeChunk partly)
  | @install _ _ _ index term offset data _ _ _ fresh ok =>
    obtain ⟨bytes, himage⟩ := image_install ok
    unfold LogStorage.Formed
    dsimp only
    rw [himage]
    exact LogImage.Formed.compactTo h (LogStorage.snapIndex_le_of_not_covered fresh)
  | _ => exact h

theorem formed_onEvent (h : LogStorage.Formed n.storage) :
    LogStorage.Formed (n.onEvent R ev).storage := by
  have hmoves := onEvent_moves R n ev
  generalize n.onEvent R ev = n' at hmoves ⊢
  induction hmoves with
  | refl => exact h
  | tail _ hlast ih => exact formed_move hlast ih

end

end RaftNode

/-- Fresh and reopened storages begin their log where their snapshot ends. -/
class FormedRestarts (S : Type) {P : outParam Type} [Storage S P] [LogStorage S P]
    [Restartable S] : Prop where
  fresh : ∀ s : S, Restartable.Fresh s → LogStorage.Formed s
  reopens : ∀ s s' : S, LogStorage.Formed s → Restartable.Reopens s s' → LogStorage.Formed s'

instance : FormedRestarts (InMemoryStorage P) where
  fresh _ h := by
    cases h
    rfl
  reopens _ _ hs h := by
    cases h
    exact hs

instance : FormedRestarts (EmbassyStorage P) where
  fresh _ h := by
    cases h
    rfl
  reopens _ _ hs h := by
    cases h
    exact hs

instance : FormedRestarts SemihostingStorage where
  fresh _ h := by
    obtain ⟨d, rfl⟩ := h
    exact SemihostingStorage.formed_new d
  reopens _ _ _ h := by
    obtain ⟨k, rfl⟩ := h
    exact SemihostingStorage.formed_new _

/-- **The log begins where the snapshot ends**, in every state of every life. -/
theorem RaftNode.formed_of_lived [Storage S P] [LogStorage S P] [StateMachine SM P]
    [Restartable S] [FormedRestarts S] {R : Realization} {n : RaftNode P S SM} (h : n.Lived R) :
    LogStorage.Formed n.storage :=
  h.invariant (I := fun n => LogStorage.Formed n.storage)
    (fun _ storage _ hfresh => FormedRestarts.fresh storage hfresh)
    (fun _ _ hn => formed_onEvent hn) (fun _ _ hn _ => hn)
    (fun _ _ _ hn hreopens => FormedRestarts.reopens _ _ hn hreopens)

/-- A start in a cluster of three. -/
def RaftNode.trioBoot : RaftNode.Boot Adder := ⟨⟨0⟩, ⟨none, none, 0⟩, [2, 3], 100, 0, 100⟩

end MetalRaft
