import MetalRaft.Types

/-!
# The timer services

The trait of `core/src/timer_service.rs` and the two services behind it: `MockTimerService`
(`test-utils/src/mocked_timer_service.rs`) and `EmbassyTimer` (`embassy/src/embassy_timer.rs`).
Both keep a deadline for each timer; the core never sees it, and `TimerService` keeps the time of
the last reset instead.

* `ExpiredTimers` — the kinds that have expired, in the order in which they are handed out.
* `Timers` — the trait; an implementation is told what its clock shows.
* `Keeps` — the deadlines lie where the resets put them.
* `timers_keep_time` — whatever the core does with its timers, and whenever, each of the services
  reports a timer when it has to, and only then.
-/

set_option autoImplicit false

namespace MetalRaft

/-! ## `timer_service.rs` -/

structure ExpiredTimers where
  timers : List (Option TimerKind)
  count : Nat

namespace ExpiredTimers

def new : ExpiredTimers := ⟨[none, none], 0⟩

def push (e : ExpiredTimers) (kind : TimerKind) : ExpiredTimers :=
  if e.count < 2 then ⟨e.timers.set e.count (some kind), e.count + 1⟩ else e

def iter (e : ExpiredTimers) : List TimerKind := (e.timers.take e.count).filterMap id

end ExpiredTimers

/-- A timer service of the source; `now` is what its clock shows. -/
class Timers (T : Type) where
  resetElectionTimer (now : Nat) (t : T) : T
  resetHeartbeatTimer (now : Nat) (t : T) : T
  stopTimers (t : T) : T
  checkExpired (now : Nat) (t : T) : ExpiredTimers

/-- The body of `check_expired`, which both services write out. -/
def checkDeadlines (now : Nat) (electionDeadline heartbeatDeadline : Option Nat) : ExpiredTimers :=
  let expired := ExpiredTimers.new
  let expired :=
    match electionDeadline with
    | some deadline => if now ≥ deadline then expired.push .election else expired
    | none => expired
  match heartbeatDeadline with
  | some deadline => if now ≥ deadline then expired.push .heartbeat else expired
  | none => expired

/-- A deadline that has been reached. -/
def Due (now : Nat) (deadline : Option Nat) : Prop := ∃ t ∈ deadline, t ≤ now

instance (now : Nat) (deadline : Option Nat) : Decidable (Due now deadline) :=
  inferInstanceAs (Decidable (∃ t ∈ deadline, t ≤ now))

/-- The election timer comes first. -/
theorem iter_checkDeadlines (now : Nat) (election heartbeat : Option Nat) :
    (checkDeadlines now election heartbeat).iter =
      (if Due now election then [.election] else []) ++
        if Due now heartbeat then [.heartbeat] else [] := by
  unfold checkDeadlines Due
  cases election with
  | none =>
    cases heartbeat with
    | none => simp [ExpiredTimers.new, ExpiredTimers.iter]
    | some h =>
      by_cases hh : h ≤ now <;>
        simp [ExpiredTimers.new, ExpiredTimers.push, ExpiredTimers.iter, hh]
  | some e =>
    cases heartbeat with
    | none =>
      by_cases he : e ≤ now <;>
        simp [ExpiredTimers.new, ExpiredTimers.push, ExpiredTimers.iter, he]
    | some h =>
      by_cases he : e ≤ now <;> by_cases hh : h ≤ now <;>
        simp [ExpiredTimers.new, ExpiredTimers.push, ExpiredTimers.iter, he, hh]

/-! ## `mocked_timer_service.rs` -/

/-- The clock is shared by the nodes of a test, and is passed along instead. -/
structure MockTimerService where
  electionDeadline : Option Nat
  heartbeatDeadline : Option Nat
  electionTimeoutMin : Nat
  electionTimeoutMax : Nat
  heartbeatInterval : Nat
  nodeId : NodeId

namespace MockTimerService

def new (electionTimeoutMin electionTimeoutMax heartbeatInterval : Nat) (nodeId : NodeId) :
    MockTimerService :=
  ⟨none, none, electionTimeoutMin, electionTimeoutMax, heartbeatInterval, nodeId⟩

/-- The number that `random_election_timeout` makes of the time and the node, in `u64`. -/
def seed (now : Nat) (nodeId : NodeId) : UInt64 :=
  let seed := UInt64.ofNat now * 31 + UInt64.ofNat nodeId * 97
  let seed := seed ^^^ (seed >>> 16)
  let seed := seed * 0x85ebca6b
  seed ^^^ (seed >>> 13)

/-- With a least timeout above the greatest one the range is 0 here; the source subtracts in `u64`,
which panics in a checked build and wraps in a release build. -/
def randomElectionTimeout (now : Nat) (t : MockTimerService) : Nat :=
  let range := t.electionTimeoutMax - t.electionTimeoutMin
  if range = 0 then t.electionTimeoutMin
  else t.electionTimeoutMin + (seed now t.nodeId).toNat % range

instance : Timers MockTimerService where
  resetElectionTimer now t :=
    let timeout := t.randomElectionTimeout now
    { t with electionDeadline := some (now + timeout) }
  resetHeartbeatTimer now t := { t with heartbeatDeadline := some (now + t.heartbeatInterval) }
  stopTimers t := { t with electionDeadline := none, heartbeatDeadline := none }
  checkExpired now t := checkDeadlines now t.electionDeadline t.heartbeatDeadline

/-- The timeout lies in the range that was asked for; its end is left out unless it is all there
is. -/
theorem randomElectionTimeout_range (now : Nat) (t : MockTimerService)
    (h : t.electionTimeoutMin ≤ t.electionTimeoutMax) :
    t.electionTimeoutMin ≤ t.randomElectionTimeout now ∧
      t.randomElectionTimeout now ≤ t.electionTimeoutMax := by
  unfold randomElectionTimeout
  dsimp only
  split
  · exact ⟨Nat.le_refl _, h⟩
  · rename_i hrange
    have hlt := Nat.mod_lt (seed now t.nodeId).toNat (Nat.pos_of_ne_zero hrange)
    omega

end MockTimerService

/-! ## `embassy_timer.rs` -/

def electionTimeoutMinMs : Nat := 300

def electionTimeoutMaxMs : Nat := 600

def heartbeatTimeoutMs : Nat := 100

/-- One tick of the clock is a millisecond. -/
structure EmbassyTimer where
  electionDeadline : Option Nat
  heartbeatDeadline : Option Nat
  entropyState : UInt64

namespace EmbassyTimer

def new (now : Nat) : EmbassyTimer := ⟨none, none, UInt64.ofNat now⟩

def randomElectionTimeout (now : Nat) (t : EmbassyTimer) : Nat × EmbassyTimer :=
  let entropyState := t.entropyState * 6364136223846793005 + UInt64.ofNat now
  let range := electionTimeoutMaxMs - electionTimeoutMinMs
  let offset := entropyState.toNat % (range + 1)
  (electionTimeoutMinMs + offset, { t with entropyState := entropyState })

instance : Timers EmbassyTimer where
  resetElectionTimer now t :=
    let (timeout, t) := t.randomElectionTimeout now
    { t with electionDeadline := some (now + timeout) }
  resetHeartbeatTimer now t := { t with heartbeatDeadline := some (now + heartbeatTimeoutMs) }
  stopTimers t := { t with electionDeadline := none, heartbeatDeadline := none }
  checkExpired now t := checkDeadlines now t.electionDeadline t.heartbeatDeadline

theorem randomElectionTimeout_range (now : Nat) (t : EmbassyTimer) :
    electionTimeoutMinMs ≤ (t.randomElectionTimeout now).1 ∧
      (t.randomElectionTimeout now).1 ≤ electionTimeoutMaxMs := by
  unfold randomElectionTimeout
  have hlt := Nat.mod_lt (t.entropyState * 6364136223846793005 + UInt64.ofNat now).toNat
    (show 0 < electionTimeoutMaxMs - electionTimeoutMinMs + 1 from Nat.succ_pos _)
  unfold electionTimeoutMinMs electionTimeoutMaxMs at *
  dsimp only
  omega

end EmbassyTimer

/-! ## Keeping time -/

/-- The bounds of an election timeout, and the interval of the heartbeats. -/
structure Pace where
  electionMin : Nat
  electionMax : Nat
  heartbeat : Nat

/-- The deadlines lie where the last resets put them. -/
structure Keeps (p : Pace) (election heartbeat : Option Nat) (r : TimerService) : Prop where
  election : (election = none ∧ r.election = none) ∨
    ∃ deadline reset, election = some deadline ∧ r.election = some reset ∧
      reset + p.electionMin ≤ deadline ∧ deadline ≤ reset + p.electionMax
  heartbeat : heartbeat = r.heartbeat.map (· + p.heartbeat)

/-- A service keeps time at a pace: `shows` reads its deadlines, `ok` holds of its settings. -/
class KeepsTime (T : Type) [Timers T] where
  shows (t : T) : Option Nat × Option Nat
  ok (p : Pace) (t : T) : Prop
  checkExpired (now : Nat) (t : T) :
    Timers.checkExpired now t = checkDeadlines now (shows t).1 (shows t).2
  resetElectionTimer {p : Pace} {t : T} (now : Nat) (h : ok p t) :
    ok p (Timers.resetElectionTimer now t) ∧
      ∃ timeout, p.electionMin ≤ timeout ∧ timeout ≤ p.electionMax ∧
        shows (Timers.resetElectionTimer now t) = (some (now + timeout), (shows t).2)
  resetHeartbeatTimer {p : Pace} {t : T} (now : Nat) (h : ok p t) :
    ok p (Timers.resetHeartbeatTimer now t) ∧
      shows (Timers.resetHeartbeatTimer now t) = ((shows t).1, some (now + p.heartbeat))
  stopTimers {p : Pace} {t : T} (h : ok p t) :
    ok p (Timers.stopTimers t) ∧ shows (Timers.stopTimers t) = (none, none)

instance : KeepsTime MockTimerService where
  shows t := (t.electionDeadline, t.heartbeatDeadline)
  ok p t := p = ⟨t.electionTimeoutMin, t.electionTimeoutMax, t.heartbeatInterval⟩ ∧
    t.electionTimeoutMin ≤ t.electionTimeoutMax
  checkExpired _ _ := rfl
  resetElectionTimer {p t} now h := by
    obtain ⟨rfl, hle⟩ := h
    obtain ⟨hmin, hmax⟩ := t.randomElectionTimeout_range now hle
    exact ⟨⟨rfl, hle⟩, _, hmin, hmax, rfl⟩
  resetHeartbeatTimer {p t} now h := by
    obtain ⟨rfl, hle⟩ := h
    exact ⟨⟨rfl, hle⟩, rfl⟩
  stopTimers h := ⟨h, rfl⟩

instance : KeepsTime EmbassyTimer where
  shows t := (t.electionDeadline, t.heartbeatDeadline)
  ok p _ := p = ⟨electionTimeoutMinMs, electionTimeoutMaxMs, heartbeatTimeoutMs⟩
  checkExpired _ _ := rfl
  resetElectionTimer {p t} now h := by
    subst h
    obtain ⟨hmin, hmax⟩ := t.randomElectionTimeout_range now
    exact ⟨rfl, _, hmin, hmax, rfl⟩
  resetHeartbeatTimer now h := by
    subst h
    exact ⟨rfl, rfl⟩
  stopTimers h := ⟨h, rfl⟩

/-! ### Every sequence of calls -/

/-- What happens to the timers of a node: the three calls of the core, and time going by. -/
inductive TimerCall where
  | resetElectionTimer
  | resetHeartbeatTimer
  | stopTimers
  | wait (millis : Nat)

/-- A service beside its clock. -/
def Timers.call {T : Type} [Timers T] (s : Nat × T) : TimerCall → Nat × T
  | .resetElectionTimer => (s.1, Timers.resetElectionTimer s.1 s.2)
  | .resetHeartbeatTimer => (s.1, Timers.resetHeartbeatTimer s.1 s.2)
  | .stopTimers => (s.1, Timers.stopTimers s.2)
  | .wait millis => (s.1 + millis, s.2)

/-- The same for the times of the last resets. -/
def TimerService.call (r : TimerService) : TimerCall → TimerService
  | .resetElectionTimer => r.resetElectionTimer
  | .resetHeartbeatTimer => r.resetHeartbeatTimer
  | .stopTimers => r.stopTimers
  | .wait millis => { r with clock := r.clock + millis }

section

variable {T : Type} [Timers T] [KeepsTime T] {p : Pace} {s : Nat × T} {r : TimerService}

/-- The service and the times of the last resets fit together. -/
structure Tracks (p : Pace) (s : Nat × T) (r : TimerService) : Prop where
  clock : s.1 = r.clock
  ok : KeepsTime.ok p s.2
  keeps : Keeps p (KeepsTime.shows s.2).1 (KeepsTime.shows s.2).2 r

theorem Tracks.call (h : Tracks p s r) (a : TimerCall) :
    Tracks p (Timers.call s a) (r.call a) := by
  cases a with
  | resetElectionTimer =>
    obtain ⟨hok, timeout, hmin, hmax, hshows⟩ := KeepsTime.resetElectionTimer s.1 h.ok
    refine ⟨h.clock, hok, ?_, ?_⟩
    · exact Or.inr ⟨s.1 + timeout, s.1, congrArg Prod.fst hshows, congrArg some h.clock.symm,
        Nat.add_le_add_left hmin _, Nat.add_le_add_left hmax _⟩
    · exact (congrArg Prod.snd hshows).trans h.keeps.heartbeat
  | resetHeartbeatTimer =>
    obtain ⟨hok, hshows⟩ := KeepsTime.resetHeartbeatTimer s.1 h.ok
    refine ⟨h.clock, hok, ?_, ?_⟩
    · have hsame := congrArg Prod.fst hshows
      rcases h.keeps.election with ⟨hnone, hreset⟩ | ⟨deadline, reset, hdeadline, hrest⟩
      · exact Or.inl ⟨hsame.trans hnone, hreset⟩
      · exact Or.inr ⟨deadline, reset, hsame.trans hdeadline, hrest⟩
    · refine (congrArg Prod.snd hshows).trans ?_
      rw [h.clock]
      rfl
  | stopTimers =>
    obtain ⟨hok, hshows⟩ := KeepsTime.stopTimers h.ok
    exact ⟨h.clock, hok, Or.inl ⟨congrArg Prod.fst hshows, rfl⟩, congrArg Prod.snd hshows⟩
  | wait millis => exact ⟨congrArg (· + millis) h.clock, h.ok, h.keeps.election, h.keeps.heartbeat⟩

theorem Tracks.calls : ∀ (calls : List TimerCall) {s : Nat × T} {r : TimerService}, Tracks p s r →
    Tracks p (calls.foldl Timers.call s) (calls.foldl TimerService.call r)
  | [], _, _, h => h
  | a :: calls, _, _, h => Tracks.calls calls (h.call a)

/-- What is reported is due: an election timer not before its least timeout and at its greatest at
the latest, a heartbeat timer exactly after its interval, and the election timer first. -/
structure InTime (p : Pace) (expired : List TimerKind) (r : TimerService) : Prop where
  order : expired.Sublist [.election, .heartbeat]
  notEarly : .election ∈ expired → ∃ reset ∈ r.election, reset + p.electionMin ≤ r.clock
  notLate : (∃ reset ∈ r.election, reset + p.electionMax ≤ r.clock) → .election ∈ expired
  heartbeat : .heartbeat ∈ expired ↔ ∃ reset ∈ r.heartbeat, reset + p.heartbeat ≤ r.clock

theorem Tracks.inTime (h : Tracks p s r) :
    InTime p (Timers.checkExpired s.1 s.2).iter r := by
  generalize hexpired : (Timers.checkExpired s.1 s.2).iter = expired
  have heq : expired = _ := hexpired.symm.trans
    ((congrArg ExpiredTimers.iter (KeepsTime.checkExpired s.1 s.2)).trans
      (iter_checkDeadlines _ _ _))
  have helection : .election ∈ expired ↔ Due s.1 (KeepsTime.shows s.2).1 := by
    rw [heq]
    split <;> split <;> simp [*]
  have hheartbeat : .heartbeat ∈ expired ↔ Due s.1 (KeepsTime.shows s.2).2 := by
    rw [heq]
    split <;> split <;> simp [*]
  rw [h.clock] at helection hheartbeat
  constructor
  · rw [heq]
    split <;> split <;> simp
  · rw [helection]
    rintro ⟨deadline, hdeadline, hle⟩
    rcases h.keeps.election with ⟨hnone, -⟩ | ⟨t, reset, ht, hreset, hmin, -⟩
    · rw [hnone] at hdeadline
      cases hdeadline
    · rw [ht, Option.mem_some] at hdeadline
      exact ⟨reset, hreset, by omega⟩
  · rw [helection]
    rintro ⟨reset, hreset, hle⟩
    rcases h.keeps.election with ⟨-, hnone⟩ | ⟨t, reset', ht, hreset', -, hmax⟩
    · rw [hnone] at hreset
      cases hreset
    · rw [hreset', Option.mem_some] at hreset
      exact ⟨t, ht, by omega⟩
  · rw [hheartbeat, h.keeps.heartbeat]
    unfold Due
    cases r.heartbeat <;> simp

end

/-- **The timers keep time.**  From a fresh service of either kind on, through any sequence of
resets, stops and waits, what is reported as expired fits the times of the last resets. -/
theorem timers_keep_time (now : Nat) (calls : List TimerCall) :
    (∀ (electionMin electionMax interval : Nat) (nodeId : NodeId), electionMin ≤ electionMax →
      let s := calls.foldl Timers.call
        (now, MockTimerService.new electionMin electionMax interval nodeId)
      InTime ⟨electionMin, electionMax, interval⟩ (Timers.checkExpired s.1 s.2).iter
        (calls.foldl TimerService.call ⟨none, none, now⟩)) ∧
    ∀ start : Nat,
      let s := calls.foldl Timers.call (now, EmbassyTimer.new start)
      InTime ⟨300, 600, 100⟩ (Timers.checkExpired s.1 s.2).iter
        (calls.foldl TimerService.call ⟨none, none, now⟩) := by
  constructor
  · intro electionMin electionMax interval nodeId hle
    have hfresh : Tracks ⟨electionMin, electionMax, interval⟩
        (now, MockTimerService.new electionMin electionMax interval nodeId) ⟨none, none, now⟩ :=
      ⟨rfl, ⟨rfl, hle⟩, Or.inl ⟨rfl, rfl⟩, rfl⟩
    exact (hfresh.calls calls).inTime
  · intro start
    have hfresh : Tracks ⟨300, 600, 100⟩ (now, EmbassyTimer.new start) ⟨none, none, now⟩ :=
      ⟨rfl, rfl, Or.inl ⟨rfl, rfl⟩, rfl⟩
    exact (hfresh.calls calls).inTime

/-- Between the heartbeat interval and the least election timeout only the heartbeat is reported. -/
theorem timers_keep_time_mocked :
    let s := [TimerCall.resetElectionTimer, .resetHeartbeatTimer, .wait 60].foldl Timers.call
      (0, MockTimerService.new 150 300 50 1)
    InTime ⟨150, 300, 50⟩ (Timers.checkExpired s.1 s.2).iter ⟨some 0, some 0, 60⟩ ∧
      (Timers.checkExpired s.1 s.2).iter = [.heartbeat] :=
  ⟨(timers_keep_time 0 [.resetElectionTimer, .resetHeartbeatTimer, .wait 60]).1 150 300 50 1
    (by decide), by decide +kernel⟩

end MetalRaft
