import MetalRaft.Collections
import MetalRaft.Storage

/-!
# The state machine of the embassy realization

`EmbassyStateMachine` of `embassy_state_machine.rs`: keys and values in an index map of sixteen
entries, written into a snapshot as one line `key=value` each.

* `splitOnce`, `lines` — `str::split_once` and `str::lines`.
* `restoreFromSnapshot` — the map is cleared before the bytes are looked at, so a refused snapshot
  leaves nothing behind: `get_of_refused`.
-/

set_option autoImplicit false

namespace MetalRaft

/-- `str::split_once`. -/
def splitOnce (delimiter : Char) (s : String) : Option (String × String) :=
  match s.toList.dropWhile (· != delimiter) with
  | [] => none
  | _ :: rest => some (String.ofList (s.toList.takeWhile (· != delimiter)), String.ofList rest)

/-- A line that a line feed ended may end in a carriage return, which belongs to the ending. -/
def stripCarriageReturn (line : List Char) : List Char :=
  if line.getLast? = some '\r' then line.dropLast else line

/-- The lines of a text whose first characters, those of `line`, have been read already. -/
def linesFrom (line : List Char) : List Char → List (List Char)
  | [] => if line.isEmpty then [] else [line]
  | c :: cs =>
    if c = '\n' then stripCarriageReturn line :: linesFrom [] cs else linesFrom (line ++ [c]) cs

/-- `str::lines`: what follows the last line feed is a line unless it is empty. -/
def lines (s : String) : List String := (linesFrom [] s.toList).map String.ofList

/-- `data` is an `FnvIndexMap<String, String, 16>`, in the order in which its keys came in. -/
structure EmbassyStateMachine where
  data : List (String × String)

namespace EmbassyStateMachine

def mapCapacity : Nat := 16

/-- The capacity of `EmbassySnapshotData`. -/
def snapshotDataCapacity : Nat := 512

def new : EmbassyStateMachine := ⟨[]⟩

/-- `FnvIndexMap::insert`: a key that is there keeps its place, a new one that does not fit is
dropped. -/
def insert (s : EmbassyStateMachine) (key value : String) : EmbassyStateMachine :=
  if s.data.any (·.1 == key) then
    ⟨s.data.map fun entry => if entry.1 == key then (key, value) else entry⟩
  else ⟨pushWithin (some mapCapacity) s.data (key, value)⟩

def apply (s : EmbassyStateMachine) (payload : String) : EmbassyStateMachine :=
  match splitOnce '=' payload with
  | some (key, value) => s.insert key value
  | none => s

def get (s : EmbassyStateMachine) (key : String) : Option String :=
  (s.data.find? (·.1 == key)).map (·.2)

/-- The bytes of one line of a snapshot. -/
def lineBytes (entry : String × String) : List UInt8 :=
  entry.1.toUTF8.data.toList ++ "=".toUTF8.data.toList ++ entry.2.toUTF8.data.toList ++
    "\n".toUTF8.data.toList

def createSnapshot (s : EmbassyStateMachine) : List UInt8 :=
  (s.data.flatMap lineBytes).foldl (pushWithin (some snapshotDataCapacity)) []

def restoreFromSnapshot (s : EmbassyStateMachine) (data : List UInt8) :
    EmbassyStateMachine × Except SnapshotError Unit :=
  let s := { s with data := [] }
  match String.fromUTF8? ⟨data.toArray⟩ with
  | none => (s, .error .deserializationFailed)
  | some text => ((lines text).foldl apply s, .ok ())

theorem createSnapshot_length (s : EmbassyStateMachine) :
    s.createSnapshot.length ≤ snapshotDataCapacity :=
  foldl_pushWithin_length_le _ [] (Nat.zero_le _)

instance : StateMachine EmbassyStateMachine String where
  apply := apply
  get := get
  createSnapshot := createSnapshot
  restoreFromSnapshot := restoreFromSnapshot
  createSnapshot_length s := by
    have := createSnapshot_length s
    simp only [snapshotDataCapacity, usizeMax] at *
    omega

/-- Only bytes that are no UTF-8 are refused. -/
theorem refused_iff {s : EmbassyStateMachine} {data : List UInt8} :
    (∃ e, (s.restoreFromSnapshot data).2 = .error e) ↔
      String.fromUTF8? ⟨data.toArray⟩ = none := by
  unfold restoreFromSnapshot
  cases String.fromUTF8? ⟨data.toArray⟩ <;> simp

/-- After a refused snapshot every key is gone. -/
theorem get_of_refused {s : EmbassyStateMachine} {data : List UInt8}
    (h : String.fromUTF8? ⟨data.toArray⟩ = none) (key : String) :
    (s.restoreFromSnapshot data).1.get key = none := by
  simp [restoreFromSnapshot, h, get]

end EmbassyStateMachine

end MetalRaft
