import YHub.Types
import Mathlib.Data.Finset.Basic
import Mathlib.Logic.Function.Basic

/-!
# Redis: stream keys, the worker queue, and the commands the hub sends

The part of redis the hub uses, as a state `Redis` and one function per command. A stream
(`RedisStream`) is the list of its entries, oldest first, and the last id it assigned, which
outlives the entries but not the key. An entry holds a message in its field `m`, or the field
`nop` that `Stream.quarantine` leaves behind.

The worker queue is one stream with one consumer group: `delivered` is the group's
last-delivered id, `pending` its list of delivered and not yet acknowledged ids. Keys are the
live key of a room (`encodeRoomName`) and its quarantine keys (`encodeQuarantineName`).
Commands read the redis time `now` in milliseconds.
-/

namespace YHub

variable {μ : Type}

/-! ## One stream -/

/-- The field of an entry: a message under `m`, or the `nop` marker. -/
inductive Field (μ : Type) where
  | m (message : μ)
  | nop
  deriving DecidableEq, Repr

/-- An entry of a room's stream. -/
structure Entry (μ : Type) where
  id : StreamId
  field : Field μ
  deriving DecidableEq, Repr

/-- The message of an entry, `none` for a `nop`. -/
def Entry.message? (e : Entry μ) : Option μ :=
  match e.field with
  | .m m => some m
  | .nop => none

/-- A stream key. -/
structure RedisStream (μ : Type) where
  entries : List (Entry μ)
  lastId : StreamId
  deriving DecidableEq, Repr

namespace RedisStream

/-- A key that does not exist yet. -/
def empty : RedisStream μ := ⟨[], .zero⟩

/-- The id `XADD key *` assigns; `none` is a missing key, whose last id is `0-0`. -/
def nextId (now : Nat) (s : Option (RedisStream μ)) : StreamId :=
  .next now (s.getD empty).lastId

/-- Redis assigns no `0-0`. -/
theorem zero_lt_nextId (now : Nat) (s : Option (RedisStream μ)) : StreamId.zero < nextId now s :=
  (StreamId.zero_le _).trans_lt (StreamId.lt_next now _)

/-- `XADD key * field`. -/
def xadd (now : Nat) (f : Field μ) (s : Option (RedisStream μ)) : RedisStream μ :=
  ⟨(s.getD empty).entries ++ [⟨nextId now s, f⟩], nextId now s⟩

/-- `XTRIM key MINID minid`: entries are evicted from the front while their id is below. -/
def xtrimMinId (minid : StreamId) (s : RedisStream μ) : RedisStream μ :=
  { s with entries := s.entries.dropWhile (·.id < minid) }

/-- `XTRIM key MAXLEN 0`. -/
def xtrimAll (s : RedisStream μ) : RedisStream μ := { s with entries := [] }

/-- `XTRIM key MINID minid`, then `DEL key` if `XLEN key` is zero. -/
def trimKey (minid : StreamId) (s : Option (RedisStream μ)) : Option (RedisStream μ) :=
  match s with
  | none => none
  | some s => if (s.xtrimMinId minid).entries = [] then none else some (s.xtrimMinId minid)

/-- The entries under a key, none when it is missing. -/
def entriesOf (s : Option (RedisStream μ)) : List (Entry μ) := (s.getD empty).entries

@[simp] theorem entriesOf_none : entriesOf (none : Option (RedisStream μ)) = [] := rfl

@[simp] theorem entriesOf_some (s : RedisStream μ) : entriesOf (some s) = s.entries := rfl

@[simp] theorem entriesOf_xadd (now : Nat) (f : Field μ) (s : Option (RedisStream μ)) :
    entriesOf (some (xadd now f s)) = entriesOf s ++ [⟨nextId now s, f⟩] := rfl

@[simp] theorem entriesOf_map_xtrimAll (s : Option (RedisStream μ)) :
    entriesOf (s.map xtrimAll) = [] := by
  cases s <;> rfl

/-- Trimming a key drops the entries below the boundary from the front, and nothing else. -/
theorem entriesOf_trimKey (minid : StreamId) (s : Option (RedisStream μ)) :
    entriesOf (trimKey minid s) = (entriesOf s).dropWhile (·.id < minid) := by
  cases s with
  | none => rfl
  | some s =>
    simp only [trimKey]
    by_cases h : (s.xtrimMinId minid).entries = []
    · rw [if_pos h]; exact h.symm
    · rw [if_neg h]; rfl

theorem trimKey_eq_none_iff {minid : StreamId} {s : Option (RedisStream μ)} :
    trimKey minid s = none ↔ entriesOf (trimKey minid s) = [] := by
  cases s with
  | none => simp [trimKey]
  | some s =>
    simp only [trimKey]
    by_cases h : (s.xtrimMinId minid).entries = [] <;> simp [h]

end RedisStream

/-! ## The worker queue -/

/-- A `compact` task of the worker stream. -/
structure Task where
  id : StreamId
  compact : Room
  deriving DecidableEq, Repr

/-- The worker stream and its consumer group. -/
structure WorkerStream where
  entries : List Task
  lastId : StreamId
  delivered : StreamId
  pending : List StreamId
  deriving DecidableEq, Repr

namespace WorkerStream

/-- A fresh worker stream, its group created at `'0'`. -/
def empty : WorkerStream := ⟨[], .zero, .zero, []⟩

/-- `XADD worker * compact key`. -/
def xadd (now : Nat) (room : Room) (w : WorkerStream) : WorkerStream :=
  { w with entries := w.entries ++ [⟨.next now w.lastId, room⟩], lastId := .next now w.lastId }

/-- `XREADGROUP GROUP group pending COUNT 1 STREAMS worker >`: the first entry past the
last-delivered id, if there is one, becomes pending. -/
def xreadgroup (w : WorkerStream) : WorkerStream :=
  match w.entries.find? (fun t => w.delivered < t.id) with
  | none => w
  | some t => { w with delivered := t.id, pending := w.pending ++ [t.id] }

/-- The two commands every script enqueues a task with. -/
def enqueue (now : Nat) (room : Room) (w : WorkerStream) : WorkerStream :=
  (w.xadd now room).xreadgroup

/-- `XACK worker group id`, as the number of acknowledged ids (`true` for 1). -/
def xack (id : StreamId) (w : WorkerStream) : WorkerStream × Bool :=
  ({ w with pending := w.pending.erase id }, decide (id ∈ w.pending))

/-- `XDEL worker id`. -/
def xdel (id : StreamId) (w : WorkerStream) : WorkerStream :=
  { w with entries := w.entries.filter (·.id ≠ id) }

/-- `XACK worker group id`, `XDEL worker id`. -/
def remove (id : StreamId) (w : WorkerStream) : WorkerStream := (w.xack id).1.xdel id

/-- The pending compact tasks of a room. -/
def tasksOf (room : Room) (w : WorkerStream) : List Task :=
  w.entries.filter fun t => t.compact = room ∧ t.id ∈ w.pending

end WorkerStream

/-! ## The keyspace -/

/-- `encodeRoomName(room)` and `encodeQuarantineName(room, qid)`. -/
inductive Key where
  | room (room : Room)
  | quarantineRoom (room : Room) (qid : String)
  deriving DecidableEq, Repr

/-- The redis state: the room keys, the worker queue, the `compaction_disabled` set. -/
structure Redis (μ : Type) where
  keys : Key → Option (RedisStream μ)
  worker : WorkerStream
  compactionDisabled : Finset Room

namespace Redis

/-- A redis without room keys, as `createStream` leaves it. -/
def empty : Redis μ := ⟨fun _ => none, .empty, ∅⟩

/-- The live stream of a room. -/
def live (r : Redis μ) (room : Room) : Option (RedisStream μ) := r.keys (.room room)

/-- The quarantine stream `qid` of a room. -/
def quarantined (r : Redis μ) (room : Room) (qid : String) : Option (RedisStream μ) :=
  r.keys (.quarantineRoom room qid)

def set (r : Redis μ) (k : Key) (s : Option (RedisStream μ)) : Redis μ :=
  { r with keys := Function.update r.keys k s }

/-- `DEL key`. -/
def del (r : Redis μ) (k : Key) : Redis μ := r.set k none

/-- `XADD key * field`. -/
def xadd (now : Nat) (k : Key) (f : Field μ) (r : Redis μ) : Redis μ :=
  r.set k (some (.xadd now f (r.keys k)))

/-- `RENAME src dst`; the flag is `false` for the error "no such key". -/
def rename (src dst : Key) (r : Redis μ) : Redis μ × Bool :=
  match r.keys src with
  | none => (r, false)
  | some s => ((r.set dst (some s)).set src none, true)

/-- `XADD worker * compact key` and the `XREADGROUP` that follows it. -/
def enqueue (now : Nat) (room : Room) (r : Redis μ) : Redis μ :=
  { r with worker := r.worker.enqueue now room }

/-! ### What each command leaves alone -/

@[simp] theorem set_keys_self (r : Redis μ) (k : Key) (s : Option (RedisStream μ)) :
    (r.set k s).keys k = s := Function.update_self ..

@[simp] theorem set_keys_of_ne {r : Redis μ} {k k' : Key} (h : k' ≠ k)
    (s : Option (RedisStream μ)) : (r.set k s).keys k' = r.keys k' := Function.update_of_ne h ..

@[simp] theorem set_worker (r : Redis μ) (k : Key) (s : Option (RedisStream μ)) :
    (r.set k s).worker = r.worker := rfl

@[simp] theorem set_compactionDisabled (r : Redis μ) (k : Key) (s : Option (RedisStream μ)) :
    (r.set k s).compactionDisabled = r.compactionDisabled := rfl

@[simp] theorem enqueue_keys (now : Nat) (room : Room) (r : Redis μ) :
    (r.enqueue now room).keys = r.keys := rfl

@[simp] theorem enqueue_worker (now : Nat) (room : Room) (r : Redis μ) :
    (r.enqueue now room).worker = r.worker.enqueue now room := rfl

@[simp] theorem enqueue_compactionDisabled (now : Nat) (room : Room) (r : Redis μ) :
    (r.enqueue now room).compactionDisabled = r.compactionDisabled := rfl

end Redis

end YHub
