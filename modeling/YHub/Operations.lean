import YHub.Stream
import Mathlib.Logic.Relation

/-!
# Runs of stream operations

The redis commands of the hub as one type `Op`, each taking effect at once at a redis time
(`Op.exec`), and what a run of them is (`OpStep`, `OpReach`). The operations that
`quarantine` and `unquarantine` send in several round trips appear as one `Op` per round trip:
`quarantine` is the `MULTI`, `quarantineCleanup` the `DEL` that follows it when the rename failed;
`unquarantine` is the `MULTI`, with the entries its `XRANGE` read before.

Results: what each operation leaves under the live key of its room (`addMessage_live` and the
lemmas after it).
-/

namespace YHub

variable {β : Type}

/-- A call that changes redis. -/
inductive Op (β : Type) where
  | addMessage (room : Room) (m : Message β)
  | trimMessages (room : Room) (minId : List Char) (maxAgeMs : JsNumber) (taskid : Option StreamId)
  | disableCompaction (room : Room)
  | enableCompaction (room : Room)
  | clearMessages (room : Room)
  | quarantine (room : Room) (qid : String)
  | quarantineCleanup (room : Room)
  | unquarantine (room : Room) (qid : String) (entries : List (Entry (Message β)))
  | deleteQuarantineStreams (room : Room) (qids : List String)

namespace Op

def room : Op β → Room
  | addMessage room _ => room
  | trimMessages room _ _ _ => room
  | disableCompaction room => room
  | enableCompaction room => room
  | clearMessages room => room
  | quarantine room _ => room
  | quarantineCleanup room => room
  | unquarantine room _ _ => room
  | deleteQuarantineStreams room _ => room

/-- The effect of an operation at redis time `now`. -/
def exec (now : Nat) : Op β → Redis (Message β) → Redis (Message β)
  | addMessage room m, r => YHub.addMessage now room m r
  | trimMessages room minId maxAgeMs taskid, r =>
      (YHub.trimMessages now room minId maxAgeMs taskid r).1
  | disableCompaction room, r => YHub.disableCompaction room r
  | enableCompaction room, r => YHub.enableCompaction now room r
  | clearMessages room, r => YHub.clearMessages room r
  | quarantine room qid, r => (quarantineMulti now room qid r).1
  | quarantineCleanup room, r => YHub.quarantineCleanup room r
  | unquarantine room qid entries, r => unquarantineMulti now room qid entries r
  | deleteQuarantineStreams room qids, r => YHub.deleteQuarantineStreams room qids r

end Op

/-- One operation among those that `P` admits in the state it runs in. -/
inductive OpStep (P : Redis (Message β) → Nat → Op β → Prop) :
    Redis (Message β) → Redis (Message β) → Prop
  | op (r : Redis (Message β)) (now : Nat) (o : Op β) (h : P r now o) : OpStep P r (o.exec now r)

/-- The states of the runs that start in an empty redis. -/
def OpReach (P : Redis (Message β) → Nat → Op β → Prop) : Redis (Message β) → Prop :=
  Relation.ReflTransGen (OpStep P) Redis.empty

/-- More runs reach more states. -/
theorem OpReach.mono {P Q : Redis (Message β) → Nat → Op β → Prop}
    (h : ∀ r now o, P r now o → Q r now o) {r : Redis (Message β)} (hr : OpReach P r) :
    OpReach Q r := by
  induction hr with
  | refl => exact Relation.ReflTransGen.refl
  | tail _ hstep ih =>
    obtain ⟨now, o, hP⟩ := hstep
    exact Relation.ReflTransGen.tail ih (OpStep.op _ now o (h _ now o hP))

/-- A step after a run. -/
theorem OpReach.op {P : Redis (Message β) → Nat → Op β → Prop} {r : Redis (Message β)}
    (hr : OpReach P r) {now : Nat} {o : Op β} (h : P r now o) : OpReach P (o.exec now r) :=
  Relation.ReflTransGen.tail hr (OpStep.op r now o h)

/-! ## The live key -/

section Live

variable {μ : Type} (now : Nat) (room : Room) (r : Redis μ)

@[simp] theorem addMessage_live (m : μ) :
    (addMessage now room m r).live room = some (.xadd now (.m m) (r.live room)) := by
  unfold addMessage Redis.xadd
  simp only
  split <;> simp [Redis.live]

/-- A message is added at the end of the stream. -/
theorem addMessage_entries (m : μ) :
    RedisStream.entriesOf ((addMessage now room m r).live room) =
      RedisStream.entriesOf (r.live room) ++ [⟨RedisStream.nextId now (r.live room), .m m⟩] := by
  rw [addMessage_live, RedisStream.entriesOf_xadd]

theorem addMessage_keys_of_ne (m : μ) {k : Key} (h : k ≠ .room room) :
    (addMessage now room m r).keys k = r.keys k := by
  unfold addMessage Redis.xadd
  simp only
  split <;> simp [h]

@[simp] theorem addMessage_compactionDisabled (m : μ) :
    (addMessage now room m r).compactionDisabled = r.compactionDisabled := by
  unfold addMessage Redis.xadd
  simp only
  split <;> rfl

@[simp] theorem clearMessages_live :
    (clearMessages room r).live room = (r.live room).map RedisStream.xtrimAll := by
  simp [clearMessages, Redis.live]

@[simp] theorem quarantineCleanup_live : (quarantineCleanup room r).live room = none := by
  simp [quarantineCleanup, Redis.del, Redis.live]

/-- Whether or not there was a stream to move, the live key now holds the `nop` alone, and has
forgotten every id it gave. -/
@[simp] theorem quarantineMulti_live (qid : String) :
    (quarantineMulti now room qid r).1.live room = some (.xadd now .nop none) := by
  cases h : r.keys (.room room) with
  | none => simp [quarantineMulti, Redis.rename, Redis.xadd, Redis.live, h]
  | some s => simp [quarantineMulti, Redis.rename, Redis.xadd, Redis.live, h]

/-- `unquarantine` does to the live key what its `addMessage` calls do. -/
theorem unquarantineMulti_live (qid : String) (entries : List (Entry (Message β)))
    (r : Redis (Message β)) : (unquarantineMulti now room qid entries r).live room =
      ((reinjected entries).foldl (fun r m => addMessage now room m r) r).live room :=
  Redis.set_keys_of_ne (by simp) _

end Live

/-! ## The other rooms -/

section Frame

variable {now : Nat} {room : Room} {r : Redis (Message β)}

theorem trimMessages_keys_of_ne {minId : List Char} {maxAgeMs : JsNumber} {taskid : Option StreamId}
    {k : Key} (h : k ≠ .room room) :
    (trimMessages now room minId maxAgeMs taskid r).1.keys k = r.keys k := by
  cases taskid with
  | none => rfl
  | some id => rw [trimMessages_keys, Function.update_of_ne h]

theorem quarantineMulti_keys_of_ne {qid : String} {k : Key} (hk : k ≠ .room room)
    (hq : k ≠ .quarantineRoom room qid) :
    (quarantineMulti now room qid r).1.keys k = r.keys k := by
  cases h : r.keys (.room room) with
  | none => simp [quarantineMulti, Redis.rename, Redis.xadd, h, hk]
  | some s => simp [quarantineMulti, Redis.rename, Redis.xadd, h, hk, hq]

/-- Re-injecting messages touches the live key alone. -/
theorem foldl_addMessage_keys_of_ne {k : Key} (h : k ≠ .room room) (ms : List (Message β)) :
    (ms.foldl (fun r m => addMessage now room m r) r).keys k = r.keys k := by
  induction ms generalizing r with
  | nil => rfl
  | cons m ms ih => rw [List.foldl_cons, ih, addMessage_keys_of_ne now room r m h]

theorem deleteQuarantineStreams_keys (qids : List String) (k : Key) :
    (deleteQuarantineStreams room qids r).keys k =
      if ∃ qid ∈ qids, k = .quarantineRoom room qid then none else r.keys k := by
  induction qids generalizing r with
  | nil => simp [deleteQuarantineStreams]
  | cons qid qids ih =>
    have hcons : deleteQuarantineStreams room (qid :: qids) r =
        deleteQuarantineStreams room qids (r.del (.quarantineRoom room qid)) := rfl
    rw [hcons, ih]
    by_cases hk : k = .quarantineRoom room qid
    · simp [Redis.del, hk]
    · by_cases hex : ∃ q ∈ qids, k = .quarantineRoom room q
      · rw [if_pos hex, if_pos]
        obtain ⟨q, hq, e⟩ := hex
        exact ⟨q, List.mem_cons_of_mem _ hq, e⟩
      · rw [if_neg hex, if_neg]
        · simp [Redis.del, hk]
        · rintro ⟨q, hq, e⟩
          rcases List.mem_cons.mp hq with rfl | hq
          · exact hk e
          · exact hex ⟨q, hq, e⟩

end Frame

/-- An operation leaves the live keys of the other rooms alone. -/
theorem Op.exec_live_of_ne {o : Op β} {room : Room} (h : room ≠ o.room) (now : Nat)
    (r : Redis (Message β)) : (o.exec now r).live room = r.live room := by
  have hk : Key.room room ≠ Key.room o.room := fun e => h (Key.room.inj e)
  cases o with
  | addMessage room' m => exact addMessage_keys_of_ne now room' r m hk
  | trimMessages room' minId maxAgeMs taskid => exact trimMessages_keys_of_ne hk
  | disableCompaction room' => rfl
  | enableCompaction room' =>
    simp only [Op.exec, YHub.enableCompaction]
    split <;> rfl
  | clearMessages room' => exact Redis.set_keys_of_ne hk _
  | quarantine room' qid => exact quarantineMulti_keys_of_ne hk Key.noConfusion
  | quarantineCleanup room' => exact Redis.set_keys_of_ne hk _
  | unquarantine room' qid entries =>
    exact (Redis.set_keys_of_ne (by simp) _).trans (foldl_addMessage_keys_of_ne hk _)
  | deleteQuarantineStreams room' qids =>
    simp [Op.exec, Redis.live, deleteQuarantineStreams_keys]

end YHub
