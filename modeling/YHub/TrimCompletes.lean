import YHub.Tasks
import YHub.RunTask

/-!
# When `trimMessages` stops half way (`stream.js:192-237`)

The script acknowledges and deletes its task before it computes the boundary of its `XTRIM`, and
redis keeps what a script did before an error. So a `minId` it cannot take apart leaves the room
without a task: the live key is there, `addMessage` only enqueues a task for a key that is not, and
nobody compacts the room again.

The `minId` of `_runTask` is the larger of a row clock and a stream clock. A row of
`unsafePersistDoc` has the clock `'<ms>-I'`, of which the script only reads the millisecond while
that is younger than the lifetime of messages, and all of it after that. The lifetime is whatever
number the configuration has; of a fractional one the script makes no id that redis accepts.

* `trimMessages_clean_iff`: in every state that redis can be in, the script completes or does
  nothing exactly when its task is not pending any more or it can compute a boundary.
* `trimMessages_strands_room`: the trim of a room to which `unsafePersistDoc` has written.
-/

namespace YHub

variable {β : Type} {r : Redis (Message β)} {now : Nat} {room : Room} {c : Clock}
  {maxAgeMs : JsNumber} {id : StreamId}

/-! ## Outcomes -/

/-- A pending task of the room that was enqueued between the two states. -/
def Successor (room : Room) (r r' : Redis (Message β)) : Prop :=
  ∃ t ∈ r'.worker.tasksOf room, r.worker.lastId < t.id

/-- The task is acknowledged and removed. -/
structure Removed (id : StreamId) (r r' : Redis (Message β)) : Prop where
  pending : id ∈ r.worker.pending
  acked : id ∉ r'.worker.pending
  deleted : ∀ t ∈ r'.worker.entries, t.id ≠ id

/-- The script has done all it is there for. -/
structure TrimCompleted (now : Nat) (room : Room) (c : Clock) (maxAgeMs : JsNumber) (id : StreamId)
    (r : Redis (Message β)) : Prop where
  result : (trimMessages now room c.text maxAgeMs (some id) r).2 = .ok ()
  removed : Removed id r (trimMessages now room c.text maxAgeMs (some id) r).1
  trimmed : ∃ b, trimBoundary c.text maxAgeMs now = .ok b ∧
    (trimMessages now room c.text maxAgeMs (some id) r).1.live room =
      RedisStream.trimKey b (r.live room)
  succeeded : (trimMessages now room c.text maxAgeMs (some id) r).1.live room = none ∨
    Successor room r (trimMessages now room c.text maxAgeMs (some id) r).1

/-- The task is gone, the live key is not, and no task has taken its place. -/
def Stranded (id : StreamId) (room : Room) (r r' : Redis (Message β)) : Prop :=
  Removed id r r' ∧ r'.live room ≠ none ∧ ¬ Successor room r r'

/-! ## The worker queue in any run -/

theorem addMessage_worker (m : Message β) :
    (addMessage now room m r).worker = r.worker ∨
      (addMessage now room m r).worker = r.worker.enqueue now room := by
  unfold addMessage
  simp only
  split
  · exact Or.inr rfl
  · exact Or.inl rfl

theorem trimTo_worker (b : StreamId) :
    (trimTo now room b r).worker = r.worker ∨
      (trimTo now room b r).worker = r.worker.enqueue now room := by
  unfold trimTo
  simp only
  split
  · exact Or.inl rfl
  · exact Or.inr rfl

/-- Whatever the script is given, it leaves the queue in order. -/
theorem trimMessages_workerOk (h : r.worker.Ok) (minId : List Char) (taskid : Option StreamId) :
    (trimMessages now room minId maxAgeMs taskid r).1.worker.Ok := by
  cases taskid with
  | none => exact h
  | some id =>
    unfold trimMessages
    simp only
    split
    · cases trimBoundary minId maxAgeMs now with
      | error e => exact h.remove id
      | ok b =>
        have hrem : ({ r with worker := r.worker.remove id } : Redis (Message β)).worker.Ok :=
          h.remove id
        rcases @trimTo_worker _ { r with worker := r.worker.remove id } now room b with e | e
        · exact e ▸ hrem
        · exact e ▸ hrem.enqueue now room
    · exact h.remove id

theorem addMessage_workerOk (h : r.worker.Ok) (now : Nat) (room : Room) (m : Message β) :
    (addMessage now room m r).worker.Ok := by
  rcases @addMessage_worker _ r now room m with e | e
  · exact e ▸ h
  · exact e ▸ h.enqueue now room

/-- **Every operation leaves the worker queue in order.** -/
theorem workerOk_exec (h : r.worker.Ok) (now : Nat) (o : Op β) : (o.exec now r).worker.Ok := by
  cases o with
  | addMessage room m => exact addMessage_workerOk h now room m
  | trimMessages room minId maxAgeMs taskid => exact trimMessages_workerOk h minId taskid
  | disableCompaction room => exact (WorkerStream.foldl_remove h _).1
  | enableCompaction room =>
    show (enableCompaction now room r).worker.Ok
    unfold enableCompaction
    simp only
    split
    · exact h.enqueue now room
    · exact h
  | clearMessages room => exact h
  | quarantine room qid =>
    show (quarantineMulti now room qid r).1.worker.Ok
    cases hk : r.keys (.room room) <;>
      simpa [quarantineMulti, Redis.rename, Redis.xadd, hk] using h
  | quarantineCleanup room => exact h
  | unquarantine room qid entries =>
    have hadd : ((reinjected entries).foldl (fun r m => addMessage now room m r) r).worker.Ok :=
      List.foldlRecOn (motive := fun r : Redis (Message β) => r.worker.Ok) _ _ h
        fun r hr m _ => addMessage_workerOk hr now room m
    exact hadd
  | deleteQuarantineStreams room qids =>
    exact List.foldlRecOn (motive := fun r : Redis (Message β) => r.worker.Ok) qids
      (fun r qid => r.del (.quarantineRoom room qid)) h fun _ hr _ _ => hr

theorem workerOk_of_reach (hr : OpReach (fun _ _ _ => True) r) : r.worker.Ok := by
  induction hr with
  | refl => exact WorkerStream.ok_empty
  | tail _ hstep ih =>
    obtain ⟨now, o, -⟩ := hstep
    exact workerOk_exec ih now o

/-! ## The outcome -/

theorem notMem_pending_remove {w : WorkerStream} (h : w.Ok) : id ∉ (w.remove id).pending := by
  have hn := h.nodup
  rw [← h.pending_eq] at hn
  exact fun hmem => (hn.mem_erase_iff.mp hmem).1 rfl

theorem ne_of_mem_remove {w : WorkerStream} {t : Task} (ht : t ∈ (w.remove id).entries) :
    t.id ≠ id := by
  simpa using (List.mem_filter.mp ht).2

/-- An enqueue does not bring back the task it follows. -/
theorem removed_trimTo (h : r.worker.Ok) (hid : id ∈ r.worker.pending) (b : StreamId) :
    Removed id r (trimTo now room b { r with worker := r.worker.remove id }) := by
  have hold : id ≤ r.worker.lastId := by
    rw [h.pending_eq] at hid
    obtain ⟨t, ht, rfl⟩ := List.mem_map.mp hid
    exact h.le_lastId t ht
  have hne : StreamId.next now r.worker.lastId ≠ id :=
    (hold.trans_lt (StreamId.lt_next now r.worker.lastId)).ne'
  rcases @trimTo_worker _ { r with worker := r.worker.remove id } now room b with e | e
  · refine ⟨hid, ?_, fun t ht => ?_⟩
    · rw [e]
      exact notMem_pending_remove h
    · rw [e] at ht
      exact ne_of_mem_remove ht
  · have heq := @WorkerStream.enqueue_eq now room _ (h.remove id)
    refine ⟨hid, ?_, fun t ht => ?_⟩
    · rw [e]
      show id ∉ ((r.worker.remove id).enqueue now room).pending
      rw [heq]
      intro hmem
      rcases List.mem_append.mp hmem with hmem | hmem
      · exact notMem_pending_remove h hmem
      · exact hne (List.mem_singleton.mp hmem).symm
    · rw [e] at ht
      have ht : t ∈ ((r.worker.remove id).enqueue now room).entries := ht
      rw [heq] at ht
      rcases List.mem_append.mp ht with ht | ht
      · exact ne_of_mem_remove ht
      · rw [List.mem_singleton.mp ht]
        exact hne

/-- **With a boundary the script completes.** -/
theorem trimMessages_completed (h : r.worker.Ok) (hid : id ∈ r.worker.pending)
    (hc : TrimOk c maxAgeMs now) : TrimCompleted now room c maxAgeMs id r := by
  obtain ⟨b, hb⟩ := (trimBoundary_isOk_iff c maxAgeMs now).mpr hc
  have heq : trimMessages now room c.text maxAgeMs (some id) r =
      (trimTo now room b { r with worker := r.worker.remove id }, .ok ()) :=
    trimMessages_pending hid hb
  have hlive : (trimTo now room b { r with worker := r.worker.remove id }).live room =
      RedisStream.trimKey b (r.live room) := by
    simp [Redis.live, trimTo_keys]
  refine ⟨by rw [heq], by rw [heq]; exact removed_trimTo h hid b, ⟨b, hb, by rw [heq]; exact hlive⟩,
    ?_⟩
  rw [heq]
  by_cases hnone : RedisStream.trimKey b (r.live room) = none
  · exact Or.inl (hlive.trans hnone)
  -- the key is still there, so the script has enqueued the next task
  have hne : RedisStream.entriesOf (RedisStream.trimKey b (r.live room)) ≠ [] :=
    fun he => hnone (RedisStream.trimKey_eq_none_iff.mpr he)
  have hw : (trimTo now room b { r with worker := r.worker.remove id }).worker =
      (r.worker.remove id).enqueue now room := by
    unfold trimTo
    simp only
    rw [if_neg (by simpa [Redis.live] using hne)]
    rfl
  refine Or.inr ⟨⟨.next now r.worker.lastId, room⟩, ?_, StreamId.lt_next now r.worker.lastId⟩
  show _ ∈ WorkerStream.tasksOf room (trimTo now room b { r with
    worker := r.worker.remove id }).worker
  rw [hw, WorkerStream.tasksOf_eq ((h.remove id).enqueue now room),
    WorkerStream.enqueue_eq (h.remove id)]
  exact List.mem_filter.mpr ⟨List.mem_append_right _ (List.mem_singleton.mpr rfl), by simp⟩

/-- Without one it has removed its task when it stops. -/
theorem trimMessages_stopped (hid : id ∈ r.worker.pending) (hc : ¬ TrimOk c maxAgeMs now) :
    ∃ e, trimMessages now room c.text maxAgeMs (some id) r =
      ({ r with worker := r.worker.remove id }, .error e) := by
  cases hb : trimBoundary c.text maxAgeMs now with
  | ok b => exact absurd ((trimBoundary_isOk_iff c maxAgeMs now).mp ⟨b, hb⟩) hc
  | error e =>
    refine ⟨e, ?_⟩
    simp only [trimMessages, WorkerStream.xack, hid, decide_true, if_true, hb]

/-- **When `trimMessages` completes or does nothing**, and leaves no room without its task: its
task is not pending any more, or a boundary can be computed from its arguments. -/
theorem trimMessages_clean_iff (hr : OpReach (fun _ _ _ => True) r) (now : Nat) (room : Room)
    (c : Clock) (maxAgeMs : JsNumber) (id : StreamId) :
    (TrimCompleted now room c maxAgeMs id r ∨
        (trimMessages now room c.text maxAgeMs (some id) r).1 = r) ∧
      ¬ Stranded id room r (trimMessages now room c.text maxAgeMs (some id) r).1 ↔
    id ∉ r.worker.pending ∨ TrimOk c maxAgeMs now := by
  have h := workerOk_of_reach hr
  constructor
  · rintro ⟨hclean, -⟩
    by_contra hn
    obtain ⟨hid, hc⟩ := not_or.mp hn
    have hid := not_not.mp hid
    obtain ⟨e, he⟩ := @trimMessages_stopped _ r now room c maxAgeMs id hid hc
    rcases hclean with hdone | hsame
    · have hres := hdone.result
      rw [he] at hres
      exact absurd hres (by simp)
    · rw [he] at hsame
      have hw : r.worker.remove id = r.worker := congrArg Redis.worker hsame
      have hpend : id ∈ (r.worker.remove id).pending := by
        rw [hw]
        exact hid
      exact notMem_pending_remove h hpend
  · intro hok
    by_cases hid : id ∈ r.worker.pending
    · have hdone : TrimCompleted now room c maxAgeMs id r :=
        trimMessages_completed h hid (hok.resolve_left (not_not.mpr hid))
      refine ⟨Or.inl hdone, fun hs => ?_⟩
      rcases hdone.succeeded with hnone | hsucc
      · exact hs.2.1 hnone
      · exact hs.2.2 hsucc
    · rw [trimMessages_late h hid]
      exact ⟨Or.inr rfl, fun hs => hid hs.1.pending⟩

/-- A message is on the stream and its task is run: the script completes. -/
theorem trimMessages_clean_of_run :
    let r := (Op.addMessage Room.a (.tombstone : Message Unit)).exec 1000 Redis.empty
    let r' := (trimMessages 100000 Room.a (Clock.id ⟨1000, 0⟩).text (.ofNat 60000)
      (some ⟨1000, 0⟩) r).1
    (TrimCompleted 100000 Room.a (.id ⟨1000, 0⟩) (.ofNat 60000) ⟨1000, 0⟩ r ∨ r' = r) ∧
      ¬ Stranded ⟨1000, 0⟩ Room.a r r' :=
  (trimMessages_clean_iff (OpReach.op Relation.ReflTransGen.refl trivial) _ _ _ _ _).mpr
    (Or.inr (by decide +kernel))

/-- With a lifetime of 1500.5 milliseconds redis is given `'1699999998499.5'`. -/
example : trimMinId (Clock.id ⟨1699999999000, 0⟩).text (.ofRat (3001 / 2)) 1700000000000 =
    .ok "1699999998499.5".toList := by
  decide +kernel

/-! ## The clock of `unsafePersistDoc` -/

/-- A room with an update on its stream, to which `unsafePersistDoc` has written a second later. -/
def persistedOver : Hub RefPayload :=
  oneUpdate.unsafePersistDoc (.ref []) Room.a 2000 (.doc [9]) none

/-- **The room is never compacted again**: `_runTask` passes the clock of the row that
`unsafePersistDoc` wrote, its task is acknowledged and removed, the stream is still there. -/
theorem trimMessages_strands_room :
    OpReach (fun _ _ _ => True) persistedOver.redis ∧
    (persistedOver.compact (.ref []) Room.a).1.redis = persistedOver.redis ∧
    (persistedOver.compact (.ref []) Room.a).2 = (.persist 2000, .ofNat 60000) ∧
    ¬ ((TrimCompleted 100000 Room.a (.persist 2000) (.ofNat 60000) ⟨1000, 0⟩ persistedOver.redis ∨
        (trimMessages 100000 Room.a (Clock.persist 2000).text (.ofNat 60000) (some ⟨1000, 0⟩)
          persistedOver.redis).1 = persistedOver.redis) ∧
      ¬ Stranded ⟨1000, 0⟩ Room.a persistedOver.redis (trimMessages 100000 Room.a
        (Clock.persist 2000).text (.ofNat 60000) (some ⟨1000, 0⟩) persistedOver.redis).1) ∧
    Stranded ⟨1000, 0⟩ Room.a persistedOver.redis (trimMessages 100000 Room.a
      (Clock.persist 2000).text (.ofNat 60000) (some ⟨1000, 0⟩) persistedOver.redis).1 := by
  have hstranded : Stranded ⟨1000, 0⟩ Room.a persistedOver.redis (trimMessages 100000 Room.a
      (Clock.persist 2000).text (.ofNat 60000) (some ⟨1000, 0⟩) persistedOver.redis).1 :=
    ⟨⟨by decide, by decide +kernel, by decide +kernel⟩, by decide +kernel,
      by unfold Successor; decide +kernel⟩
  have hr : OpReach (fun _ _ _ => True) ((Op.addMessage Room.a (insertion 7 "user1")).exec 1000
      Redis.empty) := OpReach.op Relation.ReflTransGen.refl trivial
  exact ⟨hr, rfl, by decide, fun h => h.2 hstranded,
    hstranded⟩

end YHub
