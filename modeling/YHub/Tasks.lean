import YHub.Operations

/-!
# One compact task per live room

A stream is only ever compacted because a task for it sits in the worker queue, and nothing but
`EXISTS == 0` in `addMessage` tells when to enqueue one. `one_task_per_live_room` is the invariant
this relies on: a room has exactly one pending `compact` task while its live key exists and its
compaction is not disabled, and none otherwise.

The operations: `addMessage`, `trimMessages`, `disableCompaction`, `enableCompaction`,
`clearMessages`, the `MULTI` of `quarantine` on an existing stream, the `MULTI` of `unquarantine`
(`Listed`). The invariant holds in every run in which a `trimMessages` that still finds its task
pending is given a task of its own room and arguments from which the script computes a boundary
(`Admissible`). Neither can be left out (`tasks_not_one_without_guards`):

* with the task of another room, the script acknowledges that room's task and enqueues one for
  its own room;
* with no boundary, the script has acknowledged its task when it stops. `TrimCompletes.lean` is
  about when it does.

`one_task_per_live_room` also says what a late worker does: a `trimMessages` whose task is not
pending any more changes nothing.
-/

namespace YHub

variable {β : Type} {now : Nat} {room : Room}

/-! ## The worker queue -/

namespace WorkerStream

/-- The state of the worker queue between operations: every entry is pending, under its own id,
and has been delivered. -/
structure Ok (w : WorkerStream) : Prop where
  pending_eq : w.pending = w.entries.map Task.id
  nodup : (w.entries.map Task.id).Nodup
  le_lastId : ∀ t ∈ w.entries, t.id ≤ w.lastId
  delivered_eq : w.delivered = w.lastId

theorem ok_empty : Ok empty := ⟨rfl, List.nodup_nil, fun _ h => absurd h List.not_mem_nil, rfl⟩

/-- The `XREADGROUP` of an enqueue delivers the task its `XADD` has just appended. -/
theorem enqueue_eq {w : WorkerStream} (h : w.Ok) :
    w.enqueue now room = ⟨w.entries ++ [⟨.next now w.lastId, room⟩], .next now w.lastId,
      .next now w.lastId, w.pending ++ [.next now w.lastId]⟩ := by
  have hlt : w.delivered < StreamId.next now w.lastId := by
    rw [h.delivered_eq]
    exact StreamId.lt_next now w.lastId
  have hold : w.entries.find? (fun t => decide (w.delivered < t.id)) = none := by
    refine List.find?_eq_none.mpr fun t ht => ?_
    rw [h.delivered_eq]
    simpa using h.le_lastId t ht
  have hfind : (w.xadd now room).entries.find?
      (fun t => decide ((w.xadd now room).delivered < t.id)) =
        some ⟨.next now w.lastId, room⟩ := by
    show List.find? (fun t : Task => decide (w.delivered < t.id))
      (w.entries ++ [⟨.next now w.lastId, room⟩]) = _
    rw [List.find?_append, hold, Option.none_or, List.find?_singleton, decide_eq_true hlt,
      if_pos rfl]
  unfold enqueue xreadgroup
  rw [hfind]
  rfl

theorem Ok.enqueue {w : WorkerStream} (h : w.Ok) (now : Nat) (room : Room) :
    (w.enqueue now room).Ok := by
  rw [enqueue_eq h]
  have hlt := StreamId.lt_next now w.lastId
  refine ⟨by simp [h.pending_eq], ?_, ?_, rfl⟩
  · rw [List.map_append, List.nodup_append]
    refine ⟨h.nodup, by simp, ?_⟩
    rintro i hi j hj rfl
    obtain ⟨t, ht, rfl⟩ := List.mem_map.mp hi
    have hle := h.le_lastId t ht
    rw [List.mem_singleton.mp hj] at hle
    exact absurd hle (not_le.mpr hlt)
  · intro t ht
    rcases List.mem_append.mp ht with ht | ht
    · exact (h.le_lastId t ht).trans hlt.le
    · rw [List.mem_singleton.mp ht]

theorem Ok.remove {w : WorkerStream} (h : w.Ok) (id : StreamId) : (w.remove id).Ok := by
  refine ⟨?_, ?_, fun t ht => h.le_lastId t (List.mem_filter.mp ht).1, h.delivered_eq⟩
  · have hn := h.nodup
    rw [← h.pending_eq] at hn
    simp only [WorkerStream.remove, xack, xdel, hn.erase_eq_filter]
    rw [h.pending_eq, List.filter_map]
    congr 1
    refine List.filter_congr fun t _ => ?_
    simp only [Function.comp_apply, ne_eq, decide_not, bne, beq_eq_decide]
  · exact h.nodup.sublist (List.filter_sublist.map Task.id)

/-- Between operations the pending tasks of a room are its entries. -/
theorem tasksOf_eq {w : WorkerStream} (h : w.Ok) (room : Room) :
    w.tasksOf room = w.entries.filter fun t => t.compact = room := by
  refine List.filter_congr fun t ht => ?_
  have : t.id ∈ w.pending := by
    rw [h.pending_eq]
    exact List.mem_map_of_mem ht
  simp [this]

theorem tasksOf_enqueue {w : WorkerStream} (h : w.Ok) (now : Nat) (room room' : Room) :
    ((w.enqueue now room).tasksOf room').length =
      (w.tasksOf room').length + if room = room' then 1 else 0 := by
  rw [tasksOf_eq (h.enqueue now room), tasksOf_eq h, enqueue_eq h, List.filter_append,
    List.length_append]
  congr 1
  by_cases hr : room = room' <;> simp [hr]

theorem tasksOf_remove {w : WorkerStream} (h : w.Ok) (id : StreamId) (room : Room) :
    (w.remove id).tasksOf room = (w.tasksOf room).filter (·.id ≠ id) := by
  rw [tasksOf_eq (h.remove id), tasksOf_eq h]
  simp only [remove, xack, xdel, List.filter_filter, Bool.and_comm]

/-- The tasks of the other rooms outlive the removal of a room's task. -/
theorem tasksOf_remove_of_own {w : WorkerStream} (h : w.Ok) {id : StreamId}
    (hown : ∀ t ∈ w.entries, t.id = id → t.compact = room) {room' : Room} (hne : room' ≠ room) :
    (w.remove id).tasksOf room' = w.tasksOf room' := by
  rw [tasksOf_remove h]
  refine List.filter_eq_self.mpr fun t ht => ?_
  have ht := List.mem_filter.mp ht
  have hc : t.compact = room' := (by simpa using ht.2 : t.compact = room' ∧ _).1
  have : t.id ≠ id := fun hid => hne (hc.symm.trans (hown t ht.1 hid))
  simpa using this

/-- Removing a task that is not pending changes nothing. -/
theorem remove_of_notMem {w : WorkerStream} (h : w.Ok) {id : StreamId} (hid : id ∉ w.pending) :
    w.remove id = w := by
  have hent : w.entries.filter (fun t => decide (t.id ≠ id)) = w.entries := by
    refine List.filter_eq_self.mpr fun t ht => ?_
    have : t.id ≠ id := by
      rintro rfl
      exact hid (by rw [h.pending_eq]; exact List.mem_map_of_mem ht)
    simpa using this
  simp only [remove, xack, xdel, List.erase_of_not_mem hid, hent]

/-- Removing a room's only task leaves it without one. -/
theorem tasksOf_remove_only {w : WorkerStream} (h : w.Ok) {id : StreamId}
    (hown : ∀ t ∈ w.entries, t.id = id → t.compact = room) (hid : id ∈ w.pending)
    (hone : (w.tasksOf room).length ≤ 1) :
    (w.tasksOf room).length = 1 ∧ (w.remove id).tasksOf room = [] := by
  rw [h.pending_eq] at hid
  obtain ⟨t, ht, rfl⟩ := List.mem_map.mp hid
  have hmem : t ∈ w.tasksOf room := by
    rw [tasksOf_eq h]
    exact List.mem_filter.mpr ⟨ht, by simp [hown t ht rfl]⟩
  have hlen : (w.tasksOf room).length = 1 := by
    have := List.length_pos_of_mem hmem
    omega
  obtain ⟨t', ht'⟩ := List.length_eq_one_iff.mp hlen
  refine ⟨hlen, ?_⟩
  rw [tasksOf_remove h, ht']
  rw [ht', List.mem_singleton] at hmem
  simp [hmem]

/-- The loop of `disableCompaction`. -/
theorem foldl_remove {w : WorkerStream} (h : w.Ok) (ts : List Task) :
    (ts.foldl (fun w t => w.remove t.id) w).Ok ∧
      ∀ room, (ts.foldl (fun w t => w.remove t.id) w).tasksOf room =
        (w.tasksOf room).filter fun t => t.id ∉ ts.map Task.id := by
  induction ts generalizing w with
  | nil => exact ⟨h, fun room => by simp⟩
  | cons t ts ih =>
    obtain ⟨hok, htasks⟩ := ih (h.remove t.id)
    refine ⟨hok, fun room => ?_⟩
    rw [List.foldl_cons, htasks room, tasksOf_remove h, List.filter_filter]
    refine List.filter_congr fun u _ => ?_
    simp [not_or, Bool.and_comm]

end WorkerStream

/-! ## The invariant -/

/-- The number of tasks a room should have: one while its live key exists and its compaction is
not disabled. -/
def tasksDue (r : Redis (Message β)) (room : Room) : Nat :=
  if r.live room ≠ none ∧ room ∉ r.compactionDisabled then 1 else 0

/-- One compact task per live room. -/
structure OneTask (r : Redis (Message β)) : Prop where
  worker : r.worker.Ok
  count : ∀ room, (r.worker.tasksOf room).length = tasksDue r room

/-- The operations the invariant is about, a `quarantine` only of an existing stream and a
`trimMessages` with a clock `'<ms>'` or `'<ms>-<seq>'`. -/
def Listed (r : Redis (Message β)) (_now : Nat) : Op β → Prop
  | .trimMessages _ minId _ _ => ∃ c : Clock, c.toId? ≠ none ∧ minId = c.text
  | .quarantine room _ => r.live room ≠ none
  | .quarantineCleanup _ => False
  | .deleteQuarantineStreams _ _ => False
  | _ => True

/-- What a `trimMessages` that finds its task pending may be required to meet. -/
abbrev TrimGuard (β : Type) :=
  Redis (Message β) → Nat → Room → List Char → JsNumber → StreamId → Prop

/-- A listed operation that meets `G` when it is a `trimMessages` whose task is pending. -/
def ListedWith (G : TrimGuard β) (r : Redis (Message β)) (now : Nat) (o : Op β) : Prop :=
  Listed r now o ∧
    match o with
    | .trimMessages room minId maxAgeMs (some id) => id ∈ r.worker.pending →
        G r now room minId maxAgeMs id
    | _ => True

/-- The task is one of the room. -/
def OwnTask : TrimGuard β := fun r _ room _ _ id => ∀ t ∈ r.worker.entries, t.id = id →
  t.compact = room

/-- The script computes a boundary that redis accepts. -/
def HasBoundary : TrimGuard β := fun _ now _ minId maxAgeMs _ =>
  ∃ b, trimBoundary minId maxAgeMs now = .ok b

/-- A trim whose task is pending is given a task of its room, and arguments that yield a
boundary. -/
def Admissible : Redis (Message β) → Nat → Op β → Prop :=
  ListedWith fun r now room minId maxAgeMs id =>
    OwnTask r now room minId maxAgeMs id ∧ HasBoundary r now room minId maxAgeMs id

theorem tasksDue_congr {r r' : Redis (Message β)} {room : Room}
    (hl : r'.live room = none ↔ r.live room = none)
    (hd : room ∈ r'.compactionDisabled ↔ room ∈ r.compactionDisabled) :
    tasksDue r' room = tasksDue r room := by
  simp only [tasksDue, ne_eq, hl, hd]

/-- An operation that keeps the queue, the existence of every live key and the disabled rooms
keeps the invariant. -/
theorem OneTask.congr {r r' : Redis (Message β)} (h : OneTask r) (hw : r'.worker = r.worker)
    (hl : ∀ room, r'.live room = none ↔ r.live room = none)
    (hd : r'.compactionDisabled = r.compactionDisabled) : OneTask r' := by
  refine ⟨hw ▸ h.worker, fun room => ?_⟩
  rw [hw, h.count room, tasksDue_congr (hl room) (by rw [hd])]

/-- An operation on `room` that enqueues a task where none was, and leaves the room due one. -/
theorem OneTask.enqueue {r' : Redis (Message β)} {w : WorkerStream} (hok : w.Ok)
    (hw : r'.worker = w.enqueue now room) (hnone : w.tasksOf room = [])
    (hdue : tasksDue r' room = 1)
    (hother : ∀ room', room' ≠ room → (w.tasksOf room').length = tasksDue r' room') :
    OneTask r' := by
  refine ⟨hw ▸ hok.enqueue now room, fun room' => ?_⟩
  rw [hw, WorkerStream.tasksOf_enqueue hok]
  by_cases hr : room = room'
  · subst hr
    rw [hnone, if_pos rfl, hdue, List.length_nil]
  · rw [if_neg hr, hother room' (Ne.symm hr), Nat.add_zero]

theorem tasksOf_eq_nil {r : Redis (Message β)} (h : OneTask r)
    (hdue : r.live room = none ∨ room ∈ r.compactionDisabled) : r.worker.tasksOf room = [] := by
  have hc := h.count room
  have : tasksDue r room = 0 := by
    refine if_neg fun hn => ?_
    rcases hdue with hl | hd
    · exact hn.1 hl
    · exact hn.2 hd
  rw [this] at hc
  exact List.length_eq_zero_iff.mp hc

/-! ### Each operation keeps it -/

theorem live_ne_addMessage {r : Redis (Message β)} {room' : Room} (m : Message β)
    (h : room' ≠ room) : (addMessage now room m r).live room' = r.live room' :=
  addMessage_keys_of_ne now room r m fun e => h (Key.room.inj e)

theorem OneTask.addMessage {r : Redis (Message β)} (h : OneTask r) (now : Nat) (room : Room)
    (m : Message β) : OneTask (addMessage now room m r) := by
  by_cases hen : r.live room = none ∧ room ∉ r.compactionDisabled
  · have hw : (YHub.addMessage now room m r).worker = r.worker.enqueue now room := by
      simp only [YHub.addMessage, if_pos hen]
      rfl
    refine OneTask.enqueue h.worker hw (tasksOf_eq_nil h (Or.inl hen.1)) ?_ ?_
    · refine if_pos ⟨by simp, ?_⟩
      simpa using hen.2
    · intro room' hr
      rw [h.count room']
      exact (tasksDue_congr (by rw [live_ne_addMessage m hr]) (by simp)).symm
  · have hw : (YHub.addMessage now room m r).worker = r.worker := by
      simp only [YHub.addMessage, if_neg hen]
      rfl
    refine ⟨hw ▸ h.worker, fun room' => ?_⟩
    rw [hw, h.count room']
    by_cases hr : room' = room
    · -- the room was live already, or it is disabled: nothing is due that was not before
      subst hr
      unfold tasksDue
      rw [addMessage_live, addMessage_compactionDisabled]
      by_cases hd : room' ∈ r.compactionDisabled
      · simp [hd]
      · have : r.live room' ≠ none := fun hl => hen ⟨hl, hd⟩
        simp [hd, this]
    · exact (tasksDue_congr (by rw [live_ne_addMessage m hr]) (by simp)).symm

theorem OneTask.unquarantine {r : Redis (Message β)} (h : OneTask r) (now : Nat) (room : Room)
    (qid : String) (entries : List (Entry (Message β))) :
    OneTask (unquarantineMulti now room qid entries r) := by
  have hadd : OneTask ((reinjected entries).foldl (fun r m => YHub.addMessage now room m r) r) :=
    List.foldlRecOn _ _ h fun r hr m _ => hr.addMessage now room m
  refine hadd.congr rfl (fun room' => ?_) rfl
  simp [unquarantineMulti, Redis.del, Redis.live]

theorem OneTask.clearMessages {r : Redis (Message β)} (h : OneTask r) (room : Room) :
    OneTask (clearMessages room r) := by
  refine h.congr rfl (fun room' => ?_) rfl
  by_cases hr : room' = room
  · subst hr
    simp
  · simp [YHub.clearMessages, Redis.live, hr]

theorem OneTask.quarantine {r : Redis (Message β)} (h : OneTask r) (now : Nat) (qid : String)
    (hlive : r.live room ≠ none) : OneTask (quarantineMulti now room qid r).1 := by
  obtain ⟨s, hs⟩ := Option.ne_none_iff_exists'.mp hlive
  have hs' : r.keys (.room room) = some s := hs
  refine h.congr ?_ (fun room' => ?_) ?_
  · simp [quarantineMulti, Redis.rename, Redis.xadd, hs']
  · by_cases hr : room' = room
    · subst hr
      simp [hs]
    · simp [quarantineMulti, Redis.rename, Redis.xadd, hs', Redis.live, hr]
  · simp [quarantineMulti, Redis.rename, Redis.xadd, hs']

theorem OneTask.disableCompaction {r : Redis (Message β)} (h : OneTask r) (room : Room) :
    OneTask (disableCompaction room r) := by
  obtain ⟨hok, htasks⟩ :=
    WorkerStream.foldl_remove h.worker (r.worker.entries.filter fun t => t.compact = room)
  refine ⟨hok, fun room' => ?_⟩
  show List.length ((List.foldl _ _ _ : WorkerStream).tasksOf room') = _
  rw [htasks room']
  by_cases hr : room' = room
  · subst hr
    have hnil : (r.worker.tasksOf room').filter (fun t =>
        t.id ∉ (r.worker.entries.filter fun t => t.compact = room').map Task.id) = [] := by
      refine List.filter_eq_nil_iff.mpr fun t ht => ?_
      rw [WorkerStream.tasksOf_eq h.worker] at ht
      have hid : t.id ∈ (r.worker.entries.filter fun t => t.compact = room').map Task.id :=
        List.mem_map_of_mem ht
      simpa only [hid, not_true_eq_false, decide_false] using Bool.false_ne_true
    rw [hnil]
    exact (if_neg fun hn => hn.2 (Finset.mem_insert_self room' _)).symm
  · have hall : (r.worker.tasksOf room').filter (fun t =>
        t.id ∉ (r.worker.entries.filter fun t => t.compact = room).map Task.id) =
          r.worker.tasksOf room' := by
      refine List.filter_eq_self.mpr fun t ht => ?_
      rw [WorkerStream.tasksOf_eq h.worker] at ht
      have ht := List.mem_filter.mp ht
      refine decide_eq_true fun hmem => ?_
      obtain ⟨u, hu, hid⟩ := List.mem_map.mp hmem
      have hu := List.mem_filter.mp hu
      have htu : u = t := List.inj_on_of_nodup_map h.worker.nodup hu.1 ht.1 hid
      subst htu
      exact hr ((by simpa using ht.2 : u.compact = room').symm.trans (by simpa using hu.2))
    rw [hall, h.count room']
    refine Eq.symm (tasksDue_congr Iff.rfl ?_)
    simp [YHub.disableCompaction, hr]

theorem OneTask.enableCompaction {r : Redis (Message β)} (h : OneTask r) (now : Nat)
    (room : Room) : OneTask (enableCompaction now room r) := by
  by_cases hen : room ∈ r.compactionDisabled ∧ r.live room ≠ none
  · have he : YHub.enableCompaction now room r =
        { r with compactionDisabled := r.compactionDisabled.erase room }.enqueue now room := by
      simp only [YHub.enableCompaction, if_pos hen]
    rw [he]
    refine OneTask.enqueue h.worker rfl (tasksOf_eq_nil h (Or.inr hen.1)) ?_ ?_
    · exact if_pos ⟨hen.2, by simp⟩
    · intro room' hr
      rw [h.count room']
      refine Eq.symm (tasksDue_congr Iff.rfl ?_)
      simp [hr]
  · have he : YHub.enableCompaction now room r =
        { r with compactionDisabled := r.compactionDisabled.erase room } := by
      simp only [YHub.enableCompaction, if_neg hen]
    rw [he]
    refine ⟨h.worker, fun room' => ?_⟩
    rw [h.count room']
    by_cases hr : room' = room
    · subst hr
      unfold tasksDue
      by_cases hd : room' ∈ r.compactionDisabled
      · have hl : r.live room' = none := not_not.mp fun hl => hen ⟨hd, hl⟩
        have hl' : r.keys (.room room') = none := hl
        simp [hd, Redis.live, hl']
      · simp [hd, Redis.live]
    · refine Eq.symm (tasksDue_congr Iff.rfl ?_)
      simp [hr]

/-- **A late worker changes nothing.** -/
theorem trimMessages_late {r : Redis (Message β)} (h : r.worker.Ok) {id : StreamId}
    (hid : id ∉ r.worker.pending) (now : Nat) (room : Room) (minId : List Char)
    (maxAgeMs : JsNumber) : trimMessages now room minId maxAgeMs (some id) r = (r, .ok ()) := by
  have hw : { r with worker := r.worker.remove id } = r := by
    rw [WorkerStream.remove_of_notMem h hid]
  simp only [trimMessages, WorkerStream.xack, hid, decide_false, Bool.false_eq_true, if_false, hw]

theorem trimMessages_pending {r : Redis (Message β)} {id : StreamId} (hid : id ∈ r.worker.pending)
    {minId : List Char} {maxAgeMs : JsNumber} {b : StreamId}
    (hb : trimBoundary minId maxAgeMs now = .ok b) :
    trimMessages now room minId maxAgeMs (some id) r =
      (trimTo now room b { r with worker := r.worker.remove id }, .ok ()) := by
  simp only [trimMessages, WorkerStream.xack, hid, decide_true, if_true, hb]

theorem OneTask.trimMessages {r : Redis (Message β)} (h : OneTask r) {minId : List Char}
    {maxAgeMs : JsNumber} {id : StreamId}
    (hG : id ∈ r.worker.pending → OwnTask r now room minId maxAgeMs id ∧
      HasBoundary r now room minId maxAgeMs id) :
    OneTask (YHub.trimMessages now room minId maxAgeMs (some id) r).1 := by
  by_cases hid : id ∈ r.worker.pending
  · obtain ⟨hown, b, hb⟩ := hG hid
    rw [trimMessages_pending hid hb]
    -- the task was the room's only one, so the room was live and not disabled
    have hone : (r.worker.tasksOf room).length ≤ 1 := by
      rw [h.count room, tasksDue]
      split <;> omega
    obtain ⟨hlen, hnil⟩ := WorkerStream.tasksOf_remove_only h.worker hown hid hone
    have hdue : r.live room ≠ none ∧ room ∉ r.compactionDisabled := by
      refine not_not.mp fun hn => ?_
      rw [h.count room, tasksDue, if_neg hn] at hlen
      exact absurd hlen (by omega)
    have hother : ∀ (r' : Redis (Message β)) (room' : Room), room' ≠ room →
        r'.live room' = r.live room' → r'.compactionDisabled = r.compactionDisabled →
        ((r.worker.remove id).tasksOf room').length = tasksDue r' room' := by
      intro r' room' hne hl hd
      rw [WorkerStream.tasksOf_remove_of_own h.worker hown hne, h.count room']
      exact Eq.symm (tasksDue_congr (by rw [hl]) (by rw [hd]))
    have hlive : ∀ room', room' ≠ room →
        (trimTo now room b { r with worker := r.worker.remove id }).live room' = r.live room' := by
      intro room' hne
      simp [Redis.live, trimTo_keys, hne]
    unfold trimTo at hlive ⊢
    simp only at hlive ⊢
    by_cases he : RedisStream.entriesOf (RedisStream.trimKey b (r.live room)) = []
    · rw [if_pos (by simpa [Redis.live] using he)] at hlive ⊢
      refine ⟨h.worker.remove id, fun room' => ?_⟩
      by_cases hne : room' = room
      · subst hne
        show ((r.worker.remove id).tasksOf room').length = _
        rw [hnil]
        refine Eq.symm (if_neg fun hn => hn.1 ?_)
        simpa [Redis.live] using RedisStream.trimKey_eq_none_iff.mpr he
      · exact hother _ room' hne (hlive room' hne) rfl
    · rw [if_neg (by simpa [Redis.live] using he)] at hlive ⊢
      refine OneTask.enqueue (h.worker.remove id) rfl hnil ?_ ?_
      · refine if_pos ⟨fun hn => he ?_, hdue.2⟩
        exact RedisStream.trimKey_eq_none_iff.mp (by simpa [Redis.live] using hn)
      · exact fun room' hne => hother _ room' hne (hlive room' hne) rfl
  · rw [trimMessages_late h.worker hid]
    exact h

/-- The step lemma. -/
theorem OneTask.step {r r' : Redis (Message β)} (h : OneTask r) (hs : OpStep Admissible r r') :
    OneTask r' := by
  obtain ⟨now, o, hP⟩ := hs
  cases o with
  | addMessage room m => exact h.addMessage now room m
  | trimMessages room minId maxAgeMs taskid =>
    cases taskid with
    | none => exact h
    | some id => exact h.trimMessages hP.2
  | disableCompaction room => exact h.disableCompaction room
  | enableCompaction room => exact h.enableCompaction now room
  | clearMessages room => exact h.clearMessages room
  | quarantine room qid => exact h.quarantine now qid hP.1
  | quarantineCleanup room => exact absurd hP.1 id
  | unquarantine room qid entries => exact h.unquarantine now room qid entries
  | deleteQuarantineStreams room qids => exact absurd hP.1 id

theorem oneTask_empty : OneTask (Redis.empty : Redis (Message β)) :=
  ⟨WorkerStream.ok_empty, fun _ => rfl⟩

theorem oneTask_of_reach {r : Redis (Message β)} (hr : OpReach Admissible r) : OneTask r := by
  induction hr with
  | refl => exact oneTask_empty
  | tail _ hstep ih => exact ih.step hstep

/-- **One compact task per live room**, in every state a run reaches; and a `trimMessages` whose
task is not pending any more leaves that state as it is. -/
theorem one_task_per_live_room {r : Redis (Message β)} (hr : OpReach Admissible r) :
    (∀ room, (r.worker.tasksOf room).length =
      if r.live room ≠ none ∧ room ∉ r.compactionDisabled then 1 else 0) ∧
    ∀ now room minId maxAgeMs id, id ∉ r.worker.pending →
      trimMessages now room minId maxAgeMs (some id) r = (r, .ok ()) :=
  have h := oneTask_of_reach hr
  ⟨h.count, fun now room minId maxAgeMs _ hid =>
    trimMessages_late h.worker hid now room minId maxAgeMs⟩

/-- The tasks along a run: `addMessage` enqueues one, and the `trimMessages` that empties the
stream leaves none. -/
theorem one_task_per_live_room_of_run :
    let r := (Op.addMessage Room.a (.tombstone : Message Unit)).exec 1000 Redis.empty
    let r' := (Op.trimMessages Room.a (Clock.id ⟨1000, 0⟩).text (.ofNat 60000)
      (some ⟨1000, 0⟩)).exec 100000 r
    (r.worker.tasksOf Room.a).length = 1 ∧ (r'.worker.tasksOf Room.a).length = 0 ∧
      r'.live Room.a = none := by
  intro r r'
  have hr : OpReach Admissible r := OpReach.op Relation.ReflTransGen.refl ⟨trivial, trivial⟩
  have hr' : OpReach Admissible r' :=
    hr.op ⟨⟨_, by decide, rfl⟩, fun _ => ⟨by unfold OwnTask; decide +kernel,
      (trimBoundary_isOk_iff (.id ⟨1000, 0⟩) (.ofNat 60000) 100000).mpr (by decide +kernel)⟩⟩
  refine ⟨?_, ?_, by decide +kernel⟩
  · rw [(one_task_per_live_room hr).1]
    decide
  · rw [(one_task_per_live_room hr').1]
    decide +kernel

/-! ## Why both guards are needed -/

/-- Two rooms, each with a message and its task. -/
def twoRooms : Redis (Message Unit) :=
  (Op.addMessage Room.b .tombstone).exec 2000
    ((Op.addMessage Room.a .tombstone).exec 1000 Redis.empty)

theorem twoRooms_reach {G : TrimGuard Unit} : OpReach (ListedWith G) twoRooms :=
  OpReach.op (OpReach.op Relation.ReflTransGen.refl ⟨trivial, trivial⟩) ⟨trivial, trivial⟩

/-- A trim of room `a` with the task of room `b`. -/
def foreignTask : Op Unit := .trimMessages Room.a (Clock.zero).text (.ofNat 60000) (some ⟨2000, 0⟩)

/-- A trim with a lifetime of messages that exceeds the redis time. -/
def longLifetime : Op Unit :=
  .trimMessages Room.a (Clock.id ⟨1000, 0⟩).text (.ofNat 60000) (some ⟨1000, 0⟩)

/-- **The invariant fails in some run of the listed operations**, also when every trim computes a
boundary, and also when every trim works on a task of its own room. -/
theorem tasks_not_one_without_guards :
    (¬ ∀ r : Redis (Message Unit), OpReach Listed r →
      ∀ room, (r.worker.tasksOf room).length = tasksDue r room) ∧
    (¬ ∀ r : Redis (Message Unit), OpReach (ListedWith HasBoundary) r →
      ∀ room, (r.worker.tasksOf room).length = tasksDue r room) ∧
    (¬ ∀ r : Redis (Message Unit), OpReach (ListedWith OwnTask) r →
      ∀ room, (r.worker.tasksOf room).length = tasksDue r room) := by
  -- room `b` loses its task to the successor of room `a`'s
  have hforeign : OpReach (ListedWith HasBoundary) (foreignTask.exec 62000 twoRooms) :=
    twoRooms_reach.op ⟨⟨Clock.zero, by decide, rfl⟩, fun _ =>
      (trimBoundary_isOk_iff Clock.zero (.ofNat 60000) 62000).mpr (by decide +kernel)⟩
  -- the script stops at a negative id, its task already acknowledged
  have hlong : OpReach (ListedWith OwnTask) (longLifetime.exec 3000 twoRooms) :=
    twoRooms_reach.op ⟨⟨_, by decide, rfl⟩, fun _ => by unfold OwnTask; decide +kernel⟩
  refine ⟨fun h => ?_, fun h => ?_, fun h => ?_⟩
  · exact absurd (h _ (hforeign.mono fun _ _ _ hP => hP.1) Room.b) (by decide +kernel)
  · exact absurd (h _ hforeign Room.b) (by decide +kernel)
  · exact absurd (h _ hlong Room.a) (by decide +kernel)

end YHub
