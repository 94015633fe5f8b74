import YHub.Leases
import YHub.Lib.Interleave
import YHub.Lib.Lease
import YHub.Tasks

/-!
# The workers of a deployment (`index.js:80-157`, `stream.js:629-673`)

Every hub may run a worker, and all of them claim their tasks from one queue in redis. Nothing but
the lease keeps two workers from compacting a room at the same time: redis remembers to whom it has
delivered a task and when, `claimTasks` only gets tasks whose delivery is `taskDebounce` old, and
`renewTasks` makes the delivery of a task new, whoever has it.

The shared state is the queue (`WorkQueue`): redis, its time, and the deliveries. What a worker does
on its own is `LeaseState`. Between sending a command and its reply any time may pass, and a reply
that is on its way may find the worker in another state (`LeaseWorker`). `startWorker` and
`stopWorker` may be called at any time. `_renewLeases` looks at `shouldRun` only before it waits, so
it renews once more after `stopWorker`.

* `LeaseWorker.Punctual`: the timer of `_renewLeases`, a command on its way to redis, and a reply on
  its way back are not later than `latency`.
* `LeaseWorker.Due`: the tasks that a worker has, and when it will have renewed them.
* `LeaseWorkerStep.due`: what a step of a punctual worker does to these dates.
* `Op.grows`: what an operation on redis does to the tasks.

`OneWorker.lean` is about the runs.
-/

namespace YHub

open Lease (Delivery)

variable {β : Type}

/-! ## The queue -/

/-- Redis at the time `now`. `delivery` is about the pending tasks alone. -/
structure WorkQueue (β : Type) where
  redis : Redis (Message β)
  now : Nat
  delivery : StreamId → Delivery Nat

/-- The ids of a reply. -/
def claimedIds (messages : List (Option ClaimedMessage)) : List StreamId :=
  messages.filterMap fun m => m.map ClaimedMessage.id

namespace WorkQueue

def empty : WorkQueue β := ⟨.empty, 0, fun _ => ⟨none, 0⟩⟩

/-- The pending list. -/
def pending (q : WorkQueue β) (id : StreamId) : Option (Delivery Nat) :=
  if id ∈ q.redis.worker.pending then some (q.delivery id) else none

/-- An operation on redis. The tasks it enqueues are delivered to the consumer `pending`. -/
def op (o : Op β) (q : WorkQueue β) : WorkQueue β where
  redis := o.exec q.now q.redis
  now := q.now
  delivery id := if id ∈ q.redis.worker.pending then q.delivery id else ⟨none, q.now⟩

def tick (q : WorkQueue β) : WorkQueue β := { q with now := q.now + 1 }

/-- The tasks are delivered to a consumer. -/
def deliver (consumer : Nat) (ids : List StreamId) (q : WorkQueue β) : WorkQueue β :=
  { q with delivery := fun id => if id ∈ ids then ⟨some consumer, q.now⟩ else q.delivery id }

/-- What `XAUTOCLAIM … minIdle 0 COUNT count` replies. -/
structure AutoClaims (q : WorkQueue β) (minIdle count : Nat)
    (messages : List (Option ClaimedMessage)) : Prop extends AutoClaimed count messages where
  idle : ∀ id ∈ claimedIds messages, ∃ p, q.pending id = some p ∧ p.time + minIdle ≤ q.now
  entries : ∀ task ∈ claimedTasks messages, task ∈ q.redis.worker.entries

end WorkQueue

/-! ## A worker -/

/-- Where `_renewLeases` is, and since when. -/
inductive Renewal where
  | waiting (since : Nat)
  /-- `XCLAIM … 0 taskIds JUSTID` is on its way. -/
  | sent (taskIds : List StreamId) (since : Nat)
  /-- The reply is on its way. -/
  | replied (since : Nat)
  | ended
  deriving DecidableEq, Repr

/-- The reply to `claimTasks` that is on its way since `time`. -/
structure ClaimReply where
  messages : List (Option ClaimedMessage)
  time : Nat
  deriving DecidableEq, Repr

structure LeaseWorker where
  consumername : Nat
  shouldRun : Bool
  leases : LeaseState
  claimReply : Option ClaimReply
  renewal : Renewal

namespace LeaseWorker

/-- A worker before `startWorker`. -/
def idle (consumername taskConcurrency taskTimeout : Nat) : LeaseWorker :=
  ⟨consumername, false, .start taskConcurrency taskTimeout, none, .ended⟩

/-- The head of the loop of `_renewLeases`. -/
def loop (now : Nat) (w : LeaseWorker) : Renewal := if w.shouldRun then .waiting now else .ended

/-- `_renewLeases` after it has waited; `t` is the time of the hub. -/
def wake (now t : Nat) (w : LeaseWorker) : LeaseWorker :=
  let leases := w.leases.renewLeases t
  { w with
    leases := leases
    renewal := if leases.inflight.keys = [] then w.loop now else .sent leases.inflight.keys now }

end LeaseWorker

/-- `math.min(1000, math.floor(taskDebounce / 3))`. -/
def renewInterval (taskDebounce : Nat) : Nat := min 1000 (taskDebounce / 3)

/-- One step of a worker. A renewal that `errs` gets lost on the way to redis. -/
inductive LeaseWorkerStep (taskDebounce : Nat) (errs : WorkQueue β → LeaseWorker → Prop) :
    WorkQueue β → LeaseWorker → WorkQueue β → LeaseWorker → Prop
  /-- A worker that starts while something of an earlier one is under way is another one. -/
  | startWorker (q : WorkQueue β) (w : LeaseWorker) (hinflight : w.leases.inflight.keys = [])
      (hreply : w.claimReply = none) (hrenewal : w.renewal = .ended) :
      LeaseWorkerStep taskDebounce errs q w q
        { w with shouldRun := true, renewal := .waiting q.now }
  | stopWorker (q : WorkQueue β) (w : LeaseWorker) :
      LeaseWorkerStep taskDebounce errs q w q { w with shouldRun := false }
  | claim (q : WorkQueue β) (w : LeaseWorker) (S : LeaseState) (hrun : w.shouldRun = true)
      (h : LeaseStep w.leases .claim S) :
      LeaseWorkerStep taskDebounce errs q w q { w with leases := S }
  /-- `XAUTOCLAIM`. -/
  | xAutoClaim (q : WorkQueue β) (w : LeaseWorker) (count : Nat)
      (messages : List (Option ClaimedMessage)) (hclaiming : w.leases.claiming = some count)
      (hreply : w.claimReply = none) (h : q.AutoClaims taskDebounce count messages) :
      LeaseWorkerStep taskDebounce errs q w (q.deliver w.consumername (claimedIds messages))
        { w with claimReply := some ⟨messages, q.now⟩ }
  | claimed (q : WorkQueue β) (w : LeaseWorker) (reply : ClaimReply) (now : StreamId → Nat)
      (S : LeaseState) (hreply : w.claimReply = some reply)
      (h : LeaseStep w.leases (.claimed reply.messages now) S) :
      LeaseWorkerStep taskDebounce errs q w q { w with leases := S, claimReply := none }
  | claimFails (q : WorkQueue β) (w : LeaseWorker) (S : LeaseState)
      (h : LeaseStep w.leases .claimFails S) :
      LeaseWorkerStep taskDebounce errs q w q { w with leases := S, claimReply := none }
  | runEnds (q : WorkQueue β) (w : LeaseWorker) (r : Nat) (S : LeaseState)
      (h : LeaseStep w.leases (.runEnds r) S) :
      LeaseWorkerStep taskDebounce errs q w q { w with leases := S }
  | wake (q : WorkQueue β) (w : LeaseWorker) (since t : Nat) (h : w.renewal = .waiting since)
      (hinterval : since + renewInterval taskDebounce ≤ q.now) :
      LeaseWorkerStep taskDebounce errs q w q (w.wake q.now t)
  /-- `XCLAIM`. -/
  | xClaimJustId (q : WorkQueue β) (w : LeaseWorker) (taskIds : List StreamId) (since : Nat)
      (h : w.renewal = .sent taskIds since) :
      LeaseWorkerStep taskDebounce errs q w (q.deliver w.consumername taskIds)
        { w with renewal := .replied q.now }
  /-- The reply is there, or it has got lost. -/
  | renewed (q : WorkQueue β) (w : LeaseWorker) (since : Nat) (h : w.renewal = .replied since) :
      LeaseWorkerStep taskDebounce errs q w q { w with renewal := w.loop q.now }
  | renewFails (q : WorkQueue β) (w : LeaseWorker) (taskIds : List StreamId) (since : Nat)
      (h : w.renewal = .sent taskIds since) (herr : errs q w) :
      LeaseWorkerStep taskDebounce errs q w q { w with renewal := w.loop q.now }

/-- The states of a deployment. -/
abbrev Deployment (β : Type) := Interleave.State (WorkQueue β) Nat LeaseWorker

/-- What happens to the queue: `ticks` are the states that time may go on to. -/
inductive QueueWorld (ticks : Deployment β → Prop) : Deployment β → WorkQueue β → Prop
  | tick (q : WorkQueue β) (ws : Nat → LeaseWorker) (h : ticks (q.tick, ws)) :
      QueueWorld ticks (q, ws) q.tick
  | op (q : WorkQueue β) (ws : Nat → LeaseWorker) (o : Op β) (h : Admissible q.redis q.now o) :
      QueueWorld ticks (q, ws) (q.op o)

/-- The steps of a deployment. -/
abbrev DeploymentRun (taskDebounce : Nat) (ticks : Deployment β → Prop)
    (errs : WorkQueue β → LeaseWorker → Prop) : Deployment β → Deployment β → Prop :=
  Relation.ReflTransGen (Interleave.Step (QueueWorld ticks) (LeaseWorkerStep taskDebounce errs))

/-- A deployment before anything has happened. -/
def Deployment.start (taskConcurrency taskTimeout : Nat → Nat) : Deployment β :=
  (.empty, fun k => .idle k (taskConcurrency k) (taskTimeout k))

/-! ## What the operations do to the tasks -/

/-- The tasks of `w'` are tasks of `w`, or newer. -/
structure WorkerStream.Grows (w w' : WorkerStream) : Prop where
  ok : w'.Ok
  lastId : w.lastId ≤ w'.lastId
  entries : ∀ t ∈ w'.entries, t ∈ w.entries ∨ w.lastId < t.id

namespace WorkerStream

variable {w w' w'' : WorkerStream}

theorem Grows.refl (h : w.Ok) : w.Grows w := ⟨h, le_rfl, fun _ ht => .inl ht⟩

theorem Grows.trans (h : w.Grows w') (h' : w'.Grows w'') : w.Grows w'' where
  ok := h'.ok
  lastId := h.lastId.trans h'.lastId
  entries t ht := by
    rcases h'.entries t ht with ht | hlt
    · exact h.entries t ht
    · exact .inr (h.lastId.trans_lt hlt)

theorem grows_enqueue (h : w.Ok) (now : Nat) (room : Room) : w.Grows (w.enqueue now room) := by
  refine ⟨h.enqueue now room, ?_, fun t ht => ?_⟩
  · rw [enqueue_eq h]
    exact (StreamId.lt_next now w.lastId).le
  · rw [enqueue_eq h, List.mem_append, List.mem_singleton] at ht
    refine ht.imp_right ?_
    rintro rfl
    exact StreamId.lt_next now w.lastId

theorem grows_remove (h : w.Ok) (id : StreamId) : w.Grows (w.remove id) :=
  ⟨h.remove id, le_rfl, fun _ ht => .inl (List.mem_filter.mp ht).1⟩

theorem grows_foldl_remove (h : w.Ok) (ts : List Task) :
    w.Grows (ts.foldl (fun w t => w.remove t.id) w) := by
  induction ts generalizing w with
  | nil => exact .refl h
  | cons t ts ih => exact (grows_remove h t.id).trans (ih (h.remove t.id))

end WorkerStream

theorem grows_addMessage {r : Redis (Message β)} (h : r.worker.Ok) (now : Nat) (room : Room)
    (m : Message β) : r.worker.Grows (addMessage now room m r).worker := by
  unfold addMessage
  split
  · exact WorkerStream.grows_enqueue h now room
  · exact .refl h

theorem grows_trimMessages {r : Redis (Message β)} (h : r.worker.Ok) (now : Nat) (room : Room)
    (minId : List Char) (maxAgeMs : JsNumber) (taskid : Option StreamId) :
    r.worker.Grows (trimMessages now room minId maxAgeMs taskid r).1.worker := by
  cases taskid with
  | none => exact .refl h
  | some id =>
    have hremove := WorkerStream.grows_remove h id
    unfold trimMessages
    simp only
    split
    · split
      · exact hremove
      · unfold trimTo
        simp only
        split
        · exact hremove
        · exact hremove.trans (WorkerStream.grows_enqueue hremove.ok now room)
    · exact hremove

/-- An operation removes tasks and enqueues new ones. -/
theorem Op.grows {r : Redis (Message β)} (h : r.worker.Ok) (now : Nat) (o : Op β) :
    r.worker.Grows (o.exec now r).worker := by
  cases o with
  | addMessage room m => exact grows_addMessage h now room m
  | trimMessages room minId maxAgeMs taskid =>
    exact grows_trimMessages h now room minId maxAgeMs taskid
  | disableCompaction room => exact WorkerStream.grows_foldl_remove h _
  | enableCompaction room =>
    simp only [Op.exec, YHub.enableCompaction]
    split
    · exact WorkerStream.grows_enqueue h now room
    · exact .refl h
  | clearMessages room => exact .refl h
  | quarantine room qid =>
    have hworker : (quarantineMulti now room qid r).1.worker = r.worker := by
      cases hs : r.keys (.room room) <;> simp [quarantineMulti, Redis.rename, Redis.xadd, hs]
    show r.worker.Grows (quarantineMulti now room qid r).1.worker
    rw [hworker]
    exact .refl h
  | quarantineCleanup room => exact .refl h
  | unquarantine room qid entries =>
    show r.worker.Grows
      ((reinjected entries).foldl (fun r m => YHub.addMessage now room m r) r).worker
    generalize reinjected entries = ms
    induction ms generalizing r with
    | nil => exact .refl h
    | cons m ms ih =>
      have hadd := grows_addMessage h now room m
      exact hadd.trans (ih hadd.ok)
  | deleteQuarantineStreams room qids =>
    have hworker : (YHub.deleteQuarantineStreams room qids r).worker = r.worker :=
      List.foldlRecOn (motive := fun r' : Redis (Message β) => r'.worker = r.worker) qids _ rfl
        fun _ hr' _ _ => hr'
    show r.worker.Grows (YHub.deleteQuarantineStreams room qids r).worker
    rw [hworker]
    exact .refl h

/-! ## Who has a task -/

/-- `_renewLeases` is running. -/
def LeaseWorker.Renews (w : LeaseWorker) : Prop := w.renewal ≠ .ended

/-- The worker has the task, and will have renewed it by the time `d` if it is punctual. -/
inductive LeaseWorker.Due (taskDebounce latency : Nat) (w : LeaseWorker) : StreamId → Nat → Prop
  | waiting (id : StreamId) (since : Nat) (hid : id ∈ w.leases.inflight.keys)
      (h : w.renewal = .waiting since) :
      Due taskDebounce latency w id (since + renewInterval taskDebounce + 2 * latency)
  | sent (id : StreamId) (taskIds : List StreamId) (since : Nat) (hid : id ∈ taskIds)
      (h : w.renewal = .sent taskIds since) : Due taskDebounce latency w id (since + latency)
  /-- Its run has started after the renewal was sent. -/
  | next (id : StreamId) (taskIds : List StreamId) (since : Nat)
      (hid : id ∈ w.leases.inflight.keys) (hnew : id ∉ taskIds)
      (h : w.renewal = .sent taskIds since) :
      Due taskDebounce latency w id (since + renewInterval taskDebounce + 4 * latency)
  | replied (id : StreamId) (since : Nat) (hid : id ∈ w.leases.inflight.keys)
      (h : w.renewal = .replied since) :
      Due taskDebounce latency w id (since + renewInterval taskDebounce + 3 * latency)
  /-- It has been claimed, and its run will start when the reply is there. -/
  | claimed (id : StreamId) (reply : ClaimReply) (hid : id ∈ claimedIds reply.messages)
      (hreply : w.claimReply = some reply) (h : w.Renews) :
      Due taskDebounce latency w id (reply.time + renewInterval taskDebounce + 5 * latency)

/-! ## Punctual workers -/

/-- Nothing that the worker waits for is late. -/
structure LeaseWorker.Punctual (taskDebounce latency now : Nat) (w : LeaseWorker) : Prop where
  waiting : ∀ since, w.renewal = .waiting since →
    now ≤ since + renewInterval taskDebounce + latency
  sent : ∀ taskIds since, w.renewal = .sent taskIds since → now ≤ since + latency
  replied : ∀ since, w.renewal = .replied since → now ≤ since + latency
  claimed : ∀ reply, w.claimReply = some reply → now ≤ reply.time + latency

/-- What the worker waits for has begun. -/
structure LeaseWorker.Begun (now : Nat) (w : LeaseWorker) : Prop where
  waiting : ∀ since, w.renewal = .waiting since → since ≤ now
  sent : ∀ taskIds since, w.renewal = .sent taskIds since → since ≤ now
  replied : ∀ since, w.renewal = .replied since → since ≤ now
  claimed : ∀ reply, w.claimReply = some reply → reply.time ≤ now

section Steps

variable {D L now : Nat} {w w' : LeaseWorker} {S S' : LeaseState} {id : StreamId} {d : Nat}

theorem LeaseWorker.Punctual.le_due (h : w.Punctual D L now) (hd : w.Due D L id d) : now ≤ d := by
  cases hd with
  | waiting since hid hw =>
    have hle := h.waiting since hw
    omega
  | sent taskIds since hid hw =>
    have hle := h.sent taskIds since hw
    omega
  | next taskIds since hid hnew hw =>
    have hle := h.sent taskIds since hw
    omega
  | replied since hid hw =>
    have hle := h.replied since hw
    omega
  | claimed reply hid hreply hw =>
    have hle := h.claimed reply hreply
    omega

theorem LeaseWorker.Begun.mono (h : w.Begun now) {now' : Nat} (hle : now ≤ now') :
    w.Begun now' where
  waiting since hw := (h.waiting since hw).trans hle
  sent taskIds since hw := (h.sent taskIds since hw).trans hle
  replied since hw := (h.replied since hw).trans hle
  claimed reply hreply := (h.claimed reply hreply).trans hle

/-! ### The tasks of a worker -/

theorem mem_keys_renewLeases {t : Nat} (h : id ∈ (S.renewLeases t).inflight.keys) :
    id ∈ S.inflight.keys := by
  have hfold : ∀ (es : List (StreamId × Nat)) (S : LeaseState),
      id ∈ (es.foldl (LeaseState.abandonOverrun t) S).inflight.keys → id ∈ S.inflight.keys := by
    intro es
    induction es with
    | nil => exact fun S h => h
    | cons e es ih =>
      intro S h
      have h := ih _ h
      unfold LeaseState.abandonOverrun at h
      split at h
      · exact h
      · split at h
        · obtain ⟨r, hr⟩ := InsertionMap.mem_keys.mp h
          exact InsertionMap.mem_keys.mpr ⟨r, (InsertionMap.mem_entries_delete.mp hr).2⟩
        · exact h
  unfold LeaseState.renewLeases LeaseState.renewTasks at h
  split at h
  · exact hfold _ S h
  · exact hfold _ S h

theorem mem_keys_startTasks {t : StreamId → Nat} {tasks : List Task}
    (h : id ∈ (S.startTasks t tasks).inflight.keys) :
    id ∈ S.inflight.keys ∨ ∃ task ∈ tasks, task.id = id := by
  induction tasks generalizing S with
  | nil => exact .inl h
  | cons task tasks ih =>
    rcases ih (S := S.startTask t task) h with h | ⟨task', htask', rfl⟩
    · obtain ⟨r, hr⟩ := InsertionMap.mem_keys.mp h
      rcases InsertionMap.mem_entries_set.mp hr with ⟨rfl, -⟩ | ⟨-, hold⟩
      · exact .inr ⟨task, List.mem_cons_self, rfl⟩
      · exact .inl (InsertionMap.mem_keys.mpr ⟨r, hold⟩)
    · exact .inr ⟨task', List.mem_cons_of_mem _ htask', rfl⟩

theorem mem_claimedIds {messages : List (Option ClaimedMessage)} {task : Task}
    (h : task ∈ claimedTasks messages) : task.id ∈ claimedIds messages :=
  (claimedTasks_sublist messages).subset (List.mem_map_of_mem h)

/-- What the tasks of the runs are. -/
theorem LeaseStep.keys {e : LeaseEvent} (hs : LeaseStep S e S')
    (h : id ∈ S'.inflight.keys) : id ∈ S.inflight.keys ∨
      ∃ messages t, e = .claimed messages t ∧ id ∈ claimedIds messages := by
  cases hs with
  | claim hclaiming hfree => exact .inl h
  | claimed count messages t hcount hreply =>
    rcases mem_keys_startTasks h with h | ⟨task, htask, rfl⟩
    · exact .inl h
    · exact .inr ⟨messages, t, rfl, mem_claimedIds (List.mem_filter.mp htask).1⟩
  | claimFails count hcount => exact .inl h
  | runEnds r run hr hended =>
    unfold LeaseState.endRun at h
    split at h
    · obtain ⟨r, hr⟩ := InsertionMap.mem_keys.mp h
      exact .inl (InsertionMap.mem_keys.mpr ⟨r, (InsertionMap.mem_entries_delete.mp hr).2⟩)
    · exact .inl h
  | renewLeases t => exact .inl (mem_keys_renewLeases h)

/-! ### What a step does to the dates -/

/-- The dates of `w'` are dates of `w`, or earlier. -/
def LeaseWorker.Hastens (D L : Nat) (w w' : LeaseWorker) : Prop :=
  ∀ id d', w'.Due D L id d' → ∃ d, w.Due D L id d ∧ d' ≤ d

/-- A worker that keeps where `_renewLeases` is, and gets no new task. -/
theorem LeaseWorker.hastens_of_keys (hrenewal : w'.renewal = w.renewal)
    (hreply : w'.claimReply = w.claimReply ∨ w'.claimReply = none)
    (hkeys : ∀ id ∈ w'.leases.inflight.keys, id ∈ w.leases.inflight.keys) :
    w.Hastens D L w' := by
  rintro id d' hd
  refine ⟨d', ?_, le_rfl⟩
  cases hd with
  | waiting since hid hw => exact .waiting id since (hkeys id hid) (hrenewal ▸ hw)
  | sent taskIds since hid hw => exact .sent id taskIds since hid (hrenewal ▸ hw)
  | next taskIds since hid hnew hw =>
    exact .next id taskIds since (hkeys id hid) hnew (hrenewal ▸ hw)
  | replied since hid hw => exact .replied id since (hkeys id hid) (hrenewal ▸ hw)
  | claimed reply hid hr hw =>
    rcases hreply with h | h
    · exact .claimed id reply hid (h ▸ hr) (fun hover => hw (hrenewal.trans hover))
    · exact absurd (h.symm.trans hr) (by simp)

/-- The reply to a claim: the runs of its tasks start before the next renewal. -/
theorem LeaseWorker.hastens_claimed (hbegun : w.Begun now) (hpunctual : w.Punctual D L now)
    {reply : ClaimReply} (hreply : w.claimReply = some reply)
    (hkeys : ∀ id ∈ S.inflight.keys, id ∈ w.leases.inflight.keys ∨ id ∈ claimedIds reply.messages) :
    w.Hastens D L { w with leases := S, claimReply := none } := by
  have htime := hpunctual.claimed reply hreply
  have hdue : ∀ id ∈ claimedIds reply.messages, w.Renews →
      w.Due D L id (reply.time + renewInterval D + 5 * L) :=
    fun id hid hw => .claimed id reply hid hreply hw
  rintro id d' hd
  cases hd with
  | waiting since hid hw =>
    rcases hkeys id hid with hid | hid
    · exact ⟨_, .waiting id since hid hw, le_rfl⟩
    · have hsince := hbegun.waiting since hw
      exact ⟨_, hdue id hid (fun h => absurd (hw.symm.trans h) (by simp)), by omega⟩
  | sent taskIds since hid hw => exact ⟨_, .sent id taskIds since hid hw, le_rfl⟩
  | next taskIds since hid hnew hw =>
    rcases hkeys id hid with hid | hid
    · exact ⟨_, .next id taskIds since hid hnew hw, le_rfl⟩
    · have hsince := hbegun.sent taskIds since hw
      exact ⟨_, hdue id hid (fun h => absurd (hw.symm.trans h) (by simp)), by omega⟩
  | replied since hid hw =>
    rcases hkeys id hid with hid | hid
    · exact ⟨_, .replied id since hid hw, le_rfl⟩
    · have hsince := hbegun.replied since hw
      exact ⟨_, hdue id hid (fun h => absurd (hw.symm.trans h) (by simp)), by omega⟩
  | claimed reply' hid hr hw => exact absurd hr (by simp)

/-- The dates of a worker that is at the head of the loop. -/
theorem LeaseWorker.due_loop (h : w'.renewal = w.loop now) (hd : w'.Due D L id d) :
    id ∈ w'.leases.inflight.keys ∧ d = now + renewInterval D + 2 * L ∨
      ∃ reply, w'.claimReply = some reply ∧ id ∈ claimedIds reply.messages ∧
        d = reply.time + renewInterval D + 5 * L := by
  have hloop : w.loop now = .waiting now ∨ w.loop now = .ended := by
    unfold LeaseWorker.loop
    split
    · exact .inl rfl
    · exact .inr rfl
  rw [← h] at hloop
  cases hd with
  | waiting since hid hw =>
    rcases hloop with hloop | hloop
    · obtain rfl := Renewal.waiting.inj (hw.symm.trans hloop)
      exact .inl ⟨hid, rfl⟩
    · exact absurd (hw.symm.trans hloop) (by simp)
  | sent taskIds since hid hw =>
    rcases hloop with hloop | hloop <;> exact absurd (hw.symm.trans hloop) (by simp)
  | next taskIds since hid hnew hw =>
    rcases hloop with hloop | hloop <;> exact absurd (hw.symm.trans hloop) (by simp)
  | replied since hid hw =>
    rcases hloop with hloop | hloop <;> exact absurd (hw.symm.trans hloop) (by simp)
  | claimed reply hid hr hw => exact .inr ⟨reply, hr, hid, rfl⟩

/-- `_renewLeases` sends a renewal, or waits again when nothing is running. -/
theorem LeaseWorker.hastens_wake {since t : Nat} (hpunctual : w.Punctual D L now)
    (h : w.renewal = .waiting since) : w.Hastens D L (w.wake now t) := by
  have hle := hpunctual.waiting since h
  have hrenews : w.Renews := fun hover => absurd (h.symm.trans hover) (by simp)
  rintro id d' hd
  by_cases hnone : (w.leases.renewLeases t).inflight.keys = []
  · have hrenewal : (w.wake now t).renewal = w.loop now := if_pos hnone
    rcases LeaseWorker.due_loop hrenewal hd with ⟨hid, -⟩ | ⟨reply, hr, hid, rfl⟩
    · have hid : id ∈ (w.leases.renewLeases t).inflight.keys := hid
      rw [hnone] at hid
      exact absurd hid List.not_mem_nil
    · exact ⟨_, .claimed id reply hid hr hrenews, le_rfl⟩
  · have hrenewal : (w.wake now t).renewal =
        .sent (w.leases.renewLeases t).inflight.keys now := if_neg hnone
    cases hd with
    | waiting since hid hw => exact absurd (hrenewal.symm.trans hw) (by simp)
    | sent taskIds since' hid hw =>
      obtain ⟨rfl, rfl⟩ := Renewal.sent.inj (hrenewal.symm.trans hw)
      exact ⟨_, .waiting id since (mem_keys_renewLeases hid) h, by omega⟩
    | next taskIds since' hid hnew hw =>
      obtain ⟨rfl, rfl⟩ := Renewal.sent.inj (hrenewal.symm.trans hw)
      exact absurd hid hnew
    | replied since hid hw => exact absurd (hrenewal.symm.trans hw) (by simp)
    | claimed reply hid hr hw => exact ⟨_, .claimed id reply hid hr hrenews, le_rfl⟩

/-- The reply to a renewal. -/
theorem LeaseWorker.hastens_renewed {since : Nat} (hpunctual : w.Punctual D L now)
    (h : w.renewal = .replied since) : w.Hastens D L { w with renewal := w.loop now } := by
  have hle := hpunctual.replied since h
  rintro id d' hd
  rcases LeaseWorker.due_loop rfl hd with ⟨hid, rfl⟩ | ⟨reply, hr, hid, rfl⟩
  · exact ⟨_, .replied id since hid h, by omega⟩
  · exact ⟨_, .claimed id reply hid hr fun hover => absurd (h.symm.trans hover) (by simp), le_rfl⟩

/-- The worker gets what a claim of `ids` gets. -/
def LeaseWorker.Claims (D L now : Nat) (ids : List StreamId) (w w' : LeaseWorker) : Prop :=
  ∀ id d, w'.Due D L id d → w.Due D L id d ∨ id ∈ ids ∧ d < now + D

/-- The worker renews the tasks `ids`, all of which it has. -/
def LeaseWorker.RenewsTasks (D L now : Nat) (ids : List StreamId) (w w' : LeaseWorker) : Prop :=
  (∀ id ∈ ids, ∃ d, w.Due D L id d) ∧ ∀ id d', w'.Due D L id d' →
    (∃ d, w.Due D L id d ∧ (id ∉ ids → d' ≤ d)) ∧ (id ∈ ids → d' < now + D)

variable {errs : WorkQueue β → LeaseWorker → Prop} {q q' : WorkQueue β}

/-- **What a step of a worker does**: nothing to the queue, or it claims tasks, or it renews the
tasks that it has. -/
theorem LeaseWorkerStep.due (hL : renewInterval D + 5 * L < D) (herrs : ∀ q w, ¬ errs q w)
    (hbegun : w.Begun q.now) (hpunctual : w.Punctual D L q.now)
    (h : LeaseWorkerStep D errs q w q' w') :
    q' = q ∧ w.Hastens D L w' ∨
      (∃ ids, q' = q.deliver w.consumername ids ∧
        (∀ id ∈ ids, ∃ p, q.pending id = some p ∧ p.time + D ≤ q.now) ∧
        w.Claims D L q.now ids w') ∨
      ∃ ids, q' = q.deliver w.consumername ids ∧ w.RenewsTasks D L q.now ids w' := by
  cases h with
  | startWorker hinflight hreply hrenewal =>
    refine .inl ⟨rfl, fun id d' hd => ?_⟩
    have hempty : id ∉ w.leases.inflight.keys := hinflight ▸ List.not_mem_nil
    cases hd with
    | waiting since hid hw => exact absurd hid hempty
    | sent taskIds since hid hw => exact absurd hw (by simp)
    | next taskIds since hid hnew hw => exact absurd hid hempty
    | replied since hid hw => exact absurd hid hempty
    | claimed reply hid hr hw => exact absurd (hreply.symm.trans hr) (by simp)
  | stopWorker => exact .inl ⟨rfl, LeaseWorker.hastens_of_keys rfl (.inl rfl) fun _ hid => hid⟩
  | claim S hrun hs =>
    refine .inl ⟨rfl, LeaseWorker.hastens_of_keys rfl (.inl rfl) fun id hid => ?_⟩
    exact (hs.keys hid).resolve_right fun ⟨_, _, he, _⟩ => absurd he (by simp)
  | xAutoClaim count messages hclaiming hreply hclaims =>
    refine .inr (.inl ⟨_, rfl, hclaims.idle, fun id d hd => ?_⟩)
    cases hd with
    | waiting since hid hw => exact .inl (.waiting id since hid hw)
    | sent taskIds since hid hw => exact .inl (.sent id taskIds since hid hw)
    | next taskIds since hid hnew hw => exact .inl (.next id taskIds since hid hnew hw)
    | replied since hid hw => exact .inl (.replied id since hid hw)
    | claimed reply hid hr hw =>
      obtain rfl := Option.some.inj hr
      exact .inr ⟨hid, by show q.now + renewInterval D + 5 * L < _; omega⟩
  | claimed reply t S hreply hs =>
    refine .inl ⟨rfl, LeaseWorker.hastens_claimed hbegun hpunctual hreply fun id hid => ?_⟩
    refine (hs.keys hid).imp_right fun ⟨messages, t', he, hid⟩ => ?_
    obtain ⟨rfl, -⟩ := LeaseEvent.claimed.inj he
    exact hid
  | claimFails S hs =>
    refine .inl ⟨rfl, LeaseWorker.hastens_of_keys rfl (.inr rfl) fun id hid => ?_⟩
    exact (hs.keys hid).resolve_right fun ⟨_, _, he, _⟩ => absurd he (by simp)
  | runEnds r S hs =>
    refine .inl ⟨rfl, LeaseWorker.hastens_of_keys rfl (.inl rfl) fun id hid => ?_⟩
    exact (hs.keys hid).resolve_right fun ⟨_, _, he, _⟩ => absurd he (by simp)
  | wake since t hw hinterval => exact .inl ⟨rfl, LeaseWorker.hastens_wake hpunctual hw⟩
  | xClaimJustId taskIds since hsent =>
    have hle := hpunctual.sent taskIds since hsent
    refine .inr (.inr ⟨_, rfl, fun id hid => ⟨_, .sent id taskIds since hid hsent⟩, ?_⟩)
    intro id d' hd
    cases hd with
    | waiting since' hid hw => exact absurd hw (by simp)
    | sent taskIds' since' hid hw => exact absurd hw (by simp)
    | next taskIds' since' hid hnew hw => exact absurd hw (by simp)
    | replied since' hid hw =>
      obtain rfl := Renewal.replied.inj hw
      refine ⟨?_, fun _ => by omega⟩
      by_cases hmem : id ∈ taskIds
      · exact ⟨_, .sent id taskIds since hmem hsent, fun hn => absurd hmem hn⟩
      · exact ⟨_, .next id taskIds since hid hmem hsent, fun _ => by omega⟩
    | claimed reply hid hr hw =>
      have htime := hbegun.claimed reply hr
      have hrenews : w.Renews := fun hover => absurd (hsent.symm.trans hover) (by simp)
      exact ⟨⟨_, .claimed id reply hid hr hrenews, fun _ => le_rfl⟩, fun _ => by omega⟩
  | renewed since hw => exact .inl ⟨rfl, LeaseWorker.hastens_renewed hpunctual hw⟩
  | renewFails taskIds since hw herr => exact absurd herr (herrs q w)

/-- A renewal that began at the time. -/
def Renewal.Since (now : Nat) : Renewal → Prop
  | .waiting since => since = now
  | .sent _ since => since = now
  | .replied since => since = now
  | .ended => True

/-- What a step of a worker begins. -/
theorem LeaseWorkerStep.since (h : LeaseWorkerStep D errs q w q' w') :
    (w'.renewal = w.renewal ∨ w'.renewal.Since q.now) ∧
      (w'.claimReply = w.claimReply ∨
        ∀ reply, w'.claimReply = some reply → reply.time = q.now) := by
  have hloop : (w.loop q.now).Since q.now := by
    unfold LeaseWorker.loop
    split
    · exact rfl
    · exact trivial
  cases h with
  | startWorker hinflight hreply hrenewal => exact ⟨.inr rfl, .inl rfl⟩
  | stopWorker => exact ⟨.inl rfl, .inl rfl⟩
  | claim S hrun hs => exact ⟨.inl rfl, .inl rfl⟩
  | xAutoClaim count messages hclaiming hreply hclaims =>
    exact ⟨.inl rfl, .inr fun reply hr => by rw [← Option.some.inj hr]⟩
  | claimed reply t S hreply hs => exact ⟨.inl rfl, .inr fun reply hr => absurd hr (by simp)⟩
  | claimFails S hs => exact ⟨.inl rfl, .inr fun reply hr => absurd hr (by simp)⟩
  | runEnds r S hs => exact ⟨.inl rfl, .inl rfl⟩
  | wake since t hw hinterval =>
    refine ⟨.inr ?_, .inl rfl⟩
    show (if (w.leases.renewLeases t).inflight.keys = [] then w.loop q.now
      else .sent (w.leases.renewLeases t).inflight.keys q.now).Since q.now
    split
    · exact hloop
    · exact rfl
  | xClaimJustId taskIds since hsent => exact ⟨.inr rfl, .inl rfl⟩
  | renewed since hw => exact ⟨.inr hloop, .inl rfl⟩
  | renewFails taskIds since hw herr => exact ⟨.inr hloop, .inl rfl⟩

/-- What a step begins is not late. -/
theorem LeaseWorkerStep.times (hbegun : w.Begun q.now) (hpunctual : w.Punctual D L q.now)
    (h : LeaseWorkerStep D errs q w q' w') : w'.Begun q.now ∧ w'.Punctual D L q.now := by
  obtain ⟨hrenewal, hreply⟩ := h.since
  have hwaiting : ∀ since, w'.renewal = .waiting since →
      since ≤ q.now ∧ q.now ≤ since + renewInterval D + L := by
    intro since hw
    rcases hrenewal with e | hnew
    · exact ⟨hbegun.waiting since (e ▸ hw), hpunctual.waiting since (e ▸ hw)⟩
    · rw [hw] at hnew
      obtain rfl : since = q.now := hnew
      omega
  have hsent : ∀ taskIds since, w'.renewal = .sent taskIds since →
      since ≤ q.now ∧ q.now ≤ since + L := by
    intro taskIds since hw
    rcases hrenewal with e | hnew
    · exact ⟨hbegun.sent taskIds since (e ▸ hw), hpunctual.sent taskIds since (e ▸ hw)⟩
    · rw [hw] at hnew
      obtain rfl : since = q.now := hnew
      omega
  have hreplied : ∀ since, w'.renewal = .replied since → since ≤ q.now ∧ q.now ≤ since + L := by
    intro since hw
    rcases hrenewal with e | hnew
    · exact ⟨hbegun.replied since (e ▸ hw), hpunctual.replied since (e ▸ hw)⟩
    · rw [hw] at hnew
      obtain rfl : since = q.now := hnew
      omega
  have hclaimed : ∀ reply, w'.claimReply = some reply →
      reply.time ≤ q.now ∧ q.now ≤ reply.time + L := by
    intro reply hr
    rcases hreply with e | hnew
    · exact ⟨hbegun.claimed reply (e ▸ hr), hpunctual.claimed reply (e ▸ hr)⟩
    · rw [hnew reply hr]
      omega
  exact ⟨⟨fun s h => (hwaiting s h).1, fun ids s h => (hsent ids s h).1,
      fun s h => (hreplied s h).1, fun r h => (hclaimed r h).1⟩,
    ⟨fun s h => (hwaiting s h).2, fun ids s h => (hsent ids s h).2,
      fun s h => (hreplied s h).2, fun r h => (hclaimed r h).2⟩⟩

/-! ### The rooms of the tasks -/

/-- The id is, or was, the one of a task of the room. -/
def WorkQueue.IsTask (q : WorkQueue β) (id : StreamId) (room : Room) : Prop :=
  id ≤ q.redis.worker.lastId ∧ ∀ t ∈ q.redis.worker.entries, t.id = id → t.compact = room

theorem WorkQueue.isTask_of_mem (h : q.redis.worker.Ok) {t : Task}
    (ht : t ∈ q.redis.worker.entries) : q.IsTask t.id t.compact := by
  refine ⟨h.le_lastId t ht, fun u hu hid => ?_⟩
  rw [List.inj_on_of_nodup_map h.nodup hu ht hid]

/-- An id is given once. -/
theorem WorkQueue.IsTask.mono (h : q.redis.worker.Grows q'.redis.worker) {room : Room}
    (hid : q.IsTask id room) : q'.IsTask id room := by
  refine ⟨hid.1.trans h.lastId, fun t ht e => ?_⟩
  rcases h.entries t ht with ht | hlt
  · exact hid.2 t ht e
  · exact absurd (e ▸ hlt) (not_lt.mpr hid.1)

/-- The runs of a worker work on the rooms of their tasks. -/
structure LeaseWorker.RoomsOk (q : WorkQueue β) (w : LeaseWorker) : Prop where
  runs : ∀ run ∈ w.leases.runs, q.IsTask run.task run.room
  claimed : ∀ reply, w.claimReply = some reply → ∀ task ∈ claimedTasks reply.messages,
    q.IsTask task.id task.compact

theorem LeaseWorker.RoomsOk.mono (h : q.redis.worker.Grows q'.redis.worker) (hw : w.RoomsOk q) :
    w.RoomsOk q' :=
  ⟨fun run hrun => (hw.runs run hrun).mono h,
    fun reply hr task htask => (hw.claimed reply hr task htask).mono h⟩

/-- A run keeps its task and its room, and those of a new one are claimed. -/
theorem LeaseStep.mem_runs {e : LeaseEvent} {m timeout : Nat} (h : LeasesOk m timeout S)
    (hs : LeaseStep S e S') {run' : LeaseRun} (hrun : run' ∈ S'.runs) :
    (∃ run ∈ S.runs, run.task = run'.task ∧ run.room = run'.room) ∨
      ∃ messages t, e = .claimed messages t ∧ ∃ task ∈ claimedTasks messages,
        run'.task = task.id ∧ run'.room = task.compact := by
  cases hs with
  | claim hclaiming hfree => exact .inl ⟨run', hrun, rfl, rfl⟩
  | claimed count messages t hcount hreply =>
    rw [(started_spec h hcount hreply).2] at hrun
    rcases List.mem_append.mp hrun with hrun | hrun
    · exact .inl ⟨run', hrun, rfl, rfl⟩
    · obtain ⟨task, htask, rfl⟩ := List.mem_map.mp hrun
      exact .inr ⟨messages, t, rfl, task, (List.mem_filter.mp htask).1, rfl, rfl⟩
  | claimFails count hcount => exact .inl ⟨run', hrun, rfl, rfl⟩
  | runEnds r run hr hended =>
    rcases List.mem_or_eq_of_mem_set hrun with hrun | rfl
    · exact .inl ⟨run', hrun, rfl, rfl⟩
    · exact .inl ⟨run, List.mem_of_getElem? hr, rfl, rfl⟩
  | renewLeases t =>
    have habandons : Abandons t S (S.renewLeases t) := (renewLeases_spec h).2
    obtain ⟨r, hr⟩ := List.getElem?_of_mem hrun
    have hlt : r < S.runs.length := by
      rw [← habandons.length]
      exact (List.getElem?_eq_some_iff.mp hr).1
    have hold := List.getElem?_eq_getElem hlt
    rcases habandons.runs r _ hold with hsame | ⟨-, hsame⟩
    · obtain rfl := Option.some.inj (hr.symm.trans hsame)
      exact .inl ⟨_, List.getElem_mem hlt, rfl, rfl⟩
    · obtain rfl := Option.some.inj (hr.symm.trans hsame)
      exact .inl ⟨_, List.getElem_mem hlt, rfl, rfl⟩

/-- A step of a worker is one of its own loops, or changes none of their variables. -/
theorem LeaseWorkerStep.leases (h : LeaseWorkerStep D errs q w q' w') :
    w'.leases = w.leases ∨ ∃ e, LeaseStep w.leases e w'.leases ∧
      ∀ messages t, e = .claimed messages t →
        ∃ reply, w.claimReply = some reply ∧ reply.messages = messages := by
  cases h with
  | claim S hrun hs => exact .inr ⟨_, hs, fun _ _ he => absurd he (by simp)⟩
  | claimed reply t S hreply hs =>
    exact .inr ⟨_, hs, fun _ _ he => ⟨reply, hreply, (LeaseEvent.claimed.inj he).1⟩⟩
  | claimFails S hs => exact .inr ⟨_, hs, fun _ _ he => absurd he (by simp)⟩
  | runEnds r S hs => exact .inr ⟨_, hs, fun _ _ he => absurd he (by simp)⟩
  | wake since t hw hinterval =>
    exact .inr ⟨_, .renewLeases w.leases t, fun _ _ he => absurd he (by simp)⟩
  | _ => exact .inl rfl

/-- A worker changes nothing in redis. -/
theorem LeaseWorkerStep.redis (h : LeaseWorkerStep D errs q w q' w') :
    q'.redis = q.redis ∧ q'.now = q.now ∧ w'.consumername = w.consumername := by
  cases h <;> exact ⟨rfl, rfl, rfl⟩

theorem LeaseWorkerStep.roomsOk {m timeout : Nat} (hok : LeasesOk m timeout w.leases)
    (hq : q.redis.worker.Ok) (hw : w.RoomsOk q) (h : LeaseWorkerStep D errs q w q' w') :
    w'.RoomsOk q := by
  constructor
  · intro run' hrun
    rcases h.leases with e | ⟨e, hs, hclaimed⟩
    · exact hw.runs run' (e ▸ hrun)
    · rcases hs.mem_runs hok hrun with ⟨run, hrun, htask, hroom⟩ | ⟨messages, t, he, task, htask, h⟩
      · rw [← htask, ← hroom]
        exact hw.runs run hrun
      · obtain ⟨reply, hreply, rfl⟩ := hclaimed messages t he
        rw [h.1, h.2]
        exact hw.claimed reply hreply task htask
  · intro reply hr task htask
    cases h with
    | xAutoClaim count messages hclaiming hreply hclaims =>
      obtain rfl := Option.some.inj hr
      exact WorkQueue.isTask_of_mem hq (hclaims.entries task htask)
    | claimed reply' t S hreply hs => exact absurd hr (by simp)
    | claimFails S hs => exact absurd hr (by simp)
    | _ => exact hw.claimed reply hr task htask

end Steps

end YHub
