import YHub.Workers

/-!
# One worker for a room

Two workers that compact a room at the same time do the work twice. `renewTasks` takes a task back
from whoever has claimed it, so a renewal that comes too late leaves both of them at work.

With `renewInterval taskDebounce + 5 * latency < taskDebounce`, none does: after a claim, its reply
is there within `latency`; the renewal that had been sent by then is back within `2 * latency`; the
timer and the next renewal take another `latency` each, and the interval.

* `one_worker_per_room`: if the workers are punctual and no renewal gets lost, there is one leased
  run of a task at most, and one of the pending tasks of a room.
* `unrenewed_task`: however late everything is, a task that nobody has keeps its delivery until it
  is old enough for a claim.
-/

namespace YHub

open Lease (Delivery)

variable {β : Type}

/-! ## The invariant -/

/-- **The invariant** of a deployment. -/
structure DeploymentOk (D L : Nat) (x : Deployment β) : Prop where
  tasks : OneTask x.1.redis
  leases : ∀ k, ∃ m timeout, LeaseReach m timeout (x.2 k).leases
  consumer : ∀ k, (x.2 k).consumername = k
  begun : ∀ k, (x.2 k).Begun x.1.now
  punctual : ∀ k, (x.2 k).Punctual D L x.1.now
  rooms : ∀ k, (x.2 k).RoomsOk x.1
  known : ∀ k id d, (x.2 k).Due D L id d → id ≤ x.1.redis.worker.lastId
  exclusive : Lease.Exclusive D x.1.pending fun k => (x.2 k).Due D L

section Deployment

variable {D L : Nat} {q q' : WorkQueue β} {ws : Nat → LeaseWorker} {w' : LeaseWorker} {k : Nat}
  {ticks : Deployment β → Prop} {errs : WorkQueue β → LeaseWorker → Prop} {x x₀ : Deployment β}
  {taskConcurrency taskTimeout : Nat → Nat}

theorem WorkQueue.pending_eq_some {id : StreamId} {p : Delivery Nat} :
    q.pending id = some p ↔ id ∈ q.redis.worker.pending ∧ q.delivery id = p := by
  unfold WorkQueue.pending
  split
  · rename_i h
    rw [Option.some.injEq]
    exact (and_iff_right h).symm
  · rename_i h
    exact ⟨fun e => absurd e (by simp), fun e => absurd e.1 h⟩

theorem mem_pending (h : q.redis.worker.Ok) {id : StreamId} :
    id ∈ q.redis.worker.pending ↔ ∃ t ∈ q.redis.worker.entries, t.id = id := by
  rw [h.pending_eq, List.mem_map]

theorem WorkQueue.pending_deliver {ids : List StreamId} {id : StreamId} {p : Delivery Nat}
    (hid : id ∈ ids) (hp : (q.deliver k ids).pending id = some p) : p = ⟨some k, q.now⟩ := by
  obtain ⟨-, hp⟩ := WorkQueue.pending_eq_some.mp hp
  exact hp.symm.trans (if_pos hid)

theorem WorkQueue.pending_deliver_of_notMem {ids : List StreamId} {id : StreamId}
    (hid : id ∉ ids) : (q.deliver k ids).pending id = q.pending id := by
  have hdelivery : (q.deliver k ids).delivery id = q.delivery id := if_neg hid
  unfold WorkQueue.pending
  rw [hdelivery]
  rfl

/-- An operation delivers the tasks that are new. -/
theorem WorkQueue.pending_op (h : q.redis.worker.Ok) {o : Op β} {id : StreamId} {p : Delivery Nat}
    (hp : (q.op o).pending id = some p) :
    q.pending id = some p ∨ q.redis.worker.lastId < id := by
  have hgrows : q.redis.worker.Grows (q.op o).redis.worker := Op.grows h q.now o
  obtain ⟨hmem, hp⟩ := WorkQueue.pending_eq_some.mp hp
  obtain ⟨t, ht, rfl⟩ := (mem_pending hgrows.ok).mp hmem
  rcases hgrows.entries t ht with ht | hlt
  · have hold := (mem_pending h).mpr ⟨t, ht, rfl⟩
    exact .inl (WorkQueue.pending_eq_some.mpr ⟨hold, (if_pos hold).symm.trans hp⟩)
  · exact .inr hlt

/-- What the queue does on its own. -/
theorem DeploymentOk.world (hticks : ∀ x, ticks x → ∀ k, (x.2 k).Punctual D L x.1.now)
    (h : DeploymentOk D L (q, ws)) (hw : QueueWorld ticks (q, ws) q') :
    DeploymentOk D L (q', ws) := by
  cases hw with
  | tick _ _ htick =>
    exact { h with
      begun := fun k => (h.begun k).mono (Nat.le_succ q.now)
      rooms := fun k => ⟨(h.rooms k).runs, (h.rooms k).claimed⟩
      punctual := hticks _ htick }
  | op _ _ o ho =>
    have hgrows : q.redis.worker.Grows (q.op o).redis.worker := Op.grows h.tasks.worker q.now o
    exact { h with
      tasks := h.tasks.step (.op q.redis q.now o ho)
      rooms := fun k => (h.rooms k).mono hgrows
      known := fun k id d hd => (h.known k id d hd).trans hgrows.lastId
      exclusive := h.exclusive.deliver fun id p hp => by
        refine (WorkQueue.pending_op h.tasks.worker hp).imp_right fun hlt k d hd => ?_
        exact absurd hlt (not_lt.mpr (h.known k id d hd)) }

/-- What a worker has after a step. -/
theorem due_update (ws : Nat → LeaseWorker) (k : Nat) (w' : LeaseWorker) {j : Nat} {id : StreamId}
    {d : Nat} (h : (Function.update ws k w' j).Due D L id d) :
    j = k ∧ w'.Due D L id d ∨ j ≠ k ∧ (ws j).Due D L id d := by
  by_cases hj : j = k
  · subst hj
    rw [Function.update_self] at h
    exact .inl ⟨rfl, h⟩
  · rw [Function.update_of_ne hj] at h
    exact .inr ⟨hj, h⟩

/-- A worker keeps the tasks of the others. -/
theorem DeploymentOk.exclusive_update (hL : renewInterval D + 5 * L < D)
    (herrs : ∀ q w, ¬ errs q w) (h : DeploymentOk D L (q, ws))
    (hs : LeaseWorkerStep D errs q (ws k) q' w') :
    Lease.Exclusive D q'.pending fun j => (Function.update ws k w' j).Due D L := by
  have hnow : ∀ j id d, (ws j).Due D L id d → q.now ≤ d :=
    fun j id d hd => (h.punctual j).le_due hd
  rcases hs.due hL herrs (h.begun k) (h.punctual k) with ⟨rfl, hhastens⟩ |
    ⟨ids, rfl, hidle, hclaims⟩ | ⟨ids, rfl, hheld, hrenews⟩
  · refine h.exclusive.mono fun j id d' hd' => ?_
    rcases due_update ws k w' hd' with ⟨rfl, hown⟩ | ⟨-, hother⟩
    · exact hhastens id d' hown
    · exact ⟨d', hother, le_rfl⟩
  · rw [h.consumer k]
    refine h.exclusive.claim (S := (· ∈ ids)) hnow hidle
      (fun id p hid hp => WorkQueue.pending_deliver hid hp)
      (fun id hid => WorkQueue.pending_deliver_of_notMem hid) fun j id d hd => ?_
    rcases due_update ws k w' hd with ⟨rfl, hown⟩ | ⟨-, hother⟩
    · exact (hclaims id d hown).imp_right fun h => ⟨rfl, h⟩
    · exact .inl hother
  · rw [h.consumer k]
    refine h.exclusive.renew (k := k) (S := (· ∈ ids)) hheld
      (fun id p hid hp => WorkQueue.pending_deliver hid hp)
      (fun id hid => WorkQueue.pending_deliver_of_notMem hid) fun j id d' hd' => ?_
    rcases due_update ws k w' hd' with ⟨rfl, hown⟩ | ⟨hj, hother⟩
    · exact hrenews id d' hown
    · -- what is renewed is the worker's own
      refine ⟨⟨d', hother, fun _ => le_rfl⟩, fun hid => ?_⟩
      obtain ⟨d, hd⟩ := hheld id hid
      exact absurd (h.exclusive.one j k id d' d hother hd) hj

/-- What a worker has is a task that has been enqueued. -/
theorem DeploymentOk.known_update (hL : renewInterval D + 5 * L < D)
    (herrs : ∀ q w, ¬ errs q w) (h : DeploymentOk D L (q, ws))
    (hs : LeaseWorkerStep D errs q (ws k) q' w') {id : StreamId} {d : Nat}
    (hd : w'.Due D L id d) : id ≤ q.redis.worker.lastId := by
  rcases hs.due hL herrs (h.begun k) (h.punctual k) with ⟨-, hhastens⟩ |
    ⟨ids, -, hidle, hclaims⟩ | ⟨ids, -, hheld, hrenews⟩
  · obtain ⟨d, hd, -⟩ := hhastens id d hd
    exact h.known k id d hd
  · rcases hclaims id d hd with hd | ⟨hid, -⟩
    · exact h.known k id d hd
    · obtain ⟨p, hp, -⟩ := hidle id hid
      obtain ⟨t, ht, rfl⟩ := (mem_pending h.tasks.worker).mp (WorkQueue.pending_eq_some.mp hp).1
      exact h.tasks.worker.le_lastId t ht
  · obtain ⟨⟨d, hd, -⟩, -⟩ := hrenews id d hd
    exact h.known k id d hd

/-- The loops of a worker are those of `Leases.lean`. -/
theorem LeaseWorkerStep.leaseReach {w : LeaseWorker} {m timeout : Nat}
    (h : LeaseReach m timeout w.leases) (hs : LeaseWorkerStep D errs q w q' w') :
    LeaseReach m timeout w'.leases := by
  rcases hs.leases with e | ⟨e, hs, -⟩
  · exact e ▸ h
  · exact h.step hs

/-- The step lemma. -/
theorem DeploymentOk.worker (hL : renewInterval D + 5 * L < D) (herrs : ∀ q w, ¬ errs q w)
    (h : DeploymentOk D L (q, ws)) (hs : LeaseWorkerStep D errs q (ws k) q' w') :
    DeploymentOk D L (q', Function.update ws k w') := by
  obtain ⟨hredis, hnow, hconsumer⟩ := hs.redis
  obtain ⟨hbegun, hpunctual⟩ := hs.times (h.begun k) (h.punctual k)
  obtain ⟨m, timeout, hreach⟩ := h.leases k
  have hgrows : q.redis.worker.Grows q'.redis.worker := by
    rw [hredis]
    exact .refl h.tasks.worker
  have hrooms := hs.roomsOk (LeasesOk.of_reach hreach) h.tasks.worker (h.rooms k)
  constructor
  · show OneTask q'.redis
    rw [hredis]
    exact h.tasks
  · have hreach' : ∃ m timeout, LeaseReach m timeout w'.leases :=
      ⟨m, timeout, hs.leaseReach hreach⟩
    exact Interleave.forall_update
      (P := fun w : LeaseWorker => ∃ m timeout, LeaseReach m timeout w.leases) h.leases hreach'
  · intro j
    show (Function.update ws k w' j).consumername = j
    by_cases hj : j = k
    · subst hj
      rw [Function.update_self, hconsumer]
      exact h.consumer j
    · rw [Function.update_of_ne hj]
      exact h.consumer j
  · show ∀ j, (Function.update ws k w' j).Begun q'.now
    rw [hnow]
    exact Interleave.forall_update h.begun hbegun
  · show ∀ j, (Function.update ws k w' j).Punctual D L q'.now
    rw [hnow]
    exact Interleave.forall_update h.punctual hpunctual
  · exact Interleave.forall_update (fun j => (h.rooms j).mono hgrows) (hrooms.mono hgrows)
  · intro j id d hd
    show id ≤ q'.redis.worker.lastId
    rw [hredis]
    rcases due_update ws k w' hd with ⟨rfl, hown⟩ | ⟨-, hother⟩
    · exact h.known_update hL herrs hs hown
    · exact h.known j id d hother
  · exact h.exclusive_update hL herrs hs

/-- Nobody has a task before a worker starts. -/
theorem LeaseWorker.not_due_idle {c m timeout : Nat} {id : StreamId} {d : Nat} :
    ¬ (LeaseWorker.idle c m timeout).Due D L id d := by
  intro hd
  cases hd with
  | claimed reply hid hr hw => exact hw rfl
  | _ => contradiction

theorem deploymentOk_start :
    DeploymentOk D L (Deployment.start taskConcurrency taskTimeout : Deployment β) where
  tasks := oneTask_empty
  leases _ := ⟨_, _, .start⟩
  consumer _ := rfl
  begun _ := ⟨nofun, nofun, nofun, nofun⟩
  punctual _ := ⟨nofun, nofun, nofun, nofun⟩
  rooms _ := ⟨fun _ hrun => absurd hrun List.not_mem_nil, nofun⟩
  known _ _ _ hd := absurd hd LeaseWorker.not_due_idle
  exclusive :=
    ⟨fun _ _ _ _ hd _ => absurd hd LeaseWorker.not_due_idle,
      fun _ _ _ _ _ hd _ => absurd hd LeaseWorker.not_due_idle⟩

/-- The run lemma. -/
theorem DeploymentOk.of_run (hL : renewInterval D + 5 * L < D)
    (hticks : ∀ x, ticks x → ∀ k, (x.2 k).Punctual D L x.1.now) (herrs : ∀ q w, ¬ errs q w)
    (hx : DeploymentRun D ticks errs (.start taskConcurrency taskTimeout) x) :
    DeploymentOk D L x :=
  Interleave.reach_assertion deploymentOk_start (fun _ _ _ h hw => h.world hticks hw)
    (fun _ _ _ _ _ h hs => h.worker hL herrs hs) hx

/-! ## One worker for a room -/

/-- A run that is leased is one that its worker has. -/
theorem exists_due_of_leased {w : LeaseWorker} {m timeout r : Nat} {run : LeaseRun}
    (h : LeasesOk m timeout w.leases) (hw : w.Renews) (hr : w.leases.runs[r]? = some run)
    (hrun : run.Leased) : ∃ d, w.Due D L run.task d := by
  have hid : run.task ∈ w.leases.inflight.keys := by
    have hget := (h.entries run.task r).mpr ⟨run, hr, rfl, hrun⟩
    exact InsertionMap.mem_keys.mpr ⟨r, InsertionMap.get_eq_some.mp hget⟩
  cases hrenewal : w.renewal with
  | waiting since => exact ⟨_, .waiting _ since hid hrenewal⟩
  | sent taskIds since =>
    by_cases hmem : run.task ∈ taskIds
    · exact ⟨_, .sent _ taskIds since hmem hrenewal⟩
    · exact ⟨_, .next _ taskIds since hid hmem hrenewal⟩
  | replied since => exact ⟨_, .replied _ since hid hrenewal⟩
  | ended => exact absurd hrenewal hw

/-- A room has one pending task. -/
theorem task_eq_of_room (h : OneTask q.redis) {id id' : StreamId} {room : Room}
    (hid : q.IsTask id room) (hid' : q.IsTask id' room) (hmem : id ∈ q.redis.worker.pending)
    (hmem' : id' ∈ q.redis.worker.pending) : id = id' := by
  obtain ⟨t, ht, rfl⟩ := (mem_pending h.worker).mp hmem
  obtain ⟨t', ht', rfl⟩ := (mem_pending h.worker).mp hmem'
  have hle : (q.redis.worker.tasksOf room).length ≤ 1 := by
    rw [h.count room, tasksDue]
    split <;> omega
  rw [WorkerStream.tasksOf_eq h.worker] at hle
  have hin : t ∈ q.redis.worker.entries.filter fun t => t.compact = room :=
    List.mem_filter.mpr ⟨ht, decide_eq_true (hid.2 t ht rfl)⟩
  have hin' : t' ∈ q.redis.worker.entries.filter fun t => t.compact = room :=
    List.mem_filter.mpr ⟨ht', decide_eq_true (hid'.2 t' ht' rfl)⟩
  have hone : (q.redis.worker.entries.filter fun t => t.compact = room).length = 1 :=
    le_antisymm hle (List.length_pos_of_mem hin)
  obtain ⟨u, hu⟩ := List.length_eq_one_iff.mp hone
  rw [hu, List.mem_singleton] at hin hin'
  rw [hin, hin']

/-- The worker has claimed the task, or runs it, and will renew it. -/
def LeaseWorker.Has (w : LeaseWorker) (id : StreamId) : Prop :=
  w.Renews ∧ (id ∈ w.leases.inflight.keys ∨
    (∃ reply, w.claimReply = some reply ∧ id ∈ claimedIds reply.messages) ∨
    ∃ taskIds since, w.renewal = .sent taskIds since ∧ id ∈ taskIds)

theorem LeaseWorker.loop_ne_sent {w : LeaseWorker} {now since : Nat} {taskIds : List StreamId} :
    w.loop now ≠ .sent taskIds since := by
  unfold LeaseWorker.loop
  split <;> simp

theorem LeaseWorker.sent_wake {w : LeaseWorker} {now t since : Nat} {taskIds : List StreamId}
    (h : (w.wake now t).renewal = .sent taskIds since) :
    taskIds = (w.leases.renewLeases t).inflight.keys := by
  have h : (if (w.leases.renewLeases t).inflight.keys = [] then w.loop now
    else .sent (w.leases.renewLeases t).inflight.keys now) = .sent taskIds since := h
  split at h
  · exact absurd h LeaseWorker.loop_ne_sent
  · exact (Renewal.sent.inj h).1.symm

/-- A step of a worker gets a task from a claim only. -/
theorem LeaseWorkerStep.has {w : LeaseWorker} {id : StreamId}
    (h : LeaseWorkerStep D errs q w q' w') (hid : w'.Has id) : w.Has id ∨
      ∃ p, q.pending id = some p ∧ p.time + D ≤ q.now ∧
        q'.delivery id = ⟨some w.consumername, q.now⟩ := by
  obtain ⟨hrenews, hhas⟩ := hid
  cases h with
  | startWorker hinflight hreply hrenewal =>
    rcases hhas with hid | ⟨reply, hr, -⟩ | ⟨taskIds, since, hw, -⟩
    · exact absurd hid (hinflight ▸ List.not_mem_nil)
    · exact absurd (hreply.symm.trans hr) (by simp)
    · exact absurd hw (by simp)
  | stopWorker => exact .inl ⟨hrenews, hhas⟩
  | claim S hrun hs =>
    refine .inl ⟨hrenews, hhas.imp_left fun hid => ?_⟩
    exact (hs.keys hid).resolve_right fun ⟨_, _, he, _⟩ => absurd he (by simp)
  | xAutoClaim count messages hclaiming hreply hclaims =>
    rcases hhas with hid | ⟨reply, hr, hid⟩ | hsent
    · exact .inl ⟨hrenews, .inl hid⟩
    · obtain rfl := Option.some.inj hr
      obtain ⟨p, hp, hidle⟩ := hclaims.idle id hid
      exact .inr ⟨p, hp, hidle, if_pos hid⟩
    · exact .inl ⟨hrenews, .inr (.inr hsent)⟩
  | claimed reply t S hreply hs =>
    rcases hhas with hid | ⟨reply', hr, -⟩ | hsent
    · refine .inl ⟨hrenews, (hs.keys hid).imp_right fun ⟨messages, t', he, hid⟩ => .inl ?_⟩
      obtain ⟨rfl, -⟩ := LeaseEvent.claimed.inj he
      exact ⟨reply, hreply, hid⟩
    · exact absurd hr (by simp)
    · exact .inl ⟨hrenews, .inr (.inr hsent)⟩
  | claimFails S hs =>
    rcases hhas with hid | ⟨reply', hr, -⟩ | hsent
    · refine .inl ⟨hrenews, .inl ?_⟩
      exact (hs.keys hid).resolve_right fun ⟨_, _, he, _⟩ => absurd he (by simp)
    · exact absurd hr (by simp)
    · exact .inl ⟨hrenews, .inr (.inr hsent)⟩
  | runEnds r S hs =>
    refine .inl ⟨hrenews, hhas.imp_left fun hid => ?_⟩
    exact (hs.keys hid).resolve_right fun ⟨_, _, he, _⟩ => absurd he (by simp)
  | wake since t hw hinterval =>
    have hold : w.Renews := fun hover => absurd (hw.symm.trans hover) (by simp)
    rcases hhas with hid | hreply | ⟨taskIds, since', hsent, hid⟩
    · exact .inl ⟨hold, .inl (mem_keys_renewLeases hid)⟩
    · exact .inl ⟨hold, .inr (.inl hreply)⟩
    · obtain rfl := LeaseWorker.sent_wake hsent
      exact .inl ⟨hold, .inl (mem_keys_renewLeases hid)⟩
  | xClaimJustId taskIds since hsent =>
    have hold : w.Renews := fun hover => absurd (hsent.symm.trans hover) (by simp)
    rcases hhas with hid | hreply | ⟨_, _, hw, -⟩
    · exact .inl ⟨hold, .inl hid⟩
    · exact .inl ⟨hold, .inr (.inl hreply)⟩
    · exact absurd hw (by simp)
  | renewed since hw =>
    have hold : w.Renews := fun hover => absurd (hw.symm.trans hover) (by simp)
    rcases hhas with hid | hreply | ⟨_, _, hw, -⟩
    · exact .inl ⟨hold, .inl hid⟩
    · exact .inl ⟨hold, .inr (.inl hreply)⟩
    · exact absurd hw LeaseWorker.loop_ne_sent
  | renewFails taskIds since hw herr =>
    have hold : w.Renews := fun hover => absurd (hw.symm.trans hover) (by simp)
    rcases hhas with hid | hreply | ⟨_, _, hw, -⟩
    · exact .inl ⟨hold, .inl hid⟩
    · exact .inl ⟨hold, .inr (.inl hreply)⟩
    · exact absurd hw LeaseWorker.loop_ne_sent

/-- Whose delivery a step of a worker makes new: what the worker has, and what it claims. -/
theorem LeaseWorkerStep.delivery {w : LeaseWorker} (h : LeaseWorkerStep D errs q w q' w')
    (id : StreamId) : q'.delivery id = q.delivery id ∨
      (q'.delivery id).time = q.now ∧
        (w.Has id ∨ ∃ p, q.pending id = some p ∧ p.time + D ≤ q.now) := by
  cases h with
  | xAutoClaim count messages hclaiming hreply hclaims =>
    by_cases hid : id ∈ claimedIds messages
    · have hdelivery : (q.deliver w.consumername (claimedIds messages)).delivery id =
          ⟨some w.consumername, q.now⟩ := if_pos hid
      exact .inr ⟨by rw [hdelivery], .inr (hclaims.idle id hid)⟩
    · exact .inl (if_neg hid)
  | xClaimJustId taskIds since hsent =>
    by_cases hid : id ∈ taskIds
    · have hdelivery : (q.deliver w.consumername taskIds).delivery id =
          ⟨some w.consumername, q.now⟩ := if_pos hid
      have hrenews : w.Renews := fun hover => absurd (hsent.symm.trans hover) (by simp)
      exact .inr ⟨by rw [hdelivery], .inl ⟨hrenews, .inr (.inr ⟨taskIds, since, hsent, hid⟩)⟩⟩
    · exact .inl (if_neg hid)
  | _ => exact .inl rfl

/-- What becomes of a task that nobody had when its delivery was `p`. -/
structure Unrenewed (D : Nat) (id : StreamId) (p : Delivery Nat) (x : Deployment β) : Prop where
  tasks : OneTask x.1.redis
  known : id ≤ x.1.redis.worker.lastId
  cases : ∀ p', x.1.pending id = some p' →
    p' = p ∧ (∀ k, ¬ (x.2 k).Has id) ∨ p.time + D ≤ p'.time ∧ p'.time ≤ x.1.now

theorem Unrenewed.world {id : StreamId} {p : Delivery Nat} (h : Unrenewed D id p (q, ws))
    (hw : QueueWorld ticks (q, ws) q') : Unrenewed D id p (q', ws) := by
  cases hw with
  | tick _ _ htick =>
    refine ⟨h.tasks, h.known, fun p' hp' => (h.cases p' hp').imp_right fun hlt => ?_⟩
    exact ⟨hlt.1, hlt.2.trans (Nat.le_succ q.now)⟩
  | op _ _ o ho =>
    have hgrows : q.redis.worker.Grows (q.op o).redis.worker := Op.grows h.tasks.worker q.now o
    refine ⟨h.tasks.step (.op q.redis q.now o ho), h.known.trans hgrows.lastId, fun p' hp' => ?_⟩
    rcases WorkQueue.pending_op h.tasks.worker hp' with hp' | hlt
    · exact h.cases p' hp'
    · exact absurd hlt (not_lt.mpr h.known)

theorem Unrenewed.worker {id : StreamId} {p : Delivery Nat} (h : Unrenewed D id p (q, ws))
    (hs : LeaseWorkerStep D errs q (ws k) q' w') :
    Unrenewed D id p (q', Function.update ws k w') := by
  obtain ⟨hredis, hnow, -⟩ := hs.redis
  refine ⟨?_, ?_, fun p' hp' => ?_⟩
  · show OneTask q'.redis
    rw [hredis]
    exact h.tasks
  · show id ≤ q'.redis.worker.lastId
    rw [hredis]
    exact h.known
  obtain ⟨hmem, rfl⟩ := WorkQueue.pending_eq_some.mp hp'
  have hmem : id ∈ q'.redis.worker.pending := hmem
  rw [hredis] at hmem
  have hpending : q.pending id = some (q.delivery id) := if_pos hmem
  show q'.delivery id = p ∧ (∀ j, ¬ (Function.update ws k w' j).Has id) ∨
    p.time + D ≤ (q'.delivery id).time ∧ (q'.delivery id).time ≤ q'.now
  rw [hnow]
  rcases h.cases _ hpending with ⟨hp, hnone⟩ | ⟨hle, hpast⟩
  · -- nobody has the task: its delivery is new only if it is claimed
    have hclaimed : (∃ p', q.pending id = some p' ∧ p'.time + D ≤ q.now) → p.time + D ≤ q.now := by
      rintro ⟨p', hp', hidle⟩
      obtain rfl := Option.some.inj (hpending.symm.trans hp')
      rw [← hp]
      exact hidle
    rcases hs.delivery id with hsame | ⟨htime, hhas | hidle⟩
    · by_cases hhas : w'.Has id
      · rcases hs.has hhas with hhas | ⟨p', hp', hidle, hdelivery⟩
        · exact absurd hhas (hnone k)
        · rw [hdelivery]
          exact .inr ⟨hclaimed ⟨p', hp', hidle⟩, le_rfl⟩
      · exact .inl ⟨hsame.trans hp,
          Interleave.forall_update (P := fun w : LeaseWorker => ¬ w.Has id) hnone hhas⟩
    · exact absurd hhas (hnone k)
    · rw [htime]
      exact .inr ⟨hclaimed hidle, le_rfl⟩
  · rcases hs.delivery id with hsame | ⟨htime, -⟩
    · rw [hsame]
      exact .inr ⟨hle, hpast⟩
    · rw [htime]
      exact .inr ⟨hle.trans hpast, le_rfl⟩

/-- The tasks of a deployment, however late anything is. -/
theorem oneTask_of_run (hx : DeploymentRun D ticks errs (.start taskConcurrency taskTimeout) x) :
    OneTask x.1.redis := by
  refine Interleave.reach_assertion (P := fun x : Deployment β => OneTask x.1.redis) oneTask_empty
    (fun q ws q' h hw => ?_) (fun q ws k q' w' h hs => ?_) hx
  · cases hw with
    | tick _ _ htick => exact h
    | op _ _ o ho => exact h.step (.op q.redis q.now o ho)
  · show OneTask q'.redis
    rw [hs.redis.1]
    exact h

/-- **A task that nobody has** keeps its delivery until that is `taskDebounce` old, however late
anything is, and whatever gets lost. Until a claim gets it then, nobody has it, or it is not pending
any more. -/
theorem unrenewed_task
    (hx₀ : DeploymentRun D ticks errs (.start taskConcurrency taskTimeout) x₀)
    (hx : DeploymentRun D ticks errs x₀ x) {id : StreamId}
    (hpending : id ∈ x₀.1.redis.worker.pending) (hnone : ∀ k, ¬ (x₀.2 k).Has id) :
    id ∉ x.1.redis.worker.pending ∨
      x.1.delivery id = x₀.1.delivery id ∧ (∀ k, ¬ (x.2 k).Has id) ∨
      (x₀.1.delivery id).time + D ≤ (x.1.delivery id).time := by
  have htasks := oneTask_of_run hx₀
  obtain ⟨t, ht, rfl⟩ := (mem_pending htasks.worker).mp hpending
  have h₀ : Unrenewed D t.id (x₀.1.delivery t.id) x₀ := by
    refine ⟨htasks, htasks.worker.le_lastId t ht, fun p' hp' => .inl ⟨?_, hnone⟩⟩
    exact (WorkQueue.pending_eq_some.mp hp').2.symm
  have h : Unrenewed D t.id (x₀.1.delivery t.id) x :=
    Interleave.reach_assertion h₀ (fun _ _ _ h hw => h.world hw) (fun _ _ _ _ _ h hs => h.worker hs)
      hx
  by_cases hmem : t.id ∈ x.1.redis.worker.pending
  · exact .inr ((h.cases _ (if_pos hmem)).imp_right And.left)
  · exact .inl hmem

end Deployment

/-! ## A run -/

/-- Time may go on while every worker is punctual. -/
def whilePunctual (x : Deployment Unit) : Prop := ∀ k, (x.2 k).Punctual 9 1 x.1.now

/-- The queue at the time `n`, with one task since the time `0`. -/
def oneTaskQueue (n : Nat) : WorkQueue Unit :=
  { WorkQueue.empty.op (.addMessage Room.a .tombstone) with now := n }

/-- The task, and no worker that has been started. -/
def oneTask (n : Nat) : Deployment Unit := (oneTaskQueue n, fun k => .idle k 1 10)

/-- Nothing happens before a worker starts. -/
theorem oneTask_run (n : Nat) : DeploymentRun 9 whilePunctual (fun _ _ => False)
    (.start (fun _ => 1) fun _ => 10) (oneTask n) := by
  induction n with
  | zero =>
    have hadd : Admissible Redis.empty 0 (.addMessage Room.a (.tombstone : Message Unit)) :=
      ⟨trivial, trivial⟩
    exact Relation.ReflTransGen.single (.env _ _ _ (.op .empty _ _ hadd))
  | succ n ih =>
    exact ih.tail (.env _ _ _ (.tick (oneTaskQueue n) _ fun k => ⟨nofun, nofun, nofun, nofun⟩))

/-- The worker `0`, which has been started at the time `9`. -/
def oneTaskWorker (leases : LeaseState) (claimReply : Option ClaimReply) : LeaseWorker :=
  ⟨0, true, leases, claimReply, .waiting 9⟩

def oneTaskReply : ClaimReply := ⟨[some ⟨⟨0, 1⟩, some Room.a⟩], 9⟩

/-- A worker claims the task once it is old enough. -/
theorem oneTaskWorker_run : ∃ x : Deployment Unit,
    DeploymentRun 9 whilePunctual (fun _ _ => False) (oneTask 9) x ∧
      x.1 = (oneTaskQueue 9).deliver 0 [⟨0, 1⟩] ∧ (x.2 0).Renews ∧
      (x.2 0).leases.runs[0]? = some ⟨⟨0, 1⟩, 9, Room.a, false, false⟩ := by
  have hreply : (oneTaskQueue 9).AutoClaims 9 1 oneTaskReply.messages := by
    refine ⟨⟨le_rfl, by simp [oneTaskReply]⟩, fun id hid => ?_, fun task htask => ?_⟩
    · obtain rfl : id = ⟨0, 1⟩ := by simpa [claimedIds, oneTaskReply] using hid
      exact ⟨⟨none, 0⟩, by decide, by decide⟩
    · obtain rfl : task = ⟨⟨0, 1⟩, Room.a⟩ := by simpa [claimedTasks, oneTaskReply] using htask
      decide
  let claiming : LeaseState := { LeaseState.start 1 10 with claiming := some 1 }
  have hstart : LeaseWorkerStep 9 (fun _ _ => False) (oneTaskQueue 9) (.idle 0 1 10)
      (oneTaskQueue 9) (oneTaskWorker (.start 1 10) none) := .startWorker _ _ rfl rfl rfl
  have hclaim : LeaseWorkerStep 9 (fun _ _ => False) (oneTaskQueue 9)
      (oneTaskWorker (.start 1 10) none) (oneTaskQueue 9) (oneTaskWorker claiming none) :=
    .claim _ _ _ rfl (.claim _ rfl Nat.zero_lt_one)
  have hxAutoClaim : LeaseWorkerStep 9 (fun _ _ => False) (oneTaskQueue 9)
      (oneTaskWorker claiming none) ((oneTaskQueue 9).deliver 0 [⟨0, 1⟩])
      (oneTaskWorker claiming (some oneTaskReply)) := .xAutoClaim _ _ 1 _ rfl rfl hreply
  have hclaimed : LeaseWorkerStep 9 (fun _ _ => False) ((oneTaskQueue 9).deliver 0 [⟨0, 1⟩])
      (oneTaskWorker claiming (some oneTaskReply)) _ (oneTaskWorker _ none) :=
    .claimed _ _ _ (fun _ => 9) _ rfl (.claimed claiming 1 _ _ rfl hreply.toAutoClaimed)
  have halone := (((Interleave.Alone.refl.step hstart).step hclaim).step hxAutoClaim).step hclaimed
  exact ⟨_, Interleave.reach_alone (i := 0) halone rfl, rfl, nofun, rfl⟩

/-- The task was old enough when the worker claimed it. -/
theorem unrenewed_task_of_run : ∃ x : Deployment Unit,
    DeploymentRun 9 whilePunctual (fun _ _ => False) (oneTask 9) x ∧
      (oneTaskQueue 9).delivery ⟨0, 1⟩ ≠ x.1.delivery ⟨0, 1⟩ ∧
      ((oneTaskQueue 9).delivery ⟨0, 1⟩).time + 9 ≤ (x.1.delivery ⟨0, 1⟩).time := by
  obtain ⟨x, hx, hqueue, -, -⟩ := oneTaskWorker_run
  have hne : (oneTaskQueue 9).delivery ⟨0, 1⟩ ≠ x.1.delivery ⟨0, 1⟩ := by
    rw [hqueue]
    decide
  have hpending : (⟨0, 1⟩ : StreamId) ∈ (oneTask 9).1.redis.worker.pending := by decide
  refine ⟨x, hx, hne, ?_⟩
  rcases unrenewed_task (oneTask_run 9) hx hpending (fun k h => h.1 rfl) with
    hgone | ⟨hsame, -⟩ | hold
  · exact absurd (by rw [hqueue]; decide) hgone
  · exact absurd hsame.symm hne
  · exact hold

end YHub
