import Mathlib.Data.List.Nodup
import Mathlib.Order.Basic
import Mathlib.Logic.Relation

/-!
# The pool of compute threads (`compute.js:93-261`)

`ComputePool.run` queues a task, and `drain` hands the queue to workers that are free: a slot whose
worker is dead gets a new one, an idle worker is used, and a slot is added up to `maxPoolSize`. A
`ComputeWorker` holds one task at a time, in its callbacks. Its thread gets the task (`inbox`) and
posts one message for it (`port`), which arrives some time later. The thread may fail or exit at any
time, and `taskTimeout` kills it.

`heap` is every `ComputeWorker` ever created, in the order of creation: the events of one that was
replaced still fire. `destroy` is left out, and so are the log contexts and the transfer lists.

`submitted`, `started`, `settled` and `posted` are history: how many tasks were submitted, which
were started, how they were settled, and what threads have posted, with whether the worker held the
task at that time. Tasks are numbered in the order of their submission.

* `no_task_lost`: at any time each task is in the queue, held by a worker that is not dead, or
  settled; it is resolved with what its own worker has posted; tasks start in their order.
* `PoolOk`: the invariant; `PoolOk.drain`: what every handler ends with.
-/

namespace YHub

variable {α ρ : Type}

/-! ## Workers -/

/-- An entry of the queue; the number stands for its two callbacks. -/
structure Job (α : Type) where
  id : Nat
  task : α
  deriving DecidableEq, Repr

/-- A message that a thread has posted. -/
structure Posted (ρ : Type) where
  worker : Nat
  job : Nat
  result : ρ
  /-- The worker held the task when it was posted. -/
  held : Bool
  deriving DecidableEq, Repr

structure ComputeWorker (α ρ : Type) where
  isComputing : Bool
  isDead : Bool
  cbResolve : Option Nat
  cbReject : Option Nat
  /-- The timer is set. -/
  taskTimeout : Bool
  /-- Tasks that the thread has still to answer. -/
  inbox : List (Job α)
  /-- Messages that have still to arrive. -/
  port : List (Posted ρ)
  deriving DecidableEq, Repr

namespace ComputeWorker

/-- `new ComputeWorker(pool)`. -/
def new : ComputeWorker α ρ := ⟨false, false, none, none, false, [], []⟩

/-- `finishWorker`. -/
def finishWorker (cw : ComputeWorker α ρ) : ComputeWorker α ρ :=
  { cw with isComputing := false, cbResolve := none, cbReject := none, taskTimeout := false }

/-- `ComputeWorker.run`. -/
def run (cw : ComputeWorker α ρ) (job : Job α) : ComputeWorker α ρ :=
  { cw with
    isComputing := true
    cbResolve := some job.id
    cbReject := some job.id
    taskTimeout := true
    inbox := cw.inbox ++ [job] }

end ComputeWorker

/-- How a promise was settled. -/
inductive Outcome (ρ : Type) where
  | resolved (worker : Nat) (result : ρ)
  | rejected (message : String)
  deriving DecidableEq, Repr

/-! ## The pool -/

structure ComputePool (α ρ : Type) where
  maxPoolSize : Nat
  /-- The slots. -/
  workers : List Nat
  queue : List (Job α)
  heap : List (ComputeWorker α ρ)
  submitted : Nat
  started : List Nat
  settled : List (Nat × Outcome ρ)
  posted : List (Posted ρ)
  deriving DecidableEq, Repr

namespace ComputePool

/-- `new ComputePool(maxPoolSize, taskTimeout)`. -/
def new (maxPoolSize : Nat) : ComputePool α ρ := ⟨maxPoolSize, [], [], [], 0, [], [], []⟩

/-- The loop of `getFreeWorker`, past the slots `before`. -/
def scan (S : ComputePool α ρ) (before : List Nat) : List Nat → Option (Nat × ComputePool α ρ)
  | [] =>
    if before.length < S.maxPoolSize then
      some (S.heap.length,
        { S with heap := S.heap ++ [.new], workers := before ++ [S.heap.length] })
    else none
  | w :: ws =>
    match S.heap[w]? with
    | none => S.scan (before ++ [w]) ws
    | some cw =>
      if cw.isDead then
        some (S.heap.length,
          { S with heap := S.heap ++ [.new], workers := before ++ S.heap.length :: ws })
      else if !cw.isComputing then some (w, S)
      else S.scan (before ++ [w]) ws

/-- `getFreeWorker`: the worker, and the pool with it. -/
def getFreeWorker (S : ComputePool α ρ) : Option (Nat × ComputePool α ρ) := S.scan [] S.workers

/-- `worker.run(task)`. -/
def runOn (S : ComputePool α ρ) (w : Nat) (job : Job α) : ComputePool α ρ :=
  match S.heap[w]? with
  | none => S
  | some cw => { S with heap := S.heap.set w (cw.run job), started := S.started ++ [job.id] }

/-- The loop of `drain`, on what is left of the queue. -/
def drainLoop : List (Job α) → ComputePool α ρ → ComputePool α ρ
  | [], S => { S with queue := [] }
  | job :: queue, S =>
    match S.getFreeWorker with
    | none => { S with queue := job :: queue }
    | some (w, S) => drainLoop queue (S.runOn w job)

/-- `drain`. -/
def drain (S : ComputePool α ρ) : ComputePool α ρ := drainLoop S.queue S

/-- `ComputePool.run`. -/
def run (S : ComputePool α ρ) (task : α) : ComputePool α ρ :=
  drain { S with queue := S.queue ++ [⟨S.submitted, task⟩], submitted := S.submitted + 1 }

/-- `resolve?.(result)`, `reject?.(err)`. -/
def settle (S : ComputePool α ρ) (callback : Option Nat) (o : Outcome ρ) : ComputePool α ρ :=
  match callback with
  | none => S
  | some n => { S with settled := S.settled ++ [(n, o)] }

/-- What the handlers do with the worker: `finishWorker`, and the callback is called. -/
def finish (S : ComputePool α ρ) (w : Nat) (cw : ComputeWorker α ρ) (isDead : Bool)
    (callback : Option Nat) (o : Outcome ρ) : ComputePool α ρ :=
  settle { S with heap := S.heap.set w { cw.finishWorker with isDead := isDead } } callback o

/-- `this.worker.on('message')`. -/
def onMessage (S : ComputePool α ρ) (w : Nat) (cw : ComputeWorker α ρ) (result : ρ) :
    ComputePool α ρ :=
  (S.finish w cw cw.isDead cw.cbResolve (.resolved w result)).drain

/-- `this.worker.on('error')`. -/
def onError (S : ComputePool α ρ) (w : Nat) (cw : ComputeWorker α ρ) (err : String) :
    ComputePool α ρ :=
  (S.finish w cw true cw.cbReject (.rejected err)).drain

/-- `this.worker.on('exit')`. -/
def onExit (S : ComputePool α ρ) (w : Nat) (cw : ComputeWorker α ρ) : ComputePool α ρ :=
  (S.finish w cw true cw.cbReject (.rejected "Worker exited")).drain

/-- `terminate`. -/
def terminate (S : ComputePool α ρ) (w : Nat) (cw : ComputeWorker α ρ) : ComputePool α ρ :=
  S.finish w cw true cw.cbReject (.rejected "Worker terminated")

/-- The tasks that workers hold. -/
def held (S : ComputePool α ρ) : List Nat := S.heap.filterMap ComputeWorker.cbReject

end ComputePool

/-- One event. -/
inductive PoolStep : ComputePool α ρ → ComputePool α ρ → Prop
  | run (S : ComputePool α ρ) (task : α) : PoolStep S (S.run task)
  | post (S : ComputePool α ρ) (w : Nat) (cw : ComputeWorker α ρ) (job : Job α)
      (rest : List (Job α)) (result : ρ) (hw : S.heap[w]? = some cw)
      (hjob : cw.inbox = job :: rest) :
      PoolStep S { S with
        heap := S.heap.set w { cw with
          inbox := rest
          port := cw.port ++ [⟨w, job.id, result, cw.cbReject == some job.id⟩] }
        posted := S.posted ++ [⟨w, job.id, result, cw.cbReject == some job.id⟩] }
  | message (S : ComputePool α ρ) (w : Nat) (cw : ComputeWorker α ρ) (p : Posted ρ)
      (rest : List (Posted ρ)) (hw : S.heap[w]? = some cw) (hport : cw.port = p :: rest) :
      PoolStep S (S.onMessage w { cw with port := rest } p.result)
  | error (S : ComputePool α ρ) (w : Nat) (cw : ComputeWorker α ρ) (err : String)
      (hw : S.heap[w]? = some cw) : PoolStep S (S.onError w cw err)
  | exit (S : ComputePool α ρ) (w : Nat) (cw : ComputeWorker α ρ) (hw : S.heap[w]? = some cw) :
      PoolStep S (S.onExit w cw)
  | taskTimeout (S : ComputePool α ρ) (w : Nat) (cw : ComputeWorker α ρ)
      (hw : S.heap[w]? = some cw) (ht : cw.taskTimeout = true) : PoolStep S (S.terminate w cw)

/-- The states of the runs of a pool. -/
def PoolReach (maxPoolSize : Nat) : ComputePool α ρ → Prop :=
  Relation.ReflTransGen PoolStep (ComputePool.new maxPoolSize)

/-! ## The invariant -/

/-- What holds of a worker. -/
structure WorkerOk (workers : List Nat) (posted : List (Posted ρ)) (w : Nat)
    (cw : ComputeWorker α ρ) : Prop where
  callbacks : cw.cbResolve = cw.cbReject
  computing : cw.isComputing = cw.cbReject.isSome
  dead : cw.isDead = true → cw.cbReject = none
  slot : cw.isDead = false → w ∈ workers
  /-- The thread has the task of the worker and no other one. -/
  thread : cw.isDead = false →
    cw.inbox.map Job.id ++ cw.port.map Posted.job = cw.cbReject.toList
  port : cw.isDead = false → ∀ p ∈ cw.port, p.worker = w ∧ p.held = true ∧ p ∈ posted

/-- **The invariant** of a pool that was created with `maxPoolSize`. -/
structure PoolOk (maxPoolSize : Nat) (S : ComputePool α ρ) : Prop where
  /-- Every task is in one place. -/
  place : ∀ n, (S.queue.map Job.id).count n + S.held.count n + (S.settled.map Prod.fst).count n =
    (List.range S.submitted).count n
  order : S.started ++ S.queue.map Job.id = List.range S.submitted
  bound : S.maxPoolSize = maxPoolSize
  size : S.workers.length ≤ S.maxPoolSize
  nodup : S.workers.Nodup
  created : ∀ w ∈ S.workers, w < S.heap.length
  worker : ∀ w cw, S.heap[w]? = some cw → WorkerOk S.workers S.posted w cw
  resolved : ∀ n w r, (n, .resolved w r) ∈ S.settled → (⟨w, n, r, true⟩ : Posted ρ) ∈ S.posted

namespace ComputePool

variable {S S' : ComputePool α ρ} {w : Nat} {cw : ComputeWorker α ρ}

/-- What a worker holds afterwards is held in place of what it held before. -/
theorem count_filterMap_set {β : Type} {f : β → Option Nat} {l : List β} {i : Nat} {a b : β}
    (h : l[i]? = some a) (n : Nat) :
    ((l.set i b).filterMap f).count n + (f a).toList.count n =
      (l.filterMap f).count n + (f b).toList.count n := by
  induction l generalizing i with
  | nil => exact absurd h (by simp)
  | cons c l ih =>
    cases i with
    | zero =>
      obtain rfl := Option.some.inj h
      rw [List.set_cons_zero, List.filterMap_cons, List.filterMap_cons]
      cases f c <;> cases f b <;> simp [List.count_cons]
      omega
    | succ i =>
      have hl := ih h
      rw [List.set_cons_succ, List.filterMap_cons, List.filterMap_cons]
      cases f c with
      | none => exact hl
      | some d =>
        simp only [List.count_cons]
        omega

/-- A worker after `set` is the new one, or what it was. -/
theorem getElem?_set_cases {β : Type} {l : List β} {i j : Nat} {a b c : β} (h : l[i]? = some a)
    (hj : (l.set i b)[j]? = some c) : j = i ∧ c = b ∨ j ≠ i ∧ l[j]? = some c := by
  by_cases hij : j = i
  · subst hij
    rw [List.getElem?_set_self (List.getElem?_eq_some_iff.mp h).1] at hj
    exact Or.inl ⟨rfl, (Option.some.inj hj).symm⟩
  · rw [List.getElem?_set_ne (fun e => hij e.symm)] at hj
    exact Or.inr ⟨hij, hj⟩

/-! ### A free worker -/

/-- What `getFreeWorker` comes to in the slots `ws`: an idle worker, or a new one in the slot of a
dead worker or in a slot of its own. -/
inductive Freed (S : ComputePool α ρ) (before ws : List Nat) : Nat → ComputePool α ρ → Prop
  | idle (w : Nat) (cw : ComputeWorker α ρ) (hw : S.heap[w]? = some cw) (hdead : cw.isDead = false)
      (hidle : cw.isComputing = false) (hmem : w ∈ ws) : Freed S before ws w S
  | replaced (b a : List Nat) (d : Nat) (cw : ComputeWorker α ρ) (hws : ws = b ++ d :: a)
      (hd : S.heap[d]? = some cw) (hdead : cw.isDead = true) :
      Freed S before ws S.heap.length
        { S with heap := S.heap ++ [.new], workers := before ++ b ++ S.heap.length :: a }
  | added (hlt : before.length + ws.length < S.maxPoolSize) :
      Freed S before ws S.heap.length
        { S with heap := S.heap ++ [.new], workers := before ++ ws ++ [S.heap.length] }

/-- Past a slot that is neither dead nor idle. -/
theorem Freed.past {before ws : List Nat} {v : Nat} (h : S.Freed (before ++ [v]) ws w S') :
    S.Freed before (v :: ws) w S' := by
  cases h with
  | idle w cw hw hdead hidle hmem => exact .idle w cw hw hdead hidle (List.mem_cons_of_mem _ hmem)
  | replaced b a d cw hws hd hdead =>
    have h : S.Freed before (v :: ws) _ _ :=
      Freed.replaced (v :: b) a d cw (by rw [hws]; rfl) hd hdead
    simpa using h
  | added hlt =>
    have h : S.Freed before (v :: ws) _ _ := Freed.added (by simp at hlt ⊢; omega)
    simpa using h

theorem freed_of_scan {before ws : List Nat} (h : S.scan before ws = some (w, S')) :
    S.Freed before ws w S' := by
  induction ws generalizing before with
  | nil =>
    unfold scan at h
    split at h
    · rename_i hlt
      obtain ⟨rfl, rfl⟩ := Prod.mk.inj (Option.some.inj h)
      have h : S.Freed before [] _ _ := Freed.added (by simpa using hlt)
      simpa using h
    · exact absurd h (by simp)
  | cons v ws ih =>
    unfold scan at h
    split at h
    · exact (ih h).past
    rename_i cw hcw
    split at h
    · rename_i hdead
      obtain ⟨rfl, rfl⟩ := Prod.mk.inj (Option.some.inj h)
      have h : S.Freed before (v :: ws) _ _ := Freed.replaced [] ws v cw rfl hcw hdead
      simpa using h
    rename_i hdead
    split at h
    · rename_i hidle
      obtain ⟨rfl, rfl⟩ := Prod.mk.inj (Option.some.inj h)
      exact .idle v cw hcw (by simpa using hdead) (by simpa using hidle) List.mem_cons_self
    · exact (ih h).past

end ComputePool

/-! ## Events keep the invariant -/

variable {S S' : ComputePool α ρ} {w : Nat} {cw : ComputeWorker α ρ} {queue : List (Job α)}
  {m : Nat}

theorem WorkerOk.mono {slots slots' : List Nat} {posted posted' : List (Posted ρ)}
    (h : WorkerOk slots posted w cw) (hslots : cw.isDead = false → w ∈ slots → w ∈ slots')
    (hposted : posted ⊆ posted') : WorkerOk slots' posted' w cw where
  callbacks := h.callbacks
  computing := h.computing
  dead := h.dead
  slot hd := hslots hd (h.slot hd)
  thread := h.thread
  port hd p hp := by
    obtain ⟨hw, hheld, hmem⟩ := h.port hd p hp
    exact ⟨hw, hheld, hposted hmem⟩

/-- Who holds a task is not dead. -/
theorem WorkerOk.isDead_of_holds {slots : List Nat} {posted : List (Posted ρ)} {n : Nat}
    (h : WorkerOk slots posted w cw) (hcb : cw.cbReject = some n) : cw.isDead = false := by
  cases hd : cw.isDead with
  | false => rfl
  | true => exact absurd (hcb.symm.trans (h.dead hd)) (by simp)

/-- A thread that computes has the task of its worker. -/
theorem WorkerOk.of_inbox {slots : List Nat} {posted : List (Posted ρ)} {job : Job α}
    {rest : List (Job α)} (h : WorkerOk slots posted w cw) (hd : cw.isDead = false)
    (hjob : cw.inbox = job :: rest) : cw.cbReject = some job.id ∧ rest = [] ∧ cw.port = [] := by
  have hthread := h.thread hd
  rw [hjob] at hthread
  cases hcb : cw.cbReject with
  | none =>
    rw [hcb] at hthread
    exact absurd hthread (by simp)
  | some n =>
    rw [hcb] at hthread
    have hthread : job.id :: (rest.map Job.id ++ cw.port.map Posted.job) = [n] := hthread
    obtain ⟨rfl, hnil⟩ := List.cons.inj hthread
    rw [List.append_eq_nil_iff, List.map_eq_nil_iff, List.map_eq_nil_iff] at hnil
    exact ⟨rfl, hnil⟩

/-- A message that arrives is the only one, and for the task of the worker. -/
theorem WorkerOk.of_port {slots : List Nat} {posted : List (Posted ρ)} {p : Posted ρ}
    {rest : List (Posted ρ)} (h : WorkerOk slots posted w cw) (hd : cw.isDead = false)
    (hport : cw.port = p :: rest) : cw.cbReject = some p.job ∧ cw.inbox = [] ∧ rest = [] := by
  have hthread := h.thread hd
  rw [hport] at hthread
  cases hcb : cw.cbReject with
  | none =>
    rw [hcb] at hthread
    exact absurd hthread (by simp)
  | some n =>
    rw [hcb, Option.toList_some, List.append_eq_singleton_iff] at hthread
    rcases hthread with ⟨hin, hp⟩ | ⟨-, hp⟩
    · obtain ⟨rfl, hnil⟩ := List.cons.inj hp
      exact ⟨rfl, List.map_eq_nil_iff.mp hin, List.map_eq_nil_iff.mp hnil⟩
    · exact absurd hp (by simp)

theorem WorkerOk.new {slots : List Nat} {posted : List (Posted ρ)} (h : w ∈ slots) :
    WorkerOk slots posted w (.new : ComputeWorker α ρ) where
  callbacks := rfl
  computing := rfl
  dead _ := rfl
  slot _ := h
  thread _ := rfl
  port _ _ hp := absurd hp List.not_mem_nil

namespace PoolOk

theorem new (m : Nat) : PoolOk m (.new m : ComputePool α ρ) where
  place n := by simp [ComputePool.new, ComputePool.held]
  order := rfl
  bound := rfl
  size := Nat.zero_le _
  nodup := List.nodup_nil
  created w hw := absurd hw List.not_mem_nil
  worker w cw hw := absurd hw (by simp [ComputePool.new])
  resolved n w r h := absurd h List.not_mem_nil

/-- A new worker gets a slot, and only a dead one loses its own. -/
theorem grow {slots : List Nat} (h : PoolOk m S) (hsize : slots.length ≤ S.maxPoolSize)
    (hnodup : slots.Nodup) (hnew : S.heap.length ∈ slots)
    (hslots : ∀ v ∈ slots, v ∈ S.workers ∨ v = S.heap.length)
    (hdead : ∀ v cw, S.heap[v]? = some cw → cw.isDead = false → v ∈ S.workers → v ∈ slots) :
    PoolOk m { S with heap := S.heap ++ [.new], workers := slots } where
  place n := by
    have hplace := h.place n
    unfold ComputePool.held at hplace ⊢
    rw [List.filterMap_append]
    simpa [ComputeWorker.new] using hplace
  order := h.order
  bound := h.bound
  size := hsize
  nodup := hnodup
  created v hv := by
    simp only [List.length_append, List.length_singleton]
    rcases hslots v hv with hv | rfl
    · exact Nat.lt_succ_of_lt (h.created v hv)
    · exact Nat.lt_succ_self _
  worker v cw hcw := by
    rcases Nat.lt_or_ge v S.heap.length with hlt | hge
    · rw [List.getElem?_append_left hlt] at hcw
      exact (h.worker v cw hcw).mono (hdead v cw hcw) (List.Subset.refl _)
    · rw [List.getElem?_append_right hge] at hcw
      have hv : v - S.heap.length = 0 := by
        by_contra hne
        rw [List.getElem?_eq_none (by simp; omega)] at hcw
        exact absurd hcw (by simp)
      rw [hv] at hcw
      obtain rfl := Option.some.inj hcw
      obtain rfl : v = S.heap.length := by omega
      exact .new hnew
  resolved := h.resolved

/-- `getFreeWorker` gives a worker that is free. -/
theorem getFreeWorker (h : PoolOk m { S with queue := queue })
    (hf : S.getFreeWorker = some (w, S')) : PoolOk m { S' with queue := queue } ∧
      ∃ cw, S'.heap[w]? = some cw ∧ cw.isDead = false ∧ cw.isComputing = false := by
  cases ComputePool.freed_of_scan hf with
  | idle w cw hw hdead hidle hmem => exact ⟨h, cw, hw, hdead, hidle⟩
  | replaced b a d cw hws hd hdead =>
    have hfresh : S.heap.length ∉ S.workers := fun hmem => Nat.lt_irrefl _ (h.created _ hmem)
    have hnodup : S.workers.Nodup := h.nodup
    have hsize : S.workers.length ≤ S.maxPoolSize := h.size
    have hmem : ∀ v, v ∈ S.workers ↔ v = d ∨ v ∈ b ++ a := fun v => by
      rw [hws, List.perm_middle.mem_iff, List.mem_cons]
    have hmem' : ∀ v, v ∈ [] ++ b ++ S.heap.length :: a ↔ v = S.heap.length ∨ v ∈ b ++ a :=
      fun v => by rw [List.nil_append, List.perm_middle.mem_iff, List.mem_cons]
    refine ⟨h.grow ?_ ?_ ((hmem' _).mpr (Or.inl rfl)) (fun v hv => ?_)
      (fun v cw' hv hlive hslot => ?_), _, List.getElem?_concat_length, rfl, rfl⟩
    · rw [hws] at hsize
      simpa using hsize
    · rw [hws, List.nodup_middle, List.nodup_cons] at hnodup
      rw [List.nil_append, List.nodup_middle, List.nodup_cons]
      exact ⟨fun hin => hfresh ((hmem _).mpr (Or.inr hin)), hnodup.2⟩
    · rcases (hmem' v).mp hv with rfl | hv
      · exact Or.inr rfl
      · exact Or.inl ((hmem v).mpr (Or.inr hv))
    · rcases (hmem v).mp hslot with rfl | hin
      · obtain rfl := Option.some.inj (hv.symm.trans hd)
        exact absurd (hlive.symm.trans hdead) (by simp)
      · exact (hmem' v).mpr (Or.inr hin)
  | added hlt =>
    have hfresh : S.heap.length ∉ S.workers := fun hmem => Nat.lt_irrefl _ (h.created _ hmem)
    have hmem : ∀ v, v ∈ [] ++ S.workers ++ [S.heap.length] ↔ v ∈ S.workers ∨ v = S.heap.length :=
      fun v => by simp
    refine ⟨h.grow ?_ ?_ ((hmem _).mpr (Or.inr rfl)) (fun v hv => (hmem v).mp hv)
      (fun v cw' _ _ hslot => (hmem v).mpr (Or.inl hslot)), _, List.getElem?_concat_length,
      rfl, rfl⟩
    · simp only [List.length_nil, Nat.zero_add, List.length_append, List.length_singleton] at hlt ⊢
      exact hlt
    · have hnodup : S.workers.Nodup := h.nodup
      show (S.workers ++ [S.heap.length]).Nodup
      rw [← List.concat_eq_append]
      exact hnodup.concat hfresh

/-- A free worker takes the next task. -/
theorem runOn {job : Job α} (h : PoolOk m { S with queue := job :: queue })
    (hw : S.heap[w]? = some cw)
    (hdead : cw.isDead = false) (hidle : cw.isComputing = false) :
    PoolOk m { S.runOn w job with queue := queue } := by
  have hcw : WorkerOk S.workers S.posted w cw := h.worker w cw hw
  have hnone : cw.cbReject = none := by
    have hc := hcw.computing
    rw [hidle] at hc
    exact Option.isNone_iff_eq_none.mp (by simpa using hc.symm)
  have hthread := hcw.thread hdead
  rw [hnone, Option.toList_none, List.append_eq_nil_iff] at hthread
  unfold ComputePool.runOn
  rw [hw]
  exact {
    place := fun n => by
      have hplace := h.place n
      have hset := ComputePool.count_filterMap_set (f := ComputeWorker.cbReject) (b := cw.run job)
        hw n
      rw [hnone] at hset
      unfold ComputePool.held at hplace ⊢
      simp only [List.map_cons, List.count_cons, ComputeWorker.run, Option.toList_some,
        Option.toList_none, List.count_nil] at hplace hset ⊢
      omega
    order := by
      have horder : S.started ++ (job :: queue).map Job.id = List.range S.submitted := h.order
      rw [List.map_cons, List.append_cons] at horder
      exact horder
    bound := h.bound
    size := h.size
    nodup := h.nodup
    created := fun v hv => by
      rw [List.length_set]
      exact h.created v hv
    worker := fun v cw' hv => by
      rcases ComputePool.getElem?_set_cases hw hv with ⟨rfl, rfl⟩ | ⟨-, hv⟩
      · exact {
          callbacks := rfl
          computing := rfl
          dead := fun hd => absurd (hdead.symm.trans hd) (by simp)
          slot := fun _ => hcw.slot hdead
          thread := fun _ => by
            have hin : cw.inbox = [] := List.map_eq_nil_iff.mp hthread.1
            have hport : cw.port = [] := List.map_eq_nil_iff.mp hthread.2
            simp [ComputeWorker.run, hin, hport]
          port := fun _ p hp => hcw.port hdead p hp }
      · exact h.worker v cw' hv
    resolved := h.resolved }

/-- **What `drain` starts, it starts in order on free workers.** -/
theorem drainLoop (h : PoolOk m { S with queue := queue }) :
    PoolOk m (ComputePool.drainLoop queue S) := by
  induction queue generalizing S with
  | nil => exact h
  | cons job queue ih =>
    unfold ComputePool.drainLoop
    split
    · exact h
    · rename_i w S' hfree
      obtain ⟨h', cw, hw, hdead, hidle⟩ := h.getFreeWorker hfree
      exact ih (h'.runOn hw hdead hidle)

theorem drain (h : PoolOk m S) : PoolOk m S.drain := drainLoop h

/-- A task is submitted. -/
theorem run (h : PoolOk m S) (task : α) : PoolOk m (S.run task) := by
  refine drain { h with place := fun n => ?_, order := ?_ }
  · have hplace := h.place n
    have hheld : ({ S with
        queue := S.queue ++ [⟨S.submitted, task⟩]
        submitted := S.submitted + 1 } : ComputePool α ρ).held = S.held := rfl
    rw [hheld]
    simp only [List.map_append, List.map_cons, List.map_nil, List.count_append, List.range_succ]
    omega
  · simp only [List.map_append, List.map_cons, List.map_nil, List.range_succ]
    rw [← List.append_assoc, h.order]

/-- A worker finishes: it calls back for the task it holds, if any. -/
theorem finish {cw₀ : ComputeWorker α ρ} {isDead : Bool} {o : Outcome ρ} (h : PoolOk m S)
    (hw : S.heap[w]? = some cw₀) (hthread : isDead = false → cw₀.isDead = false ∧ cw.inbox = [] ∧
      cw.port = [])
    (ho : ∀ n v r, cw₀.cbReject = some n → o = .resolved v r →
      (⟨v, n, r, true⟩ : Posted ρ) ∈ S.posted) :
    PoolOk m (S.finish w cw isDead cw₀.cbReject o) := by
  have hcw : WorkerOk S.workers S.posted w cw₀ := h.worker w cw₀ hw
  have hset := ComputePool.count_filterMap_set (f := ComputeWorker.cbReject)
    (b := { cw.finishWorker with isDead := isDead }) hw
  have hworker : ∀ v cw', (S.heap.set w { cw.finishWorker with isDead := isDead })[v]? = some cw' →
      WorkerOk S.workers S.posted v cw' := by
    intro v cw' hv
    rcases ComputePool.getElem?_set_cases hw hv with ⟨rfl, rfl⟩ | ⟨-, hv⟩
    · exact {
        callbacks := rfl
        computing := rfl
        dead := fun _ => rfl
        slot := fun hd => hcw.slot (hthread hd).1
        thread := fun hd => by
          obtain ⟨-, hin, hport⟩ := hthread hd
          simp [ComputeWorker.finishWorker, hin, hport]
        port := fun hd p hp => by
          have hp : p ∈ cw.port := hp
          rw [(hthread hd).2.2] at hp
          exact absurd hp List.not_mem_nil }
    · exact h.worker v cw' hv
  have hcreated : ∀ v ∈ S.workers, v < (S.heap.set w
      { cw.finishWorker with isDead := isDead }).length := by
    intro v hv
    rw [List.length_set]
    exact h.created v hv
  unfold ComputePool.finish ComputePool.settle
  cases hcb : cw₀.cbReject with
  | none =>
    refine ⟨fun n => ?_, h.order, h.bound, h.size, h.nodup, hcreated, hworker, h.resolved⟩
    have hplace := h.place n
    have hset := hset n
    rw [hcb] at hset
    unfold ComputePool.held at hplace ⊢
    simp only [ComputeWorker.finishWorker, Option.toList_none, List.count_nil] at hset ⊢
    omega
  | some j =>
    refine ⟨fun n => ?_, h.order, h.bound, h.size, h.nodup, hcreated, hworker, fun n v r hmem => ?_⟩
    · have hplace := h.place n
      have hset := hset n
      rw [hcb] at hset
      unfold ComputePool.held at hplace ⊢
      simp only [ComputeWorker.finishWorker, Option.toList_none, Option.toList_some, List.count_nil,
        List.map_append, List.map_cons, List.map_nil, List.count_append] at hset ⊢
      omega
    · rcases List.mem_append.mp hmem with hmem | hmem
      · exact h.resolved n v r hmem
      · obtain ⟨rfl, hout⟩ := Prod.mk.inj (List.mem_singleton.mp hmem)
        exact ho n v r hcb hout.symm

/-- The thread posts what it has computed. -/
theorem post {job : Job α} {rest : List (Job α)} (h : PoolOk m S) (hw : S.heap[w]? = some cw)
    (hjob : cw.inbox = job :: rest) (result : ρ) :
    PoolOk m { S with
      heap := S.heap.set w { cw with
        inbox := rest
        port := cw.port ++ [⟨w, job.id, result, cw.cbReject == some job.id⟩] }
      posted := S.posted ++ [⟨w, job.id, result, cw.cbReject == some job.id⟩] } := by
  have hcw : WorkerOk S.workers S.posted w cw := h.worker w cw hw
  exact {
    place := fun n => by
      have hplace := h.place n
      have hset := ComputePool.count_filterMap_set (f := ComputeWorker.cbReject) (b := { cw with
        inbox := rest
        port := cw.port ++ [⟨w, job.id, result, cw.cbReject == some job.id⟩] }) hw n
      unfold ComputePool.held at hplace ⊢
      simp only at hset ⊢
      omega
    order := h.order
    bound := h.bound
    size := h.size
    nodup := h.nodup
    created := fun v hv => by
      rw [List.length_set]
      exact h.created v hv
    worker := fun v cw' hv => by
      rcases ComputePool.getElem?_set_cases hw hv with ⟨rfl, rfl⟩ | ⟨-, hv⟩
      · refine ⟨hcw.callbacks, hcw.computing, hcw.dead, hcw.slot, fun hd => ?_, fun hd p hp => ?_⟩
        · obtain ⟨hcb, hrest, hport⟩ := hcw.of_inbox hd hjob
          simp [hcb, hrest, hport]
        · obtain ⟨hcb, -, hport⟩ := hcw.of_inbox hd hjob
          simp only [hport, List.nil_append, List.mem_singleton] at hp
          subst hp
          exact ⟨rfl, by simp [hcb], List.mem_append_right _ (List.mem_singleton.mpr rfl)⟩
      · exact (h.worker v cw' hv).mono (fun _ hs => hs) (List.subset_append_left _ _)
    resolved := fun n v r hmem => List.mem_append_left _ (h.resolved n v r hmem) }

/-- A message arrives, of a thread that may be dead by now. -/
theorem onMessage {p : Posted ρ} {rest : List (Posted ρ)} (h : PoolOk m S)
    (hw : S.heap[w]? = some cw)
    (hport : cw.port = p :: rest) : PoolOk m (S.onMessage w { cw with port := rest } p.result) := by
  have hcw : WorkerOk S.workers S.posted w cw := h.worker w cw hw
  unfold ComputePool.onMessage
  rw [show ({ cw with port := rest } : ComputeWorker α ρ).cbResolve = cw.cbReject from
    hcw.callbacks]
  refine (h.finish hw (fun hd => ?_) fun n v r hcb ho => ?_).drain
  · obtain ⟨-, hin, hrest⟩ := hcw.of_port hd hport
    exact ⟨hd, hin, hrest⟩
  · have hd : cw.isDead = false := hcw.isDead_of_holds hcb
    obtain ⟨rfl, rfl⟩ := Outcome.resolved.inj ho
    obtain ⟨hjob, -, -⟩ := hcw.of_port hd hport
    obtain ⟨hpw, hheld, hmem⟩ := hcw.port hd p (by rw [hport]; exact List.mem_cons_self)
    obtain rfl := Option.some.inj (hcb.symm.trans hjob)
    rw [← hpw, ← hheld]
    exact hmem

/-- The step lemma. -/
theorem step (h : PoolOk m S) (hs : PoolStep S S') : PoolOk m S' := by
  cases hs with
  | run task => exact h.run task
  | post w cw job rest result hw hjob => exact h.post hw hjob result
  | message w cw p rest hw hport => exact h.onMessage hw hport
  | error w cw err hw =>
    exact (h.finish hw (fun hd => absurd hd (by simp)) fun _ _ _ _ ho => absurd ho (by simp)).drain
  | exit w cw hw =>
    exact (h.finish hw (fun hd => absurd hd (by simp)) fun _ _ _ _ ho => absurd ho (by simp)).drain
  | taskTimeout w cw hw ht =>
    exact h.finish hw (fun hd => absurd hd (by simp)) fun _ _ _ _ ho => absurd ho (by simp)

/-- The run lemma. -/
theorem of_reach (hS : PoolReach m S) : PoolOk m S := by
  induction hS with
  | refl => exact .new m
  | tail _ hstep ih => exact ih.step hstep

end PoolOk

/-! ## No task is lost -/

/-- The worker holds the task: one of its callbacks is the task's. -/
def ComputePool.Holds (S : ComputePool α ρ) (w n : Nat) : Prop :=
  ∃ cw, S.heap[w]? = some cw ∧ (cw.cbResolve = some n ∨ cw.cbReject = some n)

/-- What two elements give occurs twice. -/
theorem two_le_count_filterMap {β : Type} {f : β → Option Nat} {l : List β} {i j n : Nat} {a b : β}
    (hi : l[i]? = some a) (hj : l[j]? = some b) (hij : i < j) (ha : f a = some n)
    (hb : f b = some n) : 2 ≤ (l.filterMap f).count n := by
  induction l generalizing i j with
  | nil => exact absurd hi (by simp)
  | cons c l ih =>
    cases j with
    | zero => exact absurd hij (Nat.not_lt_zero i)
    | succ j =>
      cases i with
      | zero =>
        obtain rfl := Option.some.inj hi
        have hmem : n ∈ l.filterMap f :=
          List.mem_filterMap.mpr ⟨b, List.mem_of_getElem? hj, hb⟩
        have hpos := List.count_pos_iff.mpr hmem
        rw [List.filterMap_cons, ha, List.count_cons_self]
        omega
      | succ i =>
        have hl := ih hi hj (Nat.lt_of_succ_lt_succ hij)
        rw [List.filterMap_cons]
        cases f c with
        | none => exact hl
        | some d => exact Nat.le_trans hl List.count_le_count_cons

/-- **No task is lost or mixed up**: each submitted task is in the queue, held by one worker, which
is not dead, or settled, and only once; it is resolved with a message that the worker's thread has
posted while the worker held it. Tasks start in the order of their submission, the thread of a
worker has one task at most, and there are at most `maxPoolSize` slots. -/
theorem no_task_lost {m : Nat} {S : ComputePool α ρ} (hS : PoolReach m S) :
    (∀ n < S.submitted, (S.queue.map Job.id).count n + S.held.count n +
      (S.settled.map Prod.fst).count n = 1) ∧
    (∀ n w, S.Holds w n → n ∈ S.held ∧ w ∈ S.workers ∧ (∀ w', S.Holds w' n → w' = w) ∧
      ∀ cw, S.heap[w]? = some cw → cw.isDead = false) ∧
    (∀ n w r, (n, .resolved w r) ∈ S.settled → (⟨w, n, r, true⟩ : Posted ρ) ∈ S.posted) ∧
    S.started ++ S.queue.map Job.id = List.range S.submitted ∧
    (∀ (w : Nat) (cw : ComputeWorker α ρ), S.heap[w]? = some cw → cw.isDead = false →
      cw.inbox.length + cw.port.length ≤ 1) ∧
    S.workers.length ≤ m := by
  have h := PoolOk.of_reach hS
  have hcount : ∀ n, S.held.count n ≤ 1 := fun n => by
    have hplace := h.place n
    have hrange : (List.range S.submitted).count n ≤ 1 :=
      List.nodup_iff_count_le_one.mp List.nodup_range n
    omega
  have hreject : ∀ {n w : Nat} {cw : ComputeWorker α ρ}, S.heap[w]? = some cw →
      (cw.cbResolve = some n ∨ cw.cbReject = some n) → cw.cbReject = some n := by
    intro n w cw hw hcb
    rcases hcb with hcb | hcb
    · rw [← (h.worker w cw hw).callbacks, hcb]
    · exact hcb
  refine ⟨fun n hn => ?_, ?_, h.resolved, h.order, fun w cw hw hd => ?_, h.bound ▸ h.size⟩
  · rw [h.place n]
    exact List.count_eq_one_of_mem List.nodup_range (List.mem_range.mpr hn)
  · rintro n w ⟨cw, hw, hcb⟩
    have hcb := hreject hw hcb
    have hd := (h.worker w cw hw).isDead_of_holds hcb
    refine ⟨List.mem_filterMap.mpr ⟨cw, List.mem_of_getElem? hw, hcb⟩,
      (h.worker w cw hw).slot hd, ?_, fun cw' hw' => ?_⟩
    · rintro w' ⟨cw', hw', hcb'⟩
      have hcb' := hreject hw' hcb'
      have hone := hcount n
      rcases Nat.lt_trichotomy w' w with hlt | rfl | hlt
      · have htwo : 2 ≤ S.held.count n := two_le_count_filterMap hw' hw hlt hcb' hcb
        omega
      · rfl
      · have htwo : 2 ≤ S.held.count n := two_le_count_filterMap hw hw' hlt hcb hcb'
        omega
    · obtain rfl := Option.some.inj (hw.symm.trans hw')
      exact hd
  · have hthread := congrArg List.length ((h.worker w cw hw).thread hd)
    rw [List.length_append, List.length_map, List.length_map] at hthread
    rw [hthread]
    cases cw.cbReject <;> simp

/-- The first of two tasks times out when its result is already on the way; the second one starts
on a new thread. -/
theorem no_task_lost_of_run : ∃ S : ComputePool Nat Nat, PoolReach 1 S ∧
    S.settled = [(0, .rejected "Worker terminated")] ∧ S.workers = [1] ∧
    S.Holds 1 1 ∧ (∀ w, S.Holds w 1 → w = 1) := by
  have h : PoolReach (α := Nat) (ρ := Nat) 1 _ :=
    ((((Relation.ReflTransGen.refl.tail (PoolStep.run _ 7)).tail (PoolStep.run _ 8)).tail
      (PoolStep.post _ 0 _ ⟨0, 7⟩ [] 70 rfl rfl)).tail
      (PoolStep.taskTimeout _ 0 _ rfl rfl)).tail (PoolStep.exit _ 0 _ rfl)
  have h := h.tail (PoolStep.message _ 0 _ ⟨0, 0, 70, true⟩ [] rfl rfl)
  obtain ⟨S, hS, hsettled, hworkers, hholds⟩ : ∃ S : ComputePool Nat Nat, PoolReach 1 S ∧
      S.settled = [(0, .rejected "Worker terminated")] ∧ S.workers = [1] ∧ S.Holds 1 1 :=
    ⟨_, h, rfl, rfl, _, rfl, Or.inl rfl⟩
  exact ⟨S, hS, hsettled, hworkers, hholds, ((no_task_lost hS).2.1 1 1 hholds).2.2.1⟩

end YHub
