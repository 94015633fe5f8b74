import YHub.Lib.InsertionMap
import YHub.Redis
import Mathlib.Logic.Relation

/-!
# The leases of a worker (`index.js:80-157`, `stream.js:629-673`)

`startWorker` claims tasks and starts a run of each, which nothing waits for; `inflight` is the map
of what is running. `_renewLeases` works on the same map next to it: it abandons the runs that take
longer than `taskTimeout`, and renews the lease of the other tasks. An abandoned run goes on, and
its task may be claimed and started again.

Both loops only wait between the events here. Redis replies to a claim with entries of the pending
list (`AutoClaimed`), running ones included.

`runs` is every run in the order in which they started, and an entry of `inflight` has the index of
its run for the object `run`. `renewed` is history: the ids of each renewal.

* `lease_bookkeeping`: there is one entry for a task and `taskConcurrency` at most, no task that
  has one is started, and an entry disappears when its own run ends or is abandoned.
* `LeasesOk`: the invariant: the entries are the runs that have neither ended nor been abandoned.
-/

namespace YHub

/-! ## The claim -/

/-- A message of the reply of `XAUTOCLAIM`; `compact` is missing on one of another type. -/
structure ClaimedMessage where
  id : StreamId
  compact : Option Room
  deriving DecidableEq, Repr

/-- What `claimTasks` makes of the messages; a deleted one is `null`. -/
def claimedTasks (messages : List (Option ClaimedMessage)) : List Task :=
  messages.filterMap fun
    | some ⟨id, some room⟩ => some ⟨id, room⟩
    | _ => none

/-- What `XAUTOCLAIM … COUNT count` replies: it passes once over the pending list. -/
structure AutoClaimed (count : Nat) (messages : List (Option ClaimedMessage)) : Prop where
  length_le : messages.length ≤ count
  nodup : (messages.filterMap fun m => m.map ClaimedMessage.id).Nodup

/-! ## The worker -/

/-- A run of a task. -/
structure LeaseRun where
  task : StreamId
  started : Nat
  room : Room
  ended : Bool
  abandoned : Bool
  deriving DecidableEq, Repr

/-- The run of a task that starts. -/
def Task.leaseRun (now : StreamId → Nat) (task : Task) : LeaseRun :=
  ⟨task.id, now task.id, task.compact, false, false⟩

structure LeaseState where
  taskConcurrency : Nat
  taskTimeout : Nat
  inflight : InsertionMap StreamId Nat
  runs : List LeaseRun
  /-- The count of the claim that is under way. -/
  claiming : Option Nat
  renewed : List (List StreamId)

namespace LeaseState

/-- A worker that starts. -/
def start (taskConcurrency taskTimeout : Nat) : LeaseState :=
  ⟨taskConcurrency, taskTimeout, .empty, [], none, []⟩

/-- One round of `tasks.forEach`; a task is started at the time that `now` gives. -/
def startTask (now : StreamId → Nat) (S : LeaseState) (task : Task) : LeaseState :=
  { S with
    inflight := S.inflight.set task.id S.runs.length
    runs := S.runs ++ [task.leaseRun now] }

/-- `tasks.forEach`. -/
def startTasks (now : StreamId → Nat) (S : LeaseState) (tasks : List Task) : LeaseState :=
  tasks.foldl (startTask now) S

/-- The tasks of a claim that are not running. -/
def notInflight (S : LeaseState) (tasks : List Task) : List Task :=
  tasks.filter fun task => task.id ∉ S.inflight.keys

/-- The `finally` of a run. -/
def endRun (S : LeaseState) (r : Nat) (run : LeaseRun) : LeaseState :=
  { S with
    inflight := if S.inflight.get run.task = some r then S.inflight.delete run.task else S.inflight
    runs := S.runs.set r { run with ended := true } }

/-- One round of the `forEach` of `_renewLeases`. -/
def abandonOverrun (now : Nat) (S : LeaseState) (e : StreamId × Nat) : LeaseState :=
  match S.runs[e.2]? with
  | none => S
  | some run =>
    if run.started + S.taskTimeout < now then
      { S with
        inflight := S.inflight.delete e.1
        runs := S.runs.set e.2 { run with abandoned := true } }
    else S

/-- The `forEach` of `_renewLeases`. -/
def abandonOverruns (now : Nat) (S : LeaseState) : LeaseState :=
  S.inflight.entries.foldl (abandonOverrun now) S

/-- The renewal, if there is a task. -/
def renewTasks (S : LeaseState) : LeaseState :=
  if S.inflight.keys = [] then S else { S with renewed := S.renewed ++ [S.inflight.keys] }

/-- What `_renewLeases` does when it wakes up. -/
def renewLeases (now : Nat) (S : LeaseState) : LeaseState := (S.abandonOverruns now).renewTasks

end LeaseState

/-- The events. -/
inductive LeaseEvent where
  | claim
  | claimed (messages : List (Option ClaimedMessage)) (now : StreamId → Nat)
  | claimFails
  /-- The run is over, whether it has failed or not. -/
  | runEnds (r : Nat)
  | renewLeases (now : Nat)

/-- One event. -/
inductive LeaseStep : LeaseState → LeaseEvent → LeaseState → Prop
  | claim (S : LeaseState) (h : S.claiming = none) (hfree : S.inflight.size < S.taskConcurrency) :
      LeaseStep S .claim { S with claiming := some (S.taskConcurrency - S.inflight.size) }
  | claimed (S : LeaseState) (count : Nat) (messages : List (Option ClaimedMessage))
      (now : StreamId → Nat) (h : S.claiming = some count) (hreply : AutoClaimed count messages) :
      LeaseStep S (.claimed messages now)
        (LeaseState.startTasks now { S with claiming := none }
          (S.notInflight (claimedTasks messages)))
  | claimFails (S : LeaseState) (count : Nat) (h : S.claiming = some count) :
      LeaseStep S .claimFails { S with claiming := none }
  | runEnds (S : LeaseState) (r : Nat) (run : LeaseRun) (hr : S.runs[r]? = some run)
      (h : run.ended = false) : LeaseStep S (.runEnds r) (S.endRun r run)
  | renewLeases (S : LeaseState) (now : Nat) :
      LeaseStep S (.renewLeases now) (S.renewLeases now)

/-- The states of a worker. -/
inductive LeaseReach (taskConcurrency taskTimeout : Nat) : LeaseState → Prop
  | start : LeaseReach taskConcurrency taskTimeout (.start taskConcurrency taskTimeout)
  | step {S S' : LeaseState} {e : LeaseEvent} (h : LeaseReach taskConcurrency taskTimeout S)
      (hs : LeaseStep S e S') : LeaseReach taskConcurrency taskTimeout S'

/-! ## The invariant -/

/-- The run is one that `inflight` has to have. -/
def LeaseRun.Leased (run : LeaseRun) : Prop := run.ended = false ∧ run.abandoned = false

/-- The entries are the runs that are leased. -/
def EntriesOk (inflight : InsertionMap StreamId Nat) (runs : List LeaseRun) : Prop :=
  ∀ id r, inflight.get id = some r ↔
    ∃ run, runs[r]? = some run ∧ run.task = id ∧ run.Leased

/-- **The invariant** of a worker. -/
structure LeasesOk (taskConcurrency taskTimeout : Nat) (S : LeaseState) : Prop where
  concurrency : S.taskConcurrency = taskConcurrency
  timeout : S.taskTimeout = taskTimeout
  /-- The tasks of the claim that is under way still fit in. -/
  size : S.inflight.size + S.claiming.getD 0 ≤ S.taskConcurrency
  entries : EntriesOk S.inflight S.runs

namespace EntriesOk

variable {inflight : InsertionMap StreamId Nat} {runs : List LeaseRun} {id : StreamId} {r : Nat}
  {run : LeaseRun}

/-- A new run of a task that has no entry. -/
theorem start (h : EntriesOk inflight runs) (hnew : run.Leased) (hid : run.task ∉ inflight.keys) :
    EntriesOk (inflight.set run.task runs.length) (runs ++ [run]) := by
  intro id r
  rw [InsertionMap.get_set, List.getElem?_append]
  split
  · rename_i heq
    subst heq
    constructor
    · intro e
      obtain rfl := Option.some.inj e
      exact ⟨run, by simp, rfl, hnew⟩
    · rintro ⟨run', hr, htask, hleased⟩
      split at hr
      · have hget := (h _ _).mpr ⟨run', hr, htask, hleased⟩
        rw [InsertionMap.get_eq_none.mpr hid] at hget
        exact absurd hget (by simp)
      · have hlt := (List.getElem?_eq_some_iff.mp hr).1
        simp only [List.length_singleton] at hlt
        exact congrArg some (by omega)
  · rename_i hne
    rw [h id r]
    constructor
    · rintro ⟨run', hr, hrun⟩
      exact ⟨run', by rw [if_pos (List.getElem?_eq_some_iff.mp hr).1]; exact hr, hrun⟩
    · rintro ⟨run', hr, htask, hleased⟩
      split at hr
      · exact ⟨run', hr, htask, hleased⟩
      · obtain rfl : run' = run := by simpa using List.mem_of_getElem? hr
        exact absurd htask.symm hne

/-- A run that has its entry loses it, and is not leased any more. -/
theorem leave {run' : LeaseRun} (h : EntriesOk inflight runs) (hid : inflight.get id = some r)
    (hend : ¬ run'.Leased) : EntriesOk (inflight.delete id) (runs.set r run') := by
  obtain ⟨run, hr, htask, hleased⟩ := (h id r).mp hid
  intro id' r'
  rw [InsertionMap.get_delete]
  by_cases hrr : r' = r
  · subst hrr
    rw [List.getElem?_set_self (List.getElem?_eq_some_iff.mp hr).1]
    constructor
    · intro hget
      split at hget
      · exact absurd hget (by simp)
      · rename_i hne
        obtain ⟨run₂, hr₂, htask₂, -⟩ := (h id' r').mp hget
        obtain rfl := Option.some.inj (hr₂.symm.trans hr)
        exact absurd (htask₂.symm.trans htask) hne
    · rintro ⟨run₂, e, -, hleased₂⟩
      obtain rfl := Option.some.inj e
      exact absurd hleased₂ hend
  · rw [List.getElem?_set_ne (fun e => hrr e.symm)]
    split
    · rename_i heq
      subst heq
      constructor
      · intro e
        exact absurd e (by simp)
      · intro hrun
        have hget := (h _ r').mpr hrun
        exact absurd (Option.some.inj (hget.symm.trans hid)) hrr
    · exact h id' r'

/-- What a run that has no entry does changes no entry. -/
theorem stay {run' : LeaseRun} (h : EntriesOk inflight runs) (hr : runs[r]? = some run)
    (hid : inflight.get run.task ≠ some r) (hend : ¬ run'.Leased) :
    EntriesOk inflight (runs.set r run') := by
  intro id' r'
  rw [h id' r']
  by_cases hrr : r' = r
  · subst hrr
    rw [List.getElem?_set_self (List.getElem?_eq_some_iff.mp hr).1]
    constructor
    · rintro ⟨run₂, hr₂, htask, hleased⟩
      obtain rfl := Option.some.inj (hr₂.symm.trans hr)
      exact absurd ((h _ r').mpr ⟨_, hr, rfl, hleased⟩) hid
    · rintro ⟨run₂, e, -, hleased⟩
      obtain rfl := Option.some.inj e
      exact absurd hleased hend
  · rw [List.getElem?_set_ne (fun e => hrr e.symm)]

end EntriesOk

/-! ## The steps -/

section Steps

variable {S S' : LeaseState} {m timeout now : Nat}

/-- A run leaves `inflight`. -/
theorem LeasesOk.leave {id : StreamId} {r : Nat} {run' : LeaseRun} (h : LeasesOk m timeout S)
    (hid : S.inflight.get id = some r) (hend : ¬ run'.Leased) : LeasesOk m timeout { S with
      inflight := S.inflight.delete id, runs := S.runs.set r run' } where
  concurrency := h.concurrency
  timeout := h.timeout
  size := by
    have hle := InsertionMap.size_delete_le (m := S.inflight) (k := id)
    have hsize := h.size
    show (S.inflight.delete id).size + S.claiming.getD 0 ≤ S.taskConcurrency
    omega
  entries := h.entries.leave hid hend

/-- The tasks of a batch are started one after the other. -/
theorem startTasks_spec {now : StreamId → Nat} {tasks : List Task}
    (h : LeasesOk m timeout S) (hsize : S.inflight.size + tasks.length ≤ S.taskConcurrency)
    (hclaiming : S.claiming = none) (hnodup : (tasks.map Task.id).Nodup)
    (hnew : ∀ task ∈ tasks, task.id ∉ S.inflight.keys) :
    LeasesOk m timeout (S.startTasks now tasks) ∧
      (S.startTasks now tasks).runs = S.runs ++ tasks.map (Task.leaseRun now) := by
  induction tasks generalizing S with
  | nil => exact ⟨h, by simp [LeaseState.startTasks]⟩
  | cons task tasks ih =>
    rw [List.map_cons, List.nodup_cons] at hnodup
    have hid : task.id ∉ S.inflight.keys := hnew task List.mem_cons_self
    have hset := InsertionMap.entries_set_of_notMem (v := S.runs.length) hid
    have hone : (S.startTask now task).inflight.size = S.inflight.size + 1 := by
      show (S.inflight.set task.id S.runs.length).entries.length = _
      rw [hset, List.length_append]
      rfl
    rw [List.length_cons] at hsize
    have hstart : LeasesOk m timeout (S.startTask now task) := {
      concurrency := h.concurrency
      timeout := h.timeout
      size := by
        show _ + S.claiming.getD 0 ≤ S.taskConcurrency
        rw [hone, hclaiming, Option.getD_none]
        omega
      entries :=
        have hrun : (task.leaseRun now).Leased := ⟨rfl, rfl⟩
        h.entries.start hrun hid }
    obtain ⟨hok, hruns⟩ := ih hstart (by rw [hone]; show _ ≤ S.taskConcurrency; omega)
      hclaiming hnodup.2 (fun task' htask' hmem => by
        obtain ⟨r, hr⟩ := InsertionMap.mem_keys.mp hmem
        rcases InsertionMap.mem_entries_set.mp hr with ⟨heq, -⟩ | ⟨-, hold⟩
        · exact hnodup.1 (heq ▸ List.mem_map_of_mem htask')
        · exact hnew task' (List.mem_cons_of_mem _ htask') (InsertionMap.mem_keys.mpr ⟨r, hold⟩))
    refine ⟨hok, ?_⟩
    show ((S.startTask now task).startTasks now tasks).runs = _
    rw [hruns, List.map_cons, List.append_cons]
    rfl

/-- What `_renewLeases` does to the runs: it abandons some that take too long. -/
structure Abandons (now : Nat) (S S' : LeaseState) : Prop where
  length : S'.runs.length = S.runs.length
  runs : ∀ (r : Nat) (run : LeaseRun), S.runs[r]? = some run → S'.runs[r]? = some run ∨
    run.started + S.taskTimeout < now ∧ S'.runs[r]? = some { run with abandoned := true }

theorem Abandons.refl (now : Nat) (S : LeaseState) : Abandons now S S :=
  ⟨rfl, fun _ _ hr => Or.inl hr⟩

theorem Abandons.trans {S'' : LeaseState} (h : Abandons now S S')
    (htimeout : S'.taskTimeout = S.taskTimeout) (h' : Abandons now S' S'') :
    Abandons now S S'' := by
  refine ⟨h'.length.trans h.length, fun r run hr => ?_⟩
  rcases h.runs r run hr with hr | ⟨hlate, hr⟩
  · rcases h'.runs r run hr with hr | ⟨hlate, hr⟩
    · exact Or.inl hr
    · exact Or.inr ⟨htimeout ▸ hlate, hr⟩
  · rcases h'.runs r _ hr with hr | ⟨-, hr⟩
    · exact Or.inr ⟨hlate, hr⟩
    · exact Or.inr ⟨hlate, hr⟩

/-- One round, for an entry that is still there. -/
theorem abandonOverrun_spec {e : StreamId × Nat} (h : LeasesOk m timeout S)
    (he : S.inflight.get e.1 = some e.2) :
    LeasesOk m timeout (S.abandonOverrun now e) ∧ Abandons now S (S.abandonOverrun now e) ∧
      ∀ id, id ≠ e.1 → (S.abandonOverrun now e).inflight.get id = S.inflight.get id := by
  obtain ⟨run, hr, htask, hleased⟩ := (h.entries e.1 e.2).mp he
  unfold LeaseState.abandonOverrun
  rw [hr]
  by_cases hlate : run.started + S.taskTimeout < now
  · simp only [if_pos hlate]
    refine ⟨h.leave he fun hl => absurd hl.2 (by simp),
      ⟨List.length_set .., fun r run' hr' => ?_⟩, fun id hid => ?_⟩
    · by_cases hrr : r = e.2
      · subst hrr
        obtain rfl := Option.some.inj (hr'.symm.trans hr)
        exact Or.inr ⟨hlate, List.getElem?_set_self (List.getElem?_eq_some_iff.mp hr).1⟩
      · exact Or.inl ((List.getElem?_set_ne fun e => hrr e.symm).trans hr')
    · rw [InsertionMap.get_delete, if_neg hid]
  · simp only [if_neg hlate]
    exact ⟨h, .refl now S, fun _ _ => trivial⟩

/-- All rounds: the entries are the ones that the map had before. -/
theorem foldl_abandonOverrun {es : List (StreamId × Nat)} (h : LeasesOk m timeout S)
    (hnodup : (es.map Prod.fst).Nodup) (hes : ∀ e ∈ es, S.inflight.get e.1 = some e.2) :
    LeasesOk m timeout (es.foldl (LeaseState.abandonOverrun now) S) ∧
      Abandons now S (es.foldl (LeaseState.abandonOverrun now) S) := by
  induction es generalizing S with
  | nil => exact ⟨h, .refl now S⟩
  | cons e es ih =>
    rw [List.map_cons, List.nodup_cons] at hnodup
    obtain ⟨hok, habandons, hother⟩ := abandonOverrun_spec h (hes e List.mem_cons_self)
    have hrest : ∀ e' ∈ es, (S.abandonOverrun now e).inflight.get e'.1 = some e'.2 := by
      intro e' he'
      rw [hother e'.1 fun heq => hnodup.1 (heq ▸ List.mem_map_of_mem he')]
      exact hes e' (List.mem_cons_of_mem _ he')
    obtain ⟨hok', habandons'⟩ := ih hok hnodup.2 hrest
    exact ⟨hok', habandons.trans (hok.timeout.trans h.timeout.symm) habandons'⟩

theorem renewLeases_spec (h : LeasesOk m timeout S) :
    LeasesOk m timeout (S.renewLeases now) ∧ Abandons now S (S.renewLeases now) := by
  have hes : ∀ e ∈ S.inflight.entries, S.inflight.get e.1 = some e.2 :=
    fun e he => InsertionMap.get_eq_some.mpr he
  obtain ⟨hok, habandons⟩ : LeasesOk m timeout (S.abandonOverruns now) ∧
      Abandons now S (S.abandonOverruns now) := foldl_abandonOverrun h S.inflight.nodup hes
  unfold LeaseState.renewLeases LeaseState.renewTasks
  split
  · exact ⟨hok, habandons⟩
  · exact ⟨⟨hok.concurrency, hok.timeout, hok.size, hok.entries⟩,
      ⟨habandons.length, habandons.runs⟩⟩

/-- The tasks of a reply are as different as its messages. -/
theorem claimedTasks_sublist (messages : List (Option ClaimedMessage)) :
    ((claimedTasks messages).map Task.id).Sublist
      (messages.filterMap fun m => m.map ClaimedMessage.id) := by
  unfold claimedTasks
  induction messages with
  | nil => exact List.Sublist.slnil
  | cons message messages ih =>
    rcases message with _ | ⟨id, _ | room⟩
    · exact ih
    · exact ih.cons id
    · exact ih.cons_cons id

/-- The tasks that are started are different ones. -/
theorem nodup_notInflight {count : Nat} {messages : List (Option ClaimedMessage)}
    (hreply : AutoClaimed count messages) :
    ((S.notInflight (claimedTasks messages)).map Task.id).Nodup :=
  hreply.nodup.sublist ((List.filter_sublist.map Task.id).trans (claimedTasks_sublist messages))

theorem notMem_of_notInflight {tasks : List Task} {task : Task} (h : task ∈ S.notInflight tasks) :
    task.id ∉ S.inflight.keys :=
  of_decide_eq_true (List.mem_filter.mp h).2

/-- What is started after a claim. -/
theorem started_spec {count : Nat} {messages : List (Option ClaimedMessage)}
    {now : StreamId → Nat} (h : LeasesOk m timeout S) (hcount : S.claiming = some count)
    (hreply : AutoClaimed count messages) :
    LeasesOk m timeout (LeaseState.startTasks now { S with claiming := none }
        (S.notInflight (claimedTasks messages))) ∧
      (LeaseState.startTasks now { S with claiming := none }
        (S.notInflight (claimedTasks messages))).runs =
          S.runs ++ (S.notInflight (claimedTasks messages)).map (Task.leaseRun now) := by
  have hsize := h.size
  rw [hcount, Option.getD_some] at hsize
  have hlength : (S.notInflight (claimedTasks messages)).length ≤ count := by
    refine le_trans (List.length_filter_le _ _) (le_trans ?_ hreply.length_le)
    exact List.length_filterMap_le _ _
  refine startTasks_spec ⟨h.concurrency, h.timeout, ?_, h.entries⟩ ?_ rfl
    (nodup_notInflight hreply) fun task htask => notMem_of_notInflight htask
  · show S.inflight.size + 0 ≤ S.taskConcurrency
    omega
  · show S.inflight.size + _ ≤ S.taskConcurrency
    omega

/-- The step lemma. -/
theorem LeasesOk.step {e : LeaseEvent} (h : LeasesOk m timeout S) (hs : LeaseStep S e S') :
    LeasesOk m timeout S' := by
  cases hs with
  | claim hclaiming hfree =>
    refine ⟨h.concurrency, h.timeout, ?_, h.entries⟩
    show S.inflight.size + (S.taskConcurrency - S.inflight.size) ≤ S.taskConcurrency
    omega
  | claimed count messages now hcount hreply => exact (started_spec h hcount hreply).1
  | claimFails count hcount =>
    have hsize := h.size
    refine ⟨h.concurrency, h.timeout, ?_, h.entries⟩
    show S.inflight.size + 0 ≤ S.taskConcurrency
    omega
  | runEnds r run hr hended =>
    unfold LeaseState.endRun
    split
    · rename_i hget
      exact h.leave hget fun hl => absurd hl.1 (by simp)
    · rename_i hget
      exact ⟨h.concurrency, h.timeout, h.size,
        h.entries.stay hr hget fun hl => absurd hl.1 (by simp)⟩
  | renewLeases now => exact (renewLeases_spec h).1

/-- The run lemma. -/
theorem LeasesOk.of_reach (h : LeaseReach m timeout S) : LeasesOk m timeout S := by
  induction h with
  | start => exact ⟨rfl, rfl, Nat.zero_le m, fun id r => by simp [LeaseState.start]⟩
  | step _ hs ih => exact ih.step hs

/-- A run keeps its task, and an event that is not about it leaves it as it is. -/
theorem LeaseStep.run_cases {e : LeaseEvent} (h : LeasesOk m timeout S) (hs : LeaseStep S e S')
    {r : Nat} {run : LeaseRun} (hr : S.runs[r]? = some run) :
    S'.runs[r]? = some run ∨ e = .runEnds r ∨
      ∃ now, e = .renewLeases now ∧ run.started + timeout < now := by
  cases hs with
  | claim hclaiming hfree => exact Or.inl hr
  | claimed count messages now hcount hreply =>
    rw [(started_spec h hcount hreply).2,
      List.getElem?_append_left (List.getElem?_eq_some_iff.mp hr).1]
    exact Or.inl hr
  | claimFails count hcount => exact Or.inl hr
  | runEnds r' run' hr' hended =>
    by_cases hrr : r = r'
    · exact Or.inr (Or.inl (by rw [hrr]))
    · exact Or.inl ((List.getElem?_set_ne fun e => hrr e.symm).trans hr)
  | renewLeases now =>
    have habandons : Abandons now S (S.renewLeases now) := (renewLeases_spec h).2
    rcases habandons.runs r run hr with hr | ⟨hlate, -⟩
    · exact Or.inl hr
    · exact Or.inr (Or.inr ⟨now, rfl, h.timeout ▸ hlate⟩)

/-- The tasks that an event starts are different, and none of them has an entry. -/
theorem LeaseStep.started {e : LeaseEvent} (h : LeasesOk m timeout S) (hs : LeaseStep S e S') :
    ((S'.runs.drop S.runs.length).map LeaseRun.task).Nodup ∧
      ∀ run ∈ S'.runs.drop S.runs.length, run.task ∉ S.inflight.keys := by
  have hnone : ∀ runs : List LeaseRun, runs.length = S.runs.length →
      ((runs.drop S.runs.length).map LeaseRun.task).Nodup ∧
        ∀ run ∈ runs.drop S.runs.length, run.task ∉ S.inflight.keys := by
    intro runs hlength
    rw [← hlength, List.drop_length]
    exact ⟨List.nodup_nil, fun run hrun => absurd hrun List.not_mem_nil⟩
  cases hs with
  | claim hclaiming hfree => exact hnone _ rfl
  | claimed count messages now hcount hreply =>
    rw [(started_spec h hcount hreply).2, List.drop_left, List.map_map]
    refine ⟨nodup_notInflight hreply, fun run hrun => ?_⟩
    obtain ⟨task, htask, rfl⟩ := List.mem_map.mp hrun
    exact notMem_of_notInflight htask
  | claimFails count hcount => exact hnone _ rfl
  | runEnds r run hr hended => exact hnone _ (List.length_set ..)
  | renewLeases now => exact hnone _ (renewLeases_spec h).2.length

theorem renewed_abandonOverruns : (S.abandonOverruns now).renewed = S.renewed := by
  have hfold : ∀ (es : List (StreamId × Nat)) (S : LeaseState),
      (es.foldl (LeaseState.abandonOverrun now) S).renewed = S.renewed := by
    intro es
    induction es with
    | nil => exact fun S => rfl
    | cons e es ih =>
      intro S
      rw [List.foldl_cons, ih]
      unfold LeaseState.abandonOverrun
      split
      · rfl
      · split <;> rfl
  exact hfold _ S

/-- **The leases of one worker**: a task has one entry at most, and there are at most
`taskConcurrency` entries. An event starts no task that has one, and no task twice. An entry
disappears only with the end of its own run, or when that run is abandoned for taking longer than
`taskTimeout`. The end of an abandoned run changes no entry, and every renewal is of all entries. -/
theorem lease_bookkeeping {taskConcurrency taskTimeout : Nat} {S : LeaseState}
    (hS : LeaseReach taskConcurrency taskTimeout S) :
    S.inflight.keys.Nodup ∧ S.inflight.size ≤ taskConcurrency ∧
    ∀ e S', LeaseStep S e S' →
      (((S'.runs.drop S.runs.length).map LeaseRun.task).Nodup ∧
        ∀ run ∈ S'.runs.drop S.runs.length, run.task ∉ S.inflight.keys) ∧
      (∀ id r, S.inflight.get id = some r → S'.inflight.get id ≠ some r →
        ∃ run, S.runs[r]? = some run ∧ run.task = id ∧ run.ended = false ∧ run.abandoned = false ∧
          (e = .runEnds r ∨ ∃ now, e = .renewLeases now ∧ run.started + taskTimeout < now)) ∧
      (∀ (r : Nat) (run : LeaseRun), S.runs[r]? = some run → run.abandoned = true →
        e = .runEnds r → S'.inflight = S.inflight) ∧
      (∀ now, e = .renewLeases now → S'.inflight.keys ≠ [] →
        S'.renewed = S.renewed ++ [S'.inflight.keys]) := by
  have h := LeasesOk.of_reach hS
  refine ⟨S.inflight.nodup, ?_, fun e S' hs => ⟨hs.started h, ?_, ?_, ?_⟩⟩
  · have hsize := h.size
    rw [h.concurrency] at hsize
    omega
  · intro id r hget hlost
    obtain ⟨run, hr, htask, hleased⟩ := (h.entries id r).mp hget
    refine ⟨run, hr, htask, hleased.1, hleased.2, ?_⟩
    refine (hs.run_cases h hr).resolve_left fun hr' => ?_
    exact hlost (((h.step hs).entries id r).mpr ⟨run, hr', htask, hleased⟩)
  · rintro r run hr habandoned rfl
    cases hs with
    | runEnds _ run' hr' hended =>
      obtain rfl := Option.some.inj (hr'.symm.trans hr)
      refine if_neg fun hget => ?_
      obtain ⟨run₂, hr₂, -, hleased⟩ := (h.entries _ _).mp hget
      obtain rfl := Option.some.inj (hr₂.symm.trans hr)
      exact absurd (habandoned.symm.trans hleased.2) (by simp)
  · rintro now rfl hne
    cases hs with
    | renewLeases =>
      have hkeys : (S.abandonOverruns now).inflight.keys ≠ [] := by
        intro hempty
        refine hne ?_
        unfold LeaseState.renewLeases LeaseState.renewTasks
        rw [if_pos hempty]
        exact hempty
      unfold LeaseState.renewLeases LeaseState.renewTasks
      rw [if_neg hkeys]
      exact congrArg (· ++ _) renewed_abandonOverruns

end Steps

/-- A task is claimed, abandoned and claimed again; then its first run ends. -/
theorem lease_bookkeeping_of_run : ∃ S S' : LeaseState, LeaseReach 1 10 S ∧
    S.inflight.entries = [(⟨1, 0⟩, 1)] ∧ LeaseStep S (.runEnds 0) S' ∧
    S'.inflight = S.inflight := by
  have hreply : AutoClaimed 1 [some ⟨⟨1, 0⟩, some Room.a⟩] := ⟨le_rfl, by simp⟩
  have h₁ : LeaseReach 1 10 _ := LeaseReach.start.step (.claim _ rfl Nat.zero_lt_one)
  have h₂ := h₁.step (.claimed _ 1 _ (fun _ => 100) rfl hreply)
  have h₃ := h₂.step (.renewLeases _ 200)
  have h₄ := h₃.step (.claim _ rfl Nat.zero_lt_one)
  have h₅ := h₄.step (.claimed _ 1 _ (fun _ => 300) rfl hreply)
  obtain ⟨S, hS, hentries, hrun⟩ : ∃ S : LeaseState, LeaseReach 1 10 S ∧
      S.inflight.entries = [(⟨1, 0⟩, 1)] ∧
      S.runs[0]? = some ⟨⟨1, 0⟩, 100, Room.a, false, true⟩ := ⟨_, h₅, rfl, rfl⟩
  have hs := LeaseStep.runEnds S 0 _ hrun rfl
  exact ⟨S, _, hS, hentries, hs, ((lease_bookkeeping hS).2.2 _ _ hs).2.2.1 0 _ hrun rfl rfl⟩

end YHub
