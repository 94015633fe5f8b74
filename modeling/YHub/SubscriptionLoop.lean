import YHub.Subscription

/-!
# Who runs the subscription loop (`stream.js:308-358`, `stream.js:598-623`)

Every `subscribe` calls `_runSub`, which returns at once while `_subRunning` is set. Otherwise it
sets the flag, connects a client for the subscriptions if there is none yet, and loops as long as
somebody is subscribed. Only the end of the loop resets the flag. An error in a round of the loop is
logged, and the loop goes on after three seconds; an error before the loop ends the invocation.

A `SubscriptionLoop` is the two maps, the flag, whether there is a client, and how far each
invocation of `_runSub` is. `LoopRun` is its runs with the events that have happened.

* `executing_add_failures`: the invariant. The flag is set exactly if one invocation executes, or
  the client could not be created or connected.
* `loop_alive_iff`: the flag is set only while an invocation executes, and whenever somebody is
  subscribed, an invocation executes or the next `subscribe` starts one, exactly in the runs in
  which the client could be created and connected.
* `loop_switched_off`: a `connect` that is rejected.
-/

namespace YHub

/-! ## Invocations of `_runSub` -/

/-- Where an invocation is. -/
inductive RunPhase where
  /-- `await redisSubscriptions.connect()` -/
  | connecting
  /-- Before the condition of the `while`. -/
  | looping
  /-- `await this.getMessages(…)` -/
  | reading
  /-- `await promise.wait(3000)` -/
  | waiting
  | returned
  /-- It has ended with an error. -/
  | thrown
  deriving DecidableEq, Repr

/-- It executes its `connect` or its loop. -/
def RunPhase.isExecuting : RunPhase → Bool
  | .connecting | .looping | .reading | .waiting => true
  | .returned | .thrown => false

structure SubscriptionLoop where
  subUpdates : SubMap
  subs : SubMap
  subRunning : Bool
  /-- `redisSubscriptions` is not `null`. -/
  redisSubscriptions : Bool
  /-- The invocations, in the order of their calls. -/
  invocations : List RunPhase

namespace SubscriptionLoop

def empty : SubscriptionLoop := ⟨.empty, .empty, false, false, []⟩

/-- `this.subs.size > 0 || this.subUpdates.size > 0` -/
def Subscribed (S : SubscriptionLoop) : Prop :=
  (∃ room s, S.subs room = some s) ∨ ∃ room s, S.subUpdates room = some s

/-- The invocations that execute. -/
def executing (S : SubscriptionLoop) : Nat := S.invocations.countP RunPhase.isExecuting

/-- `_runSub` up to its first `await` or the condition of the `while`; `created` is whether
`createClient` returns. -/
def runSub (created : Bool) (S : SubscriptionLoop) : SubscriptionLoop :=
  if S.subRunning then { S with invocations := S.invocations ++ [.returned] }
  else
    { S with
      subRunning := true
      invocations := S.invocations ++
        [if S.redisSubscriptions then .looping else if created then .connecting else .thrown] }

def subscribe (room : Room) (k : Nat) (lastReceivedClock : Clock) (created : Bool)
    (S : SubscriptionLoop) : SubscriptionLoop :=
  runSub created { S with subUpdates := S.subUpdates.subscribe room k lastReceivedClock }

def unsubscribe (room : Room) (k : Nat) (S : SubscriptionLoop) : SubscriptionLoop := { S with
  subUpdates := S.subUpdates.unsubscribe room k
  subs := S.subs.unsubscribe room k }

/-- The `i`-th invocation goes on to `p`. -/
def goto (i : Nat) (p : RunPhase) (S : SubscriptionLoop) : SubscriptionLoop := { S with
  invocations := S.invocations.set i p }

/-- The `i`-th invocation is at `p`. -/
def At (S : SubscriptionLoop) (i : Nat) (p : RunPhase) : Prop := S.invocations[i]? = some p

/-- A call of `subscribe` whose client, if it needs one, can be created starts an invocation. -/
def NextStarts (S : SubscriptionLoop) : Prop :=
  ∀ room k c, ∃ p, (S.subscribe room k c true).At S.invocations.length p ∧ p.isExecuting = true

end SubscriptionLoop

/-! ## Events -/

inductive LoopEvent where
  | subscribe (room : Room) (k : Nat) (lastReceivedClock : Clock)
  /-- A call of `subscribe` for which `createClient` throws. -/
  | createFails (room : Room) (k : Nat) (lastReceivedClock : Clock)
  | connected (i : Nat)
  | connectFails (i : Nat)
  | round (i : Nat)
  | exit (i : Nat)
  | reply (i : Nat) (ids : Room → Option StreamId)
  /-- The read is rejected, or handing over fails when `ids` have been handed over. -/
  | readFails (i : Nat) (ids : Room → Option StreamId)
  | waited (i : Nat)
  | unsubscribe (room : Room) (k : Nat)

/-- The client could not be created or connected. -/
def LoopEvent.isFailure : LoopEvent → Bool
  | .createFails .. | .connectFails _ => true
  | _ => false

open LoopEvent in
inductive LoopStep : SubscriptionLoop → LoopEvent → SubscriptionLoop → Prop
  | subscribe (S : SubscriptionLoop) (room : Room) (k : Nat) (c : Clock) :
      LoopStep S (subscribe room k c) (S.subscribe room k c true)
  | createFails (S : SubscriptionLoop) (room : Room) (k : Nat) (c : Clock)
      (hrunning : S.subRunning = false) (hclient : S.redisSubscriptions = false) :
      LoopStep S (createFails room k c) (S.subscribe room k c false)
  | connected (S : SubscriptionLoop) (i : Nat) (h : S.At i .connecting) :
      LoopStep S (connected i) { S.goto i .looping with redisSubscriptions := true }
  | connectFails (S : SubscriptionLoop) (i : Nat) (h : S.At i .connecting) :
      LoopStep S (connectFails i) (S.goto i .thrown)
  | round (S : SubscriptionLoop) (i : Nat) (h : S.At i .looping) (hsubs : S.Subscribed) :
      LoopStep S (round i) { S.goto i .reading with
        subs := S.subs.takeOver S.subUpdates, subUpdates := .empty }
  | exit (S : SubscriptionLoop) (i : Nat) (h : S.At i .looping) (hsubs : ¬ S.Subscribed) :
      LoopStep S (exit i) { S.goto i .returned with subRunning := false }
  | reply (S : SubscriptionLoop) (i : Nat) (ids : Room → Option StreamId) (h : S.At i .reading) :
      LoopStep S (reply i ids) { S.goto i .looping with subs := S.subs.received ids }
  | readFails (S : SubscriptionLoop) (i : Nat) (ids : Room → Option StreamId)
      (h : S.At i .reading) :
      LoopStep S (readFails i ids) { S.goto i .waiting with subs := S.subs.received ids }
  | waited (S : SubscriptionLoop) (i : Nat) (h : S.At i .waiting) :
      LoopStep S (waited i) (S.goto i .looping)
  | unsubscribe (S : SubscriptionLoop) (room : Room) (k : Nat) :
      LoopStep S (unsubscribe room k) (S.unsubscribe room k)

/-- The runs from the start, with their events. -/
inductive LoopRun : List LoopEvent → SubscriptionLoop → Prop
  | start : LoopRun [] .empty
  | step {es : List LoopEvent} {S S' : SubscriptionLoop} (e : LoopEvent) (h : LoopRun es S)
      (hstep : LoopStep S e S') : LoopRun (es ++ [e]) S'

/-! ## The flag -/

namespace SubscriptionLoop

variable {S : SubscriptionLoop} {i : Nat} {p q : RunPhase}

theorem executing_pos_iff :
    0 < S.executing ↔ ∃ p ∈ S.invocations, RunPhase.isExecuting p = true :=
  List.countP_pos_iff

/-- An invocation that goes on. -/
theorem executing_goto (h : S.At i p) :
    (S.goto i q).executing + p.isExecuting.toNat = S.executing + q.isExecuting.toNat := by
  obtain ⟨hi, rfl⟩ := List.getElem?_eq_some_iff.mp h
  unfold executing goto
  rw [List.countP_set hi]
  cases hp : S.invocations[i].isExecuting with
  | false => cases q.isExecuting <;> simp
  | true =>
    have hpos : 0 < S.invocations.countP RunPhase.isExecuting :=
      List.countP_pos_iff.mpr ⟨_, List.getElem_mem hi, hp⟩
    cases q.isExecuting <;> simp <;> omega

/-- An invocation that executes counts. -/
theorem executing_pos (h : S.At i p) (hp : p.isExecuting = true) : 0 < S.executing :=
  executing_pos_iff.mpr ⟨p, List.mem_of_getElem? h, hp⟩

theorem executing_append {l : List RunPhase} (h : S.invocations = l ++ [p]) :
    S.executing = l.countP RunPhase.isExecuting + p.isExecuting.toNat := by
  unfold executing
  rw [h, List.countP_append, List.countP_singleton]
  cases p.isExecuting <;> rfl

theorem subRunning_runSub (created : Bool) : (S.runSub created).subRunning = true := by
  unfold runSub
  split
  · next h => exact h
  · rfl

/-- A call starts an invocation that executes, unless the flag is set or there is no client. -/
theorem executing_runSub (created : Bool) :
    (S.runSub created).executing + S.subRunning.toNat =
      S.executing + (S.subRunning || S.redisSubscriptions || created).toNat := by
  unfold runSub
  cases S.subRunning with
  | true =>
    rw [if_pos rfl, executing_append (l := S.invocations) rfl]
    rfl
  | false =>
    rw [if_neg Bool.false_ne_true, executing_append (l := S.invocations) rfl]
    cases S.redisSubscriptions <;> cases created <;> rfl

theorem subRunning_subscribe (room : Room) (k : Nat) (c : Clock) (created : Bool) :
    (S.subscribe room k c created).subRunning = true :=
  subRunning_runSub created

theorem executing_subscribe (room : Room) (k : Nat) (c : Clock) (created : Bool) :
    (S.subscribe room k c created).executing + S.subRunning.toNat =
      S.executing + (S.subRunning || S.redisSubscriptions || created).toNat :=
  executing_runSub (S := { S with subUpdates := S.subUpdates.subscribe room k c }) created

theorem subUpdates_runSub (created : Bool) : (S.runSub created).subUpdates = S.subUpdates := by
  unfold runSub
  split <;> rfl

theorem subscribed_subscribe (room : Room) (k : Nat) (c : Clock) (created : Bool) :
    (S.subscribe room k c created).Subscribed := by
  refine Or.inr ⟨room, ?_⟩
  unfold subscribe
  rw [subUpdates_runSub]
  exact ⟨_, Function.update_self _ _ _⟩

/-- The next call of `subscribe` starts an invocation exactly if the flag is not set. -/
theorem nextStarts_iff : S.NextStarts ↔ S.subRunning = false := by
  unfold NextStarts subscribe runSub At
  cases S.subRunning with
  | true =>
    refine iff_of_false (fun h => ?_) (by simp)
    obtain ⟨p, hp, hexec⟩ := h .a 0 .zero
    obtain rfl : RunPhase.returned = p := by simpa using hp
    exact absurd hexec (by decide)
  | false =>
    refine iff_of_true (fun room k c => ?_) rfl
    cases S.redisSubscriptions with
    | true => exact ⟨.looping, by simp, rfl⟩
    | false => exact ⟨.connecting, by simp, rfl⟩

end SubscriptionLoop

/-- The failures of a run. -/
def failures (es : List LoopEvent) : Nat := es.countP LoopEvent.isFailure

theorem failures_append (es : List LoopEvent) (e : LoopEvent) :
    failures (es ++ [e]) = failures es + e.isFailure.toNat := by
  unfold failures
  rw [List.countP_append, List.countP_singleton]
  cases e.isFailure <;> rfl

open SubscriptionLoop in
/-- **One step** keeps the balance: the flag is set by an invocation that executes, or by one that
has failed. -/
theorem LoopStep.executing {S S' : SubscriptionLoop} {e : LoopEvent} {n : Nat}
    (h : LoopStep S e S') (hn : S.executing + n = S.subRunning.toNat) :
    S'.executing + (n + e.isFailure.toNat) = S'.subRunning.toNat := by
  -- an invocation that executes accounts for the flag
  have hset {i : Nat} {p : RunPhase} (h : S.At i p) (hp : p.isExecuting = true) :
      S.executing = 1 ∧ n = 0 ∧ S.subRunning = true := by
    have hpos := executing_pos h hp
    have hle := Bool.toNat_le S.subRunning
    have hr : S.subRunning.toNat = 1 := by omega
    exact ⟨by omega, by omega, by simpa using hr⟩
  -- one that goes on executing keeps everything
  have hgo {i : Nat} {p : RunPhase} (q : RunPhase) (h : S.At i p) (hp : p.isExecuting = true)
      (hq : q.isExecuting = true) : (S.goto i q).executing + n = S.subRunning.toNat := by
    have hgoto := executing_goto (q := q) h
    rw [hp, hq] at hgoto
    omega
  cases h with
  | subscribe room k c =>
    have hsub := executing_subscribe (S := S) room k c true
    simp only [Bool.or_true, Bool.toNat_true] at hsub
    simp only [subRunning_subscribe, LoopEvent.isFailure, Bool.toNat_true, Bool.toNat_false]
    omega
  | createFails room k c hrunning hclient =>
    have hsub := executing_subscribe (S := S) room k c false
    simp only [hrunning, hclient, Bool.or_false, Bool.toNat_false] at hsub hn
    simp only [subRunning_subscribe, LoopEvent.isFailure, Bool.toNat_true]
    omega
  | connected i h => exact hgo .looping h rfl rfl
  | connectFails i h =>
    obtain ⟨hone, rfl, hr⟩ := hset h rfl
    have hgoto : (S.goto i .thrown).executing + 1 = S.executing + 0 := executing_goto h
    have hrun : (S.goto i .thrown).subRunning.toNat = 1 := by simp [goto, hr]
    simp only [LoopEvent.isFailure, Bool.toNat_true]
    omega
  | round i h hsubs => exact hgo .reading h rfl rfl
  | exit i h hsubs =>
    obtain ⟨hone, rfl, -⟩ := hset h rfl
    have hgoto : (S.goto i .returned).executing + 1 = S.executing + 0 := executing_goto h
    have hzero : (S.goto i .returned).executing = 0 := by omega
    exact hzero
  | reply i ids h => exact hgo .looping h rfl rfl
  | readFails i ids h => exact hgo .waiting h rfl rfl
  | waited i h => exact hgo .looping h rfl rfl
  | unsubscribe room k => exact hn

open SubscriptionLoop in
/-- **Every run.** The flag is set exactly if one invocation executes or one has failed, and never
do two of them. -/
theorem executing_add_failures {es : List LoopEvent} {S : SubscriptionLoop} (h : LoopRun es S) :
    S.executing + failures es = S.subRunning.toNat := by
  induction h with
  | start => rfl
  | step e _ hstep ih =>
    rw [failures_append]
    exact hstep.executing ih

/-! ## The loop cannot be switched off -/

/-- **The subscription loop** is alive exactly in the runs in which the client could be created and
connected: `_subRunning` is set only while an invocation executes, and whenever somebody is
subscribed, an invocation executes or the next call of `subscribe` starts one. -/
theorem loop_alive_iff {es : List LoopEvent} {S : SubscriptionLoop} (h : LoopRun es S) :
    ((S.subRunning = true → ∃ p ∈ S.invocations, RunPhase.isExecuting p = true) ↔
        ∀ e ∈ es, e.isFailure = false) ∧
      (S.Subscribed → (((∃ p ∈ S.invocations, RunPhase.isExecuting p = true) ∨ S.NextStarts) ↔
        ∀ e ∈ es, e.isFailure = false)) := by
  have hbalance := executing_add_failures h
  have hnone : (∀ e ∈ es, e.isFailure = false) ↔ failures es = 0 := by
    unfold failures
    rw [List.countP_eq_zero]
    exact forall₂_congr fun e _ => by simp
  rw [← SubscriptionLoop.executing_pos_iff, SubscriptionLoop.nextStarts_iff, hnone]
  cases hr : S.subRunning with
  | true =>
    rw [hr, Bool.toNat_true] at hbalance
    refine ⟨⟨fun hexec => ?_, fun hzero _ => ?_⟩, fun _ => ⟨fun hexec => ?_, fun hzero => ?_⟩⟩
    · have := hexec rfl
      omega
    · omega
    · rcases hexec with hexec | hexec
      · omega
      · exact absurd hexec (by simp)
    · exact Or.inl (by omega)
  | false =>
    rw [hr, Bool.toNat_false] at hbalance
    have hzero : failures es = 0 := by omega
    exact ⟨iff_of_true (fun h => absurd h (by simp)) hzero,
      fun _ => iff_of_true (Or.inr rfl) hzero⟩

theorem loop_alive_iff_of_connected :
    ∃ S : SubscriptionLoop, S.Subscribed ∧ S.At 0 .looping ∧
      ((∃ p ∈ S.invocations, RunPhase.isExecuting p = true) ∨ S.NextStarts) := by
  have hsub := LoopRun.start.step _ (.subscribe .empty .a 0 .zero)
  have hrun := hsub.step _ (.connected _ 0 rfl)
  have hne := SubscriptionLoop.subscribed_subscribe (S := .empty) .a 0 .zero true
  refine ⟨_, ?_, ?_, ((loop_alive_iff hrun).2 hne).mpr ?_⟩
  · exact hne
  · rfl
  · intro e he
    obtain rfl | rfl : e = .subscribe .a 0 .zero ∨ e = .connected 0 := by simpa using he
    · rfl
    · rfl

/-- **The loop is switched off.** Somebody subscribes and the connection is rejected. The flag
stays, and so the next `subscribe` returns at once. -/
theorem loop_switched_off :
    ¬ ∀ es S, LoopRun es S → S.Subscribed →
      (∃ p ∈ S.invocations, RunPhase.isExecuting p = true) ∨ S.NextStarts := by
  intro h
  have hsub := LoopRun.start.step _ (.subscribe .empty .a 0 .zero)
  have hrun := hsub.step _ (.connectFails _ 0 rfl)
  have hne := SubscriptionLoop.subscribed_subscribe (S := .empty) .a 0 .zero true
  rcases h _ _ hrun hne with ⟨p, hp, hexec⟩ | hstarts
  · obtain rfl : p = .thrown := List.mem_singleton.mp hp
    exact absurd hexec (by decide)
  · exact absurd (SubscriptionLoop.nextStarts_iff.mp hstarts) (by decide)

end YHub
