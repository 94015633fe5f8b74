import YHub.Operations

/-!
# The ids a live key gives

`getDoc`'s filter and every subscriber's `lastReceivedClock` take for granted that an entry added
later to the live key of a room has the larger id. `XADD *` keeps to that on one key; a key that
is deleted or renamed away forgets its last id, and the next one starts from the current
millisecond. `clearMessages` is written as `XTRIM` for this reason ("`DEL` resets the stream's
`last_id`, so the next entry can be assigned an id that sorts below the clock a subscriber already
advanced past within the same millisecond"). `quarantine` renames the key, though, and
`trimMessages` deletes an empty one.

`idsGiven` lists the ids that the entries of a room's live key are given along a run of operations.

* `exec_live_cases`: what one operation can do to the key.
* `mem_idsGiven`: every entry of the live key has one of these ids.
* `idsGiven_increasing_iff`: they increase strictly if and only if every operation that starts the
  key afresh (`Restarts`) runs in a millisecond later than that of every id given before.
* `quarantine_repeats_ids`: entries of the live key with the same ids, a `quarantine` between them.
-/

namespace YHub

variable {β : Type}

/-! ## The ids along a run -/

/-- The ids that `addMessage` gives one message after the other. -/
def idsOfMessages (now : Nat) (room : Room) : List (Message β) → Redis (Message β) → List StreamId
  | [], _ => []
  | m :: ms, r =>
    RedisStream.nextId now (r.live room) :: idsOfMessages now room ms (addMessage now room m r)

/-- The ids an operation gives to new entries of the live key of `room`. The `nop` of a
`quarantine` is the first entry of a key that has just been renamed away. -/
def Op.idsGiven (room : Room) (now : Nat) (o : Op β) (r : Redis (Message β)) : List StreamId :=
  if room = o.room then
    match o with
    | .addMessage _ m => idsOfMessages now room [m] r
    | .quarantine _ _ => [RedisStream.nextId now (none : Option (RedisStream (Message β)))]
    | .unquarantine _ _ entries => idsOfMessages now room (reinjected entries) r
    | _ => []
  else []

/-- The ids given along a run, a list of operations with the redis time each one runs at. -/
def idsGiven (room : Room) : List (Nat × Op β) → Redis (Message β) → List StreamId
  | [], _ => []
  | (now, o) :: run, r => o.idsGiven room now r ++ idsGiven room run (o.exec now r)

/-- The state a run ends in. -/
def runOps : List (Nat × Op β) → Redis (Message β) → Redis (Message β)
  | [], r => r
  | (now, o) :: run, r => runOps run (o.exec now r)

/-- The operation starts the live key of `room` afresh: a `quarantine` with its `nop`, or a write
to a key that does not exist. -/
def Restarts (room : Room) (o : Op β) (r : Redis (Message β)) : Prop :=
  room = o.room ∧
    match o with
    | .addMessage _ _ => r.live room = none
    | .quarantine _ _ => True
    | .unquarantine _ _ entries => r.live room = none ∧ reinjected entries ≠ []
    | _ => False

/-- Every restart of the key in a run is in a millisecond later than those of the ids given
before, `seen` the ones from before the run. -/
def RestartsLate (room : Room) : List StreamId → List (Nat × Op β) → Redis (Message β) → Prop
  | _, [], _ => True
  | seen, (now, o) :: run, r =>
    (Restarts room o r → ∀ i ∈ seen, i.ms < now) ∧
      RestartsLate room (seen ++ o.idsGiven room now r) run (o.exec now r)

/-! ## The last id of the key -/

section Track

variable {μ : Type} {now : Nat} {s : Option (RedisStream μ)} {seen : List StreamId}

/-- What is known of the key after the ids `seen`, at redis time `now`: they increase, and while
the key exists its last id is none below them. -/
structure Track (now : Nat) (s : Option (RedisStream μ)) (seen : List StreamId) : Prop where
  sorted : seen.Pairwise (· < ·)
  seen_le : ∀ i ∈ seen, .zero < i ∧ i.ms ≤ now
  last_le : ∀ k, s = some k → k.lastId.ms ≤ now ∧ ∀ i ∈ seen, i ≤ k.lastId

theorem Track.later {now' : Nat} (h : Track now s seen) (hle : now ≤ now') :
    Track now' s seen := by
  refine ⟨h.sorted, fun i hi => ?_, fun k hk => ?_⟩
  · obtain ⟨hz, hms⟩ := h.seen_le i hi
    exact ⟨hz, hms.trans hle⟩
  · obtain ⟨hms, hlast⟩ := h.last_le k hk
    exact ⟨hms.trans hle, hlast⟩

/-- A key without new entries: it is gone, or has its last id and some of its entries. -/
def Shrinks (s s' : Option (RedisStream μ)) : Prop :=
  ∀ k', s' = some k' → ∃ k, s = some k ∧ k'.lastId = k.lastId ∧ k'.entries ⊆ k.entries

theorem Shrinks.refl : Shrinks s s := fun k hk => ⟨k, hk, rfl, List.Subset.refl _⟩

theorem shrinks_none : Shrinks s none := fun _ hk => absurd hk (by simp)

theorem Track.shrink {s' : Option (RedisStream μ)} (h : Track now s seen) (hs : Shrinks s s') :
    Track now s' seen := by
  refine ⟨h.sorted, h.seen_le, fun k' hk' => ?_⟩
  obtain ⟨k, hk, hlast, -⟩ := hs k' hk'
  rw [hlast]
  exact h.last_le k hk

theorem Track.lt_nextId (h : Track now s seen) (hfresh : s = none → ∀ i ∈ seen, i.ms < now) :
    ∀ i ∈ seen, i < RedisStream.nextId now s := by
  intro i hi
  cases s with
  | none =>
    have hlt := hfresh rfl i hi
    have hle := StreamId.le_ms_next now .zero
    exact Or.inl (lt_of_lt_of_le hlt hle)
  | some k =>
    obtain ⟨-, hlast⟩ := h.last_le k rfl
    exact (hlast i hi).trans_lt (StreamId.lt_next now k.lastId)

/-- An `XADD` on the key, when the key exists or no id of this millisecond has been given. -/
theorem Track.xadd (h : Track now s seen) (hfresh : s = none → ∀ i ∈ seen, i.ms < now)
    (f : Field μ) :
    Track now (some (RedisStream.xadd now f s)) (seen ++ [RedisStream.nextId now s]) := by
  have hlt := h.lt_nextId hfresh
  have hms : (RedisStream.nextId now s).ms ≤ now := by
    refine StreamId.ms_next_le ?_
    cases s with
    | none => exact Nat.zero_le now
    | some k => exact (h.last_le k rfl).1
  refine ⟨?_, fun i hi => ?_, ?_⟩
  · rw [List.pairwise_append]
    refine ⟨h.sorted, List.pairwise_singleton _ _, fun i hi j hj => ?_⟩
    rw [List.mem_singleton.mp hj]
    exact hlt i hi
  · rcases List.mem_append.mp hi with hi | hi
    · exact h.seen_le i hi
    · rw [List.mem_singleton.mp hi]
      exact ⟨RedisStream.zero_lt_nextId now s, hms⟩
  · rintro k hk
    obtain rfl := Option.some.inj hk
    refine ⟨hms, fun i hi => ?_⟩
    rcases List.mem_append.mp hi with hi | hi
    · exact (hlt i hi).le
    · rw [List.mem_singleton.mp hi]
      exact le_refl _

/-- The first id of a key that starts afresh in the millisecond of an earlier one is not above
it. -/
theorem not_sorted_of_restart (hseen : ∀ i ∈ seen, StreamId.zero < i ∧ i.ms ≤ now)
    {rest : List StreamId} (hlate : ¬ ∀ i ∈ seen, i.ms < now) :
    ¬ (seen ++ RedisStream.nextId now (none : Option (RedisStream μ)) :: rest).Pairwise
      (· < ·) := by
  intro hsorted
  refine hlate fun i hi => ?_
  have hlt := (List.pairwise_append.mp hsorted).2.2 i hi _ List.mem_cons_self
  obtain ⟨hz, hms⟩ := hseen i hi
  rw [StreamId.lt_def] at hlt hz
  have hid : RedisStream.nextId now (none : Option (RedisStream μ)) =
      if 0 < now then ⟨now, 0⟩ else ⟨0, 1⟩ := rfl
  rw [hid] at hlt
  simp only [StreamId.zero] at hz
  by_cases hnow : 0 < now
  · simp only [if_pos hnow] at hlt
    omega
  · simp only [if_neg hnow] at hlt
    omega

end Track

/-! ## Each operation -/

variable {now : Nat} {room : Room} {r : Redis (Message β)} {seen : List StreamId}

/-- A batch of `addMessage`. -/
theorem Track.messages (h : Track now (r.live room) seen) (ms : List (Message β))
    (hfresh : r.live room = none → ms ≠ [] → ∀ i ∈ seen, i.ms < now) :
    Track now ((ms.foldl (fun r m => addMessage now room m r) r).live room)
      (seen ++ idsOfMessages now room ms r) := by
  induction ms generalizing r seen with
  | nil => simpa [idsOfMessages] using h
  | cons m ms ih =>
    have hx := h.xadd (fun hl => hfresh hl (List.cons_ne_nil m ms)) (.m m)
    rw [← addMessage_live] at hx
    have hrest := ih hx fun hl => by
      rw [addMessage_live] at hl
      exact absurd hl (by simp)
    rw [List.foldl_cons, idsOfMessages]
    simpa using hrest

theorem shrinks_trimStream {μ : Type} (s : Option (RedisStream μ)) (minId : List Char)
    (maxAgeMs : JsNumber) (acked : Bool) : Shrinks s (trimStream now minId maxAgeMs acked s) := by
  rcases trimStream_cases now minId maxAgeMs acked s with he | ⟨b, he⟩
  · rw [he]
    exact Shrinks.refl
  · rw [he]
    intro k' hk'
    cases s with
    | none => exact absurd hk' (by simp [RedisStream.trimKey])
    | some k =>
      refine ⟨k, rfl, ?_⟩
      simp only [RedisStream.trimKey] at hk'
      split at hk'
      · exact absurd hk' (by simp)
      · rw [← Option.some.inj hk']
        exact ⟨rfl, List.dropWhile_sublist _ |>.subset⟩

/-- **What an operation does to the live key of a room**: it gives no new id; or it is a
`quarantine`, which leaves a new key; or it adds messages, and starts the key afresh if there was
none and there are any. -/
theorem exec_live_cases (now : Nat) (room : Room) (o : Op β) (r : Redis (Message β)) :
    (o.idsGiven room now r = [] ∧ ¬ Restarts room o r ∧
      Shrinks (r.live room) ((o.exec now r).live room)) ∨
    (o.idsGiven room now r = [RedisStream.nextId now (none : Option (RedisStream (Message β)))] ∧
      Restarts room o r ∧ (o.exec now r).live room = some (.xadd now .nop none)) ∨
    ∃ ms, o.idsGiven room now r = idsOfMessages now room ms r ∧
      (Restarts room o r ↔ r.live room = none ∧ ms ≠ []) ∧
      (o.exec now r).live room =
        (ms.foldl (fun r m => addMessage now room m r) r).live room := by
  by_cases hr : room = o.room
  · cases o with
    | addMessage room' m =>
      obtain rfl : room = room' := hr
      refine Or.inr (Or.inr ⟨[m], if_pos rfl, ?_, rfl⟩)
      exact ⟨fun h => ⟨h.2, List.cons_ne_nil m []⟩, fun h => ⟨rfl, h.1⟩⟩
    | trimMessages room' minId maxAgeMs taskid =>
      obtain rfl : room = room' := hr
      refine Or.inl ⟨if_pos rfl, fun h => h.2, ?_⟩
      cases taskid with
      | none => exact Shrinks.refl
      | some id =>
        simp only [Op.exec, Redis.live, trimMessages_keys, Function.update_self]
        exact shrinks_trimStream _ minId maxAgeMs _
    | disableCompaction room' => exact Or.inl ⟨if_pos hr, fun h => h.2, Shrinks.refl⟩
    | enableCompaction room' =>
      refine Or.inl ⟨if_pos hr, fun h => h.2, ?_⟩
      simp only [Op.exec, YHub.enableCompaction]
      split <;> exact Shrinks.refl
    | clearMessages room' =>
      obtain rfl : room = room' := hr
      refine Or.inl ⟨if_pos rfl, fun h => h.2, fun k' hk' => ?_⟩
      simp only [Op.exec, clearMessages_live, Option.map_eq_some_iff] at hk'
      obtain ⟨k, hk, rfl⟩ := hk'
      exact ⟨k, hk, rfl, List.nil_subset _⟩
    | quarantine room' qid =>
      obtain rfl : room = room' := hr
      exact Or.inr (Or.inl ⟨if_pos rfl, ⟨rfl, trivial⟩, quarantineMulti_live now room r qid⟩)
    | quarantineCleanup room' =>
      obtain rfl : room = room' := hr
      refine Or.inl ⟨if_pos rfl, fun h => h.2, ?_⟩
      simp only [Op.exec, quarantineCleanup_live]
      exact shrinks_none
    | unquarantine room' qid entries =>
      obtain rfl : room = room' := hr
      refine Or.inr (Or.inr ⟨reinjected entries, if_pos rfl, ?_,
        unquarantineMulti_live now room qid entries r⟩)
      exact ⟨fun h => h.2, fun h => ⟨rfl, h⟩⟩
    | deleteQuarantineStreams room' qids =>
      refine Or.inl ⟨if_pos hr, fun h => h.2, ?_⟩
      simp only [Op.exec, Redis.live, deleteQuarantineStreams_keys]
      simpa using Shrinks.refl
  · refine Or.inl ⟨if_neg hr, fun h => hr h.1, ?_⟩
    rw [Op.exec_live_of_ne hr]
    exact Shrinks.refl

/-- **The step lemma.** A step that does not restart the key too early keeps the ids increasing. -/
theorem Track.step {now' : Nat} {o : Op β} (h : Track now' (r.live room) seen) (hle : now' ≤ now)
    (hlate : Restarts room o r → ∀ i ∈ seen, i.ms < now) :
    Track now ((o.exec now r).live room) (seen ++ o.idsGiven room now r) := by
  have h := h.later hle
  rcases exec_live_cases now room o r with ⟨hids, -, hs⟩ | ⟨hids, hr, hlive⟩ |
    ⟨ms, hids, hr, hlive⟩
  · rw [hids, List.append_nil]
    exact h.shrink hs
  · rw [hids, hlive]
    exact (h.shrink shrinks_none).xadd (fun _ => hlate hr) .nop
  · rw [hids, hlive]
    exact h.messages ms fun hl hne => hlate (hr.mpr ⟨hl, hne⟩)

/-- A restart in the millisecond of an earlier id gives ids that do not increase. -/
theorem not_sorted_of_early_restart {o : Op β}
    (hseen : ∀ i ∈ seen, StreamId.zero < i ∧ i.ms ≤ now) {rest : List StreamId}
    (hearly : ¬ (Restarts room o r → ∀ i ∈ seen, i.ms < now)) :
    ¬ (seen ++ o.idsGiven room now r ++ rest).Pairwise (· < ·) := by
  rw [Classical.not_imp] at hearly
  obtain ⟨hrestart, hearly⟩ := hearly
  -- the first id given is that of a key without a last id
  have hfirst : ∃ more, o.idsGiven room now r =
      RedisStream.nextId now (none : Option (RedisStream (Message β))) :: more := by
    rcases exec_live_cases now room o r with ⟨-, hr, -⟩ | ⟨hids, -⟩ | ⟨ms, hids, hr, -⟩
    · exact absurd hrestart hr
    · exact ⟨[], hids⟩
    · obtain ⟨hl, hne⟩ := hr.mp hrestart
      obtain ⟨m, ms, rfl⟩ := List.exists_cons_of_ne_nil hne
      rw [hids, idsOfMessages, hl]
      exact ⟨_, rfl⟩
  obtain ⟨more, hmore⟩ := hfirst
  rw [hmore, List.append_assoc, List.cons_append]
  exact not_sorted_of_restart hseen hearly

/-! ## Runs -/

/-- The run lemma: from a state that keeps track of the ids `seen`. -/
theorem idsGiven_sorted_iff (run : List (Nat × Op β)) (h : Track now (r.live room) seen)
    (htime : (now :: run.map Prod.fst).Pairwise (· ≤ ·)) :
    (seen ++ idsGiven room run r).Pairwise (· < ·) ↔ RestartsLate room seen run r := by
  induction run generalizing now r seen with
  | nil => simp [idsGiven, RestartsLate, h.sorted]
  | cons x run ih =>
    obtain ⟨t, o⟩ := x
    simp only [List.map_cons] at htime
    have hle : now ≤ t := (List.pairwise_cons.mp htime).1 t List.mem_cons_self
    have htime' := (List.pairwise_cons.mp htime).2
    simp only [idsGiven, RestartsLate, ← List.append_assoc]
    by_cases hlate : Restarts room o r → ∀ i ∈ seen, i.ms < t
    · rw [ih (h.step hle hlate) htime']
      exact ⟨fun hrest => ⟨hlate, hrest⟩, fun hrest => hrest.2⟩
    · refine iff_of_false (not_sorted_of_early_restart (fun i hi => ?_) hlate) fun hn =>
        hlate hn.1
      obtain ⟨hz, hms⟩ := h.seen_le i hi
      exact ⟨hz, hms.trans hle⟩

/-! ## The entries have these ids -/

/-- The ids of the entries of a key. -/
def entryIds {μ : Type} (s : Option (RedisStream μ)) : List StreamId :=
  (RedisStream.entriesOf s).map Entry.id

theorem entryIds_messages (now : Nat) (room : Room) (ms : List (Message β))
    (r : Redis (Message β)) :
    entryIds ((ms.foldl (fun r m => addMessage now room m r) r).live room) =
      entryIds (r.live room) ++ idsOfMessages now room ms r := by
  induction ms generalizing r with
  | nil => simp [idsOfMessages]
  | cons m ms ih =>
    rw [List.foldl_cons, ih, idsOfMessages, entryIds, addMessage_entries]
    simp [entryIds]

theorem Shrinks.entryIds {μ : Type} {s s' : Option (RedisStream μ)} (h : Shrinks s s') :
    entryIds s' ⊆ entryIds s := by
  cases s' with
  | none => exact List.nil_subset _
  | some k' =>
    obtain ⟨k, rfl, -, hsub⟩ := h k' rfl
    exact List.map_subset _ hsub

/-- An operation leaves entries with old ids and with the ids it gives. -/
theorem entryIds_step (now : Nat) (room : Room) (o : Op β) (r : Redis (Message β)) :
    entryIds ((o.exec now r).live room) ⊆ entryIds (r.live room) ++ o.idsGiven room now r := by
  rcases exec_live_cases now room o r with ⟨hids, -, hs⟩ | ⟨hids, -, hlive⟩ |
    ⟨ms, hids, -, hlive⟩
  · rw [hids, List.append_nil]
    exact hs.entryIds
  · rw [hids, hlive]
    exact List.subset_append_right _ _
  · rw [hids, hlive, entryIds_messages]
    exact List.Subset.refl _

/-- **Every entry a run leaves under the live key has an id the run gave**, or one the key held
before. -/
theorem mem_idsGiven (room : Room) (run : List (Nat × Op β)) (r : Redis (Message β)) :
    entryIds ((runOps run r).live room) ⊆ entryIds (r.live room) ++ idsGiven room run r := by
  induction run generalizing r with
  | nil => exact List.subset_append_left _ _
  | cons x run ih =>
    obtain ⟨now, o⟩ := x
    intro i hi
    rw [idsGiven, ← List.append_assoc]
    rcases List.mem_append.mp (ih (o.exec now r) hi) with h | h
    · exact List.mem_append_left _ (entryIds_step now room o r h)
    · exact List.mem_append_right _ h

/-! ## The ids of a run -/

/-- **When the ids of a room's live key increase.** Along every run with a redis clock that never
goes back, the ids given to the entries of the live key increase strictly if and only if every
restart of the key is in a later millisecond than every id given before. Whatever the key holds
then has one of these ids. -/
theorem idsGiven_increasing_iff (room : Room) (run : List (Nat × Op β))
    (htime : (run.map Prod.fst).Pairwise (· ≤ ·)) :
    ((idsGiven room run Redis.empty).Pairwise (· < ·) ↔
      RestartsLate room [] run (Redis.empty : Redis (Message β))) ∧
    entryIds ((runOps run (Redis.empty : Redis (Message β))).live room) ⊆
      idsGiven room run Redis.empty := by
  have h : Track 0 ((Redis.empty : Redis (Message β)).live room) [] :=
    ⟨List.Pairwise.nil, fun i hi => absurd hi List.not_mem_nil, fun k hk => absurd hk (by
      simp [Redis.empty, Redis.live])⟩
  refine ⟨idsGiven_sorted_iff run h (List.pairwise_cons.mpr ⟨?_, htime⟩),
    mem_idsGiven room run Redis.empty⟩
  exact fun t _ => Nat.zero_le t

/-- The condition is met when the second write comes a millisecond after the `quarantine`. -/
theorem idsGiven_increasing_of_late_restart :
    (idsGiven Room.a [(1000, .addMessage Room.a (.tombstone : Message Unit)),
      (1001, .quarantine Room.a "q"), (1001, .addMessage Room.a .tombstone)] Redis.empty).Pairwise
        (· < ·) := by
  rw [(idsGiven_increasing_iff Room.a _ (by decide)).1]
  refine ⟨fun _ i hi => absurd hi List.not_mem_nil, ?_, ?_, trivial⟩
  · rintro - i hi
    have : i = RedisStream.nextId 1000 (none : Option (RedisStream (Message Unit))) := by
      simpa [Op.idsGiven, Op.room, idsOfMessages, Redis.empty, Redis.live] using hi
    rw [this]
    decide
  · rintro ⟨-, hgone⟩
    exact absurd hgone (by decide)

/-- Two writes, a `quarantine` and a write, all in one millisecond. -/
def sameMillisecond : List (Nat × Op Unit) :=
  [(1000, .addMessage Room.a .tombstone), (1000, .addMessage Room.a .tombstone),
    (1000, .quarantine Room.a "q"), (1000, .addMessage Room.a .tombstone)]

/-- **A `quarantine` makes the live key give ids twice**: the `nop` gets the id of the first
write again, and the write after it the id of the second one. -/
theorem quarantine_repeats_ids :
    (sameMillisecond.map Prod.fst).Pairwise (· ≤ ·) ∧
      idsGiven Room.a sameMillisecond Redis.empty =
        [⟨1000, 0⟩, ⟨1000, 1⟩, ⟨1000, 0⟩, ⟨1000, 1⟩] ∧
      ¬ (idsGiven Room.a sameMillisecond Redis.empty).Pairwise (· < ·) := by
  refine ⟨?_, ?_, ?_⟩ <;> decide

end YHub
