import YHub.Snapshot

/-!
# What a `getDoc` call sees of the past (`index.js:242-296`)

A request reads the document of a room with one `getDoc` call. Whoever has been told that a message
was added expects the next document to have it, and the document after that not to have less.

A call that reads the stream first, as `_runTask` does, finds each message of the past on the stream
or, if it has been trimmed, in the rows. So does a call whose `XREAD` finds every update on the
stream that its `SELECT` did not see in the rows (`ReadsFresh`). That is more than `ReadsSafely`
asks for: a stream that has been emptied in between makes a document that is sound, and old.

* `mem_updatesUpTo_of_run`: the last clock of a call is not below the id of an update that was added
  before the call began.
* `read_your_writes`: its document covers the update.
* `monotonic_reads`: its documents cover those of the calls that had returned before it began.
-/

namespace YHub

variable {β : Type} [Preorder β] {C : Conf β} {room : Room}

/-- At the `XREAD` of a call that has made its `SELECT`, the stream holds every update after the
clock that was selected. -/
def ReadsFresh (room : Room) (s : Hub β) (g : Retrieval β) : Prop :=
  ∀ ra p, g.selected = some ra → ra.lastClock.toId? = some p →
    ∀ u ∈ updates s.log, p < u.id → u ∈ updates (s.live room)

omit [Preorder β] in
theorem ReadsFresh.readsSafely {s : Hub β} {g : Retrieval β} (h : ReadsFresh room s g) :
    ReadsSafely room s g := fun ra p hra hp => .inr (h ra p hra hp)

/-! ## What is never lost -/

/-- No entry of the log and no row clock is lost. -/
structure Hub.Remembers (s s' : Hub β) : Prop where
  log : ∃ more, s'.log = s.log ++ more
  persisted : ∀ i, s.Persisted i → s'.Persisted i

theorem Grows.remembers {keeps : AssetId Clock → Asset β → Prop} {s s' : Hub β}
    (h : Grows C room keeps s s') : s.Remembers s' := ⟨h.log, h.persisted⟩

omit [Preorder β] in
theorem Hub.Remembers.mem_updates {s s' : Hub β} (h : s.Remembers s') {u : Update β}
    (hu : u ∈ updates s.log) : u ∈ updates s'.log := by
  obtain ⟨more, e⟩ := h.log
  rw [e, updates_append]
  exact List.mem_append_left _ hu

section Steps

variable {s s' : Hub β} {p p' : Proc β} {admits : Message β → Prop}
  {fires : Interleave.State (Hub β) Nat (Proc β) → ObjectId → Prop}
  {reads : Hub β → Retrieval β → Prop}

theorem world_remembers (hs : HubOk C room s) {ps : Nat → Proc β}
    (hfires : ∀ x o, fires x o → Unreferenced room x o) (hw : World room admits fires (s, ps) s') :
    s.Remembers s' := by
  cases hw with
  | addMessage _ _ now m hm hid => exact (hs.addMessage now m hid).2.remembers
  | removeObject _ _ before after o htimers hfire =>
    exact ((hs.removeObject (hfires _ o hfire) (before ++ after)).2 0).remembers
  | _ => exact ⟨⟨[], (List.append_nil _).symm⟩, fun _ h => h⟩

/-- A process loses nothing. -/
theorem proc_remembers (hY : C.Y.Lawful) (hsort : SortSpec C.sort)
    (hreads : ∀ s g, reads s g → ReadsSafely room s g) (hs : HubOk C room s)
    (hp : ProcOk C room s p)
    (h : WorkerStep C room s p s' p' ∨ ReadStep C room reads s p s' p') : s.Remembers s' := by
  rcases h with h | h
  · exact (worker_step hY hsort hs hp h).2.1.remembers
  · obtain ⟨rfl, -⟩ := read_step hY hsort hreads hs hp h
    exact ⟨⟨[], (List.append_nil _).symm⟩, fun _ h => h⟩

/-! ## What a call sees -/

/-- The reads of a call see what was added under the id `j`: on the stream, or in the rows. -/
structure Retrieval.Sees (s : Hub β) (j : StreamId) (g : Retrieval β) : Prop where
  cached : ∀ m c, g.cached = some m → m.lastClock.toId? = some c → j ≤ c ∨ s.Persisted j
  both : ∀ m ra c p, g.cached = some m → g.selected = some ra → m.lastClock.toId? = some c →
    ra.lastClock.toId? = some p → j ≤ c ∨ j ≤ p

/-- A call that has begun sees the id. -/
def Proc.Sees (s : Hub β) (j : StreamId) : Proc β → Prop
  | .reading _ _ g => g.Sees s j
  | .returned _ d => ∃ l, d.lastClock.toId? = some l ∧ j ≤ l
  | _ => True

omit [Preorder β] in
theorem Proc.Sees.mono (h : s.Remembers s') {j : StreamId} (hp : p.Sees s j) : p.Sees s' j := by
  cases p with
  | reading i gcOnMerge g =>
    exact ⟨fun m c hm hc => (hp.cached m c hm hc).imp_right (h.persisted j), hp.both⟩
  | _ => exact hp

/-- The reads of a call. -/
theorem Retrieval.Sees.step (hsort : SortSpec C.sort)
    (hreads : ∀ s g, reads s g → ReadsFresh room s g) (hs : HubOk C room s) {i : Include}
    {g g' : Retrieval β} {u : Update β} (hu : u ∈ updates s.log) (hg : g.Sees s u.id)
    (h : RetrievalStep C room reads i s g g') :
    g'.Sees s u.id := by
  cases h with
  | select rows hrows hnone =>
    obtain ⟨p, hp, hmax⟩ := hs.select hsort hrows i rfl
    refine ⟨hg.cached, fun m ra c p' hm hra hc hp' => ?_⟩
    obtain rfl := Option.some.inj hra
    obtain rfl := Option.some.inj (hp.persisted.clock.toId?.symm.trans hp')
    exact (hg.cached m c hm hc).imp_right (hmax u.id)
  | xread hnone hfresh =>
    obtain ⟨c, hc, -⟩ := hs.getMessages
    obtain ⟨hmessages, c', hc', hle, -⟩ := hs.log_ok.getMessages hs.live_suffix
    obtain rfl := Option.some.inj (hc'.toId?.symm.trans hc.clock.toId?)
    have hlive : u ∈ updates (s.live room) → u.id ≤ c' := fun h => hle _ (mem_updates.mp h)
    refine ⟨fun m c₁ hm hc₁ => ?_, fun m ra c₁ p hm hra hc₁ hp => ?_⟩
    all_goals
      obtain rfl := Option.some.inj hm
      obtain rfl := Option.some.inj (hc.clock.toId?.symm.trans hc₁)
    · exact (hs.covered u hu).imp_left hlive
    · -- what is after the selected clock is on the stream
      by_cases hpu : p < u.id
      · exact .inl (hlive (hreads s g hfresh ra p hra hp u hu hpu))
      · exact .inr (not_lt.mp hpu)
  | retrieve before after id a htodo => exact ⟨hg.cached, hg.both⟩

/-- The step lemma. -/
theorem Proc.Sees.step (hsort : SortSpec C.sort) (hreads : ∀ s g, reads s g → ReadsFresh room s g)
    (hs : HubOk C room s) (hok : ProcOk C room s p) {u : Update β} (hu : u ∈ updates s.log)
    (hp : p.Sees s u.id)
    (h : WorkerStep C room s p s' p' ∨ ReadStep C room reads s p s' p') :
    p'.Sees s' u.id := by
  rcases h with h | h
  · cases h <;> trivial
  · cases h with
    | start i gcOnMerge =>
      exact ⟨fun m c hm => absurd hm (by simp [Retrieval.start]),
        fun m ra c p hm => absurd hm (by simp [Retrieval.start])⟩
    | read i gcOnMerge g g' hg => exact Retrieval.Sees.step hsort hreads hs hu hp hg
    | finish i gcOnMerge g d hd =>
      obtain ⟨cached, ra, hcached, hselected, -, rfl⟩ := hd
      obtain ⟨c, hc⟩ := hok.cached cached hcached
      obtain ⟨q, hq⟩ := hok.selected ra hselected
      have hc := hc.clock.toId?
      have hq := hq.persisted.clock.toId?
      refine ⟨max q c, Clock.toId?_max hq hc, ?_⟩
      exact le_max_iff.mpr (hp.both cached ra c q hcached hselected hc hq).symm

end Steps

/-! ## Calls that begin later -/

section Runs

variable {admits : Message β → Prop}
  {fires : Interleave.State (Hub β) Nat (Proc β) → ObjectId → Prop}
  {reads : Hub β → Retrieval β → Prop} {x₀ x : Interleave.State (Hub β) Nat (Proc β)}

/-- The steps of workers, readers and the rest of the world. -/
abbrev HubRun (C : Conf β) (room : Room) (admits : Message β → Prop)
    (fires : Interleave.State (Hub β) Nat (Proc β) → ObjectId → Prop)
    (reads : Hub β → Retrieval β → Prop) :
    Interleave.State (Hub β) Nat (Proc β) → Interleave.State (Hub β) Nat (Proc β) → Prop :=
  Relation.ReflTransGen (Interleave.Step (World room admits fires) fun s p s' p' =>
    WorkerStep C room s p s' p' ∨ ReadStep C room reads s p s' p')

/-- The run lemma: what the state remembers, and what a process sees that was idle. -/
theorem sees_of_run (hY : C.Y.Lawful) (hsort : SortSpec C.sort)
    (hfires : ∀ x o, fires x o → Unreferenced room x o)
    (hreads : ∀ s g, reads s g → ReadsFresh room s g)
    (hx₀ : HubReach C room admits fires reads x₀) (hx : HubRun C room admits fires reads x₀ x)
    {k : Nat} (hk : x₀.2 k = .idle) {u : Update β} (hu : u ∈ updates x₀.1.log) :
    u ∈ updates x.1.log ∧ (x.2 k).Sees x.1 u.id := by
  have hsafe : ∀ s g, reads s g → ReadsSafely room s g := fun s g h => (hreads s g h).readsSafely
  induction hx with
  | refl => exact ⟨hu, by rw [hk]; trivial⟩
  | tail hrun hstep ih =>
    obtain ⟨hlog, hsees⟩ := ih
    obtain ⟨hs, hps⟩ := hub_invariant hY hsort hfires hsafe (hx₀.trans hrun)
    cases hstep with
    | env s ps s' hw =>
      have hrem := world_remembers hs hfires hw
      exact ⟨hrem.mem_updates hlog, hsees.mono hrem⟩
    | proc s ps i s' p' hp =>
      have hrem := proc_remembers hY hsort hsafe hs (hps i) hp
      refine ⟨hrem.mem_updates hlog, ?_⟩
      by_cases hik : k = i
      · subst hik
        have hsees' : p'.Sees s' u.id :=
          Proc.Sees.step hsort hreads hs (hps k) hlog hsees hp
        simpa using hsees'
      · have hother : (Function.update ps i p' k).Sees s' u.id := by
          rw [Function.update_of_ne hik]
          exact hsees.mono hrem
        exact hother

/-- A call that has returned stands for the updates up to its last clock. -/
theorem returnedOk_of_reach (hY : C.Y.Lawful) (hsort : SortSpec C.sort)
    (hfires : ∀ x o, fires x o → Unreferenced room x o)
    (hreads : ∀ s g, reads s g → ReadsSafely room s g) (hx : HubReach C room admits fires reads x)
    {k : Nat} {i : Include} {d : DocTable β} (hk : x.2 k = .returned i d) :
    ∃ l, ReturnedOk C x.1 i d l := by
  have h := (hub_invariant hY hsort hfires hreads hx).2 k
  rwa [hk] at h

/-- The documents of a call are the joins of the updates up to its last clock. -/
theorem ReturnedOk.docs {s : Hub β} {i : Include} {d : DocTable β} {l : StreamId}
    (h : ReturnedOk C s i d l) :
    (i.gc = true → ∃ g, d.gcDoc = some g ∧ IsJoin (updatesUpTo s.log l) g) ∧
      (i.nongc = true → ∃ n, d.nongcDoc = some n ∧ IsJoin (updatesUpTo s.log l) n) := by
  constructor
  · intro hi
    obtain ⟨a, ha, hr⟩ := h.represents .gcdoc hi
    obtain ⟨g, hg, rfl⟩ := Option.map_eq_some_iff.mp ha
    exact ⟨g, hg, hr⟩
  · intro hi
    obtain ⟨a, ha, hr⟩ := h.represents .nongcdoc hi
    obtain ⟨n, hn, rfl⟩ := Option.map_eq_some_iff.mp ha
    exact ⟨n, hn, hr⟩

/-- The document of a call: either of the two that was asked for. -/
def DocTable.Doc (i : Include) (d : DocTable β) (v : β) : Prop :=
  i.gc = true ∧ d.gcDoc = some v ∨ i.nongc = true ∧ d.nongcDoc = some v

theorem ReturnedOk.isJoin {s : Hub β} {i : Include} {d : DocTable β} {l : StreamId}
    (h : ReturnedOk C s i d l) {v : β} (hv : d.Doc i v) : IsJoin (updatesUpTo s.log l) v := by
  rcases hv with ⟨hi, hv⟩ | ⟨hi, hv⟩
  · obtain ⟨g, hg, hjoin⟩ := h.docs.1 hi
    rwa [Option.some.inj (hv.symm.trans hg)]
  · obtain ⟨n, hn, hjoin⟩ := h.docs.2 hi
    rwa [Option.some.inj (hv.symm.trans hn)]

/-- What was added before a call began is below its last clock. -/
theorem mem_updatesUpTo_of_run (hY : C.Y.Lawful) (hsort : SortSpec C.sort)
    (hfires : ∀ x o, fires x o → Unreferenced room x o)
    (hreads : ∀ s g, reads s g → ReadsFresh room s g)
    (hx₀ : HubReach C room admits fires reads x₀) (hx : HubRun C room admits fires reads x₀ x)
    {k : Nat} (hk : x₀.2 k = .idle) {i : Include} {d : DocTable β} (hd : x.2 k = .returned i d) :
    ∃ l, ReturnedOk C x.1 i d l ∧ ∀ u ∈ updates x₀.1.log, u ∈ updatesUpTo x.1.log l := by
  obtain ⟨l, hret⟩ := returnedOk_of_reach hY hsort hfires
    (fun s g h => (hreads s g h).readsSafely) (hx₀.trans hx) hd
  refine ⟨l, hret, fun u hu => ?_⟩
  obtain ⟨hlog, hsees⟩ := sees_of_run hY hsort hfires hreads hx₀ hx hk hu
  rw [hd] at hsees
  obtain ⟨l', hl, hle⟩ := hsees
  obtain rfl := Option.some.inj (hl.symm.trans hret.clock.toId?)
  exact SortedLog.mem_upTo.mpr ⟨hlog, hle⟩

/-- **A call sees what was added before it began.** -/
theorem read_your_writes (hY : C.Y.Lawful) (hsort : SortSpec C.sort)
    (hfires : ∀ x o, fires x o → Unreferenced room x o)
    (hreads : ∀ s g, reads s g → ReadsFresh room s g)
    (hx₀ : HubReach C room admits fires reads x₀) (hx : HubRun C room admits fires reads x₀ x)
    {k : Nat} (hk : x₀.2 k = .idle) {i : Include} {d : DocTable β} (hd : x.2 k = .returned i d) :
    ∀ u ∈ updates x₀.1.log, d.Covers i u.update := by
  obtain ⟨l, hret, hall⟩ := mem_updatesUpTo_of_run hY hsort hfires hreads hx₀ hx hk hd
  intro u hu
  have hmem : u.update ∈ (updatesUpTo x.1.log l).map Update.update :=
    List.mem_map_of_mem (hall u hu)
  constructor
  · intro hi
    obtain ⟨g, hg, hjoin⟩ := hret.docs.1 hi
    exact ⟨g, hg, hjoin.1 hmem⟩
  · intro hi
    obtain ⟨n, hn, hjoin⟩ := hret.docs.2 hi
    exact ⟨n, hn, hjoin.1 hmem⟩

/-- **Documents do not lose anything**: a document covers every document that had been returned
before its call began. -/
theorem monotonic_reads (hY : C.Y.Lawful) (hsort : SortSpec C.sort)
    (hfires : ∀ x o, fires x o → Unreferenced room x o)
    (hreads : ∀ s g, reads s g → ReadsFresh room s g)
    (hx₀ : HubReach C room admits fires reads x₀) (hx : HubRun C room admits fires reads x₀ x)
    {k j : Nat} (hk : x₀.2 k = .idle) {i i' : Include} {d d' : DocTable β}
    (hj : x₀.2 j = .returned i' d') (hd : x.2 k = .returned i d) {v w : β} (hv : d'.Doc i' v)
    (hw : d.Doc i w) : v ≤ w := by
  obtain ⟨l, hret, hall⟩ := mem_updatesUpTo_of_run hY hsort hfires hreads hx₀ hx hk hd
  obtain ⟨l', hret'⟩ := returnedOk_of_reach hY hsort hfires
    (fun s g h => (hreads s g h).readsSafely) hx₀ hj
  refine (hret'.isJoin hv).2 fun u hu => ?_
  obtain ⟨u, hmem, rfl⟩ := List.mem_map.mp hu
  exact (hret.isJoin hw).1 (List.mem_map_of_mem (hall u (SortedLog.mem_upTo.mp hmem).1))

end Runs

/-! ## Two calls -/

section Calls

variable {admits : Message RefPayload → Prop}
  {fires : Interleave.State (Hub RefPayload) Nat (Proc RefPayload) → ObjectId → Prop}

/-- A call that reads the stream first. -/
theorem readsFresh_start (s : Hub RefPayload) : ReadsFresh Room.a s (.start none) :=
  fun _ _ hra => absurd hra (by simp [Retrieval.start])

/-- An undisturbed call, of a process that is idle. -/
theorem undisturbed_call (i : Include) (s : Hub RefPayload) (ps : Nat → Proc RefPayload) (k : Nat)
    (hk : ps k = .idle) :
    HubRun (.ref []) Room.a admits fires (ReadsFresh Room.a) (s, ps)
      (s, Function.update ps k (.returned i (s.getDoc (.ref []) Room.a i true))) := by
  have hcall : Interleave.Alone (ReadStep (.ref []) Room.a (ReadsFresh Room.a))
      (s, .idle) (s, .returned i (s.getDoc (.ref []) Room.a i true)) :=
    readDoc_alone (readsFresh_start s)
  exact Interleave.reach_alone (hcall.mono fun _ _ _ _ h => .inr h) hk

/-- The document of an undisturbed call. -/
def oneUpdateDoc : DocTable RefPayload := oneUpdate.getDoc (.ref []) Room.a askGc true

theorem read_your_writes_of_call : oneUpdateDoc.Covers askGc (.doc [7]) :=
  read_your_writes (k := 0) yjsRef_lawful insertionSort_spec
    (fun x o (h : Unreferenced Room.a x o) => h) (fun _ _ h => h) oneUpdate_reach
    (undisturbed_call askGc oneUpdate (fun _ => .idle) 0 rfl) rfl rfl
    ⟨⟨1000, 0⟩, .doc [7], _⟩ (mem_updates.mpr List.mem_cons_self)

/-- The room with two updates. -/
def twoUpdates : Hub RefPayload := oneUpdate.addMessage Room.a 2000 (insertion 8 "user2")

/-- A worker has compacted and trimmed it. -/
def emptied : Hub RefPayload := twoUpdates.runTask (.ref []) Room.a 200000 ⟨1000, 0⟩

/-- A call, another update, a compaction, and another call. -/
theorem monotonic_reads_of_calls : ∃ v w, oneUpdateDoc.Doc askGc v ∧
    (emptied.getDoc (.ref []) Room.a askGc true).Doc askGc w ∧ v ≤ w ∧ ¬ w ≤ v := by
  have hdoc : oneUpdateDoc.Doc askGc (.doc [7]) := .inl ⟨rfl, by decide⟩
  have hdoc' : (emptied.getDoc (.ref []) Room.a askGc true).Doc askGc (.doc [7, 8]) :=
    .inl ⟨rfl, by decide +kernel⟩
  have hadd : HubRun (.ref []) Room.a (fun _ => True) (Unreferenced Room.a) (ReadsFresh Room.a)
      (oneUpdate, Function.update (fun _ => .idle) 0 (.returned askGc oneUpdateDoc))
      (twoUpdates, Function.update (fun _ => .idle) 0 (.returned askGc oneUpdateDoc)) :=
    .single (Interleave.Step.env _ _ _
      (World.addMessage _ _ 2000 (insertion 8 "user2") trivial (by decide)))
  have hworker : WorkerAlone (.ref []) Room.a (twoUpdates, .idle) (emptied, .finished) :=
    runTask_alone 200000 ⟨1000, 0⟩
  have hcompaction := hadd.trans
    (Interleave.reach_alone (i := 2) (hworker.mono fun _ _ _ _ h => .inl h) rfl)
  have hle := monotonic_reads (k := 1) (j := 0) yjsRef_lawful insertionSort_spec
    (fun x o (h : Unreferenced Room.a x o) => h) (fun _ _ h => h)
    (oneUpdate_reach.trans (undisturbed_call askGc oneUpdate (fun _ => .idle) 0 rfl))
    (hcompaction.trans (undisturbed_call askGc emptied _ 1 rfl)) rfl rfl rfl hdoc hdoc'
  exact ⟨_, _, hdoc, hdoc', hle, by decide⟩

end Calls

end YHub
