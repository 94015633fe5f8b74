import YHub.Preservation
import YHub.RunTask

/-!
# Compaction is transparent to readers

A `getDoc` call that no other process disturbs (`Hub.getDoc`), on a room in any state that workers
can leave it in, against the same call on a room that has the same messages all on its stream
(`Hub.uncompacted`).

* `getDoc_of_hubOk`: the document stands for every update of the log.
* `merges_of_reach`: with updates only, both calls return the join of all updates, the content map
  that attributes every content id once, and its domain.
* `compaction_transparent`: so they return the same, at every point between the runs of one worker
  (`SoloStep`). There the objects whose removal is scheduled are those of earlier rows (`Settled`),
  so the removals may take place at any time.
-/

namespace YHub

variable {β : Type} [Preorder β] {C : Conf β} {room : Room} {s s' : Hub β}

open FirstWins

/-! ## An undisturbed call -/

/-- The steps of a reader on its own. -/
theorem ProcOk.alone (hY : C.Y.Lawful) (hsort : SortSpec C.sort) (hs : HubOk C room s)
    {reads : Hub β → Retrieval β → Prop} (hreads : ∀ s g, reads s g → ReadsSafely room s g)
    {p p' : Proc β} (hp : ProcOk C room s p)
    (h : Interleave.Alone (ReadStep C room reads) (s, p) (s', p')) :
    s' = s ∧ ProcOk C room s' p' := by
  have key : ∀ y : Hub β × Proc β, Interleave.Alone (ReadStep C room reads) (s, p) y →
      y.1 = s ∧ ProcOk C room y.1 y.2 := by
    intro y hy
    induction hy with
    | refl => exact ⟨rfl, hp⟩
    | tail _ hstep ih =>
      obtain ⟨he, hok⟩ := ih
      rw [he] at hstep hok
      obtain ⟨he', hok'⟩ := read_step hY hsort hreads hs hok hstep
      exact ⟨he', hok'⟩
  exact key (s', p') h

/-- **What an undisturbed call returns** stands for every update of the log. -/
theorem getDoc_of_hubOk (hY : C.Y.Lawful) (hsort : SortSpec C.sort) (hs : HubOk C room s)
    (i : Include) (gcOnMerge : Bool) : ∃ l, updatesUpTo s.log l = updates s.log ∧
      ReturnedOk C s i (s.getDoc C room i gcOnMerge) l := by
  have hreads : ReadsSafely room s (.start none) :=
    fun _ _ hra => absurd hra (by simp [Retrieval.start])
  have hcall : Interleave.Alone (ReadStep C room (ReadsSafely room)) (s, .idle)
      (s, .returned i (s.getDoc C room i gcOnMerge)) := readDoc_alone hreads
  obtain ⟨-, l, hl⟩ := ProcOk.alone (p := .idle) hY hsort hs (fun _ _ h => h) trivial hcall
  refine ⟨l, SortedLog.upTo_eq_self fun u hu => ?_, hl⟩
  -- the last clock is the larger of the last row clock and the last id on the stream
  obtain ⟨p, hp, hmax, -⟩ := hs.lastClock hsort (List.Perm.refl _)
  obtain ⟨c, hc, -⟩ := hs.getMessages
  have hmaxl := hp.clock.max hc.clock
  obtain rfl : max p c = l := Option.some.inj (hmaxl.toId?.symm.trans hl.clock.toId?)
  rcases hs.covered u hu with hlive | hpers
  · refine (hc.le (u.id, .ydocUpdate u.update u.contentmap) ?_).trans (le_max_right p c)
    refine mem_messagesOf.mpr (List.mem_filter.mpr ⟨mem_updates.mp hlive, ?_⟩)
    exact decide_eq_true (hs.log_ok.lt_of_mem_updates hu)
  · exact (hmax _ hpers).trans (le_max_left p c)

/-! ## No compaction at all -/

/-- A room with all messages on its stream. -/
def Hub.uncompacted (room : Room) (log : List (Entry (Message β))) : Hub β :=
  { Hub.empty with
    redis := Redis.empty.set (.room room)
      (some ⟨log, (log.getLast?.map Entry.id).getD .zero⟩)
    log := log }

theorem hubOk_uncompacted {log : List (Entry (Message β))} (h : LogOk log) :
    HubOk C room (Hub.uncompacted room log) := by
  have hlive : (Hub.uncompacted room log).live room = log := by
    simp [Hub.live, Hub.uncompacted, Redis.live]
  refine ⟨h, ?_, rfl, fun _ hrow => absurd hrow List.not_mem_nil, List.nodup_nil,
    fun _ hrow => absurd hrow List.not_mem_nil, fun u hu => Or.inl ?_,
    fun _ hx => absurd hx List.not_mem_nil⟩
  · rw [hlive]
    exact List.suffix_rfl
  · rw [hlive]
    exact hu

/-! ## Both calls -/

/-- The same documents, content map and content ids, as far as they were asked for. -/
structure DocTable.Same (Y : Yjs β) (i : Include) (d d' : DocTable β) : Prop where
  gcDoc : i.gc = true → ∃ g g', d.gcDoc = some g ∧ d'.gcDoc = some g' ∧ g ≤ g' ∧ g' ≤ g
  nongcDoc : i.nongc = true → ∃ n n', d.nongcDoc = some n ∧ d'.nongcDoc = some n' ∧ n ≤ n' ∧ n' ≤ n
  contentmap : i.contentmap = true → ∃ m m', d.contentmap = some m ∧ d'.contentmap = some m' ∧
    (∀ x, Y.HasKey (Y.decodeContentMap m) x ↔ Y.HasKey (Y.decodeContentMap m') x) ∧
    ∀ x a, Y.HasAttr (Y.decodeContentMap m) x a ↔ Y.HasAttr (Y.decodeContentMap m') x a
  contentids : i.contentids = true → ∃ c c', d.contentids = some c ∧ d'.contentids = some c' ∧
    ∀ x, Y.HasId (Y.decodeContentIds c) x ↔ Y.HasId (Y.decodeContentIds c') x

/-- Each content id has the attributes of the first message that carried it. -/
def DocTable.AttributedOnce (Y : Yjs β) (i : Include) (us : List (Update β)) (d : DocTable β) :
    Prop :=
  i.contentmap = true → ∃ m, d.contentmap = some m ∧
    ∀ before u after, us = before ++ u :: after →
      ∀ x, u.Carries Y x → (¬ ∃ v ∈ before, v.Carries Y x) →
        ∀ a, Y.HasAttr (Y.decodeContentMap m) x a ↔ u.Gives Y x a

/-- The content ids are the domain of the content map. -/
def DocTable.IdsAreKeys (Y : Yjs β) (i : Include) (d : DocTable β) : Prop :=
  i.contentmap = true → i.contentids = true →
    ∃ m c, d.contentmap = some m ∧ d.contentids = some c ∧
      ∀ x, Y.HasId (Y.decodeContentIds c) x ↔ Y.HasKey (Y.decodeContentMap m) x

/-- The parts of a document that stands for all updates, none of them pruned. -/
structure DocTable.Merges (Y : Yjs β) (us : List (Update β)) (i : Include) (d : DocTable β) :
    Prop where
  gcDoc : i.gc = true → ∃ g, d.gcDoc = some g ∧ IsJoin us g
  nongcDoc : i.nongc = true → ∃ n, d.nongcDoc = some n ∧ IsJoin us n
  contentmap : i.contentmap = true → ∃ m, d.contentmap = some m ∧
    (∀ x, Y.HasKey (Y.decodeContentMap m) x ↔ Keyed (Update.Carries Y) us x) ∧
    ∀ x a, Y.HasAttr (Y.decodeContentMap m) x a ↔
      FirstAttr (Update.Carries Y) (Update.Gives Y) us x a
  contentids : i.contentids = true → ∃ c, d.contentids = some c ∧
    ∀ x, Y.HasId (Y.decodeContentIds c) x ↔ Keyed (Update.Carries Y) us x

theorem ReturnedOk.merges {i : Include} {d : DocTable β} {l : StreamId}
    (h : ReturnedOk C s i d l) (hall : updatesUpTo s.log l = updates s.log)
    (hn : NoPrune s.log) : d.Merges C.Y (updates s.log) i := by
  rw [← hall]
  refine ⟨fun hi => ?_, fun hi => ?_, fun hi => ?_, fun hi => ?_⟩
  · obtain ⟨a, ha, hr⟩ := h.represents .gcdoc hi
    obtain ⟨g, hg, rfl⟩ := Option.map_eq_some_iff.mp ha
    exact ⟨g, hg, hr⟩
  · obtain ⟨a, ha, hr⟩ := h.represents .nongcdoc hi
    obtain ⟨n, hn, rfl⟩ := Option.map_eq_some_iff.mp ha
    exact ⟨n, hn, hr⟩
  · obtain ⟨a, ha, hr⟩ := h.represents .contentmap hi
    obtain ⟨m, hm, rfl⟩ := Option.map_eq_some_iff.mp ha
    exact ⟨m, hm, hr hn⟩
  · obtain ⟨a, ha, hr⟩ := h.represents .contentids hi
    obtain ⟨c, hc, rfl⟩ := Option.map_eq_some_iff.mp ha
    exact ⟨c, hc, hr hn⟩

namespace DocTable.Merges

variable {Y : Yjs β} {us : List (Update β)} {i : Include} {d d' : DocTable β}

/-- Two documents that stand for the same updates are the same. -/
theorem same (h : d.Merges Y us i) (h' : d'.Merges Y us i) : d.Same Y i d' where
  gcDoc hi := by
    obtain ⟨g, hg, hj⟩ := h.gcDoc hi
    obtain ⟨g', hg', hj'⟩ := h'.gcDoc hi
    exact ⟨g, g', hg, hg', hj.2 hj'.1, hj'.2 hj.1⟩
  nongcDoc hi := by
    obtain ⟨n, hn, hj⟩ := h.nongcDoc hi
    obtain ⟨n', hn', hj'⟩ := h'.nongcDoc hi
    exact ⟨n, n', hn, hn', hj.2 hj'.1, hj'.2 hj.1⟩
  contentmap hi := by
    obtain ⟨m, hm, hk, ha⟩ := h.contentmap hi
    obtain ⟨m', hm', hk', ha'⟩ := h'.contentmap hi
    exact ⟨m, m', hm, hm', fun x => (hk x).trans (hk' x).symm,
      fun x a => (ha x a).trans (ha' x a).symm⟩
  contentids hi := by
    obtain ⟨c, hc, hx⟩ := h.contentids hi
    obtain ⟨c', hc', hx'⟩ := h'.contentids hi
    exact ⟨c, c', hc, hc', fun x => (hx x).trans (hx' x).symm⟩

theorem attributedOnce (h : d.Merges Y us i) : d.AttributedOnce Y i us := by
  intro hi
  obtain ⟨m, hm, -, ha⟩ := h.contentmap hi
  refine ⟨m, hm, ?_⟩
  rintro before u after rfl x hu hfirst a
  exact (ha x a).trans (firstAttr_iff hfirst hu)

theorem idsAreKeys (h : d.Merges Y us i) : d.IdsAreKeys Y i := by
  intro hi hi'
  obtain ⟨m, hm, hk, -⟩ := h.contentmap hi
  obtain ⟨c, hc, hx⟩ := h.contentids hi'
  exact ⟨m, c, hm, hc, fun x => (hx x).trans (hk x).symm⟩

end DocTable.Merges

/-- In every state of a run of workers over updates, a `getDoc` call returns what it would return
had nothing been compacted. -/
theorem merges_of_reach (hY : C.Y.Lawful) (hsort : SortSpec C.sort)
    {x : Interleave.State (Hub β) Nat (Proc β)}
    (hx : WorkerReach C room (fun m => m.isUpdate = true) (fun x o => Unreferenced room x o) x)
    (i : Include) (gcOnMerge : Bool) : HubOk C room x.1 ∧
      (x.1.getDoc C room i gcOnMerge).Merges C.Y (updates x.1.log) i ∧
      ((Hub.uncompacted room x.1.log).getDoc C room i gcOnMerge).Merges C.Y
        (updates x.1.log) i := by
  have hx' : HubReach C room (fun m => m.isUpdate = true) (fun x o => Unreferenced room x o)
      (fun _ _ => False) x :=
    Interleave.reach_strengthen (fun _ _ => trivial) (fun _ _ _ _ hw => hw)
      (fun _ _ _ _ _ _ h => Or.inl h) hx
  obtain ⟨hs, -⟩ := hub_invariant hY hsort (fun _ _ h => h) (fun _ _ h => absurd h id) hx'
  have hn : NoPrune x.1.log := by
    refine List.filterMap_eq_nil_iff.mpr fun y hy => ?_
    obtain ⟨m, hm, hadmits⟩ := admitted_of_mem_log hx' _ (mem_messagesOf.mp hy)
    obtain ⟨j, m'⟩ := y
    obtain rfl := Field.m.inj hm
    cases m' with
    | prune p => exact absurd hadmits (by simp [Message.isUpdate])
    | _ => rfl
  obtain ⟨l, hall, hl⟩ := getDoc_of_hubOk hY hsort hs i gcOnMerge
  have hs' : HubOk C room (Hub.uncompacted room x.1.log) := hubOk_uncompacted hs.log_ok
  obtain ⟨l', hall', hl'⟩ := getDoc_of_hubOk hY hsort hs' i gcOnMerge
  exact ⟨hs, hl.merges hall hn, hl'.merges hall' hn⟩

/-! ## One worker -/

/-- One step of a room that one worker compacts: an update is added, the worker runs, or one of the
removals that it has scheduled takes place. -/
inductive SoloStep (C : Conf β) (room : Room) : Hub β → Hub β → Prop
  | addMessage (s : Hub β) (now : Nat) (m : Message β) (hm : m.isUpdate = true)
      (hid : ∀ e ∈ s.log, e.id < RedisStream.nextId now (s.redis.live room)) :
      SoloStep C room s (s.addMessage room now m)
  | runTask (s : Hub β) (now : Nat) (task : StreamId) :
      SoloStep C room s (s.runTask C room now task)
  | removeObject (s : Hub β) (before after : List ObjectId) (o : ObjectId)
      (h : s.timers = before ++ o :: after) :
      SoloStep C room s { s with
        objects := Function.update s.objects o none
        timers := before ++ after }

/-- The states of the runs. -/
def SoloReach (C : Conf β) (room : Room) : Hub β → Prop :=
  Relation.ReflTransGen (SoloStep C room) Hub.empty

/-- Between the runs of one worker there is one row at most, and the objects that are to be removed
are those of earlier rows. -/
def Settled (s : Hub β) : Prop :=
  s.rows = [] ∧ s.timers = [] ∨
    ∃ row, s.rows = [row] ∧ ∀ o ∈ s.timers, o.2.t.isSmaller row.t = true

omit [Preorder β] in
theorem mem_scheduledRemovals {plugins : List (Plugin β)} {refs : List (Reference β)} {o : ObjectId}
    (h : o ∈ scheduledRemovals plugins refs) : ∃ ref ∈ refs, o.2 = ref.1 := by
  obtain ⟨ref, href, ho⟩ := List.mem_flatMap.mp h
  refine ⟨ref, href, ?_⟩
  cases ha : ref.2 with
  | none => simp [ha] at ho
  | some a =>
    cases a with
    | retrievable plugin =>
      simp only [ha, Option.map_some, Option.getD_some, tryPersistencePluginDelete,
        List.mem_map] at ho
      obtain ⟨p, -, rfl⟩ := ho
      rfl
    | _ => simp [ha, tryPersistencePluginDelete] at ho

/-- A run replaces the row, and schedules the removal of what it pointed to. -/
theorem Settled.compacted (hsort : SortSpec C.sort) (hs : HubOk C room s) (h : Settled s)
    (hlt : (s.lastPersistedClock C).isSmaller (s.lastClock C room) = true) (c : DocContent β) :
    Settled (s.compacted C room c) := by
  have hcomp := comparable_of_nodup
    (fun row hrow => (hs.row_id row hrow).imp fun _ ht => ht.1) hs.row_nodup
  obtain ⟨hbelow, row, hrows, ht, -⟩ := compacted_spec hsort hs.not_hard hcomp hlt c
  refine Or.inr ⟨row, hrows, fun o ho => ?_⟩
  rw [ht]
  have ho : o ∈ s.timers ++ scheduledRemovals C.plugins (s.selected C room compactInclude).assets :=
    ho
  rcases List.mem_append.mp ho with ho | ho
  · rcases h with ⟨-, hnil⟩ | ⟨row', hrow', htimers⟩
    · rw [hnil] at ho
      exact absurd ho List.not_mem_nil
    · refine Clock.isSmaller_trans (htimers o ho) (hbelow row' ?_)
      rw [hrow']
      exact List.mem_singleton.mpr rfl
  · obtain ⟨ref, href, e⟩ := mem_scheduledRemovals ho
    obtain ⟨row', hrow', col, -, rfl⟩ := mem_assets.mp href
    rw [e, AssetColumn.assetId_t]
    exact hbelow row' hrow'

theorem Settled.runTask (hsort : SortSpec C.sort) (hs : HubOk C room s) (h : Settled s) (now : Nat)
    (task : StreamId) : Settled (s.runTask C room now task) := by
  unfold Hub.runTask
  rcases compact_cases C room s with ⟨maxAgeMs, e, -⟩ | ⟨c, -, hlt, e⟩
  · rw [e]
    exact h
  · rw [e]
    exact h.compacted hsort hs hlt c

omit [Preorder β] in
/-- Nothing points to an object that is to be removed, once the runs are over. -/
theorem Settled.unreferenced (h : Settled s) {ps : Nat → Proc β}
    (hps : ∀ k, ps k = .idle ∨ ps k = .finished) {o : ObjectId} (ho : o ∈ s.timers) :
    Unreferenced room (s, ps) o := by
  refine ⟨fun row hrow col a _ hpoints => ?_, fun k id a hrel => ?_⟩
  · have hid := congrArg AssetId.t hpoints.1
    rw [AssetColumn.assetId_t] at hid
    rcases h with ⟨hnil, -⟩ | ⟨row', hrow', htimers⟩
    · have hrow : row ∈ s.rows := hrow
      rw [hnil] at hrow
      exact absurd hrow List.not_mem_nil
    · have hrow : row ∈ s.rows := hrow
      rw [hrow', List.mem_singleton] at hrow
      have hlt := htimers o ho
      rw [← hid, hrow, Clock.isSmaller_self] at hlt
      exact absurd hlt Bool.false_ne_true
  · have hrel : (ps k).Relies room id a := hrel
    rcases hps k with e | e
    · rw [e] at hrel
      exact hrel.elim
    · rw [e] at hrel
      exact hrel.elim

/-- The run of the one worker is a run of the system in which no two workers overlap, and in which
removals only take place when nothing points to the object. -/
theorem workerReach_of_solo (hY : C.Y.Lawful) (hsort : SortSpec C.sort) (h : SoloReach C room s) :
    Settled s ∧ ∃ ps : Nat → Proc β, (∀ k, ps k = .idle ∨ ps k = .finished) ∧
      (∃ n, ∀ k, n ≤ k → ps k = .idle) ∧ WorkerReach C room (fun m => m.isUpdate = true)
        (fun x o => Unreferenced room x o) (s, ps) := by
  induction h with
  | refl =>
    exact ⟨Or.inl ⟨rfl, rfl⟩, fun _ => .idle, fun _ => Or.inl rfl, ⟨0, fun _ _ => rfl⟩, .refl⟩
  | tail _ hstep ih =>
    obtain ⟨hsettled, ps, hps, ⟨n, hn⟩, hx⟩ := ih
    cases hstep with
    | addMessage now m hm hid =>
      exact ⟨hsettled, ps, hps, ⟨n, hn⟩,
        hx.tail (Interleave.Step.env _ _ _ (World.addMessage _ _ now m hm hid))⟩
    | runTask now task =>
      -- the next process that has not started
      have hs := (merges_of_reach hY hsort hx {} true).1
      refine ⟨hsettled.runTask hsort hs now task, Function.update ps n .finished,
        Interleave.forall_update (P := fun p : Proc β => p = .idle ∨ p = .finished) hps
          (Or.inr rfl),
        ⟨n + 1, fun k hk => ?_⟩,
        hx.trans (Interleave.reach_alone (runTask_alone now task) (hn n le_rfl))⟩
      rw [Function.update_of_ne (by omega)]
      exact hn k (by omega)
    | removeObject before after o htimers =>
      have ho : o ∈ Hub.timers _ := htimers ▸ List.mem_append_right before List.mem_cons_self
      refine ⟨?_, ps, hps, ⟨n, hn⟩, hx.tail (Interleave.Step.env _ _ _
        (World.removeObject _ _ before after o htimers (hsettled.unreferenced hps ho)))⟩
      rcases hsettled with ⟨-, hnil⟩ | ⟨row, hrow, hbelow⟩
      · rw [hnil] at ho
        exact absurd ho List.not_mem_nil
      · refine Or.inr ⟨row, hrow, fun o' ho' => hbelow o' ?_⟩
        rw [htimers]
        rcases List.mem_append.mp ho' with ho' | ho'
        · exact List.mem_append_left _ ho'
        · exact List.mem_append_right _ (List.mem_cons_of_mem _ ho')

/-- **Compaction is transparent to readers**: at every point between the runs of one worker, a
`getDoc` call returns what it would return had nothing been compacted. -/
theorem compaction_transparent (hY : C.Y.Lawful) (hsort : SortSpec C.sort) (h : SoloReach C room s)
    (i : Include) (gcOnMerge : Bool) :
    (s.getDoc C room i gcOnMerge).Same C.Y i
        ((Hub.uncompacted room s.log).getDoc C room i gcOnMerge) ∧
      (s.getDoc C room i gcOnMerge).AttributedOnce C.Y i (updates s.log) ∧
      (s.getDoc C room i gcOnMerge).IdsAreKeys C.Y i := by
  obtain ⟨-, ps, -, -, hx⟩ := workerReach_of_solo hY hsort h
  obtain ⟨-, hm, hm'⟩ := merges_of_reach hY hsort hx i gcOnMerge
  exact ⟨hm.same hm', hm.attributedOnce, hm.idsAreKeys⟩

/-- An update that inserts `7` again, and `8`. -/
def overlapping : Message RefPayload :=
  .ydocUpdate (.doc [7, 8]) (.contentMap ⟨[(7, [⟨"insert", .string "user2"⟩]),
    (8, [⟨"insert", .string "user2"⟩])], []⟩)

/-- The first update has been compacted when the second one is added. -/
def overlapped : Hub RefPayload :=
  (oneUpdate.runTask (.ref []) Room.a 100000 ⟨1000, 0⟩).addMessage Room.a 200000 overlapping

theorem overlapped_reach : SoloReach (.ref []) Room.a overlapped := by
  have h₁ : SoloReach (.ref []) Room.a oneUpdate := Relation.ReflTransGen.refl.tail
    (SoloStep.addMessage Hub.empty 1000 (insertion 7 "user1") rfl
      fun _ he => absurd he List.not_mem_nil)
  have h₂ := h₁.tail (SoloStep.runTask _ 100000 ⟨1000, 0⟩)
  exact h₂.tail (SoloStep.addMessage _ 200000 overlapping rfl (by decide +kernel))

/-- `7` stays with the first one who inserted it. -/
theorem compaction_transparent_of_run :
    ∃ m, (overlapped.getDoc (.ref []) Room.a compactInclude true).contentmap = some m ∧
      ∀ a, yjsRef.HasAttr (yjsRef.decodeContentMap m) (.inserts, (7 : Nat)) a ↔
        a = ⟨"insert", .string "user1"⟩ := by
  obtain ⟨m, hm, hfirst⟩ := (compaction_transparent yjsRef_lawful insertionSort_spec
    overlapped_reach compactInclude true).2.1 rfl
  refine ⟨m, hm, fun a => ?_⟩
  refine (hfirst [] _ _ rfl (.inserts, (7 : Nat)) ⟨_, List.mem_cons_self, rfl⟩ (by simp) a).trans ?_
  constructor
  · rintro ⟨p, hp, -, ha⟩
    obtain rfl := List.mem_singleton.mp hp
    exact List.mem_singleton.mp ha
  · rintro rfl
    exact ⟨_, List.mem_cons_self, rfl, List.mem_cons_self⟩

end YHub
