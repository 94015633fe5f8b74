import YHub.Preservation

/-!
# Clocks in every run (`index.js:162-223`)

What `Invariant.lean` says of clocks, without its premises: whatever objects are removed, and
whenever readers read, in every run of the system of `System.lean`
* the stream is the end of the log, whose ids increase;
* rows have stream ids for clocks, each its own;
* what is read from the rows or from the stream is dated by `'0'` or a stream id;
* a run of `_runTask` that deletes rows deletes them below a clock that is persisted.

So the largest clock of the rows never falls (`persisted_of_step`), although rows are deleted all
the time: an update that some row is as late as stays behind the rows.
-/

namespace YHub

variable {β : Type}

/-- A clock that a read returns: `'0'`, or a stream id. -/
def Clock.Dated (c : Clock) : Prop := c = .zero ∨ ∃ i, c = .id i

theorem Clock.Dated.max {a b : Clock} (ha : a.Dated) (hb : b.Dated) : (a.max b).Dated := by
  rcases a.max_cases b with ⟨-, e⟩ | ⟨-, e⟩
  · rwa [e]
  · rwa [e]

theorem Clock.Dated.toId? {c : Clock} (h : c.Dated) : ∃ i, c.toId? = some i := by
  rcases h with rfl | ⟨i, rfl⟩
  · exact ⟨_, rfl⟩
  · exact ⟨i, rfl⟩

/-- A clock that another is below is not `'0'`. -/
theorem Clock.Dated.id_of_isSmaller {a c : Clock} (h : c.Dated) (hlt : a.isSmaller c = true) :
    ∃ i, c = .id i := by
  refine h.resolve_left ?_
  rintro rfl
  rw [isSmaller_zero] at hlt
  exact Bool.false_ne_true hlt

theorem dated_getMessages {μ : Type} (str : Option (RedisStream μ)) :
    (getMessages str).lastClock.Dated := by
  show (((xread .zero str).getLast?.map fun e => Clock.id e.id).getD .zero).Dated
  cases (xread .zero str).getLast? with
  | none => exact Or.inl rfl
  | some e => exact Or.inr ⟨e.id, rfl⟩

/-! ## The assertions -/

section Assertions

variable (room : Room)

/-- The shared state. -/
structure DatedHub (s : Hub β) : Prop where
  log_ok : LogOk s.log
  live_suffix : s.live room <:+ s.log
  not_hard : s.tombstone.any Tombstone.hard = false
  row_id : ∀ row ∈ s.rows, ∃ t, row.t = .id t
  row_nodup : (s.rows.map Row.t).Nodup

/-- The reads of a `getDoc` call: no reference is above the clock that was selected. -/
structure DatedRetrieval (g : Retrieval β) : Prop where
  cached : ∀ m, g.cached = some m → m.lastClock.Dated
  selected : ∀ ra, g.selected = some ra → ra.lastClock.Dated ∧
    ∀ p, ra.lastClock.toId? = some p → RefsTo room (· ≤ p) ra.assets

/-- The document to be stored refers to rows below its own clock. -/
def DocTable.RefersBelow (d : DocTable β) (l : StreamId) : Prop :=
  d.lastClock = .id l ∧ ∀ refs, d.references = some refs → RefsTo room (· < l) refs

/-- A run of `_runTask`. -/
def DatedProc (s : Hub β) : Proc β → Prop
  | .precheck _ cached _ => ∀ m, cached = some m → m.lastClock.Dated
  | .fetching _ g => DatedRetrieval room g
  | .storing _ d _ _ => ∃ l, d.RefersBelow room l
  | .cleaning _ d _ _ _ => ∃ l, d.RefersBelow room l ∧ s.Persisted l
  | _ => True

end Assertions

variable {C : Conf β} {room : Room} {s s' : Hub β} {p p' : Proc β}

/-- The rows that others may insert and delete: what is persisted stays so. -/
theorem DatedProc.mono (h : ∀ i, s.Persisted i → s'.Persisted i) (hp : DatedProc room s p) :
    DatedProc room s' p := by
  cases p with
  | cleaning task d scheduled deleted trimmed =>
    obtain ⟨l, hd, hl⟩ := hp
    exact ⟨l, hd, h l hl⟩
  | _ => exact hp

/-! ## Reading -/

theorem DatedHub.lastClock {rows : List (Row β)} (hs : DatedHub room s) (hsort : SortSpec C.sort)
    (hrows : rows.Perm s.rows) : (lastClockOf C.sort rows).Dated ∧
      ∀ p, (lastClockOf C.sort rows).toId? = some p → ∀ i, s.Persisted i → i ≤ p := by
  obtain ⟨p, hp, hmax⟩ := exists_lastClock hs.row_id hs.row_nodup hsort hrows
  rcases hp with ⟨e, rfl⟩ | ⟨-, -, -, e⟩
  · rw [e]
    refine ⟨Or.inl rfl, fun q hq => ?_⟩
    obtain rfl : StreamId.zero = q := Option.some.inj hq
    exact hmax
  · rw [e]
    refine ⟨Or.inr ⟨p, rfl⟩, fun q hq => ?_⟩
    obtain rfl : p = q := Option.some.inj hq
    exact hmax

/-- A message that some row is as late as is not newer than what a `SELECT` returns. -/
theorem DatedHub.not_newer {rows : List (Row β)} (hs : DatedHub room s) (hsort : SortSpec C.sort)
    (hrows : rows.Perm s.rows) {i : StreamId} (hi : s.Persisted i) :
    (lastClockOf C.sort rows).isSmaller (.id i) = false := by
  obtain ⟨hdated, hmax⟩ := hs.lastClock hsort hrows
  obtain ⟨p, hp⟩ := hdated.toId?
  exact (Clock.not_isSmaller_iff_le hp rfl).mpr (hmax p hp i hi)

theorem DatedRetrieval.step {reads : Hub β → Retrieval β → Prop} {i : Include}
    {g g' : Retrieval β} (hs : DatedHub room s) (hsort : SortSpec C.sort)
    (hg : DatedRetrieval room g) (hstep : RetrievalStep C room reads i s g g') :
    DatedRetrieval room g' := by
  cases hstep with
  | select rows hrows hnone =>
    refine ⟨hg.cached, fun ra hra => ?_⟩
    obtain rfl := Option.some.inj hra
    obtain ⟨hdated, hmax⟩ := hs.lastClock hsort hrows
    refine ⟨hdated, fun p hp ref href => ?_⟩
    obtain ⟨row, hrow, col, -, rfl⟩ := mem_assets.mp href
    have hrow := hrows.mem_iff.mp hrow
    obtain ⟨t, ht⟩ := hs.row_id row hrow
    exact ⟨col, t, by rw [ht], hmax p hp t ⟨row, hrow, t, ht, le_rfl⟩⟩
  | xread hnone hreads =>
    refine ⟨fun m hm => ?_, hg.selected⟩
    obtain rfl := Option.some.inj hm
    exact dated_getMessages _
  | retrieve before after id a htodo => exact ⟨hg.cached, hg.selected⟩

/-- A document that is to be stored: the re-check says that its clock is above the rows. -/
theorem DatedRetrieval.refersBelow {g : Retrieval β} {d : DocTable β} (hg : DatedRetrieval room g)
    (hd : g.Yields C compactInclude true d) (hout : outrun d = false) :
    ∃ l, d.RefersBelow room l := by
  obtain ⟨cached, ra, hcached, hselected, -, rfl⟩ := hd
  obtain ⟨hdated, hrefs⟩ := hg.selected ra hselected
  obtain ⟨q, hq⟩ := hdated.toId?
  have hlt : ra.lastClock.isSmaller (ra.lastClock.max cached.lastClock) = true := by
    unfold outrun at hout
    rwa [Bool.not_eq_false'] at hout
  obtain ⟨l, hl⟩ := (hdated.max (hg.cached cached hcached)).id_of_isSmaller hlt
  have hql : q < l := (Clock.isSmaller_iff_lt hq (by rw [hl]; rfl)).mp hlt
  refine ⟨l, hl, fun refs href ref hmem => ?_⟩
  obtain rfl : ra.assets = refs := Option.some.inj href
  obtain ⟨col, t, hid, htq⟩ := hrefs q hq ref hmem
  exact ⟨col, t, hid, htq.trans_lt hql⟩

/-! ## Steps -/

/-- A step of a run of `_runTask`. -/
theorem dated_worker_step (hsort : SortSpec C.sort) (hs : DatedHub room s)
    (hp : DatedProc room s p) (h : WorkerStep C room s p s' p') :
    DatedHub room s' ∧ (∀ i, s.Persisted i → s'.Persisted i) ∧ DatedProc room s' p' := by
  cases h with
  | start task => exact ⟨hs, fun _ h => h, fun m hm => absurd hm (by simp)⟩
  | precheckStream task persisted =>
    refine ⟨hs, fun _ h => h, fun m hm => ?_⟩
    obtain rfl := Option.some.inj hm
    exact dated_getMessages _
  | precheckClock task cached rows hrows => exact ⟨hs, fun _ h => h, hp⟩
  | nothing task cached persisted tombstone hn => exact ⟨hs, fun _ h => h, trivial⟩
  | proceed task cached persisted tombstone hn =>
    exact ⟨hs, fun _ h => h, hp, fun ra hra => absurd hra (by simp [Retrieval.start])⟩
  | fetch task g g' hg => exact ⟨hs, fun _ h => h, DatedRetrieval.step hs hsort hp hg⟩
  | outrun task g d hd hout => exact ⟨hs, fun _ h => h, trivial⟩
  | merged task g d c hd hout hc =>
    exact ⟨⟨hs.log_ok, hs.live_suffix, hs.not_hard, hs.row_id, hs.row_nodup⟩, fun _ h => h,
      DatedRetrieval.refersBelow hp hd hout⟩
  | put task d c assets col hnone =>
    exact ⟨⟨hs.log_ok, hs.live_suffix, hs.not_hard, hs.row_id, hs.row_nodup⟩, fun _ h => h, hp⟩
  | insert task d c assets =>
    obtain ⟨l, hd⟩ := hp
    rw [hd.1]
    obtain ⟨hl, hpers⟩ := persisted_insert hs.not_hard l assets
    refine ⟨⟨hs.log_ok, hs.live_suffix, hs.not_hard, fun row hrow => ?_,
      nodup_insertRow hs.row_nodup⟩, hpers, l, hd, hl⟩
    rcases mem_insertRow hrow with hrow | rfl
    · exact hs.row_id row hrow
    · exact ⟨l, rfl⟩
  | schedule task d refs hrefs =>
    exact ⟨⟨hs.log_ok, hs.live_suffix, hs.not_hard, hs.row_id, hs.row_nodup⟩, fun _ h => h, hp⟩
  | delete task d refs trimmed hrefs =>
    obtain ⟨l, hd, hl⟩ := hp
    have hpers : ∀ i, s.Persisted i →
        Hub.Persisted { s with rows := deleteReferences room refs s.rows } i :=
      fun _ hi => persisted_delete (hd.2 refs hrefs) hl hi
    exact ⟨⟨hs.log_ok, hs.live_suffix, hs.not_hard,
      fun row hrow => hs.row_id row (List.mem_filter.mp hrow).1,
      hs.row_nodup.sublist (List.filter_sublist.map _)⟩, hpers, l, hd, hpers l hl⟩
  | trimAfter task d deleted now =>
    exact ⟨⟨hs.log_ok, (Hub.live_trim ..).trans hs.live_suffix, hs.not_hard, hs.row_id,
      hs.row_nodup⟩, fun _ h => h, hp⟩
  | trim task minId maxAgeMs now =>
    exact ⟨⟨hs.log_ok, (Hub.live_trim ..).trans hs.live_suffix, hs.not_hard, hs.row_id,
      hs.row_nodup⟩, fun _ h => h, trivial⟩
  | stop => exact ⟨hs, fun _ h => h, trivial⟩

variable {admits : Message β → Prop}
  {fires : Interleave.State (Hub β) Nat (Proc β) → ObjectId → Prop}
  {reads : Hub β → Retrieval β → Prop} {x x' : Interleave.State (Hub β) Nat (Proc β)}

/-- A step of the rest of the world leaves the rows as they are. -/
theorem dated_world_step {ps : Nat → Proc β} (hs : DatedHub room s)
    (hw : World room admits fires (s, ps) s') : DatedHub room s' ∧ s'.rows = s.rows := by
  cases hw with
  | addMessage _ _ now m hm hid =>
    exact ⟨⟨hs.log_ok.xadd hid, Hub.live_suffix_addMessage hs.live_suffix, hs.not_hard, hs.row_id,
      hs.row_nodup⟩, rfl⟩
  | otherKeys _ _ r hr =>
    refine ⟨⟨hs.log_ok, ?_, hs.not_hard, hs.row_id, hs.row_nodup⟩, rfl⟩
    show RedisStream.entriesOf (r.live room) <:+ s.log
    rw [hr]
    exact hs.live_suffix
  | softDelete _ _ tombstone hhard =>
    exact ⟨⟨hs.log_ok, hs.live_suffix, hhard, hs.row_id, hs.row_nodup⟩, rfl⟩
  | removeObject _ _ before after o htimers hfires =>
    exact ⟨⟨hs.log_ok, hs.live_suffix, hs.not_hard, hs.row_id, hs.row_nodup⟩, rfl⟩

/-- A step of a reader changes nothing that is shared. -/
theorem dated_read_step (h : ReadStep C room reads s p s' p') :
    s' = s ∧ DatedProc room s' p' := by
  cases h <;> exact ⟨rfl, trivial⟩

theorem persisted_of_rows (h : s'.rows = s.rows) {i : StreamId} (hi : s.Persisted i) :
    s'.Persisted i := by
  unfold Hub.Persisted
  rwa [h]

/-- **Clocks in every run.** -/
theorem dated_of_reach (hsort : SortSpec C.sort) (hx : HubReach C room admits fires reads x) :
    Interleave.Holds (DatedHub room) (DatedProc room) x := by
  have h₀ : Interleave.Holds (DatedHub room) (DatedProc room)
      ((Hub.empty, fun _ => .idle) : Interleave.State (Hub β) Nat (Proc β)) :=
    ⟨⟨⟨List.Pairwise.nil, fun _ he => absurd he List.not_mem_nil⟩, List.suffix_rfl, rfl,
      fun _ hrow => absurd hrow List.not_mem_nil, List.nodup_nil⟩, fun _ => trivial⟩
  refine Interleave.reach_guarantee (G := fun s s' => ∀ i, s.Persisted i → s'.Persisted i) h₀
    (fun s s' p _ _ hG hp => hp.mono hG) (fun s ps s' h hw => ?_) (fun s p s' p' hs hp h => ?_) hx
  · obtain ⟨hs', hrows⟩ := dated_world_step h.1 hw
    exact ⟨hs', fun i => (h.2 i).mono fun _ => persisted_of_rows hrows⟩
  · rcases h with h | h
    · exact dated_worker_step hsort hs hp h
    · obtain ⟨rfl, hp'⟩ := dated_read_step h
      exact ⟨hs, fun _ hi => hi, hp'⟩

/-- **What is persisted stays so**, whatever the step. -/
theorem persisted_of_step (hsort : SortSpec C.sort)
    (h : Interleave.Holds (DatedHub room) (DatedProc room) x)
    (hstep : Interleave.Step (World room admits fires)
      (fun s p s' p' => WorkerStep C room s p s' p' ∨ ReadStep C room reads s p s' p') x x')
    {i : StreamId} (hi : x.1.Persisted i) : x'.1.Persisted i := by
  cases hstep with
  | env s ps s' hw => exact persisted_of_rows (dated_world_step h.1 hw).2 hi
  | proc s ps j s' p' hp =>
    rcases hp with hp | hp
    · exact (dated_worker_step hsort h.1 (h.2 j) hp).2.1 i hi
    · obtain ⟨rfl, -⟩ := dated_read_step hp
      exact hi

end YHub
