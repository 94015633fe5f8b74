import YHub.Invariant

/-!
# Every step keeps the invariant

The step lemmas and the run lemma for the invariant of `Invariant.lean`.

* What the commands and statements do to the shared state: `HubOk.trim`, `HubOk.put`,
  `HubOk.insert`, `HubOk.delete`, `HubOk.addMessage`, `HubOk.removeObject`.
* What a `getDoc` call knows after its reads: `RetrievalOk.step`, and `RetrievalOk.yields` for the
  document it returns.
* `worker_step`, `read_step`, `world_step`, and `hub_invariant` for whole runs.
-/

namespace YHub

variable {β : Type} [Preorder β] {C : Conf β} {room : Room} {s s' : Hub β}

open SortedLog

/-! ## The shared state -/

theorem Grows.weaken {keeps : AssetId Clock → Asset β → Prop}
    (h : Grows C room (fun _ _ => True) s s') : Grows C room keeps s s' :=
  ⟨h.log, h.log_ok, h.persisted, fun t col a ht _ hr => h.resolves t col a ht trivial hr⟩

/-- Nothing has happened to the log, the rows and the objects. -/
theorem Grows.of_eq {keeps : AssetId Clock → Asset β → Prop} (hs : HubOk C room s)
    (hlog : s'.log = s.log) (hrows : s'.rows = s.rows) (hobjects : s'.objects = s.objects) :
    Grows C room keeps s s' where
  log := ⟨[], by rw [hlog, List.append_nil]⟩
  log_ok := hlog ▸ hs.log_ok
  persisted i hi := by
    unfold Hub.Persisted
    rwa [hrows]
  resolves t col a _ _ hr := by
    unfold Resolves
    rwa [hlog, hobjects]

theorem Grows.same {keeps : AssetId Clock → Asset β → Prop} (hs : HubOk C room s) :
    Grows C room keeps s s := Grows.of_eq hs rfl rfl rfl

/-- The stream loses entries whose updates are persisted. -/
theorem HubOk.redis (hs : HubOk C room s) {r : Redis (Message β)}
    (hsuffix : RedisStream.entriesOf (r.live room) <:+ s.live room)
    (hcov : ∀ u ∈ updates (s.live room),
      u ∈ updates (RedisStream.entriesOf (r.live room)) ∨ s.Persisted u.id) :
    HubOk C room { s with redis := r } where
  log_ok := hs.log_ok
  live_suffix := hsuffix.trans hs.live_suffix
  not_hard := hs.not_hard
  row_id := hs.row_id
  row_nodup := hs.row_nodup
  row_resolves := hs.row_resolves
  covered u hu := (hs.covered u hu).elim (hcov u) Or.inr
  written_ok := hs.written_ok

/-- **A trim up to a safe clock.** -/
theorem HubOk.trim (hs : HubOk C room s) {minId : Clock} (hsafe : TrimSafe s minId) (now : Nat)
    (maxAgeMs : JsNumber) (task : StreamId) : HubOk C room { s with
      redis := (trimMessages now room minId.text maxAgeMs (some task) s.redis).1 } := by
  have hlive : (trimMessages now room minId.text maxAgeMs (some task) s.redis).1.live room =
      trimStream now minId.text maxAgeMs (decide (task ∈ s.redis.worker.pending))
        (s.redis.live room) := trimMessages_live ..
  refine hs.redis (Hub.live_trim ..) fun u hu => ?_
  · obtain ⟨i, hi, hpers⟩ := hsafe
    have hmem := mem_updates.mp hu
    rcases le_or_gt u.id i with hle | hlt
    · have hlog : u ∈ updates s.log := mem_updates.mpr (hs.live_suffix.subset hmem)
      exact Or.inr (hpers u hlog hle)
    · rw [hlive]
      refine Or.inl (mem_updates.mpr (mem_trimStream hmem ?_))
      exact (Clock.isSmaller_iff_lt hi.toId? rfl).mpr hlt

/-- A plugin stores an asset of a version that stands for the log. -/
theorem Resolves.put {l t : StreamId} {col col' : AssetColumn} {asset a : Asset β}
    (hasset : Represents C.Y s.log l col asset) (h : Resolves C room s t col' a) :
    Resolves C room { s with objects := (tryPersistencePluginStore C.plugins
      (col.assetId room (.id l)) asset s.objects).1 } t col' a := by
  obtain ⟨r, hr, hrep⟩ := h
  rcases retrieve_after_store C.plugins (col.assetId room (.id l)) (col'.assetId room (.id t))
    asset a s.objects with he | ⟨hid, he⟩
  · exact ⟨r, he.trans hr, hrep⟩
  · obtain ⟨ht, rfl⟩ := AssetColumn.assetId_inj hid
    obtain rfl := Clock.id.inj ht
    exact ⟨asset, he, hasset⟩

theorem HubOk.put (hs : HubOk C room s) {l : StreamId} {col : AssetColumn} {asset : Asset β}
    (hasset : Represents C.Y s.log l col asset) : HubOk C room { s with
      objects := (tryPersistencePluginStore C.plugins (col.assetId room (.id l)) asset
        s.objects).1 } where
  log_ok := hs.log_ok
  live_suffix := hs.live_suffix
  not_hard := hs.not_hard
  row_id := hs.row_id
  row_nodup := hs.row_nodup
  row_resolves row hrow t ht col' := by
    obtain ⟨a, ha, hr⟩ := hs.row_resolves row hrow t ht col'
    exact ⟨a, ha, hr.put hasset⟩
  covered := hs.covered
  written_ok := hs.written_ok

omit [Preorder β] in
/-- The `INSERT` of a row: its clock is persisted, and what was persisted stays so. -/
theorem persisted_insert (hhard : s.tombstone.any Tombstone.hard = false) (l : StreamId)
    (assets : AssetColumn → Asset β) :
    Hub.Persisted { s with rows := insertRow s.tombstone (storedRow (.id l) assets) s.rows } l ∧
      ∀ i, s.Persisted i → Hub.Persisted
        { s with rows := insertRow s.tombstone (storedRow (.id l) assets) s.rows } i := by
  refine ⟨?_, fun i ⟨row, hrow, hi⟩ => ⟨row, mem_insertRow_of_mem hrow, hi⟩⟩
  rcases insertRow_of_not_hard (storedRow (.id l) assets) s.rows hhard with ⟨hmem, e⟩ | ⟨-, e⟩
  · -- a row with this clock is there already
    obtain ⟨row, hrow, ht⟩ := List.mem_map.mp hmem
    exact ⟨row, mem_insertRow_of_mem hrow, l, ht, le_rfl⟩
  · refine ⟨storedRow (.id l) assets, ?_, l, rfl, le_rfl⟩
    rw [e]
    exact List.mem_append_right _ (List.mem_singleton.mpr rfl)

/-- **The `INSERT` of a complete row.** A row with its clock may be there already. -/
theorem HubOk.insert (hs : HubOk C room s) {l : StreamId} (hl : InLog s.log l)
    {assets : AssetColumn → Asset β} (hassets : ∀ col, Resolves C room s l col (assets col)) :
    HubOk C room { s with rows := insertRow s.tombstone (storedRow (.id l) assets) s.rows } ∧
      Hub.Persisted { s with rows := insertRow s.tombstone (storedRow (.id l) assets) s.rows } l ∧
      ∀ i, s.Persisted i → Hub.Persisted
        { s with rows := insertRow s.tombstone (storedRow (.id l) assets) s.rows } i := by
  obtain ⟨hl', hpers⟩ := persisted_insert hs.not_hard l assets
  refine ⟨⟨hs.log_ok, hs.live_suffix, hs.not_hard, fun row hrow => ?_,
    nodup_insertRow hs.row_nodup, fun row hrow t ht col => ?_,
    fun u hu => (hs.covered u hu).imp_right (hpers u.id), hs.written_ok⟩, hl', hpers⟩
  · rcases mem_insertRow hrow with hrow | rfl
    · exact hs.row_id row hrow
    · exact ⟨l, rfl, hl⟩
  · rcases mem_insertRow hrow with hrow | rfl
    · exact hs.row_resolves row hrow t ht col
    · obtain rfl : l = t := Clock.id.inj ht
      exact ⟨assets col, rfl, hassets col⟩

omit [Preorder β] in
/-- The `DELETE` of rows below a clock that is persisted: what was persisted stays so. -/
theorem persisted_delete {l : StreamId} {refs : List (Reference β)}
    (hrefs : RefsTo room (· < l) refs) (hl : s.Persisted l) {i : StreamId} (hi : s.Persisted i) :
    Hub.Persisted { s with rows := deleteReferences room refs s.rows } i := by
  -- a row at `l` or later is not among the references
  have hkeep : ∀ row ∈ s.rows, ∀ t, row.t = .id t → l ≤ t →
      row ∈ deleteReferences room refs s.rows := by
    intro row hrow t ht hlt
    refine List.mem_filter.mpr ⟨hrow, decide_eq_true ?_⟩
    rintro ⟨ref, href, -, e⟩
    obtain ⟨col, t', hid, hlt'⟩ := hrefs ref href
    rw [hid, AssetColumn.assetId_t, ht] at e
    exact absurd hlt (not_le.mpr (Clock.id.inj e ▸ hlt'))
  obtain ⟨row, hrow, t, ht, hit⟩ := hi
  rcases le_or_gt l t with hlt | htl
  · exact ⟨row, hkeep row hrow t ht hlt, t, ht, hit⟩
  · obtain ⟨row', hrow', t', ht', hlt'⟩ := hl
    exact ⟨row', hkeep row' hrow' t' ht' hlt', t', ht', (hit.trans htl.le).trans hlt'⟩

/-- **The `DELETE` of rows below a clock that is persisted.** -/
theorem HubOk.delete (hs : HubOk C room s) {l : StreamId} {refs : List (Reference β)}
    (hrefs : RefsTo room (· < l) refs) (hl : s.Persisted l) :
    HubOk C room { s with rows := deleteReferences room refs s.rows } ∧
      ∀ i, s.Persisted i →
        Hub.Persisted { s with rows := deleteReferences room refs s.rows } i := by
  have hsub : ∀ row, row ∈ deleteReferences room refs s.rows → row ∈ s.rows :=
    fun row hrow => (List.mem_filter.mp hrow).1
  have hpers : ∀ i, s.Persisted i →
      Hub.Persisted { s with rows := deleteReferences room refs s.rows } i :=
    fun _ hi => persisted_delete hrefs hl hi
  exact ⟨⟨hs.log_ok, hs.live_suffix, hs.not_hard, fun row hrow => hs.row_id row (hsub row hrow),
    hs.row_nodup.sublist (List.filter_sublist.map _),
    fun row hrow => hs.row_resolves row (hsub row hrow),
    fun u hu => (hs.covered u hu).imp_right (hpers u.id), hs.written_ok⟩, hpers⟩

/-- A message is added, under an id above every id of the log. -/
theorem HubOk.addMessage (hs : HubOk C room s) (now : Nat) (m : Message β)
    (hid : ∀ e ∈ s.log, e.id < RedisStream.nextId now (s.redis.live room)) :
    HubOk C room { s with
        redis := addMessage now room m s.redis
        log := s.log ++ [⟨RedisStream.nextId now (s.redis.live room), .m m⟩] } ∧
      Grows C room (fun _ _ => True) s { s with
        redis := addMessage now room m s.redis
        log := s.log ++ [⟨RedisStream.nextId now (s.redis.live room), .m m⟩] } := by
  have hlog : LogOk (s.log ++ [⟨RedisStream.nextId now (s.redis.live room), .m m⟩]) :=
    hs.log_ok.xadd hid
  have hlt : ∀ {t : StreamId}, InLog s.log t →
      ∀ e ∈ [(⟨RedisStream.nextId now (s.redis.live room), .m m⟩ : Entry (Message β))], t < e.id :=
    fun ht _ he => (clockAt_id ht).lt_of_mem hlog he
  have hres : ∀ (t : StreamId) (col : AssetColumn) (a : Asset β), InLog s.log t →
      Resolves C room s t col a → Resolves C room { s with
        redis := YHub.addMessage now room m s.redis
        log := s.log ++ [⟨RedisStream.nextId now (s.redis.live room), .m m⟩] } t col a := by
    rintro t col a ht ⟨r, hr, hrep⟩
    exact ⟨r, hr, hrep.append (hlt ht)⟩
  refine ⟨⟨hlog, Hub.live_suffix_addMessage hs.live_suffix, hs.not_hard, fun row hrow => ?_,
    hs.row_nodup, fun row hrow t ht col => ?_, fun u hu => ?_, fun x hx => ?_⟩,
    ⟨⟨_, rfl⟩, hlog, fun _ h => h, fun t col a ht _ hr => hres t col a ht hr⟩⟩
  · obtain ⟨t, ht, hin⟩ := hs.row_id row hrow
    exact ⟨t, ht, hin.append⟩
  · obtain ⟨a, ha, hr⟩ := hs.row_resolves row hrow t ht col
    obtain ⟨t', ht', hin⟩ := hs.row_id row hrow
    obtain rfl := Clock.id.inj (ht'.symm.trans ht)
    exact ⟨a, ha, hres t' col a hin hr⟩
  · have hlive : (Hub.live room { s with
        redis := YHub.addMessage now room m s.redis
        log := s.log ++ [⟨RedisStream.nextId now (s.redis.live room), .m m⟩] }) =
        s.live room ++ [⟨RedisStream.nextId now (s.redis.live room), .m m⟩] :=
      addMessage_entries now room s.redis m
    rw [hlive]
    rw [updates_append] at hu ⊢
    rcases List.mem_append.mp hu with hu | hu
    · exact (hs.covered u hu).imp_left (List.mem_append_left _)
    · exact Or.inl (List.mem_append_right _ hu)
  · obtain ⟨t, ht, hin, hrep⟩ := hs.written_ok x hx
    exact ⟨t, ht, hin.append, fun col => (hrep col).append (hlt hin)⟩

/-- The object is not pointed to: by no row, no asset a process has yet to retrieve, and none it
has stored and not yet inserted. -/
def Unreferenced (room : Room) (x : Interleave.State (Hub β) Nat (Proc β)) (o : ObjectId) : Prop :=
  (∀ row ∈ x.1.rows, ∀ (col : AssetColumn) a, row.asset col = some a →
    ¬ PointsTo o (col.assetId room row.t) a) ∧
  ∀ i id a, (x.2 i).Relies room id a → ¬ PointsTo o id a

/-- **The removal of an object that nothing points to.** -/
theorem HubOk.removeObject (hs : HubOk C room s) {ps : Nat → Proc β} {o : ObjectId}
    (ho : Unreferenced room (s, ps) o) (timers : List ObjectId) :
    HubOk C room { s with objects := Function.update s.objects o none, timers := timers } ∧
      ∀ i, Grows C room (fun id a => (ps i).Relies room id a) s
        { s with objects := Function.update s.objects o none, timers := timers } := by
  have hres : ∀ t (col : AssetColumn) a, ¬ PointsTo o (col.assetId room (.id t)) a →
      Resolves C room s t col a → Resolves C room
        { s with objects := Function.update s.objects o none, timers := timers } t col a := by
    rintro t col a hn ⟨r, hr, hrep⟩
    exact ⟨r, (retrieve_update hn none).trans hr, hrep⟩
  refine ⟨⟨hs.log_ok, hs.live_suffix, hs.not_hard, hs.row_id, hs.row_nodup,
    fun row hrow t ht col => ?_, hs.covered, hs.written_ok⟩, fun i => ⟨⟨[], ?_⟩, hs.log_ok,
      fun _ h => h, fun t col a _ hrel hr => hres t col a (ho.2 i _ a hrel) hr⟩⟩
  · obtain ⟨a, ha, hr⟩ := hs.row_resolves row hrow t ht col
    exact ⟨a, ha, hres t col a (ht ▸ ho.1 row hrow col a ha) hr⟩
  · exact (List.append_nil _).symm

/-! ## Reading the rows -/

section Reading

variable {rows : List (Row β)}

omit [Preorder β] in
/-- The last clock of rows whose clocks are stream ids, in whatever order they come: that of one of
them, and no row is above it. -/
theorem exists_lastClock (hid : ∀ row ∈ s.rows, ∃ t, row.t = .id t)
    (hnodup : (s.rows.map Row.t).Nodup) (hsort : SortSpec C.sort) (hrows : rows.Perm s.rows) :
    ∃ p, (lastClockOf C.sort rows = .zero ∧ p = .zero ∨
        ∃ row ∈ rows, row.t = .id p ∧ lastClockOf C.sort rows = .id p) ∧
      ∀ i, s.Persisted i → i ≤ p := by
  by_cases hne : rows = []
  · subst hne
    refine ⟨.zero, Or.inl ⟨lastClock_nil hsort, rfl⟩, ?_⟩
    rintro i ⟨row, hrow, -⟩
    rw [← hrows.mem_iff] at hrow
    exact absurd hrow List.not_mem_nil
  · have hid : ∀ row ∈ rows, ∃ i, row.t = .id i := fun row hrow => hid row (hrows.mem_iff.mp hrow)
    have hnodup : (rows.map Row.t).Nodup := (hrows.map Row.t).nodup_iff.mpr hnodup
    obtain ⟨row, hrow, he⟩ := lastClock_mem hsort hne
    obtain ⟨p, hp⟩ := hid row hrow
    refine ⟨p, Or.inr ⟨row, hrow, hp, he.symm.trans hp⟩, ?_⟩
    rintro i ⟨row', hrow', t', ht', hit⟩
    have hmax := lastClock_max hsort (comparable_of_nodup hid hnodup) (hrows.mem_iff.mpr hrow')
    rw [← he, hp, ht', Clock.id_isSmaller_id, decide_eq_true_eq] at hmax
    exact hit.trans (hmax.elim (fun h => (Clock.id.inj h).le) le_of_lt)

/-- The last clock of the rows, in whatever order they come: no row is above it. -/
theorem HubOk.lastClock (hs : HubOk C room s) (hsort : SortSpec C.sort)
    (hrows : rows.Perm s.rows) : ∃ p, PersistedOk s (lastClockOf C.sort rows) p ∧
      (∀ i, s.Persisted i → i ≤ p) ∧ (p = .zero ∨ ∃ row ∈ rows, row.t = .id p) := by
  obtain ⟨p, hp, hmax⟩ := exists_lastClock (fun row hrow => (hs.row_id row hrow).imp
    fun _ h => h.1) hs.row_nodup hsort hrows
  rcases hp with ⟨e, rfl⟩ | ⟨row, hrow, ht, e⟩
  · refine ⟨.zero, ⟨?_, Or.inl rfl⟩, hmax, Or.inl rfl⟩
    rw [e]
    exact clockAt_zero
  · have hrow' := hrows.mem_iff.mp hrow
    obtain ⟨t, ht', hin⟩ := hs.row_id row hrow'
    obtain rfl := Clock.id.inj (ht'.symm.trans ht)
    refine ⟨t, ⟨?_, Or.inr ⟨row, hrow', t, ht, le_rfl⟩⟩, hmax, Or.inr ⟨row, hrow, ht⟩⟩
    rw [e]
    exact clockAt_id hin

/-- **What a `SELECT` says**, right after it: the last clock is above every other row. -/
theorem HubOk.select (hs : HubOk C room s) (hsort : SortSpec C.sort) (hrows : rows.Perm s.rows)
    (i : Include) {ra : RetrievedAssets β} (hra : ra = retrieveAssets C.sort room
      { i with contentids := true } false s.tombstone rows) :
    ∃ p, SelectedOk C room s i ra (toRetrieve ra.assets) [] p ∧ ∀ j, s.Persisted j → j ≤ p := by
  subst hra
  obtain ⟨p, hp, hmax, hlast⟩ := hs.lastClock hsort hrows
  have hrow_le : ∀ row ∈ rows, ∃ t, row.t = .id t ∧ t ≤ p ∧ InLog s.log t := by
    intro row hrow
    obtain ⟨t, ht, hin⟩ := hs.row_id row (hrows.mem_iff.mp hrow)
    exact ⟨t, ht, hmax t ⟨row, hrows.mem_iff.mp hrow, t, ht, le_rfl⟩, hin⟩
  refine ⟨p, ⟨hp, fun ref href => ?_, fun id a hmem => ?_, fun id a hmem => ?_, ?_⟩, hmax⟩
  · obtain ⟨row, hrow, col, -, rfl⟩ := mem_assets.mp href
    obtain ⟨t, ht, htp, -⟩ := hrow_le row hrow
    exact ⟨col, t, by rw [ht], htp⟩
  · obtain ⟨ref, href, hmap⟩ := List.mem_filterMap.mp hmem
    obtain ⟨row, hrow, col, -, rfl⟩ := mem_assets.mp href
    obtain ⟨a', ha', e⟩ := Option.map_eq_some_iff.mp hmap
    obtain ⟨rfl, rfl⟩ := Prod.mk.inj e
    obtain ⟨t, ht, htp, hin⟩ := hrow_le row hrow
    obtain ⟨a'', ha'', hr⟩ := hs.row_resolves row (hrows.mem_iff.mp hrow) t ht col
    obtain rfl := Option.some.inj (ha'.symm.trans ha'')
    exact ⟨col, t, by rw [ht], htp, hin, hr⟩
  · exact absurd hmem List.not_mem_nil
  · refine hlast.imp_right fun ⟨row, hrow, ht⟩ col hcol => ?_
    obtain ⟨a, ha, -⟩ := hs.row_resolves row (hrows.mem_iff.mp hrow) p ht col
    refine ⟨a, Or.inl (List.mem_filterMap.mpr ⟨_, mem_assets.mpr ⟨row, hrow, col, hcol, rfl⟩, ?_⟩)⟩
    simp [ha, ht]

/-! ## Reading the stream -/

/-- **What a read of the stream says.** -/
theorem HubOk.getMessages (hs : HubOk C room s) :
    ∃ c, CachedOk s (getMessages (s.redis.live room)) c ∧ (s.live room = [] → c = .zero) := by
  obtain ⟨hmessages, c, hc, hle, hnil⟩ := hs.log_ok.getMessages hs.live_suffix
  refine ⟨c, ⟨hc, fun x hx => ?_, ?_, fun x hx => ?_, fun u hu _ => ?_⟩, hnil⟩
  · rw [hmessages] at hx
    exact mem_messagesOf.mpr (hs.live_suffix.subset (mem_messagesOf.mp hx))
  · rw [hmessages]
    exact sorted_messagesOf (hs.log_ok.sorted.sublist hs.live_suffix.sublist)
  · rw [hmessages] at hx
    exact hle _ (mem_messagesOf.mp hx)
  · rw [hmessages]
    exact hs.covered u hu

end Reading

/-! ## A `getDoc` call -/

/-- At the `XREAD` of a call that has made its `SELECT`, the stream is empty or holds every update
after the clock that was selected. -/
def ReadsSafely (room : Room) (s : Hub β) (g : Retrieval β) : Prop :=
  ∀ ra p, g.selected = some ra → ra.lastClock.toId? = some p →
    s.live room = [] ∨ ∀ u ∈ updates s.log, p < u.id → u ∈ updates (s.live room)

section Retrieval

variable {i : Include} {g g' : Retrieval β} {reads : Hub β → Retrieval β → Prop}

theorem RetrievalOk.start (cached : Option (Messages (Message β)))
    (h : ∀ m, cached = some m → ∃ c, CachedOk s m c) :
    RetrievalOk C room s i (.start cached) :=
  ⟨h, fun _ hra => absurd hra (by simp [Retrieval.start]), fun _ => ⟨rfl, rfl⟩,
    fun _ _ _ _ _ hra => absurd hra (by simp [Retrieval.start])⟩

/-- The step lemma. -/
theorem RetrievalOk.step (hs : HubOk C room s) (hsort : SortSpec C.sort)
    (hreads : ∀ s g, reads s g → ReadsSafely room s g) (hg : RetrievalOk C room s i g)
    (hstep : RetrievalStep C room reads i s g g') : RetrievalOk C room s i g' := by
  cases hstep with
  | select rows hrows hnone =>
    obtain ⟨p, hp, hmax⟩ := hs.select hsort hrows i rfl
    refine ⟨hg.cached, fun ra hra => ?_, fun h => absurd h (by simp), ?_⟩
    · obtain rfl := Option.some.inj hra
      exact ⟨p, by rw [(hg.unread hnone).2]; exact hp⟩
    · rintro m ra c p' hm hra hmc hrp u hu hpu huc
      obtain rfl := Option.some.inj hra
      obtain rfl : p = p' := Option.some.inj (hp.persisted.clock.toId?.symm.trans hrp)
      obtain ⟨c', hc⟩ := hg.cached m hm
      obtain rfl : c' = c := Option.some.inj (hc.clock.toId?.symm.trans hmc)
      -- an update that is persisted by now is not after the clock that was selected
      exact (hc.complete u hu huc).resolve_right fun hpers =>
        absurd (hmax _ hpers) (not_le.mpr hpu)
  | xread hnone hread =>
    obtain ⟨c, hc, hzero⟩ := hs.getMessages
    refine ⟨fun m hm => ?_, hg.selected, hg.unread, ?_⟩
    · obtain rfl := Option.some.inj hm
      exact ⟨c, hc⟩
    · rintro m ra c' p hm hra hmc hrp u hu hpu huc
      obtain rfl := Option.some.inj hm
      obtain rfl : c = c' := Option.some.inj (hc.clock.toId?.symm.trans hmc)
      rcases hreads s g hread ra p hra hrp with hnil | hlive
      · rw [hzero hnil] at huc
        exact absurd huc (not_le.mpr (hs.log_ok.lt_of_mem_updates hu))
      · have hmem := mem_updates.mp (hlive u hu hpu)
        refine mem_updatesIn.mpr (mem_messagesOf.mpr (List.mem_filter.mpr ⟨hmem, ?_⟩))
        exact decide_eq_true (hs.log_ok.lt_of_mem_updates hu)
  | retrieve before after id a htodo =>
    have hmem : (id, a) ∈ g.todo := by
      rw [htodo]
      exact List.mem_append_right _ List.mem_cons_self
    refine ⟨hg.cached, fun ra hra => ?_, fun hnone => ?_, hg.joined⟩
    · obtain ⟨p, hp⟩ := hg.selected ra hra
      obtain ⟨col, t, rfl, htp, hin, r, hr, hrep⟩ := hp.todo_ok id a hmem
      refine ⟨p, hp.persisted, hp.refs, fun id' a' hmem' => ?_, ?_, ?_⟩
      · refine hp.todo_ok id' a' ?_
        rw [htodo]
        rcases List.mem_append.mp hmem' with h | h
        · exact List.mem_append_left _ h
        · exact List.mem_append_right _ (List.mem_cons_of_mem _ h)
      · rw [hr]
        rintro id' a' hmem'
        rcases List.mem_append.mp hmem' with h | h
        · exact hp.retrieved_ok id' a' h
        · obtain ⟨rfl, rfl⟩ := Prod.mk.inj (List.mem_singleton.mp h)
          exact ⟨col, t, rfl, htp, hrep⟩
      · rw [hr]
        refine hp.last.imp_right fun hlast col' hcol' => ?_
        obtain ⟨a', h | h⟩ := hlast col' hcol'
        · rw [htodo] at h
          rcases List.mem_append.mp h with h | h
          · exact ⟨a', Or.inl (List.mem_append_left _ h)⟩
          rcases List.mem_cons.mp h with e | h
          · refine ⟨r, Or.inr (List.mem_append_right _ (List.mem_singleton.mpr ?_))⟩
            rw [(Prod.mk.inj e).1]
          · exact ⟨a', Or.inl (List.mem_append_right _ h)⟩
        · exact ⟨a', Or.inr (List.mem_append_left _ h)⟩
    · -- without a `SELECT` there is nothing to retrieve
      rw [(hg.unread hnone).1] at hmem
      exact absurd hmem List.not_mem_nil

/-- With the reads behind it, a call has the rows up to `p` and every later update up to `c`. -/
theorem newer_eq (hs : HubOk C room s) {cached : Messages (Message β)} {ra : RetrievedAssets β}
    {p c : StreamId} (hp : ClockAt s.log ra.lastClock p) (hc : CachedOk s cached c)
    (hjoined : Joined s cached p c) :
    (updatesIn cached.messages).filter (fun u => ra.lastClock.isSmaller (.id u.id)) =
      between Update.id p (max p c) (updates s.log) := by
  have hsmaller : ∀ u : Update β, ra.lastClock.isSmaller (.id u.id) = true ↔ p < u.id :=
    fun u => Clock.isSmaller_iff_lt hp.toId? rfl
  refine eq_of_mem_iff ((sorted_updatesIn hc.sorted).filter _)
    ((sorted_updates hs.log_ok.sorted).filter _) fun u => ?_
  rw [mem_between, List.mem_filter, hsmaller]
  constructor
  · rintro ⟨hu, hpu⟩
    have hu := mem_updatesIn.mp hu
    refine ⟨?_, hpu, (hc.le _ hu).trans (le_max_right p c)⟩
    exact mem_updatesIn.mpr (hc.mem_log _ hu)
  · rintro ⟨hu, hpu, hul⟩
    rcases le_max_iff.mp hul with hle | hle
    · exact absurd hle (not_le.mpr hpu)
    · exact ⟨hjoined u hu hpu hle, hpu⟩

/-- **What the document of a `getDoc` call stands for**: the log up to its last clock. -/
theorem RetrievalOk.yields (hY : C.Y.Lawful) (hs : HubOk C room s) (hg : RetrievalOk C room s i g)
    {gcOnMerge : Bool} {d : DocTable β} (hd : g.Yields C i gcOnMerge d) :
    ∃ p l, PersistedOk s d.lastPersistedClock p ∧ p ≤ l ∧ ReturnedOk C s i d l ∧
      ∀ refs, d.references = some refs → RefsTo room (· ≤ p) refs := by
  obtain ⟨cached, ra, hcached, hselected, htodo, rfl⟩ := hd
  obtain ⟨c, hc⟩ := hg.cached cached hcached
  obtain ⟨p, hp⟩ := hg.selected ra hselected
  have hjoined := hg.joined cached ra c p hcached hselected hc.clock.toId? hp.persisted.clock.toId?
  have hrows : PersistedUpTo C.Y s.log room p { i with contentids := true } g.retrieved := by
    refine ⟨hp.retrieved_ok, hp.last.imp (fun hz => ?_) fun hlast col hcol => ?_⟩
    · rw [hz]
      exact hs.log_ok.updatesUpTo_zero
    · obtain ⟨a, h | h⟩ := hlast col hcol
      · rw [htodo] at h
        exact absurd h List.not_mem_nil
      · exact ⟨a, h⟩
  refine ⟨p, max p c, hp.persisted, le_max_left p c,
    ⟨hp.persisted.clock.max hc.clock, fun col hcol => ?_⟩, fun refs hrefs => ?_⟩
  · exact getDoc_represents hY gcOnMerge hrows (sorted_updates hs.log_ok.sorted)
      (le_max_left p c) (newer_eq hs hp.persisted.clock hc hjoined)
      (fun hn => prunesIn_eq_nil hn hc.mem_log) hcol
  · have hrefs : (if i.references then some ra.assets else none) = some refs := hrefs
    cases hi : i.references with
    | false =>
      rw [hi] at hrefs
      exact absurd hrefs (by simp)
    | true =>
      rw [hi] at hrefs
      obtain rfl := Option.some.inj hrefs
      exact hp.refs

end Retrieval

/-! ## The pre-check -/

/-- **With nothing to compact, a trim up to everything the run has seen is safe.** -/
theorem trimSafe_of_nothing {cached : Messages (Message β)} {c p : StreamId} {persisted : Clock}
    {tombstone : Option Tombstone} (hs : HubOk C room s) (hc : CachedOk s cached c)
    (hp : PersistedOk s persisted p) (hhard : tombstone.any Tombstone.hard = false)
    (h : nothingToCompact persisted tombstone cached.messages = true) :
    TrimSafe s (persisted.max cached.lastClock) := by
  refine ⟨max p c, hp.clock.max hc.clock, fun u hu hle => ?_⟩
  have hupto : u.id ≤ p → s.Persisted u.id := fun hup => by
    rcases hp.persisted with rfl | hpers
    · exact absurd hup (not_le.mpr (hs.log_ok.lt_of_mem_updates hu))
    · exact hpers.anti hup
  rcases le_max_iff.mp hle with hup | huc
  · exact hupto hup
  rcases hc.complete u hu huc with hmem | hpers
  · -- an update among the messages would have been something to compact
    obtain ⟨q, hq, -, hlast⟩ := le_lastUpdateClock hp.clock hc.mem_log
    unfold nothingToCompact at h
    rw [hhard, Bool.false_or, Bool.not_eq_true', Clock.not_isSmaller_iff_le hp.clock.toId?
      hq.toId?] at h
    exact hupto ((hlast _ (mem_updatesIn.mp hmem) rfl).trans h)
  · exact hpers

/-! ## Steps -/

theorem HubOk.written (hs : HubOk C room s) {l : StreamId} (hl : InLog s.log l)
    {c : DocContent β} (hc : ∀ col, Represents C.Y s.log l col (c.asset col)) :
    HubOk C room { s with written := (.id l, c) :: s.written } where
  log_ok := hs.log_ok
  live_suffix := hs.live_suffix
  not_hard := hs.not_hard
  row_id := hs.row_id
  row_nodup := hs.row_nodup
  row_resolves := hs.row_resolves
  covered := hs.covered
  written_ok x hx := by
    rcases List.mem_cons.mp hx with rfl | hx
    · exact ⟨l, rfl, hl, hc⟩
    · exact hs.written_ok x hx

theorem HubOk.timers (hs : HubOk C room s) (timers : List ObjectId) :
    HubOk C room { s with timers := timers } :=
  ⟨hs.log_ok, hs.live_suffix, hs.not_hard, hs.row_id, hs.row_nodup, hs.row_resolves, hs.covered,
    hs.written_ok⟩

/-- The plugin chain stores one asset of a document. -/
theorem StoringOk.put {d : DocTable β} {c : DocContent β}
    {assets : AssetColumn → Option (Asset β)} {l : StreamId}
    (h : StoringOk C room s d c assets l) (col : AssetColumn) :
    StoringOk C room { s with objects := (tryPersistencePluginStore C.plugins
        (col.assetId room (.id l)) (c.asset col) s.objects).1 } d c
      (Function.update assets col (some (tryPersistencePluginStore C.plugins
        (col.assetId room (.id l)) (c.asset col) s.objects).2)) l where
  clock := h.clock
  inLog := h.inLog
  refs := h.refs
  represents := h.represents
  resolves col' a ha := by
    by_cases hcol : col' = col
    · subst hcol
      rw [Function.update_self] at ha
      obtain rfl := Option.some.inj ha
      exact ⟨c.asset col', retrieve_store (c.asset_isReference col'), h.represents col'⟩
    · rw [Function.update_of_ne hcol] at ha
      exact (h.resolves col' a ha).put (h.represents col)

variable {p p' : Proc β}

/-- **A step of a run of `_runTask`.** -/
theorem worker_step (hY : C.Y.Lawful) (hsort : SortSpec C.sort) (hs : HubOk C room s)
    (hp : ProcOk C room s p) (h : WorkerStep C room s p s' p') :
    HubOk C room s' ∧ Grows C room (fun _ _ => True) s s' ∧ ProcOk C room s' p' := by
  have hsame : Grows C room (fun _ _ => True) s s := Grows.same hs
  cases h with
  | start task =>
    exact ⟨hs, hsame, fun _ hm => absurd hm (by simp), fun _ hx => absurd hx (by simp)⟩
  | precheckStream task persisted =>
    obtain ⟨c, hc, -⟩ := hs.getMessages
    exact ⟨hs, hsame, fun m hm => ⟨c, Option.some.inj hm ▸ hc⟩, hp.2⟩
  | precheckClock task cached rows hrows =>
    obtain ⟨q, hq, -⟩ := hs.lastClock hsort hrows
    refine ⟨hs, hsame, hp.1, fun x hx => ?_⟩
    obtain rfl := Option.some.inj hx
    exact ⟨hs.not_hard, q, hq⟩
  | nothing task cached persisted tombstone hn =>
    obtain ⟨c, hc⟩ := hp.1 cached rfl
    obtain ⟨hhard, q, hq⟩ := hp.2 _ rfl
    exact ⟨hs, hsame, trimSafe_of_nothing hs hc hq hhard hn⟩
  | proceed task cached persisted tombstone hn =>
    exact ⟨hs, hsame, RetrievalOk.start _ hp.1⟩
  | fetch task g g' hg =>
    exact ⟨hs, hsame, RetrievalOk.step hs hsort (fun _ _ => False.elim) hp hg⟩
  | outrun task g d hd hout =>
    -- the last clock is the persisted one, so everything up to it is persisted
    obtain ⟨q, l, hq, hql, hret, -⟩ := RetrievalOk.yields hY hs hp hd
    refine ⟨hs, hsame, l, hret.clock, fun u hu hul => ?_⟩
    unfold YHub.outrun at hout
    rw [Bool.not_eq_true', Clock.not_isSmaller_iff_le hq.clock.toId? hret.clock.toId?] at hout
    rcases hq.persisted with rfl | hpers
    · exact absurd (hul.trans hout) (not_le.mpr (hs.log_ok.lt_of_mem_updates hu))
    · exact hpers.anti (hul.trans hout)
  | merged task g d c hd hout hc =>
    obtain ⟨q, l, hq, hql, hret, hrefs⟩ := RetrievalOk.yields hY hs hp hd
    unfold YHub.outrun at hout
    rw [Bool.not_eq_false', Clock.isSmaller_iff_lt hq.clock.toId? hret.clock.toId?] at hout
    obtain ⟨hclock, hin⟩ : d.lastClock = .id l ∧ InLog s.log l := by
      refine hret.clock.resolve_left fun hz => ?_
      rw [hz.2] at hout
      exact absurd (StreamId.zero_le q) (not_le.mpr hout)
    have hrep : ∀ col, Represents C.Y s.log l col (c.asset col) := fun col => by
      obtain ⟨a, ha, hr⟩ := hret.represents col (by cases col <;> rfl)
      obtain rfl := Option.some.inj (ha.symm.trans (DocTable.content?_asset hc col))
      exact hr
    refine ⟨?_, Grows.of_eq hs rfl rfl rfl, l, hclock, hin,
      fun refs href ref hmem => ?_, hrep, fun col a ha => absurd ha (by simp)⟩
    · rw [hclock]
      exact hs.written hin hrep
    · obtain ⟨col, t, hid, hle⟩ := hrefs refs href ref hmem
      exact ⟨col, t, hid, hle.trans_lt hout⟩
  | put task d c assets col hnone =>
    obtain ⟨l, hl⟩ := hp
    rw [hl.clock]
    exact ⟨hs.put (hl.represents col), ⟨hsame.log, hs.log_ok, fun _ hi => hi,
      fun _ _ _ _ _ hr => hr.put (hl.represents col)⟩, l, hl.put col⟩
  | insert task d c assets =>
    obtain ⟨l, hl⟩ := hp
    rw [hl.clock]
    obtain ⟨hs', hpers, hmono⟩ := hs.insert hl.inLog fun col => hl.resolves col _ rfl
    exact ⟨hs', ⟨hsame.log, hs.log_ok, hmono, fun _ _ _ _ _ hr => hr⟩, l, hl.clock, hl.inLog,
      hl.refs, hpers⟩
  | schedule task d refs hrefs =>
    obtain ⟨l, hl⟩ := hp
    exact ⟨hs.timers _, Grows.of_eq hs rfl rfl rfl, l,
      hl.clock, hl.inLog, hl.refs, hl.persisted⟩
  | delete task d refs trimmed hrefs =>
    obtain ⟨l, hl⟩ := hp
    obtain ⟨hs', hmono⟩ := hs.delete (hl.refs refs hrefs) hl.persisted
    exact ⟨hs', ⟨hsame.log, hs.log_ok, hmono, fun _ _ _ _ _ hr => hr⟩, l, hl.clock, hl.inLog,
      hl.refs, hmono l hl.persisted⟩
  | trimAfter task d deleted now =>
    obtain ⟨l, hl⟩ := hp
    have hsafe : TrimSafe s d.lastClock :=
      ⟨l, hl.clock ▸ clockAt_id hl.inLog, fun _ _ hul => hl.persisted.anti hul⟩
    exact ⟨hs.trim hsafe now _ task, Grows.of_eq hs rfl rfl rfl,
      l, hl.clock, hl.inLog, hl.refs, hl.persisted⟩
  | trim task minId maxAgeMs now =>
    exact ⟨hs.trim hp now maxAgeMs task, Grows.of_eq hs rfl rfl rfl, trivial⟩
  | stop => exact ⟨hs, hsame, trivial⟩

variable {reads : Hub β → Retrieval β → Prop}

/-- **A step of a reader.** -/
theorem read_step (hY : C.Y.Lawful) (hsort : SortSpec C.sort)
    (hreads : ∀ s g, reads s g → ReadsSafely room s g) (hs : HubOk C room s)
    (hp : ProcOk C room s p) (h : ReadStep C room reads s p s' p') :
    s' = s ∧ ProcOk C room s' p' := by
  cases h with
  | start i gcOnMerge => exact ⟨rfl, RetrievalOk.start none fun _ hm => absurd hm (by simp)⟩
  | read i gcOnMerge g g' hg => exact ⟨rfl, RetrievalOk.step hs hsort hreads hp hg⟩
  | finish i gcOnMerge g d hd =>
    obtain ⟨-, l, -, -, hret, -⟩ := RetrievalOk.yields hY hs hp hd
    exact ⟨rfl, l, hret⟩

variable {admits : Message β → Prop}
  {fires : Interleave.State (Hub β) Nat (Proc β) → ObjectId → Prop}

/-- **A step of the rest of the world.** -/
theorem world_step (hfires : ∀ x o, fires x o → Unreferenced room x o) {ps : Nat → Proc β}
    (h : Interleave.Holds (HubOk C room) (ProcOk C room) (s, ps))
    (hw : World room admits fires (s, ps) s') :
    HubOk C room s' ∧ ∀ i, ProcOk C room s' (ps i) := by
  have hs : HubOk C room s := h.1
  have hps : ∀ i, ProcOk C room s (ps i) := h.2
  cases hw with
  | addMessage _ _ now m hm hid =>
    obtain ⟨hs', hgrows⟩ := hs.addMessage now m hid
    exact ⟨hs', fun i => ProcOk.mono hgrows.weaken (hps i)⟩
  | otherKeys _ _ r hr =>
    have hlive : RedisStream.entriesOf (r.live room) = s.live room := by
      unfold Hub.live
      rw [hr]
    refine ⟨hs.redis (by rw [hlive]) fun u hu => Or.inl (by rwa [hlive]), fun i => ?_⟩
    exact ProcOk.mono (Grows.of_eq hs rfl rfl rfl) (hps i)
  | softDelete _ _ tombstone hhard =>
    refine ⟨⟨hs.log_ok, hs.live_suffix, hhard, hs.row_id, hs.row_nodup, hs.row_resolves,
      hs.covered, hs.written_ok⟩, fun i => ?_⟩
    exact ProcOk.mono (Grows.of_eq hs rfl rfl rfl) (hps i)
  | removeObject _ _ before after o htimers hfire =>
    obtain ⟨hs', hgrows⟩ := hs.removeObject (hfires _ o hfire) (before ++ after)
    exact ⟨hs', fun i => ProcOk.mono (hgrows i) (hps i)⟩

theorem hubOk_empty : HubOk C room (Hub.empty : Hub β) where
  log_ok := ⟨List.Pairwise.nil, fun _ he => absurd he List.not_mem_nil⟩
  live_suffix := List.suffix_rfl
  not_hard := rfl
  row_id _ hrow := absurd hrow List.not_mem_nil
  row_nodup := List.nodup_nil
  row_resolves _ hrow := absurd hrow List.not_mem_nil
  covered _ hu := absurd hu List.not_mem_nil
  written_ok _ hx := absurd hx List.not_mem_nil

/-- **The invariant holds throughout every run**, in which objects are removed when nothing points
to them and readers read the stream while it has what they need. -/
theorem hub_invariant (hY : C.Y.Lawful) (hsort : SortSpec C.sort)
    (hfires : ∀ x o, fires x o → Unreferenced room x o)
    (hreads : ∀ s g, reads s g → ReadsSafely room s g)
    {x : Interleave.State (Hub β) Nat (Proc β)} (hx : HubReach C room admits fires reads x) :
    Interleave.Holds (HubOk C room) (ProcOk C room) x := by
  have h₀ : Interleave.Holds (HubOk C room) (ProcOk C room)
      ((Hub.empty, fun _ => .idle) : Interleave.State (Hub β) Nat (Proc β)) :=
    ⟨hubOk_empty, fun _ => trivial⟩
  refine Interleave.reach_guarantee (G := Grows C room fun _ _ => True) h₀
    (fun s s' p _ _ hG hp => ProcOk.mono hG.weaken hp)
    (fun s ps s' h hw => world_step hfires h hw) (fun s p s' p' hs hp h => ?_) hx
  rcases h with h | h
  · exact worker_step hY hsort hs hp h
  · obtain ⟨rfl, hp'⟩ := read_step hY hsort hreads hs hp h
    exact ⟨hs, Grows.same hs, hp'⟩

omit [Preorder β] in
/-- The log of a run holds messages that were admitted. -/
theorem admitted_of_mem_log {x : Interleave.State (Hub β) Nat (Proc β)}
    (hx : HubReach C room admits fires reads x) :
    ∀ e ∈ x.1.log, ∃ m, e.field = .m m ∧ admits m := by
  have h₀ : Interleave.Holds (fun s : Hub β => ∀ e ∈ s.log, ∃ m, e.field = .m m ∧ admits m)
      (fun _ _ => True) ((Hub.empty, fun _ => .idle) : Interleave.State (Hub β) Nat (Proc β)) :=
    ⟨fun _ he => absurd he List.not_mem_nil, fun _ => trivial⟩
  refine (Interleave.reach_invariant h₀ (fun s ps s' h hw => ⟨?_, fun _ => trivial⟩)
    (fun s p s' p' hs _ h => ⟨?_, trivial, fun _ hk => hk⟩) hx).1
  · have hs : ∀ e ∈ s.log, ∃ m, e.field = .m m ∧ admits m := h.1
    cases hw with
    | addMessage _ _ now m hm hid =>
      intro e he
      rcases List.mem_append.mp he with he | he
      · exact hs e he
      · rw [List.mem_singleton.mp he]
        exact ⟨m, rfl, hm⟩
    | _ => exact hs
  · rcases h with h | h <;> cases h <;> exact hs

end YHub
