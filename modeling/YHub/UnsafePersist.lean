import YHub.Invariant
import YHub.RunTask

/-!
# A row that did not come from the stream (`index.js:436-454`)

`getDoc` and `_runTask` take a message for persisted when it is not newer than the last row clock.
That holds of the rows a compaction stores. `unsafePersistDoc` stores a row under the current time,
`'<ms>-I'`, which hides every message of that millisecond or an earlier one that is still on the
stream: `getDoc` skips it, `_runTask` finds nothing to compact and trims it.

A document is the join of its `parts`: what the rows hold, and the updates on the stream that are
newer than every row (`Above`). The runs are those of one worker at a time: messages are added, the
room is compacted and trimmed (a trim may come at any time after its compaction, and more than
once), and `unsafePersistDoc` is called. From each call on, its document and the updates that were
on the stream are `owed`.

* `owed_covered`: `getDoc` covers whatever is owed, in every run whose `unsafePersistDoc` calls hide
  nothing: no row is of their millisecond, and every update on the stream stays among the parts or
  is contained in them (`HidesNothing`). And in each of the states reached, a call covers its
  document and the updates on the stream if and only if it is one of these.
* `unsafePersistDoc_hides_update`: an update is on the stream when the document is persisted.
-/

namespace YHub

variable {β : Type}

/-! ## What `getDoc` merges -/

namespace Hub

/-- A message with this id is newer than every row. -/
def Above (s : Hub β) (i : StreamId) : Prop := ∀ row ∈ s.rows, row.t.isSmaller (.id i) = true

/-- What the rows hold of the document. -/
def persistedParts (C : Conf β) (room : Room) (gc : Bool) (s : Hub β) : Set β :=
  {v | ∃ row ∈ s.rows, s.Retrieves C room row (.doc gc) (.ydoc v)}

/-- The updates on the stream that are newer than every row, and for which `P` holds. -/
def pendingParts (room : Room) (P : StreamId → Prop) (s : Hub β) : Set β :=
  {v | ∃ u ∈ updates (s.live room), (s.Above u.id ∧ P u.id) ∧ u.update = v}

/-- The parts of the document. -/
def parts (C : Conf β) (room : Room) (gc : Bool) (s : Hub β) : Set β :=
  s.persistedParts C room gc ∪ s.pendingParts room (fun _ => True)

end Hub

/-- What is known of a room at any time between operations. -/
structure RowsOk (C : Conf β) (room : Room) (s : Hub β) : Prop where
  log_ok : LogOk s.log
  live_suffix : s.live room <:+ s.log
  not_hard : s.tombstone.any Tombstone.hard = false
  comparable : (s.rows.map Row.t).Pairwise Comparable
  retrieves : ∀ row ∈ s.rows, ∀ col, ∃ r, s.Retrieves C room row col r ∧ col.Fits r

variable {C : Conf β} {room : Room} {s : Hub β}

theorem RowsOk.pos (hs : RowsOk C room s) {u : Update β} (hu : u ∈ updates (s.live room)) :
    StreamId.zero < u.id :=
  hs.log_ok.pos _ (hs.live_suffix.subset (mem_updates.mp hu))

theorem Hub.Retrieves.unique {row : Row β} {col : AssetColumn} {r r' : Asset β}
    (h : s.Retrieves C room row col r) (h' : s.Retrieves C room row col r') : r = r' := by
  obtain ⟨a, ha, hr⟩ := h
  obtain ⟨a', ha', hr'⟩ := h'
  obtain rfl := Option.some.inj (ha.symm.trans ha')
  exact Option.some.inj (hr.symm.trans hr')

/-- What `getDoc` takes from the rows. -/
theorem mem_found {i : Include} {id : AssetId Clock} {r : Asset β} :
    (id, r) ∈ s.found C (toRetrieve (s.selected C room i).assets) ↔
      ∃ row ∈ s.rows, ∃ col, AssetColumn.included { i with contentids := true } col = true ∧
        id = col.assetId room row.t ∧ s.Retrieves C room row col r := by
  unfold Hub.found toRetrieve Hub.selected
  simp only [List.mem_filterMap, mem_assets, Option.map_eq_some_iff]
  constructor
  · rintro ⟨x, ⟨ref, ⟨row, hrow, col, hcol, rfl⟩, a, ha, rfl⟩, r', hr', e⟩
    obtain ⟨rfl, rfl⟩ := Prod.mk.inj e
    exact ⟨row, hrow, col, hcol, rfl, a, ha, hr'⟩
  · rintro ⟨row, hrow, col, hcol, rfl, a, ha, hr⟩
    exact ⟨_, ⟨_, ⟨row, hrow, col, hcol, rfl⟩, a, ha, rfl⟩, r, hr, rfl⟩

/-- **A message is newer than the last row clock** when it is newer than every row. -/
theorem lastClock_isSmaller_iff (hs : RowsOk C room s) (hsort : SortSpec C.sort) {i : StreamId}
    (hi : StreamId.zero < i) :
    (s.lastPersistedClock C).isSmaller (.id i) = true ↔ s.Above i := by
  constructor
  · intro h row hrow
    rcases lastClock_max hsort hs.comparable hrow with e | hlt
    · rwa [e]
    · exact Clock.isSmaller_trans hlt h
  · intro h
    by_cases hne : s.rows = []
    · unfold Hub.lastPersistedClock
      rw [hne, lastClock_nil hsort]
      exact (Clock.isSmaller_iff_lt rfl rfl).mpr hi
    · obtain ⟨row, hrow, e⟩ := lastClock_mem hsort hne
      unfold Hub.lastPersistedClock
      exact e ▸ h row hrow

/-- The messages `getDoc` adds to what the rows hold. -/
theorem mem_newer (hs : RowsOk C room s) (hsort : SortSpec C.sort) {i : Include} {v : β} :
    v ∈ newer (s.selected C room i) (getMessages (s.redis.live room)) ↔
      v ∈ s.pendingParts room fun _ => True := by
  have hmessages : (getMessages (s.redis.live room)).messages = messagesOf (s.live room) :=
    congrArg messagesOf (hs.log_ok.xread_zero hs.live_suffix)
  unfold newer
  rw [hmessages, List.mem_map]
  constructor
  · rintro ⟨u, hu, rfl⟩
    obtain ⟨hu, hlt⟩ := List.mem_filter.mp hu
    exact ⟨u, hu, ⟨(lastClock_isSmaller_iff hs hsort (hs.pos hu)).mp hlt, trivial⟩, rfl⟩
  · rintro ⟨u, hu, ⟨habove, -⟩, rfl⟩
    refine ⟨u, List.mem_filter.mpr ⟨hu, ?_⟩, rfl⟩
    exact (lastClock_isSmaller_iff hs hsort (hs.pos hu)).mpr habove

/-- The documents among what `getDoc` takes from the rows. -/
theorem mem_updatesOf_found (hs : RowsOk C room s) {i : Include} {gc : Bool}
    (hgc : AssetColumn.included i (.doc gc) = true) {v : β} :
    v ∈ updatesOf gc (s.found C (toRetrieve (s.selected C room i).assets)) ↔
      v ∈ s.persistedParts C room gc := by
  have hfit : Fitting room (s.found C (toRetrieve (s.selected C room i).assets)) := by
    intro id a hmem
    obtain ⟨row, hrow, col, -, hid, hr⟩ := mem_found.mp hmem
    obtain ⟨r, hr', hfits⟩ := hs.retrieves row hrow col
    obtain rfl := hr.unique hr'
    exact ⟨col, row.t, hid, hfits⟩
  have hcol : AssetColumn.included { i with contentids := true } (.doc gc) = true := by
    cases gc <;> exact hgc
  rw [mem_updatesOf hfit]
  constructor
  · rintro ⟨t, hmem⟩
    obtain ⟨row, hrow, col, -, hid, hr⟩ := mem_found.mp hmem
    obtain ⟨-, rfl⟩ := AssetColumn.assetId_inj hid
    exact ⟨row, hrow, hr⟩
  · rintro ⟨row, hrow, hr⟩
    exact ⟨row.t, mem_found.mpr ⟨row, hrow, _, hcol, rfl, hr⟩⟩

/-! ## Runs -/

/-- The updates on the stream. -/
def Hub.onStream (room : Room) (s : Hub β) : Set β :=
  {v | ∃ u ∈ updates (s.live room), u.update = v}

/-- A room, the trims that workers have still to make or may make again, and what `getDoc` owes to
the callers of `unsafePersistDoc`. -/
structure Persisting (β : Type) where
  hub : Hub β
  trims : List (Clock × JsNumber)
  owed : Set β

/-- Nothing is stored, nothing is owed. -/
def Persisting.empty : Persisting β := ⟨.empty, [], ∅⟩

/-- One operation. `P` restricts the calls of `unsafePersistDoc`. -/
inductive PersistStep (C : Conf β) (room : Room) (P : Hub β → Nat → β → Prop) :
    Persisting β → Persisting β → Prop
  | addMessage (x : Persisting β) (now : Nat) (m : Message β)
      (hid : ∀ e ∈ x.hub.log, e.id < RedisStream.nextId now (x.hub.redis.live room)) :
      PersistStep C room P x { x with hub := x.hub.addMessage room now m }
  | compact (x : Persisting β) :
      PersistStep C room P x { x with
        hub := (x.hub.compact C room).1
        trims := (x.hub.compact C room).2 :: x.trims }
  | trim (x : Persisting β) (minId : Clock) (maxAgeMs : JsNumber) (h : (minId, maxAgeMs) ∈ x.trims)
      (now : Nat) (task : StreamId) :
      PersistStep C room P x { x with
        hub := { x.hub with
          redis := (trimMessages now room minId.text maxAgeMs (some task) x.hub.redis).1 } }
  | unsafePersistDoc (x : Persisting β) (ms : Nat) (ydoc : β) (by_ : Option String)
      (h : P x.hub ms ydoc) :
      PersistStep C room P x { x with
        hub := x.hub.unsafePersistDoc C room ms ydoc by_
        owed := x.owed ∪ ({ydoc} ∪ x.hub.onStream room) }
  | softDelete (x : Persisting β) (tombstone : Option Tombstone)
      (h : tombstone.any Tombstone.hard = false) :
      PersistStep C room P x { x with hub := { x.hub with tombstone := tombstone } }
  | otherKeys (x : Persisting β) (r : Redis (Message β))
      (h : r.live room = x.hub.redis.live room) :
      PersistStep C room P x { x with hub := { x.hub with redis := r } }

/-- The states of the runs. -/
def PersistReach (C : Conf β) (room : Room) (P : Hub β → Nat → β → Prop) : Persisting β → Prop :=
  Relation.ReflTransGen (PersistStep C room P) Persisting.empty

/-- A trim up to `minId` removes no update that is newer than every row. -/
def TrimKeeps (room : Room) (s : Hub β) (minId : Clock) : Prop :=
  (∃ j, ClockAt s.log minId j ∧ ∀ u ∈ updates (s.live room), s.Above u.id → j < u.id) ∨
    ∀ i, .zero < i → s.Above i → minId.isSmaller (.id i) = true

/-! ### What one operation leaves -/

variable {s' : Hub β}

/-- The parts outlast an operation on redis that leaves the updates newer than every row. -/
theorem parts_subset (hrows : s'.rows = s.rows) (hobjects : s'.objects = s.objects)
    (hlive : ∀ u ∈ updates (s.live room), s.Above u.id → u ∈ updates (s'.live room)) (gc : Bool) :
    s.parts C room gc ⊆ s'.parts C room gc := by
  rintro v (⟨row, hrow, a, ha, hr⟩ | ⟨u, hu, ⟨habove, -⟩, rfl⟩)
  · exact Or.inl ⟨row, hrows ▸ hrow, a, ha, by rw [hobjects]; exact hr⟩
  · refine Or.inr ⟨u, hlive u hu habove, ⟨fun row hrow => ?_, trivial⟩, rfl⟩
    rw [hrows] at hrow
    exact habove row hrow

/-- What a trim up to `minId` leaves. -/
theorem TrimKeeps.mem_live {minId : Clock} (h : TrimKeeps room s minId) (hs : RowsOk C room s)
    (now : Nat) (maxAgeMs : JsNumber) (task : StreamId) {u : Update β}
    (hu : u ∈ updates (s.live room)) (habove : s.Above u.id) : u ∈ updates (Hub.live room { s with
      redis := (trimMessages now room minId.text maxAgeMs (some task) s.redis).1 }) := by
  have hmem := mem_updates.mp hu
  refine mem_updates.mpr ?_
  show _ ∈ RedisStream.entriesOf ((trimMessages now room minId.text maxAgeMs (some task)
    s.redis).1.live room)
  rw [trimMessages_live]
  refine mem_trimStream hmem ?_
  rcases h with ⟨j, hj, hlt⟩ | hsmall
  · exact (Clock.isSmaller_iff_lt hj.toId? rfl).mpr (hlt u hu habove)
  · exact hsmall u.id (hs.pos hu) habove

/-- The guarantee for a trim outlasts an operation that makes no update on the stream newer than
every row. -/
theorem TrimKeeps.mono {minId : Clock} (h : TrimKeeps room s minId) (hlog : s'.log = s.log)
    (hlive : ∀ u ∈ updates (s'.live room), s'.Above u.id → u ∈ updates (s.live room))
    (habove : ∀ i, .zero < i → s'.Above i → s.Above i)
    (hpos : ∀ u ∈ updates (s'.live room), StreamId.zero < u.id) : TrimKeeps room s' minId := by
  rcases h with ⟨j, hj, hlt⟩ | hsmall
  · refine Or.inl ⟨j, hlog ▸ hj, fun u hu hu' => ?_⟩
    exact hlt u (hlive u hu hu') (habove u.id (hpos u hu) hu')
  · exact Or.inr fun i hi hi' => hsmall i hi (habove i hi hi')

/-! ### A message -/

theorem live_addMessage (now : Nat) (m : Message β) : (s.addMessage room now m).live room =
    s.live room ++ [⟨RedisStream.nextId now (s.redis.live room), .m m⟩] :=
  addMessage_entries now room s.redis m

theorem RowsOk.addMessage (hs : RowsOk C room s) {now : Nat} {m : Message β}
    (hid : ∀ e ∈ s.log, e.id < RedisStream.nextId now (s.redis.live room)) :
    RowsOk C room (s.addMessage room now m) where
  log_ok := hs.log_ok.xadd hid
  live_suffix := by
    obtain ⟨pre, e⟩ := hs.live_suffix
    refine ⟨pre, ?_⟩
    rw [live_addMessage, ← List.append_assoc, e]
    rfl
  not_hard := hs.not_hard
  comparable := hs.comparable
  retrieves := hs.retrieves

theorem TrimKeeps.addMessage {minId : Clock} (h : TrimKeeps room s minId) (hs : RowsOk C room s)
    {now : Nat} {m : Message β}
    (hid : ∀ e ∈ s.log, e.id < RedisStream.nextId now (s.redis.live room)) :
    TrimKeeps room (s.addMessage room now m) minId := by
  rcases h with ⟨j, hj, hlt⟩ | hsmall
  · refine Or.inl ⟨j, hj.append, fun u hu hu' => ?_⟩
    rw [live_addMessage, updates_append] at hu
    rcases List.mem_append.mp hu with hu | hu
    · exact hlt u hu hu'
    · exact hj.lt_of_mem (hs.log_ok.xadd hid) (mem_updates.mp hu)
  · exact Or.inr hsmall

/-! ### A compaction -/

/-- The fold of the pre-check does not go back. -/
theorem isSmaller_foldl {p clk : Clock} (h : p.isSmaller clk = true)
    (ms : List (StreamId × Message β)) : p.isSmaller (lastUpdateClock clk ms) = true := by
  induction ms generalizing clk with
  | nil => exact h
  | cons x ms ih =>
    unfold lastUpdateClock
    rw [List.foldl_cons]
    refine ih ?_
    split
    · rcases clk.max_cases (.id x.1) with ⟨hlt, e⟩ | ⟨-, e⟩
      · rw [e]
        exact Clock.isSmaller_trans h hlt
      · rwa [e]
    · exact h

/-- The pre-check notices an update that is newer than the last row. -/
theorem isSmaller_lastUpdateClock {p : Clock} {ms : List (StreamId × Message β)}
    {x : StreamId × Message β} (hx : x ∈ ms) (hc : x.2.changesDoc = true)
    (hlt : p.isSmaller (.id x.1) = true) : p.isSmaller (lastUpdateClock p ms) = true := by
  induction ms with
  | nil => exact absurd hx List.not_mem_nil
  | cons y ms ih =>
    unfold lastUpdateClock
    rw [List.foldl_cons]
    by_cases hy : y.2.changesDoc = true ∧ p.isSmaller (.id y.1) = true
    · rw [if_pos hy.1, Clock.max_eq_right hy.2]
      exact isSmaller_foldl hy.2 ms
    · have hx : x ∈ ms := by
        rcases List.mem_cons.mp hx with rfl | hx
        · exact absurd ⟨hc, hlt⟩ hy
        · exact hx
      have he : (if y.2.changesDoc = true then p.max (.id y.1) else p) = p := by
        split
        · rename_i hch
          exact Clock.max_eq_left (Bool.eq_false_iff.mpr fun h => hy ⟨hch, h⟩)
        · rfl
      rw [he]
      exact ih hx

/-- **With nothing to compact, no update on the stream is newer than every row.** -/
theorem not_above_of_nothingToCompact (hs : RowsOk C room s) (hsort : SortSpec C.sort)
    (h : nothingToCompact (s.lastPersistedClock C) s.tombstone
      (getMessages (s.redis.live room)).messages = true) {u : Update β}
    (hu : u ∈ updates (s.live room)) : ¬ s.Above u.id := by
  intro habove
  have hmessages := (hs.log_ok.getMessages hs.live_suffix).1
  have hmem : (u.id, Message.ydocUpdate u.update u.contentmap) ∈
      (getMessages (s.redis.live room)).messages := by
    rw [hmessages]
    exact mem_messagesOf.mpr (mem_updates.mp hu)
  have hlt := isSmaller_lastUpdateClock hmem rfl
    ((lastClock_isSmaller_iff hs hsort (hs.pos hu)).mpr habove)
  simp [nothingToCompact, hs.not_hard, hlt] at h

theorem RowsOk.compacted (hs : RowsOk C room s) {c : DocContent β} {row : Row β}
    (hrows : (s.compacted C room c).rows = [row])
    (hcols : ∀ col, (s.compacted C room c).Retrieves C room row col (c.asset col)) :
    RowsOk C room (s.compacted C room c) := by
  refine ⟨hs.log_ok, hs.live_suffix, hs.not_hard, ?_, fun row' hrow' col => ?_⟩
  · rw [hrows]
    exact List.pairwise_singleton _ _
  · rw [hrows, List.mem_singleton] at hrow'
    subst hrow'
    exact ⟨_, hcols col, c.fits_asset col⟩

/-- The trim that follows a compaction without a row to store. -/
theorem trimKeeps_lastClock (hs : RowsOk C room s) (hsort : SortSpec C.sort)
    (h : nothingToCompact (s.lastPersistedClock C) s.tombstone
        (getMessages (s.redis.live room)).messages = true ∨
      (s.lastPersistedClock C).isSmaller (s.lastClock C room) = false) :
    TrimKeeps room s (s.lastClock C room) := by
  rcases (s.lastPersistedClock C).max_cases (getMessages (s.redis.live room)).lastClock with
    ⟨hlt, e⟩ | ⟨-, e⟩
  · obtain ⟨-, l, hl, -⟩ := hs.log_ok.getMessages hs.live_suffix
    rcases h with h | h
    · refine Or.inl ⟨l, ?_, fun u hu ha => absurd ha (not_above_of_nothingToCompact hs hsort h hu)⟩
      rw [Hub.lastClock, e]
      exact hl
    · rw [Hub.lastClock, e, hlt] at h
      exact absurd h (by simp)
  · refine Or.inr fun i hi ha => ?_
    rw [Hub.lastClock, e]
    exact (lastClock_isSmaller_iff hs hsort hi).mpr ha

/-! ### A call of `unsafePersistDoc` -/

section UnsafePersistDoc

variable {ms : Nat} (hs : RowsOk C room s) (hno : ∀ row ∈ s.rows, row.t.msPart ≠ ms) (ydoc : β)
  (by_ : Option String)
include hs hno

/-- The row of the document is added to the others. -/
theorem unsafePersistDoc_spec : ∃ row : Row β,
    (s.unsafePersistDoc C room ms ydoc by_).rows = s.rows ++ [row] ∧ row.t = .persist ms ∧
    (∀ col, (s.unsafePersistDoc C room ms ydoc by_).Retrieves C room row col
      ((Hub.attributed C.Y ms ydoc by_).asset col)) ∧
    ∀ row' ∈ s.rows, ∀ col r, (s.unsafePersistDoc C room ms ydoc by_).Retrieves C room row' col r ↔
      s.Retrieves C room row' col r := by
  refine Hub.store_spec hs.not_hard (fun hmem => ?_) _
  obtain ⟨row, hrow, e⟩ := List.mem_map.mp hmem
  exact hno row hrow (by rw [e]; rfl)

/-- It hides what is not of a later millisecond. -/
theorem above_unsafePersistDoc (i : StreamId) :
    (s.unsafePersistDoc C room ms ydoc by_).Above i ↔ s.Above i ∧ ms < i.ms := by
  obtain ⟨row, hrows, ht, -⟩ := unsafePersistDoc_spec hs hno ydoc by_
  unfold Hub.Above
  rw [hrows]
  constructor
  · intro h
    refine ⟨fun row' hrow' => h row' (List.mem_append_left _ hrow'), ?_⟩
    have hlt := h row (List.mem_append_right _ (List.mem_singleton.mpr rfl))
    rw [ht] at hlt
    exact Clock.persist_isSmaller_iff.mp hlt
  · rintro ⟨h, hlt⟩ row' hrow'
    rcases List.mem_append.mp hrow' with hrow' | hrow'
    · exact h row' hrow'
    · rw [List.mem_singleton.mp hrow', ht]
      exact Clock.persist_isSmaller_iff.mpr hlt

theorem parts_unsafePersistDoc (gc : Bool) :
    (s.unsafePersistDoc C room ms ydoc by_).parts C room gc =
      s.persistedParts C room gc ∪ {ydoc} ∪ s.pendingParts room fun i => ms < i.ms := by
  obtain ⟨row, hrows, -, hcols, hold⟩ := unsafePersistDoc_spec hs hno ydoc by_
  have hdoc : (Hub.attributed C.Y ms ydoc by_).asset (.doc gc) = .ydoc ydoc := by
    cases gc <;> rfl
  have hnew := hcols (.doc gc)
  rw [hdoc] at hnew
  ext v
  constructor
  · rintro (⟨row', hrow', hr⟩ | ⟨u, hu, ⟨habove, -⟩, rfl⟩)
    · rw [hrows] at hrow'
      rcases List.mem_append.mp hrow' with hrow' | hrow'
      · exact Or.inl (Or.inl ⟨row', hrow', (hold row' hrow' _ _).mp hr⟩)
      · rw [List.mem_singleton.mp hrow'] at hr
        exact Or.inl (Or.inr (Asset.ydoc.inj (hr.unique hnew)))
    · exact Or.inr ⟨u, hu, (above_unsafePersistDoc hs hno ydoc by_ u.id).mp habove, rfl⟩
  · rintro ((⟨row', hrow', hr⟩ | rfl) | ⟨u, hu, habove, rfl⟩)
    · refine Or.inl ⟨row', ?_, (hold row' hrow' _ _).mpr hr⟩
      rw [hrows]
      exact List.mem_append_left _ hrow'
    · refine Or.inl ⟨row, ?_, hnew⟩
      rw [hrows]
      exact List.mem_append_right _ (List.mem_singleton.mpr rfl)
    · exact Or.inr ⟨u, hu, ⟨(above_unsafePersistDoc hs hno ydoc by_ u.id).mpr habove, trivial⟩, rfl⟩

theorem RowsOk.unsafePersistDoc : RowsOk C room (s.unsafePersistDoc C room ms ydoc by_) := by
  obtain ⟨row, hrows, ht, hcols, hold⟩ := unsafePersistDoc_spec hs hno ydoc by_
  refine ⟨hs.log_ok, hs.live_suffix, hs.not_hard, ?_, fun row' hrow' col => ?_⟩
  · rw [hrows, List.map_append, List.pairwise_append]
    refine ⟨hs.comparable, List.pairwise_singleton _ _, fun a ha b hb => ?_⟩
    obtain ⟨row', hrow', rfl⟩ := List.mem_map.mp ha
    rw [List.mem_singleton.mp hb, ht]
    unfold Comparable
    rw [Clock.isSmaller_persist_iff, Clock.persist_isSmaller_iff]
    exact lt_or_gt_of_ne (hno row' hrow')
  · rw [hrows] at hrow'
    rcases List.mem_append.mp hrow' with hrow' | hrow'
    · obtain ⟨r, hr, hfits⟩ := hs.retrieves row' hrow' col
      exact ⟨r, (hold row' hrow' col r).mpr hr, hfits⟩
    · rw [List.mem_singleton.mp hrow']
      exact ⟨_, hcols col, DocContent.fits_asset _ col⟩

end UnsafePersistDoc

variable [Preorder β]

/-- A merge of the documents of the rows and of what is newer is the join of the parts. -/
theorem isLUB_parts (hY : C.Y.Lawful) (hsort : SortSpec C.sort) (hs : RowsOk C room s) {i : Include}
    (gc : Bool) (hgc : AssetColumn.included i (.doc gc) = true) (g : Bool) (prune : Option β) :
    IsLUB (s.parts C room gc) (C.Y.mergeUpdates g
      (updatesOf gc (s.found C (toRetrieve (s.selected C room i).assets)) ++
        newer (s.selected C room i) (getMessages (s.redis.live room))) prune) := by
  have hset : s.parts C room gc =
      {v | v ∈ updatesOf gc (s.found C (toRetrieve (s.selected C room i).assets)) ++
        newer (s.selected C room i) (getMessages (s.redis.live room))} := by
    ext v
    simp only [Set.mem_ofPred_eq, List.mem_append, mem_updatesOf_found hs hgc, mem_newer hs hsort]
    exact Iff.rfl
  rw [hset]
  exact hY.mergeUpdates ..

/-- **The documents of `getDoc` are the joins of their parts.** -/
theorem getDoc_isLUB (hY : C.Y.Lawful) (hsort : SortSpec C.sort) (hs : RowsOk C room s)
    (i : Include) (gcOnMerge : Bool) :
    (i.gc = true → ∃ g, (s.getDoc C room i gcOnMerge).gcDoc = some g ∧
      IsLUB (s.parts C room true) g) ∧
    (i.nongc = true → ∃ n, (s.getDoc C room i gcOnMerge).nongcDoc = some n ∧
      IsLUB (s.parts C room false) n) :=
  ⟨fun hi => ⟨_, getDoc_gcDoc hi gcOnMerge _ _ _, isLUB_parts hY hsort hs true hi _ _⟩,
    fun hi => ⟨_, getDoc_nongcDoc hi gcOnMerge _ _ _, isLUB_parts hY hsort hs false hi _ _⟩⟩

/-- An update is contained in both documents of the room. -/
def Hub.Keeps (C : Conf β) (room : Room) (s : Hub β) (v : β) : Prop :=
  ∀ gc, ∀ w ∈ upperBounds (s.parts C room gc), v ≤ w

theorem covers_iff (hY : C.Y.Lawful) (hsort : SortSpec C.sort) (hs : RowsOk C room s) {v : β} :
    (∀ i gcOnMerge, (s.getDoc C room i gcOnMerge).Covers i v) ↔ s.Keeps C room v := by
  constructor
  · intro h gc w hw
    obtain ⟨hg, hn⟩ := h { gc := true, nongc := true } true
    obtain ⟨hg', hn'⟩ := getDoc_isLUB hY hsort hs { gc := true, nongc := true } true
    cases gc with
    | true =>
      obtain ⟨g, e, hv⟩ := hg rfl
      obtain ⟨g', e', hlub⟩ := hg' rfl
      obtain rfl := Option.some.inj (e.symm.trans e')
      exact hv.trans (hlub.2 hw)
    | false =>
      obtain ⟨n, e, hv⟩ := hn rfl
      obtain ⟨n', e', hlub⟩ := hn' rfl
      obtain rfl := Option.some.inj (e.symm.trans e')
      exact hv.trans (hlub.2 hw)
  · intro h i gcOnMerge
    obtain ⟨hg, hn⟩ := getDoc_isLUB hY hsort hs i gcOnMerge
    refine ⟨fun hi => ?_, fun hi => ?_⟩
    · obtain ⟨g, e, hlub⟩ := hg hi
      exact ⟨g, e, h true g hlub.1⟩
    · obtain ⟨n, e, hlub⟩ := hn hi
      exact ⟨n, e, h false n hlub.1⟩

/-- The call hides nothing: no row is of its millisecond, and every update on the stream is
contained in what will be the parts of the document. The comparator orders no clock of the
millisecond and `<ms>-I`, not even `<ms>-0`: which of two such rows is last is up to the sort. -/
def HidesNothing (C : Conf β) (room : Room) (s : Hub β) (ms : Nat) (ydoc : β) : Prop :=
  (∀ row ∈ s.rows, row.t.msPart ≠ ms) ∧
  ∀ v ∈ s.onStream room, ∀ gc, ∀ w ∈ upperBounds
    (s.persistedParts C room gc ∪ {ydoc} ∪ s.pendingParts room fun i => ms < i.ms), v ≤ w

/-- **The invariant.** -/
structure PersistingOk (C : Conf β) (room : Room) (x : Persisting β) : Prop where
  rows : RowsOk C room x.hub
  trims : ∀ m ∈ x.trims, TrimKeeps room x.hub m.1
  owed : ∀ v ∈ x.owed, x.hub.Keeps C room v

/-! ### Operations keep what is owed -/

theorem Hub.Keeps.mono {v : β} (h : s.Keeps C room v)
    (hparts : ∀ gc, upperBounds (s'.parts C room gc) ⊆ upperBounds (s.parts C room gc)) :
    s'.Keeps C room v :=
  fun gc w hw => h gc w (hparts gc hw)

theorem Hub.Keeps.of_subset {v : β} (h : s.Keeps C room v)
    (hparts : ∀ gc, s.parts C room gc ⊆ s'.parts C room gc) : s'.Keeps C room v :=
  h.mono fun gc => upperBounds_mono_set (hparts gc)

/-- What a compaction stores is the join of the parts. -/
theorem content_isLUB (hY : C.Y.Lawful) (hsort : SortSpec C.sort) (hs : RowsOk C room s)
    {c : DocContent β} (hc : (s.getDoc C room compactInclude true).content? = some c) (gc : Bool) :
    ∃ g, c.asset (.doc gc) = .ydoc g ∧ IsLUB (s.parts C room gc) g := by
  obtain ⟨hg, hn⟩ := getDoc_isLUB hY hsort hs compactInclude true
  have hasset := DocTable.content?_asset hc (.doc gc)
  cases gc with
  | true =>
    obtain ⟨g, e, hlub⟩ := hg rfl
    have e' : (s.getDoc C room compactInclude true).gcDoc.map Asset.ydoc = some (.ydoc c.gcDoc) :=
      hasset
    rw [e] at e'
    exact ⟨c.gcDoc, rfl, Asset.ydoc.inj (Option.some.inj e') ▸ hlub⟩
  | false =>
    obtain ⟨n, e, hlub⟩ := hn rfl
    have e' : (s.getDoc C room compactInclude true).nongcDoc.map Asset.ydoc =
        some (.ydoc c.nongcDoc) := hasset
    rw [e] at e'
    exact ⟨c.nongcDoc, rfl, Asset.ydoc.inj (Option.some.inj e') ▸ hlub⟩

/-- **A compaction.** -/
theorem PersistingOk.compact {x : Persisting β} (hY : C.Y.Lawful) (hsort : SortSpec C.sort)
    (hx : PersistingOk C room x) : PersistingOk C room { x with
      hub := (x.hub.compact C room).1
      trims := (x.hub.compact C room).2 :: x.trims } := by
  have hs := hx.rows
  rcases compact_cases C room x.hub with ⟨maxAgeMs, e, h⟩ | ⟨c, hc, hlt, e⟩
  · rw [e]
    refine ⟨hs, fun m hm => ?_, hx.owed⟩
    rcases List.mem_cons.mp hm with rfl | hm
    · exact trimKeeps_lastClock hs hsort h
    · exact hx.trims m hm
  · obtain ⟨-, row, hrows, ht, hcols⟩ := compacted_spec hsort hs.not_hard hs.comparable hlt c
    have hs' := hs.compacted hrows hcols
    have hrow : row ∈ (x.hub.compacted C room c).rows := by
      rw [hrows]
      exact List.mem_singleton.mpr rfl
    rw [e]
    -- newer than the new row is newer than all the others
    have habove : ∀ i, StreamId.zero < i → (x.hub.compacted C room c).Above i → x.hub.Above i := by
      intro i hi h
      have hlast := h row hrow
      rw [ht] at hlast
      exact (lastClock_isSmaller_iff hs hsort hi).mp (Clock.isSmaller_trans hlt hlast)
    refine ⟨hs', fun m hm => ?_, fun v hv => (hx.owed v hv).mono fun gc w hw p hp => ?_⟩
    · rcases List.mem_cons.mp hm with rfl | hm
      · exact Or.inr fun i hi h => ht ▸ h row hrow
      · exact (hx.trims m hm).mono rfl (fun u hu _ => hu) habove fun u hu => hs'.pos hu
    · obtain ⟨g, hg, hlub⟩ := content_isLUB hY hsort hs hc gc
      have hmem : g ∈ (x.hub.compacted C room c).parts C room gc :=
        Or.inl ⟨row, hrow, hg ▸ hcols (.doc gc)⟩
      exact (hlub.1 hp).trans (hw hmem)

/-- **A call of `unsafePersistDoc` that hides nothing.** -/
theorem Hub.Keeps.unsafePersistDoc (hs : RowsOk C room s) {ms : Nat} {ydoc : β}
    (h : HidesNothing C room s ms ydoc) (by_ : Option String) {v : β} (hv : s.Keeps C room v) :
    (s.unsafePersistDoc C room ms ydoc by_).Keeps C room v := by
  refine hv.mono fun gc w hw p hp => ?_
  rw [parts_unsafePersistDoc hs h.1] at hw
  rcases hp with hp | ⟨u, hu, -, rfl⟩
  · exact hw (Or.inl (Or.inl hp))
  · exact h.2 u.update ⟨u, hu, rfl⟩ gc w hw

/-- It keeps its document and what is on the stream exactly when it hides nothing. -/
theorem keeps_unsafePersistDoc_iff (hs : RowsOk C room s) {ms : Nat} (ydoc : β)
    (by_ : Option String) (hno : ∀ row ∈ s.rows, row.t.msPart ≠ ms) :
    (∀ v ∈ {ydoc} ∪ s.onStream room, (s.unsafePersistDoc C room ms ydoc by_).Keeps C room v) ↔
      HidesNothing C room s ms ydoc := by
  unfold Hub.Keeps
  simp only [parts_unsafePersistDoc hs hno]
  constructor
  · exact fun h => ⟨hno, fun v hv => h v (Or.inr hv)⟩
  · rintro h v (rfl | hv) gc w hw
    · exact hw (Or.inl (Or.inr rfl))
    · exact h.2 v hv gc w hw

/-- The step lemma. -/
theorem PersistingOk.step {x y : Persisting β} (hY : C.Y.Lawful) (hsort : SortSpec C.sort)
    (hx : PersistingOk C room x) (h : PersistStep C room (HidesNothing C room) x y) :
    PersistingOk C room y := by
  have hs := hx.rows
  cases h with
  | addMessage now m hid =>
    refine ⟨hs.addMessage hid, fun t ht => (hx.trims t ht).addMessage hs hid, fun v hv => ?_⟩
    refine (hx.owed v hv).of_subset (parts_subset rfl rfl fun u hu _ => ?_)
    rw [live_addMessage, updates_append]
    exact List.mem_append_left _ hu
  | compact => exact hx.compact hY hsort
  | trim minId maxAgeMs hmem now task =>
    have hsuffix : Hub.live room { x.hub with redis := (trimMessages now room minId.text maxAgeMs
        (some task) x.hub.redis).1 } <:+ x.hub.live room := Hub.live_trim ..
    refine ⟨⟨hs.log_ok, hsuffix.trans hs.live_suffix, hs.not_hard, hs.comparable, hs.retrieves⟩,
      fun t ht => ?_, fun v hv => ?_⟩
    · have hsub : ∀ u ∈ updates (Hub.live room { x.hub with redis := (trimMessages now room
          minId.text maxAgeMs (some task) x.hub.redis).1 }), u ∈ updates (x.hub.live room) :=
        fun u hu => mem_updates.mpr (hsuffix.subset (mem_updates.mp hu))
      exact (hx.trims t ht).mono rfl (fun u hu _ => hsub u hu) (fun _ _ h => h)
        fun u hu => hs.pos (hsub u hu)
    · exact (hx.owed v hv).of_subset (parts_subset rfl rfl fun u hu habove =>
        (hx.trims _ hmem).mem_live hs now maxAgeMs task hu habove)
  | unsafePersistDoc ms ydoc by_ hP =>
    refine ⟨hs.unsafePersistDoc hP.1 ydoc by_, fun t ht => ?_, fun v hv => ?_⟩
    · exact (hx.trims t ht).mono rfl (fun u hu _ => hu)
        (fun i _ h => ((above_unsafePersistDoc hs hP.1 ydoc by_ i).mp h).1) fun u hu => hs.pos hu
    · rcases hv with hv | hv
      · exact (hx.owed v hv).unsafePersistDoc hs hP by_
      · exact (keeps_unsafePersistDoc_iff hs ydoc by_ hP.1).mpr hP v hv
  | softDelete tombstone hhard =>
    refine ⟨⟨hs.log_ok, hs.live_suffix, hhard, hs.comparable, hs.retrieves⟩, hx.trims,
      fun v hv => ?_⟩
    exact (hx.owed v hv).of_subset (parts_subset rfl rfl fun u hu _ => hu)
  | otherKeys r hr =>
    have hlive : Hub.live room { x.hub with redis := r } = x.hub.live room :=
      congrArg RedisStream.entriesOf hr
    refine ⟨⟨hs.log_ok, hlive ▸ hs.live_suffix, hs.not_hard, hs.comparable, hs.retrieves⟩,
      fun t ht => ?_, fun v hv => ?_⟩
    · exact (hx.trims t ht).mono rfl (fun u hu _ => hlive ▸ hu) (fun _ _ h => h)
        fun u hu => hs.pos (hlive ▸ hu)
    · refine (hx.owed v hv).of_subset (parts_subset rfl rfl fun u hu _ => ?_)
      rw [hlive]
      exact hu

theorem persistingOk_empty : PersistingOk C room .empty :=
  ⟨⟨⟨List.Pairwise.nil, fun _ he => absurd he List.not_mem_nil⟩, List.suffix_rfl, rfl,
    List.Pairwise.nil, fun _ hrow => absurd hrow List.not_mem_nil⟩,
    fun _ hm => absurd hm List.not_mem_nil, fun v hv => absurd hv (Set.notMem_empty v)⟩

/-- **`getDoc` covers what is owed** to the callers of `unsafePersistDoc`, in every run whose calls
hide nothing. And after a call from one of its states, in a millisecond of no row, `getDoc` covers
the document and the updates on the stream if and only if the call hides nothing. -/
theorem owed_covered (hY : C.Y.Lawful) (hsort : SortSpec C.sort) {x : Persisting β}
    (hx : PersistReach C room (HidesNothing C room) x) :
    (∀ v ∈ x.owed, ∀ i gcOnMerge, (x.hub.getDoc C room i gcOnMerge).Covers i v) ∧
    ∀ ms ydoc by_, (∀ row ∈ x.hub.rows, row.t.msPart ≠ ms) →
      ((∀ v ∈ {ydoc} ∪ x.hub.onStream room, ∀ i gcOnMerge,
          ((x.hub.unsafePersistDoc C room ms ydoc by_).getDoc C room i gcOnMerge).Covers i v) ↔
        HidesNothing C room x.hub ms ydoc) := by
  have h : PersistingOk C room x := by
    induction hx with
    | refl => exact persistingOk_empty
    | tail _ hstep ih => exact ih.step hY hsort hstep
  refine ⟨fun v hv => (covers_iff hY hsort h.rows).mpr (h.owed v hv), fun ms ydoc by_ hno => ?_⟩
  rw [← keeps_unsafePersistDoc_iff h.rows ydoc by_ hno]
  have hs' := h.rows.unsafePersistDoc hno ydoc by_
  exact ⟨fun hall v hv => (covers_iff hY hsort hs').mp (hall v hv),
    fun hall v hv => (covers_iff hY hsort hs').mpr (hall v hv)⟩

/-! ### An update on the stream -/

theorem oneUpdate_persistReach {P : Hub RefPayload → Nat → RefPayload → Prop} :
    PersistReach (.ref []) Room.a P ⟨oneUpdate, [], ∅⟩ :=
  Relation.ReflTransGen.single (PersistStep.addMessage .empty 1000 (insertion 7 "user1")
    fun _ he => absurd he List.not_mem_nil)

/-- The call takes its time before the update is added, and stores its document after that. -/
theorem owed_covered_of_run : DocTable.Covers { gc := true, nongc := true }
    (((oneUpdate.unsafePersistDoc (.ref []) Room.a 500 (.doc [9]) none).compact (.ref [])
      Room.a).1.getDoc (.ref []) Room.a { gc := true, nongc := true } true) (.doc [7]) := by
  have hhides : HidesNothing (.ref []) Room.a oneUpdate 500 (.doc [9]) := by
    refine ⟨fun row hrow => absurd hrow List.not_mem_nil, ?_⟩
    rintro v ⟨u, hu, rfl⟩ gc w hw
    have hu' : u = ⟨⟨1000, 0⟩, .doc [7], _⟩ := List.mem_singleton.mp hu
    refine hw (Or.inr ⟨u, hu, ⟨fun row hrow => absurd hrow List.not_mem_nil, ?_⟩, rfl⟩)
    rw [hu']
    decide
  have h := (oneUpdate_persistReach.tail (PersistStep.unsafePersistDoc _ 500 _ none hhides)).tail
    (PersistStep.compact _)
  exact (owed_covered yjsRef_lawful insertionSort_spec h).1 _
    (Or.inr (Or.inr ⟨⟨⟨1000, 0⟩, .doc [7], _⟩, List.mem_singleton.mpr rfl, rfl⟩)) _ true

/-- **The update is gone for readers** when the document is persisted a second after it. -/
theorem unsafePersistDoc_hides_update : ¬ ∀ x : Persisting RefPayload,
    PersistReach (.ref []) Room.a (fun _ _ _ => True) x →
    ∀ v ∈ x.owed, ∀ i gcOnMerge, (x.hub.getDoc (.ref []) Room.a i gcOnMerge).Covers i v := by
  intro hclaim
  have h : PersistReach (.ref []) Room.a (fun _ _ _ => True) _ := oneUpdate_persistReach.tail
    (PersistStep.unsafePersistDoc _ 2000 (.doc [9]) none trivial)
  obtain ⟨hg, -⟩ := hclaim _ h (.doc [7])
    (Or.inr (Or.inr ⟨⟨⟨1000, 0⟩, .doc [7], _⟩, List.mem_singleton.mpr rfl, rfl⟩))
    { gc := true } true
  obtain ⟨g, hg, hle⟩ := hg rfl
  obtain rfl : RefPayload.doc [9] = g := by
    refine Option.some.inj (Eq.trans ?_ hg)
    decide
  exact absurd hle (by decide)

end YHub
