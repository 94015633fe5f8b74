import YHub.System

/-!
# What holds while workers and readers run

The invariant of the system of `System.lean`, for any number of processes, any plugins and any
messages. It says what a row stands for: the document of a row with clock `t` is what the updates
of the log up to `t` make together (`Represents`), and whatever has been trimmed from the stream is
at or below the clock of some row.

* `HubOk`: the invariant of the shared state.
* `ProcOk`: what a process relies on, for each place it can be in. A process that has read the
  stream knows that every update up to the last clock it read is among its messages or persisted;
  a process that is about to trim up to a clock knows that everything up to it is persisted; a
  process that stores a document knows what the document stands for.
* `Grows`: what a step of another process may do to the shared state. Rows are only deleted below
  a row that stays, and assets that can be retrieved can still be retrieved.
* Both hold throughout (`hub_invariant` in `Preservation.lean`), provided that an object is only
  removed when nothing points to it (`Unreferenced`), and that a `getDoc` call that has made its
  `SELECT` finds the updates after the clock it selected still on the stream (`ReadsSafely`).
-/

namespace YHub

variable {β : Type}

open SortedLog

/-! ## Logs -/

/-- The ids of a log increase strictly, from above `0-0`. -/
structure LogOk (log : List (Entry (Message β))) : Prop where
  sorted : Sorted Entry.id log
  pos : ∀ e ∈ log, StreamId.zero < e.id

/-- An entry of the log has the id. -/
def InLog (log : List (Entry (Message β))) (i : StreamId) : Prop := ∃ e ∈ log, e.id = i

/-- A clock that says how far the log has been seen: `'0'`, or the id of one of its entries. -/
def ClockAt (log : List (Entry (Message β))) (c : Clock) (i : StreamId) : Prop :=
  c = .zero ∧ i = .zero ∨ c = .id i ∧ InLog log i

section Logs

variable {log more : List (Entry (Message β))} {i t : StreamId} {c d : Clock}

theorem mem_updatesIn {ms : List (StreamId × Message β)} {u : Update β} :
    u ∈ updatesIn ms ↔ (u.id, .ydocUpdate u.update u.contentmap) ∈ ms := by
  unfold updatesIn
  rw [List.mem_filterMap]
  constructor
  · rintro ⟨⟨id, m⟩, hx, hu⟩
    cases m with
    | ydocUpdate update contentmap =>
      obtain rfl := Option.some.inj hu
      exact hx
    | _ => exact absurd hu (by simp)
  · exact fun hx => ⟨_, hx, rfl⟩

theorem mem_messagesOf {x : StreamId × Message β} :
    x ∈ messagesOf log ↔ ⟨x.1, .m x.2⟩ ∈ log := by
  unfold messagesOf
  simp only [List.mem_filterMap, Option.map_eq_some_iff]
  constructor
  · rintro ⟨⟨id, f⟩, he, m, hm, rfl⟩
    cases f with
    | m m' =>
      obtain rfl := Option.some.inj hm
      exact he
    | nop => exact absurd hm (by simp [Entry.message?])
  · exact fun he => ⟨_, he, x.2, rfl, rfl⟩

theorem mem_updates {u : Update β} :
    u ∈ updates log ↔ ⟨u.id, .m (.ydocUpdate u.update u.contentmap)⟩ ∈ log := by
  unfold updates
  rw [mem_updatesIn, mem_messagesOf]

theorem updates_append : updates (log ++ more) = updates log ++ updates more := by
  simp [updates, updatesIn, messagesOf]

theorem InLog.append (h : InLog log i) : InLog (log ++ more) i := by
  obtain ⟨e, he, rfl⟩ := h
  exact ⟨e, List.mem_append_left _ he, rfl⟩

theorem sorted_messagesOf (h : Sorted Entry.id log) :
    (messagesOf log).Pairwise fun a b => a.1 < b.1 := by
  unfold messagesOf
  refine List.Pairwise.filterMap _ (fun a a' haa' b hb b' hb' => ?_) h
  simp only [Option.map_eq_some_iff] at hb hb'
  obtain ⟨m, -, rfl⟩ := hb
  obtain ⟨m', -, rfl⟩ := hb'
  exact haa'

theorem sorted_updatesIn {ms : List (StreamId × Message β)}
    (h : ms.Pairwise fun a b => a.1 < b.1) : Sorted Update.id (updatesIn ms) := by
  unfold updatesIn
  refine List.Pairwise.filterMap _ ?_ h
  rintro ⟨i, m⟩ ⟨i', m'⟩ hlt u hu u' hu'
  cases m <;> cases m' <;> simp only [Option.some.injEq, reduceCtorEq] at hu hu'
  rw [← hu, ← hu']
  exact hlt

theorem sorted_updates (h : Sorted Entry.id log) : Sorted Update.id (updates log) :=
  sorted_updatesIn (sorted_messagesOf h)

theorem LogOk.lt_of_mem_updates (h : LogOk log) {u : Update β} (hu : u ∈ updates log) :
    StreamId.zero < u.id :=
  h.pos _ (mem_updates.mp hu)

theorem LogOk.updatesUpTo_zero (h : LogOk log) : updatesUpTo log .zero = [] :=
  upTo_eq_nil fun _ hu => h.lt_of_mem_updates hu

/-- The log of a stream to which an entry is added. -/
theorem LogOk.xadd (h : LogOk log) {now : Nat} {live : Option (RedisStream (Message β))}
    {m : Message β} (hid : ∀ e ∈ log, e.id < RedisStream.nextId now live) :
    LogOk (log ++ [⟨RedisStream.nextId now live, .m m⟩]) := by
  refine ⟨List.pairwise_append.mpr ⟨h.sorted, List.pairwise_singleton _ _, ?_⟩, ?_⟩
  · intro e he e' he'
    rw [List.mem_singleton.mp he']
    exact hid e he
  · intro e he
    rcases List.mem_append.mp he with he | he
    · exact h.pos e he
    · rw [List.mem_singleton.mp he]
      exact RedisStream.zero_lt_nextId now live

/-- A read from `'0'` returns the whole stream. -/
theorem LogOk.xread_zero (h : LogOk log) {live : Option (RedisStream (Message β))}
    (hsuffix : RedisStream.entriesOf live <:+ log) :
    xread .zero live = RedisStream.entriesOf live := by
  refine List.filter_eq_self.mpr fun e he => decide_eq_true ?_
  exact h.pos e (hsuffix.subset he)

theorem noPrune_of_append (h : NoPrune (log ++ more)) : NoPrune log := by
  unfold NoPrune prunesIn messagesOf at *
  simp only [List.filterMap_append, List.append_eq_nil_iff] at h
  exact h.1

theorem prunesIn_eq_nil {ms : List (StreamId × Message β)} (h : NoPrune log)
    (hms : ∀ x ∈ ms, x ∈ messagesOf log) : prunesIn ms = [] := by
  unfold NoPrune prunesIn at *
  rw [List.filterMap_eq_nil_iff] at h ⊢
  exact fun x hx => h x (hms x hx)

/-! ### Clocks of the log -/

theorem clockAt_id (h : InLog log i) : ClockAt log (.id i) i := Or.inr ⟨rfl, h⟩

theorem clockAt_zero : ClockAt log .zero .zero := Or.inl ⟨rfl, rfl⟩

theorem ClockAt.toId? (h : ClockAt log c i) : c.toId? = some i := by
  rcases h with ⟨rfl, rfl⟩ | ⟨rfl, -⟩ <;> rfl

theorem ClockAt.append (h : ClockAt log c i) : ClockAt (log ++ more) c i :=
  h.imp_right fun h => ⟨h.1, h.2.append⟩

/-- The larger of two clocks of the log. -/
theorem ClockAt.max (hc : ClockAt log c i) (hd : ClockAt log d t) :
    ClockAt log (c.max d) (Max.max i t) := by
  have hid := Clock.toId?_max hc.toId? hd.toId?
  rcases c.max_cases d with ⟨-, e⟩ | ⟨-, e⟩
  · rw [e] at hid ⊢
    rwa [Option.some.inj (hid.symm.trans hd.toId?)]
  · rw [e] at hid ⊢
    rwa [Option.some.inj (hid.symm.trans hc.toId?)]

/-- **A read of the stream**: its messages, and a clock that no entry is after. -/
theorem LogOk.getMessages (h : LogOk log) {live : Option (RedisStream (Message β))}
    (hsuffix : RedisStream.entriesOf live <:+ log) :
    (getMessages live).messages = messagesOf (RedisStream.entriesOf live) ∧
      ∃ c, ClockAt log (getMessages live).lastClock c ∧
        (∀ e ∈ RedisStream.entriesOf live, e.id ≤ c) ∧
        (RedisStream.entriesOf live = [] → c = .zero) := by
  unfold YHub.getMessages
  rw [h.xread_zero hsuffix]
  refine ⟨rfl, ?_⟩
  by_cases hne : RedisStream.entriesOf live = []
  · rw [hne]
    exact ⟨.zero, clockAt_zero, fun e he => absurd he List.not_mem_nil, fun _ => rfl⟩
  · have hsorted : Sorted Entry.id (RedisStream.entriesOf live) :=
      h.sorted.sublist hsuffix.sublist
    refine ⟨((RedisStream.entriesOf live).getLast hne).id, ?_, fun e he => ?_,
      fun hn => absurd hn hne⟩
    · simp only [List.getLast?_eq_some_getLast hne]
      exact clockAt_id ⟨_, hsuffix.subset (List.getLast_mem hne), rfl⟩
    · exact le_getLast hsorted hne he

/-- No message that changes the document is after `lastUpdateClock`. -/
theorem le_lastUpdateClock {clock : Clock} {p : StreamId} (hp : ClockAt log clock p)
    {ms : List (StreamId × Message β)} (hms : ∀ x ∈ ms, x ∈ messagesOf log) :
    ∃ q, ClockAt log (lastUpdateClock clock ms) q ∧ p ≤ q ∧
      ∀ x ∈ ms, x.2.changesDoc = true → x.1 ≤ q := by
  induction ms generalizing clock p with
  | nil => exact ⟨p, hp, le_rfl, fun x hx => absurd hx List.not_mem_nil⟩
  | cons x ms ih =>
    have htail : ∀ y ∈ ms, y ∈ messagesOf log := fun y hy => hms y (List.mem_cons_of_mem _ hy)
    cases hx : x.2.changesDoc with
    | false =>
      obtain ⟨q, hq, hpq, hle⟩ := ih hp htail
      refine ⟨q, ?_, hpq, fun y hy hc => ?_⟩
      · unfold lastUpdateClock at hq ⊢
        rwa [List.foldl_cons, hx, if_neg Bool.false_ne_true]
      · rcases List.mem_cons.mp hy with rfl | hy
        · rw [hx] at hc
          exact absurd hc Bool.false_ne_true
        · exact hle y hy hc
    | true =>
      have hid : InLog log x.1 :=
        ⟨_, mem_messagesOf.mp (hms x List.mem_cons_self), rfl⟩
      obtain ⟨q, hq, hpq, hle⟩ := ih (hp.max (clockAt_id hid)) htail
      refine ⟨q, ?_, (le_max_left _ _).trans hpq, fun y hy hc => ?_⟩
      · unfold lastUpdateClock at hq ⊢
        rwa [List.foldl_cons, hx, if_pos rfl]
      · rcases List.mem_cons.mp hy with rfl | hy
        · exact (le_max_right _ _).trans hpq
        · exact hle y hy hc

/-- What is added to a log comes after everything in it. -/
theorem ClockAt.lt_of_mem (h : ClockAt log c i) (hlog : LogOk (log ++ more))
    {e : Entry (Message β)} (he : e ∈ more) : i < e.id := by
  rcases h with ⟨-, rfl⟩ | ⟨-, e', he', rfl⟩
  · exact hlog.pos e (List.mem_append_right _ he)
  · exact (List.pairwise_append.mp hlog.sorted).2.2 e' he' e he

/-- An update of a longer log that is not after `t` was there before. -/
theorem mem_updates_of_append (ht : ∀ e ∈ more, t < e.id) {u : Update β}
    (hu : u ∈ updates (log ++ more)) (hut : u.id ≤ t) : u ∈ updates log := by
  rw [updates_append] at hu
  rcases List.mem_append.mp hu with hu | hu
  · exact hu
  · exact absurd hut (not_le.mpr (ht _ (mem_updates.mp hu)))

theorem updatesUpTo_append (ht : ∀ e ∈ more, t < e.id) :
    updatesUpTo (log ++ more) t = updatesUpTo log t := by
  unfold updatesUpTo
  rw [updates_append]
  exact upTo_append fun u hu => ht _ (mem_updates.mp hu)

/-- What an asset stands for does not change when the log grows. -/
theorem Represents.append [Preorder β] {Y : Yjs β} (ht : ∀ e ∈ more, t < e.id)
    {col : AssetColumn} {a : Asset β} (hr : Represents Y log t col a) :
    Represents Y (log ++ more) t col a := by
  cases col <;> cases a <;> simp only [Represents] at hr ⊢ <;>
    simp only [updatesUpTo_append ht]
  · exact hr
  · exact hr
  · exact fun hn => hr (noPrune_of_append hn)
  · exact fun hn => hr (noPrune_of_append hn)

end Logs

/-! ## The shared state -/

namespace Hub

/-- The entries on the stream of the room. -/
def live (room : Room) (s : Hub β) : List (Entry (Message β)) :=
  RedisStream.entriesOf (s.redis.live room)

/-- Some row has a clock of at least `i`. -/
def Persisted (s : Hub β) (i : StreamId) : Prop := ∃ row ∈ s.rows, ∃ t, row.t = .id t ∧ i ≤ t

theorem Persisted.anti {s : Hub β} {i j : StreamId} (h : s.Persisted j) (hij : i ≤ j) :
    s.Persisted i := by
  obtain ⟨row, hrow, t, ht, hjt⟩ := h
  exact ⟨row, hrow, t, ht, hij.trans hjt⟩

/-- A trim leaves a suffix of the stream. -/
theorem live_trim (s : Hub β) (room : Room) (now : Nat) (minId : List Char) (maxAgeMs : JsNumber)
    (task : StreamId) : Hub.live room { s with
      redis := (trimMessages now room minId maxAgeMs (some task) s.redis).1 } <:+
        s.live room := by
  show RedisStream.entriesOf ((trimMessages now room minId maxAgeMs (some task)
    s.redis).1.live room) <:+ _
  rw [trimMessages_live]
  exact trimStream_suffix ..

/-- The stream stays the end of the log when a message is added. -/
theorem live_suffix_addMessage {s : Hub β} {room : Room} {now : Nat} {m : Message β}
    (h : s.live room <:+ s.log) : Hub.live room { s with
        redis := addMessage now room m s.redis
        log := s.log ++ [⟨RedisStream.nextId now (s.redis.live room), .m m⟩] } <:+
      s.log ++ [⟨RedisStream.nextId now (s.redis.live room), .m m⟩] := by
  show RedisStream.entriesOf ((addMessage now room m s.redis).live room) <:+ _
  rw [addMessage_entries]
  obtain ⟨pre, e⟩ := h
  exact ⟨pre, by rw [← e, List.append_assoc]; rfl⟩

end Hub

section Assertions

variable [Preorder β] (C : Conf β) (room : Room)

/-- The asset of a column of version `t` can be retrieved, and stands for the log up to `t`. -/
def Resolves (s : Hub β) (t : StreamId) (col : AssetColumn) (a : Asset β) : Prop :=
  ∃ r, tryPersistencePluginRetrieve C.plugins (col.assetId room (.id t)) a s.objects = some r ∧
    Represents C.Y s.log t col r

/-- **The invariant of the shared state.** -/
structure HubOk (s : Hub β) : Prop where
  log_ok : LogOk s.log
  live_suffix : s.live room <:+ s.log
  not_hard : s.tombstone.any Tombstone.hard = false
  row_id : ∀ row ∈ s.rows, ∃ t, row.t = .id t ∧ InLog s.log t
  row_nodup : (s.rows.map Row.t).Nodup
  /-- Every row is complete. -/
  row_resolves : ∀ row ∈ s.rows, ∀ t, row.t = .id t → ∀ col, ∃ a,
    row.asset col = some a ∧ Resolves C room s t col a
  /-- What is not on the stream any more is persisted. -/
  covered : ∀ u ∈ updates s.log, u ∈ updates (s.live room) ∨ s.Persisted u.id
  written_ok : ∀ x ∈ s.written, ∃ t, x.1 = .id t ∧ InLog s.log t ∧
    ∀ col, Represents C.Y s.log t col (x.2.asset col)

/-! ## What a process relies on -/

/-- What a read of the stream up to `c` says. -/
structure CachedOk (s : Hub β) (cached : Messages (Message β)) (c : StreamId) : Prop where
  clock : ClockAt s.log cached.lastClock c
  mem_log : ∀ x ∈ cached.messages, x ∈ messagesOf s.log
  sorted : cached.messages.Pairwise fun a b => a.1 < b.1
  le : ∀ x ∈ cached.messages, x.1 ≤ c
  complete : ∀ u ∈ updates s.log, u.id ≤ c → u ∈ updatesIn cached.messages ∨ s.Persisted u.id

/-- What a persisted clock `p` says. -/
structure PersistedOk (s : Hub β) (clock : Clock) (p : StreamId) : Prop where
  clock : ClockAt s.log clock p
  persisted : p = .zero ∨ s.Persisted p

/-- A trim up to `minId` only removes updates that are persisted. -/
def TrimSafe (s : Hub β) (minId : Clock) : Prop :=
  ∃ i, ClockAt s.log minId i ∧ ∀ u ∈ updates s.log, u.id ≤ i → s.Persisted u.id

/-- The references are to versions for which `P` holds. -/
def RefsTo (P : StreamId → Prop) (refs : List (Reference β)) : Prop :=
  ∀ ref ∈ refs, ∃ (col : AssetColumn) (t : StreamId), ref.1 = col.assetId room (.id t) ∧ P t

/-- What the `SELECT` of a `getDoc` call says, the last clock being `p`, with the assets that are
still to be retrieved and those that were. -/
structure SelectedOk (s : Hub β) (i : Include) (ra : RetrievedAssets β)
    (todo retrieved : List (AssetId Clock × Asset β)) (p : StreamId) : Prop where
  persisted : PersistedOk s ra.lastClock p
  refs : RefsTo room (· ≤ p) ra.assets
  todo_ok : ∀ id a, (id, a) ∈ todo → ∃ (col : AssetColumn) (t : StreamId),
    id = col.assetId room (.id t) ∧ t ≤ p ∧ InLog s.log t ∧ Resolves C room s t col a
  retrieved_ok : RetrievedUpTo C.Y s.log room p retrieved
  last : p = .zero ∨ ∀ col, AssetColumn.included { i with contentids := true } col = true →
    ∃ a, (col.assetId room (.id p), a) ∈ todo ∨ (col.assetId room (.id p), a) ∈ retrieved

/-- The messages hold every update after `p` and up to `c`. -/
def Joined (s : Hub β) (cached : Messages (Message β)) (p c : StreamId) : Prop :=
  ∀ u ∈ updates s.log, p < u.id → u.id ≤ c → u ∈ updatesIn cached.messages

/-- What the two reads of a `getDoc` call say. -/
structure RetrievalOk (s : Hub β) (i : Include) (g : Retrieval β) : Prop where
  cached : ∀ m, g.cached = some m → ∃ c, CachedOk s m c
  selected : ∀ ra, g.selected = some ra → ∃ p, SelectedOk C room s i ra g.todo g.retrieved p
  unread : g.selected = none → g.todo = [] ∧ g.retrieved = []
  joined : ∀ m ra c p, g.cached = some m → g.selected = some ra → m.lastClock.toId? = some c →
    ra.lastClock.toId? = some p → Joined s m p c

/-- The document is to be stored under `l`, and some of its assets are with the plugins. -/
structure StoringOk (s : Hub β) (d : DocTable β) (c : DocContent β)
    (assets : AssetColumn → Option (Asset β)) (l : StreamId) : Prop where
  clock : d.lastClock = .id l
  inLog : InLog s.log l
  refs : ∀ refs, d.references = some refs → RefsTo room (· < l) refs
  represents : ∀ col, Represents C.Y s.log l col (c.asset col)
  resolves : ∀ col a, assets col = some a → Resolves C room s l col a

/-- There is a row with clock `l` or later. -/
structure CleaningOk (s : Hub β) (d : DocTable β) (l : StreamId) : Prop where
  clock : d.lastClock = .id l
  inLog : InLog s.log l
  refs : ∀ refs, d.references = some refs → RefsTo room (· < l) refs
  persisted : s.Persisted l

/-- The document stands for the log up to its last clock. -/
structure ReturnedOk (s : Hub β) (i : Include) (d : DocTable β) (l : StreamId) : Prop where
  clock : ClockAt s.log d.lastClock l
  represents : ∀ col, AssetColumn.included i col = true →
    ∃ a, d.asset? col = some a ∧ Represents C.Y s.log l col a

/-- **What a process relies on.** -/
def ProcOk (s : Hub β) : Proc β → Prop
  | .idle => True
  | .precheck _ cached persisted => (∀ m, cached = some m → ∃ c, CachedOk s m c) ∧
      ∀ x, persisted = some x → x.2.any Tombstone.hard = false ∧ ∃ p, PersistedOk s x.1 p
  | .trimming _ minId _ => TrimSafe s minId
  | .fetching _ g => RetrievalOk C room s compactInclude g
  | .storing _ d c assets => ∃ l, StoringOk C room s d c assets l
  | .cleaning _ d _ _ _ => ∃ l, CleaningOk room s d l
  | .reading i _ g => RetrievalOk C room s i g
  | .returned i d => ∃ l, ReturnedOk C s i d l
  | .finished => True

/-- The assets that a process has still to retrieve, or has stored with the plugins and not yet
inserted. -/
def Proc.Relies (id : AssetId Clock) (a : Asset β) : Proc β → Prop
  | .fetching _ g => (id, a) ∈ g.todo
  | .reading _ _ g => (id, a) ∈ g.todo
  | .storing _ d _ assets => ∃ col : AssetColumn, id = col.assetId room d.lastClock ∧
      assets col = some a
  | _ => False

/-! ## What the steps of others leave -/

/-- What may have happened to the shared state, from `s` to `s'`, as far as a process can tell that
relies on the assets in `keeps`. -/
structure Grows (keeps : AssetId Clock → Asset β → Prop) (s s' : Hub β) : Prop where
  log : ∃ more, s'.log = s.log ++ more
  log_ok : LogOk s'.log
  persisted : ∀ i, s.Persisted i → s'.Persisted i
  resolves : ∀ t (col : AssetColumn) a, InLog s.log t → keeps (col.assetId room (.id t)) a →
    Resolves C room s t col a → Resolves C room s' t col a

variable {C room} {s s' : Hub β} {keeps : AssetId Clock → Asset β → Prop}

namespace Grows

theorem clockAt (h : Grows C room keeps s s') {c : Clock} {i : StreamId}
    (hc : ClockAt s.log c i) : ClockAt s'.log c i := by
  obtain ⟨more, e⟩ := h.log
  rw [e]
  exact hc.append

theorem inLog (h : Grows C room keeps s s') {i : StreamId} (hi : InLog s.log i) :
    InLog s'.log i := by
  obtain ⟨more, e⟩ := h.log
  rw [e]
  exact hi.append

/-- No update up to a clock of the log is new. -/
theorem mem_updates (h : Grows C room keeps s s') {c : Clock} {i : StreamId}
    (hc : ClockAt s.log c i) {u : Update β} (hu : u ∈ updates s'.log) (hui : u.id ≤ i) :
    u ∈ updates s.log := by
  obtain ⟨more, e⟩ := h.log
  have hok := h.log_ok
  rw [e] at hu hok
  exact mem_updates_of_append (fun _ he => hc.lt_of_mem hok he) hu hui

theorem represents (h : Grows C room keeps s s') {c : Clock} {i t : StreamId}
    (hc : ClockAt s.log c i) (ht : t ≤ i) {col : AssetColumn} {a : Asset β}
    (hr : Represents C.Y s.log t col a) : Represents C.Y s'.log t col a := by
  obtain ⟨more, e⟩ := h.log
  have hok := h.log_ok
  rw [e] at hok ⊢
  exact hr.append fun _ he => ht.trans_lt (hc.lt_of_mem hok he)

theorem cachedOk (h : Grows C room keeps s s') {cached : Messages (Message β)} {c : StreamId}
    (hc : CachedOk s cached c) : CachedOk s' cached c where
  clock := h.clockAt hc.clock
  mem_log x hx := by
    obtain ⟨more, e⟩ := h.log
    have hm := mem_messagesOf.mp (hc.mem_log x hx)
    rw [e]
    exact mem_messagesOf.mpr (List.mem_append_left _ hm)
  sorted := hc.sorted
  le := hc.le
  complete u hu huc :=
    (hc.complete u (h.mem_updates hc.clock hu huc) huc).imp_right (h.persisted _)

theorem persistedOk (h : Grows C room keeps s s') {c : Clock} {p : StreamId}
    (hp : PersistedOk s c p) : PersistedOk s' c p :=
  ⟨h.clockAt hp.clock, hp.persisted.imp_right (h.persisted _)⟩

theorem trimSafe (h : Grows C room keeps s s') {c : Clock} (hc : TrimSafe s c) :
    TrimSafe s' c := by
  obtain ⟨i, hi, hsafe⟩ := hc
  exact ⟨i, h.clockAt hi, fun u hu hui => h.persisted _ (hsafe u (h.mem_updates hi hu hui) hui)⟩

theorem retrievedUpTo (h : Grows C room keeps s s') {c : Clock} {p : StreamId}
    (hp : ClockAt s.log c p) {l : List (AssetId Clock × Asset β)}
    (hl : RetrievedUpTo C.Y s.log room p l) : RetrievedUpTo C.Y s'.log room p l := by
  intro id a hmem
  obtain ⟨col, t, hid, htp, hr⟩ := hl id a hmem
  exact ⟨col, t, hid, htp, h.represents hp htp hr⟩

theorem selectedOk {i : Include} {ra : RetrievedAssets β}
    {todo retrieved : List (AssetId Clock × Asset β)} {p : StreamId}
    (h : Grows C room (fun id a => (id, a) ∈ todo) s s')
    (hs : SelectedOk C room s i ra todo retrieved p) :
    SelectedOk C room s' i ra todo retrieved p where
  persisted := h.persistedOk hs.persisted
  refs := hs.refs
  todo_ok id a hmem := by
    obtain ⟨col, t, rfl, htp, ht, hr⟩ := hs.todo_ok id a hmem
    exact ⟨col, t, rfl, htp, h.inLog ht, h.resolves t col a ht hmem hr⟩
  retrieved_ok := h.retrievedUpTo hs.persisted.clock hs.retrieved_ok
  last := hs.last

theorem retrievalOk {i : Include} {g : Retrieval β}
    (h : Grows C room (fun id a => (id, a) ∈ g.todo) s s') (hg : RetrievalOk C room s i g) :
    RetrievalOk C room s' i g where
  cached m hm := (hg.cached m hm).imp fun _ hc => h.cachedOk hc
  selected ra hra := (hg.selected ra hra).imp fun _ hp => h.selectedOk hp
  unread := hg.unread
  joined m ra c p hm hra hmc hrp := by
    obtain ⟨c', hc⟩ := hg.cached m hm
    obtain rfl : c' = c := Option.some.inj (hc.clock.toId?.symm.trans hmc)
    exact fun u hu hpu huc =>
      hg.joined m ra c' p hm hra hmc hrp u (h.mem_updates hc.clock hu huc) hpu huc

theorem storingOk {d : DocTable β} {c : DocContent β} {assets : AssetColumn → Option (Asset β)}
    {l : StreamId} (h : Grows C room
      (fun id a => ∃ col : AssetColumn, id = col.assetId room d.lastClock ∧ assets col = some a)
      s s') (hs : StoringOk C room s d c assets l) : StoringOk C room s' d c assets l where
  clock := hs.clock
  inLog := h.inLog hs.inLog
  refs := hs.refs
  represents col := h.represents (clockAt_id hs.inLog) le_rfl (hs.represents col)
  resolves col a ha :=
    h.resolves l col a hs.inLog ⟨col, by rw [hs.clock], ha⟩ (hs.resolves col a ha)

end Grows

/-- **What a process relies on is left to it.** -/
theorem ProcOk.mono {p : Proc β} (h : Grows C room (fun id a => p.Relies room id a) s s')
    (hp : ProcOk C room s p) : ProcOk C room s' p := by
  cases p with
  | idle => exact hp
  | precheck task cached persisted =>
    exact ⟨fun m hm => (hp.1 m hm).imp fun _ hc => h.cachedOk hc,
      fun x hx => (hp.2 x hx).imp_right fun ⟨p, hp⟩ => ⟨p, h.persistedOk hp⟩⟩
  | trimming task minId maxAgeMs => exact h.trimSafe hp
  | fetching task g => exact h.retrievalOk hp
  | storing task d c assets => exact hp.imp fun _ hs => h.storingOk hs
  | cleaning task d scheduled deleted trimmed =>
    exact hp.imp fun _ hc => ⟨hc.clock, h.inLog hc.inLog, hc.refs, h.persisted _ hc.persisted⟩
  | reading i gcOnMerge g => exact h.retrievalOk hp
  | returned i d =>
    obtain ⟨l, hl⟩ := hp
    refine ⟨l, h.clockAt hl.clock, fun col hcol => ?_⟩
    obtain ⟨a, ha, hr⟩ := hl.represents col hcol
    exact ⟨a, ha, h.represents hl.clock le_rfl hr⟩
  | finished => exact hp

end Assertions

end YHub
