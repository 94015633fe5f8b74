import YHub.System

/-!
# Undisturbed runs (`index.js:162-223`)

What a `getDoc` call, `Persistence.store`, `unsafePersistDoc` and a run of `_runTask` come to when
no other process takes a step between theirs, as functions on `Hub`: `readDoc`, `store`,
`unsafePersistDoc`, `compact` (the run up to its trim) and `runTask`. `runTask_alone`,
`stored_alone` and `readDoc_alone` say that the steps of `System.lean` do come to that.

* `Hub.store_spec`: what can be retrieved after a `store` under a new clock.
* `compact_cases`, `compacted_spec`: a compaction only trims, or it stores one row in place of all
  that were there.
-/

namespace YHub

variable {β : Type} (C : Conf β) (room : Room)

namespace Hub

/-- A message is added at redis time `now`. -/
def addMessage (now : Nat) (m : Message β) (s : Hub β) : Hub β :=
  { s with
    redis := YHub.addMessage now room m s.redis
    log := s.log ++ [⟨RedisStream.nextId now (s.redis.live room), .m m⟩] }

/-- What a `SELECT` of `getDoc` reads. -/
def selected (i : Include) (s : Hub β) : RetrievedAssets β :=
  retrieveAssets C.sort room { i with contentids := true } false s.tombstone s.rows

/-- The column of the row can be retrieved. -/
def Retrieves (s : Hub β) (row : Row β) (col : AssetColumn) (r : Asset β) : Prop :=
  ∃ a, row.asset col = some a ∧
    tryPersistencePluginRetrieve C.plugins (col.assetId room row.t) a s.objects = some r

/-- The assets that are found. -/
def found (l : List (AssetId Clock × Asset β)) (s : Hub β) : List (AssetId Clock × Asset β) :=
  l.filterMap fun x => (tryPersistencePluginRetrieve C.plugins x.1 x.2 s.objects).map (x.1, ·)

/-- `getDoc`, with the messages it is handed or has read. -/
def readDoc (i : Include) (gcOnMerge : Bool) (cached : Messages (Message β)) (s : Hub β) :
    DocTable β :=
  YHub.getDoc C.Y i gcOnMerge (retrieveDoc { i with contentids := true } (s.selected C room i)
    (s.found C (toRetrieve (s.selected C room i).assets))) cached

/-- `getDoc`, both of whose reads take place now. -/
def getDoc (i : Include) (gcOnMerge : Bool) (s : Hub β) : DocTable β :=
  s.readDoc C room i gcOnMerge (getMessages (s.redis.live room))

/-- `store`: the plugins, then the `INSERT`. -/
def store (t : Clock) (c : DocContent β) (s : Hub β) : Hub β :=
  { s with
    objects := AssetColumn.all.foldl (fun objects col => (tryPersistencePluginStore C.plugins
      (col.assetId room t) (c.asset col) objects).1) s.objects
    rows := insertRow s.tombstone (storedRow t fun col => (tryPersistencePluginStore C.plugins
      (col.assetId room t) (c.asset col) s.objects).2) s.rows }

/-- What `unsafePersistDoc` stores at redis time `ms`: a document, attributed as a whole. -/
def attributed (Y : Yjs β) (ms : Nat) (ydoc : β) (by_ : Option String) : DocContent β :=
  let contentids := Y.createContentIdsFromUpdate ydoc
  let insertAttrs := [⟨"insertAt", .number ms⟩] ++ (by_.map (⟨"insert", .string ·⟩)).toList
  let deleteAttrs := [⟨"deleteAt", .number ms⟩] ++ (by_.map (⟨"delete", .string ·⟩)).toList
  let contentmap := Y.createContentMapFromContentIds contentids insertAttrs deleteAttrs
  ⟨ydoc, ydoc, Y.encodeContentMap contentmap, Y.encodeContentIds contentids⟩

/-- `unsafePersistDoc` at redis time `ms` (`index.js:436-454`): a row that did not come from the
stream, under a clock that is not a stream id. -/
def unsafePersistDoc (ms : Nat) (ydoc : β) (by_ : Option String) (s : Hub β) : Hub β :=
  s.store C room (.persist ms) (attributed C.Y ms ydoc by_)

/-- `deleteReferences`. -/
def deleteReferences (refs : List (Reference β)) (s : Hub β) : Hub β :=
  { s with
    timers := s.timers ++ scheduledRemovals C.plugins refs
    rows := YHub.deleteReferences room refs s.rows }

/-- A run of `_runTask` up to its trim: the hub it leaves, and the clock and the age it trims
with. Everything is asked for, so `d.content?` is never `none`. -/
def compact (s : Hub β) : Hub β × Clock × JsNumber :=
  let cached := getMessages (s.redis.live room)
  let persisted := lastClockOf C.sort s.rows
  if nothingToCompact persisted s.tombstone cached.messages then
    (s, persisted.max cached.lastClock, trimOnlyMaxAge C.minMessageLifetime s.tombstone)
  else
    let d := s.readDoc C room compactInclude true cached
    match (if outrun d then none else d.content?) with
    | none => (s, d.lastClock, C.minMessageLifetime)
    | some c =>
      (({ s with written := (d.lastClock, c) :: s.written }.store C room d.lastClock
        c).deleteReferences C room (d.references.getD []), d.lastClock, C.minMessageLifetime)

/-- The last row clock. -/
abbrev lastPersistedClock (s : Hub β) : Clock := lastClockOf C.sort s.rows

/-- The last clock of what `getDoc` returns. -/
abbrev lastClock (s : Hub β) : Clock :=
  (s.lastPersistedClock C).max (getMessages (s.redis.live room)).lastClock

/-- The hub that a compaction leaves which stores `c`. -/
def compacted (c : DocContent β) (s : Hub β) : Hub β :=
  ({ s with written := (s.lastClock C room, c) :: s.written }.store C room (s.lastClock C room)
    c).deleteReferences C room (s.selected C room compactInclude).assets

/-- A run of `_runTask`, trimming at redis time `now`. -/
def runTask (now : Nat) (task : StreamId) (s : Hub β) : Hub β :=
  let (s, minId, maxAgeMs) := s.compact C room
  { s with redis := (trimMessages now room minId.text maxAgeMs (some task) s.redis).1 }

end Hub

variable {C room} {s : Hub β}

/-- `store` deletes no row. -/
theorem Hub.mem_store_rows {t : Clock} {c : DocContent β} {row : Row β} (h : row ∈ s.rows) :
    row ∈ (s.store C room t c).rows :=
  mem_insertRow_of_mem h

/-! ## What `store` leaves to retrieve -/

theorem tryPersistencePluginStore_snd (plugins : List (Plugin β)) (id : AssetId Clock)
    (asset : Asset β) (o o' : Objects β) :
    (tryPersistencePluginStore plugins id asset o).2 =
      (tryPersistencePluginStore plugins id asset o').2 := by
  unfold tryPersistencePluginStore
  cases plugins.find? (·.takes id asset) <;> rfl

/-- The objects after the plugins have stored the assets of the columns. -/
abbrev putAll (C : Conf β) (room : Room) (t : Clock) (c : DocContent β)
    (cols : List AssetColumn) (o : Objects β) : Objects β :=
  cols.foldl (fun objects col => (tryPersistencePluginStore C.plugins (col.assetId room t)
    (c.asset col) objects).1) o

section Store

variable {t t' : Clock} {c : DocContent β} {col : AssetColumn} {a : Asset β} {o : Objects β}

theorem putAll_cons (cols : List AssetColumn) : putAll C room t c (col :: cols) o =
    putAll C room t c cols
      (tryPersistencePluginStore C.plugins (col.assetId room t) (c.asset col) o).1 := rfl

/-- The objects that `store` puts under `t` do not matter under another clock. -/
theorem retrieve_stores_of_ne (h : t' ≠ t) (cols : List AssetColumn) :
    tryPersistencePluginRetrieve C.plugins (col.assetId room t') a (putAll C room t c cols o) =
      tryPersistencePluginRetrieve C.plugins (col.assetId room t') a o := by
  induction cols generalizing o with
  | nil => rfl
  | cons col' cols ih =>
    rw [putAll_cons, ih]
    rcases retrieve_after_store C.plugins (col'.assetId room t) (col.assetId room t')
      (c.asset col') a o with he | ⟨hid, -⟩
    · exact he
    · exact absurd (AssetColumn.assetId_inj hid).1 h

/-- An asset of the content can still be retrieved after more of it was put. -/
theorem retrieve_stores_of_retrieve (cols : List AssetColumn)
    (h : tryPersistencePluginRetrieve C.plugins (col.assetId room t) a o = some (c.asset col)) :
    tryPersistencePluginRetrieve C.plugins (col.assetId room t) a (putAll C room t c cols o) =
      some (c.asset col) := by
  induction cols generalizing o with
  | nil => exact h
  | cons col' cols ih =>
    rw [putAll_cons]
    refine ih ?_
    rcases retrieve_after_store C.plugins (col'.assetId room t) (col.assetId room t)
      (c.asset col') a o with he | ⟨hid, he⟩
    · rw [he, h]
    · rw [he, (AssetColumn.assetId_inj hid).2]

/-- Every column of the content can be retrieved. -/
theorem retrieve_stores {cols : List AssetColumn} (hcol : col ∈ cols) (o' : Objects β) :
    tryPersistencePluginRetrieve C.plugins (col.assetId room t)
      (tryPersistencePluginStore C.plugins (col.assetId room t) (c.asset col) o').2
      (putAll C room t c cols o) = some (c.asset col) := by
  induction cols generalizing o with
  | nil => exact absurd hcol List.not_mem_nil
  | cons col' cols ih =>
    rw [putAll_cons]
    by_cases he : col = col'
    · subst he
      refine retrieve_stores_of_retrieve cols ?_
      rw [tryPersistencePluginStore_snd C.plugins (col.assetId room t) (c.asset col) o' o]
      exact retrieve_store (c.asset_isReference col)
    · exact ih ((List.mem_cons.mp hcol).resolve_left he)

/-- **`store` under a new clock** adds a row whose columns can be retrieved, and leaves what can be
retrieved of the other rows. -/
theorem Hub.store_spec (hhard : s.tombstone.any Tombstone.hard = false)
    (hnew : t ∉ s.rows.map Row.t) (c : DocContent β) :
    ∃ row : Row β, (s.store C room t c).rows = s.rows ++ [row] ∧ row.t = t ∧
      (∀ col, (s.store C room t c).Retrieves C room row col (c.asset col)) ∧
      ∀ row' ∈ s.rows, ∀ col r, (s.store C room t c).Retrieves C room row' col r ↔
        s.Retrieves C room row' col r := by
  refine ⟨storedRow t fun col => (tryPersistencePluginStore C.plugins (col.assetId room t)
    (c.asset col) s.objects).2, ?_, rfl, fun col => ⟨_, rfl, ?_⟩, fun row' hrow' col r => ?_⟩
  · rcases insertRow_of_not_hard (storedRow t fun col => (tryPersistencePluginStore C.plugins
      (col.assetId room t) (c.asset col) s.objects).2) s.rows hhard with ⟨hmem, -⟩ | ⟨-, e⟩
    · exact absurd hmem hnew
    · exact e
  · exact retrieve_stores (AssetColumn.mem_all col) s.objects
  · have hne : row'.t ≠ t := fun e => hnew (e ▸ List.mem_map_of_mem hrow')
    unfold Hub.Retrieves Hub.store
    simp only [retrieve_stores_of_ne hne]

end Store

/-! ## What a compaction can do -/

/-- A run asks for all there is to store. -/
theorem readDoc_content (C : Conf β) (room : Room) (s : Hub β) (cached : Messages (Message β)) :
    ∃ c, (s.readDoc C room compactInclude true cached).content? = some c :=
  DocTable.content?_of_asset fun col => getDoc_asset? (by cases col <;> rfl)

/-- **What a compaction can do**: only trim, or store what `getDoc` returns and delete the rows that
it comes from. -/
theorem compact_cases (C : Conf β) (room : Room) (s : Hub β) :
    (∃ maxAgeMs, s.compact C room = (s, s.lastClock C room, maxAgeMs) ∧
      (nothingToCompact (s.lastPersistedClock C) s.tombstone
          (getMessages (s.redis.live room)).messages = true ∨
        (s.lastPersistedClock C).isSmaller (s.lastClock C room) = false)) ∨
    ∃ c, (s.getDoc C room compactInclude true).content? = some c ∧
      (s.lastPersistedClock C).isSmaller (s.lastClock C room) = true ∧
      s.compact C room = (s.compacted C room c, s.lastClock C room, C.minMessageLifetime) := by
  unfold Hub.compact
  simp only
  cases hn : nothingToCompact (lastClockOf C.sort s.rows) s.tombstone
      (getMessages (s.redis.live room)).messages with
  | true => exact Or.inl ⟨_, by rw [if_pos rfl], Or.inl rfl⟩
  | false =>
    rw [if_neg Bool.false_ne_true]
    cases hout : outrun (s.readDoc C room compactInclude true
        (getMessages (s.redis.live room))) with
    | true =>
      refine Or.inl ⟨C.minMessageLifetime, ?_, Or.inr ((Bool.not_eq_true' _).mp hout)⟩
      rw [if_pos rfl]
      rfl
    | false =>
      obtain ⟨c, hc⟩ := readDoc_content C room s (getMessages (s.redis.live room))
      refine Or.inr ⟨c, hc, (Bool.not_eq_false' _).mp hout, ?_⟩
      rw [if_neg Bool.false_ne_true, hc]
      rfl

/-- **A compaction that stores something** replaces the rows by the one that it stores. -/
theorem compacted_spec (hsort : SortSpec C.sort) (hhard : s.tombstone.any Tombstone.hard = false)
    (hcomp : (s.rows.map Row.t).Pairwise Comparable)
    (hlt : (s.lastPersistedClock C).isSmaller (s.lastClock C room) = true) (c : DocContent β) :
    (∀ row ∈ s.rows, row.t.isSmaller (s.lastClock C room) = true) ∧
      ∃ row, (s.compacted C room c).rows = [row] ∧ row.t = s.lastClock C room ∧
        ∀ col, (s.compacted C room c).Retrieves C room row col (c.asset col) := by
  have hbelow : ∀ row ∈ s.rows, row.t.isSmaller (s.lastClock C room) = true := by
    intro row hrow
    rcases lastClock_max hsort hcomp hrow with e | h
    · rw [e]
      exact hlt
    · exact Clock.isSmaller_trans h hlt
  have hne : ∀ row ∈ s.rows, row.t ≠ s.lastClock C room := by
    intro row hrow e
    have h := hbelow row hrow
    rw [e, Clock.isSmaller_self] at h
    exact absurd h Bool.false_ne_true
  have hnew : s.lastClock C room ∉ s.rows.map Row.t := by
    intro hmem
    obtain ⟨row, hrow, e⟩ := List.mem_map.mp hmem
    exact hne row hrow e
  obtain ⟨row, hrows, ht, hcols, -⟩ := @Hub.store_spec _ C room
    { s with written := (s.lastClock C room, c) :: s.written } _ hhard hnew c
  refine ⟨hbelow, row, ?_, ht, hcols⟩
  show deleteReferences room _ (Hub.store C room _ c _).rows = [row]
  rw [hrows]
  unfold deleteReferences
  have hold : s.rows.filter (fun row => ¬ ∃ ref ∈ (s.selected C room compactInclude).assets,
      ref.1.room = room ∧ ref.1.t = row.t) = [] := by
    refine List.filter_eq_nil_iff.mpr fun row' hrow' => ?_
    have href : (AssetColumn.gcdoc.assetId room row'.t, row'.asset .gcdoc) ∈
        (s.selected C room compactInclude).assets := mem_assets.mpr ⟨row', hrow', .gcdoc, rfl, rfl⟩
    rw [decide_eq_true_eq, not_not]
    exact ⟨_, href, AssetColumn.assetId_room room row'.t .gcdoc,
      AssetColumn.assetId_t room row'.t .gcdoc⟩
  have hkept : ¬ ∃ ref ∈ (s.selected C room compactInclude).assets,
      ref.1.room = room ∧ ref.1.t = row.t := by
    rintro ⟨ref, href, -, e⟩
    obtain ⟨row', hrow', col, -, rfl⟩ := mem_assets.mp href
    rw [AssetColumn.assetId_t, ht] at e
    exact hne row' hrow' e
  rw [List.filter_append, hold, List.nil_append, List.filter_singleton, decide_eq_true hkept]
  rfl

/-! ## The steps of an undisturbed run -/

/-- The steps of a worker on its own. -/
abbrev WorkerAlone (C : Conf β) (room : Room) : Hub β × Proc β → Hub β × Proc β → Prop :=
  Interleave.Alone (WorkerStep C room)

variable {task : StreamId}

/-- Retrieving the assets one after the other. -/
theorem retrieve_all {reads : Hub β → Retrieval β → Prop} {i : Include} {g : Retrieval β}
    {l : List (AssetId Clock × Asset β)} (hl : g.todo = l) :
    Relation.ReflTransGen (RetrievalStep C room reads i s) g
      { g with todo := [], retrieved := g.retrieved ++ s.found C l } := by
  induction l generalizing g with
  | nil =>
    obtain ⟨cached, selected, todo, retrieved⟩ := g
    obtain rfl : todo = [] := hl
    simpa [Hub.found] using Relation.ReflTransGen.refl
  | cons x l ih =>
    refine Relation.ReflTransGen.head (RetrievalStep.retrieve g [] l x.1 x.2 hl) ?_
    cases hr : tryPersistencePluginRetrieve C.plugins x.1 x.2 s.objects with
    | none => simpa [hr, Hub.found] using ih (g := { g with todo := l }) rfl
    | some r =>
      have h := ih (g := { g with todo := l, retrieved := g.retrieved ++ [(x.1, r)] }) rfl
      simpa [hr, Hub.found] using h

/-- Reading the rows and retrieving the assets. -/
theorem select_all {reads : Hub β → Retrieval β → Prop} {i : Include}
    (cached : Option (Messages (Message β))) :
    Relation.ReflTransGen (RetrievalStep C room reads i s) ⟨cached, none, [], []⟩
      ⟨cached, some (s.selected C room i), [],
        s.found C (toRetrieve (s.selected C room i).assets)⟩ :=
  Relation.ReflTransGen.head (RetrievalStep.select _ s.rows (List.Perm.refl _) rfl)
    (retrieve_all rfl)

/-- The two reads of the pre-check. -/
theorem precheck_alone : WorkerAlone C room (s, .idle) (s, .precheck task
    (some (getMessages (s.redis.live room))) (some (lastClockOf C.sort s.rows, s.tombstone))) :=
  ((Interleave.Alone.refl.step (WorkerStep.start s task)).step
    (WorkerStep.precheckStream s task none)).step
      (WorkerStep.precheckClock s task _ s.rows (List.Perm.refl _))

theorem fetch_alone (cached : Messages (Message β)) :
    WorkerAlone C room (s, .fetching task (.start (some cached)))
      (s, .fetching task ⟨some cached, some (s.selected C room compactInclude), [],
        s.found C (toRetrieve (s.selected C room compactInclude).assets)⟩) :=
  (select_all (some cached)).lift (fun g => (s, Proc.fetching task g))
    fun g g' h => WorkerStep.fetch s task g g' h

/-- The plugins store the assets of the columns, one after the other. -/
theorem put_alone {d : DocTable β} {c : DocContent β} (o : Objects β) {cols : List AssetColumn}
    (hcols : cols.Nodup) {assets : AssetColumn → Option (Asset β)}
    (hnone : ∀ col ∈ cols, assets col = none) :
    WorkerAlone C room (s, .storing task d c assets)
      ({ s with objects := putAll C room d.lastClock c cols s.objects },
      .storing task d c fun col => if col ∈ cols then some (tryPersistencePluginStore C.plugins
        (col.assetId room d.lastClock) (c.asset col) o).2 else assets col) := by
  induction cols generalizing s assets with
  | nil => exact .refl
  | cons col cols ih =>
    have hcons := List.nodup_cons.mp hcols
    refine Interleave.Alone.head
      (WorkerStep.put s task d c assets col (hnone col List.mem_cons_self)) ?_
    have hrest : ∀ col' ∈ cols, Function.update assets col
        (some (tryPersistencePluginStore C.plugins (col.assetId room d.lastClock) (c.asset col)
          s.objects).2) col' = none := by
      intro col' hcol'
      have hne : col' ≠ col := by
        rintro rfl
        exact hcons.1 hcol'
      rw [Function.update_of_ne hne]
      exact hnone col' (List.mem_cons_of_mem _ hcol')
    have h := ih (s := { s with objects := (tryPersistencePluginStore C.plugins
      (col.assetId room d.lastClock) (c.asset col) s.objects).1 }) hcons.2 hrest
    have e : (fun col' => if col' ∈ cols then some (tryPersistencePluginStore C.plugins
          (col'.assetId room d.lastClock) (c.asset col') o).2
        else Function.update assets col (some (tryPersistencePluginStore C.plugins
          (col.assetId room d.lastClock) (c.asset col) s.objects).2) col') =
        fun col' => if col' ∈ col :: cols then some (tryPersistencePluginStore C.plugins
          (col'.assetId room d.lastClock) (c.asset col') o).2 else assets col' := by
      funext col'
      by_cases hcol' : col' = col
      · subst hcol'
        rw [if_neg hcons.1, if_pos List.mem_cons_self, Function.update_self,
          tryPersistencePluginStore_snd]
      · rw [Function.update_of_ne hcol']
        simp [hcol']
    rw [e] at h
    exact h

section Stored

variable {c : DocContent β} (hsome : nothingToCompact (lastClockOf C.sort s.rows) s.tombstone
    (getMessages (s.redis.live room)).messages = false)
  (hout : outrun (s.readDoc C room compactInclude true (getMessages (s.redis.live room))) = false)
  (hc : (s.readDoc C room compactInclude true (getMessages (s.redis.live room))).content? = some c)
include hsome hout hc

/-- **Up to the plugins**, when there is something to store. -/
theorem putting_alone : WorkerAlone C room (s, .idle)
    ({ s with
      written := ((s.readDoc C room compactInclude true
        (getMessages (s.redis.live room))).lastClock, c) :: s.written
      objects := putAll C room (s.readDoc C room compactInclude true
        (getMessages (s.redis.live room))).lastClock c AssetColumn.all s.objects },
    .storing task (s.readDoc C room compactInclude true (getMessages (s.redis.live room))) c
      fun col => some (tryPersistencePluginStore C.plugins (col.assetId room (s.readDoc C room
        compactInclude true (getMessages (s.redis.live room))).lastClock) (c.asset col)
        s.objects).2) := by
  have h₁ : WorkerAlone C room (s, .idle) (s, .precheck task _ _) := precheck_alone
  have h₂ := (h₁.step (WorkerStep.proceed s task _ _ _ hsome)).trans (fetch_alone _)
  have h₃ := h₂.step (WorkerStep.merged s task _ _ c ⟨_, _, rfl, rfl, rfl, rfl⟩ hout hc)
  have h₄ := h₃.trans (put_alone s.objects (by decide : AssetColumn.all.Nodup) fun _ _ => rfl)
  simp only [AssetColumn.mem_all, if_true] at h₄
  exact h₄

/-- **Up to the `INSERT`**, when there is something to store. -/
theorem stored_alone : WorkerAlone C room (s, .idle)
    ({ s with written := ((s.readDoc C room compactInclude true
        (getMessages (s.redis.live room))).lastClock, c) :: s.written }.store C room
      (s.readDoc C room compactInclude true (getMessages (s.redis.live room))).lastClock c,
    .cleaning task (s.readDoc C room compactInclude true (getMessages (s.redis.live room)))
      false false false) :=
  (putting_alone hsome hout hc).step (WorkerStep.insert _ task _ c _)

end Stored

/-- **A run of `_runTask`.** -/
theorem runTask_alone (now : Nat) (task : StreamId) :
    WorkerAlone C room (s, .idle) (s.runTask C room now task, .finished) := by
  have h₁ : WorkerAlone C room (s, .idle) (s, .precheck task _ _) := precheck_alone
  unfold Hub.runTask Hub.compact
  simp only
  cases hn : nothingToCompact (lastClockOf C.sort s.rows) s.tombstone
      (getMessages (s.redis.live room)).messages with
  | true =>
    rw [if_pos rfl]
    exact (h₁.step (WorkerStep.nothing s task _ _ _ hn)).step (WorkerStep.trim s task _ _ now)
  | false =>
    rw [if_neg Bool.false_ne_true]
    have h₂ := (h₁.step (WorkerStep.proceed s task _ _ _ hn)).trans (fetch_alone _)
    cases hout : outrun
        (s.readDoc C room compactInclude true (getMessages (s.redis.live room))) with
    | true =>
      have h₃ := h₂.step (WorkerStep.outrun s task _ _ ⟨_, _, rfl, rfl, rfl, rfl⟩ hout)
      exact h₃.step (WorkerStep.trim s task _ _ now)
    | false =>
      obtain ⟨c, hc⟩ := readDoc_content C room s (getMessages (s.redis.live room))
      have h₃ : WorkerAlone C room (s, .idle) (_, .cleaning task _ false false false) :=
        stored_alone hn hout hc
      have h₄ := h₃.step (WorkerStep.schedule _ task _ _ rfl)
      have h₅ := h₄.step (WorkerStep.delete _ task _ _ false rfl)
      have h₆ := h₅.step (WorkerStep.trimAfter _ task _ true now)
      have h₇ := h₆.step (WorkerStep.stop _ _)
      rw [if_neg Bool.false_ne_true, hc]
      exact h₇

/-- **A run that stores something**, up to its trim, and what the trim makes of it. -/
theorem compacted_alone (hsome : nothingToCompact (lastClockOf C.sort s.rows) s.tombstone
      (getMessages (s.redis.live room)).messages = false)
    (hlt : (s.lastPersistedClock C).isSmaller (s.lastClock C room) = true) (task : StreamId) :
    ∃ c, (s.getDoc C room compactInclude true).content? = some c ∧
      WorkerAlone C room (s, .idle) (s.compacted C room c,
        .cleaning task (s.getDoc C room compactInclude true) true true false) ∧
      ∀ now, s.runTask C room now task = { s.compacted C room c with
        redis := (trimMessages now room (s.lastClock C room).text C.minMessageLifetime (some task)
          (s.compacted C room c).redis).1 } := by
  obtain ⟨c, hc, hcompact⟩ : ∃ c, (s.getDoc C room compactInclude true).content? = some c ∧
      s.compact C room = (s.compacted C room c, s.lastClock C room, C.minMessageLifetime) := by
    rcases compact_cases C room s with ⟨-, -, h | h⟩ | ⟨c, hc, -, hcompact⟩
    · exact absurd (hsome.symm.trans h) Bool.false_ne_true
    · exact absurd (h.symm.trans hlt) Bool.false_ne_true
    · exact ⟨c, hc, hcompact⟩
  have hout : outrun (s.getDoc C room compactInclude true) = false :=
    (Bool.not_eq_false' _).mpr hlt
  refine ⟨c, hc, ?_, fun now => ?_⟩
  · exact ((stored_alone hsome hout hc).step (WorkerStep.schedule _ task _ _ rfl)).step
      (WorkerStep.delete _ task _ _ false rfl)
  · unfold Hub.runTask
    rw [hcompact]

/-- The process has not trimmed. -/
def Proc.Untrimmed : Proc β → Prop
  | .cleaning _ _ _ _ trimmed => trimmed = false
  | .finished => False
  | _ => True

theorem untrimmed_step {p p' : Proc β} {s' : Hub β} (h : WorkerStep C room s p s' p')
    (hp' : p'.Untrimmed) : p.Untrimmed ∧ s'.redis = s.redis ∧ s'.log = s.log := by
  cases h with
  | trimAfter task d deleted now => exact absurd hp' (by simp [Proc.Untrimmed])
  | trim task minId maxAgeMs now => exact hp'.elim
  | stop => exact hp'.elim
  | schedule task d refs hrefs => exact ⟨rfl, rfl, rfl⟩
  | delete task d refs trimmed hrefs => exact ⟨hp', rfl, rfl⟩
  | _ => exact ⟨trivial, rfl, rfl⟩

/-- **Up to its trim a worker leaves redis alone.** -/
theorem untrimmed_alone {y z : Hub β × Proc β} (h : WorkerAlone C room y z) (hz : z.2.Untrimmed) :
    Interleave.Alone (fun s p s' p' => WorkerStep C room s p s' p' ∧ s'.redis = s.redis ∧
      s'.log = s.log) y z := by
  induction h with
  | refl => exact .refl
  | tail _ hstep ih =>
    obtain ⟨hp, hsame⟩ := untrimmed_step hstep hz
    exact Interleave.Alone.step (ih hp) ⟨hstep, hsame⟩

theorem read_alone {reads : Hub β → Retrieval β → Prop} {i : Include} {gcOnMerge : Bool}
    (cached : Option (Messages (Message β))) :
    Interleave.Alone (ReadStep C room reads) (s, .reading i gcOnMerge (.start cached))
      (s, .reading i gcOnMerge ⟨cached, some (s.selected C room i), [],
        s.found C (toRetrieve (s.selected C room i).assets)⟩) :=
  (select_all cached).lift (fun g => (s, Proc.reading i gcOnMerge g))
    fun g g' h => ReadStep.read s i gcOnMerge g g' h

/-- **A `getDoc` call.** -/
theorem readDoc_alone {reads : Hub β → Retrieval β → Prop} {i : Include} {gcOnMerge : Bool}
    (h : reads s (.start none)) : Interleave.Alone (ReadStep C room reads) (s, .idle)
      (s, .returned i (s.getDoc C room i gcOnMerge)) := by
  have h₁ : Interleave.Alone (ReadStep C room reads) (s, .idle)
      (s, .reading i gcOnMerge (.start none)) := .step .refl (ReadStep.start s i gcOnMerge)
  have h₂ := h₁.step (ReadStep.read s i gcOnMerge _ _ (RetrievalStep.xread _ rfl h))
  exact (h₂.trans (read_alone _)).step
    (ReadStep.finish s i gcOnMerge _ _ ⟨_, _, rfl, rfl, rfl, rfl⟩)

/-! ## A hub to run -/

/-- A hub with the reference implementation of Yjs. -/
def Conf.ref (plugins : List (Plugin RefPayload)) : Conf RefPayload :=
  ⟨yjsRef, insertionSort, plugins, .ofNat 60000⟩

/-- An update with one operation, inserted by someone. -/
def insertion (op : Nat) (by_ : String) : Message RefPayload :=
  .ydocUpdate (.doc [op]) (.contentMap ⟨[(op, [⟨"insert", .string by_⟩])], []⟩)

/-- A room with one update. -/
def oneUpdate : Hub RefPayload := Hub.empty.addMessage Room.a 1000 (insertion 7 "user1")

/-- Whatever processes there are, they may wait for the first update. -/
theorem oneUpdate_reach
    {fires : Interleave.State (Hub RefPayload) Nat (Proc RefPayload) → ObjectId → Prop}
    {proc : Hub RefPayload → Proc RefPayload → Hub RefPayload → Proc RefPayload → Prop} :
    Relation.ReflTransGen (Interleave.Step (World Room.a (fun _ => True) fires) proc)
      (Hub.empty, fun _ => .idle) (oneUpdate, fun _ => .idle) :=
  Relation.ReflTransGen.single (Interleave.Step.env _ _ _ (World.addMessage _ _ 1000
    (insertion 7 "user1") trivial fun _ he => absurd he List.not_mem_nil))

end YHub
