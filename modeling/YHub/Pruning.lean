import YHub.RowClocks
import YHub.RunTask

/-!
# Pruning (`index.js:255-283`, `index.js:298-321`)

`pruneDoc` adds a `prune:v1` directive to the stream. As long as the directive is on the stream,
`getDoc` leaves the ids of its set out of the content map and out of the content ids. A compaction
stores the document without them, and its trim takes the directive off the stream. From then on
nothing remembers that the ids were pruned: the content ids in the rows are what later updates are
filtered by, and the pruned ids are not among them.

The system is that of `System.lean`, with any number of workers and readers, whatever objects are
removed, and readers that read at any time. One content id is followed (`id`), in what can show it:
* assets, content maps and content ids (`Asset.Shows`), in rows, objects and processes;
* updates that carry it (`Update.Carries`), on the stream and in what has been read of it.

`PruneStep` are the steps that meet a condition. An update that carries the id is added only while
a prune of it is on the stream; and a trim takes the last such prune off the stream only when
nothing else holds the id any more (`Forgotten`) and no update with it is newer than the rows
(`Drained`).

Results:
* `pruned_forever`: in the runs of these steps no `getDoc` call that starts after the prune was
  added returns the id.
* `prune_run_of_compaction`: an undisturbed compaction is such a run, its trim included.
* `pruned_returns`: in other runs a call returns the id. The room is compacted, the directive is
  trimmed, and a client sends an update with the id again.
-/

namespace YHub

variable {β : Type}

/-! ## The prune set -/

/-- What pruning relies on: `diffIdMap` and `diffIdSet` remove, `mergeIdSets` unites. -/
structure Yjs.PruneLawful (Y : Yjs β) : Prop where
  mergeIdSets : ∀ ss i, Y.mem (Y.mergeIdSets ss) i ↔ ∃ s ∈ ss, Y.mem s i
  diffIdMap : ∀ m s i, Y.has (Y.diffIdMap m s) i ↔ Y.has m i ∧ ¬ Y.mem s i
  diffIdSet : ∀ a s i, Y.mem (Y.diffIdSet a s) i ↔ Y.mem a i ∧ ¬ Y.mem s i

theorem yjsRef_pruneLawful : yjsRef.PruneLawful where
  mergeIdSets _ _ := List.mem_flatten
  diffIdMap := fun (m : List (Nat × List ContentAttribute)) (s : List Nat) (i : Nat) => by
    show (∃ p ∈ m.filter (·.1 ∉ s), p.1 = i) ↔ (∃ p ∈ m, p.1 = i) ∧ i ∉ s
    constructor
    · rintro ⟨p, hp, rfl⟩
      obtain ⟨hp, hn⟩ := List.mem_filter.mp hp
      exact ⟨⟨p, hp, rfl⟩, of_decide_eq_true hn⟩
    · rintro ⟨⟨p, hp, rfl⟩, hn⟩
      exact ⟨p, List.mem_filter.mpr ⟨hp, decide_eq_true hn⟩, rfl⟩
  diffIdSet := fun (a s : List Nat) (i : Nat) => by
    show i ∈ a.filter (· ∉ s) ↔ i ∈ a ∧ i ∉ s
    rw [List.mem_filter, decide_eq_true_eq]

section Shows

variable {Y : Yjs β} {id : Y.ContentId}

/-- The messages prune the id. -/
def PrunedBy (Y : Yjs β) (id : Y.ContentId) (messages : List (StreamId × Message β)) : Prop :=
  ∃ p ∈ prunesIn messages, Y.mem (Y.decodeIdSet p) id.2

/-- The asset shows the id. -/
def Asset.Shows (Y : Yjs β) (id : Y.ContentId) : Asset β → Prop
  | .contentmap b => Y.HasKey (Y.decodeContentMap b) id
  | .contentids b => Y.HasId (Y.decodeContentIds b) id
  | _ => False

/-- The content map or the content ids of the document show the id. -/
def DocTable.Shows (Y : Yjs β) (id : Y.ContentId) (d : DocTable β) : Prop :=
  (∃ b, d.contentmap = some b ∧ Y.HasKey (Y.decodeContentMap b) id) ∨
    ∃ b, d.contentids = some b ∧ Y.HasId (Y.decodeContentIds b) id

theorem DocTable.shows_of_asset? {d : DocTable β} {col : AssetColumn} {a : Asset β}
    (ha : d.asset? col = some a) (h : a.Shows Y id) : d.Shows Y id := by
  cases col with
  | gcdoc =>
    obtain ⟨b, -, rfl⟩ := Option.map_eq_some_iff.mp ha
    exact h.elim
  | nongcdoc =>
    obtain ⟨b, -, rfl⟩ := Option.map_eq_some_iff.mp ha
    exact h.elim
  | contentmap =>
    obtain ⟨b, hb, rfl⟩ := Option.map_eq_some_iff.mp ha
    exact Or.inl ⟨b, hb, h⟩
  | contentids =>
    obtain ⟨b, hb, rfl⟩ := Option.map_eq_some_iff.mp ha
    exact Or.inr ⟨b, hb, h⟩

theorem PrunedBy.mono {ms ms' : List (StreamId × Message β)} (hms : ms ⊆ ms')
    (h : PrunedBy Y id ms) : PrunedBy Y id ms' := by
  obtain ⟨p, hp, hmem⟩ := h
  obtain ⟨x, hx, e⟩ := List.mem_filterMap.mp hp
  exact ⟨p, List.mem_filterMap.mpr ⟨x, hms hx, e⟩, hmem⟩

theorem prunedBy_of_mem {ms : List (StreamId × Message β)} {i : StreamId} {p : β}
    (h : (i, .prune p) ∈ ms) (hp : Y.mem (Y.decodeIdSet p) id.2) : PrunedBy Y id ms :=
  ⟨p, List.mem_filterMap.mpr ⟨_, h, rfl⟩, hp⟩

/-! ### What `getDoc` shows -/

theorem hasKey_without (hP : Y.PruneLawful) {m : Content Y.IdMap} {prune : Option Y.IdSet} :
    Y.HasKey (m.without Y.diffIdMap prune) id ↔
      Y.HasKey m id ∧ ∀ s, prune = some s → ¬ Y.mem s id.2 := by
  cases prune with
  | none => simp [Content.without]
  | some s =>
    obtain ⟨_ | _, i⟩ := id <;> simp [Content.without, Yjs.HasKey, Content.at, hP.diffIdMap]

theorem hasId_without (hP : Y.PruneLawful) {c : Content Y.IdSet} {prune : Option Y.IdSet} :
    Y.HasId (c.without Y.diffIdSet prune) id ↔
      Y.HasId c id ∧ ∀ s, prune = some s → ¬ Y.mem s id.2 := by
  cases prune with
  | none => simp [Content.without]
  | some s =>
    obtain ⟨_ | _, i⟩ := id <;> simp [Content.without, Yjs.HasId, Content.at, hP.diffIdSet]

/-- A prune among the messages covers the id. -/
theorem mem_pruneSet (hP : Y.PruneLawful) {ms : List (StreamId × Message β)}
    (h : PrunedBy Y id ms) : ∃ s, pruneSet Y ms = some s ∧ Y.mem s id.2 := by
  obtain ⟨p, hp, hmem⟩ := h
  have hne : prunesIn ms ≠ [] := List.ne_nil_of_mem hp
  refine ⟨Y.mergeIdSets ((prunesIn ms).map Y.decodeIdSet), if_neg hne, ?_⟩
  exact (hP.mergeIdSets _ _).mpr ⟨_, List.mem_map_of_mem hp, hmem⟩

theorem shows_of_mem_contentmapsOf {retrieved : List (AssetId Clock × Asset β)} {b : β}
    (hb : b ∈ contentmapsOf retrieved) (h : Y.HasKey (Y.decodeContentMap b) id) :
    ∃ x ∈ retrieved, x.2.Shows Y id := by
  obtain ⟨⟨aid, a⟩, hmem, e⟩ := List.mem_filterMap.mp hb
  cases a with
  | contentmap m =>
    obtain rfl := Option.some.inj e
    exact ⟨_, hmem, h⟩
  | _ => exact absurd e (by simp)

theorem shows_of_mem_contentidsOf {retrieved : List (AssetId Clock × Asset β)} {b : β}
    (hb : b ∈ contentidsOf retrieved) (h : Y.HasId (Y.decodeContentIds b) id) :
    ∃ x ∈ retrieved, x.2.Shows Y id := by
  obtain ⟨⟨aid, a⟩, hmem, e⟩ := List.mem_filterMap.mp hb
  cases a with
  | contentids c =>
    obtain rfl := Option.some.inj e
    exact ⟨_, hmem, h⟩
  | _ => exact absurd e (by simp)

variable [Preorder β] {i : Include} {gcOnMerge : Bool} {ra : RetrievedAssets β}
  {retrieved : List (AssetId Clock × Asset β)} {cached : Messages (Message β)} {b : β}

/-- The id is in an asset that was retrieved, or in an update that is newer than the rows. -/
def ShownBy (Y : Yjs β) (id : Y.ContentId) (ra : RetrievedAssets β)
    (retrieved : List (AssetId Clock × Asset β)) (cached : Messages (Message β)) : Prop :=
  (∃ x ∈ retrieved, x.2.Shows Y id) ∨
    ∃ u ∈ updatesIn cached.messages, u.Carries Y id ∧ ra.lastClock.isSmaller (.id u.id) = true

omit [Preorder β] in
theorem shownBy_of_keyed (h : FirstWins.Keyed (Update.Carries Y)
    ((updatesIn cached.messages).filter fun u => ra.lastClock.isSmaller (.id u.id)) id) :
    ShownBy Y id ra retrieved cached := by
  obtain ⟨u, hu, hc⟩ := h
  obtain ⟨hu, hlt⟩ := List.mem_filter.mp hu
  exact Or.inr ⟨u, hu, hc, hlt⟩

theorem contentmap_shows (hY : Y.Lawful) (hP : Y.PruneLawful)
    (hb : (getDoc Y i gcOnMerge (retrieveDoc { i with contentids := true } ra retrieved)
      cached).contentmap = some b) (h : Y.HasKey (Y.decodeContentMap b) id) :
    (∀ s, pruneSet Y cached.messages = some s → ¬ Y.mem s id.2) ∧
      ShownBy Y id ra retrieved cached := by
  obtain ⟨merged, hmerged, rfl⟩ := Option.map_eq_some_iff.mp hb
  obtain ⟨ms', hms', rfl⟩ := Option.map_eq_some_iff.mp hmerged
  obtain ⟨hk, hn⟩ := (hasKey_without hP).mp ((hY.decode_contentMap_key _ _).mp h)
  refine ⟨hn, ?_⟩
  -- the list before the messages
  obtain ⟨ms, hms⟩ : ∃ ms, (Merging.start Y
      (retrieveDoc { i with contentids := true } ra retrieved)).contentmap = some ms := by
    obtain ⟨r, hr⟩ := @foldl_add_contentmap _ Y
      (.start Y (retrieveDoc { i with contentids := true } ra retrieved))
      ((updatesIn cached.messages).filter fun u => ra.lastClock.isSmaller (.id u.id))
    obtain ⟨ms, hms, -⟩ := Option.map_eq_some_iff.mp (hr.symm.trans hms')
    exact ⟨ms, hms⟩
  obtain ⟨ms'', hms'', hkeys, -⟩ := contentmap_foldl_add hY hms
    ((updatesIn cached.messages).filter fun u => ra.lastClock.isSmaller (.id u.id))
  obtain rfl : ms' = ms'' := Option.some.inj (hms'.symm.trans hms'')
  rcases (hkeys id).mp ((hY.mergeContentMaps_key _ _).mp hk) with ⟨m, hm, hmk⟩ | ⟨-, hu⟩
  · obtain ⟨bs, hbs, rfl⟩ := Option.map_eq_some_iff.mp hms
    unfold retrieveDoc at hbs
    simp only at hbs
    split at hbs
    · obtain rfl := Option.some.inj hbs
      obtain ⟨b, hb, rfl⟩ := List.mem_map.mp hm
      exact Or.inl (shows_of_mem_contentmapsOf hb hmk)
    · exact absurd hbs (by simp)
  · exact shownBy_of_keyed hu

theorem contentids_shows (hY : Y.Lawful) (hP : Y.PruneLawful)
    (hb : (getDoc Y i gcOnMerge (retrieveDoc { i with contentids := true } ra retrieved)
      cached).contentids = some b) (h : Y.HasId (Y.decodeContentIds b) id) :
    (∀ s, pruneSet Y cached.messages = some s → ¬ Y.mem s id.2) ∧
      ShownBy Y id ra retrieved cached := by
  have hok : (Merging.start Y
      (retrieveDoc { i with contentids := true } ra retrieved)).IdsOk :=
    fun x => (hY.mergeContentIds _ x).symm
  unfold getDoc at hb
  simp only at hb
  split at hb
  · obtain rfl := Option.some.inj hb
    obtain ⟨hk, hn⟩ := (hasId_without hP).mp ((hY.decode_contentIds _ _).mp h)
    refine ⟨hn, ?_⟩
    rcases (hasId_foldl_add hY hok).mp ((hY.mergeContentIds _ _).mp hk) with hid | hu
    · obtain ⟨c, hc, hcid⟩ := (hok id).mpr hid
      obtain ⟨b, hb, rfl⟩ := List.mem_map.mp hc
      exact Or.inl (shows_of_mem_contentidsOf hb hcid)
    · exact shownBy_of_keyed hu
  · exact absurd hb (by simp)

/-- **Where an id comes from**: no prune among the messages covers it, and it is in an asset that
was retrieved or in an update that is newer than the rows. -/
theorem getDoc_shows (hY : Y.Lawful) (hP : Y.PruneLawful)
    (h : (getDoc Y i gcOnMerge (retrieveDoc { i with contentids := true } ra retrieved)
      cached).Shows Y id) :
    ¬ PrunedBy Y id cached.messages ∧ ShownBy Y id ra retrieved cached := by
  obtain ⟨hn, hshown⟩ : (∀ s, pruneSet Y cached.messages = some s → ¬ Y.mem s id.2) ∧
      ShownBy Y id ra retrieved cached := by
    rcases h with ⟨b, hb, hkey⟩ | ⟨b, hb, hid⟩
    · exact contentmap_shows hY hP hb hkey
    · exact contentids_shows hY hP hb hid
  refine ⟨fun hpruned => ?_, hshown⟩
  obtain ⟨s, hs, hmem⟩ := mem_pruneSet hP hpruned
  exact hn s hs hmem

end Shows

/-! ## What holds an id -/

/-- The messages that a read of the stream returns. -/
abbrev Hub.messages (room : Room) (s : Hub β) : List (StreamId × Message β) :=
  (getMessages (s.redis.live room)).messages

section Holds

variable (C : Conf β) (room : Room) (id : C.Y.ContentId)

/-- A prune of the id is on the stream. -/
def Hub.Pruned (s : Hub β) : Prop := PrunedBy C.Y id (s.messages room)

/-- What is retrieved for the asset does not show the id. -/
def Hub.Lacks (s : Hub β) (aid : AssetId Clock) (a : Asset β) : Prop :=
  ∀ r, tryPersistencePluginRetrieve C.plugins aid a s.objects = some r → ¬ r.Shows C.Y id

/-- The updates with the id among the messages have clocks for which `P` holds. -/
def CarriedOnly (P : StreamId → Prop) (messages : List (StreamId × Message β)) : Prop :=
  ∀ u ∈ updatesIn messages, u.Carries C.Y id → P u.id

/-- The clock is not newer than what the call has selected, or will select. -/
def Retrieval.Behind (s : Hub β) (g : Retrieval β) (t : StreamId) : Prop :=
  match g.selected with
  | none => s.Persisted t
  | some ra => ra.lastClock.isSmaller (.id t) = false

/-- What a call has read does not make it show the id. -/
structure Retrieval.Lacks (s : Hub β) (g : Retrieval β) : Prop where
  todo : ∀ x ∈ g.todo, s.Lacks C id x.1 x.2
  retrieved : ∀ x ∈ g.retrieved, ¬ x.2.Shows C.Y id
  cached : ∀ m, g.cached = some m → CarriedOnly C id (g.Behind s) m.messages

/-- A call has read a prune of the id, or nothing that shows it. -/
def Retrieval.Forgets (s : Hub β) (g : Retrieval β) : Prop :=
  (∃ m, g.cached = some m ∧ PrunedBy C.Y id m.messages) ∨ g.Lacks C id s

/-- A run of `_runTask` holds nothing that shows the id. -/
def Proc.Forgets (s : Hub β) : Proc β → Prop
  | .precheck _ cached _ => ∀ m, cached = some m →
      PrunedBy C.Y id m.messages ∨ CarriedOnly C id s.Persisted m.messages
  | .fetching _ g => g.Forgets C id s
  | .storing _ d c assets => (∀ col, ¬ (c.asset col).Shows C.Y id) ∧
      ∀ (col : AssetColumn) a, assets col = some a → s.Lacks C id (col.assetId room d.lastClock) a
  | _ => True

/-- No row shows the id. -/
def Hub.RowsForget (s : Hub β) : Prop :=
  ∀ row ∈ s.rows, ∀ (col : AssetColumn) a, row.asset col = some a →
    s.Lacks C id (col.assetId room row.t) a

/-- **The stream aside, nothing holds the id**: no row, no run of `_runTask`, and not the call
`r`. -/
structure Forgotten (r : Nat) (x : Interleave.State (Hub β) Nat (Proc β)) : Prop where
  rows : x.1.RowsForget C room id
  workers : ∀ j, (x.2 j).Forgets C room id x.1
  reader : ∀ i gcOnMerge g, x.2 r = .reading i gcOnMerge g → g.Forgets C id x.1

/-- **The updates with the id that are on the stream are not newer than the rows**, nor than what
the call `r` has selected. -/
structure Drained (r : Nat) (x : Interleave.State (Hub β) Nat (Proc β)) : Prop where
  persisted : CarriedOnly C id x.1.Persisted (x.1.messages room)
  reader : ∀ i gcOnMerge g, x.2 r = .reading i gcOnMerge g → g.cached = none →
    CarriedOnly C id (g.Behind x.1) (x.1.messages room)

/-- **The condition on a step**, for a content id and a call `r`. -/
structure KeepsPruned (r : Nat) (x x' : Interleave.State (Hub β) Nat (Proc β)) : Prop where
  /-- An update with the id is added only while a prune of it is on the stream. -/
  added : ∀ u ∈ updatesIn (x'.1.messages room), u ∉ updatesIn (x.1.messages room) →
    u.Carries C.Y id → x.1.Pruned C room id
  /-- The last prune of the id is taken off the stream only when nothing else holds the id. -/
  trimmed : x.1.Pruned C room id → ¬ x'.1.Pruned C room id →
    Forgotten C room id r x ∧ Drained C room id r x

/-- A step of the system. -/
abbrev HubStep (fires : Interleave.State (Hub β) Nat (Proc β) → ObjectId → Prop) :
    Interleave.State (Hub β) Nat (Proc β) → Interleave.State (Hub β) Nat (Proc β) → Prop :=
  Interleave.Step (World room (fun _ => True) fires) fun s p s' p' =>
    WorkerStep C room s p s' p' ∨ ReadStep C room (fun _ _ => True) s p s' p'

/-- A step that meets the condition. -/
def PruneStep (fires : Interleave.State (Hub β) Nat (Proc β) → ObjectId → Prop) (r : Nat)
    (x x' : Interleave.State (Hub β) Nat (Proc β)) : Prop :=
  HubStep C room fires x x' ∧ KeepsPruned C room id r x x'

end Holds

variable {C : Conf β} {room : Room} {id : C.Y.ContentId} {s s' : Hub β} {p p' : Proc β} {r : Nat}
  {x x' : Interleave.State (Hub β) Nat (Proc β)}
  {fires : Interleave.State (Hub β) Nat (Proc β) → ObjectId → Prop}

theorem CarriedOnly.mono {P Q : StreamId → Prop} {ms : List (StreamId × Message β)}
    (h : CarriedOnly C id P ms) (hPQ : ∀ t, P t → Q t) : CarriedOnly C id Q ms :=
  fun u hu hc => hPQ u.id (h u hu hc)

theorem Retrieval.Behind.mono (h : ∀ t, s.Persisted t → s'.Persisted t) {g : Retrieval β}
    {t : StreamId} (hb : g.Behind s t) : g.Behind s' t := by
  unfold Retrieval.Behind at hb ⊢
  cases hsel : g.selected with
  | none =>
    rw [hsel] at hb
    exact h t hb
  | some ra =>
    rw [hsel] at hb
    exact hb

/-! ### What the steps of others leave -/

/-- What is persisted stays so, and what lacks the id goes on to. -/
structure KeepsForgetting (C : Conf β) (id : C.Y.ContentId) (s s' : Hub β) : Prop where
  persisted : ∀ t, s.Persisted t → s'.Persisted t
  lacks : ∀ aid a, s.Lacks C id aid a → s'.Lacks C id aid a

namespace KeepsForgetting

theorem of_objects (hpers : ∀ t, s.Persisted t → s'.Persisted t) (h : s'.objects = s.objects) :
    KeepsForgetting C id s s' :=
  ⟨hpers, fun _ _ hl r hr => hl r (h ▸ hr)⟩

/-- A plugin stores an asset that does not show the id. -/
theorem put {aid : AssetId Clock} {asset : Asset β} (h : ¬ asset.Shows C.Y id) :
    KeepsForgetting C id s
      { s with objects := (tryPersistencePluginStore C.plugins aid asset s.objects).1 } := by
  refine ⟨fun _ ht => ht, fun aid' a hl r hr => ?_⟩
  rcases retrieve_after_store C.plugins aid aid' asset a s.objects with e | ⟨-, e⟩
  · exact hl r (e.symm.trans hr)
  · obtain rfl := Option.some.inj (e.symm.trans hr)
    exact h

/-- An object is removed. -/
theorem removeObject (o : ObjectId) (timers : List ObjectId) : KeepsForgetting C id s
    { s with objects := Function.update s.objects o none, timers := timers } := by
  refine ⟨fun _ ht => ht, fun aid a hl r hr => ?_⟩
  by_cases ho : PointsTo o aid a
  · -- there is nothing to retrieve any more
    obtain ⟨rfl, rfl⟩ := ho
    have hnone := object_of_retrieve hr
    simp at hnone
  · exact hl r ((retrieve_update ho none).symm.trans hr)

theorem retrieval (h : KeepsForgetting C id s s') {g : Retrieval β} (hg : g.Forgets C id s) :
    g.Forgets C id s' := by
  refine hg.imp_right fun hl => ⟨fun x hx => h.lacks _ _ (hl.todo x hx), hl.retrieved,
    fun m hm => (hl.cached m hm).mono fun _ => Retrieval.Behind.mono h.persisted⟩

theorem proc (h : KeepsForgetting C id s s') (hp : p.Forgets C room id s) :
    p.Forgets C room id s' := by
  cases p with
  | precheck task cached persisted =>
    exact fun m hm => (hp m hm).imp_right fun hc => hc.mono h.persisted
  | fetching task g => exact h.retrieval hp
  | storing task d c assets => exact ⟨hp.1, fun col a ha => h.lacks _ _ (hp.2 col a ha)⟩
  | _ => trivial

end KeepsForgetting

/-! ## Steps -/

/-- What a call whose reads are made shows, if it holds nothing of the id. -/
theorem Retrieval.Forgets.yields [Preorder β] (hY : C.Y.Lawful) (hP : C.Y.PruneLawful)
    {g : Retrieval β} (hg : g.Forgets C id s) {i : Include} {gcOnMerge : Bool} {d : DocTable β}
    (hd : g.Yields C i gcOnMerge d) : ¬ d.Shows C.Y id := by
  obtain ⟨cached, ra, hcached, hselected, -, rfl⟩ := hd
  intro hshows
  obtain ⟨hn, hshown⟩ := getDoc_shows hY hP hshows
  rcases hg with ⟨m, hm, hpruned⟩ | hl
  · obtain rfl := Option.some.inj (hcached.symm.trans hm)
    exact hn hpruned
  rcases hshown with ⟨x, hx, hxs⟩ | ⟨u, hu, hc, hlt⟩
  · exact hl.retrieved x hx hxs
  · have hb := hl.cached cached hcached u hu hc
    unfold Retrieval.Behind at hb
    rw [hselected] at hb
    rw [hb] at hlt
    exact Bool.false_ne_true hlt

/-- **A read of a call.** An `XREAD` finds a prune of the id, or updates with the id only that are
not newer than what the call selects. -/
theorem Retrieval.Forgets.step (hsort : SortSpec C.sort) (hs : DatedHub room s)
    (hrows : s.RowsForget C room id) {reads : Hub β → Retrieval β → Prop} {i : Include}
    {g g' : Retrieval β} (hg : g.Forgets C id s)
    (hread : reads s g → g.cached = none →
      s.Pruned C room id ∨ CarriedOnly C id (g.Behind s) (s.messages room))
    (h : RetrievalStep C room reads i s g g') : g'.Forgets C id s := by
  cases h with
  | select rows hperm hnone =>
    refine hg.imp_right fun hl => ⟨fun x hx => ?_, hl.retrieved, fun m hm u hu hc => ?_⟩
    · obtain ⟨ref, href, hmap⟩ := List.mem_filterMap.mp hx
      obtain ⟨row, hrow, col, -, rfl⟩ := mem_assets.mp href
      obtain ⟨a, ha, rfl⟩ := Option.map_eq_some_iff.mp hmap
      exact hrows row (hperm.mem_iff.mp hrow) col a ha
    · -- what was persisted is not newer than the rows
      have hb := hl.cached m hm u hu hc
      unfold Retrieval.Behind at hb
      rw [hnone] at hb
      exact hs.not_newer hsort hperm hb
  | xread hnone hreads =>
    rcases hg with ⟨m, hm, -⟩ | hl
    · rw [hnone] at hm
      exact absurd hm (by simp)
    rcases hread hreads hnone with hpruned | hcarried
    · exact Or.inl ⟨_, rfl, hpruned⟩
    · refine Or.inr ⟨hl.todo, hl.retrieved, fun m hm => ?_⟩
      obtain rfl := Option.some.inj hm
      exact hcarried
  | retrieve before after aid a htodo =>
    have hmem : ∀ x, x ∈ before ++ after → x ∈ g.todo := by
      intro x hx
      rw [htodo]
      rcases List.mem_append.mp hx with hx | hx
      · exact List.mem_append_left _ hx
      · exact List.mem_append_right _ (List.mem_cons_of_mem _ hx)
    refine hg.imp_right fun hl => ⟨fun x hx => hl.todo x (hmem x hx), fun x hx => ?_, hl.cached⟩
    have ha : s.Lacks C id aid a := hl.todo (aid, a) (by
      rw [htodo]
      exact List.mem_append_right _ List.mem_cons_self)
    simp only at hx
    split at hx
    · rename_i r hr
      rcases List.mem_append.mp hx with hx | hx
      · exact hl.retrieved x hx
      · rw [List.mem_singleton.mp hx]
        exact ha r hr
    · exact hl.retrieved x hx

/-- **A step of a run of `_runTask`.** -/
theorem forgets_worker_step [Preorder β] (hY : C.Y.Lawful) (hP : C.Y.PruneLawful)
    (hsort : SortSpec C.sort) (hs : DatedHub room s) (hdated : DatedProc room s p)
    (hstream : s.Pruned C room id ∨ CarriedOnly C id s.Persisted (s.messages room))
    (hrows : s.RowsForget C room id) (hp : p.Forgets C room id s)
    (h : WorkerStep C room s p s' p') :
    s'.RowsForget C room id ∧ KeepsForgetting C id s s' ∧ p'.Forgets C room id s' := by
  have hpers : ∀ t, s.Persisted t → s'.Persisted t := (dated_worker_step hsort hs hdated h).2.1
  cases h with
  | start task => exact ⟨hrows, .of_objects hpers rfl, fun m hm => absurd hm (by simp)⟩
  | precheckStream task persisted =>
    refine ⟨hrows, .of_objects hpers rfl, fun m hm => ?_⟩
    obtain rfl := Option.some.inj hm
    exact hstream
  | precheckClock task cached rows hperm => exact ⟨hrows, .of_objects hpers rfl, hp⟩
  | nothing task cached persisted tombstone hn => exact ⟨hrows, .of_objects hpers rfl, trivial⟩
  | proceed task cached persisted tombstone hn =>
    refine ⟨hrows, .of_objects hpers rfl, ?_⟩
    rcases hp cached rfl with hpruned | hcarried
    · exact Or.inl ⟨cached, rfl, hpruned⟩
    · refine Or.inr ⟨fun x hx => absurd hx List.not_mem_nil,
        fun x hx => absurd hx List.not_mem_nil, fun m hm => ?_⟩
      obtain rfl := Option.some.inj hm
      exact hcarried
  | fetch task g g' hg =>
    exact ⟨hrows, .of_objects hpers rfl,
      Retrieval.Forgets.step hsort hs hrows hp (fun hreads => hreads.elim) hg⟩
  | outrun task g d hd hout => exact ⟨hrows, .of_objects hpers rfl, trivial⟩
  | merged task g d c hd hout hc =>
    have hshows : ¬ d.Shows C.Y id := Retrieval.Forgets.yields hY hP hp hd
    exact ⟨hrows, .of_objects hpers rfl,
      fun col hcol => hshows (DocTable.shows_of_asset? (DocTable.content?_asset hc col) hcol),
      fun col a ha => absurd ha (by simp)⟩
  | put task d c assets col hnone =>
    have hkeeps : KeepsForgetting C id s { s with objects := (tryPersistencePluginStore C.plugins
        (col.assetId room d.lastClock) (c.asset col) s.objects).1 } := .put (hp.1 col)
    refine ⟨fun row hrow col' a ha => hkeeps.lacks _ _ (hrows row hrow col' a ha), hkeeps, hp.1,
      fun col' a ha => ?_⟩
    by_cases hcol : col' = col
    · subst hcol
      rw [Function.update_self] at ha
      obtain rfl := Option.some.inj ha
      intro r hr
      obtain rfl := Option.some.inj ((retrieve_store (c.asset_isReference col')).symm.trans hr)
      exact hp.1 col'
    · rw [Function.update_of_ne hcol] at ha
      exact hkeeps.lacks _ _ (hp.2 col' a ha)
  | insert task d c assets =>
    refine ⟨fun row hrow col a ha => ?_, .of_objects hpers rfl, trivial⟩
    rcases mem_insertRow hrow with hrow | rfl
    · exact hrows row hrow col a ha
    · obtain rfl := Option.some.inj ha
      exact hp.2 col _ rfl
  | schedule task d refs hrefs => exact ⟨hrows, .of_objects hpers rfl, trivial⟩
  | delete task d refs trimmed hrefs =>
    exact ⟨fun row hrow => hrows row (List.mem_filter.mp hrow).1, .of_objects hpers rfl, trivial⟩
  | trimAfter task d deleted now => exact ⟨hrows, .of_objects hpers rfl, trivial⟩
  | trim task minId maxAgeMs now => exact ⟨hrows, .of_objects hpers rfl, trivial⟩
  | stop => exact ⟨hrows, .of_objects hpers rfl, trivial⟩

/-- **A step of the rest of the world.** -/
theorem forgets_world_step {ps : Nat → Proc β} (hs : DatedHub room s)
    (hrows : s.RowsForget C room id) (h : World room (fun _ => True) fires (s, ps) s') :
    s'.RowsForget C room id ∧ KeepsForgetting C id s s' := by
  have hpers : ∀ t, s.Persisted t → s'.Persisted t :=
    fun _ => persisted_of_rows (dated_world_step hs h).2
  cases h with
  | removeObject _ _ before after o htimers hfires =>
    have hkeeps : KeepsForgetting C id s { s with
        objects := Function.update s.objects o none, timers := before ++ after } :=
      .removeObject o _
    exact ⟨fun row hrow col a ha => hkeeps.lacks _ _ (hrows row hrow col a ha), hkeeps⟩
  | _ => exact ⟨hrows, .of_objects hpers rfl⟩

/-! ### The stream -/

theorem messages_subset {str str' : Option (RedisStream (Message β))}
    (h : RedisStream.entriesOf str ⊆ RedisStream.entriesOf str') :
    (getMessages str).messages ⊆ (getMessages str').messages := by
  intro m hm
  obtain ⟨hm, hpos⟩ := List.mem_filter.mp (mem_messagesOf.mp hm)
  exact mem_messagesOf.mpr (List.mem_filter.mpr ⟨h hm, hpos⟩)

theorem messages_addMessage (s : Hub β) (room : Room) (now : Nat) (m : Message β) :
    s.messages room ⊆ (s.addMessage room now m).messages room := by
  refine messages_subset ?_
  show _ ⊆ RedisStream.entriesOf ((addMessage now room m s.redis).live room)
  rw [addMessage_entries]
  exact List.subset_append_left _ _

theorem messages_trim (s : Hub β) (room : Room) (now : Nat) (minId : List Char)
    (maxAgeMs : JsNumber) (task : StreamId) : Hub.messages room { s with
      redis := (trimMessages now room minId maxAgeMs (some task) s.redis).1 } ⊆
        s.messages room :=
  messages_subset (Hub.live_trim ..).subset

/-- A step adds messages or takes messages off, not both. -/
theorem messages_step (h : HubStep C room fires x x') :
    x'.1.messages room ⊆ x.1.messages room ∨ x.1.messages room ⊆ x'.1.messages room := by
  cases h with
  | env s ps s' hw =>
    cases hw with
    | addMessage _ _ now m hm hid => exact Or.inr (messages_addMessage s room now m)
    | otherKeys _ _ q hq =>
      refine Or.inl (messages_subset ?_)
      show RedisStream.entriesOf (q.live room) ⊆ _
      rw [hq]
      exact List.Subset.refl _
    | _ => exact Or.inl (List.Subset.refl _)
  | proc s ps j s' q h =>
    rcases h with h | h
    · generalize ps j = q₀ at h
      cases h with
      | trimAfter task d deleted now => exact Or.inl (messages_trim s room now _ _ task)
      | trim task minId maxAgeMs now => exact Or.inl (messages_trim s room now _ _ task)
      | _ => exact Or.inl (List.Subset.refl _)
    · obtain ⟨rfl, -⟩ := dated_read_step h
      exact Or.inl (List.Subset.refl _)

/-- **What is on the stream and carries the id was there before**, once no prune of it is left. -/
theorem KeepsPruned.carried (hk : KeepsPruned C room id r x x') (h : HubStep C room fires x x')
    (hn : ¬ x'.1.Pruned C room id) {u : Update β} (hu : u ∈ updatesIn (x'.1.messages room))
    (hc : u.Carries C.Y id) : u ∈ updatesIn (x.1.messages room) := by
  by_contra hnew
  have hpruned := hk.added u hu hnew hc
  rcases messages_step h with hsub | hsub
  · exact hnew (mem_updatesIn.mpr (hsub (mem_updatesIn.mp hu)))
  · exact hn (hpruned.mono hsub)

theorem HubStep.worker {j : Nat} {ps : Nat → Proc β} (hj : ps j = p)
    (h : WorkerStep C room s p s' p') :
    HubStep C room fires (s, ps) (s', Function.update ps j p') := by
  subst hj
  exact Interleave.Step.proc s ps j s' p' (Or.inl h)

/-! ### The call -/

/-- What a step does to a call that is reading: it goes on reading, or it returns; nothing else
starts or ends one. -/
theorem reader_step (h : HubStep C room fires x x') {i : Include} {gcOnMerge : Bool}
    {g : Retrieval β} (hg : x'.2 r = .reading i gcOnMerge g) :
    x.2 r = .reading i gcOnMerge g ∨ x'.1 = x.1 ∧ (g = .start none ∨ ∃ g₀,
      x.2 r = .reading i gcOnMerge g₀ ∧ RetrievalStep C room (fun _ _ => True) i x.1 g₀ g) := by
  cases h with
  | env s ps s' hw => exact Or.inl hg
  | proc s ps j s' q h =>
    rcases Interleave.update_cases hg with ⟨rfl, rfl⟩ | ⟨-, hg⟩
    · show ps r = _ ∨ s' = s ∧ (_ ∨ ∃ g₀, ps r = _ ∧ _)
      generalize ps r = q₀ at h
      rcases h with h | h
      · cases h
      · cases h with
        | start => exact Or.inr ⟨rfl, Or.inl rfl⟩
        | read _ _ g₀ _ hg => exact Or.inr ⟨rfl, Or.inr ⟨g₀, rfl, hg⟩⟩
    · exact Or.inl hg

theorem returned_step (h : HubStep C room fires x x') {i : Include} {d : DocTable β}
    (hd : x'.2 r = .returned i d) : x.2 r = .returned i d ∨
      ∃ gcOnMerge g, x.2 r = .reading i gcOnMerge g ∧ g.Yields C i gcOnMerge d := by
  cases h with
  | env s ps s' hw => exact Or.inl hd
  | proc s ps j s' q h =>
    rcases Interleave.update_cases hd with ⟨rfl, rfl⟩ | ⟨-, hd⟩
    · show ps r = _ ∨ ∃ gcOnMerge g, ps r = _ ∧ _
      generalize ps r = q₀ at h
      rcases h with h | h
      · cases h
      · cases h with
        | finish _ gcOnMerge g _ hy => exact Or.inr ⟨gcOnMerge, g, rfl, hy⟩
    · exact Or.inl hd

/-! ## Runs -/

/-- A prune of the id is on the stream, and the call `r` reads the stream while one is. -/
structure Directed (C : Conf β) (room : Room) (id : C.Y.ContentId) (r : Nat)
    (x : Interleave.State (Hub β) Nat (Proc β)) : Prop where
  pruned : x.1.Pruned C room id
  reader : ∀ i gcOnMerge g, x.2 r = .reading i gcOnMerge g →
    g.cached = none ∨ ∃ m, g.cached = some m ∧ PrunedBy C.Y id m.messages

/-- **What holds throughout**: the id is kept out by the directive on the stream, until nothing
holds it; from then on only an update on the stream may carry it, which is then pruned or not newer
than the rows. -/
structure StaysPruned (C : Conf β) (room : Room) (id : C.Y.ContentId) (r : Nat)
    (x : Interleave.State (Hub β) Nat (Proc β)) : Prop where
  returned : ∀ i d, x.2 r = .returned i d → ¬ d.Shows C.Y id
  prune : Directed C room id r x ∨
    Forgotten C room id r x ∧ (x.1.Pruned C room id ∨ Drained C room id r x)

theorem Directed.step (h : Directed C room id r x) (hstep : HubStep C room fires x x')
    (hpruned : x'.1.Pruned C room id) : Directed C room id r x' := by
  refine ⟨hpruned, fun i gcOnMerge g hg => ?_⟩
  rcases reader_step hstep hg with hg | ⟨-, rfl | ⟨g₀, hg₀, hread⟩⟩
  · exact h.reader i gcOnMerge g hg
  · exact Or.inl rfl
  · cases hread with
    | select rows hrows hnone => exact h.reader i gcOnMerge g₀ hg₀
    | xread hnone hreads => exact Or.inr ⟨_, rfl, h.pruned⟩
    | retrieve before after aid a htodo => exact h.reader i gcOnMerge g₀ hg₀

theorem Forgotten.step [Preorder β] (hY : C.Y.Lawful) (hP : C.Y.PruneLawful)
    (hsort : SortSpec C.sort) (hd : Interleave.Holds (DatedHub room) (DatedProc room) x)
    (h : Forgotten C room id r x) (hs : x.1.Pruned C room id ∨ Drained C room id r x)
    (hstep : HubStep C room fires x x') : Forgotten C room id r x' := by
  have hstream := hs.imp_right Drained.persisted
  obtain ⟨hrows, hkeeps, hworkers⟩ : x'.1.RowsForget C room id ∧ KeepsForgetting C id x.1 x'.1 ∧
      ∀ j, (x'.2 j).Forgets C room id x'.1 := by
    cases hstep with
    | env s ps s' hw =>
      obtain ⟨hrows, hkeeps⟩ := forgets_world_step hd.1 h.rows hw
      exact ⟨hrows, hkeeps, fun j => hkeeps.proc (h.workers j)⟩
    | proc s ps j s' q hq =>
      obtain ⟨hrows, hkeeps, hq'⟩ : s'.RowsForget C room id ∧ KeepsForgetting C id s s' ∧
          q.Forgets C room id s' := by
        rcases hq with hq | hq
        · exact forgets_worker_step hY hP hsort hd.1 (hd.2 j) hstream h.rows (h.workers j) hq
        · obtain ⟨rfl, -⟩ := dated_read_step hq
          refine ⟨h.rows, .of_objects (fun _ ht => ht) rfl, ?_⟩
          generalize ps j = q₀ at hq
          cases hq <;> trivial
      exact ⟨hrows, hkeeps, Interleave.forall_update (fun k => hkeeps.proc (h.workers k)) hq'⟩
  refine ⟨hrows, hworkers, fun i gcOnMerge g hg => ?_⟩
  rcases reader_step hstep hg with hg | ⟨hhub, rfl | ⟨g₀, hg₀, hread⟩⟩
  · exact hkeeps.retrieval (h.reader i gcOnMerge g hg)
  · exact Or.inr ⟨fun x hx => absurd hx List.not_mem_nil,
      fun x hx => absurd hx List.not_mem_nil, fun m hm => absurd hm (by simp [Retrieval.start])⟩
  · rw [hhub]
    exact (h.reader i gcOnMerge g₀ hg₀).step hsort hd.1 h.rows
      (fun _ hnone => hs.imp_right fun hdr => hdr.reader i gcOnMerge g₀ hg₀ hnone) hread

theorem Drained.step (hsort : SortSpec C.sort)
    (hd : Interleave.Holds (DatedHub room) (DatedProc room) x) (h : Drained C room id r x)
    (hstep : HubStep C room fires x x') (hk : KeepsPruned C room id r x x')
    (hn : ¬ x'.1.Pruned C room id) : Drained C room id r x' := by
  have hpers : ∀ t, x.1.Persisted t → x'.1.Persisted t :=
    fun _ => persisted_of_step hsort hd hstep
  refine ⟨fun u hu hc => hpers _ (h.persisted u (hk.carried hstep hn hu hc) hc),
    fun i gcOnMerge g hg hnone u hu hc => ?_⟩
  have hu : u ∈ updatesIn (x.1.messages room) := hk.carried hstep hn hu hc
  rcases reader_step hstep hg with hg | ⟨-, rfl | ⟨g₀, hg₀, hread⟩⟩
  · exact Retrieval.Behind.mono hpers (h.reader i gcOnMerge g hg hnone u hu hc)
  · exact hpers _ (h.persisted u hu hc)
  · cases hread with
    | select rows hrows hsel => exact hd.1.not_newer hsort hrows (h.persisted u hu hc)
    | xread hnone' hreads => exact absurd hnone (by simp)
    | retrieve before after aid a htodo =>
      exact Retrieval.Behind.mono hpers (h.reader i gcOnMerge g₀ hg₀ hnone u hu hc)

/-- **The step lemma.** -/
theorem StaysPruned.step [Preorder β] (hY : C.Y.Lawful) (hP : C.Y.PruneLawful)
    (hsort : SortSpec C.sort) (hd : Interleave.Holds (DatedHub room) (DatedProc room) x)
    (h : StaysPruned C room id r x) (hstep : PruneStep C room id fires r x x') :
    StaysPruned C room id r x' := by
  obtain ⟨hstep, hk⟩ := hstep
  refine ⟨fun i d hret => ?_, ?_⟩
  · rcases returned_step hstep hret with hret | ⟨gcOnMerge, g, hg, hy⟩
    · exact h.returned i d hret
    have hforgets : g.Forgets C id x.1 := by
      rcases h.prune with hdir | ⟨hf, -⟩
      · refine (hdir.reader i gcOnMerge g hg).elim (fun hnone => ?_) Or.inl
        -- the call returns after its `XREAD`
        obtain ⟨m, -, hm, -⟩ := hy
        rw [hnone] at hm
        exact absurd hm (by simp)
      · exact hf.reader i gcOnMerge g hg
    exact hforgets.yields hY hP hy
  by_cases hpruned : x'.1.Pruned C room id
  · rcases h.prune with hdir | ⟨hf, hs⟩
    · exact Or.inl (hdir.step hstep hpruned)
    · exact Or.inr ⟨hf.step hY hP hsort hd hs hstep, Or.inl hpruned⟩
  · -- no prune is left on the stream: there was none, or the step is a trim that may take it off
    obtain ⟨hf, hdr⟩ : Forgotten C room id r x ∧ Drained C room id r x := by
      by_cases hbefore : x.1.Pruned C room id
      · exact hk.trimmed hbefore hpruned
      · rcases h.prune with hdir | ⟨hf, hs⟩
        · exact absurd hdir.pruned hbefore
        · exact ⟨hf, hs.resolve_left hbefore⟩
    exact Or.inr ⟨hf.step hY hP hsort hd (Or.inr hdr) hstep,
      Or.inr (hdr.step hsort hd hstep hk hpruned)⟩

/-- A prune that is added is on the stream. -/
theorem pruned_addMessage {now : Nat} {p : β} (hp : C.Y.mem (C.Y.decodeIdSet p) id.2) :
    (s.addMessage room now (.prune p)).Pruned C room id := by
  have hmem : (⟨RedisStream.nextId now (s.redis.live room), .m (.prune p)⟩ : Entry (Message β)) ∈
      RedisStream.entriesOf ((addMessage now room (.prune p) s.redis).live room) := by
    rw [addMessage_entries]
    exact List.mem_append_right _ (List.mem_singleton.mpr rfl)
  refine prunedBy_of_mem (mem_messagesOf.mpr (List.mem_filter.mpr ⟨hmem, ?_⟩)) hp
  exact decide_eq_true (RedisStream.zero_lt_nextId now _)

/-- **Pruning is permanent**: in the runs after a prune was added whose steps meet the condition,
no `getDoc` call that starts after it returns an id of its set. -/
theorem pruned_forever [Preorder β] (hY : C.Y.Lawful) (hP : C.Y.PruneLawful)
    (hsort : SortSpec C.sort) {ps : Nat → Proc β}
    (hx : HubReach C room (fun _ => True) fires (fun _ _ => True) (s, ps)) {now : Nat}
    (hid : ∀ e ∈ s.log, e.id < RedisStream.nextId now (s.redis.live room)) {prune : β}
    (hprune : C.Y.mem (C.Y.decodeIdSet prune) id.2) (hr : ps r = .idle)
    (hrun : Relation.ReflTransGen (PruneStep C room id fires r)
      (s.addMessage room now (.prune prune), ps) x) {i : Include} {d : DocTable β}
    (hret : x.2 r = .returned i d) : ¬ d.Shows C.Y id := by
  have hx₀ : HubReach C room (fun _ => True) fires (fun _ _ => True)
      (s.addMessage room now (.prune prune), ps) :=
    hx.tail (Interleave.Step.env s ps _ (World.addMessage s ps now _ trivial hid))
  have h₀ : StaysPruned C room id r (s.addMessage room now (.prune prune), ps) := by
    refine ⟨fun i d h => ?_, Or.inl ⟨pruned_addMessage hprune, fun i gcOnMerge g h => ?_⟩⟩
    · exact nomatch hr.symm.trans h
    · exact nomatch hr.symm.trans h
  obtain ⟨-, h⟩ : HubReach C room (fun _ => True) fires (fun _ _ => True) x ∧
      StaysPruned C room id r x := by
    clear hret
    induction hrun with
    | refl => exact ⟨hx₀, h₀⟩
    | tail _ hstep ih =>
      obtain ⟨hreach, h⟩ := ih
      exact ⟨hreach.tail hstep.1, h.step hY hP hsort (dated_of_reach hsort hreach) hstep⟩
  exact h.returned i d hret

/-! ## A compaction -/

/-- **A compaction stores the document without the id**, while a prune of it is on the stream, and
deletes the rows that may show it. -/
theorem compacted_forgets [Preorder β] (hY : C.Y.Lawful) (hP : C.Y.PruneLawful)
    (hsort : SortSpec C.sort) (hs : DatedHub room s) (hpruned : s.Pruned C room id)
    (hlt : (s.lastPersistedClock C).isSmaller (s.lastClock C room) = true) {c : DocContent β}
    (hc : (s.getDoc C room compactInclude true).content? = some c) :
    (s.compacted C room c).RowsForget C room id := by
  obtain ⟨-, row, hrows, -, hcols⟩ := compacted_spec hsort hs.not_hard
    (comparable_of_nodup hs.row_id hs.row_nodup) hlt c
  intro row' hrow' col a ha b hb
  rw [hrows] at hrow'
  obtain rfl := List.mem_singleton.mp hrow'
  obtain ⟨a', ha', hb'⟩ := hcols col
  obtain rfl : a = a' := Option.some.inj (ha.symm.trans ha')
  obtain rfl : b = c.asset col := Option.some.inj (hb.symm.trans hb')
  intro hshows
  have hd := DocTable.shows_of_asset? (DocTable.content?_asset hc col) hshows
  exact (getDoc_shows hY hP hd).1 hpruned

/-- No message is newer than the row that a compaction stores. -/
theorem compacted_persisted (hsort : SortSpec C.sort) (hs : DatedHub room s)
    (hlt : (s.lastPersistedClock C).isSmaller (s.lastClock C room) = true) (c : DocContent β)
    {x : StreamId × Message β} (hx : x ∈ s.messages room) :
    (s.compacted C room c).Persisted x.1 := by
  obtain ⟨-, row, hrows, ht, -⟩ := compacted_spec hsort hs.not_hard
    (comparable_of_nodup hs.row_id hs.row_nodup) hlt c
  obtain ⟨hmessages, m, hm, hle, -⟩ := hs.log_ok.getMessages hs.live_suffix
  obtain ⟨hdated, -⟩ := hs.lastClock hsort (List.Perm.refl s.rows)
  obtain ⟨p, hp⟩ := hdated.toId?
  obtain ⟨l, hl⟩ := (hdated.max (dated_getMessages (s.redis.live room))).id_of_isSmaller hlt
  -- the clock of the row is the larger one of the two that were read
  have hml : m ≤ l := by
    have hmax : some l = some (max p m) := by
      rw [← Clock.toId?_max hp hm.toId?, hl]
      rfl
    rw [Option.some.inj hmax]
    exact le_max_right p m
  refine ⟨row, ?_, l, ht.trans hl, ?_⟩
  · rw [hrows]
    exact List.mem_singleton.mpr rfl
  · have hx : x ∈ messagesOf (RedisStream.entriesOf (s.redis.live room)) := hmessages ▸ hx
    exact (hle _ (mem_messagesOf.mp hx)).trans hml

/-- A step that leaves redis alone meets the condition. -/
theorem KeepsPruned.of_redis (h : x'.1.redis = x.1.redis) : KeepsPruned C room id r x x' := by
  have hmessages : x'.1.messages room = x.1.messages room := by
    unfold Hub.messages
    rw [h]
  refine ⟨fun u hu hnew _ => absurd (hmessages ▸ hu) hnew, fun hp hn => absurd ?_ hn⟩
  unfold Hub.Pruned
  rwa [hmessages]

/-- **What a worker does before its trim meets the condition.** -/
theorem prune_run_of_worker {j : Nat} {ps : Nat → Proc β} {y z : Hub β × Proc β}
    (h : WorkerAlone C room y z) (hz : z.2.Untrimmed) (hj : ps j = y.2) :
    Relation.ReflTransGen (PruneStep C room id fires r) (y.1, ps)
      (z.1, Function.update ps j z.2) :=
  Interleave.run_alone (fun ls s s' q hq =>
    ⟨Interleave.Step.proc s ls j s' q (Or.inl hq.1), .of_redis hq.2.1⟩) (untrimmed_alone h hz) hj

/-- What a reader does meets the condition. -/
theorem prune_run_of_reader {j : Nat} {ps : Nat → Proc β} {y z : Hub β × Proc β}
    (h : Interleave.Alone (ReadStep C room fun _ _ => True) y z) (hj : ps j = y.2) :
    Relation.ReflTransGen (PruneStep C room id fires r) (y.1, ps)
      (z.1, Function.update ps j z.2) := by
  refine Interleave.run_alone (fun ls s s' q hq => ?_) h hj
  exact ⟨Interleave.Step.proc s ls j s' q (Or.inr hq), .of_redis (by
    rw [(dated_read_step hq).1])⟩

/-- **An undisturbed compaction meets the condition**, its trim included: by then the row that it
has stored is the only one, and no message is newer. -/
theorem prune_run_of_compaction [Preorder β] (hY : C.Y.Lawful) (hP : C.Y.PruneLawful)
    (hsort : SortSpec C.sort) (hs : DatedHub room s) (hpruned : s.Pruned C room id)
    (hsome : nothingToCompact (lastClockOf C.sort s.rows) s.tombstone
      (getMessages (s.redis.live room)).messages = false)
    (hlt : (s.lastPersistedClock C).isSmaller (s.lastClock C room) = true) {ps : Nat → Proc β}
    (hidle : ∀ k, ps k = .idle) {j : Nat} (hj : j ≠ r) (now : Nat) (task : StreamId) :
    Relation.ReflTransGen (PruneStep C room id fires r) (s, ps)
      (s.runTask C room now task, Function.update ps j .finished) := by
  obtain ⟨c, hc, hworker, hrun⟩ := compacted_alone hsome hlt task
  obtain ⟨qs, hbefore, hqj, hqk, hqs⟩ : ∃ qs : Nat → Proc β,
      Relation.ReflTransGen (PruneStep C room id fires r) (s, ps) (s.compacted C room c, qs) ∧
        qs j = .cleaning task (s.getDoc C room compactInclude true) true true false ∧
        (∀ k, k ≠ j → qs k = .idle) ∧ ∀ p, Function.update qs j p = Function.update ps j p :=
    ⟨_, prune_run_of_worker hworker rfl (hidle j), Function.update_self ..,
      fun k hk => (Function.update_of_ne hk _ ps).trans (hidle k), fun p => Function.update_idem ..⟩
  have hreader : ∀ i gcOnMerge g, qs r ≠ .reading i gcOnMerge g := by
    intro i gcOnMerge g
    rw [hqk r hj.symm]
    exact nofun
  have hforgotten : Forgotten C room id r (s.compacted C room c, qs) := by
    refine ⟨compacted_forgets hY hP hsort hs hpruned hlt hc, fun k => ?_,
      fun i gcOnMerge g hg => absurd hg (hreader i gcOnMerge g)⟩
    show (qs k).Forgets C room id _
    by_cases hk : k = j
    · rw [hk, hqj]
      trivial
    · rw [hqk k hk]
      trivial
  have hdrained : Drained C room id r (s.compacted C room c, qs) :=
    ⟨fun u hu _ => compacted_persisted hsort hs hlt c (mem_updatesIn.mp hu),
      fun i gcOnMerge g hg => absurd hg (hreader i gcOnMerge g)⟩
  -- the trim, and the end of the run
  have htrim : PruneStep C room id fires r (s.compacted C room c, qs) (s.runTask C room now task,
      Function.update qs j
        (.cleaning task (s.getDoc C room compactInclude true) true true true)) := by
    rw [hrun now]
    refine ⟨HubStep.worker hqj (WorkerStep.trimAfter _ task _ true now), fun u hu hnew _ => ?_,
      fun _ _ => ⟨hforgotten, hdrained⟩⟩
    exact absurd (mem_updatesIn.mpr (messages_trim _ room now _ _ task (mem_updatesIn.mp hu))) hnew
  have hstop : PruneStep C room id fires r (s.runTask C room now task,
      Function.update qs j (.cleaning task (s.getDoc C room compactInclude true) true true true))
      (s.runTask C room now task, Function.update (Function.update qs j
        (.cleaning task (s.getDoc C room compactInclude true) true true true)) j .finished) :=
    ⟨HubStep.worker (Function.update_self ..) (WorkerStep.stop ..), .of_redis rfl⟩
  rw [Function.update_idem, hqs .finished] at hstop
  exact (hbefore.tail htrim).tail hstop

/-! ## A room whose history is pruned -/

/-- What is asked for. -/
def askContent : Include := { contentmap := true, contentids := true }

/-- `7` is inserted and deleted again. -/
def churned : Hub RefPayload := Hub.empty.addMessage Room.a 1000 (.ydocUpdate (.doc [7])
  (.contentMap ⟨[(7, [⟨"insert", .string "user1"⟩])], [(7, [⟨"delete", .string "user1"⟩])]⟩))

/-- The prune of `7` is on the stream. -/
def directed : Hub RefPayload := churned.addMessage Room.a 2000 (.prune (.idSet [7]))

/-- A worker has compacted the room, and trimmed the stream. -/
def baked : Hub RefPayload := directed.runTask (.ref []) Room.a 200000 ⟨1000, 0⟩

/-- A client sends its delete set again. -/
def resent : Hub RefPayload := baked.addMessage Room.a 300000 (.ydocUpdate (.doc [])
  (.contentMap ⟨[], [(7, [⟨"delete", .string "user2"⟩])]⟩))

theorem churned_reach {fires : Interleave.State (Hub RefPayload) Nat (Proc RefPayload) →
    ObjectId → Prop} : HubReach (.ref []) Room.a (fun _ => True) fires (fun _ _ => True)
      (churned, fun _ => .idle) :=
  Relation.ReflTransGen.single (Interleave.Step.env _ _ _ (World.addMessage _ _ 1000 _ trivial
    fun _ he => absurd he List.not_mem_nil))

/-- The call after the compaction. -/
theorem pruned_forever_of_run :
    ¬ (baked.getDoc (.ref []) Room.a askContent true).Shows yjsRef (.deletes, (7 : Nat)) := by
  have hprune : yjsRef.mem (yjsRef.decodeIdSet (.idSet [7])) (Side.deletes, (7 : Nat)).2 :=
    List.mem_singleton.mpr rfl
  have hreach : HubReach (.ref []) Room.a (fun _ => True) (fun _ _ => False) (fun _ _ => True)
      (directed, fun _ => .idle) :=
    churned_reach.tail (Interleave.Step.env _ _ _ (World.addMessage _ _ 2000 _ trivial (by decide)))
  have h₁ : Relation.ReflTransGen
      (PruneStep (.ref []) Room.a (.deletes, (7 : Nat)) (fun _ _ => False) 1)
      (directed, fun _ => .idle) (baked, Function.update (fun _ => .idle) 0 .finished) :=
    prune_run_of_compaction yjsRef_lawful yjsRef_pruneLawful insertionSort_spec
      (dated_of_reach insertionSort_spec hreach).1 (pruned_addMessage hprune) (by decide)
      (by decide) (fun _ => rfl) (by decide) 200000 ⟨1000, 0⟩
  have hread : Interleave.Alone (ReadStep (.ref []) Room.a fun _ _ => True) (baked, .idle)
      (baked, .returned askContent (baked.getDoc (.ref []) Room.a askContent true)) :=
    readDoc_alone trivial
  obtain ⟨ps, h₂, hret⟩ : ∃ ps, Relation.ReflTransGen
      (PruneStep (.ref []) Room.a (.deletes, (7 : Nat)) (fun _ _ => False) 1)
      (directed, fun _ => .idle) (baked, ps) ∧
        ps 1 = .returned askContent (baked.getDoc (.ref []) Room.a askContent true) :=
    ⟨_, h₁.trans (prune_run_of_reader (j := 1) hread rfl), Function.update_self ..⟩
  exact pruned_forever (C := .ref []) yjsRef_lawful yjsRef_pruneLawful insertionSort_spec
    churned_reach (by decide) hprune rfl h₂ hret

/-- **The deletion is attributed again**: the directive has been trimmed, and the content ids in the
row do not hold `7`. -/
theorem pruned_returns : ¬ ∀ (s : Hub RefPayload) (ps : Nat → Proc RefPayload),
    HubReach (.ref []) Room.a (fun _ => True) (fun _ _ => False) (fun _ _ => True) (s, ps) →
    ∀ now : Nat, (∀ e ∈ s.log, e.id < RedisStream.nextId now (s.redis.live Room.a)) →
    ∀ (prune : RefPayload) (id : yjsRef.ContentId),
      yjsRef.mem (yjsRef.decodeIdSet prune) id.2 →
    ∀ r, ps r = .idle → ∀ x : Interleave.State (Hub RefPayload) Nat (Proc RefPayload),
    Relation.ReflTransGen (HubStep (.ref []) Room.a fun _ _ => False)
      (s.addMessage Room.a now (.prune prune), ps) x →
    ∀ i d, x.2 r = .returned i d → ¬ d.Shows yjsRef id := by
  intro hclaim
  have h₁ : Relation.ReflTransGen (HubStep (.ref []) Room.a fun _ _ => False)
      (directed, fun _ => .idle) (baked, Function.update (fun _ => .idle) 0 .finished) :=
    Interleave.reach_alone ((runTask_alone 200000 ⟨1000, 0⟩).mono
      fun _ _ _ _ hstep => Or.inl hstep) rfl
  have hadd : HubStep (.ref []) Room.a (fun _ _ => False)
      (baked, Function.update (fun _ => .idle) 0 .finished)
      (resent, Function.update (fun _ => .idle) 0 .finished) :=
    Interleave.Step.env _ _ _ (World.addMessage _ _ 300000 _ trivial (by decide +kernel))
  have hread : Interleave.Alone (fun s p s' p' => WorkerStep (.ref []) Room.a s p s' p' ∨
      ReadStep (.ref []) Room.a (fun _ _ => True) s p s' p') (resent, .idle)
      (resent, .returned askContent (resent.getDoc (.ref []) Room.a askContent true)) :=
    (readDoc_alone trivial).mono fun _ _ _ _ hstep => Or.inr hstep
  obtain ⟨ps, h₂, hret⟩ : ∃ ps, Relation.ReflTransGen (HubStep (.ref []) Room.a fun _ _ => False)
      (directed, fun _ => .idle) (resent, ps) ∧ ps 1 = .returned askContent
        (resent.getDoc (.ref []) Room.a askContent true) :=
    ⟨_, (h₁.tail hadd).trans (Interleave.reach_alone (i := 1) hread rfl),
      Function.update_self ..⟩
  have hshown : (resent.getDoc (.ref []) Room.a askContent true).contentids =
      some (.contentIds ⟨[], [7]⟩) := by decide +kernel
  exact hclaim churned (fun _ => .idle) churned_reach 2000 (by decide) (.idSet [7])
    (.deletes, (7 : Nat)) (List.mem_singleton.mpr rfl) 1 rfl _ h₂ askContent _ hret
    (Or.inr ⟨_, hshown, List.mem_singleton.mpr rfl⟩)

end YHub
