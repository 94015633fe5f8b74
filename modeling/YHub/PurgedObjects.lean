import YHub.HardDeletion
import YHub.ObjectStore

/-!
# What a hard deletion leaves in the bucket (`persistence.js:161-191`, `plugins/s3.js:71-89`)

`store` puts the objects of a version before it inserts the row that points to them, and a purge
finds the objects of a room through its rows alone. An object is kept track of (`Tracked`) while its
removal is scheduled, or a row points to it, or the call that has put it will still insert a row,
which it will not once the room is hard-deleted.

* `no_object_left`: when a hard deletion has returned and the scheduled removals have taken place,
  the bucket holds no object of the room, in every run in which no step takes away the last trace
  of an object (`Tidy`): no hard tombstone is committed while a call has put objects that no row
  points to, none is put afterwards, no such call is cut off, and no row is deleted whose objects
  are back in the bucket after their removal.
* `object_outlasts_deletion`: a run of `_runTask` has put its objects when the room is hard-deleted.
  Its `INSERT` is refused, and no repeated deletion finds the objects.
-/

namespace YHub

variable {β : Type} {C : Conf β} {room : Room}

/-! ## What leads to an object -/

namespace Actor

/-- The version that a call is storing, with the assets that the plugins have taken so far. -/
def storing? : Actor β → Option (Clock × (AssetColumn → Option (Asset β)))
  | .worker (.storing _ d _ assets) => some (d.lastClock, assets)
  | .persist (.storing t _ assets) => some (t, assets)
  | _ => none

/-- The call has put the object and has still to insert the row that points to it. -/
def HasPut (room : Room) (a : Actor β) (id : AssetId Clock) : Prop :=
  ∃ t assets col, a.storing? = some (t, assets) ∧ assets col ≠ none ∧ id = col.assetId room t

/-- The references whose objects are scheduled for removal and whose rows are still to delete. -/
def deleting? : Actor β → Option (List (Reference β))
  | .worker (.cleaning _ d true false _) => d.references
  | .deletion (.purging _ p) => if p.scheduled && !p.deleted then p.listed else none
  | _ => none

/-- The rows are deleted. -/
def deleted : Actor β → Bool
  | .worker (.cleaning _ _ _ deleted _) => deleted
  | .deletion (.purging _ p) => p.deleted
  | _ => false

theorem not_hasPut {a : Actor β} (h : a.storing? = none) (id : AssetId Clock) :
    ¬ a.HasPut room id := by
  rintro ⟨t, assets, col, hs, -⟩
  rw [h] at hs
  exact absurd hs (by simp)

end Actor

/-- The bucket holds the object. -/
def Hub.Stored (s : Hub β) (id : AssetId Clock) : Prop :=
  s.objects (s3.pluginid (β := β), id) ≠ none

/-- The removal of the object is scheduled. -/
def Hub.Scheduled (s : Hub β) (id : AssetId Clock) : Prop :=
  (s3.pluginid (β := β), id) ∈ s.timers

/-- A row points to the object. -/
def Hub.Points (room : Room) (s : Hub β) (id : AssetId Clock) : Prop :=
  ∃ row ∈ s.rows, ∃ col : AssetColumn, id = col.assetId room row.t

/-- The object is kept track of. -/
def Tracked (room : Room) (x : SiteState β) (id : AssetId Clock) : Prop :=
  x.1.hub.Scheduled id ∨ x.1.hub.Points room id ∨ ¬ x.1.hub.Hard ∧ ∃ i, (x.2 i).HasPut room id

/-- The steps that do not take away the last trace of an object. -/
structure Tidy (C : Conf β) (room : Room) (x : SiteState β) (i : Nat) (a : Actor β) : Prop where
  drops : Drops (fun _ => False) x i a
  /-- What a call has put is pointed to, or will be removed, when a hard tombstone is committed. -/
  commit : ∀ hard by_ ms t cleared, x.2 i = .deletion (.timed hard by_ ms) →
    a = .deletion (.committed hard t cleared none false) → t.hard = true →
    ∀ id, x.1.hub.Stored id → (∃ j, (x.2 j).HasPut room id) →
      x.1.hub.Scheduled id ∨ x.1.hub.Points room id
  /-- In a hard-deleted room nothing else is put. -/
  put : x.1.hub.Hard → ∀ id, a.HasPut room id → ¬ (x.2 i).HasPut room id →
    x.1.hub.Scheduled id ∨ x.1.hub.Points room id
  /-- What a call has put is kept track of when the call is cut off. -/
  stop : a = .worker .finished ∨ a = .persist .failed →
    ∀ id, x.1.hub.Stored id → (x.2 i).HasPut room id →
      x.1.hub.Scheduled id ∨ x.1.hub.Points room id ∨
        ¬ x.1.hub.Hard ∧ ∃ j, j ≠ i ∧ (x.2 j).HasPut room id
  /-- No object is in the bucket again, after the removal that the call has scheduled, when the
  call deletes its row. -/
  delete : ∀ refs, (x.2 i).deleting? = some refs → a.deleted = true →
    ∀ id, (s3.pluginid (β := β), id) ∈ scheduledRemovals C.plugins refs → x.1.hub.Stored id →
      x.1.hub.Scheduled id ∨ ¬ x.1.hub.Hard ∧ ∃ j, (x.2 j).HasPut room id

/-! ## The invariant -/

/-- The row holds pointers, and is marked so. -/
def Row.AllPointers (row : Row β) : Prop :=
  ∀ col, row.asset col = some (.retrievable (s3.pluginid (β := β))) ∧ row.isReference col = true

/-- The references of a version are complete. -/
def Full (room : Room) (refs : List (Reference β)) : Prop :=
  ∀ ref ∈ refs, ∀ col : AssetColumn,
    (col.assetId room ref.1.t, some (.retrievable (s3.pluginid (β := β)))) ∈ refs

/-- What a process knows of references and of assets that were put. -/
def Actor.Knows (room : Room) : Actor β → Prop
  | .worker (.fetching _ g) => ∀ ra, g.selected = some ra → Full room ra.assets
  | .worker (.storing _ d _ assets) => (∀ refs, d.references = some refs → Full room refs) ∧
      ∀ col a, assets col = some a → a = .retrievable (s3.pluginid (β := β))
  | .worker (.cleaning _ d _ _ _) => ∀ refs, d.references = some refs → Full room refs
  | .persist (.storing _ _ assets) =>
      ∀ col a, assets col = some a → a = .retrievable (s3.pluginid (β := β))
  | .deletion (.purging _ p) => ∀ refs, p.listed = some refs → Full room refs
  | _ => True

/-- The bucket and the rows of a room that no process works on. -/
structure Hub.Accounted (room : Room) (s : Hub β) : Prop where
  rows : ∀ row ∈ s.rows, row.AllPointers
  kept : ∀ id, id.room = room → s.Stored id → s.Scheduled id ∨ s.Points room id

/-- The invariant. -/
structure TidyOk (room : Room) (x : SiteState β) : Prop where
  rows : ∀ row ∈ x.1.hub.rows, row.AllPointers
  knows : ∀ i, (x.2 i).Knows room
  kept : ∀ id, id.room = room → x.1.hub.Stored id → Tracked room x id

theorem tidyOk_idle {x : SiteState β} (hidle : ∀ i, (x.2 i).Idle) (h : x.1.hub.Accounted room) :
    TidyOk room x where
  rows := h.rows
  knows i := by
    have hi := hidle i
    cases ha : x.2 i with
    | conn c => trivial
    | restore r => trivial
    | _ p =>
      rw [ha] at hi
      obtain rfl : p = .idle := hi
      trivial
  kept id hid hs := (h.kept id hid hs).imp_right Or.inl

/-! ### References -/

/-- A `SELECT` of all columns lists complete references. -/
theorem full_retrieveAssets {sort : ClockSort} {i : Include} {onlyReferences : Bool}
    {tombstone : Option Tombstone} {rows : List (Row β)}
    (hi : ∀ col, AssetColumn.included i col = true) (h : ∀ row ∈ rows, row.AllPointers) :
    Full room (retrieveAssets sort room i onlyReferences tombstone rows).assets := by
  intro ref href col
  obtain ⟨row, hrow, href⟩ := List.mem_flatMap.mp href
  obtain ⟨c, -, rfl⟩ := List.mem_map.mp href
  refine List.mem_flatMap.mpr ⟨row, hrow, List.mem_map.mpr
    ⟨col, List.mem_filter.mpr ⟨col.mem_all, hi col⟩, ?_⟩⟩
  obtain ⟨hasset, href⟩ := h row hrow col
  simp [hasset, href]

/-- A pointer among references is scheduled for removal. -/
theorem pointer_scheduled (plugins : List (Plugin β)) (hp : s3 ∈ plugins) {id : AssetId Clock}
    {refs : List (Reference β)} (h : (id, some (.retrievable (s3.pluginid (β := β)))) ∈ refs) :
    (s3.pluginid (β := β), id) ∈ scheduledRemovals plugins refs := by
  refine List.mem_flatMap.mpr ⟨_, h, ?_⟩
  simp only [Option.map_some, Option.getD_some, tryPersistencePluginDelete]
  exact List.mem_map.mpr ⟨s3, List.mem_filter.mpr ⟨hp, by simp⟩, rfl⟩

/-- What `s3` makes of an asset of a main-branch room. -/
theorem s3_store (hroom : room.branch = "main") (col : AssetColumn) (t : Clock) (asset : Asset β)
    (objects : Objects β) :
    tryPersistencePluginStore [s3] (col.assetId room t) asset objects =
      (Function.update objects (s3.pluginid (β := β), col.assetId room t) (some asset),
        .retrievable (s3.pluginid (β := β))) := by
  have htakes : (s3 : Plugin β).takes (col.assetId room t) asset = true := by
    simp [s3, hroom]
  have hfind : [s3].find? (fun p : Plugin β => p.takes (col.assetId room t) asset) = some s3 :=
    List.find?_cons_of_pos htakes
  unfold tryPersistencePluginStore
  rw [hfind]

/-! ### What a step does -/

section Effects

variable {S S' : Site β} {ls : Nat → Actor β} {i : Nat} {a : Actor β} {id : AssetId Clock}

/-- What is kept track of stays so, in another hub and with one process elsewhere. -/
theorem Tracked.update (h : Tracked room (S, ls) id) (hs : S.hub.Scheduled id → S'.hub.Scheduled id)
    (hp : S.hub.Points room id → S'.hub.Points room id) (hhard : S'.hub.Hard → S.hub.Hard)
    (hput : (ls i).HasPut room id → ¬ S.hub.Hard → Tracked room (S', Function.update ls i a) id) :
    Tracked room (S', Function.update ls i a) id := by
  rcases h with h | h | ⟨hn, j, hj⟩
  · exact Or.inl (hs h)
  · exact Or.inr (Or.inl (hp h))
  · by_cases hji : j = i
    · subst hji
      exact hput hj hn
    · refine Or.inr (Or.inr ⟨fun hh => hn (hhard hh), j, ?_⟩)
      simpa only [Function.update_of_ne hji] using hj

/-- The process keeps what it has put. -/
theorem Tracked.of_hasPut (h : a.HasPut room id) (hn : ¬ S.hub.Hard) :
    Tracked room (S, Function.update ls i a) id := by
  refine Or.inr (Or.inr ⟨hn, i, ?_⟩)
  simpa only [Function.update_self] using h

variable (hx : TidyOk room (S, ls))
include hx

/-- A step that leaves the rows and the objects alone. -/
theorem TidyOk.quiet (hrows : S'.hub.rows = S.hub.rows) (hobjects : S'.hub.objects = S.hub.objects)
    (htimers : ∀ o ∈ S.hub.timers, o ∈ S'.hub.timers) (hhard : S'.hub.Hard → S.hub.Hard)
    (ha : a.Knows room)
    (hput : ∀ id, S.hub.Stored id → (ls i).HasPut room id → ¬ S.hub.Hard →
      Tracked room (S', Function.update ls i a) id) :
    TidyOk room (S', Function.update ls i a) where
  rows row hrow := hx.rows row (hrows ▸ hrow)
  knows := Interleave.forall_update hx.knows ha
  kept id hid hs := by
    have hs : S.hub.Stored id := by
      intro hnone
      exact hs (by rw [hobjects, hnone])
    refine (hx.kept id hid hs).update (htimers _) (fun hp => ?_) hhard (hput id hs)
    obtain ⟨row, hrow, hp⟩ := hp
    exact ⟨row, hrows ▸ hrow, hp⟩

/-- A step of a process that is not storing, which leaves the rows and the objects alone. -/
theorem TidyOk.idle (hrows : S'.hub.rows = S.hub.rows) (hobjects : S'.hub.objects = S.hub.objects)
    (htimers : ∀ o ∈ S.hub.timers, o ∈ S'.hub.timers) (hhard : S'.hub.Hard → S.hub.Hard)
    (ha : a.Knows room) (hi : (ls i).storing? = none) :
    TidyOk room (S', Function.update ls i a) :=
  hx.quiet hrows hobjects htimers hhard ha fun id _ hput _ => (Actor.not_hasPut hi id hput).elim

/-- A call is cut off. -/
theorem TidyOk.stop (hg : Tidy C room (S, ls) i a)
    (ha : a = .worker .finished ∨ a = .persist .failed) :
    TidyOk room (S, Function.update ls i a) := by
  refine hx.quiet rfl rfl (fun _ => id) id ?_ fun id hs hput _ => ?_
  · rcases ha with rfl | rfl <;> trivial
  · rcases hg.stop ha id hs hput with h | h | ⟨hn, j, hji, hj⟩
    · exact Or.inl h
    · exact Or.inr (Or.inl h)
    · refine Or.inr (Or.inr ⟨hn, j, ?_⟩)
      simpa only [Function.update_of_ne hji] using hj

/-- An object is put. -/
theorem TidyOk.put (hroom : room.branch = "main") (hC : C.plugins = [s3])
    (hg : Tidy C room (S, ls) i a) {t : Clock} {assets : AssetColumn → Option (Asset β)}
    {col : AssetColumn} {asset : Asset β} (hi : (ls i).storing? = some (t, assets))
    (hcol : assets col = none) (ha : a.storing? = some (t, Function.update assets col
      (some (tryPersistencePluginStore C.plugins (col.assetId room t) asset S.hub.objects).2)))
    (hknows : a.Knows room) :
    TidyOk room ({ S with hub := { S.hub with objects := (tryPersistencePluginStore C.plugins
      (col.assetId room t) asset S.hub.objects).1 } }, Function.update ls i a) where
  rows := hx.rows
  knows := Interleave.forall_update hx.knows hknows
  kept id hid hs := by
    have hmine : a.HasPut room (col.assetId room t) :=
      ⟨t, _, col, ha, by simp, rfl⟩
    by_cases hnew : id = col.assetId room t
    · subst hnew
      by_cases hhard : S.hub.Hard
      · refine (hg.put hhard _ hmine ?_).imp_right Or.inl
        -- the column was still to put
        rintro ⟨t', assets', col', hi', hcol', he⟩
        obtain ⟨rfl, rfl⟩ := Prod.mk.inj (Option.some.inj (hi.symm.trans hi'))
        obtain ⟨-, rfl⟩ := AssetColumn.assetId_inj he
        exact hcol' hcol
      · exact Tracked.of_hasPut hmine hhard
    · have hs : S.hub.Stored id := by
        intro hnone
        refine hs ?_
        simp only [hC, s3_store hroom]
        rw [Function.update_of_ne fun he => hnew (Prod.mk.inj he).2, hnone]
      refine (hx.kept id hid hs).update (fun h => h) (fun h => h) (fun h => h) fun hput hn => ?_
      obtain ⟨t', assets', col', hi', hcol', rfl⟩ := hput
      obtain ⟨rfl, rfl⟩ := Prod.mk.inj (Option.some.inj (hi.symm.trans hi'))
      refine Tracked.of_hasPut ⟨t, _, col', ha, ?_, rfl⟩ hn
      have hne : col' ≠ col := fun he => hnew (by rw [he])
      rwa [Function.update_of_ne hne]

/-- A row is inserted, unless the room is hard-deleted or the row is there. -/
theorem TidyOk.insert {t : Clock} {assets : AssetColumn → Asset β}
    (hi : (ls i).storing? = some (t, fun col => some (assets col)))
    (hassets : ∀ col, assets col = .retrievable (s3.pluginid (β := β))) (hknows : a.Knows room) :
    TidyOk room ({ S with hub := { S.hub with
      rows := insertRow S.hub.tombstone (storedRow t assets) S.hub.rows } },
        Function.update ls i a) where
  rows row hrow := by
    rcases mem_insertRow hrow with hrow | rfl
    · exact hx.rows row hrow
    · intro col
      simp [storedRow, hassets, Asset.isReference]
  knows := Interleave.forall_update hx.knows hknows
  kept id hid hs := by
    refine (hx.kept id hid hs).update (fun h => h) (fun h => ?_) (fun h => h) fun hput hn => ?_
    · obtain ⟨row, hrow, hp⟩ := h
      exact ⟨row, mem_insertRow_of_mem hrow, hp⟩
    · obtain ⟨t', assets', col, hi', -, rfl⟩ := hput
      obtain ⟨rfl, -⟩ := Prod.mk.inj (Option.some.inj (hi.symm.trans hi'))
      refine Or.inr (Or.inl ?_)
      rcases insertRow_of_not_hard (storedRow t assets) S.hub.rows (Bool.eq_false_iff.mpr hn) with
        ⟨hmem, e⟩ | ⟨-, e⟩
      · obtain ⟨row, hrow, ht⟩ := List.mem_map.mp hmem
        exact ⟨row, by rw [e]; exact hrow, col, by rw [ht]; rfl⟩
      · exact ⟨storedRow t assets,
          by rw [e]; exact List.mem_append_right _ (List.mem_singleton.mpr rfl), col, rfl⟩

/-- Rows are deleted. -/
theorem TidyOk.delete (hC : C.plugins = [s3]) (hg : Tidy C room (S, ls) i a)
    {refs : List (Reference β)} (hi : (ls i).storing? = none) (hrefs : (ls i).deleting? = some refs)
    (hfull : Full room refs) (ha : a.deleted = true) (hknows : a.Knows room) :
    TidyOk room ({ S with hub := { S.hub with rows := deleteReferences room refs S.hub.rows } },
      Function.update ls i a) where
  rows row hrow := hx.rows row (List.mem_of_mem_filter hrow)
  knows := Interleave.forall_update hx.knows hknows
  kept id hid hs := by
    have others : S.hub.Scheduled id ∨ ¬ S.hub.Hard ∧ (∃ j, (ls j).HasPut room id) →
        Tracked room
          ({ S with hub := { S.hub with rows := deleteReferences room refs S.hub.rows } },
            Function.update ls i a) id := by
      rintro (h | ⟨hn, j, hj⟩)
      · exact Or.inl h
      · refine Or.inr (Or.inr ⟨hn, j, ?_⟩)
        have hji : j ≠ i := by
          rintro rfl
          exact Actor.not_hasPut hi id hj
        simpa only [Function.update_of_ne hji] using hj
    rcases hx.kept id hid hs with h | ⟨row, hrow, col, rfl⟩ | h
    · exact others (Or.inl h)
    · by_cases hnamed : ∃ ref ∈ refs, ref.1.room = room ∧ ref.1.t = row.t
      · obtain ⟨ref, href, -, ht⟩ := hnamed
        have hsched := pointer_scheduled C.plugins (by simp [hC]) (hfull ref href col)
        rw [ht] at hsched
        exact others (hg.delete refs hrefs ha _ hsched hs)
      · exact Or.inr (Or.inl ⟨row, List.mem_filter.mpr ⟨hrow, by simpa using hnamed⟩, col, rfl⟩)
    · exact others (Or.inr h)

end Effects

/-! ### The step lemmas -/

section Steps

variable {S : Site β} {ls : Nat → Actor β} {i : Nat} {s' : Hub β}

/-- The plugins return pointers alone. -/
theorem pointers_update (hroom : room.branch = "main") (hC : C.plugins = [s3])
    {assets : AssetColumn → Option (Asset β)} {t : Clock} {col : AssetColumn} {asset : Asset β}
    {objects : Objects β}
    (h : ∀ col a, assets col = some a → a = .retrievable (s3.pluginid (β := β))) :
    ∀ col' a, Function.update assets col (some (tryPersistencePluginStore C.plugins
      (col.assetId room t) asset objects).2) col' = some a →
      a = .retrievable (s3.pluginid (β := β)) := by
  intro col' a ha
  by_cases hcol : col' = col
  · subst hcol
    rw [Function.update_self, hC, s3_store hroom] at ha
    exact (Option.some.inj ha).symm
  · rw [Function.update_of_ne hcol] at ha
    exact h col' a ha

theorem Retrieval.Yields.references {g : Retrieval β} {d : DocTable β}
    (h : g.Yields C compactInclude true d) :
    ∃ ra, g.selected = some ra ∧ d.references = some ra.assets := by
  obtain ⟨cached, ra, -, hra, -, rfl⟩ := h
  exact ⟨ra, hra, rfl⟩

theorem TidyOk.worker (hroom : room.branch = "main") (hC : C.plugins = [s3])
    (hx : TidyOk room (S, ls)) {p p' : Proc β} (hi : ls i = .worker p)
    (h : WorkerStep C room S.hub p s' p') (hg : Tidy C room (S, ls) i (.worker p')) :
    TidyOk room ({ S with hub := s' }, Function.update ls i (.worker p')) := by
  have hknows : (Actor.worker p).Knows room := hi ▸ hx.knows i
  cases h with
  | start task => exact hx.idle rfl rfl (fun _ => id) id trivial (by rw [hi]; rfl)
  | precheckStream task persisted =>
    exact hx.idle rfl rfl (fun _ => id) id trivial (by rw [hi]; rfl)
  | precheckClock task cached rows hrows =>
    exact hx.idle rfl rfl (fun _ => id) id trivial (by rw [hi]; rfl)
  | nothing task cached persisted tombstone hn =>
    exact hx.idle rfl rfl (fun _ => id) id trivial (by rw [hi]; rfl)
  | proceed task cached persisted tombstone hn =>
    exact hx.idle rfl rfl (fun _ => id) id (fun ra hra => absurd hra (by simp [Retrieval.start]))
      (by rw [hi]; rfl)
  | fetch task g g' hr =>
    refine hx.idle rfl rfl (fun _ => id) id ?_ (by rw [hi]; rfl)
    intro ra hra
    cases hr with
    | select rows hrows hsel =>
      obtain rfl := Option.some.inj hra
      exact full_retrieveAssets (fun col => by cases col <;> rfl) fun row hrow =>
      hx.rows row (hrows.mem_iff.mp hrow)
    | xread hc hreads => exact hknows ra hra
    | retrieve before after id a htodo => exact hknows ra hra
  | outrun task g d hd ho => exact hx.idle rfl rfl (fun _ => id) id trivial (by rw [hi]; rfl)
  | merged task g d c hd ho hc =>
    refine hx.idle rfl rfl (fun _ => id) id ⟨fun refs hrefs => ?_, fun col a ha => ?_⟩
      (by rw [hi]; rfl)
    · obtain ⟨ra, hra, href⟩ := hd.references
      obtain rfl := Option.some.inj (href.symm.trans hrefs)
      exact hknows ra hra
    · exact absurd ha (by simp)
  | put task d c assets col hcol =>
    exact hx.put hroom hC hg (by rw [hi]; rfl) hcol rfl
      ⟨hknows.1, pointers_update hroom hC hknows.2⟩
  | insert task d c assets =>
    exact hx.insert (by rw [hi]; rfl) (fun col => hknows.2 col _ rfl) hknows.1
  | schedule task d refs hrefs =>
    exact hx.idle rfl rfl (fun _ ho => List.mem_append_left _ ho) id hknows (by rw [hi]; rfl)
  | delete task d refs trimmed hrefs =>
    exact hx.delete hC hg (by rw [hi]; rfl) (by rw [hi]; exact hrefs) (hknows refs hrefs) rfl hknows
  | trimAfter task d deleted now =>
    exact hx.idle rfl rfl (fun _ => id) id hknows (by rw [hi]; rfl)
  | trim task minId maxAgeMs now =>
    exact hx.idle rfl rfl (fun _ => id) id trivial (by rw [hi]; rfl)
  | stop p => exact hx.stop hg (Or.inl rfl)

theorem TidyOk.persist (hroom : room.branch = "main") (hC : C.plugins = [s3])
    (hx : TidyOk room (S, ls)) {p p' : PersistCall β} (hi : ls i = .persist p)
    (h : PersistCallStep C room S.hub p s' p') (hg : Tidy C room (S, ls) i (.persist p')) :
    TidyOk room ({ S with hub := s' }, Function.update ls i (.persist p')) := by
  have hknows : (Actor.persist p).Knows room := hi ▸ hx.knows i
  cases h with
  | getTime ms ydoc by_ =>
    exact hx.idle rfl rfl (fun _ => id) id (fun col a ha => absurd ha (by simp)) (by rw [hi]; rfl)
  | put t c assets col hcol =>
    exact hx.put hroom hC hg (by rw [hi]; rfl) hcol rfl (pointers_update hroom hC hknows)
  | insert t c assets =>
    exact hx.insert (by rw [hi]; rfl) (fun col => hknows col _ rfl) trivial
  | stop p => exact hx.stop hg (Or.inr rfl)

theorem TidyOk.deletion {ids : Hub β → StreamId → Prop} (hC : C.plugins = [s3])
    (hx : TidyOk room (S, ls)) {d d' : Deletion β} (hi : ls i = .deletion d)
    (h : DeletionStep C room ids S.hub d s' d') (hg : Tidy C room (S, ls) i (.deletion d')) :
    TidyOk room ({ S with hub := s' }, Function.update ls i (.deletion d')) := by
  have hknows : (Actor.deletion d).Knows room := hi ▸ hx.knows i
  have hstoring : (ls i).storing? = none := by rw [hi]; rfl
  cases h with
  | getTime hard by_ deletedAt => exact hx.idle rfl rfl (fun _ => id) id trivial hstoring
  | commit hard by_ deletedAt =>
    refine ⟨hx.rows, Interleave.forall_update hx.knows trivial, fun id hid hs => ?_⟩
    have hne : ∀ j, (ls j).HasPut room id → j ≠ i := by
      rintro j hj rfl
      exact Actor.not_hasPut hstoring id hj
    rcases hx.kept id hid hs with h | h | ⟨hn, j, hj⟩
    · exact Or.inl h
    · exact Or.inr (Or.inl h)
    · -- the call that has put the object only counts while the tombstone is not hard
      cases ht : (storeTombstone room deletedAt hard by_ S.hub.tombstone).hard with
      | true =>
        exact (hg.commit _ _ _ _ _ hi rfl ht id hs ⟨j, hj⟩).imp_right Or.inl
      | false =>
        refine Or.inr (Or.inr ⟨fun hhard => ?_, j, ?_⟩)
        · obtain ⟨t, ht', hh⟩ := Hub.hard_iff.mp hhard
          obtain rfl := Option.some.inj ht'
          exact absurd hh (by simp [ht])
        · simpa only [Function.update_of_ne (hne j hj)] using hj
  | clear hard t uncached => exact hx.idle rfl rfl (fun _ => id) id trivial hstoring
  | addMessage hard t cleared uncached now hid =>
    exact hx.idle rfl rfl (fun _ => id) id trivial hstoring
  | deleteCachedResponses hard t cleared message =>
    exact hx.idle rfl rfl (fun _ => id) id trivial hstoring
  | soft hard t m ht => exact hx.idle rfl rfl (fun _ => id) id trivial hstoring
  | purge hard t m ht =>
    exact hx.idle rfl rfl (fun _ => id) id (fun refs hrefs => absurd hrefs (by simp [Purge.start]))
      hstoring
  | list hard p rows hrows hl =>
    refine hx.idle rfl rfl (fun _ => id) id (fun refs hrefs => ?_) hstoring
    obtain rfl := Option.some.inj hrefs
    exact full_retrieveAssets (fun col => by cases col <;> rfl) fun row hrow =>
      hx.rows row (hrows.mem_iff.mp hrow)
  | schedule hard p refs hl hs =>
    exact hx.idle rfl rfl (fun _ ho => List.mem_append_left _ ho) id hknows hstoring
  | delete hard p refs hl hs hd =>
    refine hx.delete hC hg hstoring ?_ (hknows refs hl) rfl hknows
    rw [hi]
    simp [Actor.deleting?, hs, hd, hl]
  | deleteQuarantineStreams hard p qids =>
    exact hx.idle rfl rfl (fun _ => id) id hknows hstoring
  | getPurgeTime hard p ms => exact hx.idle rfl rfl (fun _ => id) id hknows hstoring
  | purged hard p ms hd hq hp =>
    refine hx.idle rfl rfl (fun _ => id) (fun hhard => ?_) ?_ hstoring
    · obtain ⟨t, ht, hh⟩ := Hub.hard_iff.mp hhard
      obtain ⟨t₀, ht₀, rfl⟩ := Option.map_eq_some_iff.mp ht
      exact Hub.hard_iff.mpr ⟨t₀, ht₀, hh⟩
    · cases storeTombstonePurged ms S.hub.tombstone <;> trivial
  | stop => exact hx.idle rfl rfl (fun _ => id) id trivial hstoring

theorem TidyOk.world {ops : Nat → Op β → Prop}
    {grants : Site β → AuthInfo → Option AccessType → Prop} {S' : Site β}
    (hx : TidyOk room (S, ls)) (h : SiteWorld room ops grants S S') : TidyOk room (S', ls) := by
  cases h with
  | addMessage now m hm hid => exact ⟨hx.rows, hx.knows, hx.kept⟩
  | op now o ho => exact ⟨hx.rows, hx.knows, hx.kept⟩
  | access user accessType hgr => exact ⟨hx.rows, hx.knows, hx.kept⟩
  | removeObject before after o htimers =>
    refine ⟨hx.rows, hx.knows, fun id hid hs => ?_⟩
    have hne : (s3.pluginid (β := β), id) ≠ o := by
      rintro rfl
      exact hs (Function.update_self ..)
    have hs : S.hub.Stored id := by
      intro hnone
      exact hs ((Function.update_of_ne hne _ _).trans hnone)
    refine (hx.kept id hid hs).imp_left fun h => ?_
    have h : (s3.pluginid (β := β), id) ∈ S.hub.timers := h
    rw [htimers] at h
    show (s3.pluginid (β := β), id) ∈ before ++ after
    rcases List.mem_append.mp h with h | h
    · exact List.mem_append_left _ h
    · exact List.mem_append_right _ ((List.mem_cons.mp h).resolve_left hne)

end Steps

/-! ## Runs -/

/-- The runs whose steps are all `Tidy`. -/
def Rules.tidy (C : Conf β) (room : Room) : Rules β := { guard := Tidy C room }

/-- The run lemma. -/
theorem tidyOk_of_run (hroom : room.branch = "main") (hC : C.plugins = [s3]) {x₀ x : SiteState β}
    (hidle : ∀ i, (x₀.2 i).Idle) (h₀ : x₀.1.hub.Accounted room)
    (hx : SiteRun C room (.tidy C room) x₀ x) : TidyOk room x := by
  refine Interleave.guarded_invariant (P := TidyOk room) (tidyOk_idle hidle h₀) ?_ ?_ hx
  · intro S ls S' ih hw
    exact ih.world hw
  · intro S ls i S' a ih hs hg
    generalize ha : ls i = a₀ at hs
    cases hs with
    | worker p p' s' hs => exact ih.worker hroom hC ha hs hg
    | persist p p' s' hs => exact ih.persist hroom hC ha hs hg
    | deletion d d' s' hs => exact ih.deletion hC ha hs hg
    | restore S' r r' hs =>
      cases hs with
      | retrieveTombstone =>
        exact ih.idle rfl rfl (fun _ => id) id trivial (by rw [ha]; rfl)
      | deleteTombstone t => exact (hg.drops t ha rfl).elim
      | stop => exact ih.idle rfl rfl (fun _ => id) id trivial (by rw [ha]; rfl)
    | conn c c' hs => exact ih.idle rfl rfl (fun _ => id) id trivial (by rw [ha]; rfl)

/-- **No object is left**, in every run whose steps are all `Tidy`, once a hard deletion has
returned and what is scheduled has been removed. -/
theorem no_object_left (hroom : room.branch = "main") (hC : C.plugins = [s3]) {x₀ x : SiteState β}
    (hidle : ∀ i, (x₀.2 i).Idle) (h₀ : x₀.1.hub.Accounted room)
    (hx : SiteRun C room (.tidy C room) x₀ x) {i : Nat} {t : Tombstone}
    (hi : x.2 i = .deletion (.returned true t)) (htimers : x.1.hub.timers = []) :
    ∀ id, id.room = room → x.1.hub.objects (s3.pluginid (β := β), id) = none := by
  intro id hid
  by_contra hs
  have hx' : SiteRun C room (.drops fun _ => False) x₀ x :=
    Interleave.guarded_mono (fun _ _ _ h => h.drops) hx
  obtain ⟨hhard, herased⟩ := deletionOk_of_run hidle hx' i _ hi
  obtain ⟨hrows, t', ht', hh, -⟩ := herased (hhard rfl)
  rcases (tidyOk_of_run hroom hC hidle h₀ hx).kept id hid hs with h | ⟨row, hrow, -⟩ | ⟨hn, -⟩
  · unfold Hub.Scheduled at h
    rw [htimers] at h
    exact absurd h List.not_mem_nil
  · rw [hrows] at hrow
    exact absurd hrow List.not_mem_nil
  · exact hn (Hub.hard_iff.mpr ⟨t', ht', hh⟩)

/-! ## A room with one object for each column -/

/-- The other objects are as they were. -/
theorem putAll_of_ne {t : Clock} {c : DocContent β} {cols : List AssetColumn} {o : Objects β}
    {q : String} {id : AssetId Clock} (h : ∀ col ∈ cols, id ≠ col.assetId room t) :
    putAll C room t c cols o (q, id) = o (q, id) := by
  induction cols generalizing o with
  | nil => rfl
  | cons col cols ih =>
    rw [putAll_cons, ih fun col' hcol' => h col' (List.mem_cons_of_mem _ hcol')]
    unfold tryPersistencePluginStore
    cases C.plugins.find? (·.takes (col.assetId room t) (c.asset col)) with
    | none => rfl
    | some p =>
      refine Function.update_of_ne (fun he => ?_) _ _
      exact h col List.mem_cons_self (Prod.mk.inj he).2

/-- A deletion has scheduled what it is going to delete. -/
def Deletion.Scheduled (C : Conf β) (s : Hub β) (d : Deletion β) : Prop :=
  (∀ hard p, d = .purging hard p → p.listed = none → p.scheduled = false) ∧
    ∀ refs, (Actor.deletion d).deleting? = some refs →
      ∀ o ∈ scheduledRemovals C.plugins refs, o ∈ s.timers

theorem Deletion.Scheduled.of_deleting {s : Hub β} {d : Deletion β}
    (hp : ∀ hard p, d = .purging hard p → p.listed = none → p.scheduled = false)
    (hd : (Actor.deletion d).deleting? = none) : d.Scheduled C s :=
  ⟨hp, fun refs hrefs => absurd (hd.symm.trans hrefs) (by simp)⟩

theorem Deletion.Scheduled.step {ids : Hub β → StreamId → Prop} {s s' : Hub β} {d d' : Deletion β}
    (h : d.Scheduled C s) (hs : DeletionStep C room ids s d s' d') : d'.Scheduled C s' := by
  cases hs with
  | purge hard t m ht => exact .of_deleting (by rintro _ _ ⟨⟩ _; rfl) rfl
  | list hard p rows hrows hl =>
    have hp := h.1 hard p rfl hl
    exact .of_deleting (by rintro _ _ ⟨⟩ hn; exact absurd hn (by simp)) (by
      simp [Actor.deleting?, hp])
  | schedule hard p refs hl hs =>
    refine ⟨by rintro _ _ ⟨⟩ hn; exact absurd (hl.symm.trans hn) (by simp), fun refs' hrefs' => ?_⟩
    have hrefs : refs' = refs := by
      cases hd : p.deleted <;> simp [Actor.deleting?, hl, hd] at hrefs'
      exact hrefs'.symm
    subst hrefs
    exact fun o ho => List.mem_append_right _ ho
  | delete hard p refs hl hs hd =>
    exact .of_deleting (by rintro _ _ ⟨⟩ hn; exact absurd (hl.symm.trans hn) (by simp)) (by
      simp [Actor.deleting?])
  | deleteQuarantineStreams hard p qids =>
    exact ⟨by rintro _ _ ⟨⟩ hn; exact h.1 hard p rfl hn, h.2⟩
  | getPurgeTime hard p ms => exact ⟨by rintro _ _ ⟨⟩ hn; exact h.1 hard p rfl hn, h.2⟩
  | purged hard p ms hd hq hp =>
    cases storeTombstonePurged ms s.tombstone <;>
      exact .of_deleting (by rintro _ _ ⟨⟩) rfl
  | _ => exact .of_deleting (by rintro _ _ ⟨⟩) rfl

/-- A deletion that no call disturbs is `Tidy`. -/
theorem tidy_deletion {x : SiteState β} {i : Nat} {d d' : Deletion β} (hi : x.2 i = .deletion d)
    (hothers : ∀ j, (x.2 j).storing? = none) (hd : d.Scheduled C x.1.hub) :
    Tidy C room x i (.deletion d') where
  drops := drops_deletion (P := fun _ => False) d d' hi
  commit hard by_ ms t cleared _ _ _ id _ := by
    rintro ⟨j, hj⟩
    exact (Actor.not_hasPut (hothers j) id hj).elim
  put _ id h := (Actor.not_hasPut rfl id h).elim
  stop := by
    rintro (h | h)
    · exact absurd h (by simp)
    · exact absurd h (by simp)
  delete refs hrefs _ id hid _ := by
    rw [hi] at hrefs
    exact Or.inl (hd.2 refs hrefs _ hid)

/-- A room with one row, whose columns are kept as objects. -/
def oneObjectRow : Hub RefPayload := oneUpdate.runTask (.ref [s3]) Room.a 100000 ⟨1000, 0⟩

theorem oneObjectRow_accounted : oneObjectRow.Accounted Room.a where
  rows row hrow col := by
    obtain rfl := List.mem_singleton.mp hrow
    cases col <;> exact ⟨rfl, rfl⟩
  kept id hid hs := by
    obtain ⟨c, hc⟩ : ∃ c, oneObjectRow.objects =
        putAll (.ref [s3]) Room.a (.id ⟨1000, 0⟩) c AssetColumn.all fun _ => none := ⟨_, rfl⟩
    refine Or.inr ⟨_, List.mem_cons_self, ?_⟩
    by_contra hne
    refine hs ?_
    rw [hc]
    exact putAll_of_ne fun col _ he => hne ⟨col, he⟩

/-- A worker and two deletions that have not begun. -/
def purges : Nat → Actor RefPayload
  | 1 => .deletion .idle
  | 2 => .deletion .idle
  | _ => .worker .idle

theorem purges_idle (i : Nat) : (purges i).Idle := by
  unfold purges
  split <;> rfl

theorem purges_storing (i : Nat) : (purges i).storing? = none := by
  unfold purges
  split <;> rfl

/-- Every scheduled removal takes place. -/
def Hub.removeAll (s : Hub β) : Hub β :=
  { s with
    objects := s.timers.foldl (fun objects o => Function.update objects o none) s.objects
    timers := [] }

theorem SiteRun.removeAll {R : Rules β} (S : Site β) (ls : Nat → Actor β) :
    SiteRun C room R (S, ls) ({ S with hub := S.hub.removeAll }, ls) := by
  obtain ⟨os, hos⟩ : ∃ os, S.hub.timers = os := ⟨_, rfl⟩
  unfold Hub.removeAll
  induction os generalizing S with
  | nil =>
    rw [hos, List.foldl_nil, ← hos]
  | cons o os ih =>
    have h : SiteRun C room R ({ S with hub := { S.hub with
        objects := Function.update S.hub.objects o none, timers := [] ++ os } }, ls) _ := ih _ rfl
    rw [hos]
    exact h.head (Interleave.Guarded.env _ _ _ (SiteWorld.removeObject S [] os o hos))

/-- The room is deleted, and then each of its objects is removed. -/
theorem no_object_left_of_run :
    (oneObjectRow.deleteDoc (.ref [s3]) Room.a true none 200000 200000 200001).removeAll.objects
      firstObject = none := by
  obtain ⟨t, h⟩ := deleteDoc_alone (.ref [s3]) Room.a (fun _ _ => True) oneObjectRow true none
    200000 200000 200001 fun _ _ => trivial
  have h₁ : SiteRun (.ref [s3]) Room.a (.tidy (.ref [s3]) Room.a)
      (Site.of oneObjectRow, purges) _ :=
    SiteRun.alone_of .deletion (i := 1) (Deletion.Scheduled (.ref [s3]))
      (fun _ _ _ _ hd hs => hd.step hs)
      (fun S d s' d' hs => ActorStep.deletion S d d' s' hs)
      (fun S d d' hd => tidy_deletion (d := d) rfl
        (Interleave.forall_update (P := (Actor.storing? · = none)) purges_storing rfl) hd) h
      (.of_deleting (by rintro _ _ ⟨⟩) rfl) rfl
  exact no_object_left rfl rfl purges_idle oneObjectRow_accounted (h₁.trans (SiteRun.removeAll _ _))
    (i := 1) (t := t) rfl rfl _ rfl

/-! ## A compaction that is under way -/

section Refused

variable {s : Hub β}

variable (C room) in
/-- A hard deletion that finds no row schedules no removal. -/
theorem deleteDoc_of_no_rows (h : s.rows = []) (by_ : Option String) (ms now purgedAt : Nat) :
    let s' := s.deleteDoc C room true by_ ms now purgedAt
    s'.rows = [] ∧ s'.timers = s.timers ∧ s'.objects = s.objects ∧ s'.Hard := by
  have ht : (storeTombstone room ms true by_ s.tombstone).hard = true := storeTombstone_hard ..
  unfold Hub.deleteDoc
  simp only [ht, if_true]
  refine ⟨?_, ?_, rfl, ?_⟩
  · simp [Hub.addMessage, h, deleteReferences]
  · simp [Hub.addMessage, h, retrieveAssets, scheduledRemovals]
  · simp [Hub.Hard, Hub.addMessage, storeTombstonePurged, ht]

variable (C room) in
/-- A run whose row is refused ends without a trace, if it has found no row. -/
theorem refused_alone (task : StreamId) {d : DocTable β} (c : DocContent β)
    (assets : AssetColumn → Asset β) (hs : s.Hard) (hrefs : d.references = some []) (now : Nat) :
    ∃ s', WorkerAlone C room (s, .storing task d c fun col => some (assets col)) (s', .finished) ∧
      s'.rows = s.rows ∧ s'.timers = s.timers ∧ s'.objects = s.objects := by
  have hrefused : insertRow s.tombstone (storedRow d.lastClock assets) s.rows = s.rows := if_pos hs
  have h₁ : WorkerAlone C room (s, _) _ := .step .refl (WorkerStep.insert s task d c assets)
  have h₂ := h₁.step (WorkerStep.schedule _ task d [] hrefs)
  have h₃ := h₂.step (WorkerStep.delete _ task d [] false hrefs)
  have h₄ := (h₃.step (WorkerStep.trimAfter _ task d true now)).step (WorkerStep.stop _ _)
  refine ⟨_, h₄, ?_, ?_, rfl⟩
  · simp [deleteReferences, hrefused]
  · simp [scheduledRemovals]

end Refused

/-- **An object outlasts the deletion**: it was put before the tombstone was committed, and the row
that was to point to it is refused. A second deletion does not find it either. -/
theorem object_outlasts_deletion : ¬ ∀ x₀ x : SiteState RefPayload, (∀ i, (x₀.2 i).Idle) →
    x₀.1.hub.Accounted Room.a → SiteRun (.ref [s3]) Room.a (.drops fun _ => False) x₀ x →
    (∀ i p, x.2 i = .worker p → p = .idle ∨ p = .finished) → x.1.hub.timers = [] →
    ∀ i t, x.2 i = .deletion (.returned true t) →
      ∀ id, id.room = Room.a → x.1.hub.objects (s3.pluginid (β := RefPayload), id) = none := by
  intro hclaim
  have hworker : ∀ (x : SiteState RefPayload) i p p', x.2 i = .worker p →
      (Rules.drops fun _ => False).guard x i (.worker p') :=
    fun x i p p' hp t ht => absurd (hp.symm.trans ht) (by simp)
  obtain ⟨c, hc⟩ := readDoc_content (.ref [s3]) Room.a oneUpdate
    (getMessages (oneUpdate.redis.live Room.a))
  obtain ⟨s₁, d, assets, h₁, hrows₁, htimers₁, hobject, hrefs⟩ :
      ∃ s₁ d, ∃ assets : AssetColumn → Asset RefPayload,
      WorkerAlone (.ref [s3]) Room.a (oneUpdate, .idle)
        (s₁, .storing ⟨1000, 0⟩ d c fun col => some (assets col)) ∧
      s₁.rows = [] ∧ s₁.timers = [] ∧ s₁.objects firstObject ≠ none ∧ d.references = some [] :=
    ⟨_, _, _, putting_alone (by decide) (by decide) hc, rfl, rfl, Option.some_ne_none _, rfl⟩
  -- the deletion, while the run has still to insert its row
  obtain ⟨hrows₂, htimers₂, hobjects₂, hhard₂⟩ := deleteDoc_of_no_rows (.ref [s3])
    Room.a hrows₁ none 200000 200000 200001
  obtain ⟨s₃, h₃, hrows₃, htimers₃, hobjects₃⟩ := refused_alone (.ref [s3]) Room.a ⟨1000, 0⟩ c
    assets hhard₂ hrefs 300000
  -- the deletion is repeated
  obtain ⟨-, htimers₄, hobjects₄, -⟩ := deleteDoc_of_no_rows (.ref [s3])
    Room.a (hrows₃.trans hrows₂) none 400000 400000 400001
  have r₁ : SiteRun (.ref [s3]) Room.a (.drops fun _ => False) (Site.of oneUpdate, purges) _ :=
    SiteRun.alone .worker (i := 0) (fun S p s' p' hs => ActorStep.worker S p p' s' hs)
      (fun x p p' hp => hworker x 0 p p' hp) h₁ rfl
  obtain ⟨t₂, r₂⟩ := r₁.deleteDoc (i := 1) rfl (fun _ d d' hd => drops_deletion d d' hd) true none
    200000 200000 200001 fun _ _ => trivial
  have r₃ := r₂.trans (SiteRun.alone .worker (i := 0)
    (fun S p s' p' hs => ActorStep.worker S p p' s' hs)
    (fun x p p' hp => hworker x 0 p p' hp) h₃ rfl)
  obtain ⟨t₄, r₄⟩ := SiteRun.deleteDoc r₃ (i := 2) rfl (fun _ d d' hd => drops_deletion d d' hd)
    true none 400000 400000 400001 fun _ _ => trivial
  refine hobject ?_
  rw [← hobjects₂, ← hobjects₃, ← hobjects₄]
  refine hclaim _ _ purges_idle ⟨fun row hrow => absurd hrow List.not_mem_nil,
    fun id _ hs => (hs rfl).elim⟩ r₄ (fun i p hp => ?_)
    (htimers₄.trans (htimers₃.trans (htimers₂.trans htimers₁))) 2 t₄ rfl _ rfl
  match i with
  | 0 => exact Or.inr (Actor.worker.inj hp).symm
  | 1 => exact absurd hp (by simp)
  | 2 => exact absurd hp (by simp)
  | i + 3 =>
    refine Or.inl ?_
    simp [purges] at hp
    exact hp.symm

end YHub
