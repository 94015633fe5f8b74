import YHub.Types
import YHub.Clock
import Mathlib.Data.List.Nodup
import Mathlib.Data.List.Sort
import Mathlib.Logic.Function.Basic

/-!
# Stored versions of a document (`persistence.js`, `plugins/s3.js`)

The rows of `yhub_ydoc_v1` for one room, and the objects that plugins keep for them. A row holds
one asset per column: the bytes themselves, or a pointer to an object.

* A plugin keeps an object for the assets it takes and answers `null` for the others; `s3` takes
  those of the `main` branch. Objects are addressed by asset id, one per path
  `assetIdToString(assetId)`. `delete` only schedules the removal of an object.
* Postgres returns the rows of a room in no particular order. `retrieveAssets` sorts their clocks
  with the comparator `isSmallerRedisClock(a, b) ? -1 : 1`. Two clocks of one millisecond, one of
  them `'<ms>-I'`, are each not below the other, so the comparator is not always an order, and
  what `Array.sort` then returns is up to the engine: sorting is a parameter, and `SortSpec` says
  what is known of it. `insertionSort` is one such function.

Results: `lastClock_mem`, `lastClock_max`: which clock `retrieveAssets` reports; `mem_updatesOf` and
the lemmas after it: what `retrieveDoc` makes of the assets.
-/

namespace YHub

variable {β : Type}

/-! ## Columns and rows -/

/-- `assetColumns`: the four asset columns of a row. -/
inductive AssetColumn where
  | gcdoc
  | nongcdoc
  | contentmap
  | contentids
  deriving DecidableEq, Repr

/-- `includeContent`. -/
structure Include where
  gc : Bool := false
  nongc : Bool := false
  contentmap : Bool := false
  references : Bool := false
  contentids : Bool := false
  awareness : Bool := false
  deriving DecidableEq, Repr

namespace AssetColumn

def all : List AssetColumn := [gcdoc, nongcdoc, contentmap, contentids]

theorem mem_all (c : AssetColumn) : c ∈ all := by
  cases c <;> decide

/-- Whether `includeContent` asks for the column. -/
def included (i : Include) : AssetColumn → Bool
  | gcdoc => i.gc
  | nongcdoc => i.nongc
  | contentmap => i.contentmap
  | contentids => i.contentids

/-- The column of the garbage-collected, or of the full document. -/
def doc (gc : Bool) : AssetColumn := if gc then gcdoc else nongcdoc

def assetId {τ : Type} (room : Room) (t : τ) : AssetColumn → AssetId τ
  | gcdoc => .ydoc room t true
  | nongcdoc => .ydoc room t false
  | contentmap => .contentmap room t
  | contentids => .contentids room t

@[simp] theorem assetId_t {τ : Type} (room : Room) (t : τ) (c : AssetColumn) :
    (c.assetId room t).t = t := by
  cases c <;> rfl

@[simp] theorem assetId_room {τ : Type} (room : Room) (t : τ) (c : AssetColumn) :
    (c.assetId room t).room = room := by
  cases c <;> rfl

/-- An asset id names one column. -/
theorem assetId_inj {τ : Type} {room : Room} {t t' : τ} {c c' : AssetColumn}
    (h : c.assetId room t = c'.assetId room t') : t = t' ∧ c = c' := by
  cases c <;> cases c' <;> simp [assetId] at h ⊢ <;> exact h

end AssetColumn

/-- A row of `yhub_ydoc_v1`: its clock, and for each column the asset and the marker
`<column>_is_reference`. -/
structure Row (β : Type) where
  t : Clock
  asset : AssetColumn → Option (Asset β)
  isReference : AssetColumn → Bool

/-- The asset is of the kind that the column holds. -/
def AssetColumn.Fits : AssetColumn → Asset β → Prop
  | .gcdoc, .ydoc _ => True
  | .nongcdoc, .ydoc _ => True
  | .contentmap, .contentmap _ => True
  | .contentids, .contentids _ => True
  | _, _ => False

/-- What `Persistence.store` is given besides the room and the clock. -/
structure DocContent (β : Type) where
  gcDoc : β
  nongcDoc : β
  contentmap : β
  contentids : β
  deriving DecidableEq, Repr

/-- The asset a column is stored from. -/
def DocContent.asset (d : DocContent β) : AssetColumn → Asset β
  | .gcdoc => .ydoc d.gcDoc
  | .nongcdoc => .ydoc d.nongcDoc
  | .contentmap => .contentmap d.contentmap
  | .contentids => .contentids d.contentids

theorem DocContent.fits_asset (c : DocContent β) (col : AssetColumn) : col.Fits (c.asset col) := by
  cases col <;> trivial

theorem DocContent.asset_isReference (c : DocContent β) (col : AssetColumn) :
    (c.asset col).isReference = false := by
  cases col <;> rfl

/-! ## Plugins -/

/-- A persistence plugin: the assets that its `store` keeps an object for. -/
structure Plugin (β : Type) where
  pluginid : String
  takes : AssetId Clock → Asset β → Bool

/-- `S3PersistenceV1`. -/
def s3 : Plugin β where
  pluginid := "S3Persistence:v1"
  takes id _ := id.room.branch == "main"

/-- The address of an object: the plugin that keeps it, and its path. -/
abbrev ObjectId : Type := String × AssetId Clock

/-- The objects plugins keep. -/
abbrev Objects (β : Type) : Type := ObjectId → Option (Asset β)

variable (plugins : List (Plugin β))

/-- `tryPersistencePluginStore`: the first plugin that takes the asset keeps it, and a pointer is
stored in its place. -/
def tryPersistencePluginStore (id : AssetId Clock) (asset : Asset β) (objects : Objects β) :
    Objects β × Asset β :=
  match plugins.find? (·.takes id asset) with
  | some p => (Function.update objects (p.pluginid, id) (some asset), .retrievable p.pluginid)
  | none => (objects, asset)

/-- `tryPersistencePluginRetrieve`: `none` when no plugin finds the object. -/
def tryPersistencePluginRetrieve (id : AssetId Clock) (asset : Asset β) (objects : Objects β) :
    Option (Asset β) :=
  match asset with
  | .retrievable plugin => plugins.findSome? fun p =>
      if plugin = p.pluginid then objects (p.pluginid, id) else none
  | a => some a

/-- `tryPersistencePluginDelete`: the objects whose removal is scheduled. -/
def tryPersistencePluginDelete (id : AssetId Clock) (asset : Asset β) : List ObjectId :=
  match asset with
  | .retrievable plugin =>
    (plugins.filter fun p => plugin = p.pluginid).map fun p => (p.pluginid, id)
  | _ => []

/-- The asset is a pointer to the object. -/
def PointsTo (o : ObjectId) (id : AssetId Clock) (asset : Asset β) : Prop :=
  id = o.2 ∧ asset = .retrievable o.1

section Retrieve

variable {plugins} {id id' : AssetId Clock} {asset asset' : Asset β} {objects : Objects β}

/-- What happens to an object does not matter to the assets that do not point to it. -/
theorem retrieve_update {o : ObjectId} (h : ¬ PointsTo o id asset) (r : Option (Asset β)) :
    tryPersistencePluginRetrieve plugins id asset (Function.update objects o r) =
      tryPersistencePluginRetrieve plugins id asset objects := by
  cases asset with
  | retrievable plugin =>
    simp only [tryPersistencePluginRetrieve]
    congr 1
    funext p
    by_cases hp : plugin = p.pluginid
    · rw [if_pos hp, if_pos hp, Function.update_of_ne]
      rintro rfl
      exact h ⟨rfl, by rw [hp]⟩
    · rw [if_neg hp, if_neg hp]
  | _ => rfl

theorem retrieve_pointer {q : String} {r : Asset β} (hq : ∃ p ∈ plugins, p.pluginid = q)
    (hr : objects (q, id) = some r) :
    tryPersistencePluginRetrieve plugins id (.retrievable q) objects = some r := by
  simp only [tryPersistencePluginRetrieve]
  obtain ⟨p, hp, rfl⟩ := hq
  induction plugins with
  | nil => exact absurd hp List.not_mem_nil
  | cons p' ps ih =>
    rw [List.findSome?_cons]
    by_cases he : p.pluginid = p'.pluginid
    · simp [← he, hr]
    · rcases List.mem_cons.mp hp with rfl | hp
      · exact absurd rfl he
      · simpa [he] using ih hp

/-- A pointer that can be retrieved has its object. -/
theorem object_of_retrieve {q : String} {r : Asset β}
    (h : tryPersistencePluginRetrieve plugins id (.retrievable q) objects = some r) :
    objects (q, id) = some r := by
  simp only [tryPersistencePluginRetrieve] at h
  obtain ⟨p, -, hp⟩ := List.exists_of_findSome?_eq_some h
  split at hp
  · rename_i hq
    rwa [hq]
  · exact absurd hp (by simp)

/-- **What a plugin chain stores it finds again.** -/
theorem retrieve_store (h : asset.isReference = false) :
    tryPersistencePluginRetrieve plugins id
      (tryPersistencePluginStore plugins id asset objects).2
      (tryPersistencePluginStore plugins id asset objects).1 = some asset := by
  unfold tryPersistencePluginStore
  cases hf : plugins.find? (·.takes id asset) with
  | some p => exact retrieve_pointer ⟨p, List.mem_of_find?_eq_some hf, rfl⟩ (by simp)
  | none =>
    cases asset with
    | retrievable => exact absurd h (by simp [Asset.isReference])
    | _ => rfl

/-- Storing an asset changes what is retrieved under its own id at most, to the asset stored. -/
theorem retrieve_after_store (plugins : List (Plugin β)) (id id' : AssetId Clock)
    (asset asset' : Asset β) (objects : Objects β) :
    tryPersistencePluginRetrieve plugins id' asset'
        (tryPersistencePluginStore plugins id asset objects).1 =
      tryPersistencePluginRetrieve plugins id' asset' objects ∨
    id' = id ∧ tryPersistencePluginRetrieve plugins id' asset'
        (tryPersistencePluginStore plugins id asset objects).1 = some asset := by
  unfold tryPersistencePluginStore
  cases hf : plugins.find? (·.takes id asset) with
  | none => exact Or.inl rfl
  | some p =>
    by_cases hpt : PointsTo (p.pluginid, id) id' asset'
    · obtain ⟨rfl, rfl⟩ := hpt
      exact Or.inr ⟨rfl, retrieve_pointer ⟨p, List.mem_of_find?_eq_some hf, rfl⟩ (by simp)⟩
    · exact Or.inl (retrieve_update hpt _)

end Retrieve

/-! ## Statements -/

/-- The row `store` inserts, from what the plugins made of its assets. -/
def storedRow (lastClock : Clock) (assets : AssetColumn → Asset β) : Row β :=
  ⟨lastClock, fun c => some (assets c), fun c => (assets c).isReference⟩

/-- The `INSERT` of `store`: not for a hard-deleted room, and `ON CONFLICT DO NOTHING`. -/
def insertRow (tombstone : Option Tombstone) (row : Row β) (rows : List (Row β)) : List (Row β) :=
  if tombstone.any Tombstone.hard then rows
  else if row.t ∈ rows.map Row.t then rows
  else rows ++ [row]

theorem insertRow_of_not_hard {tombstone : Option Tombstone} (row : Row β) (rows : List (Row β))
    (h : tombstone.any Tombstone.hard = false) :
    row.t ∈ rows.map Row.t ∧ insertRow tombstone row rows = rows ∨
      row.t ∉ rows.map Row.t ∧ insertRow tombstone row rows = rows ++ [row] := by
  unfold insertRow
  rw [h, if_neg Bool.false_ne_true]
  by_cases hmem : row.t ∈ rows.map Row.t
  · exact Or.inl ⟨hmem, if_pos hmem⟩
  · exact Or.inr ⟨hmem, if_neg hmem⟩

theorem mem_insertRow_of_mem {tombstone : Option Tombstone} {row row' : Row β}
    {rows : List (Row β)} (h : row' ∈ rows) : row' ∈ insertRow tombstone row rows := by
  unfold insertRow
  split
  · exact h
  split
  · exact h
  · exact List.mem_append_left _ h

theorem mem_insertRow {tombstone : Option Tombstone} {row row' : Row β} {rows : List (Row β)}
    (h : row' ∈ insertRow tombstone row rows) : row' ∈ rows ∨ row' = row := by
  unfold insertRow at h
  split at h
  · exact Or.inl h
  split at h
  · exact Or.inl h
  · exact (List.mem_append.mp h).imp_right List.mem_singleton.mp

/-- A clock occurs once: the primary key. -/
theorem nodup_insertRow {tombstone : Option Tombstone} {row : Row β} {rows : List (Row β)}
    (h : (rows.map Row.t).Nodup) : ((insertRow tombstone row rows).map Row.t).Nodup := by
  unfold insertRow
  split
  · exact h
  split
  · exact h
  rename_i hnew
  rw [List.map_append, List.nodup_append]
  refine ⟨h, List.nodup_singleton _, ?_⟩
  rintro t ht t' ht' rfl
  rw [List.map_singleton, List.mem_singleton] at ht'
  rw [ht'] at ht
  exact hnew ht

/-- The references `retrieveDoc` reports: every asset, with its id, unresolved. -/
abbrev Reference (β : Type) : Type := AssetId Clock × Option (Asset β)

/-- The removals that `deleteReferences` schedules before anything else. -/
def scheduledRemovals (references : List (Reference β)) : List ObjectId :=
  references.flatMap fun ref => (ref.2.map (tryPersistencePluginDelete plugins ref.1)).getD []

/-- The `DELETE` of `deleteReferences`, on the rows of `room`. -/
def deleteReferences (room : Room) (references : List (Reference β)) (rows : List (Row β)) :
    List (Row β) :=
  rows.filter fun row => ¬ ∃ ref ∈ references, ref.1.room = room ∧ ref.1.t = row.t

/-! ## Reading -/

/-- `Array.sort` with the comparator `isSmallerRedisClock(a, b) ? -1 : 1`. -/
abbrev ClockSort : Type := List Clock → List Clock

/-- Clocks that the comparator orders strictly. -/
abbrev Comparable (a b : Clock) : Prop := a.isSmaller b = true ∨ b.isSmaller a = true

/-- What is known of the sort: it reorders, and where the comparator orders the clocks strictly it
sorts them. -/
structure SortSpec (sort : ClockSort) : Prop where
  perm : ∀ ts, (sort ts).Perm ts
  sorted : ∀ ts, ts.Pairwise Comparable → (sort ts).Pairwise fun a b => a.isSmaller b = true

structure RetrievedAssets (β : Type) where
  lastClock : Clock
  tombstone : Option Tombstone
  assets : List (Reference β)

/-- The last clock of a set of rows. -/
def lastClockOf (sort : ClockSort) (rows : List (Row β)) : Clock :=
  (sort (rows.map Row.t)).getLast?.getD .zero

/-- `retrieveAssets`, on the rows in the order postgres returned them. -/
def retrieveAssets (sort : ClockSort) (room : Room) (i : Include) (onlyReferences : Bool)
    (tombstone : Option Tombstone) (rows : List (Row β)) : RetrievedAssets β where
  lastClock := lastClockOf sort rows
  tombstone := tombstone
  assets := rows.flatMap fun row =>
    (AssetColumn.all.filter (·.included i)).map fun c =>
      (c.assetId room row.t, if onlyReferences && !row.isReference c then none else row.asset c)

theorem mem_assets {sort : ClockSort} {room : Room} {i : Include} {tombstone : Option Tombstone}
    {rows : List (Row β)} {ref : Reference β} :
    ref ∈ (retrieveAssets sort room i false tombstone rows).assets ↔
      ∃ row ∈ rows, ∃ col, AssetColumn.included i col = true ∧
        ref = (col.assetId room row.t, row.asset col) := by
  simp only [retrieveAssets, List.mem_flatMap, List.mem_map, List.mem_filter, Bool.false_and,
    Bool.false_eq_true, if_false, AssetColumn.mem_all, true_and, eq_comm (a := ref)]

/-- The assets among references. -/
def toRetrieve (references : List (Reference β)) : List (AssetId Clock × Asset β) :=
  references.filterMap fun ref => ref.2.map fun a => (ref.1, a)

/-- What `retrieveDoc` returns; a part that was not asked for is `null`. -/
structure RetrievedDoc (β : Type) where
  lastClock : Clock
  tombstone : Option Tombstone
  gcDoc : Option (List β)
  nongcDoc : Option (List β)
  contentmap : Option (List β)
  contentids : Option (List β)
  references : Option (List (Reference β))

/-- The updates among retrieved assets, of the garbage-collected or of the full document. -/
def updatesOf (gc : Bool) (retrieved : List (AssetId Clock × Asset β)) : List β :=
  retrieved.filterMap fun
    | (.ydoc _ _ g, .ydoc u) => if g = gc then some u else none
    | (_, .ydoc u) => if gc then none else some u
    | _ => none

def contentmapsOf (retrieved : List (AssetId Clock × Asset β)) : List β :=
  retrieved.filterMap fun
    | (_, .contentmap m) => some m
    | _ => none

def contentidsOf (retrieved : List (AssetId Clock × Asset β)) : List β :=
  retrieved.filterMap fun
    | (_, .contentids c) => some c
    | _ => none

/-- The end of `retrieveDoc`, once the assets are retrieved: `retrieved` lists those that were
found, in the order in which they arrived. -/
def retrieveDoc (i : Include) (a : RetrievedAssets β)
    (retrieved : List (AssetId Clock × Asset β)) : RetrievedDoc β where
  lastClock := a.lastClock
  tombstone := a.tombstone
  gcDoc := if i.gc then some (updatesOf true retrieved) else none
  nongcDoc := if i.nongc then some (updatesOf false retrieved) else none
  contentmap := if i.contentmap then some (contentmapsOf retrieved) else none
  contentids := if i.contentids then some (contentidsOf retrieved) else none
  references := if i.references then some a.assets else none

/-! ## What was retrieved -/

/-- Every asset of a room was retrieved for a column that it fits. -/
def Fitting (room : Room) (retrieved : List (AssetId Clock × Asset β)) : Prop :=
  ∀ id a, (id, a) ∈ retrieved →
    ∃ (col : AssetColumn) (t : Clock), id = col.assetId room t ∧ col.Fits a

section Retrieved

variable {room : Room} {retrieved : List (AssetId Clock × Asset β)} {b : β}

/-- What is collected from one column. -/
theorem mem_filterMap_column {f : AssetId Clock × Asset β → Option β} {col : AssetColumn}
    {asset : β → Asset β} (h : Fitting room retrieved)
    (hf : ∀ (col' : AssetColumn) t a, col'.Fits a →
      (f (col'.assetId room t, a) = some b ↔ col' = col ∧ a = asset b)) :
    b ∈ retrieved.filterMap f ↔ ∃ t, (col.assetId room t, asset b) ∈ retrieved := by
  rw [List.mem_filterMap]
  constructor
  · rintro ⟨⟨id, a⟩, hmem, hb⟩
    obtain ⟨col', t, rfl, hfits⟩ := h id a hmem
    obtain ⟨rfl, rfl⟩ := (hf col' t a hfits).mp hb
    exact ⟨t, hmem⟩
  · rintro ⟨t, hmem⟩
    obtain ⟨col', t', hid, hfits⟩ := h _ _ hmem
    obtain rfl := (AssetColumn.assetId_inj hid).2
    exact ⟨_, hmem, (hf col t _ hfits).mpr ⟨rfl, rfl⟩⟩

theorem mem_updatesOf {gc : Bool} (h : Fitting room retrieved) :
    b ∈ updatesOf gc retrieved ↔
      ∃ t, ((AssetColumn.doc gc).assetId room t, .ydoc b) ∈ retrieved := by
  refine mem_filterMap_column h fun col t a hfits => ?_
  cases gc <;> cases col <;> cases a <;>
    first
    | exact hfits.elim
    | simp [AssetColumn.assetId, AssetColumn.doc]

theorem mem_contentmapsOf (h : Fitting room retrieved) :
    b ∈ contentmapsOf retrieved ↔
      ∃ t, (AssetColumn.contentmap.assetId room t, .contentmap b) ∈ retrieved := by
  refine mem_filterMap_column h fun col t a hfits => ?_
  cases col <;> cases a <;>
    first
    | exact hfits.elim
    | simp

theorem mem_contentidsOf (h : Fitting room retrieved) :
    b ∈ contentidsOf retrieved ↔
      ∃ t, (AssetColumn.contentids.assetId room t, .contentids b) ∈ retrieved := by
  refine mem_filterMap_column h fun col t a hfits => ?_
  cases col <;> cases a <;>
    first
    | exact hfits.elim
    | simp

end Retrieved

/-! ## The sort -/

section LastClock

variable {sort : ClockSort} {rows : List (Row β)}

theorem lastClock_mem (hs : SortSpec sort) (h : rows ≠ []) :
    ∃ row ∈ rows, row.t = lastClockOf sort rows := by
  have hperm := hs.perm (rows.map Row.t)
  have hne : sort (rows.map Row.t) ≠ [] := by
    intro he
    rw [he] at hperm
    exact h (List.map_eq_nil_iff.mp hperm.nil_eq.symm)
  unfold lastClockOf
  rw [List.getLast?_eq_some_getLast hne, Option.getD_some]
  exact List.mem_map.mp (hperm.mem_iff.mp (List.getLast_mem hne))

theorem lastClock_nil (hs : SortSpec sort) : lastClockOf sort ([] : List (Row β)) = .zero := by
  have hnil : sort ([] : List Clock) = [] := (hs.perm []).eq_nil
  simp [lastClockOf, hnil]

/-- **The last clock of rows whose clocks are comparable is their maximum.** -/
theorem lastClock_max (hs : SortSpec sort) (hcomp : (rows.map Row.t).Pairwise Comparable)
    {row : Row β} (hrow : row ∈ rows) :
    row.t = lastClockOf sort rows ∨ row.t.isSmaller (lastClockOf sort rows) = true := by
  have hsorted := hs.sorted _ hcomp
  have hmem : row.t ∈ sort (rows.map Row.t) :=
    (hs.perm _).mem_iff.mpr (List.mem_map_of_mem hrow)
  have hne : sort (rows.map Row.t) ≠ [] := List.ne_nil_of_mem hmem
  have hlast : lastClockOf sort rows = (sort (rows.map Row.t)).getLast hne := by
    unfold lastClockOf
    rw [List.getLast?_eq_some_getLast hne, Option.getD_some]
  rw [← List.dropLast_append_getLast hne] at hmem hsorted
  rw [hlast]
  rcases List.mem_append.mp hmem with hmem | hmem
  · exact Or.inr ((List.pairwise_append.mp hsorted).2.2 _ hmem _ (List.mem_singleton.mpr rfl))
  · exact Or.inl (List.mem_singleton.mp hmem)

/-- Different stream ids are comparable clocks. -/
theorem comparable_of_nodup (hid : ∀ row ∈ rows, ∃ i, row.t = .id i)
    (hnodup : (rows.map Row.t).Nodup) : (rows.map Row.t).Pairwise Comparable := by
  refine hnodup.imp_of_mem fun {a b} ha hb hab => ?_
  obtain ⟨ra, hra, rfl⟩ := List.mem_map.mp ha
  obtain ⟨rb, hrb, rfl⟩ := List.mem_map.mp hb
  obtain ⟨x, hx⟩ := hid ra hra
  obtain ⟨y, hy⟩ := hid rb hrb
  rw [hx, hy] at hab ⊢
  have hne : x ≠ y := fun hxy => hab (by rw [hxy])
  simpa [Comparable] using lt_or_gt_of_ne hne

end LastClock

/-! ### A sort by insertion -/

/-- A sort that asks the comparator whether the next clock goes before the ones sorted so far. -/
def insertionSort : ClockSort := List.insertionSort fun a b => a.isSmaller b = true

theorem pairwise_orderedInsert {c : Clock} {ts : List Clock}
    (hc : ∀ t ∈ ts, c.isSmaller t = true ∨ t.isSmaller c = true)
    (hts : ts.Pairwise fun a b => a.isSmaller b = true) :
    (ts.orderedInsert (fun a b => a.isSmaller b = true) c).Pairwise
      fun a b => a.isSmaller b = true := by
  induction ts with
  | nil => simp
  | cons t ts ih =>
    have ht := List.pairwise_cons.mp hts
    simp only [List.orderedInsert]
    split
    · rename_i hct
      refine List.pairwise_cons.mpr ⟨fun u hu => ?_, hts⟩
      rcases List.mem_cons.mp hu with rfl | hu
      · exact hct
      · exact Clock.isSmaller_trans hct (ht.1 u hu)
    · rename_i hct
      have htc := (hc t List.mem_cons_self).resolve_left hct
      refine List.pairwise_cons.mpr
        ⟨fun u hu => ?_, ih (fun u hu => hc u (List.mem_cons_of_mem _ hu)) ht.2⟩
      rcases List.mem_cons.mp ((List.perm_orderedInsert _ c ts).mem_iff.mp hu) with rfl | hu
      · exact htc
      · exact ht.1 u hu

theorem insertionSort_spec : SortSpec insertionSort where
  perm ts := List.perm_insertionSort _ ts
  sorted ts hts := by
    induction ts with
    | nil => exact List.Pairwise.nil
    | cons t ts ih =>
      have ht := List.pairwise_cons.mp hts
      refine pairwise_orderedInsert (fun u hu => ht.1 u ?_) (ih ht.2)
      exact (List.perm_insertionSort _ ts).mem_iff.mp hu

end YHub
