import YHub.Types
import Mathlib.Order.Bounds.Basic

/-!
# The Yjs operations the hub calls

Yjs (`@y/y`) is a dependency: its operations are a parameter `Yjs` of the development, and
`Yjs.Lawful` is what the hub relies on.

* Updates are compared by what they add to a document: `u ≤ v` when integrating `u` into a
  document that has integrated `v` changes nothing. Merging (`y-utils.js`, `mergeUpdates`) is a
  join: garbage collection and pruning replace content by the ids that are known to be deleted,
  and keep the ids.
* A content map assigns attributes (who inserted or deleted it, and when) to content ids, on the
  insert side and on the delete side; the content ids of a document are its domain. A content id
  here is a side and an id (`ContentId`). `exclude` restricts the domain, merging unites.

`yjsRef` implements the parameter with lists, and `yjsRef_lawful` checks that the laws can be met.
-/

namespace YHub

/-- A pair of an insert part and a delete part: `ContentMap`, `ContentIds`. -/
structure Content (α : Type) where
  inserts : α
  deletes : α
  deriving DecidableEq, Repr

/-- The two parts of a `Content`. -/
inductive Side where
  | inserts
  | deletes
  deriving DecidableEq, Repr

/-- The part on a side. -/
def Content.at {α : Type} (c : Content α) : Side → α
  | .inserts => c.inserts
  | .deletes => c.deletes

/-- The value of a content attribute. -/
inductive AttributeValue where
  | number (n : Nat)
  | string (s : String)
  deriving DecidableEq, Repr

/-- `Y.createContentAttribute(name, val)`. -/
structure ContentAttribute where
  name : String
  val : AttributeValue
  deriving DecidableEq, Repr

/-- The Yjs operations on binary payloads `β`, id sets and id maps. -/
structure Yjs (β : Type) where
  /-- The id of a piece of content. -/
  Id : Type
  IdSet : Type
  IdMap : Type
  /-- `computePool.mergeUpdates(gc, updates, _, prune)`. -/
  mergeUpdates : Bool → List β → Option β → β
  decodeContentMap : β → Content IdMap
  encodeContentMap : Content IdMap → β
  decodeContentIds : β → Content IdSet
  encodeContentIds : Content IdSet → β
  decodeIdSet : β → IdSet
  encodeIdSet : IdSet → β
  excludeContentMap : Content IdMap → Content IdSet → Content IdMap
  createContentIdsFromContentMap : Content IdMap → Content IdSet
  /-- `Y.insertIntoIdSet(dest, src)`: the new `dest`. -/
  insertIntoIdSet : IdSet → IdSet → IdSet
  mergeContentIds : List (Content IdSet) → Content IdSet
  mergeContentMaps : List (Content IdMap) → Content IdMap
  mergeIdSets : List IdSet → IdSet
  diffIdMap : IdMap → IdSet → IdMap
  diffIdSet : IdSet → IdSet → IdSet
  createContentIdsFromUpdate : β → Content IdSet
  createContentMapFromContentIds :
    Content IdSet → List ContentAttribute → List ContentAttribute → Content IdMap
  /-- `protocol.mergeAwarenessUpdates`. -/
  mergeAwarenessUpdates : List β → β
  /-- The id is in the set. -/
  mem : IdSet → Id → Prop
  /-- The id is in the domain of the map. -/
  has : IdMap → Id → Prop
  /-- The map gives the attribute to the id. -/
  attr : IdMap → Id → ContentAttribute → Prop

namespace Yjs

variable {β : Type} (Y : Yjs β)

/-- An inserted or a deleted id. -/
abbrev ContentId : Type := Side × Y.Id

/-- The content id is one of the content ids. -/
def HasId (c : Content Y.IdSet) (x : Y.ContentId) : Prop := Y.mem (c.at x.1) x.2

/-- The content id is in the domain of the content map. -/
def HasKey (m : Content Y.IdMap) (x : Y.ContentId) : Prop := Y.has (m.at x.1) x.2

/-- The content map gives the attribute to the content id. -/
def HasAttr (m : Content Y.IdMap) (x : Y.ContentId) (a : ContentAttribute) : Prop :=
  Y.attr (m.at x.1) x.2 a

/-- What the hub relies on. -/
structure Lawful [Preorder β] : Prop where
  mergeUpdates : ∀ gc us prune, IsLUB {u | u ∈ us} (Y.mergeUpdates gc us prune)
  decode_contentMap_key : ∀ m x,
    Y.HasKey (Y.decodeContentMap (Y.encodeContentMap m)) x ↔ Y.HasKey m x
  decode_contentMap_attr : ∀ m x a,
    Y.HasAttr (Y.decodeContentMap (Y.encodeContentMap m)) x a ↔ Y.HasAttr m x a
  decode_contentIds : ∀ c x, Y.HasId (Y.decodeContentIds (Y.encodeContentIds c)) x ↔ Y.HasId c x
  exclude_key : ∀ m c x, Y.HasKey (Y.excludeContentMap m c) x ↔ Y.HasKey m x ∧ ¬ Y.HasId c x
  exclude_attr : ∀ m c x a,
    Y.HasAttr (Y.excludeContentMap m c) x a ↔ Y.HasAttr m x a ∧ ¬ Y.HasId c x
  createContentIds : ∀ m x, Y.HasId (Y.createContentIdsFromContentMap m) x ↔ Y.HasKey m x
  insertInto : ∀ a b i, Y.mem (Y.insertIntoIdSet a b) i ↔ Y.mem a i ∨ Y.mem b i
  mergeContentIds : ∀ cs x, Y.HasId (Y.mergeContentIds cs) x ↔ ∃ c ∈ cs, Y.HasId c x
  mergeContentMaps_key : ∀ ms x, Y.HasKey (Y.mergeContentMaps ms) x ↔ ∃ m ∈ ms, Y.HasKey m x
  mergeContentMaps_attr : ∀ ms x a,
    Y.HasAttr (Y.mergeContentMaps ms) x a ↔ ∃ m ∈ ms, Y.HasAttr m x a
  key_of_attr : ∀ m x a, Y.HasAttr m x a → Y.HasKey m x

end Yjs

/-! ## Merging as a join -/

namespace Yjs.Lawful

variable {β : Type} [Preorder β] {Y : Yjs β}

theorem le_merge (hY : Y.Lawful) {us : List β} {u : β} (hu : u ∈ us) (gc : Bool)
    (prune : Option β) : u ≤ Y.mergeUpdates gc us prune :=
  (hY.mergeUpdates gc us prune).1 hu

theorem merge_le (hY : Y.Lawful) {us : List β} {v : β} (h : ∀ u ∈ us, u ≤ v) (gc : Bool)
    (prune : Option β) : Y.mergeUpdates gc us prune ≤ v :=
  (hY.mergeUpdates gc us prune).2 h

end Yjs.Lawful

/-! ## The laws can be met -/

/-- A payload of the reference implementation: a document as the list of its operations, a content
map, content ids or an id set. -/
inductive RefPayload where
  | doc (ops : List Nat)
  | contentMap (m : Content (List (Nat × List ContentAttribute)))
  | contentIds (c : Content (List Nat))
  | idSet (s : List Nat)
  deriving DecidableEq, Repr

namespace RefPayload

/-- The operations of a document. -/
def ops : RefPayload → List Nat
  | doc ops => ops
  | _ => []

instance : Preorder RefPayload where
  le a b := ∀ o ∈ a.ops, o ∈ b.ops
  le_refl _ _ h := h
  le_trans _ _ _ hab hbc o h := hbc o (hab o h)

instance (a b : RefPayload) : Decidable (a ≤ b) :=
  inferInstanceAs (Decidable (∀ o ∈ a.ops, o ∈ b.ops))

end RefPayload

/-- The reference implementation: sets are lists, and an id map is an association list. -/
def yjsRef : Yjs RefPayload where
  Id := Nat
  IdSet := List Nat
  IdMap := List (Nat × List ContentAttribute)
  mergeUpdates _ us _ := .doc (us.flatMap RefPayload.ops)
  decodeContentMap b := match b with | .contentMap m => m | _ => ⟨[], []⟩
  encodeContentMap m := .contentMap m
  decodeContentIds b := match b with | .contentIds c => c | _ => ⟨[], []⟩
  encodeContentIds c := .contentIds c
  decodeIdSet b := match b with | .idSet s => s | _ => []
  encodeIdSet s := .idSet s
  excludeContentMap m c :=
    ⟨m.inserts.filter (·.1 ∉ c.inserts), m.deletes.filter (·.1 ∉ c.deletes)⟩
  createContentIdsFromContentMap m := ⟨m.inserts.map Prod.fst, m.deletes.map Prod.fst⟩
  insertIntoIdSet a b := a ++ b
  mergeContentIds cs := ⟨cs.flatMap Content.inserts, cs.flatMap Content.deletes⟩
  mergeContentMaps ms := ⟨ms.flatMap Content.inserts, ms.flatMap Content.deletes⟩
  mergeIdSets ss := ss.flatten
  diffIdMap m s := m.filter (·.1 ∉ s)
  diffIdSet a b := a.filter (· ∉ b)
  createContentIdsFromUpdate b := ⟨b.ops, []⟩
  createContentMapFromContentIds c i d :=
    ⟨c.inserts.map (fun x => (x, i)), c.deletes.map (fun x => (x, d))⟩
  mergeAwarenessUpdates bs := .doc (bs.flatMap RefPayload.ops)
  mem s i := i ∈ s
  has m i := ∃ p ∈ m, p.1 = i
  attr m i a := ∃ p ∈ m, p.1 = i ∧ a ∈ p.2

theorem yjsRef_lawful : yjsRef.Lawful where
  mergeUpdates _ us _ := by
    refine ⟨fun u hu o ho => List.mem_flatMap.mpr ⟨u, hu, ho⟩, fun v hv o ho => ?_⟩
    obtain ⟨u, hu, ho⟩ := List.mem_flatMap.mp ho
    exact hv hu o ho
  decode_contentMap_key _ _ := Iff.rfl
  decode_contentMap_attr _ _ _ := Iff.rfl
  decode_contentIds _ _ := Iff.rfl
  exclude_key := by
    rintro m c ⟨_ | _, i⟩
    all_goals
      simp only [Yjs.HasKey, Yjs.HasId, yjsRef, Content.at, List.mem_filter, decide_eq_true_eq]
      constructor
      · rintro ⟨p, ⟨hp, hn⟩, rfl⟩
        exact ⟨⟨p, hp, rfl⟩, hn⟩
      · rintro ⟨⟨p, hp, rfl⟩, hn⟩
        exact ⟨p, ⟨hp, hn⟩, rfl⟩
  exclude_attr := by
    rintro m c ⟨_ | _, i⟩ a
    all_goals
      simp only [Yjs.HasAttr, Yjs.HasId, yjsRef, Content.at, List.mem_filter, decide_eq_true_eq]
      constructor
      · rintro ⟨p, ⟨hp, hn⟩, rfl, ha⟩
        exact ⟨⟨p, hp, rfl, ha⟩, hn⟩
      · rintro ⟨⟨p, hp, rfl, ha⟩, hn⟩
        exact ⟨p, ⟨hp, hn⟩, rfl, ha⟩
  createContentIds := by
    rintro m ⟨_ | _, i⟩ <;> exact List.mem_map
  insertInto _ _ _ := List.mem_append
  mergeContentIds := by
    rintro cs ⟨_ | _, i⟩ <;> exact List.mem_flatMap
  mergeContentMaps_key := by
    rintro ms ⟨_ | _, i⟩
    all_goals
      constructor
      · rintro ⟨p, hp, rfl⟩
        obtain ⟨m, hm, hp⟩ := List.mem_flatMap.mp hp
        exact ⟨m, hm, p, hp, rfl⟩
      · rintro ⟨m, hm, p, hp, rfl⟩
        exact ⟨p, List.mem_flatMap.mpr ⟨m, hm, hp⟩, rfl⟩
  mergeContentMaps_attr := by
    rintro ms ⟨_ | _, i⟩ a
    all_goals
      constructor
      · rintro ⟨p, hp, rfl, ha⟩
        obtain ⟨m, hm, hp⟩ := List.mem_flatMap.mp hp
        exact ⟨m, hm, p, hp, rfl, ha⟩
      · rintro ⟨m, hm, p, hp, rfl, ha⟩
        exact ⟨p, List.mem_flatMap.mpr ⟨m, hm, hp⟩, rfl, ha⟩
  key_of_attr := by
    rintro m ⟨_ | _, i⟩ a ⟨p, hp, hi, -⟩ <;> exact ⟨p, hp, hi⟩

end YHub
