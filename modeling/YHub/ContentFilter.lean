import YHub.Yjs
import YHub.Lib.JsNumber
import YHub.Lib.Strings
import Mathlib.Data.List.Dedup

/-!
# Filtering a content map (`compute-worker.js:14-51`)

`filterContentMap` selects the content that a rollback, a prune, a changeset or an activity request
is about: by a window of time, by an author, by content ids and by custom attributions. Content is
kept or dropped by its attributes alone, whether it was inserted or deleted. A filter that is
absent, empty or `0` does not open the gate in front of the filtering; once the gate is open, the
filters that are present are applied.

The Yjs operations on attributions are a parameter, as those of `Yjs.lean` are.

* `attrsAt_filterContentMap`: what is kept.
-/

namespace YHub

variable {β : Type}

/-- A custom attribution. -/
structure KV where
  k : String
  v : String
  deriving DecidableEq, Repr

/-- A range of an id map. -/
structure AttrRange (Id : Type) where
  ids : List Id
  attrs : List ContentAttribute

/-- The Yjs operations on attributions. -/
structure Attributions (Y : Yjs β) where
  /-- The attributes of the range that the id is in. -/
  attrs : Y.IdMap → Y.Id → Option (List ContentAttribute)
  /-- The ranges, in the order of `forEach`. -/
  ranges : Y.IdMap → List (AttrRange Y.Id)
  filterContentMap : Content Y.IdMap → (List ContentAttribute → Bool) →
    (List ContentAttribute → Bool) → Content Y.IdMap
  intersectContentMap : Content Y.IdMap → Content Y.IdSet → Content Y.IdMap
  intersectSets : Y.IdSet → Y.IdSet → Y.IdSet
  /-- `set.clients.size === 0` -/
  isEmpty : Y.IdSet → Bool
  createIdSetFromIdMap : Y.IdMap → Y.IdSet
  intersectUpdateWithContentIds : β → Content Y.IdSet → β
  /-- `Y.gcIdSet` on a document with the update. -/
  gcIdSet : β → Y.IdSet → β
  /-- `Y.undoContentIds` on a document with the update: the update it makes, if any. -/
  undoContentIds : β → Content Y.IdSet → Option β
  /-- `toDelta({ renderer })` on a document with the update; `renderedContent` is an option. -/
  toDelta : β → Content Y.IdMap → Option Y.IdSet → β

namespace Attributions

variable {Y : Yjs β} (A : Attributions Y)

/-- The attributes of a content id. -/
def attrsAt (m : Content Y.IdMap) (x : Y.ContentId) : Option (List ContentAttribute) :=
  A.attrs (m.at x.1) x.2

/-- What the filters rely on. -/
structure Lawful : Prop where
  has_iff : ∀ m i, Y.has m i ↔ ∃ as, A.attrs m i = some as
  ranges : ∀ m i as, A.attrs m i = some as ↔ ∃ r ∈ A.ranges m, i ∈ r.ids ∧ r.attrs = as
  ranges_ne_nil : ∀ m, ∀ r ∈ A.ranges m, r.ids ≠ []
  filterContentMap : ∀ m p x, A.attrsAt (A.filterContentMap m p p) x = (A.attrsAt m x).filter p
  intersectContentMap : ∀ m c x as, A.attrsAt (A.intersectContentMap m c) x = some as ↔
    A.attrsAt m x = some as ∧ Y.HasId c x
  intersectSets : ∀ a b i, Y.mem (A.intersectSets a b) i ↔ Y.mem a i ∧ Y.mem b i
  isEmpty : ∀ s, A.isEmpty s = true ↔ ∀ i, ¬ Y.mem s i
  createIdSetFromIdMap : ∀ m i, Y.mem (A.createIdSetFromIdMap m) i ↔ Y.has m i
  intersectUpdate : ∀ u c x, Y.HasId (Y.createContentIdsFromUpdate
    (A.intersectUpdateWithContentIds u c)) x ↔
      Y.HasId (Y.createContentIdsFromUpdate u) x ∧ Y.HasId c x
  gcIdSet : ∀ u s x, Y.HasId (Y.createContentIdsFromUpdate (A.gcIdSet u s)) x ↔
    Y.HasId (Y.createContentIdsFromUpdate u) x

variable {A}

theorem Lawful.hasKey_iff (hA : A.Lawful) (m : Content Y.IdMap) (x : Y.ContentId) :
    Y.HasKey m x ↔ ∃ as, A.attrsAt m x = some as :=
  hA.has_iff _ _

end Attributions

/-! ## The attributes -/

namespace ContentAttribute

/-- `(attr.name === 'insertAt' || …) && (from == null || attr.val >= from) && …`; the timestamps of
the hub are numbers. -/
def inWindow (from_ to_ : Option JsNumber) (attr : ContentAttribute) : Bool :=
  (attr.name = "insertAt" || attr.name = "deleteAt") &&
    match attr.val with
    | .number v => from_.all (fun x => x.le (.ofNat v)) && to_.all fun x => (JsNumber.ofNat v).le x
    | .string _ => false

/-- `(attr.name === 'insert' || …) && (attr.val).split(',').includes(by)`; the authors of the hub
are strings. -/
def isBy (by_ : String) (attr : ContentAttribute) : Bool :=
  (attr.name = "insert" || attr.name = "delete") &&
    match attr.val with
    | .number _ => false
    | .string s => by_ ∈ split ',' s

/-- The attribute is the custom attribution. -/
def isCustom (customAttr : KV) (attr : ContentAttribute) : Bool :=
  if ["insert:", "delete:"].any fun p => p.toList.isPrefixOf attr.name.toList then
    String.ofList (attr.name.toList.drop 7) = customAttr.k && attr.val = .string customAttr.v
  else false

end ContentAttribute

/-- The callback of `filterContentMap`. -/
def attrFilter (from_ to_ : Option JsNumber) (by_ : Option String)
    (customAttributions : Option (List KV)) (attrs : List ContentAttribute) : Bool :=
  if (from_.any JsNumber.truthy || to_.any JsNumber.truthy) &&
      !attrs.any (ContentAttribute.inWindow from_ to_) then false
  else if by_.any fun user => !attrs.any (ContentAttribute.isBy user) then false
  else if customAttributions.any fun kvs =>
      !kvs.all fun kv => attrs.any (ContentAttribute.isCustom kv) then false
  else true

/-- The condition of the `if` around the filtering. -/
def filters (from_ to_ : Option JsNumber) (by_ : Option String)
    (customAttributions : Option (List KV)) : Bool :=
  from_.any JsNumber.truthy || to_.any JsNumber.truthy || by_.any (· ≠ "") ||
    customAttributions.any (0 < ·.length)

def filterContentMap {Y : Yjs β} (A : Attributions Y) (contentMap : Content Y.IdMap)
    (from_ to_ : Option JsNumber) (by_ : Option String) (requestedIds : Option (Content Y.IdSet))
    (customAttributions : Option (List KV)) : Content Y.IdMap :=
  let contentMap := match requestedIds with
    | none => contentMap
    | some ids => A.intersectContentMap contentMap ids
  if filters from_ to_ by_ customAttributions then
    let attrFilter := attrFilter from_ to_ by_ customAttributions
    A.filterContentMap contentMap attrFilter attrFilter
  else contentMap

/-! ## What is kept -/

/-- Two conditions on a value that may be absent select the same exactly if they agree on it. -/
theorem exists_some_and_iff_congr {α : Type} {o : Option α} {p q : α → Prop} :
    ((∃ a, o = some a ∧ p a) ↔ ∃ a, o = some a ∧ q a) ↔ ∀ a, o = some a → (p a ↔ q a) := by
  cases o with
  | none => simp
  | some a => simp

section Kept

variable {Y : Yjs β} {A : Attributions Y} {m : Content Y.IdMap} {from_ to_ : Option JsNumber}
  {by_ : Option String} {ids : Option (Content Y.IdSet)} {kvs : Option (List KV)}
  {as : List ContentAttribute} {x : Y.ContentId}

/-- The window of time, where there is one. -/
def PassesWindow (from_ to_ : Option JsNumber) (as : List ContentAttribute) : Prop :=
  (from_.any JsNumber.truthy || to_.any JsNumber.truthy) = true →
    ∃ a ∈ as, a.inWindow from_ to_ = true

/-- The custom attributions. -/
def PassesCustom (kvs : Option (List KV)) (as : List ContentAttribute) : Prop :=
  ∀ l, kvs = some l → ∀ kv ∈ l, ∃ a ∈ as, a.isCustom kv = true

/-- The author. -/
def PassesBy (by_ : Option String) (as : List ContentAttribute) : Prop :=
  ∀ user, by_ = some user → ∃ a ∈ as, a.isBy user = true

theorem attrFilter_iff :
    attrFilter from_ to_ by_ kvs as = true ↔
      PassesWindow from_ to_ as ∧ PassesBy by_ as ∧ PassesCustom kvs as := by
  have hwindow : ((from_.any JsNumber.truthy || to_.any JsNumber.truthy) &&
      !as.any (ContentAttribute.inWindow from_ to_)) = false ↔ PassesWindow from_ to_ as := by
    unfold PassesWindow
    cases (from_.any JsNumber.truthy || to_.any JsNumber.truthy) <;> simp
  have hby : (by_.any fun user => !as.any (ContentAttribute.isBy user)) = false ↔
      PassesBy by_ as := by
    unfold PassesBy
    cases by_ <;> simp
  have hcustom : (kvs.any fun kvs => !kvs.all fun kv => as.any (ContentAttribute.isCustom kv)) =
      false ↔ PassesCustom kvs as := by
    unfold PassesCustom
    cases kvs <;> simp
  rw [← hwindow, ← hby, ← hcustom]
  unfold attrFilter
  split_ifs with h₁ h₂ h₃
  · simp [h₁]
  · simp [h₂]
  · simp [h₃]
  · simp [h₁, h₂, h₃]

/-- **What is kept**: the author is asked for only where the gate is open. -/
theorem attrsAt_filterContentMap (hA : A.Lawful) :
    A.attrsAt (filterContentMap A m from_ to_ by_ ids kvs) x = some as ↔
      A.attrsAt m x = some as ∧ (∀ c, ids = some c → Y.HasId c x) ∧ PassesWindow from_ to_ as ∧
        PassesCustom kvs as ∧ (filters from_ to_ by_ kvs = true → PassesBy by_ as) := by
  have hids : A.attrsAt (match ids with | none => m | some ids => A.intersectContentMap m ids) x =
      some as ↔ A.attrsAt m x = some as ∧ ∀ c, ids = some c → Y.HasId c x := by
    cases ids with
    | none => simp
    | some c => simpa using hA.intersectContentMap m c x as
  unfold filterContentMap
  simp only
  cases hf : filters from_ to_ by_ kvs with
  | true =>
    rw [if_pos rfl, hA.filterContentMap, Option.filter_eq_some_iff, hids, attrFilter_iff]
    tauto
  | false =>
    -- the window is not asked for, and there are no custom attributions
    simp only [filters, Bool.or_eq_false_iff] at hf
    obtain ⟨⟨⟨hfrom, hto⟩, -⟩, hkvs⟩ := hf
    have hwindow : PassesWindow from_ to_ as := by simp [PassesWindow, hfrom, hto]
    have hcustom : PassesCustom kvs as := by
      rintro l rfl kv hkv
      have hl : l = [] := by simpa using hkvs
      exact absurd (hl ▸ hkv) List.not_mem_nil
    rw [if_neg Bool.false_ne_true, hids]
    simp [hwindow, hcustom]

end Kept

/-! ## The laws can be met -/

/-- An id map of the reference implementation. -/
abbrev RefIdMap : Type := List (Nat × List ContentAttribute)

namespace RefIdMap

/-- The first entry of the id. -/
def attrs (m : RefIdMap) (i : Nat) : Option (List ContentAttribute) :=
  (m.find? fun e => e.1 = i).map Prod.snd

/-- The entries whose first entry's attributes satisfy `p`. -/
def filterAttrs (p : List ContentAttribute → Bool) (m : RefIdMap) : RefIdMap :=
  m.filter fun e => (m.attrs e.1).any p

theorem attrs_filter (m : RefIdMap) (p : Nat → Bool) (i : Nat) :
    attrs (m.filter fun e => p e.1) i = if p i then attrs m i else none := by
  induction m with
  | nil => simp [attrs]
  | cons e m ih =>
    unfold attrs at ih ⊢
    by_cases he : e.1 = i
    · subst he
      cases hp : p e.1 with
      | true => simp [hp]
      | false => simpa [hp] using ih
    · cases hp : p e.1 with
      | true => simpa [hp, he] using ih
      | false => simpa [hp, he] using ih

theorem attrs_filterAttrs (m : RefIdMap) (p : List ContentAttribute → Bool) (i : Nat) :
    (m.filterAttrs p).attrs i = (m.attrs i).filter p := by
  unfold filterAttrs
  rw [attrs_filter m fun i => (m.attrs i).any p]
  cases m.attrs i with
  | none => rfl
  | some as => rfl

theorem exists_attrs_iff {m : RefIdMap} {i : Nat} :
    (∃ as, m.attrs i = some as) ↔ ∃ e ∈ m, e.1 = i := by
  unfold attrs
  rw [← Option.isSome_iff_exists, Option.isSome_map, List.find?_isSome]
  simp

theorem mem_of_attrs {m : RefIdMap} {i : Nat} {as : List ContentAttribute}
    (h : m.attrs i = some as) : (i, as) ∈ m := by
  obtain ⟨⟨j, as'⟩, he, rfl⟩ := Option.map_eq_some_iff.mp h
  have hj := List.find?_some he
  obtain rfl : j = i := of_decide_eq_true hj
  exact List.mem_of_find?_eq_some he

/-- Every id is a range of its own. -/
def ranges (m : RefIdMap) : List (AttrRange Nat) :=
  (m.map Prod.fst).dedup.map fun i => ⟨[i], (m.attrs i).getD []⟩

theorem attrs_eq_some_iff (m : RefIdMap) (i : Nat) (as : List ContentAttribute) :
    m.attrs i = some as ↔ ∃ r ∈ m.ranges, i ∈ r.ids ∧ r.attrs = as := by
  constructor
  · intro h
    obtain ⟨e, he, rfl⟩ := exists_attrs_iff.mp ⟨as, h⟩
    refine ⟨_, List.mem_map_of_mem (List.mem_dedup.mpr (List.mem_map_of_mem he)), ?_, ?_⟩
    · exact List.mem_singleton_self _
    · simp only [h, Option.getD_some]
  · rintro ⟨r, hr, hi, rfl⟩
    obtain ⟨j, hj, rfl⟩ := List.mem_map.mp hr
    obtain rfl := List.mem_singleton.mp hi
    obtain ⟨e, he, rfl⟩ := List.mem_map.mp (List.mem_dedup.mp hj)
    obtain ⟨as, has⟩ := exists_attrs_iff.mpr ⟨e, he, rfl⟩
    simp only [has, Option.getD_some]

end RefIdMap

/-- The reference implementation. -/
def refAttributions : Attributions yjsRef where
  attrs := RefIdMap.attrs
  ranges := RefIdMap.ranges
  filterContentMap m p q := ⟨RefIdMap.filterAttrs p m.inserts, RefIdMap.filterAttrs q m.deletes⟩
  intersectContentMap (m : Content RefIdMap) (c : Content (List Nat)) :=
    ⟨m.inserts.filter (·.1 ∈ c.inserts), m.deletes.filter (·.1 ∈ c.deletes)⟩
  intersectSets (a b : List Nat) := a.filter (· ∈ b)
  isEmpty (s : List Nat) := s.isEmpty
  createIdSetFromIdMap (m : RefIdMap) := m.map Prod.fst
  intersectUpdateWithContentIds u (c : Content (List Nat)) := .doc (u.ops.filter (· ∈ c.inserts))
  gcIdSet u _ := u
  undoContentIds u (c : Content (List Nat)) :=
    if u.ops.any (· ∈ c.inserts) then some (.doc (u.ops.filter (· ∈ c.inserts))) else none
  toDelta u _ _ := u

theorem RefIdMap.attrs_intersect (m : RefIdMap) (s : List Nat) (i : Nat)
    (as : List ContentAttribute) :
    RefIdMap.attrs (m.filter (·.1 ∈ s)) i = some as ↔ m.attrs i = some as ∧ i ∈ s := by
  rw [RefIdMap.attrs_filter m (fun i => i ∈ s)]
  by_cases hi : i ∈ s
  · simp [hi]
  · simp [hi]

theorem refAttributions_lawful : refAttributions.Lawful where
  has_iff _ _ := RefIdMap.exists_attrs_iff.symm
  ranges := RefIdMap.attrs_eq_some_iff
  ranges_ne_nil m r hr := by
    obtain ⟨i, -, rfl⟩ := List.mem_map.mp hr
    exact List.cons_ne_nil _ _
  filterContentMap := by
    rintro m p ⟨_ | _, i⟩
    · exact RefIdMap.attrs_filterAttrs _ _ _
    · exact RefIdMap.attrs_filterAttrs _ _ _
  intersectContentMap := by
    rintro m c ⟨_ | _, i⟩ as
    · exact RefIdMap.attrs_intersect _ _ _ _
    · exact RefIdMap.attrs_intersect _ _ _ _
  intersectSets (a b : List Nat) (i : Nat) := by
    show i ∈ a.filter (· ∈ b) ↔ i ∈ a ∧ i ∈ b
    rw [List.mem_filter, decide_eq_true_eq]
  isEmpty (s : List Nat) := by
    show s.isEmpty = true ↔ ∀ i, i ∉ s
    rw [List.isEmpty_iff, List.eq_nil_iff_forall_not_mem]
  createIdSetFromIdMap (m : RefIdMap) (i : Nat) := List.mem_map
  intersectUpdate := by
    rintro u (c : Content (List Nat)) ⟨_ | _, (i : Nat)⟩
    · show i ∈ u.ops.filter (· ∈ c.inserts) ↔ i ∈ u.ops ∧ i ∈ c.inserts
      rw [List.mem_filter, decide_eq_true_eq]
    · show i ∈ ([] : List Nat) ↔ i ∈ ([] : List Nat) ∧ i ∈ c.deletes
      simp
  gcIdSet _ _ _ := Iff.rfl

/-- A content map for the runs that show what goes wrong: Alice has inserted one piece of
content. -/
def aliceMap : Content RefIdMap :=
  ⟨[(7, [⟨"insert", .string "alice"⟩, ⟨"insertAt", .number 5⟩])], []⟩

theorem attrsAt_aliceMap {x : yjsRef.ContentId} {as : List ContentAttribute}
    (h : refAttributions.attrsAt aliceMap x = some as) :
    x = (.inserts, (7 : Nat)) ∧ as = [⟨"insert", .string "alice"⟩, ⟨"insertAt", .number 5⟩] := by
  obtain ⟨_ | _, i⟩ := x
  · obtain ⟨rfl, rfl⟩ := Prod.mk.inj (List.mem_singleton.mp (RefIdMap.mem_of_attrs h))
    exact ⟨rfl, rfl⟩
  · have hnone : RefIdMap.attrs [] i = some as := h
    exact absurd (RefIdMap.mem_of_attrs hnone) List.not_mem_nil

end YHub
