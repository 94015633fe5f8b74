import YHub.ContentFilter

/-!
# What is pruned, reverted and shown (`compute-worker.js:58-131`, `compute-worker.js:274-298`)

The tasks of the compute worker that filter a content map: `computePruneSet`, `rollback` and
`changeset`. Their messages are the structures here, under the names of the source. The filters of a
message come from the endpoints of `SameFilter.lean`; an absent one is `none`.

* `Rollback.hasId_revertIds`, `Changeset.hasKey_attributions`: what is reverted and what is shown is
  what the filter keeps.
-/

namespace YHub

variable {β : Type}

/-- `s || undefined` -/
def orUndefined (s : String) : Option String := if s = "" then none else some s

/-- `createContentMap`, at the time `now`. -/
def createContentMap (Y : Yjs β) (now : Nat) (contentids : Content Y.IdSet) (userid : String)
    (customAttributions : List KV) : β :=
  let attrs (name : String) : List ContentAttribute :=
    ⟨name, .string userid⟩ :: ⟨name ++ "At", .number now⟩ ::
      customAttributions.map fun attr => ⟨name ++ ":" ++ attr.k, .string attr.v⟩
  Y.encodeContentMap (Y.createContentMapFromContentIds contentids (attrs "insert")
    (attrs "delete"))

/-! ## `computePruneSet` -/

structure ComputePruneSet (β : Type) where
  contentmapBin : β
  from_ : Option JsNumber
  to_ : Option JsNumber
  by_ : Option String
  contentIds : Option β
  withCustomAttributions : Option (List KV)

namespace ComputePruneSet

variable {Y : Yjs β} (A : Attributions Y) (msg : ComputePruneSet β)

def filtered : Content Y.IdMap :=
  filterContentMap A (Y.decodeContentMap msg.contentmapBin) msg.from_ msg.to_ msg.by_
    (msg.contentIds.map Y.decodeContentIds) msg.withCustomAttributions

def run : Option β :=
  let ids := Y.createContentIdsFromContentMap (msg.filtered A)
  let pruneSet := A.intersectSets ids.inserts ids.deletes
  if A.isEmpty pruneSet then none else some (Y.encodeIdSet pruneSet)

end ComputePruneSet

/-! ## `rollback` -/

structure Rollback (β : Type) where
  nongcDoc : β
  contentmapBin : β
  from_ : Option JsNumber
  to_ : Option JsNumber
  by_ : Option String
  contentIds : Option β
  withCustomAttributions : Option (List KV)
  userid : String
  customAttributions : List KV

namespace Rollback

variable {Y : Yjs β} (A : Attributions Y) (msg : Rollback β)

def reducedAttributions : Content Y.IdMap :=
  filterContentMap A (Y.decodeContentMap msg.contentmapBin) msg.from_ msg.to_ msg.by_
    (msg.contentIds.map Y.decodeContentIds) msg.withCustomAttributions

def revertIds : Content Y.IdSet := Y.createContentIdsFromContentMap (msg.reducedAttributions A)

/-- The update that reverts, and its content map. -/
def run (now : Nat) : Option (β × β) :=
  (A.undoContentIds msg.nongcDoc (msg.revertIds A)).map fun update =>
    (update, createContentMap Y now (Y.createContentIdsFromUpdate update) msg.userid
      msg.customAttributions)

end Rollback

/-! ## `changeset` -/

structure Changeset (β : Type) where
  nongcDoc : β
  contentmapBin : β
  from_ : Option JsNumber
  to_ : Option JsNumber
  by_ : String
  withCustomAttributions : Option (List KV)
  includeYdoc : Bool
  includeDelta : Bool
  includeAttributions : Bool

structure ChangesetResponse (β : Type) where
  attributions : Option β
  delta : Option β
  ydoc : Option β

namespace Changeset

variable {Y : Yjs β} (A : Attributions Y) (msg : Changeset β)

def filteredAttributions : Content Y.IdMap :=
  filterContentMap A (Y.decodeContentMap msg.contentmapBin) msg.from_ msg.to_
    (orUndefined msg.by_) none msg.withCustomAttributions

def afterContentIds : Content Y.IdSet :=
  Y.createContentIdsFromContentMap (filterContentMap A (Y.decodeContentMap msg.contentmapBin)
    (some (.ofNat 0)) msg.to_ none none none)

/-- The document at `to`, without the deleted content that is not shown. -/
def doc : β :=
  A.gcIdSet (A.intersectUpdateWithContentIds msg.nongcDoc (msg.afterContentIds A))
    (Y.diffIdSet (msg.afterContentIds A).deletes
      (A.createIdSetFromIdMap (msg.filteredAttributions A).deletes))

def run : ChangesetResponse β where
  attributions :=
    if msg.includeAttributions then some (Y.encodeContentMap (msg.filteredAttributions A)) else none
  delta :=
    if msg.includeDelta then some (A.toDelta (msg.doc A) (msg.filteredAttributions A) none)
    else none
  ydoc := if msg.includeYdoc then some (msg.doc A) else none

end Changeset

/-! ## What the tasks select -/

section Selected

variable [Preorder β] {Y : Yjs β} {A : Attributions Y} {x : Y.ContentId}

/-- **What is reverted.** -/
theorem Rollback.hasId_revertIds (hY : Y.Lawful) (msg : Rollback β) :
    Y.HasId (msg.revertIds A) x ↔ Y.HasKey (msg.reducedAttributions A) x :=
  hY.createContentIds _ x

/-- **What is shown.** -/
theorem Changeset.hasKey_attributions (hY : Y.Lawful) (msg : Changeset β) {b : β}
    (h : (msg.run A).attributions = some b) :
    Y.HasKey (Y.decodeContentMap b) x ↔ Y.HasKey (msg.filteredAttributions A) x := by
  unfold run at h
  simp only at h
  split at h
  · obtain rfl := Option.some.inj h
    exact hY.decode_contentMap_key _ x
  · exact absurd h (by simp)

end Selected

end YHub
