import YHub.ContentTasks
import Mathlib.Data.List.Sort

/-!
# The activity of a document (`compute-worker.js:132-260`)

The task `activity`. Every range of the filtered content map that carries a timestamp is an event.
The events are sorted by time, and neighbours of one author are put together as long as the gap
between them and their span stay below the bounds. What is left is reversed if asked for, and cut
off at the limit. The entries share one document, the document at the latest `to` of them.

In the source the list of events and the result share their entries, and an entry is changed in
place when an event is put together with it. Here an entry that others may still be put together
with is the argument `last` of `groupFrom`.

* `maxTo_le_iff`: `maxTo` is the latest `to` of the entries, or `0`.
* `activityResult_eq_nil`: without events there are no entries.
* `maxTo_activityResult`: unless the limit cuts entries off, the latest `to` is that of the events.
-/

namespace YHub

variable {β : Type}

namespace AttributeValue

def number? : AttributeValue → Option Nat
  | .number n => some n
  | .string _ => none

def string? : AttributeValue → Option String
  | .number _ => none
  | .string s => some s

theorem number?_eq_some_iff {v : AttributeValue} {n : Nat} :
    v.number? = some n ↔ v = .number n := by
  cases v <;> simp [number?]

theorem string?_eq_some_iff {v : AttributeValue} {s : String} :
    v.string? = some s ↔ v = .string s := by
  cases v <;> simp [string?]

end AttributeValue

/-! ## Events -/

/-- An entry of `activity`, or of `activityResult`. -/
structure Activity where
  from_ : Nat
  to_ : Nat
  by_ : Option String
  customAttributions : Option (List KV)
  deriving DecidableEq, Repr

namespace Activity

/-- What the callbacks of the two `forEach` collect: `t`, `actBy` and `customAttributions`. -/
structure Collected where
  t : Option Nat
  actBy : Option String
  customAttributions : Option (List KV)

/-- `attrRange.attrs.forEach`; `name` is `insert` or `delete`. -/
def Collected.add (name : String) (c : Collected) (attr : ContentAttribute) : Collected :=
  if attr.name = name ++ "At" then { c with t := attr.val.number? }
  else if attr.name = name then { c with actBy := attr.val.string? }
  else if (name ++ ":").toList.isPrefixOf attr.name.toList then
    { c with customAttributions := c.customAttributions.map fun l =>
        l ++ (attr.val.string?.map (⟨String.ofList (attr.name.toList.drop 7), ·⟩)).toList }
  else c

/-- The event of a range. -/
def ofAttrs (name : String) (includeCustomAttributions : Bool) (attrs : List ContentAttribute) :
    Option Activity :=
  let c := attrs.foldl (Collected.add name)
    ⟨none, none, if includeCustomAttributions then some [] else none⟩
  c.t.map fun t => ⟨t, t, c.actBy, c.customAttributions⟩

/-! ## Grouping -/

/-- The condition under which `act` is put together with `last`. -/
def joins (groupDistance groupMaxDuration : JsNumber) (last act : Activity) : Bool :=
  last.by_ = act.by_ && (JsNumber.ofInt (act.from_ - last.to_)).lt groupDistance &&
    (JsNumber.ofInt (act.to_ - last.from_)).lt groupMaxDuration

def join (last act : Activity) : Activity := { last with
  to_ := act.to_
  customAttributions := last.customAttributions.map (· ++ act.customAttributions.getD []) }

/-- `activity.forEach`, from the entry `last` on. -/
def groupFrom (groupDistance groupMaxDuration : JsNumber) (last : Activity) :
    List Activity → List Activity
  | [] => [last]
  | act :: acts =>
    if joins groupDistance groupMaxDuration last act then
      groupFrom groupDistance groupMaxDuration (last.join act) acts
    else last :: groupFrom groupDistance groupMaxDuration act acts

def groups (groupDistance groupMaxDuration : JsNumber) : List Activity → List Activity
  | [] => []
  | act :: acts => groupFrom groupDistance groupMaxDuration act acts

/-- `uniqueCustomAttrs`; `seen` is the set `unique`. -/
def uniqueCustomAttrs (seen : List String) : List KV → List KV
  | [] => []
  | c :: cs =>
    let uniqueKey := c.k ++ "_" ++ c.v
    if uniqueKey ∈ seen then uniqueCustomAttrs seen cs
    else c :: uniqueCustomAttrs (uniqueKey :: seen) cs

/-- `act.customAttributions = uniqueCustomAttrs` -/
def unique (act : Activity) : Activity := { act with
  customAttributions := some (uniqueCustomAttrs [] (act.customAttributions.getD [])) }

end Activity

/-! ## The task -/

structure ActivityTask (β : Type) where
  nongcDoc : β
  contentmapBin : β
  from_ : JsNumber
  to_ : JsNumber
  by_ : String
  contentIds : Option β
  withCustomAttributions : Option (List KV)
  includeCustomAttributions : Bool
  includeDelta : Bool
  includeYdoc : Bool
  includeAttributions : Bool
  limit : JsNumber
  reverse : Bool
  group : Bool
  groupMaxGap : JsNumber
  groupMaxDuration : JsNumber

/-- An entry of the response. -/
structure ActivityEntry (β : Type) extends Activity where
  delta : Option β
  attributions : Option β
  renderedContent : Option β

structure ActivityResponse (β : Type) where
  ydoc : Option β
  activity : List (ActivityEntry β)

/-- `if (limit > 0) activityResult.splice(limit)` -/
def limited {α : Type} (limit : JsNumber) (l : List α) : List α :=
  if (JsNumber.ofNat 0).lt limit then limit.toIndex.elim l l.take else l

namespace ActivityTask

variable {Y : Yjs β} (A : Attributions Y) (msg : ActivityTask β)

def filteredAttributions : Content Y.IdMap :=
  filterContentMap A (Y.decodeContentMap msg.contentmapBin) (some msg.from_) (some msg.to_)
    (orUndefined msg.by_) (msg.contentIds.map Y.decodeContentIds) msg.withCustomAttributions

/-- `activity`, before it is sorted. -/
def events : List Activity :=
  (A.ranges (msg.filteredAttributions A).inserts).filterMap
      (fun r => Activity.ofAttrs "insert" msg.includeCustomAttributions r.attrs) ++
    (A.ranges (msg.filteredAttributions A).deletes).filterMap
      fun r => Activity.ofAttrs "delete" msg.includeCustomAttributions r.attrs

/-- `activity.sort((a, b) => a.from - b.from)` -/
def sorted : List Activity := (msg.events A).insertionSort fun a b => a.from_ ≤ b.from_

/-- `activityResult` after the grouping. -/
def grouped : List Activity :=
  Activity.groups (if msg.group then msg.groupMaxGap else .ofNat 1) msg.groupMaxDuration
    (msg.sorted A)

/-- `activityResult`. -/
def activityResult : List Activity :=
  let unique :=
    if msg.includeCustomAttributions then (msg.grouped A).map Activity.unique else msg.grouped A
  limited msg.limit (if msg.reverse then unique.reverse else unique)

end ActivityTask

/-- `activityResult.reduce((m, a) => Math.max(m, a.to), 0)` -/
def maxTo (activityResult : List Activity) : Nat :=
  activityResult.foldl (fun m a => max m a.to_) 0

/-- The content ids of the document that the entries share. -/
def docContentIds {Y : Yjs β} (A : Attributions Y) (contentmap : Content Y.IdMap)
    (activityResult : List Activity) : Content Y.IdSet :=
  Y.createContentIdsFromContentMap (filterContentMap A contentmap (some (.ofNat 0))
    (some (.ofNat (maxTo activityResult))) none none none)

namespace ActivityTask

variable {Y : Yjs β} (A : Attributions Y) (msg : ActivityTask β)

/-- `attrs` and `renderedContent` of an entry; the author `null` is left out. -/
def perItem (act : Activity) : Content Y.IdMap × Y.IdSet :=
  let actAttributions := filterContentMap A (msg.filteredAttributions A)
    (some (.ofNat act.from_)) (some (.ofNat act.to_)) none none none
  let attrs := Y.createContentMapFromContentIds (Y.createContentIdsFromContentMap actAttributions)
    ((act.by_.map (⟨"insert", .string ·⟩)).toList ++ [⟨"insertAt", .number act.from_⟩])
    ((act.by_.map (⟨"delete", .string ·⟩)).toList ++ [⟨"deleteAt", .number act.from_⟩])
  let afterContentIds := Y.createContentIdsFromContentMap (filterContentMap A
    (Y.decodeContentMap msg.contentmapBin) (some (.ofNat 0)) (some (.ofNat act.to_)) none none none)
  (attrs, Y.diffIdSet afterContentIds.inserts afterContentIds.deletes)

/-- The document that the entries share. -/
def doc : β :=
  let docContentIds :=
    docContentIds A (Y.decodeContentMap msg.contentmapBin) (msg.activityResult A)
  let doc := A.intersectUpdateWithContentIds msg.nongcDoc docContentIds
  if msg.includeYdoc then
    let keep := Y.mergeIdSets ((msg.activityResult A).map (fun act => (msg.perItem A act).2) ++
      [A.createIdSetFromIdMap (msg.filteredAttributions A).inserts,
        A.createIdSetFromIdMap (msg.filteredAttributions A).deletes])
    A.gcIdSet doc (Y.diffIdSet docContentIds.deletes keep)
  else doc

def run : ActivityResponse β where
  ydoc := if msg.includeYdoc then some (msg.doc A) else none
  activity := (msg.activityResult A).map fun act =>
    { act with
      delta := if msg.includeDelta then
          some (A.toDelta (msg.doc A) (msg.perItem A act).1 (some (msg.perItem A act).2))
        else none
      attributions := if msg.includeAttributions then
          some (Y.encodeContentMap (msg.perItem A act).1)
        else none
      renderedContent := if msg.includeYdoc then
          some (Y.encodeIdSet (msg.perItem A act).2)
        else none }

end ActivityTask

/-! ## The latest `to` -/

theorem maxTo_le_iff {acts : List Activity} {n : Nat} :
    maxTo acts ≤ n ↔ ∀ a ∈ acts, a.to_ ≤ n := by
  have hfold (m : Nat) : acts.foldl (fun m a => max m a.to_) m ≤ n ↔
      m ≤ n ∧ ∀ a ∈ acts, a.to_ ≤ n := by
    induction acts generalizing m with
    | nil => simp
    | cons a acts ih =>
      rw [List.foldl_cons, ih, max_le_iff, and_assoc, List.forall_mem_cons]
  exact (hfold 0).trans (and_iff_right n.zero_le)

/-- `maxTo` is `0` exactly if no entry has another `to`. -/
theorem maxTo_eq_zero_iff {acts : List Activity} : maxTo acts = 0 ↔ ∀ a ∈ acts, a.to_ = 0 := by
  rw [← Nat.le_zero, maxTo_le_iff]
  simp only [Nat.le_zero]

/-- No entry is returned when no filtered content carries a timestamp. -/
theorem activityResult_eq_nil {Y : Yjs β} {A : Attributions Y} {msg : ActivityTask β}
    (h : msg.events A = []) : msg.activityResult A = [] := by
  have hgrouped : msg.grouped A = [] := by
    simp only [ActivityTask.grouped, ActivityTask.sorted, h, List.insertionSort_nil,
      Activity.groups]
  unfold ActivityTask.activityResult limited
  simp only [hgrouped, List.map_nil, List.reverse_nil, ite_self]
  cases msg.limit.toIndex with
  | none => simp
  | some n => simp

/-! ## The entries of the events -/

namespace Activity

variable {groupDistance groupMaxDuration : JsNumber}

theorem length_groupFrom_le (last : Activity) (acts : List Activity) :
    (groupFrom groupDistance groupMaxDuration last acts).length ≤ acts.length + 1 := by
  induction acts generalizing last with
  | nil => exact le_rfl
  | cons act acts ih =>
    unfold groupFrom
    have hjoin := ih (last.join act)
    have hact := ih act
    split <;> simp only [List.length_cons] at * <;> omega

theorem length_groups_le (acts : List Activity) :
    (groups groupDistance groupMaxDuration acts).length ≤ acts.length := by
  cases acts with
  | nil => exact le_rfl
  | cons act acts => exact length_groupFrom_le act acts

/-- An entry ends with the last of its events: no bound on the ends is lost. -/
theorem groupFrom_to_le_iff {last : Activity} {acts : List Activity}
    (h : (last :: acts).Pairwise fun a b => a.to_ ≤ b.to_) {n : Nat} :
    (∀ g ∈ groupFrom groupDistance groupMaxDuration last acts, g.to_ ≤ n) ↔
      ∀ a ∈ last :: acts, a.to_ ≤ n := by
  induction acts generalizing last with
  | nil => rfl
  | cons act acts ih =>
    obtain ⟨hlast, hacts⟩ := List.pairwise_cons.mp h
    unfold groupFrom
    split
    · -- `last` goes on with the end of `act`
      have hjoin : (last.join act :: acts).Pairwise fun a b => a.to_ ≤ b.to_ :=
        List.pairwise_cons.mpr (List.pairwise_cons.mp hacts)
      have hle : last.to_ ≤ act.to_ := hlast act List.mem_cons_self
      rw [ih hjoin]
      simp only [List.forall_mem_cons]
      exact ⟨fun ⟨hact, hrest⟩ => ⟨hle.trans hact, hact, hrest⟩, fun hall => hall.2⟩
    · rw [List.forall_mem_cons, List.forall_mem_cons, ih hacts]

/-- The event of a range is at one time. -/
theorem from_eq_to_of_ofAttrs {name : String} {b : Bool} {as : List ContentAttribute}
    {act : Activity} (h : ofAttrs name b as = some act) : act.from_ = act.to_ := by
  obtain ⟨t, -, rfl⟩ := Option.map_eq_some_iff.mp h
  rfl

end Activity

theorem limited_of_length_le {α : Type} {limit : JsNumber} {l : List α}
    (h : (JsNumber.ofNat 0).lt limit = true → ∀ n, limit.toIndex = some n → l.length ≤ n) :
    limited limit l = l := by
  unfold limited
  split_ifs with hpos
  · cases hn : limit.toIndex with
    | none => rfl
    | some n => exact List.take_of_length_le (h hpos n hn)
  · rfl

theorem limited_sublist {α : Type} (limit : JsNumber) (l : List α) :
    (limited limit l).Sublist l := by
  unfold limited
  split_ifs
  · cases limit.toIndex with
    | none => exact List.Sublist.refl l
    | some n => exact List.take_sublist n l
  · exact List.Sublist.refl l

section Ends

variable {Y : Yjs β} {A : Attributions Y} {msg : ActivityTask β}

theorem ActivityTask.from_eq_to {e : Activity} (h : e ∈ msg.events A) : e.from_ = e.to_ := by
  rcases List.mem_append.mp h with h | h
  · obtain ⟨r, -, hr⟩ := List.mem_filterMap.mp h
    exact Activity.from_eq_to_of_ofAttrs hr
  · obtain ⟨r, -, hr⟩ := List.mem_filterMap.mp h
    exact Activity.from_eq_to_of_ofAttrs hr

/-- The events are in the order of their times. -/
theorem ActivityTask.pairwise_sorted :
    (msg.sorted A).Pairwise fun a b => a.from_ ≤ b.from_ := by
  have : Std.Total fun a b : Activity => a.from_ ≤ b.from_ := ⟨fun a b => le_total a.from_ b.from_⟩
  have : IsTrans Activity fun a b => a.from_ ≤ b.from_ := ⟨fun _ _ _ => le_trans⟩
  exact List.pairwise_insertionSort _ _

theorem ActivityTask.mem_sorted {e : Activity} : e ∈ msg.sorted A ↔ e ∈ msg.events A :=
  List.mem_insertionSort _

theorem ActivityTask.grouped_to_le_iff {n : Nat} :
    (∀ g ∈ msg.grouped A, g.to_ ≤ n) ↔ ∀ e ∈ msg.events A, e.to_ ≤ n := by
  have hsorted : (msg.sorted A).Pairwise fun a b => a.to_ ≤ b.to_ :=
    (pairwise_sorted (A := A)).imp_of_mem fun ha hb h => by
      rwa [← from_eq_to (mem_sorted.mp ha), ← from_eq_to (mem_sorted.mp hb)]
  simp only [← mem_sorted]
  unfold grouped Activity.groups
  cases hs : msg.sorted A with
  | nil => rfl
  | cons act acts =>
    rw [hs] at hsorted
    exact Activity.groupFrom_to_le_iff hsorted

/-- The entries, before the limit cuts some off. -/
def ActivityTask.unlimited (A : Attributions Y) (msg : ActivityTask β) : List Activity :=
  let unique :=
    if msg.includeCustomAttributions then (msg.grouped A).map Activity.unique else msg.grouped A
  if msg.reverse then unique.reverse else unique

/-- The limit cuts no entry off. -/
theorem ActivityTask.activityResult_eq (hlimit : (JsNumber.ofNat 0).lt msg.limit = true →
    ∀ n, msg.limit.toIndex = some n → (msg.events A).length ≤ n) :
    msg.activityResult A = msg.unlimited A := by
  have hgrouped : (msg.grouped A).length ≤ (msg.events A).length :=
    (Activity.length_groups_le _).trans_eq (List.length_insertionSort _ _)
  have hlength : (msg.unlimited A).length = (msg.grouped A).length := by
    unfold unlimited
    simp only
    split_ifs <;> simp
  exact limited_of_length_le fun hpos n hn => hlength.le.trans (hgrouped.trans (hlimit hpos n hn))

/-- Unless the limit cuts entries off, the latest `to` is that of the events. -/
theorem maxTo_activityResult
    (hlimit : ∀ n, msg.limit.toIndex = some n → (msg.events A).length ≤ n) :
    maxTo (msg.activityResult A) = maxTo (msg.events A) := by
  refine eq_of_forall_ge_iff fun n => ?_
  rw [maxTo_le_iff, maxTo_le_iff, ← ActivityTask.grouped_to_le_iff,
    ActivityTask.activityResult_eq fun _ => hlimit]
  unfold ActivityTask.unlimited
  simp only
  split_ifs <;> simp [Activity.unique]

end Ends

end YHub
