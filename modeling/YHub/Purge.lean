import YHub.Lib.InsertionMap
import YHub.References

/-!
# What a purge deletes (`persistence.js:264-330`, `persistence.js:431-436`)

`purgeDoc` lists the assets of a room and passes them on to `deleteReferences`. Only the assets find
the rows, so that a column whose marker is not set is listed too, with no asset. `deleteReferences`
collects the clocks in nested maps, by org, docid and branch.

* `purge_complete`: a call that returns has deleted the rows of the room and no others, and has
  handed over the pointers of the marked columns, each once.
* `queries_perm_deleteQuery`: the nested maps come to the statements of `deleteQuery`.
-/

namespace YHub

variable {β : Type}

/-! ## The nested maps -/

/-- The type of `roomsMap`. -/
abbrev RoomsMap : Type :=
  InsertionMap String (InsertionMap String (InsertionMap String (List Clock)))

/-- `Set.add`. -/
def addToSet (t : Clock) (ts : List Clock) : List Clock := if t ∈ ts then ts else ts ++ [t]

namespace RoomsMap

/-- `map.setIfUndefined(map.setIfUndefined(…), branch, set.create).add(t)`. -/
def add (m : RoomsMap) (id : AssetId Clock) : RoomsMap :=
  m.upsert id.room.org .empty fun docs =>
    docs.upsert id.room.docid .empty fun branches =>
      branches.upsert id.room.branch [] (addToSet id.t)

/-- The statements. -/
def queries (m : RoomsMap) : List DeleteQuery :=
  m.entries.flatMap fun docs =>
    docs.2.entries.flatMap fun branches =>
      branches.2.entries.map fun ts => ⟨⟨docs.1, branches.1, ts.1⟩, ts.2⟩

/-- The clocks of a room. -/
def find (m : RoomsMap) (room : Room) : Option (List Clock) :=
  (m.get room.org).bind fun docs => (docs.get room.docid).bind fun branches =>
    branches.get room.branch

theorem mem_queries {m : RoomsMap} {dq : DeleteQuery} :
    dq ∈ m.queries ↔ m.find dq.room = some dq.ts := by
  obtain ⟨⟨org, docid, branch⟩, ts⟩ := dq
  unfold queries find
  simp only [List.mem_flatMap, List.mem_map, Option.bind_eq_some_iff, InsertionMap.get_eq_some]
  constructor
  · rintro ⟨⟨o, docs⟩, ho, ⟨d, branches⟩, hd, ⟨b, ts'⟩, hb, e⟩
    obtain ⟨hroom, rfl⟩ := DeleteQuery.mk.inj e
    obtain ⟨rfl, rfl, rfl⟩ := Room.mk.inj hroom
    exact ⟨docs, ho, branches, hd, hb⟩
  · rintro ⟨docs, ho, branches, hd, hb⟩
    exact ⟨(org, docs), ho, (docid, branches), hd, (branch, ts), hb, rfl⟩

theorem find_add {m : RoomsMap} {id : AssetId Clock} {room : Room} :
    (m.add id).find room =
      if room = id.room then some (addToSet id.t ((m.find room).getD [])) else m.find room := by
  obtain ⟨org, docid, branch⟩ := room
  unfold add find
  rw [InsertionMap.get_upsert]
  by_cases ho : org = id.room.org
  · subst ho
    rw [if_pos rfl, Option.bind_some, InsertionMap.get_upsert]
    by_cases hd : docid = id.room.docid
    · subst hd
      rw [if_pos rfl, Option.bind_some, InsertionMap.get_upsert]
      by_cases hb : branch = id.room.branch
      · subst hb
        rw [if_pos rfl, if_pos rfl]
        cases m.get id.room.org with
        | none => rfl
        | some docs =>
          simp only [Option.getD_some, Option.bind_some]
          cases docs.get id.room.docid <;> rfl
      · rw [if_neg hb, if_neg fun e => hb (congrArg Room.branch e)]
        cases m.get id.room.org with
        | none => rfl
        | some docs =>
          simp only [Option.getD_some, Option.bind_some]
          cases docs.get id.room.docid <;> rfl
    · rw [if_neg hd, if_neg fun e => hd (congrArg Room.docid e)]
      cases m.get id.room.org <;> rfl
  · rw [if_neg ho, if_neg fun e => ho (congrArg Room.org e)]

/-- A room has one statement. -/
theorem nodup_queries (m : RoomsMap) : m.queries.Nodup := by
  unfold queries
  refine List.nodup_flatMap.mpr
    ⟨fun docs _ => List.nodup_flatMap.mpr ⟨fun branches _ => ?_, ?_⟩, ?_⟩
  · refine (List.Nodup.of_map Prod.fst branches.2.nodup).map fun x y e => ?_
    obtain ⟨e, hts⟩ := DeleteQuery.mk.inj e
    exact Prod.ext (Room.mk.inj e).2.2 hts
  · refine (List.pairwise_map.mp docs.2.nodup).imp fun hne => ?_
    rintro dq h h'
    obtain ⟨x, -, rfl⟩ := List.mem_map.mp h
    obtain ⟨y, -, e⟩ := List.mem_map.mp h'
    exact hne (Room.mk.inj (DeleteQuery.mk.inj e).1).2.1.symm
  · refine (List.pairwise_map.mp m.nodup).imp fun hne => ?_
    rintro dq h h'
    obtain ⟨_, -, h⟩ := List.mem_flatMap.mp h
    obtain ⟨_, -, h'⟩ := List.mem_flatMap.mp h'
    obtain ⟨x, -, rfl⟩ := List.mem_map.mp h
    obtain ⟨y, -, e⟩ := List.mem_map.mp h'
    exact hne (Room.mk.inj (DeleteQuery.mk.inj e).1).1.symm

end RoomsMap

/-- `roomsMap`. -/
def roomsMap (references : List (Reference β)) : RoomsMap :=
  references.foldl (fun m ref => m.add ref.1) .empty

/-- The rooms after a reference is added. -/
theorem rooms_addReference (id : AssetId Clock) (dqs : List DeleteQuery) :
    (addReference id dqs).map DeleteQuery.room =
      if id.room ∈ dqs.map DeleteQuery.room then dqs.map DeleteQuery.room
      else dqs.map DeleteQuery.room ++ [id.room] := by
  induction dqs with
  | nil => rfl
  | cons dq dqs ih =>
    unfold addReference
    split
    · rename_i hroom
      simp [hroom]
    · rename_i hroom
      rw [List.map_cons, ih, List.map_cons]
      have hne : id.room ≠ dq.room := fun e => hroom e.symm
      simp only [List.mem_cons, hne, false_or]
      split <;> rfl

/-- The statements after a reference is added. -/
theorem mem_addReference_iff {id : AssetId Clock} {dqs : List DeleteQuery} {dq : DeleteQuery}
    (hnodup : (dqs.map DeleteQuery.room).Nodup) :
    dq ∈ addReference id dqs ↔ dq.room ≠ id.room ∧ dq ∈ dqs ∨ dq.room = id.room ∧
      ((∃ old ∈ dqs, old.room = id.room ∧ dq.ts = addToSet id.t old.ts) ∨
        id.room ∉ dqs.map DeleteQuery.room ∧ dq.ts = [id.t]) := by
  induction dqs with
  | nil =>
    obtain ⟨room, ts⟩ := dq
    simp [addReference]
  | cons first dqs ih =>
    rw [List.map_cons, List.nodup_cons] at hnodup
    unfold addReference
    split
    · rename_i hroom
      have hother : ∀ dq ∈ dqs, dq.room ≠ id.room := fun dq hdq e =>
        hnodup.1 (List.mem_map.mpr ⟨dq, hdq, e.trans hroom.symm⟩)
      rw [List.mem_cons]
      constructor
      · rintro (rfl | h)
        · exact Or.inr ⟨hroom, Or.inl ⟨first, List.mem_cons_self, hroom, rfl⟩⟩
        · exact Or.inl ⟨hother dq h, List.mem_cons_of_mem _ h⟩
      · rintro (⟨hne, h⟩ | ⟨heq, ⟨old, hold, holdroom, hts⟩ | ⟨hnot, -⟩⟩)
        · rcases List.mem_cons.mp h with rfl | h
          · exact absurd hroom hne
          · exact Or.inr h
        · rcases List.mem_cons.mp hold with rfl | hold
          · obtain ⟨room, ts⟩ := dq
            obtain rfl : room = id.room := heq
            refine Or.inl ?_
            rw [← hroom]
            exact congrArg (DeleteQuery.mk old.room) hts
          · exact absurd holdroom (hother old hold)
        · exact absurd (by rw [List.map_cons, hroom]; exact List.mem_cons_self) hnot
    · rename_i hroom
      have hne : id.room ≠ first.room := fun e => hroom e.symm
      rw [List.mem_cons, ih hnodup.2]
      simp only [List.mem_cons, List.map_cons, exists_eq_or_imp, hroom, hne, false_and, false_or]
      constructor
      · rintro (rfl | ⟨hne, h⟩ | h)
        · exact Or.inl ⟨hroom, Or.inl rfl⟩
        · exact Or.inl ⟨hne, Or.inr h⟩
        · exact Or.inr h
      · rintro (⟨hne, rfl | h⟩ | h)
        · exact Or.inl rfl
        · exact Or.inr (Or.inl ⟨hne, h⟩)
        · exact Or.inr (Or.inr h)

/-- The flat list and the nested maps have the same statements. -/
structure SameQueries (m : RoomsMap) (dqs : List DeleteQuery) : Prop where
  nodup : (dqs.map DeleteQuery.room).Nodup
  mem : ∀ dq, dq ∈ dqs ↔ m.find dq.room = some dq.ts

theorem SameQueries.add {m : RoomsMap} {dqs : List DeleteQuery} (h : SameQueries m dqs)
    (id : AssetId Clock) : SameQueries (m.add id) (addReference id dqs) where
  nodup := by
    rw [rooms_addReference]
    split
    · exact h.nodup
    · rename_i hnew
      rw [← List.concat_eq_append]
      exact h.nodup.concat hnew
  mem dq := by
    rw [mem_addReference_iff h.nodup, RoomsMap.find_add]
    have hfind : id.room ∈ dqs.map DeleteQuery.room ↔ ∃ ts, m.find id.room = some ts := by
      rw [List.mem_map]
      constructor
      · rintro ⟨old, hold, e⟩
        exact ⟨old.ts, e ▸ (h.mem old).mp hold⟩
      · rintro ⟨ts, hts⟩
        exact ⟨⟨id.room, ts⟩, (h.mem _).mpr hts, rfl⟩
    by_cases hroom : dq.room = id.room
    · rw [if_pos hroom, hroom]
      simp only [ne_eq, not_true, false_and, false_or, true_and, Option.some.injEq]
      cases hold : m.find id.room with
      | none =>
        have hnot : id.room ∉ dqs.map DeleteQuery.room := by
          rw [hfind, hold]
          rintro ⟨ts, hts⟩
          exact absurd hts (by simp)
        constructor
        · rintro (⟨old, hmem, e, -⟩ | ⟨-, hts⟩)
          · exact absurd (List.mem_map.mpr ⟨old, hmem, e⟩) hnot
          · exact hts.symm
        · exact fun hts => Or.inr ⟨hnot, hts.symm⟩
      | some ts =>
        constructor
        · rintro (⟨old, hmem, e, hts⟩ | ⟨hnot, -⟩)
          · have hts' := (h.mem old).mp hmem
            rw [e, hold] at hts'
            obtain rfl := Option.some.inj hts'
            exact hts.symm
          · exact absurd (hfind.mpr ⟨ts, hold⟩) hnot
        · exact fun hts => Or.inl ⟨⟨id.room, ts⟩, (h.mem _).mpr hold, rfl, hts.symm⟩
    · rw [if_neg hroom]
      simp only [hroom, ne_eq, not_false_iff, true_and, false_and, or_false]
      exact h.mem dq

/-- **The nested maps come to the statements of `deleteQuery`.** -/
theorem queries_perm_deleteQuery (references : List (Reference β)) :
    (roomsMap references).queries.Perm (deleteQuery references) := by
  have hfold : ∀ (m : RoomsMap) (dqs : List DeleteQuery), SameQueries m dqs →
      SameQueries (references.foldl (fun m ref => m.add ref.1) m)
        (references.foldl (fun dqs ref => addReference ref.1 dqs) dqs) := by
    induction references with
    | nil => exact fun m dqs h => h
    | cons ref references ih => exact fun m dqs h => ih _ _ (h.add ref.1)
  have hsame : SameQueries (roomsMap references) (deleteQuery references) :=
    hfold .empty [] ⟨List.nodup_nil, fun dq => by simp [RoomsMap.find]⟩
  refine (List.perm_ext_iff_of_nodup (RoomsMap.nodup_queries _) (hsame.nodup.of_map _)).mpr ?_
  intro dq
  rw [RoomsMap.mem_queries, hsame.mem]

/-! ## The purge -/

/-- What `purgeDoc` passes on, from the rows in the order in which they are returned. -/
def purgeListed (sort : ClockSort) (room : Room) (tombstone : Option Tombstone)
    (rows : List (Row β)) : List (Reference β) :=
  (retrieveAssets sort room purgeInclude true tombstone rows).assets

/-- The pointers of a row whose marker is set. -/
def markedPointers (room : Room) (row : Row β) : List (AssetId Clock × Asset β) :=
  AssetColumn.all.filterMap fun col =>
    match row.isReference col, row.asset col with
    | true, some (.retrievable q) => some (col.assetId room row.t, .retrievable q)
    | _, _ => none

section Purge

variable {plugins : List (Plugin β)} {deletes : Plugin β → Bool} {references : List (Reference β)}
  {table : Table β} {objects : Objects β} {S S' : Storage β}

/-- Every column of every row is listed. -/
theorem purgeListed_eq (sort : ClockSort) (room : Room) (tombstone : Option Tombstone)
    (rows : List (Row β)) : purgeListed sort room tombstone rows =
      rows.flatMap fun row => AssetColumn.all.map fun col =>
        (col.assetId room row.t, if row.isReference col then row.asset col else none) := by
  unfold purgeListed retrieveAssets
  refine List.flatMap_congr fun row _ => ?_
  show (AssetColumn.all.filter (·.included purgeInclude)).map _ = _
  rw [List.filter_eq_self.mpr fun col _ => by cases col <;> rfl]
  refine List.map_congr_left fun col _ => ?_
  cases row.isReference col <;> rfl

/-- A listed column is handed over if it is a marked pointer. -/
theorem handedOver_listed (room : Room) (row : Row β) :
    (AssetColumn.all.map fun col => ((col.assetId room row.t,
        if row.isReference col then row.asset col else none) : Reference β)).flatMap
      (handedOver plugins deletes) =
        if plugins.any deletes then markedPointers room row else [] := by
  have hcol : ∀ col : AssetColumn, handedOver plugins deletes (col.assetId room row.t,
      if row.isReference col then row.asset col else none) =
        if plugins.any deletes then
          (match row.isReference col, row.asset col with
            | true, some (.retrievable q) => some (col.assetId room row.t, Asset.retrievable q)
            | _, _ => none).toList
        else [] := by
    intro col
    unfold handedOver
    cases row.isReference col with
    | false => simp
    | true =>
      rcases row.asset col with _ | asset
      · simp
      · cases asset <;> simp
  rw [List.flatMap_map]
  simp only [hcol]
  unfold markedPointers
  split
  · rw [List.filterMap_eq_flatMap_toList]
  · exact List.flatMap_eq_nil_iff.mpr fun _ _ => rfl

/-- **What a purge hands over.** -/
theorem handedOver_purgeListed (sort : ClockSort) (room : Room) (tombstone : Option Tombstone)
    (rows : List (Row β)) :
    (purgeListed sort room tombstone rows).flatMap (handedOver plugins deletes) =
      if plugins.any deletes then rows.flatMap (markedPointers room) else [] := by
  rw [purgeListed_eq, List.flatMap_assoc]
  simp only [handedOver_listed]
  split
  · rfl
  · exact List.flatMap_eq_nil_iff.mpr fun _ _ => rfl

/-- What has been handed over, where a call is. -/
def HandedSoFar (plugins : List (Plugin β)) (deletes : Plugin β → Bool)
    (references : List (Reference β)) (handed : List (AssetId Clock × Asset β)) :
    DeleteCall β → Prop
  | .handing rest => handed ++ rest.flatMap (handedOver plugins deletes) =
      references.flatMap (handedOver plugins deletes)
  | .crashed => True
  | _ => handed = references.flatMap (handedOver plugins deletes)

/-- The step lemma. -/
theorem HandedSoFar.step (h : HandedSoFar plugins deletes references S.handed S.call)
    (hs : DeleteStep plugins deletes references S S') :
    HandedSoFar plugins deletes references S'.handed S'.call := by
  cases hs with
  | hand ref rest hcall =>
    rw [hcall] at h
    have h : S.handed ++ (ref :: rest).flatMap (handedOver plugins deletes) = _ := h
    rw [List.flatMap_cons, ← List.append_assoc] at h
    exact h
  | send hcall =>
    rw [hcall] at h
    have h : S.handed ++ [] = _ := h
    rw [List.append_nil] at h
    exact h
  | delete before after dq failed hcall =>
    rw [hcall] at h
    exact h
  | deleteFails before after dq failed hcall =>
    rw [hcall] at h
    exact h
  | returned hcall =>
    rw [hcall] at h
    exact h
  | crash => trivial
  | remove before after o hpending => exact h
  | removeFails before after o hpending => exact h

/-- A call that returns has handed over what it was given. -/
theorem handed_of_run
    (h : DeleteRun plugins deletes references (.start references table objects) S)
    (hret : S.call = .returned) : S.handed = references.flatMap (handedOver plugins deletes) := by
  have hso : HandedSoFar plugins deletes references S.handed S.call := by
    clear hret
    induction h with
    | refl => exact List.nil_append _
    | tail _ hstep ih => exact ih.step hstep
  rw [hret] at hso
  exact hso

/-- If no statement fails, the call returns. -/
theorem returned_of_deleting {S₀ : Storage β} (todo : List DeleteQuery)
    (h : DeleteRun plugins deletes references S₀ S) (hcall : S.call = .deleting todo false) :
    ∃ S', DeleteRun plugins deletes references S₀ S' ∧ S'.call = .returned := by
  induction todo generalizing S with
  | nil => exact ⟨_, h.tail (.returned S hcall), rfl⟩
  | cons dq todo ih => exact ih (h.tail (.delete S [] todo dq false hcall)) rfl

theorem exists_returned (plugins : List (Plugin β)) (deletes : Plugin β → Bool)
    (references : List (Reference β)) (table : Table β) (objects : Objects β) :
    ∃ S, DeleteRun plugins deletes references (.start references table objects) S ∧
      S.call = .returned := by
  have hstart : (Storage.start references table objects).call = .handing (references ++ []) :=
    congrArg DeleteCall.handing (List.append_nil references).symm
  have hrefl : DeleteRun plugins deletes references (.start references table objects)
      (.start references table objects) := Relation.ReflTransGen.refl
  obtain ⟨S, hrun, hcall, -⟩ := handing_run references hrefl hstart
  exact returned_of_deleting _ (hrun.tail (.send S hcall)) rfl

variable (plugins deletes table objects) in
/-- **A purge is complete, and local to the room**, whatever is in the table. A call returns unless
a statement fails; then the rows of the room are gone, those of the other rooms are what they were,
and the plugins were handed the pointers of the room whose marker is set. -/
theorem purge_complete (sort : ClockSort) (room : Room) (tombstone : Option Tombstone)
    {rows : List (Row β)} (hrows : rows.Perm (table room)) :
    (∃ S, DeleteRun plugins deletes (purgeListed sort room tombstone rows)
      (.start (purgeListed sort room tombstone rows) table objects) S ∧ S.call = .returned) ∧
    ∀ S, DeleteRun plugins deletes (purgeListed sort room tombstone rows)
        (.start (purgeListed sort room tombstone rows) table objects) S → S.call = .returned →
      S.table room = [] ∧ (∀ other, other ≠ room → S.table other = table other) ∧
      S.handed = if plugins.any deletes then rows.flatMap (markedPointers room) else [] := by
  refine ⟨exists_returned .., fun S hrun hret => ⟨?_, fun other hother => ?_, ?_⟩⟩
  · rw [deleteReferences_of_run hrun hret]
    refine List.filter_eq_nil_iff.mpr fun row hrow => ?_
    have hlisted : ∃ ref ∈ purgeListed sort room tombstone rows,
        ref.1.room = room ∧ ref.1.t = row.t := by
      rw [purgeListed_eq]
      refine ⟨(AssetColumn.gcdoc.assetId room row.t, _), List.mem_flatMap.mpr
        ⟨row, hrows.mem_iff.mpr hrow, List.mem_map.mpr ⟨.gcdoc, AssetColumn.mem_all _, rfl⟩⟩,
        rfl, rfl⟩
    simpa using hlisted
  · rw [deleteReferences_of_run hrun hret]
    refine List.filter_eq_self.mpr fun row hrow => decide_eq_true ?_
    rintro ⟨ref, href, hroom, -⟩
    rw [purgeListed_eq] at href
    obtain ⟨row', -, href⟩ := List.mem_flatMap.mp href
    obtain ⟨col, -, rfl⟩ := List.mem_map.mp href
    exact hother (hroom.symm.trans (AssetColumn.assetId_room room row'.t col))
  · rw [handed_of_run hrun hret, handedOver_purgeListed]

end Purge

/-- A row from before the markers, and one whose assets are inline. -/
def mixedRows : List (Row RefPayload) :=
  [pointers, ⟨.id ⟨2000, 0⟩, fun _ => some (.ydoc (.doc [7])), fun _ => true⟩,
    ⟨.id ⟨3000, 0⟩, fun _ => some (.ydoc (.doc [8])), fun _ => false⟩,
    ⟨.id ⟨4000, 0⟩, fun _ => none, fun _ => true⟩]

theorem purge_complete_of_mixed : ∃ S : Storage RefPayload,
    S.call = .returned ∧ S.table Room.a = [] ∧ S.table Room.b = [pointers] ∧
    S.handed.length = 4 := by
  have h := purge_complete [s3] (fun _ => true)
    (fun room => if room = Room.a then mixedRows else [pointers]) (fun _ => none) insertionSort
    Room.a none (List.Perm.refl mixedRows)
  obtain ⟨⟨S, hrun, hret⟩, hall⟩ := h
  obtain ⟨hroom, hother, hhanded⟩ := hall S hrun hret
  refine ⟨S, hret, hroom, hother Room.b (by decide), ?_⟩
  rw [hhanded]
  rfl

end YHub
