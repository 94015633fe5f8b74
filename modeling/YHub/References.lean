import YHub.Site

/-!
# `deleteReferences`, statement by statement (`persistence.js:107-115`, `persistence.js:303-330`)

`deleteReferences` hands every pointer among its references to the plugins for deletion, one after
the other and without waiting, and then sends one `DELETE` for each room, all at once. A plugin
removes the object at once or later. A statement may fail, which does not stop the others, and the
process may crash anywhere; a removal that is under way may get lost.

`Storage` is the rows of all rooms and the objects of the plugins in the course of a call. `handed`
is history: what was handed to a plugin. Not every plugin has a `delete` (`deletes`).

* `deleteReferences_of_run`: a call that returns leaves the rows that no reference names.
* `row_first_iff`: in every state of every run, no row points at something that was handed over, and
  every row has the objects it had, exactly if no reference that is handed over is the pointer of a
  row (`Current`).
* `asset_first`: the removal of an object takes place, and the `DELETE` fails.
-/

namespace YHub

variable {β : Type}

/-! ## The statements -/

/-- An entry of `deleteQuery`. -/
structure DeleteQuery where
  room : Room
  ts : List Clock
  deriving DecidableEq, Repr

/-- A reference is added to `roomsMap`: the clocks of a room are a set. -/
def addReference (id : AssetId Clock) : List DeleteQuery → List DeleteQuery
  | [] => [⟨id.room, [id.t]⟩]
  | dq :: dqs =>
    if dq.room = id.room then
      { dq with ts := if id.t ∈ dq.ts then dq.ts else dq.ts ++ [id.t] } :: dqs
    else dq :: addReference id dqs

/-- `deleteQuery`; they are sent together, so that their order does not matter. -/
def deleteQuery (references : List (Reference β)) : List DeleteQuery :=
  references.foldl (fun dqs ref => addReference ref.1 dqs) []

/-- The rows of all rooms. -/
abbrev Table (β : Type) : Type := Room → List (Row β)

/-- `DELETE FROM yhub_ydoc_v1`. -/
def DeleteQuery.exec (dq : DeleteQuery) (table : Table β) : Table β := fun room =>
  if dq.room = room then (table room).filter fun row => row.t ∉ dq.ts else table room

/-! ## The call -/

/-- Where a `deleteReferences` call is. -/
inductive DeleteCall (β : Type) where
  | handing (rest : List (Reference β))
  | deleting (todo : List DeleteQuery) (failed : Bool)
  | returned
  | crashed

structure Storage (β : Type) where
  table : Table β
  objects : Objects β
  /-- The removals that are under way. -/
  pending : List ObjectId
  handed : List (AssetId Clock × Asset β)
  call : DeleteCall β

/-- A call that begins. -/
def Storage.start (references : List (Reference β)) (table : Table β) (objects : Objects β) :
    Storage β :=
  ⟨table, objects, [], [], .handing references⟩

section Call

variable (plugins : List (Plugin β)) (deletes : Plugin β → Bool) (references : List (Reference β))

/-- What `tryPersistencePluginDelete` hands to a plugin. -/
def handedOver (ref : Reference β) : List (AssetId Clock × Asset β) :=
  match ref.2 with
  | some (.retrievable q) => if plugins.any deletes then [(ref.1, .retrievable q)] else []
  | _ => []

/-- One step. -/
inductive DeleteStep : Storage β → Storage β → Prop
  | hand (S : Storage β) (ref : Reference β) (rest : List (Reference β))
      (h : S.call = .handing (ref :: rest)) :
      DeleteStep S { S with
        handed := S.handed ++ handedOver plugins deletes ref
        pending := S.pending ++ scheduledRemovals (plugins.filter deletes) [ref]
        call := .handing rest }
  | send (S : Storage β) (h : S.call = .handing []) :
      DeleteStep S { S with call := .deleting (deleteQuery references) false }
  | delete (S : Storage β) (before after : List DeleteQuery) (dq : DeleteQuery) (failed : Bool)
      (h : S.call = .deleting (before ++ dq :: after) failed) :
      DeleteStep S { S with
        table := dq.exec S.table
        call := .deleting (before ++ after) failed }
  | deleteFails (S : Storage β) (before after : List DeleteQuery) (dq : DeleteQuery) (failed : Bool)
      (h : S.call = .deleting (before ++ dq :: after) failed) :
      DeleteStep S { S with call := .deleting (before ++ after) true }
  | returned (S : Storage β) (h : S.call = .deleting [] false) :
      DeleteStep S { S with call := .returned }
  | crash (S : Storage β) : DeleteStep S { S with call := .crashed }
  | remove (S : Storage β) (before after : List ObjectId) (o : ObjectId)
      (h : S.pending = before ++ o :: after) :
      DeleteStep S { S with
        objects := Function.update S.objects o none
        pending := before ++ after }
  | removeFails (S : Storage β) (before after : List ObjectId) (o : ObjectId)
      (h : S.pending = before ++ o :: after) : DeleteStep S { S with pending := before ++ after }

abbrev DeleteRun : Storage β → Storage β → Prop :=
  Relation.ReflTransGen (DeleteStep plugins deletes references)

/-- A reference that is handed over is the pointer of a row. -/
def Current (table : Table β) (ref : Reference β) : Prop :=
  plugins.any deletes = true ∧ ∃ room, ∃ row ∈ table room, ∃ (col : AssetColumn) (q : String),
    row.asset col = some (.retrievable q) ∧ ref = (col.assetId room row.t, some (.retrievable q))

end Call

namespace Storage

/-- No row points at an asset that was handed to a plugin for deletion. -/
def RowFirst (S : Storage β) : Prop :=
  ∀ room, ∀ row ∈ S.table room, ∀ (col : AssetColumn) (q : String),
    row.asset col = some (.retrievable q) → (col.assetId room row.t, .retrievable q) ∉ S.handed

/-- The pointers have the objects they had. -/
def Present (objects : Objects β) (S : Storage β) : Prop :=
  ∀ room, ∀ row ∈ S.table room, ∀ (col : AssetColumn) (q : String),
    row.asset col = some (.retrievable q) →
      S.objects (q, col.assetId room row.t) = objects (q, col.assetId room row.t)

end Storage

/-! ## What a call deletes -/

theorem mem_addReference {id : AssetId Clock} {dqs : List DeleteQuery} {room : Room} {t : Clock} :
    (∃ dq ∈ addReference id dqs, dq.room = room ∧ t ∈ dq.ts) ↔
      (id.room = room ∧ id.t = t) ∨ ∃ dq ∈ dqs, dq.room = room ∧ t ∈ dq.ts := by
  induction dqs with
  | nil => simp [addReference, eq_comm]
  | cons dq dqs ih =>
    unfold addReference
    split
    · rename_i hroom
      simp only [List.mem_cons, exists_eq_or_imp]
      by_cases ht : id.t ∈ dq.ts
      · rw [if_pos ht]
        constructor
        · exact Or.inr
        · rintro (⟨hr, rfl⟩ | h)
          · exact Or.inl ⟨hroom.trans hr, ht⟩
          · exact h
      · rw [if_neg ht]
        simp only [List.mem_append, List.mem_singleton, hroom]
        constructor
        · rintro (⟨hr, h | rfl⟩ | h)
          · exact Or.inr (Or.inl ⟨hr, h⟩)
          · exact Or.inl ⟨hr, rfl⟩
          · exact Or.inr (Or.inr h)
        · rintro (⟨hr, rfl⟩ | ⟨hr, h⟩ | h)
          · exact Or.inl ⟨hr, Or.inr rfl⟩
          · exact Or.inl ⟨hr, Or.inl h⟩
          · exact Or.inr h
    · simp only [List.mem_cons, exists_eq_or_imp]
      rw [ih]
      tauto

/-- **The statements delete what the references name.** -/
theorem mem_deleteQuery {references : List (Reference β)} {room : Room} {t : Clock} :
    (∃ dq ∈ deleteQuery references, dq.room = room ∧ t ∈ dq.ts) ↔
      ∃ ref ∈ references, ref.1.room = room ∧ ref.1.t = t := by
  have key : ∀ dqs, (∃ dq ∈ references.foldl (fun dqs ref => addReference ref.1 dqs) dqs,
      dq.room = room ∧ t ∈ dq.ts) ↔
      (∃ ref ∈ references, ref.1.room = room ∧ ref.1.t = t) ∨
        ∃ dq ∈ dqs, dq.room = room ∧ t ∈ dq.ts := by
    induction references with
    | nil => simp
    | cons ref references ih =>
      intro dqs
      rw [List.foldl_cons, ih, mem_addReference]
      simp only [List.mem_cons, exists_eq_or_imp]
      rw [or_left_comm, or_assoc]
  unfold deleteQuery
  rw [key]
  simp

section Runs

variable {plugins : List (Plugin β)} {deletes : Plugin β → Bool} {references : List (Reference β)}
  {table : Table β} {objects : Objects β} {S S' : Storage β}

/-- The rows, as long as no statement has failed: some of the statements have been executed. -/
def Deleted (references : List (Reference β)) (table now : Table β) : DeleteCall β → Prop
  | .handing _ => now = table
  | .deleting todo failed => failed = false → ∃ done, (done ++ todo).Perm (deleteQuery references) ∧
      ∀ room, now room =
        (table room).filter fun row => ¬ ∃ dq ∈ done, dq.room = room ∧ row.t ∈ dq.ts
  | .returned => ∀ room, now room = deleteReferences room references (table room)
  | .crashed => True

theorem Deleted.step (h : Deleted references table S.table S.call)
    (hs : DeleteStep plugins deletes references S S') :
    Deleted references table S'.table S'.call := by
  cases hs with
  | hand ref rest hcall =>
    rw [hcall] at h
    exact h
  | send hcall =>
    rw [hcall] at h
    have htable : S.table = table := h
    intro _
    refine ⟨[], List.Perm.refl _, fun room => ?_⟩
    rw [htable]
    simp
  | delete before after dq failed hcall =>
    rw [hcall] at h
    intro hf
    obtain ⟨done, hperm, hrows⟩ := h hf
    refine ⟨done ++ [dq], ?_, fun room => ?_⟩
    · refine List.Perm.trans ?_ hperm
      rw [List.append_assoc, List.singleton_append]
      exact List.perm_middle.symm.append_left done
    · have hdone : ∀ t, (∃ dq' ∈ done ++ [dq], dq'.room = room ∧ t ∈ dq'.ts) ↔
          (∃ dq' ∈ done, dq'.room = room ∧ t ∈ dq'.ts) ∨ dq.room = room ∧ t ∈ dq.ts := by
        intro t
        simp only [List.mem_append, List.mem_singleton, or_and_right, exists_or, exists_eq_left]
      show dq.exec S.table room = _
      unfold DeleteQuery.exec
      simp only [hdone, hrows room]
      split
      · rename_i hroom
        rw [List.filter_filter]
        refine List.filter_congr fun row _ => ?_
        rw [← Bool.decide_and, decide_eq_decide, not_or, and_comm]
        exact and_congr Iff.rfl (by simp [hroom])
      · rename_i hroom
        refine List.filter_congr fun row _ => ?_
        rw [decide_eq_decide, not_or]
        exact ⟨fun h => ⟨h, fun h' => hroom h'.1⟩, And.left⟩
  | deleteFails before after dq failed hcall => exact fun hf => absurd hf (by simp)
  | returned hcall =>
    rw [hcall] at h
    intro room
    obtain ⟨done, hperm, hrows⟩ := h rfl
    rw [List.append_nil] at hperm
    show S.table room = _
    rw [hrows room]
    unfold deleteReferences
    refine List.filter_congr fun row _ => ?_
    have hmem : (∃ dq ∈ done, dq.room = room ∧ row.t ∈ dq.ts) ↔
        ∃ ref ∈ references, ref.1.room = room ∧ ref.1.t = row.t := by
      rw [← mem_deleteQuery]
      simp only [hperm.mem_iff]
    simp only [hmem]
  | crash => trivial
  | remove before after o hpending => exact h
  | removeFails before after o hpending => exact h

/-- **A call that returns** has deleted the rows that the references name. -/
theorem deleteReferences_of_run
    (h : DeleteRun plugins deletes references (.start references table objects) S)
    (hret : S.call = .returned) (room : Room) :
    S.table room = deleteReferences room references (table room) := by
  have hd : Deleted references table S.table S.call := by
    clear hret
    induction h with
    | refl => rfl
    | tail _ hstep ih => exact ih.step hstep
  rw [hret] at hd
  exact hd room

/-! ## What is handed over -/

theorem mem_handedOver {ref : Reference β} {x : AssetId Clock × Asset β} :
    x ∈ handedOver plugins deletes ref ↔
      plugins.any deletes = true ∧ ∃ q, x = (ref.1, .retrievable q) ∧
        ref.2 = some (.retrievable q) := by
  obtain ⟨id, asset⟩ := ref
  unfold handedOver
  cases asset with
  | none => simp
  | some asset =>
    cases asset with
    | retrievable q =>
      by_cases hany : plugins.any deletes = true
      · simp [hany]
      · simp only [if_neg hany, List.not_mem_nil, false_iff]
        exact fun h => hany h.1
    | _ => simp

/-- A removal is of the asset that is handed over. -/
theorem handedOver_of_scheduled {ref : Reference β} {o : ObjectId}
    (h : o ∈ scheduledRemovals (plugins.filter deletes) [ref]) :
    (o.2, .retrievable o.1) ∈ handedOver plugins deletes ref := by
  obtain ⟨id, asset⟩ := ref
  unfold scheduledRemovals at h
  rw [List.flatMap_singleton] at h
  cases asset with
  | none => exact absurd h List.not_mem_nil
  | some asset =>
    cases asset with
    | retrievable q =>
      obtain ⟨p, hp, rfl⟩ := List.mem_map.mp h
      obtain ⟨hdeleting, hq⟩ := List.mem_filter.mp hp
      obtain ⟨hplugin, hdel⟩ := List.mem_filter.mp hdeleting
      have hany : plugins.any deletes = true := List.any_eq_true.mpr ⟨p, hplugin, hdel⟩
      obtain rfl : q = p.pluginid := by simpa using hq
      exact mem_handedOver.mpr ⟨hany, p.pluginid, rfl, rfl⟩
    | _ => exact absurd h List.not_mem_nil

/-- **The invariant of a call**, which knows only what it was given. -/
structure CallOk (plugins : List (Plugin β)) (deletes : Plugin β → Bool)
    (references : List (Reference β)) (table : Table β) (objects : Objects β) (S : Storage β) :
    Prop where
  rows : ∀ room, ∀ row ∈ S.table room, row ∈ table room
  rest : ∀ rest, S.call = .handing rest → ∀ ref ∈ rest, ref ∈ references
  handed : ∀ x ∈ S.handed, ∃ ref ∈ references, x ∈ handedOver plugins deletes ref
  pending : ∀ o ∈ S.pending, (o.2, .retrievable o.1) ∈ S.handed
  /-- An object that has changed was handed over. -/
  objects : ∀ o, S.objects o = objects o ∨ (o.2, .retrievable o.1) ∈ S.handed

theorem CallOk.start : CallOk plugins deletes references table objects
    (.start references table objects) where
  rows _ _ h := h
  rest rest h ref href := by
    obtain rfl := DeleteCall.handing.inj h
    exact href
  handed _ h := absurd h List.not_mem_nil
  pending _ h := absurd h List.not_mem_nil
  objects _ := Or.inl rfl

/-- The step lemma. -/
theorem CallOk.step (h : CallOk plugins deletes references table objects S)
    (hs : DeleteStep plugins deletes references S S') :
    CallOk plugins deletes references table objects S' := by
  have hcall : ∀ call : DeleteCall β, (∀ rest, call ≠ .handing rest) →
      CallOk plugins deletes references table objects { S with call := call } :=
    fun call hne => ⟨h.rows, fun rest e => absurd e (hne rest), h.handed, h.pending, h.objects⟩
  have hlost : ∀ before after o, S.pending = before ++ o :: after →
      ∀ o' ∈ before ++ after, (o'.2, .retrievable o'.1) ∈ S.handed := by
    intro before after o hpending o' ho'
    refine h.pending o' ?_
    rw [hpending]
    rcases List.mem_append.mp ho' with ho' | ho'
    · exact List.mem_append_left _ ho'
    · exact List.mem_append_right _ (List.mem_cons_of_mem _ ho')
  cases hs with
  | hand ref rest hc =>
    have href : ref ∈ references := h.rest _ hc ref List.mem_cons_self
    refine ⟨h.rows, fun rest' e ref' href' => ?_, fun x hx => ?_, fun o ho => ?_, fun o => ?_⟩
    · obtain rfl := DeleteCall.handing.inj e
      exact h.rest _ hc ref' (List.mem_cons_of_mem _ href')
    · rcases List.mem_append.mp hx with hx | hx
      · exact h.handed x hx
      · exact ⟨ref, href, hx⟩
    · rcases List.mem_append.mp ho with ho | ho
      · exact List.mem_append_left _ (h.pending o ho)
      · exact List.mem_append_right _ (handedOver_of_scheduled ho)
    · exact (h.objects o).imp_right (List.mem_append_left _)
  | send hc => exact hcall _ (by simp)
  | delete before after dq failed hc =>
    refine ⟨fun room row hrow => h.rows room row ?_, by simp, h.handed, h.pending, h.objects⟩
    have hrow : row ∈ dq.exec S.table room := hrow
    unfold DeleteQuery.exec at hrow
    split at hrow
    · exact (List.mem_filter.mp hrow).1
    · exact hrow
  | deleteFails before after dq failed hc => exact hcall _ (by simp)
  | returned hc => exact hcall _ (by simp)
  | crash => exact hcall _ (by simp)
  | remove before after o hpending =>
    refine ⟨h.rows, h.rest, h.handed, hlost before after o hpending, fun o' => ?_⟩
    by_cases ho : o' = o
    · subst ho
      refine Or.inr (h.pending o' ?_)
      rw [hpending]
      exact List.mem_append_right _ List.mem_cons_self
    · simp only [Function.update_of_ne ho]
      exact h.objects o'
  | removeFails before after o hpending =>
    exact ⟨h.rows, h.rest, h.handed, hlost before after o hpending, h.objects⟩

/-- The run lemma. -/
theorem CallOk.of_run
    (h : DeleteRun plugins deletes references (.start references table objects) S) :
    CallOk plugins deletes references table objects S := by
  induction h with
  | refl => exact .start
  | tail _ hstep ih => exact ih.step hstep

/-- The references are handed over before anything else happens. -/
theorem handing_run {S₀ : Storage β} (l : List (Reference β)) {rest : List (Reference β)}
    (h : DeleteRun plugins deletes references S₀ S) (hcall : S.call = .handing (l ++ rest)) :
    ∃ S', DeleteRun plugins deletes references S₀ S' ∧ S'.call = .handing rest ∧
      S'.table = S.table := by
  induction l generalizing S with
  | nil => exact ⟨S, h, hcall, rfl⟩
  | cons ref l ih =>
    have hstep := h.tail (DeleteStep.hand S ref (l ++ rest) hcall)
    obtain ⟨S', hrun, hrest, htable⟩ := ih hstep rfl
    exact ⟨S', hrun, hrest, htable⟩

variable (plugins deletes references table objects) in
/-- **The row is dropped before the asset it points at**, in every state of every run, exactly if no
reference that is handed over is the pointer of a row; and then every pointer has the object it
had. -/
theorem row_first_iff :
    (∀ S, DeleteRun plugins deletes references (.start references table objects) S →
      S.RowFirst ∧ S.Present objects) ↔
    ∀ ref ∈ references, ¬ Current plugins deletes table ref := by
  constructor
  · rintro h ref href ⟨hany, room, row, hrow, col, q, hq, rfl⟩
    -- right after it has been handed over, the row is still there
    obtain ⟨before, after, e⟩ := List.append_of_mem href
    obtain ⟨S, hS, hcall, htable⟩ := handing_run before
      (Relation.ReflTransGen.refl (a := Storage.start references table objects))
      (congrArg DeleteCall.handing e)
    have hrow' : row ∈ S.table room := by
      rw [htable]
      exact hrow
    refine (h _ (hS.tail (DeleteStep.hand S _ after hcall))).1 room row hrow' col q hq ?_
    exact List.mem_append_right _ (mem_handedOver.mpr ⟨hany, q, rfl, rfl⟩)
  · intro h S hS
    have hok := CallOk.of_run hS
    have hfirst : S.RowFirst := by
      intro room row hrow col q hq hhanded
      obtain ⟨⟨id, asset⟩, href, hx⟩ := hok.handed _ hhanded
      obtain ⟨hany, q', e, hasset⟩ := mem_handedOver.mp hx
      obtain ⟨rfl, hqq⟩ := Prod.mk.inj e
      obtain rfl := Asset.retrievable.inj hqq
      have hasset : asset = some (.retrievable q) := hasset
      subst hasset
      exact h _ href ⟨hany, room, row, hok.rows room row hrow, col, q, hq, rfl⟩
    refine ⟨hfirst, fun room row hrow col q hq => ?_⟩
    exact (hok.objects _).resolve_right (hfirst room row hrow col q hq)

end Runs

/-! ## An object is removed first -/

/-- A version whose assets are all with a plugin. -/
def pointers : Row RefPayload := storedRow (.id ⟨1000, 0⟩) fun _ => .retrievable "S3Persistence:v1"

/-- What a purge of the room lists. -/
def pointersListed : List (Reference RefPayload) :=
  (retrieveAssets insertionSort Room.a purgeInclude true none [pointers]).assets

/-- **A row without its object**: the removals take place, and the `DELETE` fails. -/
theorem asset_first : ¬ ∀ (plugins : List (Plugin RefPayload)) (deletes : Plugin RefPayload → Bool)
    (references : List (Reference RefPayload)) (table : Table RefPayload)
    (objects : Objects RefPayload) (S : Storage RefPayload),
    DeleteRun plugins deletes references (.start references table objects) S →
    S.RowFirst ∧ S.Present objects := by
  intro hclaim
  have h₁ : DeleteRun [s3] (fun _ => true) pointersListed (.start pointersListed
      (fun room => if room = Room.a then [pointers] else []) fun _ => some (.ydoc (.doc [7]))) _ :=
    Relation.ReflTransGen.refl.tail (DeleteStep.hand _ _ _ rfl)
  have h₂ := h₁.tail (DeleteStep.crash _)
  have h₃ := h₂.tail (DeleteStep.remove _ [] []
    ("S3Persistence:v1", .ydoc Room.a (.id ⟨1000, 0⟩) true) rfl)
  have hpresent := (hclaim _ _ _ _ _ _ h₃).2 Room.a pointers List.mem_cons_self .gcdoc
    "S3Persistence:v1" rfl
  exact absurd hpresent (by simp [pointers, storedRow, AssetColumn.assetId])

end YHub
