import YHub.Lib.Interleave
import YHub.Site
import YHub.UnsafePersist

/-!
# Calls of `unsafePersistDoc` next to each other (`index.js:436-454`, `persistence.js:143-192`)

Each call reads the time and stores its document under the clock `'<ms>-I'`: the plugins keep the
assets, in any order, and then a row is inserted, unless the room has one with that clock. Any
number of calls on a room take turns here, statement by statement (`PersistCallStep`). What happens
elsewhere leaves the rows and the objects of the room as they are, and does not delete it hard.

A call that finds the row of another one returns as if it had stored its own, and a plugin
overwrites the object of the other one, which has the same path.

* `persisted_calls_covered`: in every run in which calls of one millisecond are given the same
  document, `getDoc` covers the document of each call that has returned.
* `persisted_call_swallowed`: two calls in one millisecond.
-/

namespace YHub

open Interleave

variable {β : Type}

/-- A call, with the millisecond it has read and the document it was given. -/
structure GivenCall (β : Type) where
  call : PersistCall β
  given : Option (Nat × β)

/-- A call that has not begun. -/
def GivenCall.idle : GivenCall β := ⟨.idle, none⟩

section System

variable (C : Conf β) (room : Room)

/-- One step of a call. -/
inductive GivenStep : Hub β → GivenCall β → Hub β → GivenCall β → Prop
  | getTime (s : Hub β) (ms : Nat) (ydoc : β) (by_ : Option String) :
      GivenStep s .idle s
        ⟨.storing (.persist ms) (Hub.attributed C.Y ms ydoc by_) fun _ => none, some (ms, ydoc)⟩
  | go (s : Hub β) (p : PersistCall β) (s' : Hub β) (p' : PersistCall β) (g : Nat × β)
      (hbegun : p ≠ .idle) (hreturned : p ≠ .returned) (h : PersistCallStep C room s p s' p') :
      GivenStep s ⟨p, some g⟩ s' ⟨p', some g⟩

/-- What happens elsewhere. -/
structure Elsewhere (x : State (Hub β) Nat (GivenCall β)) (s' : Hub β) : Prop where
  rows : s'.rows = x.1.rows
  objects : s'.objects = x.1.objects
  not_hard : s'.tombstone.any Tombstone.hard = false

/-- The runs of calls, as far as `guard` admits their steps. -/
abbrev CallsRun (guard : State (Hub β) Nat (GivenCall β) → Nat → GivenCall β → Prop) :
    State (Hub β) Nat (GivenCall β) → State (Hub β) Nat (GivenCall β) → Prop :=
  Relation.ReflTransGen (Guarded Elsewhere (GivenStep C room) guard)

end System

/-- Some call that has not failed has read `ms` and was given `ydoc`. -/
def GivenTo (ls : Nat → GivenCall β) (ms : Nat) (ydoc : β) : Prop :=
  ∃ j, (ls j).given = some (ms, ydoc) ∧ (ls j).call ≠ .failed

/-- The millisecond is free for the document: only calls with this document have read it, and a row
of it is theirs. -/
structure FreeMs (x : State (Hub β) Nat (GivenCall β)) (ms : Nat) (ydoc : β) : Prop where
  calls : ∀ ydoc', GivenTo x.2 ms ydoc' → ydoc' = ydoc
  rows : ∀ row ∈ x.1.rows, row.t = .persist ms → GivenTo x.2 ms ydoc

/-- Calls read milliseconds that are free. -/
def ReadsFree (x : State (Hub β) Nat (GivenCall β)) (i : Nat) (l : GivenCall β) : Prop :=
  ∀ ms ydoc, (x.2 i).given = none → l.given = some (ms, ydoc) → FreeMs x ms ydoc

/-! ## What a row is worth -/

section Calls

variable {C : Conf β} {room : Room} {s : Hub β}

/-- The document is in the row. -/
def Hub.Stores (C : Conf β) (room : Room) (s : Hub β) (row : Row β) (ydoc : β) : Prop :=
  ∀ gc, s.Retrieves C room row (.doc gc) (.ydoc ydoc)

theorem mem_updatesOf_of_stores {row : Row β} {ydoc : β} {i : Include} {gc : Bool}
    (h : s.Stores C room row ydoc) (hrow : row ∈ s.rows)
    (hgc : AssetColumn.included i (.doc gc) = true) :
    ydoc ∈ updatesOf gc (s.found C (toRetrieve (s.selected C room i).assets)) := by
  have hcol : AssetColumn.included { i with contentids := true } (.doc gc) = true := by
    cases gc <;> exact hgc
  have hfound : (AssetId.ydoc room row.t gc, Asset.ydoc ydoc) ∈
      s.found C (toRetrieve (s.selected C room i).assets) := by
    refine mem_found.mpr ⟨row, hrow, .doc gc, hcol, ?_, h gc⟩
    cases gc <;> rfl
  exact List.mem_filterMap.mpr ⟨_, hfound, if_pos rfl⟩

/-- **`getDoc` covers what a row stores.** -/
theorem covers_of_stores [Preorder β] (hY : C.Y.Lawful) {row : Row β} {ydoc : β}
    (h : s.Stores C room row ydoc) (hrow : row ∈ s.rows) (i : Include) (gcOnMerge : Bool) :
    (s.getDoc C room i gcOnMerge).Covers i ydoc := by
  have hmem : ∀ gc, AssetColumn.included i (.doc gc) = true →
      ydoc ∈ updatesOf gc (s.found C (toRetrieve (s.selected C room i).assets)) :=
    fun gc => mem_updatesOf_of_stores h hrow
  exact ⟨fun hi => ⟨_, getDoc_gcDoc hi gcOnMerge _ _ _,
      hY.le_merge (List.mem_append_left _ (hmem true hi)) _ _⟩,
    fun hi => ⟨_, getDoc_nongcDoc hi gcOnMerge _ _ _,
      hY.le_merge (List.mem_append_left _ (hmem false hi)) _ _⟩⟩

/-! ## The invariant -/

/-- The documents that a call has put so far are there. -/
structure PutSoFar (C : Conf β) (room : Room) (objects : Objects β) (ms : Nat) (ydoc : β)
    (t : Clock) (c : DocContent β) (assets : AssetColumn → Option (Asset β)) : Prop where
  clock : t = .persist ms
  content : ∀ gc, c.asset (.doc gc) = .ydoc ydoc
  assets : ∀ gc a, assets (.doc gc) = some a →
    tryPersistencePluginRetrieve C.plugins ((AssetColumn.doc gc).assetId room (.persist ms)) a
      objects = some (.ydoc ydoc)

/-- What holds of a call. -/
def GivenOk (C : Conf β) (room : Room) (s : Hub β) : GivenCall β → Prop
  | ⟨.storing t c assets, some (ms, ydoc)⟩ => PutSoFar C room s.objects ms ydoc t c assets
  | ⟨.returned, some (ms, _)⟩ => ∃ row ∈ s.rows, row.t = .persist ms
  | _ => True

/-- **The invariant** of calls on a room. -/
structure CallsOk (C : Conf β) (room : Room) (s : Hub β) (ls : Nat → GivenCall β) : Prop where
  not_hard : s.tombstone.any Tombstone.hard = false
  /-- The calls of one millisecond have one document. -/
  same : ∀ ms ydoc ydoc', GivenTo ls ms ydoc → GivenTo ls ms ydoc' → ydoc = ydoc'
  call : ∀ i, GivenOk C room s (ls i)
  rows : ∀ ms ydoc, GivenTo ls ms ydoc → ∀ row ∈ s.rows, row.t = .persist ms →
    s.Stores C room row ydoc

theorem givenTo_update {ls : Nat → GivenCall β} {i : Nat} {l : GivenCall β} {ms : Nat} {ydoc : β}
    (h : GivenTo (Function.update ls i l) ms ydoc) :
    l.given = some (ms, ydoc) ∧ l.call ≠ .failed ∨ GivenTo ls ms ydoc := by
  obtain ⟨j, hgiven, hcall⟩ := h
  by_cases hj : j = i
  · subst hj
    rw [Function.update_self] at hgiven hcall
    exact Or.inl ⟨hgiven, hcall⟩
  · rw [Function.update_of_ne hj] at hgiven hcall
    exact Or.inr ⟨j, hgiven, hcall⟩

variable {s' : Hub β} {ls : Nat → GivenCall β} {i : Nat}

/-- A step of a call that was given its document before gives no document to a call. -/
theorem givenTo_of_update {ms ms' : Nat} {ydoc v : β} {p : PersistCall β}
    (hto : GivenTo ls ms ydoc) (h : GivenTo (Function.update ls i ⟨p, some (ms, ydoc)⟩) ms' v) :
    GivenTo ls ms' v := by
  rcases givenTo_update h with ⟨e, -⟩ | h
  · obtain ⟨rfl, rfl⟩ := Prod.mk.inj (Option.some.inj e)
    exact hto
  · exact h

theorem givenTo_storing {ms : Nat} {ydoc : β} {t : Clock} {c : DocContent β}
    {assets : AssetColumn → Option (Asset β)} (hi : ls i = ⟨.storing t c assets, some (ms, ydoc)⟩) :
    GivenTo ls ms ydoc :=
  ⟨i, by rw [hi], by rw [hi]; simp⟩

theorem CallsOk.storing (h : CallsOk C room s ls) {ms : Nat} {ydoc : β} {t : Clock}
    {c : DocContent β} {assets : AssetColumn → Option (Asset β)}
    (hi : ls i = ⟨.storing t c assets, some (ms, ydoc)⟩) :
    PutSoFar C room s.objects ms ydoc t c assets := by
  have hok := h.call i
  rw [hi] at hok
  exact hok

/-- What holds of a call goes on holding while its objects are readable and no row is removed. -/
theorem GivenOk.mono {l : GivenCall β} (h : GivenOk C room s l)
    (hobjects : ∀ ms v t c assets, l = ⟨.storing t c assets, some (ms, v)⟩ →
      PutSoFar C room s.objects ms v t c assets → PutSoFar C room s'.objects ms v t c assets)
    (hrows : ∀ row ∈ s.rows, row ∈ s'.rows) : GivenOk C room s' l := by
  rcases l with ⟨_ | ⟨t, c, assets⟩ | _ | _, _ | ⟨ms, v⟩⟩
  case storing.some => exact hobjects ms v t c assets rfl h
  case returned.some =>
    obtain ⟨row, hrow, ht⟩ := h
    exact ⟨row, hrows row hrow, ht⟩
  all_goals exact trivial

/-- A call reads the time. -/
theorem CallsOk.getTime (h : CallsOk C room s ls) {ms : Nat} {ydoc : β} (by_ : Option String)
    (hfree : FreeMs (s, ls) ms ydoc) :
    CallsOk C room s (Function.update ls i ⟨.storing (.persist ms)
      (Hub.attributed C.Y ms ydoc by_) fun _ => none, some (ms, ydoc)⟩) := by
  have hgiven : ∀ ms' v, GivenTo (Function.update ls i ⟨.storing (.persist ms)
      (Hub.attributed C.Y ms ydoc by_) fun _ => none, some (ms, ydoc)⟩) ms' v →
      ms' = ms ∧ v = ydoc ∨ GivenTo ls ms' v := by
    intro ms' v hv
    refine (givenTo_update hv).imp_left fun hv => ?_
    obtain ⟨rfl, rfl⟩ := Prod.mk.inj (Option.some.inj hv.1)
    exact ⟨rfl, rfl⟩
  refine ⟨h.not_hard, fun ms' v v' hv hv' => ?_, forall_update h.call ?_,
    fun ms' v hv row hrow ht => ?_⟩
  · rcases hgiven ms' v hv with ⟨rfl, rfl⟩ | hold
    · rcases hgiven ms' v' hv' with ⟨-, rfl⟩ | hold'
      · rfl
      · exact (hfree.calls v' hold').symm
    · rcases hgiven ms' v' hv' with ⟨rfl, rfl⟩ | hold'
      · exact hfree.calls v hold
      · exact h.same ms' v v' hold hold'
  · exact ⟨rfl, fun gc => by cases gc <;> rfl, fun gc a ha => absurd ha (by simp)⟩
  · rcases hgiven ms' v hv with ⟨rfl, rfl⟩ | hold
    · exact h.rows ms' v (hfree.rows row hrow ht) row hrow ht
    · exact h.rows ms' v hold row hrow ht

/-- What a call has put outlasts the puts of the calls with its millisecond, which have its
document, and of the others, whose objects have other paths. -/
theorem retrieve_after_put {t : Clock} {c : DocContent β} {col : AssetColumn} {gc : Bool}
    {ms ms' : Nat} {ydoc v : β} {a : Asset β} {objects : Objects β} (ht : t = .persist ms)
    (hcontent : ∀ gc, c.asset (.doc gc) = .ydoc ydoc) (hsame : ms' = ms → v = ydoc)
    (h : tryPersistencePluginRetrieve C.plugins ((AssetColumn.doc gc).assetId room (.persist ms')) a
      objects = some (.ydoc v)) :
    tryPersistencePluginRetrieve C.plugins ((AssetColumn.doc gc).assetId room (.persist ms')) a
      (tryPersistencePluginStore C.plugins (col.assetId room t) (c.asset col) objects).1 =
        some (.ydoc v) := by
  rcases retrieve_after_store C.plugins (col.assetId room t)
    ((AssetColumn.doc gc).assetId room (.persist ms')) (c.asset col) a objects with e | ⟨hid, e⟩
  · rw [e, h]
  · obtain ⟨hclock, rfl⟩ := AssetColumn.assetId_inj hid
    obtain rfl := Clock.persist.inj (hclock.trans ht)
    rw [e, hcontent, hsame rfl]

/-- A call puts an asset. -/
theorem CallsOk.put (h : CallsOk C room s ls) {ms : Nat} {ydoc : β} {t : Clock} {c : DocContent β}
    {assets : AssetColumn → Option (Asset β)} (col : AssetColumn)
    (hi : ls i = ⟨.storing t c assets, some (ms, ydoc)⟩) :
    CallsOk C room { s with objects := (tryPersistencePluginStore C.plugins (col.assetId room t)
        (c.asset col) s.objects).1 }
      (Function.update ls i ⟨.storing t c (Function.update assets col
        (some (tryPersistencePluginStore C.plugins (col.assetId room t) (c.asset col)
          s.objects).2)), some (ms, ydoc)⟩) := by
  have hput := h.storing hi
  have hto := givenTo_storing hi
  have hkeep : ∀ ms' v, GivenTo ls ms' v → ms' = ms → v = ydoc := by
    rintro ms' v hv rfl
    exact h.same ms' v ydoc hv hto
  refine ⟨h.not_hard, fun ms' v v' hv hv' =>
      h.same ms' v v' (givenTo_of_update hto hv) (givenTo_of_update hto hv'),
    forall_update (fun j => ?_) ?_, fun ms' v hv row hrow ht gc => ?_⟩
  · refine (h.call j).mono (fun ms' v t' c' assets' hj hok => ?_) fun _ hrow => hrow
    exact ⟨hok.clock, hok.content, fun gc a ha => retrieve_after_put hput.clock hput.content
      (hkeep ms' v (givenTo_storing hj)) (hok.assets gc a ha)⟩
  · refine ⟨hput.clock, hput.content, fun gc a ha => ?_⟩
    by_cases hcol : AssetColumn.doc gc = col
    · subst hcol
      rw [Function.update_self] at ha
      obtain rfl := Option.some.inj ha
      rw [hput.clock, ← hput.content gc]
      exact retrieve_store (c.asset_isReference _)
    · rw [Function.update_of_ne hcol] at ha
      exact retrieve_after_put hput.clock hput.content (fun _ => rfl) (hput.assets gc a ha)
  · have hold := givenTo_of_update hto hv
    obtain ⟨a, ha, hr⟩ := h.rows ms' v hold row hrow ht gc
    rw [ht] at hr
    refine ⟨a, ha, ?_⟩
    rw [ht]
    exact retrieve_after_put hput.clock hput.content (hkeep ms' v hold) hr

/-- A call inserts its row, or finds the row of a call with its document. -/
theorem CallsOk.insert (h : CallsOk C room s ls) {ms : Nat} {ydoc : β} {t : Clock}
    {c : DocContent β} {assets : AssetColumn → Asset β}
    (hi : ls i = ⟨.storing t c fun col => some (assets col), some (ms, ydoc)⟩) :
    CallsOk C room { s with rows := insertRow s.tombstone (storedRow t assets) s.rows }
      (Function.update ls i ⟨.returned, some (ms, ydoc)⟩) := by
  have hput := h.storing hi
  have hto := givenTo_storing hi
  refine ⟨h.not_hard, fun ms' v v' hv hv' =>
      h.same ms' v v' (givenTo_of_update hto hv) (givenTo_of_update hto hv'),
    forall_update (fun j => ?_) ?_, fun ms' v hv row hrow ht => ?_⟩
  · exact (h.call j).mono (fun _ _ _ _ _ _ hok => hok) fun _ hrow => mem_insertRow_of_mem hrow
  · show ∃ row ∈ insertRow s.tombstone (storedRow t assets) s.rows, row.t = .persist ms
    rcases insertRow_of_not_hard (storedRow t assets) s.rows h.not_hard with ⟨hmem, e⟩ | ⟨-, e⟩
    · obtain ⟨row, hrow, ht⟩ := List.mem_map.mp hmem
      exact ⟨row, by rw [e]; exact hrow, ht.trans hput.clock⟩
    · exact ⟨storedRow t assets, by rw [e]; simp, hput.clock⟩
  · have hold := givenTo_of_update hto hv
    rcases mem_insertRow hrow with hrow | rfl
    · exact h.rows ms' v hold row hrow ht
    · have hms : ms' = ms := Clock.persist.inj (Eq.trans (Eq.symm ht) hput.clock)
      rw [hms] at hold
      rw [h.same ms v ydoc hold hto]
      intro gc
      refine ⟨assets (.doc gc), rfl, ?_⟩
      show tryPersistencePluginRetrieve C.plugins ((AssetColumn.doc gc).assetId room t) _ _ = _
      rw [hput.clock]
      exact hput.assets gc _ rfl

/-- A call fails. -/
theorem CallsOk.fail (h : CallsOk C room s ls) (g : Option (Nat × β)) :
    CallsOk C room s (Function.update ls i ⟨.failed, g⟩) := by
  have hgiven : ∀ ms v, GivenTo (Function.update ls i ⟨.failed, g⟩) ms v → GivenTo ls ms v :=
    fun ms v hv => (givenTo_update hv).resolve_left fun hv => hv.2 rfl
  exact ⟨h.not_hard, fun ms v v' hv hv' => h.same ms v v' (hgiven ms v hv) (hgiven ms v' hv'),
    forall_update h.call trivial, fun ms v hv => h.rows ms v (hgiven ms v hv)⟩

/-- The rest of the world goes on. -/
theorem CallsOk.elsewhere (h : CallsOk C room s ls) (hs : Elsewhere (s, ls) s') :
    CallsOk C room s' ls := by
  have hrows : s'.rows = s.rows := hs.rows
  have hobjects : s'.objects = s.objects := hs.objects
  refine ⟨hs.not_hard, h.same, fun j => ?_, fun ms v hv row hrow ht gc => ?_⟩
  · refine (h.call j).mono (fun _ _ _ _ _ _ hok => ?_) fun row hrow => ?_
    · rw [hobjects]
      exact hok
    · rw [hrows]
      exact hrow
  · rw [hrows] at hrow
    obtain ⟨a, ha, hr⟩ := h.rows ms v hv row hrow ht gc
    exact ⟨a, ha, by rw [hobjects]; exact hr⟩

/-- The run lemma. -/
theorem CallsOk.of_run {x₀ x : State (Hub β) Nat (GivenCall β)} (h₀ : CallsOk C room x₀.1 x₀.2)
    (hx : CallsRun C room ReadsFree x₀ x) : CallsOk C room x.1 x.2 := by
  refine guarded_invariant (P := fun x => CallsOk C room x.1 x.2) h₀
    (fun s ls s' h hs => h.elsewhere hs) (fun s ls i s' l h hstep hg => ?_) hx
  generalize hi : ls i = k at hstep
  cases hstep with
  | getTime ms ydoc by_ => exact h.getTime by_ (hg ms ydoc (congrArg GivenCall.given hi) rfl)
  | go p _ p' g hbegun hreturned hp =>
    cases hp with
    | getTime ms ydoc by_ => exact absurd rfl hbegun
    | put t c assets col hcol => exact h.put col hi
    | insert t c assets => exact h.insert hi
    | stop => exact h.fail (some g)

end Calls

/-- **No call swallows another**: in every run of calls that read milliseconds which are free for
their documents, on a room that is not hard-deleted, `getDoc` covers the document of each call that
has returned, whatever the others do. -/
theorem persisted_calls_covered [Preorder β] {C : Conf β} {room : Room} (hY : C.Y.Lawful)
    {s₀ : Hub β} (hhard : s₀.tombstone.any Tombstone.hard = false)
    {x : State (Hub β) Nat (GivenCall β)}
    (hx : CallsRun C room ReadsFree (s₀, fun _ => .idle) x) {i : Nat} {ms : Nat} {ydoc : β}
    (hret : x.2 i = ⟨.returned, some (ms, ydoc)⟩) (incl : Include) (gcOnMerge : Bool) :
    (x.1.getDoc C room incl gcOnMerge).Covers incl ydoc := by
  have hnone : ∀ ms ydoc, ¬ GivenTo (fun _ => (.idle : GivenCall β)) ms ydoc := by
    rintro ms ydoc ⟨j, hgiven, -⟩
    exact absurd hgiven (by simp [GivenCall.idle])
  have h₀ : CallsOk C room s₀ fun _ => .idle :=
    ⟨hhard, fun ms v v' hv => absurd hv (hnone ms v), fun _ => trivial,
      fun ms v hv => absurd hv (hnone ms v)⟩
  have h : CallsOk C room x.1 x.2 := CallsOk.of_run h₀ hx
  obtain ⟨row, hrow, ht⟩ : ∃ row ∈ x.1.rows, row.t = .persist ms := by
    have hok := h.call i
    rw [hret] at hok
    exact hok
  have hto : GivenTo x.2 ms ydoc := ⟨i, by rw [hret], by rw [hret]; simp⟩
  exact covers_of_stores hY (h.rows ms ydoc hto row hrow ht) hrow incl gcOnMerge

/-! ## Two calls -/

/-- The hub after a call whose document stays inline. -/
def Hub.withDoc (s : Hub RefPayload) (ms : Nat) (ydoc : RefPayload) : Hub RefPayload :=
  { s with rows := insertRow s.tombstone (storedRow (.persist ms)
      (Hub.attributed (Conf.ref []).Y ms ydoc none).asset) s.rows }

/-- A call on its own, once it has read the time. -/
abbrev GivenAlone : Hub RefPayload × GivenCall RefPayload → Hub RefPayload × GivenCall RefPayload →
    Prop :=
  Alone fun s l s' l' => GivenStep (.ref []) Room.a s l s' l' ∧ l.given ≠ none

theorem storing_alone (s : Hub RefPayload) (ms : Nat) (ydoc : RefPayload) :
    GivenAlone (s, ⟨.storing (.persist ms) (Hub.attributed (Conf.ref []).Y ms ydoc none)
      fun _ => none, some (ms, ydoc)⟩) (s.withDoc ms ydoc, ⟨.returned, some (ms, ydoc)⟩) := by
  have hput : ∀ (assets : AssetColumn → Option (Asset RefPayload)) (col : AssetColumn),
      assets col = none → GivenAlone
        (s, ⟨.storing (.persist ms) (Hub.attributed (Conf.ref []).Y ms ydoc none) assets,
          some (ms, ydoc)⟩)
        (s, ⟨.storing (.persist ms) (Hub.attributed (Conf.ref []).Y ms ydoc none)
          (Function.update assets col
            (some ((Hub.attributed (Conf.ref []).Y ms ydoc none).asset col))),
          some (ms, ydoc)⟩) := fun assets col hcol =>
    Alone.refl.step ⟨.go s _ s _ _ (by simp) (by simp) (PersistCallStep.put s _ _ assets col hcol),
      by simp⟩
  have h := (((hput (fun _ => none) .gcdoc rfl).trans (hput _ .nongcdoc rfl)).trans
    (hput _ .contentmap rfl)).trans (hput _ .contentids rfl)
  refine h.step ⟨.go s _ _ _ _ (by simp) (by simp) ?_, by simp⟩
  have hassets : (Function.update (Function.update (Function.update (Function.update
      (fun _ => none) AssetColumn.gcdoc
        (some ((Hub.attributed (Conf.ref []).Y ms ydoc none).asset .gcdoc))) .nongcdoc
        (some ((Hub.attributed (Conf.ref []).Y ms ydoc none).asset .nongcdoc))) .contentmap
        (some ((Hub.attributed (Conf.ref []).Y ms ydoc none).asset .contentmap))) .contentids
        (some ((Hub.attributed (Conf.ref []).Y ms ydoc none).asset .contentids))) =
      fun col => some ((Hub.attributed (Conf.ref []).Y ms ydoc none).asset col) := by
    funext col
    cases col <;> rfl
  rw [hassets]
  exact PersistCallStep.insert s (.persist ms) _ _

/-- A call that is not disturbed, in a run. -/
theorem call_run {guard : State (Hub RefPayload) Nat (GivenCall RefPayload) → Nat →
      GivenCall RefPayload → Prop} {x₀ : State (Hub RefPayload) Nat (GivenCall RefPayload)}
    {s : Hub RefPayload} {ls : Nat → GivenCall RefPayload} (i ms : Nat) (ydoc : RefPayload)
    (hguard : ∀ x l, (x.2 i).given ≠ none → guard x i l) (hi : ls i = .idle)
    (hread : ∀ l : GivenCall RefPayload, l.given = some (ms, ydoc) → guard (s, ls) i l)
    (h : CallsRun (.ref []) Room.a guard x₀ (s, ls)) :
    CallsRun (.ref []) Room.a guard x₀
      (s.withDoc ms ydoc, Function.update ls i ⟨.returned, some (ms, ydoc)⟩) := by
  have hfirst := h.tail (Guarded.proc s ls i s _ (hi ▸ GivenStep.getTime s ms ydoc none)
    (hread _ rfl))
  have hstoring := run_alone (R := Guarded Elsewhere (GivenStep (.ref []) Room.a) guard)
    (fun ls s s' k hstep => Guarded.proc s ls i s' k hstep.1 (hguard (s, ls) k hstep.2))
    (storing_alone s ms ydoc) (Function.update_self i _ ls)
  rw [Function.update_idem] at hstoring
  exact hfirst.trans hstoring

/-- Two calls in different milliseconds. -/
theorem persisted_calls_covered_of_two : DocTable.Covers { gc := true, nongc := true }
    (((Hub.empty.withDoc 1000 (.doc [7])).withDoc 1001 (.doc [9])).getDoc (.ref []) Room.a
      { gc := true, nongc := true } true) (.doc [7]) := by
  have hguard : ∀ i (x : State (Hub RefPayload) Nat (GivenCall RefPayload)) l,
      (x.2 i).given ≠ none → ReadsFree x i l := fun i x l hne ms ydoc e => absurd e hne
  -- nobody has read the millisecond, and no row is of it
  have hfree : ∀ (s : Hub RefPayload) ls (i ms : Nat) (ydoc : RefPayload),
      (∀ j ydoc', (ls j).given ≠ some (ms, ydoc')) → (∀ row ∈ s.rows, row.t ≠ .persist ms) →
      ∀ l : GivenCall RefPayload, l.given = some (ms, ydoc) → ReadsFree (s, ls) i l := by
    intro s ls i ms ydoc hcalls hrows l hl ms' ydoc' _ hl'
    obtain ⟨rfl, rfl⟩ := Prod.mk.inj (Option.some.inj (hl.symm.trans hl'))
    exact ⟨fun v hv => hv.elim fun j hj => absurd hj.1 (hcalls j v),
      fun row hrow ht => absurd ht (hrows row hrow)⟩
  have h₁ : CallsRun (.ref []) Room.a ReadsFree (Hub.empty, fun _ => .idle) _ :=
    call_run 0 1000 (.doc [7]) (hguard 0) rfl
      (hfree _ _ 0 _ _ (fun j v => by simp [GivenCall.idle])
        fun row hrow => absurd hrow List.not_mem_nil) Relation.ReflTransGen.refl
  have h₂ := call_run 1 1001 (.doc [9]) (hguard 1) rfl
    (hfree _ _ 1 _ _ (fun j v => by
        rcases update_cases (rfl : Function.update (fun _ => (.idle : GivenCall RefPayload)) 0
          ⟨.returned, some (1000, .doc [7])⟩ j = _) with ⟨-, e⟩ | ⟨-, e⟩
        · rw [← e]
          simp
        · rw [← e]
          simp [GivenCall.idle])
      fun row hrow => by
        obtain rfl : row = _ := List.mem_singleton.mp hrow
        simp [storedRow]) h₁
  exact persisted_calls_covered yjsRef_lawful rfl h₂ (i := 0) rfl _ _

/-- **A document is swallowed**: two calls read the same millisecond. -/
theorem persisted_call_swallowed : ¬ ∀ (s₀ : Hub RefPayload)
    (x : State (Hub RefPayload) Nat (GivenCall RefPayload)),
    s₀.tombstone.any Tombstone.hard = false →
    CallsRun (.ref []) Room.a (fun _ _ _ => True) (s₀, fun _ => .idle) x →
    ∀ i ms ydoc, x.2 i = ⟨.returned, some (ms, ydoc)⟩ →
      ∀ incl gcOnMerge, (x.1.getDoc (.ref []) Room.a incl gcOnMerge).Covers incl ydoc := by
  intro hclaim
  have h₁ : CallsRun (.ref []) Room.a (fun _ _ _ => True) (Hub.empty, fun _ => .idle) _ :=
    call_run 0 1000 (.doc [7]) (fun _ _ _ => trivial) rfl (fun _ _ => trivial)
      Relation.ReflTransGen.refl
  have h₂ := call_run 1 1000 (.doc [9]) (fun _ _ _ => trivial) rfl (fun _ _ => trivial) h₁
  obtain ⟨hg, -⟩ := hclaim _ _ rfl h₂ 1 1000 (.doc [9]) rfl { gc := true } true
  obtain ⟨g, hg, hle⟩ := hg rfl
  obtain rfl : RefPayload.doc [7] = g := by
    refine Option.some.inj (Eq.trans ?_ hg)
    decide
  exact absurd hle (by decide)

end YHub
