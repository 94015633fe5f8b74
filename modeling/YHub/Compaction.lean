import YHub.Preservation
import YHub.RunTask

/-!
# No update is lost by compaction

Rooms whose assets are stored inline (`Conf.Inline`: no plugin takes anything). For any number of
workers that run, stall and stop between any two steps, `no_update_lost`: every update ever added is
in the documents of some row, or still on the stream and newer than every row.

With assets inline there are no pointers and nothing is ever scheduled for removal
(`inline_invariant`), so the conditions of `hub_invariant` are met.
-/

namespace YHub

variable {β : Type} {C : Conf β} {room : Room}

/-- Every plugin `store` returns `null`. -/
def Conf.Inline (C : Conf β) : Prop := ∀ p ∈ C.plugins, ∀ id a, p.takes id a = false

theorem Conf.Inline.store (h : C.Inline) (id : AssetId Clock) (asset : Asset β) (o : Objects β) :
    tryPersistencePluginStore C.plugins id asset o = (o, asset) := by
  unfold tryPersistencePluginStore
  rw [List.find?_eq_none.mpr fun p hp => by simp [h p hp]]

/-! ## No pointers -/

/-- The assets of the references are not pointers. -/
def RefsInline (refs : List (Reference β)) : Prop :=
  ∀ ref ∈ refs, ∀ a, ref.2 = some a → a.isReference = false

/-- There is no pointer in the rows, and no removal is scheduled. -/
structure InlineHub (s : Hub β) : Prop where
  rows : ∀ row ∈ s.rows, ∀ col a, row.asset col = some a → a.isReference = false
  timers : s.timers = []

/-- A run has read and stored no pointer. -/
def InlineProc : Proc β → Prop
  | .fetching _ g => ∀ ra, g.selected = some ra → RefsInline ra.assets
  | .storing _ d _ assets => (∀ refs, d.references = some refs → RefsInline refs) ∧
      ∀ col a, assets col = some a → a.isReference = false
  | .cleaning _ d _ _ _ => ∀ refs, d.references = some refs → RefsInline refs
  | _ => True

theorem scheduledRemovals_inline {plugins : List (Plugin β)} {refs : List (Reference β)}
    (h : RefsInline refs) : scheduledRemovals plugins refs = [] := by
  refine List.flatMap_eq_nil_iff.mpr fun ref href => ?_
  cases ha : ref.2 with
  | none => rfl
  | some a =>
    have hn := h ref href a ha
    cases a with
    | retrievable => exact absurd hn (by simp [Asset.isReference])
    | _ => rfl

theorem InlineHub.select {s : Hub β} (h : InlineHub s) {rows : List (Row β)}
    (hrows : rows.Perm s.rows) (i : Include) (tombstone : Option Tombstone) :
    RefsInline (retrieveAssets C.sort room i false tombstone rows).assets := by
  intro ref href a ha
  obtain ⟨row, hrow, col, -, rfl⟩ := mem_assets.mp href
  exact h.rows row (hrows.mem_iff.mp hrow) col a ha

theorem InlineProc.yields {g : Retrieval β} {i : Include} {gcOnMerge : Bool} {d : DocTable β}
    (h : ∀ ra, g.selected = some ra → RefsInline ra.assets) (hd : g.Yields C i gcOnMerge d) :
    ∀ refs, d.references = some refs → RefsInline refs := by
  obtain ⟨cached, ra, -, hselected, -, rfl⟩ := hd
  intro refs hrefs
  have hrefs : (if i.references then some ra.assets else none) = some refs := hrefs
  cases hi : i.references with
  | false =>
    rw [hi] at hrefs
    exact absurd hrefs (by simp)
  | true =>
    rw [hi] at hrefs
    obtain rfl := Option.some.inj hrefs
    exact h ra hselected

theorem inline_step (hC : C.Inline) {s s' : Hub β} {p p' : Proc β} (hs : InlineHub s)
    (hp : InlineProc p) (h : WorkerStep C room s p s' p') : InlineHub s' ∧ InlineProc p' := by
  cases h with
  | fetch task g g' hg =>
    refine ⟨hs, ?_⟩
    cases hg with
    | select rows hrows hnone =>
      intro ra hra
      obtain rfl := Option.some.inj hra
      exact hs.select hrows _ _
    | xread hnone hread => exact absurd hread id
    | retrieve before after id a htodo => exact hp
  | merged task g d c hd hout hc =>
    exact ⟨⟨hs.rows, hs.timers⟩, InlineProc.yields hp hd, fun col a ha => absurd ha (by simp)⟩
  | put task d c assets col hnone =>
    refine ⟨⟨hs.rows, hs.timers⟩, hp.1, fun col' a ha => ?_⟩
    rw [hC.store] at ha
    by_cases hcol : col' = col
    · subst hcol
      rw [Function.update_self] at ha
      obtain rfl := Option.some.inj ha
      exact c.asset_isReference col'
    · rw [Function.update_of_ne hcol] at ha
      exact hp.2 col' a ha
  | insert task d c assets =>
    refine ⟨⟨fun row hrow col a ha => ?_, hs.timers⟩, hp.1⟩
    rcases mem_insertRow hrow with hrow | rfl
    · exact hs.rows row hrow col a ha
    · obtain rfl := Option.some.inj ha
      exact hp.2 col _ rfl
  | schedule task d refs hrefs =>
    refine ⟨⟨hs.rows, ?_⟩, hp⟩
    show s.timers ++ scheduledRemovals C.plugins refs = []
    rw [hs.timers, scheduledRemovals_inline (hp refs hrefs), List.append_nil]
  | delete task d refs trimmed hrefs =>
    exact ⟨⟨fun row hrow => hs.rows row (List.mem_filter.mp hrow).1, hs.timers⟩, hp⟩
  | proceed => exact ⟨hs, fun ra hra => absurd hra (by simp [Retrieval.start])⟩
  | trimAfter => exact ⟨⟨hs.rows, hs.timers⟩, hp⟩
  | trim => exact ⟨⟨hs.rows, hs.timers⟩, trivial⟩
  | _ => exact ⟨hs, trivial⟩

variable {admits : Message β → Prop}
  {fires : Interleave.State (Hub β) Nat (Proc β) → ObjectId → Prop}
  {x : Interleave.State (Hub β) Nat (Proc β)}

/-- With assets inline there are no pointers, and nothing to remove. -/
theorem inline_invariant (hC : C.Inline) (hx : WorkerReach C room admits fires x) :
    Interleave.Holds InlineHub (fun _ => InlineProc) x := by
  have h₀ : Interleave.Holds InlineHub (fun _ => InlineProc)
      ((Hub.empty, fun _ => .idle) : Interleave.State (Hub β) Nat (Proc β)) :=
    ⟨⟨fun _ hrow => absurd hrow List.not_mem_nil, rfl⟩, fun _ => trivial⟩
  refine Interleave.reach_invariant h₀ (fun s ps s' h hw => ?_) (fun s p s' p' hs hp h => ?_) hx
  · have hs : InlineHub s := h.1
    refine ⟨?_, h.2⟩
    cases hw with
    | removeObject _ _ before after o htimers =>
      rw [hs.timers] at htimers
      exact absurd htimers.symm (by simp)
    | _ => exact ⟨hs.rows, hs.timers⟩
  · obtain ⟨hs', hp'⟩ := inline_step hC hs hp h
    exact ⟨hs', hp', fun _ hk => hk⟩

/-! ## Every update is in a row or on the stream -/

variable [Preorder β]

/-- **No update is lost by compaction**: every update ever added is in the documents of a row, or
on the stream under an id above every row clock. -/
theorem no_update_lost (hY : C.Y.Lawful) (hsort : SortSpec C.sort) (hC : C.Inline)
    (hx : WorkerReach C room (fun _ => True) (fun _ _ => True) x) :
    ∀ u ∈ updates x.1.log,
      (∃ row ∈ x.1.rows, ∃ g n, row.asset .gcdoc = some (.ydoc g) ∧ u.update ≤ g ∧
        row.asset .nongcdoc = some (.ydoc n) ∧ u.update ≤ n) ∨
      (∃ e ∈ x.1.live room, e = ⟨u.id, .m (.ydocUpdate u.update u.contentmap)⟩) ∧
        ∀ row ∈ x.1.rows, row.t.isSmaller (.id u.id) = true := by
  -- no removal takes place, so none goes against what is referenced
  have hx' : HubReach C room (fun _ => True) (fun x o => Unreferenced room x o)
      (fun _ _ => False) x := by
    refine Interleave.reach_strengthen (fun y hy => (inline_invariant hC hy).1.timers)
      (fun s ps s' htimers hw => ?_) (fun s ps i s' p _ h => Or.inl h) hx
    refine hw.mono fun o ho _ => ?_
    rw [htimers] at ho
    exact absurd ho List.not_mem_nil
  obtain ⟨hs, -⟩ := hub_invariant hY hsort (fun _ _ h => h) (fun _ _ h => absurd h id) hx'
  have hinline := (inline_invariant hC hx).1
  -- the assets of a row are the documents themselves
  have hdoc : ∀ row ∈ x.1.rows, ∀ t, row.t = .id t → ∀ col a, row.asset col = some a →
      Represents C.Y x.1.log t col a := by
    intro row hrow t ht col a ha
    obtain ⟨a', ha', r, hr, hrep⟩ := hs.row_resolves row hrow t ht col
    obtain rfl := Option.some.inj (ha.symm.trans ha')
    have hn := hinline.rows row hrow col a ha
    cases a with
    | retrievable => exact absurd hn (by simp [Asset.isReference])
    | _ =>
      obtain rfl := Option.some.inj hr
      exact hrep
  intro u hu
  by_cases hpers : x.1.Persisted u.id
  · obtain ⟨row, hrow, t, ht, hut⟩ := hpers
    have hmem : u.update ∈ (updatesUpTo x.1.log t).map Update.update :=
      List.mem_map_of_mem (SortedLog.mem_upTo.mpr ⟨hu, hut⟩)
    obtain ⟨g, hg, -⟩ := hs.row_resolves row hrow t ht .gcdoc
    obtain ⟨n, hn, -⟩ := hs.row_resolves row hrow t ht .nongcdoc
    have hrg := hdoc row hrow t ht _ g hg
    have hrn := hdoc row hrow t ht _ n hn
    cases g with
    | ydoc g =>
      cases n with
      | ydoc n => exact Or.inl ⟨row, hrow, g, n, hg, hrg.1 hmem, hn, hrn.1 hmem⟩
      | _ => exact absurd hrn id
    | _ => exact absurd hrg id
  · refine Or.inr ⟨⟨_, mem_updates.mp ((hs.covered u hu).resolve_right hpers), rfl⟩,
      fun row hrow => ?_⟩
    obtain ⟨t, ht, -⟩ := hs.row_id row hrow
    have hlt : t < u.id := not_le.mp fun hle => hpers ⟨row, hrow, t, ht, hle⟩
    rw [ht, Clock.id_isSmaller_id]
    exact decide_eq_true hlt

/-- A worker has compacted an update and trimmed it away. -/
def compacted : Hub RefPayload :=
  oneUpdate.runTask (.ref []) Room.a 100000 ⟨1000, 0⟩

theorem compacted_reach : WorkerReach (.ref []) Room.a (fun _ => True) (fun _ _ => True)
    (compacted, Function.update (fun _ => .idle) 0 .finished) :=
  oneUpdate_reach.trans (Interleave.reach_alone (runTask_alone 100000 ⟨1000, 0⟩) rfl)

/-- The update is not on the stream any more: it is in the row. -/
theorem no_update_lost_of_run : ∃ row ∈ compacted.rows, ∃ g n,
    row.asset .gcdoc = some (.ydoc g) ∧ RefPayload.doc [7] ≤ g ∧
      row.asset .nongcdoc = some (.ydoc n) ∧ RefPayload.doc [7] ≤ n := by
  have h := no_update_lost yjsRef_lawful insertionSort_spec
    (fun _ hp => absurd hp List.not_mem_nil) compacted_reach ⟨⟨1000, 0⟩, .doc [7], _⟩
    (mem_updates.mpr (List.mem_singleton.mpr rfl))
  refine h.resolve_right ?_
  rintro ⟨⟨e, he, -⟩, -⟩
  have hlive : compacted.live Room.a = [] := by decide +kernel
  have he : e ∈ compacted.live Room.a := he
  rw [hlive] at he
  exact absurd he List.not_mem_nil

end YHub
