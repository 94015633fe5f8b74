import YHub.Preservation
import YHub.RunTask

/-!
# Pointers and the objects behind them (`plugins/s3.js`, `persistence.js:212-341`)

A row holds pointers to objects that a plugin keeps, one object per asset id. The object is put
before the row is inserted, every run that stores the same clock puts the same objects, and
`deleteReferences` schedules the removal of the objects of a superseded row before it deletes the
row. A missing object reads as no asset.

* `pointers_present`: in every run of workers in which an object is removed when nothing points to
  it (`Unreferenced`), every pointer has its object, what is behind a row covers every update up to
  its clock, and runs that store the same clock store equivalent content.
* `pointer_dangles`: "a row is always dropped before the asset it points at" (`purgeDoc`), but the
  removals are scheduled first. One that takes place while the `DELETE` is still to come leaves a
  row without its document.
-/

namespace YHub

variable {β : Type} [Preorder β] {C : Conf β} {room : Room}

/-- Two documents with the same updates; and without prune directives also with the same content
map and the same content ids. -/
structure DocContent.Equivalent (Y : Yjs β) (log : List (Entry (Message β))) (c c' : DocContent β) :
    Prop where
  gcDoc : c.gcDoc ≤ c'.gcDoc ∧ c'.gcDoc ≤ c.gcDoc
  nongcDoc : c.nongcDoc ≤ c'.nongcDoc ∧ c'.nongcDoc ≤ c.nongcDoc
  contentmap : NoPrune log → (∀ x, Y.HasKey (Y.decodeContentMap c.contentmap) x ↔
      Y.HasKey (Y.decodeContentMap c'.contentmap) x) ∧
    ∀ x a, Y.HasAttr (Y.decodeContentMap c.contentmap) x a ↔
      Y.HasAttr (Y.decodeContentMap c'.contentmap) x a
  contentids : NoPrune log → ∀ x, Y.HasId (Y.decodeContentIds c.contentids) x ↔
    Y.HasId (Y.decodeContentIds c'.contentids) x

/-- Contents that stand for the log up to the same clock are equivalent. -/
theorem DocContent.equivalent {Y : Yjs β} {log : List (Entry (Message β))} {t : StreamId}
    {c c' : DocContent β} (h : ∀ col, Represents Y log t col (c.asset col))
    (h' : ∀ col, Represents Y log t col (c'.asset col)) : c.Equivalent Y log c' where
  gcDoc := ⟨(h .gcdoc).2 (h' .gcdoc).1, (h' .gcdoc).2 (h .gcdoc).1⟩
  nongcDoc := ⟨(h .nongcdoc).2 (h' .nongcdoc).1, (h' .nongcdoc).2 (h .nongcdoc).1⟩
  contentmap hn := ⟨fun x => ((h .contentmap hn).1 x).trans ((h' .contentmap hn).1 x).symm,
    fun x a => ((h .contentmap hn).2 x a).trans ((h' .contentmap hn).2 x a).symm⟩
  contentids hn x := (h .contentids hn x).trans (h' .contentids hn x).symm

/-- **Every pointer has its object**, and what is behind it is complete, in the runs in which an
object is removed when nothing points to it. -/
theorem pointers_present (hY : C.Y.Lawful) (hsort : SortSpec C.sort)
    {x : Interleave.State (Hub β) Nat (Proc β)}
    (hx : WorkerReach C room (fun _ => True) (fun x o => Unreferenced room x o) x) :
    (∀ row ∈ x.1.rows, ∀ col q, row.asset col = some (.retrievable q) →
      ∃ r, x.1.objects (q, col.assetId room row.t) = some r) ∧
    (∀ row ∈ x.1.rows, ∃ g n, x.1.Retrieves C room row .gcdoc (.ydoc g) ∧
      x.1.Retrieves C room row .nongcdoc (.ydoc n) ∧ ∀ u ∈ updates x.1.log,
        row.t.isSmaller (.id u.id) = false → u.update ≤ g ∧ u.update ≤ n) ∧
    ∀ t c c', (t, c) ∈ x.1.written → (t, c') ∈ x.1.written → c.Equivalent C.Y x.1.log c' := by
  have hx' : HubReach C room (fun _ => True) (fun x o => Unreferenced room x o)
      (fun _ _ => False) x :=
    Interleave.reach_strengthen (fun _ _ => trivial) (fun _ _ _ _ hw => hw)
      (fun _ _ _ _ _ _ h => Or.inl h) hx
  obtain ⟨hs, -⟩ := hub_invariant hY hsort (fun _ _ h => h) (fun _ _ h => absurd h id) hx'
  refine ⟨fun row hrow col q hq => ?_, fun row hrow => ?_, fun t c c' hc hc' => ?_⟩
  · obtain ⟨t, ht, -⟩ := hs.row_id row hrow
    obtain ⟨a, ha, r, hr, -⟩ := hs.row_resolves row hrow t ht col
    obtain rfl := Option.some.inj (hq.symm.trans ha)
    rw [ht]
    exact ⟨r, object_of_retrieve hr⟩
  · obtain ⟨t, ht, -⟩ := hs.row_id row hrow
    obtain ⟨a, ha, g, hg, hrg⟩ := hs.row_resolves row hrow t ht .gcdoc
    obtain ⟨b, hb, n, hn, hrn⟩ := hs.row_resolves row hrow t ht .nongcdoc
    cases g with
    | ydoc g =>
      cases n with
      | ydoc n =>
        refine ⟨g, n, ⟨a, ha, by rw [ht]; exact hg⟩, ⟨b, hb, by rw [ht]; exact hn⟩,
          fun u hu hle => ?_⟩
        rw [ht, Clock.not_isSmaller_iff_le rfl rfl] at hle
        have hmem : u.update ∈ (updatesUpTo x.1.log t).map Update.update :=
          List.mem_map_of_mem (SortedLog.mem_upTo.mpr ⟨hu, hle⟩)
        exact ⟨hrg.1 hmem, hrn.1 hmem⟩
      | _ => exact absurd hrn id
    | _ => exact absurd hrg id
  · obtain ⟨i, hi, -, hrep⟩ := hs.written_ok _ hc
    obtain ⟨i', hi', -, hrep'⟩ := hs.written_ok _ hc'
    obtain rfl : i = i' := Clock.id.inj (hi.symm.trans hi')
    exact DocContent.equivalent hrep hrep'

/-! ## Two compactions -/

/-- One update compacted into objects, and a later one on the stream. -/
def stored : Hub RefPayload :=
  (oneUpdate.runTask (.ref [s3]) Room.a 100000 ⟨1000, 0⟩).addMessage Room.a 200000
    (insertion 8 "user2")

/-- The document of the first row. -/
def firstObject : ObjectId := ("S3Persistence:v1", .ydoc Room.a (.id ⟨1000, 0⟩) true)

section Run

variable {fires : Interleave.State (Hub RefPayload) Nat (Proc RefPayload) → ObjectId → Prop}

theorem stored_reach : WorkerReach (.ref [s3]) Room.a (fun _ => True) fires
    (stored, Function.update (fun _ => .idle) 0 .finished) := by
  have h : WorkerReach (.ref [s3]) Room.a (fun _ => True) fires _ := oneUpdate_reach.trans
    (Interleave.reach_alone (i := 0) (runTask_alone 100000 ⟨1000, 0⟩) rfl)
  exact h.tail (Interleave.Step.env _ _ _
    (World.addMessage _ _ 200000 (insertion 8 "user2") trivial
      (by decide +kernel)))

end Run

/-- The second update compacted as well. -/
def storedTwice : Hub RefPayload := stored.runTask (.ref [s3]) Room.a 300000 ⟨200000, 0⟩

/-- The second compaction is over when the document of the first row is removed. -/
theorem pointers_present_of_run : ∃ r, Function.update storedTwice.objects firstObject none
    ("S3Persistence:v1", AssetColumn.gcdoc.assetId Room.a (.id ⟨200000, 0⟩)) = some r := by
  have h₁ : WorkerReach (.ref [s3]) Room.a (fun _ => True) (fun x o => Unreferenced Room.a x o)
      (storedTwice, Function.update (Function.update (fun _ => .idle) 0 .finished) 1 .finished) :=
    stored_reach.trans (Interleave.reach_alone (i := 1) (runTask_alone 300000 ⟨200000, 0⟩) rfl)
  have hfree : Unreferenced Room.a (storedTwice, Function.update (Function.update
      (fun _ => .idle) 0 .finished) 1 .finished) firstObject := by
    refine ⟨fun row hrow col a _ hpoints => ?_, fun i id a hrel => ?_⟩
    · have ht : ∀ t ∈ storedTwice.rows.map Row.t, t = .id ⟨200000, 0⟩ := by
        decide +kernel
      have hid := congrArg AssetId.t hpoints.1
      rw [AssetColumn.assetId_t, ht row.t (List.mem_map_of_mem hrow)] at hid
      exact absurd hid (by decide)
    · by_cases h1 : i = 1
      · subst h1
        exact hrel.elim
      by_cases h0 : i = 0
      · subst h0
        exact hrel.elim
      simp [h0, h1, Proc.Relies] at hrel
  obtain ⟨row, hrow, ht, hptr⟩ : ∃ row ∈ storedTwice.rows, row.t = .id ⟨200000, 0⟩ ∧
      row.asset .gcdoc = some (.retrievable "S3Persistence:v1") := by
    decide +kernel
  have htimers : storedTwice.timers = [] ++ firstObject :: storedTwice.timers.tail := by
    decide +kernel
  obtain ⟨r, hr⟩ := (pointers_present yjsRef_lawful insertionSort_spec (h₁.tail
    (Interleave.Step.env _ _ _ (World.removeObject _ _ [] _ firstObject htimers hfree)))).1
    row hrow .gcdoc _ hptr
  rw [ht] at hr
  exact ⟨r, hr⟩

/-- A second worker has stored the second row and scheduled the removal of what the first one
points to, which is still there. -/
theorem interrupted_reach : ∃ s ps,
    WorkerReach (.ref [s3]) Room.a (fun _ => True) (fun _ _ => True) (s, ps) ∧
    (∃ os, s.timers = firstObject :: os) ∧
    ∃ row ∈ s.rows, row.t = .id ⟨1000, 0⟩ ∧
      row.asset .gcdoc = some (.retrievable "S3Persistence:v1") := by
  obtain ⟨c, hc⟩ := readDoc_content (.ref [s3]) Room.a stored
    (getMessages (stored.redis.live Room.a))
  obtain ⟨s, d, hrun, hrows, htimers, hrefs⟩ : ∃ s d,
      WorkerAlone (.ref [s3]) Room.a (stored, .idle)
        (s, .cleaning ⟨200000, 0⟩ d false false false) ∧
      (∀ row ∈ stored.rows, row ∈ s.rows) ∧ s.timers = [] ∧
      d.references = some (stored.selected (.ref [s3]) Room.a compactInclude).assets :=
    ⟨_, _, stored_alone (by decide +kernel) (by decide +kernel) hc,
      fun row hrow => Hub.mem_store_rows (by exact hrow), rfl, rfl⟩
  refine ⟨_, _, stored_reach.trans (Interleave.reach_alone (i := 1)
    (hrun.step (WorkerStep.schedule _ _ _ _ hrefs)) rfl), ?_, ?_⟩
  · show ∃ os, s.timers ++ _ = firstObject :: os
    rw [htimers]
    exact ⟨_, rfl⟩
  · obtain ⟨row, hrow, h⟩ : ∃ row ∈ stored.rows, row.t = .id ⟨1000, 0⟩ ∧
        row.asset .gcdoc = some (.retrievable "S3Persistence:v1") :=
      ⟨_, List.mem_cons_self, rfl, rfl⟩
    exact ⟨row, hrows row hrow, h⟩

/-- **A row without its document**: the removal takes place before the worker deletes the row. -/
theorem pointer_dangles : ¬ ∀ x : Interleave.State (Hub RefPayload) Nat (Proc RefPayload),
    WorkerReach (.ref [s3]) Room.a (fun _ => True) (fun _ _ => True) x →
    ∀ row ∈ x.1.rows, ∀ col q, row.asset col = some (.retrievable q) →
      ∃ r, x.1.objects (q, col.assetId Room.a row.t) = some r := by
  intro hclaim
  obtain ⟨s, ps, hx, ⟨os, htimers⟩, row, hrow, ht, hptr⟩ := interrupted_reach
  have hfired := hx.tail (Interleave.Step.env _ _ _
    (World.removeObject _ _ [] os firstObject htimers trivial))
  obtain ⟨r, hr⟩ := hclaim _ hfired row hrow .gcdoc _ hptr
  have hnone : Function.update s.objects firstObject none
      ("S3Persistence:v1", AssetColumn.gcdoc.assetId Room.a row.t) = none := by
    rw [ht]
    exact Function.update_self ..
  exact absurd (hr.symm.trans hnone) (by simp)

end YHub
