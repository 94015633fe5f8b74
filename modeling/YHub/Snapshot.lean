import YHub.Preservation
import YHub.RunTask

/-!
# What a `getDoc` call misses

A websocket connection is synced with the document of one `getDoc` call and subscribes from its
last clock (`server.js`, `open`), so the document has to cover every update up to that clock
(`DocTable.Sound`). `getDoc` issues its `SELECT` and its `XREAD` at the same time. A worker moves
updates from the stream to the rows, so they should be read in this order: first the stream, as
`_runTask` does, which hands the messages it has read to `getDoc`.

* `getDoc_sound`: the document is sound in every run in which an `XREAD` that comes after the
  `SELECT` of its call finds the stream empty, or every update after the clock selected still on it
  (`ReadsSafely`).
* `getDoc_misses_update`: it is not in general. A worker that stores and trims between the two
  reads takes an update from both.
-/

namespace YHub

variable {β : Type} [Preorder β] {C : Conf β} {room : Room}

/-- The document covers every update up to its last clock. -/
def DocTable.Sound (log : List (Entry (Message β))) (i : Include) (d : DocTable β) : Prop :=
  ∀ u ∈ updates log, d.lastClock.isSmaller (.id u.id) = false → d.Covers i u.update

theorem ReturnedOk.sound {s : Hub β} {i : Include} {d : DocTable β} {l : StreamId}
    (h : ReturnedOk C s i d l) : d.Sound s.log i := by
  intro u hu hle
  rw [Clock.not_isSmaller_iff_le h.clock.toId? rfl] at hle
  have hmem : u.update ∈ (updatesUpTo s.log l).map Update.update :=
    List.mem_map_of_mem (SortedLog.mem_upTo.mpr ⟨hu, hle⟩)
  constructor
  · intro hi
    obtain ⟨a, ha, hr⟩ := h.represents .gcdoc hi
    obtain ⟨g, hg, rfl⟩ := Option.map_eq_some_iff.mp ha
    exact ⟨g, hg, hr.1 hmem⟩
  · intro hi
    obtain ⟨a, ha, hr⟩ := h.represents .nongcdoc hi
    obtain ⟨n, hn, rfl⟩ := Option.map_eq_some_iff.mp ha
    exact ⟨n, hn, hr.1 hmem⟩

/-- **Every document returned is sound**, in the runs in which the stream is read while it holds
what the `SELECT` did not see, and objects are removed when nothing points to them. -/
theorem getDoc_sound (hY : C.Y.Lawful) (hsort : SortSpec C.sort)
    {x : Interleave.State (Hub β) Nat (Proc β)}
    (hx : HubReach C room (fun _ => True) (fun x o => Unreferenced room x o) (ReadsSafely room) x)
    {k : Nat} {i : Include} {d : DocTable β} (hk : x.2 k = .returned i d) :
    d.Sound x.1.log i := by
  have h := (hub_invariant hY hsort (fun _ _ h => h) (fun _ _ h => h) hx).2 k
  rw [hk] at h
  obtain ⟨l, hl⟩ := h
  exact hl.sound

/-! ## A reader around a compaction -/

/-- What the reader asks for. -/
def askGc : Include := { gc := true }

/-- The worker has stored the update and trimmed it, and another one was added. -/
def laterUpdate : Hub RefPayload :=
  (oneUpdate.runTask (.ref []) Room.a 100000 ⟨1000, 0⟩).addMessage Room.a 200000
    (insertion 8 "user2")

section Run

variable {fires : Interleave.State (Hub RefPayload) Nat (Proc RefPayload) → ObjectId → Prop}
  {reads : Hub RefPayload → Retrieval RefPayload → Prop}

/-- Process `0` is the worker, process `1` the reader, which does something before the run of the
worker (`before`) and the rest after it. -/
theorem laterUpdate_reach {p q : Proc RefPayload}
    (before : Interleave.Alone (ReadStep (.ref []) Room.a reads) (oneUpdate, .idle) (oneUpdate, p))
    (after : Interleave.Alone (ReadStep (.ref []) Room.a reads) (laterUpdate, p)
      (laterUpdate, q)) :
    ∃ ps, HubReach (.ref []) Room.a (fun _ => True) fires reads (laterUpdate, ps) ∧ ps 1 = q := by
  have hread : ∀ {y z}, Interleave.Alone (ReadStep (.ref []) Room.a reads) y z →
      Interleave.Alone (fun s p s' p' => WorkerStep (.ref []) Room.a s p s' p' ∨
        ReadStep (.ref []) Room.a reads s p s' p') y z :=
    fun h => h.mono fun _ _ _ _ hstep => Or.inr hstep
  have hrun : Interleave.Alone (fun s p s' p' => WorkerStep (.ref []) Room.a s p s' p' ∨
      ReadStep (.ref []) Room.a reads s p s' p') (oneUpdate, .idle)
        (oneUpdate.runTask (.ref []) Room.a 100000 ⟨1000, 0⟩, .finished) :=
    (runTask_alone 100000 ⟨1000, 0⟩).mono fun _ _ _ _ hstep => Or.inl hstep
  have h₁ : HubReach (.ref []) Room.a (fun _ => True) fires reads (oneUpdate, _) :=
    oneUpdate_reach.trans (Interleave.reach_alone (i := 1) (hread before) rfl)
  have h₂ := (h₁.trans (Interleave.reach_alone (i := 0) hrun rfl)).tail (Interleave.Step.env _ _ _
    (World.addMessage _ _ 200000 (insertion 8 "user2") trivial (by decide +kernel)))
  exact ⟨_, h₂.trans (Interleave.reach_alone (i := 1) (hread after) rfl), Function.update_self ..⟩

end Run

/-- The reader that reads the stream first gets the first update from the row. -/
theorem getDoc_sound_of_run : DocTable.Sound laterUpdate.log askGc (laterUpdate.readDoc (.ref [])
    Room.a askGc true (getMessages (oneUpdate.redis.live Room.a))) := by
  have hsafe : ReadsSafely Room.a oneUpdate (.start none) :=
    fun _ _ hra => absurd hra (by simp [Retrieval.start])
  have start : Interleave.Alone (ReadStep (.ref []) Room.a (ReadsSafely Room.a))
      (oneUpdate, .idle) (oneUpdate, .reading askGc true (.start none)) :=
    .step .refl (ReadStep.start oneUpdate askGc true)
  have before := start.step (ReadStep.read oneUpdate askGc true _ _
    (RetrievalStep.xread _ rfl hsafe))
  have after : Interleave.Alone (ReadStep (.ref []) Room.a (ReadsSafely Room.a))
      (laterUpdate, .reading askGc true (.start (some (getMessages (oneUpdate.redis.live Room.a)))))
      (laterUpdate, .returned askGc _) :=
    (read_alone _).step (ReadStep.finish laterUpdate askGc true _ _ ⟨_, _, rfl, rfl, rfl, rfl⟩)
  obtain ⟨ps, hx, hp⟩ := laterUpdate_reach before after
  exact getDoc_sound yjsRef_lawful insertionSort_spec hx hp

/-- **A compaction between the two reads**: the reader has read the rows when the worker stores the
first update and trims it, and reads the stream when the second one was added. -/
theorem getDoc_misses_update : ¬ ∀ x : Interleave.State (Hub RefPayload) Nat (Proc RefPayload),
    HubReach (.ref []) Room.a (fun _ => True) (fun _ _ => False) (fun _ _ => True) x →
    ∀ k i d, x.2 k = .returned i d → d.Sound x.1.log i := by
  intro hclaim
  have start : Interleave.Alone (ReadStep (.ref []) Room.a fun _ _ => True)
      (oneUpdate, .idle) (oneUpdate, .reading askGc true (.start none)) :=
    .step .refl (ReadStep.start oneUpdate askGc true)
  have before := start.step (ReadStep.read oneUpdate askGc true _ _
    (RetrievalStep.select _ [] .nil rfl))
  have xread : Interleave.Alone (ReadStep (.ref []) Room.a fun _ _ => True)
      (laterUpdate, .reading askGc true
        ⟨none, some (oneUpdate.selected (.ref []) Room.a askGc), [], []⟩)
      (laterUpdate, .reading askGc true ⟨some (getMessages (laterUpdate.redis.live Room.a)),
        some (oneUpdate.selected (.ref []) Room.a askGc), [], []⟩) :=
    .step .refl (ReadStep.read laterUpdate askGc true _ _ (RetrievalStep.xread _ rfl trivial))
  have after := xread.step (ReadStep.finish laterUpdate askGc true _ _ ⟨_, _, rfl, rfl, rfl, rfl⟩)
  obtain ⟨ps, hx, hp⟩ := laterUpdate_reach before after
  obtain ⟨hgc, -⟩ := hclaim _ hx 1 askGc _ hp ⟨⟨1000, 0⟩, .doc [7], _⟩
    (mem_updates.mpr List.mem_cons_self) (by decide +kernel)
  obtain ⟨g, hg, hle⟩ := hgc rfl
  obtain rfl : RefPayload.doc [8] = g := by
    refine Option.some.inj (Eq.trans ?_ hg)
    decide +kernel
  exact absurd hle (by decide)

end YHub
