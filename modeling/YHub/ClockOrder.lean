import Mathlib.Data.List.Pairwise
import YHub.RowClocks
import YHub.UnsafePersist

/-!
# The last row clock and the order of the rows (`persistence.js:276-297`, `stream.js:84-104`)

`retrieveAssets` sorts the clocks of a room with `isSmallerRedisClock(a, b) ? -1 : 1`, and takes the
last one. What `Array.sort` does with a comparator that does not order the clocks is left to the
engine (`SortSpec`). The clocks of rows are stream ids, and the `'<ms>-I'` of `unsafePersistDoc`,
whose second part is `NaN`: it is neither smaller nor larger than a stream id of its millisecond.

* `last_clock_settled_iff`: the last clock does not depend on the order of the rows, no row clock is
  above it, and the clocks are in a strict weak order, exactly if no `'<ms>-I'` shares its
  millisecond with another row.
* `storedRows_of_reach`: the clocks of the rows that are stored.
* `last_clock_unsettled`: an update and a document that is persisted in the same millisecond.
-/

namespace YHub

variable {β : Type}

/-! ## What is stored -/

/-- A clock of a row. -/
def Clock.Stored (c : Clock) : Prop := (∃ i, c = .id i) ∨ ∃ ms, c = .persist ms

/-- The rows of a room. -/
structure StoredRows (rows : List (Row β)) : Prop where
  nodup : (rows.map Row.t).Nodup
  stored : ∀ row ∈ rows, row.t.Stored

theorem StoredRows.insertRow {rows : List (Row β)} {row : Row β} (h : StoredRows rows)
    (hrow : row.t.Stored) (tombstone : Option Tombstone) :
    StoredRows (insertRow tombstone row rows) := by
  refine ⟨nodup_insertRow h.nodup, fun row' hrow' => ?_⟩
  rcases mem_insertRow hrow' with hrow' | rfl
  · exact h.stored row' hrow'
  · exact hrow

theorem StoredRows.deleteReferences {rows : List (Row β)} (h : StoredRows rows) (room : Room)
    (refs : List (Reference β)) : StoredRows (deleteReferences room refs rows) :=
  ⟨h.nodup.sublist (List.filter_sublist.map Row.t),
    fun row hrow => h.stored row (List.mem_filter.mp hrow).1⟩

variable {C : Conf β} {room : Room}

/-- A compaction stores a row under the clock of an entry. -/
theorem StoredRows.compact {s : Hub β} (h : StoredRows s.rows) :
    StoredRows (s.compact C room).1.rows := by
  unfold Hub.compact
  simp only
  split
  · exact h
  · split
    · exact h
    · rename_i c hc
      split at hc
      · exact absurd hc (by simp)
      · rename_i hrun
        refine StoredRows.deleteReferences (h.insertRow ?_ _) room _
        -- the run is not outrun, so the clock is above the one that is persisted
        have hlt : (lastClockOf C.sort s.rows).isSmaller ((lastClockOf C.sort s.rows).max
            (getMessages (s.redis.live room)).lastClock) = true := by
          simpa [outrun, Hub.readDoc, YHub.getDoc, retrieveDoc, Hub.selected, retrieveAssets]
            using hrun
        rcases Clock.max_cases (lastClockOf C.sort s.rows)
          (getMessages (s.redis.live room)).lastClock with ⟨-, e⟩ | ⟨-, e⟩
        · rw [e] at hlt
          obtain ⟨i, hi⟩ := (dated_getMessages (s.redis.live room)).id_of_isSmaller hlt
          exact Or.inl ⟨i, e.trans hi⟩
        · rw [e, Clock.isSmaller_self] at hlt
          exact absurd hlt (by simp)

/-- **The clocks of the rows that are stored**, in every run. -/
theorem storedRows_of_reach {P : Hub β → Nat → β → Prop} {x : Persisting β}
    (h : PersistReach C room P x) : StoredRows x.hub.rows := by
  induction h with
  | refl => exact ⟨List.nodup_nil, fun _ hrow => absurd hrow List.not_mem_nil⟩
  | tail _ hstep ih =>
    cases hstep with
    | compact => exact ih.compact
    | unsafePersistDoc ms ydoc by_ h => exact ih.insertRow (Or.inr ⟨ms, rfl⟩) _
    | _ => exact ih

/-! ## The sort -/

/-- What is relied on of the last clock of rows. -/
structure ClockSettled (sort : ClockSort) (rows : List (Row β)) : Prop where
  /-- The order of the rows does not matter. -/
  same : ∀ (room : Room) (i : Include) (onlyReferences : Bool) (tombstone : Option Tombstone)
    (rows' : List (Row β)), rows'.Perm rows →
      (retrieveAssets sort room i onlyReferences tombstone rows').lastClock = lastClockOf sort rows
  last : ∀ row ∈ rows, (lastClockOf sort rows).isSmaller row.t = false
  /-- The comparator orders the clocks weakly. -/
  weak : ∀ a ∈ rows.map Row.t, ∀ b ∈ rows.map Row.t, ∀ c ∈ rows.map Row.t,
    ¬ Comparable a b → ¬ Comparable b c → ¬ Comparable a c

/-- A row of `unsafePersistDoc` shares its millisecond with another row. -/
def SharesMs (rows : List (Row β)) : Prop :=
  ∃ row ∈ rows, ∃ row' ∈ rows, ∃ ms, row.t = .persist ms ∧ row'.t.msPart = ms ∧ row'.t ≠ row.t

variable {rows : List (Row β)} {a b : Clock}

/-- Different clocks are comparable unless one is a `'<ms>-I'` and the other is of its
millisecond. -/
theorem comparable_iff (ha : a.Stored) (hb : b.Stored) (hab : a ≠ b) : Comparable a b ↔
    ¬ ((∃ ms, a = .persist ms ∧ b.msPart = ms) ∨ ∃ ms, b = .persist ms ∧ a.msPart = ms) := by
  unfold Comparable
  rcases ha with ⟨i, rfl⟩ | ⟨ms, rfl⟩
  · rcases hb with ⟨j, rfl⟩ | ⟨ms', rfl⟩
    · have hne : i ≠ j := fun e => hab (by rw [e])
      simpa using lt_or_gt_of_ne hne
    · rw [Clock.isSmaller_persist_iff, Clock.persist_isSmaller_iff]
      simp only [reduceCtorEq, false_and, exists_false, false_or, Clock.persist.injEq,
        exists_eq_left']
      omega
  · rw [Clock.persist_isSmaller_iff, Clock.isSmaller_persist_iff]
    have hor : (∃ ms', b = .persist ms' ∧ (Clock.persist ms).msPart = ms') → b.msPart = ms := by
      rintro ⟨ms', rfl, e⟩
      exact e.symm
    simp only [Clock.persist.injEq, exists_eq_left']
    constructor
    · rintro hlt (e | e)
      · omega
      · have := hor e
        omega
    · intro h
      have : b.msPart ≠ ms := fun e => h (Or.inl e)
      omega

theorem comparable_of_mem {ts : List Clock} (h : ts.Pairwise Comparable) (ha : a ∈ ts)
    (hb : b ∈ ts) (hab : a ≠ b) : Comparable a b := by
  have : Std.Symm Comparable := ⟨fun _ _ => Or.symm⟩
  exact h.forall ha hb hab

theorem comparable_iff_not_sharesMs (h : StoredRows rows) :
    (rows.map Row.t).Pairwise Comparable ↔ ¬ SharesMs rows := by
  constructor
  · rintro hcomp ⟨row, hrow, row', hrow', ms, e, e', hne⟩
    have hc := comparable_of_mem hcomp (List.mem_map_of_mem hrow) (List.mem_map_of_mem hrow')
      hne.symm
    exact (comparable_iff (h.stored row hrow) (h.stored row' hrow') hne.symm).mp hc
      (Or.inl ⟨ms, e, e'⟩)
  · intro hno
    refine h.nodup.imp_of_mem fun {a b} ha hb hab => ?_
    obtain ⟨row, hrow, rfl⟩ := List.mem_map.mp ha
    obtain ⟨row', hrow', rfl⟩ := List.mem_map.mp hb
    refine (comparable_iff (h.stored row hrow) (h.stored row' hrow') hab).mpr ?_
    rintro (⟨ms, e, e'⟩ | ⟨ms, e, e'⟩)
    · exact hno ⟨row, hrow, row', hrow', ms, e, e', hab.symm⟩
    · exact hno ⟨row', hrow', row, hrow, ms, e, e', hab⟩

/-- Rows whose clocks are comparable. -/
theorem settled_of_comparable {sort : ClockSort} (hsort : SortSpec sort)
    (h : (rows.map Row.t).Pairwise Comparable) : ClockSettled sort rows where
  same room i onlyReferences tombstone rows' hperm := by
    show lastClockOf sort rows' = lastClockOf sort rows
    have h' : (rows'.map Row.t).Pairwise Comparable :=
      (hperm.map Row.t).symm.pairwise h fun hab => hab.symm
    by_cases hnil : rows = []
    · subst hnil
      rw [hperm.eq_nil]
    · have hnil' : rows' ≠ [] := fun e => hnil (List.nil_perm.mp (e ▸ hperm))
      -- each of the two is the largest
      obtain ⟨row, hrow, e⟩ := lastClock_mem hsort hnil
      obtain ⟨row', hrow', e'⟩ := lastClock_mem hsort hnil'
      rcases lastClock_max hsort h (hperm.mem_iff.mp hrow') with heq | hlt
      · exact e'.symm.trans heq
      · rcases lastClock_max hsort h' (hperm.mem_iff.mpr hrow) with heq | hlt'
        · exact heq.symm.trans e
        · rw [e'] at hlt
          rw [e] at hlt'
          exact absurd hlt' (by rw [Clock.isSmaller_asymm hlt]; simp)
  last row hrow := by
    rcases lastClock_max hsort h hrow with e | hlt
    · rw [← e, Clock.isSmaller_self]
    · exact Clock.isSmaller_asymm hlt
  weak a ha b hb c hc hab hbc := by
    have heq : ∀ x ∈ rows.map Row.t, ∀ y ∈ rows.map Row.t, ¬ Comparable x y → x = y :=
      fun x hx y hy hxy => by_contra fun hne => hxy (comparable_of_mem h hx hy hne)
    rw [heq a ha b hb hab]
    exact hbc

/-- A sort that gives up when the comparator does not order the clocks. -/
def lenientSort : ClockSort := fun ts =>
  if ts.Pairwise Comparable then insertionSort ts else ts

theorem lenientSort_spec : SortSpec lenientSort where
  perm ts := by
    unfold lenientSort
    split
    · exact insertionSort_spec.perm ts
    · exact List.Perm.refl ts
  sorted ts h := by
    unfold lenientSort
    rw [if_pos h]
    exact insertionSort_spec.sorted ts h

/-- Any row can be the one that it returns. -/
theorem lastClock_lenientSort (h : ¬ (rows.map Row.t).Pairwise Comparable) {row : Row β}
    (hrow : row ∈ rows) : ∃ rows' : List (Row β), rows'.Perm rows ∧
      lastClockOf lenientSort rows' = row.t := by
  obtain ⟨l, r, rfl⟩ := List.append_of_mem hrow
  have hperm : (l ++ r ++ [row]).Perm (l ++ row :: r) := by
    rw [List.append_assoc]
    exact (List.perm_append_singleton row r).append_left l
  refine ⟨l ++ r ++ [row], hperm, ?_⟩
  have hnot : ¬ ((l ++ r ++ [row]).map Row.t).Pairwise Comparable := fun hcomp =>
    h ((hperm.map Row.t).pairwise hcomp fun hab => hab.symm)
  unfold lastClockOf lenientSort
  rw [if_neg hnot]
  simp

/-- **The last clock is what it should be**, whatever the sort does with clocks that it cannot
order: exactly if no row of `unsafePersistDoc` shares its millisecond with another row. -/
theorem last_clock_settled_iff {rows : List (Row β)} (h : StoredRows rows) :
    (∀ sort, SortSpec sort → ClockSettled sort rows) ↔ ¬ SharesMs rows := by
  rw [← comparable_iff_not_sharesMs h]
  constructor
  · intro hall
    by_contra hnot
    have hsettled := hall lenientSort lenientSort_spec
    have hone : ∀ row ∈ rows, row.t = lastClockOf lenientSort rows := by
      intro row hrow
      obtain ⟨rows', hperm, e⟩ := lastClock_lenientSort hnot hrow
      exact e.symm.trans (hsettled.same Room.a {} false none rows' hperm)
    -- then all clocks are one, and there is only one row
    refine hnot (h.nodup.imp_of_mem fun {a b} ha hb hab => ?_)
    obtain ⟨row, hrow, rfl⟩ := List.mem_map.mp ha
    obtain ⟨row', hrow', rfl⟩ := List.mem_map.mp hb
    exact absurd ((hone row hrow).trans (hone row' hrow').symm) hab
  · exact fun hcomp sort hsort => settled_of_comparable hsort hcomp

/-! ## A document that is persisted in the millisecond of an update -/

/-- The update is compacted, and the document is persisted. -/
def sameMs : Hub RefPayload :=
  (oneUpdate.compact (.ref []) Room.a).1.unsafePersistDoc (.ref []) Room.a 1000 (.doc [9]) none

theorem sameMs_reach : ∃ x : Persisting RefPayload,
    PersistReach (.ref []) Room.a (fun _ _ _ => True) x ∧ x.hub = sameMs :=
  ⟨_, (oneUpdate_persistReach.tail (PersistStep.compact _)).tail
    (PersistStep.unsafePersistDoc _ 1000 (.doc [9]) none trivial), rfl⟩

theorem last_clock_settled_iff_of_compacted :
    ClockSettled insertionSort (oneUpdate.compact (.ref []) Room.a).1.rows := by
  have h := storedRows_of_reach ((oneUpdate_persistReach (P := fun _ _ _ => True)).tail
    (PersistStep.compact _))
  refine (last_clock_settled_iff h).mpr ?_ insertionSort insertionSort_spec
  rintro ⟨row, hrow, -, -, ms, e, -⟩
  have hids : (oneUpdate.compact (.ref []) Room.a).1.rows.map Row.t = [.id ⟨1000, 0⟩] := by decide
  have hmem := List.mem_map_of_mem (f := Row.t) hrow
  rw [hids, List.mem_singleton, e] at hmem
  exact absurd hmem (by simp)

/-- **The last clock depends on the order of the rows.** -/
theorem last_clock_unsettled : ¬ ∀ x : Persisting RefPayload,
    PersistReach (.ref []) Room.a (fun _ _ _ => True) x →
    ∀ sort, SortSpec sort → ClockSettled sort x.hub.rows := by
  intro hclaim
  obtain ⟨x, hx, hhub⟩ := sameMs_reach
  have hsettled := hclaim x hx insertionSort insertionSort_spec
  rw [hhub] at hsettled
  have hsame := hsettled.same Room.a {} false none _ (List.reverse_perm sameMs.rows)
  have hlast : lastClockOf insertionSort sameMs.rows.reverse ≠
      lastClockOf insertionSort sameMs.rows := by decide
  exact hlast hsame

end YHub
