import Mathlib.Data.List.Nodup

/-!
# Maps that keep the order of insertion

A key has one entry. Setting a key that has an entry replaces the value where it is, and a new key
goes to the end.

* `get_eq_some`: the entries are what the map gives; `get_set`, `get_delete`, `get_upsert`.
* `mem_entries_set`, `mem_entries_delete`: what an operation does to the entries.
-/

/-- A map with its entries in the order of insertion. -/
structure InsertionMap (κ ν : Type*) where
  entries : List (κ × ν)
  nodup : (entries.map Prod.fst).Nodup

namespace InsertionMap

variable {κ ν : Type*}

def empty : InsertionMap κ ν := ⟨[], List.nodup_nil⟩

def keys (m : InsertionMap κ ν) : List κ := m.entries.map Prod.fst

def size (m : InsertionMap κ ν) : Nat := m.entries.length

theorem mem_keys {m : InsertionMap κ ν} {k : κ} : k ∈ m.keys ↔ ∃ v, (k, v) ∈ m.entries := by
  unfold keys
  simp

@[simp] theorem size_empty : (empty : InsertionMap κ ν).size = 0 := rfl

variable [DecidableEq κ]

def get (m : InsertionMap κ ν) (k : κ) : Option ν :=
  (m.entries.find? fun e => decide (e.1 = k)).map Prod.snd

/-- The entries after a key is set. -/
def setEntries (l : List (κ × ν)) (k : κ) (v : ν) : List (κ × ν) :=
  if k ∈ l.map Prod.fst then l.map fun e => if e.1 = k then (k, v) else e else l ++ [(k, v)]

theorem nodup_setEntries {l : List (κ × ν)} (h : (l.map Prod.fst).Nodup) (k : κ) (v : ν) :
    ((setEntries l k v).map Prod.fst).Nodup := by
  unfold setEntries
  split
  · have hkeys : (l.map fun e => if e.1 = k then (k, v) else e).map Prod.fst = l.map Prod.fst := by
      rw [List.map_map]
      refine List.map_congr_left fun e _ => ?_
      by_cases he : e.1 = k <;> simp [he]
    rw [hkeys]
    exact h
  · rename_i hk
    rw [List.map_append, List.nodup_append]
    refine ⟨h, List.nodup_singleton k, ?_⟩
    rintro a ha b hb rfl
    obtain rfl : a = k := List.mem_singleton.mp hb
    exact hk ha

def set (m : InsertionMap κ ν) (k : κ) (v : ν) : InsertionMap κ ν :=
  ⟨setEntries m.entries k v, nodup_setEntries m.nodup k v⟩

def delete (m : InsertionMap κ ν) (k : κ) : InsertionMap κ ν :=
  ⟨m.entries.filter fun e => e.1 ≠ k, m.nodup.sublist (List.filter_sublist.map Prod.fst)⟩

/-- The value of the key, or else `init`, is replaced by what `f` makes of it. -/
def upsert (m : InsertionMap κ ν) (k : κ) (init : ν) (f : ν → ν) : InsertionMap κ ν :=
  m.set k (f ((m.get k).getD init))

variable {m : InsertionMap κ ν} {k k' : κ} {v v' : ν}

/-- **The entries are what the map gives.** -/
theorem get_eq_some : m.get k = some v ↔ (k, v) ∈ m.entries := by
  obtain ⟨l, hl⟩ := m
  unfold get
  induction l with
  | nil => simp
  | cons e l ih =>
    obtain ⟨a, b⟩ := e
    rw [List.map_cons, List.nodup_cons] at hl
    rw [List.find?_cons, List.mem_cons, Prod.mk.injEq]
    by_cases ha : a = k
    · subst ha
      have hnot : (a, v) ∉ l := fun hmem => hl.1 (List.mem_map.mpr ⟨(a, v), hmem, rfl⟩)
      simp [hnot, eq_comm]
    · rw [decide_eq_false ha]
      simp only [ih hl.2, eq_comm (a := k), ha, false_and, false_or]

/-- A key has one entry. -/
theorem filter_entries (m : InsertionMap κ ν) (k : κ) :
    m.entries.filter (fun e => e.1 = k) = (m.get k).toList.map (Prod.mk k) := by
  obtain ⟨l, hl⟩ := m
  unfold get
  induction l with
  | nil => rfl
  | cons e l ih =>
    obtain ⟨a, b⟩ := e
    rw [List.map_cons, List.nodup_cons] at hl
    rw [List.find?_cons]
    by_cases ha : a = k
    · subst ha
      have hrest : l.filter (fun e => e.1 = a) = [] := by
        refine List.filter_eq_nil_iff.mpr fun e he hea => hl.1 ?_
        exact List.mem_map.mpr ⟨e, he, of_decide_eq_true hea⟩
      rw [List.filter_cons_of_pos (by simp), hrest]
      simp
    · rw [List.filter_cons_of_neg (by simpa using ha), ih hl.2]
      simp [ha]

theorem get_eq_none : m.get k = none ↔ k ∉ m.keys := by
  rw [mem_keys, Option.eq_none_iff_forall_not_mem, not_exists]
  exact forall_congr' fun v => not_congr get_eq_some

theorem mem_entries_set : (k', v') ∈ (m.set k v).entries ↔
    k' = k ∧ v' = v ∨ k' ≠ k ∧ (k', v') ∈ m.entries := by
  show (k', v') ∈ setEntries m.entries k v ↔ _
  unfold setEntries
  split
  · rename_i hk
    rw [List.mem_map]
    constructor
    · rintro ⟨e, he, h⟩
      split at h
      · obtain ⟨rfl, rfl⟩ := Prod.mk.inj h
        exact Or.inl ⟨rfl, rfl⟩
      · rename_i hne
        subst h
        exact Or.inr ⟨hne, he⟩
    · rintro (⟨rfl, rfl⟩ | ⟨hne, h⟩)
      · obtain ⟨e, he, rfl⟩ := List.mem_map.mp hk
        exact ⟨e, he, if_pos rfl⟩
      · exact ⟨(k', v'), h, if_neg hne⟩
  · rename_i hk
    rw [List.mem_append, List.mem_singleton, Prod.mk.injEq]
    constructor
    · rintro (h | h)
      · exact Or.inr ⟨fun e => hk (e ▸ List.mem_map.mpr ⟨(k', v'), h, rfl⟩), h⟩
      · exact Or.inl h
    · rintro (h | ⟨-, h⟩)
      · exact Or.inr h
      · exact Or.inl h

theorem mem_entries_delete :
    (k', v') ∈ (m.delete k).entries ↔ k' ≠ k ∧ (k', v') ∈ m.entries := by
  show (k', v') ∈ m.entries.filter (fun e => e.1 ≠ k) ↔ _
  rw [List.mem_filter, and_comm]
  simp

/-- A new key goes to the end. -/
theorem entries_set_of_notMem (h : k ∉ m.keys) : (m.set k v).entries = m.entries ++ [(k, v)] :=
  if_neg h

theorem get_set : (m.set k v).get k' = if k' = k then some v else m.get k' := by
  refine Option.ext fun a => ?_
  rw [get_eq_some, mem_entries_set]
  split
  · rename_i h
    simp [h, eq_comm]
  · rename_i h
    rw [get_eq_some]
    simp [h]

theorem get_delete : (m.delete k).get k' = if k' = k then none else m.get k' := by
  refine Option.ext fun a => ?_
  rw [get_eq_some, mem_entries_delete]
  split
  · rename_i h
    simp [h]
  · rename_i h
    rw [get_eq_some]
    simp [h]

theorem get_upsert {init : ν} {f : ν → ν} : (m.upsert k init f).get k' =
    if k' = k then some (f ((m.get k).getD init)) else m.get k' := get_set

theorem size_delete_le : (m.delete k).size ≤ m.size := List.length_filter_le _ _

@[simp] theorem get_empty : (empty : InsertionMap κ ν).get k = none := rfl

end InsertionMap
