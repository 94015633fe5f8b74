import Mathlib.Data.List.Basic

/-!
# Maps merged so that the first one wins

A list of maps, given by what keys they have (`key`) and what attributes they give to a key
(`attr`). Merged so that a key keeps the attributes of the first map that has it, the result has
the keys `Keyed` and the attributes `FirstAttr`.

* `keyed_append`, `firstAttr_append`: merging can be cut anywhere: a second part only contributes
  the keys that the first part does not have.
* `firstAttr_iff`: what an attribute of the merged map is.
-/

namespace FirstWins

variable {M X A : Type*} (key : M → X → Prop) (attr : M → X → A → Prop)

/-- Some map of the list has the key. -/
def Keyed (ms : List M) (x : X) : Prop := ∃ m ∈ ms, key m x

/-- The first map of the list that has the key gives it the attribute. -/
def FirstAttr : List M → X → A → Prop
  | [], _, _ => False
  | m :: ms, x, a => key m x ∧ attr m x a ∨ ¬ key m x ∧ FirstAttr ms x a

variable {key attr} {l r : List M} {m : M} {x : X} {a : A}

@[simp] theorem not_keyed_nil : ¬ Keyed key [] x := by
  rintro ⟨m, hm, -⟩
  exact absurd hm List.not_mem_nil

@[simp] theorem keyed_cons : Keyed key (m :: l) x ↔ key m x ∨ Keyed key l x := by
  simp [Keyed]

@[simp] theorem keyed_append : Keyed key (l ++ r) x ↔ Keyed key l x ∨ Keyed key r x := by
  induction l with
  | nil => simp
  | cons m l ih => rw [List.cons_append, keyed_cons, keyed_cons, ih, or_assoc]

/-- A key has a first map that has it. -/
theorem exists_first_of_keyed {ms : List M} (h : Keyed key ms x) :
    ∃ l m r, ms = l ++ m :: r ∧ ¬ Keyed key l x ∧ key m x := by
  induction ms with
  | nil => exact absurd h not_keyed_nil
  | cons m ms ih =>
    by_cases hm : key m x
    · exact ⟨[], m, ms, rfl, not_keyed_nil, hm⟩
    · obtain ⟨l, m', r, rfl, hl, hm'⟩ := ih ((keyed_cons.mp h).resolve_left hm)
      refine ⟨m :: l, m', r, rfl, fun hl' => ?_, hm'⟩
      exact (keyed_cons.mp hl').elim hm hl

theorem keyed_of_firstAttr (h : FirstAttr key attr l x a) : Keyed key l x := by
  induction l with
  | nil => exact absurd h id
  | cons m l ih =>
    rcases h with ⟨hk, -⟩ | ⟨-, h⟩
    · exact keyed_cons.mpr (Or.inl hk)
    · exact keyed_cons.mpr (Or.inr (ih h))

theorem firstAttr_append : FirstAttr key attr (l ++ r) x a ↔
    FirstAttr key attr l x a ∨ ¬ Keyed key l x ∧ FirstAttr key attr r x a := by
  induction l with
  | nil => simp [FirstAttr]
  | cons m l ih =>
    rw [List.cons_append, FirstAttr, FirstAttr, keyed_cons, ih]
    by_cases hk : key m x <;> simp [hk]

/-- The first part of the list decides where it has the key. -/
theorem firstAttr_append_left (h : FirstAttr key attr l x a) : FirstAttr key attr (l ++ r) x a :=
  firstAttr_append.mpr (Or.inl h)

/-- **A key keeps the attributes of the first map that has it.** -/
theorem firstAttr_iff (hl : ¬ Keyed key l x) (hm : key m x) :
    FirstAttr key attr (l ++ m :: r) x a ↔ attr m x a := by
  rw [firstAttr_append]
  constructor
  · rintro (h | ⟨-, ⟨-, h⟩ | ⟨hn, -⟩⟩)
    · exact absurd (keyed_of_firstAttr h) hl
    · exact h
    · exact absurd hm hn
  · exact fun h => Or.inr ⟨hl, Or.inl ⟨hm, h⟩⟩

end FirstWins
