import Mathlib.Data.List.Nodup
import Mathlib.Data.Set.Function

/-!
# The first of each key

`firstBy key seen` keeps the elements of a list whose key has not occurred before: neither in
`seen`, nor of an element before it.

* `mem_map_key_firstBy`, `nodup_map_key_firstBy`: each key is kept once.
* `forall_mem_firstBy_iff`: all elements are kept exactly if no two of them have one key.
-/

namespace FirstByKey

variable {α κ : Type*} [DecidableEq κ] (key : α → κ)

def firstBy (seen : List κ) : List α → List α
  | [] => []
  | a :: l => if key a ∈ seen then firstBy seen l else a :: firstBy (key a :: seen) l

variable {key} {seen : List κ} {l : List α} {a : α} {k : κ}

theorem firstBy_sublist : (firstBy key seen l).Sublist l := by
  induction l generalizing seen with
  | nil => exact List.Sublist.refl []
  | cons a l ih =>
    unfold firstBy
    split
    · exact ih.cons a
    · exact ih.cons_cons a

/-- **Each key is kept.** -/
theorem mem_map_key_firstBy :
    k ∈ (firstBy key seen l).map key ↔ k ∉ seen ∧ k ∈ l.map key := by
  induction l generalizing seen with
  | nil => simp [firstBy]
  | cons a l ih =>
    unfold firstBy
    split
    · rename_i ha
      rw [ih, List.map_cons, List.mem_cons]
      constructor
      · exact fun ⟨hk, hmem⟩ => ⟨hk, .inr hmem⟩
      · rintro ⟨hk, rfl | hmem⟩
        · exact absurd ha hk
        · exact ⟨hk, hmem⟩
    · rename_i ha
      rw [List.map_cons, List.mem_cons, ih, List.map_cons, List.mem_cons, List.mem_cons, not_or]
      constructor
      · rintro (rfl | ⟨⟨-, hk⟩, hmem⟩)
        · exact ⟨ha, .inl rfl⟩
        · exact ⟨hk, .inr hmem⟩
      · rintro ⟨hk, hmem⟩
        by_cases hka : k = key a
        · exact .inl hka
        · exact .inr ⟨⟨hka, hk⟩, hmem.resolve_left hka⟩

/-- **Each key is kept once.** -/
theorem nodup_map_key_firstBy : ((firstBy key seen l).map key).Nodup := by
  induction l generalizing seen with
  | nil => exact List.nodup_nil
  | cons a l ih =>
    unfold firstBy
    split
    · exact ih
    · rw [List.map_cons, List.nodup_cons, mem_map_key_firstBy]
      exact ⟨fun ⟨hk, _⟩ => hk List.mem_cons_self, ih⟩

theorem nodup_firstBy : (firstBy key seen l).Nodup := nodup_map_key_firstBy.of_map key

/-- **All elements are kept** exactly if no two of them have one key. -/
theorem forall_mem_firstBy_iff :
    (∀ a, a ∈ firstBy key [] l ↔ a ∈ l) ↔ Set.InjOn key { a | a ∈ l } := by
  constructor
  · intro h a ha b hb hab
    exact List.inj_on_of_nodup_map nodup_map_key_firstBy ((h a).mpr ha) ((h b).mpr hb) hab
  · intro h a
    refine ⟨fun ha => firstBy_sublist.subset ha, fun ha => ?_⟩
    have hkey : key a ∈ (firstBy key [] l).map key :=
      mem_map_key_firstBy.mpr ⟨List.not_mem_nil, List.mem_map_of_mem ha⟩
    obtain ⟨b, hb, hba⟩ := List.mem_map.mp hkey
    rwa [← h (firstBy_sublist.subset hb) ha hba]

end FirstByKey
