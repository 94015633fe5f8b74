import Mathlib.Data.List.Basic

/-!
# Splitting strings

`split` and `join` at a character, as `String.prototype.split` and `Array.prototype.join` of
JavaScript do it: an empty string has one part. `indexOf` is the first occurrence of a text.
-/

namespace YHub

/-- `s.split(sep)` -/
def split (sep : Char) (s : String) : List String :=
  (s.toList.splitOn sep).map String.ofList

/-- `parts.join(sep)` -/
def join (sep : Char) (parts : List String) : String :=
  String.ofList ([sep].intercalate (parts.map String.toList))

/-- `s.indexOf(text)`, `none` for `-1` -/
def indexOf (text : List Char) : List Char → Option Nat
  | [] => if text = [] then some 0 else none
  | c :: s => if text.isPrefixOf (c :: s) then some 0 else (indexOf text s).map (· + 1)

/-- Each character of a text is looked at. -/
theorem forall_mem_of_all {l : List Char} {P : Char → Prop} [DecidablePred P]
    (h : l.all (fun c => decide (P c)) = true) : ∀ c ∈ l, P c :=
  fun c hc => of_decide_eq_true (List.all_eq_true.mp h c hc)

theorem notMem_of_mem_splitOn {α : Type} [DecidableEq α] {a : α} {l part : List α}
    (h : part ∈ l.splitOn a) : a ∉ part := by
  induction l generalizing part with
  | nil =>
    rw [List.splitOn_nil, List.mem_singleton] at h
    exact h ▸ List.not_mem_nil
  | cons x l ih =>
    rw [List.splitOn_cons_eq_if_modifyHead] at h
    by_cases hx : x = a
    · rw [if_pos (beq_iff_eq.mpr hx)] at h
      rcases List.mem_cons.mp h with rfl | h
      · exact List.not_mem_nil
      · exact ih h
    · rw [if_neg (mt beq_iff_eq.mp hx)] at h
      obtain ⟨head, tail, hl⟩ := List.exists_cons_of_ne_nil (List.splitOn_ne_nil a l)
      rw [hl, List.modifyHead_cons, List.mem_cons] at h
      rw [hl] at ih
      rcases h with rfl | h
      · exact List.not_mem_cons_of_ne_of_not_mem (Ne.symm hx) (ih List.mem_cons_self)
      · exact ih (List.mem_cons_of_mem _ h)

theorem notMem_of_mem_split {sep : Char} {s part : String} (h : part ∈ split sep s) :
    sep ∉ part.toList := by
  obtain ⟨l, hl, rfl⟩ := List.mem_map.mp h
  rw [String.toList_ofList]
  exact notMem_of_mem_splitOn hl

/-- The first separator. -/
theorem append_cons_inj {α : Type} {a : α} {x x' rest rest' : List α} (hx : a ∉ x) (hx' : a ∉ x') :
    x ++ a :: rest = x' ++ a :: rest' ↔ x = x' ∧ rest = rest' := by
  constructor
  · induction x generalizing x' with
    | nil =>
      cases x' with
      | nil => exact fun h => ⟨rfl, (List.cons.inj h).2⟩
      | cons y x' => exact fun h => absurd ((List.cons.inj h).1 ▸ List.mem_cons_self) hx'
    | cons y x ih =>
      cases x' with
      | nil => exact fun h => absurd ((List.cons.inj h).1 ▸ List.mem_cons_self) hx
      | cons y' x' =>
        intro h
        obtain ⟨rfl, htail⟩ := List.cons.inj h
        obtain ⟨rfl, hrest⟩ :=
          ih (List.not_mem_of_not_mem_cons hx) (List.not_mem_of_not_mem_cons hx') htail
        exact ⟨rfl, hrest⟩
  · rintro ⟨rfl, rfl⟩
    rfl

/-- A string without the separator is its only part. -/
theorem split_of_notMem {sep : Char} {s : String} (h : sep ∉ s.toList) : split sep s = [s] := by
  unfold split
  rw [List.splitOn_eq_singleton h, List.map_singleton, String.ofList_toList]

/-- Parts without the separator are what the joined string is split into. -/
theorem split_join {sep : Char} {parts : List String} (hsep : ∀ p ∈ parts, sep ∉ p.toList)
    (hne : parts ≠ []) : split sep (join sep parts) = parts := by
  have hparts : ∀ l ∈ parts.map String.toList, sep ∉ l := by
    intro l hl
    obtain ⟨p, hp, rfl⟩ := List.mem_map.mp hl
    exact hsep p hp
  unfold split join
  rw [String.toList_ofList, List.splitOn_intercalate sep hparts (by simpa using hne), List.map_map]
  simp

/-- The first occurrence: no part before it begins like the text. -/
theorem indexOf_append {c : Char} {text x y : List Char} (hx : c ∉ x) :
    indexOf (c :: text) (x ++ (c :: text ++ y)) = some x.length := by
  induction x with
  | nil =>
    have hfront : (c :: text).isPrefixOf (c :: (text ++ y)) = true :=
      List.isPrefixOf_iff_prefix.mpr (List.prefix_append (c :: text) y)
    exact if_pos hfront
  | cons a x ih =>
    have hfront : ¬ (c :: text).isPrefixOf (a :: (x ++ (c :: text ++ y))) = true := by
      rw [List.isPrefixOf_iff_prefix]
      rintro ⟨rest, hrest⟩
      exact hx ((List.cons.inj hrest).1 ▸ List.mem_cons_self)
    rw [List.cons_append, indexOf, if_neg hfront, ih (List.not_mem_of_not_mem_cons hx)]
    rfl

theorem indexOf_eq_none {c : Char} {s : List Char} : indexOf [c] s = none ↔ c ∉ s := by
  constructor
  · intro h hc
    obtain ⟨x, y, rfl, hx⟩ := List.eq_append_cons_of_mem hc
    have hsome : indexOf [c] (x ++ ([c] ++ y)) = some x.length := indexOf_append hx
    exact absurd (h.symm.trans hsome) (by simp)
  · intro h
    induction s with
    | nil => rfl
    | cons a s ih =>
      have hfront : ¬ [c].isPrefixOf (a :: s) = true := by
        rw [List.isPrefixOf_iff_prefix]
        rintro ⟨rest, hrest⟩
        exact h ((List.cons.inj hrest).1 ▸ List.mem_cons_self)
      rw [indexOf, if_neg hfront, ih (List.not_mem_of_not_mem_cons h)]
      rfl

end YHub
