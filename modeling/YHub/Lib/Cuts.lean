import Mathlib.Data.List.Chain

/-!
# Cutting a list into runs

A list is read from the left. The summary of the run that is open decides whether the next element
joins it; an element that does not join opens a run of its own. `cut` gives the runs, each with its
summary.

* `flatten_cut`: the runs make up the list.
* `forall_cut`: what joining keeps, holds of every run.
* `isChain_cut`: a run ends where the next element does not join it.
-/

namespace Cuts

variable {α γ : Type*} (joins : γ → α → Bool) (join : γ → α → γ) (new : α → γ)

/-- The runs, when `run` is open and `g` is its summary. -/
def cutFrom (run : List α) (g : γ) : List α → List (List α × γ)
  | [] => [(run, g)]
  | a :: l =>
    if joins g a then cutFrom (run ++ [a]) (join g a) l else (run, g) :: cutFrom [a] (new a) l

def cut : List α → List (List α × γ)
  | [] => []
  | a :: l => cutFrom joins join new [a] (new a) l

variable {joins join new} {run : List α} {g : γ} {l : List α}

/-- The run that is open goes on to the first run. -/
theorem exists_cutFrom_eq (run : List α) (g : γ) (l : List α) :
    ∃ more g' cuts, cutFrom joins join new run g l = (run ++ more, g') :: cuts := by
  induction l generalizing run g with
  | nil => exact ⟨[], g, [], by rw [List.append_nil]; rfl⟩
  | cons a l ih =>
    unfold cutFrom
    split
    · obtain ⟨more, g', cuts, h⟩ := ih (run ++ [a]) (join g a)
      exact ⟨a :: more, g', cuts, by rw [h, List.append_assoc]; rfl⟩
    · exact ⟨[], g, _, by rw [List.append_nil]⟩

theorem flatten_cutFrom (run : List α) (g : γ) (l : List α) :
    ((cutFrom joins join new run g l).map Prod.fst).flatten = run ++ l := by
  induction l generalizing run g with
  | nil => simp [cutFrom]
  | cons a l ih =>
    unfold cutFrom
    split
    · rw [ih, List.append_assoc]
      rfl
    · rw [List.map_cons, List.flatten_cons, ih]
      rfl

/-- **The runs make up the list.** -/
theorem flatten_cut (l : List α) : ((cut joins join new l).map Prod.fst).flatten = l := by
  cases l with
  | nil => rfl
  | cons a l => exact flatten_cutFrom [a] (new a) l

section Invariant

variable {P : List α → γ → Prop} (hnew : ∀ a, P [a] (new a))
  (hjoin : ∀ run g a, P run g → joins g a = true → P (run ++ [a]) (join g a))
include hnew hjoin

theorem forall_cutFrom (h : P run g) : ∀ c ∈ cutFrom joins join new run g l, P c.1 c.2 := by
  induction l generalizing run g with
  | nil =>
    intro c hc
    obtain rfl := List.mem_singleton.mp hc
    exact h
  | cons a l ih =>
    unfold cutFrom
    split
    · next hjoins => exact ih (hjoin run g a h hjoins)
    · exact List.forall_mem_cons.mpr ⟨h, ih (hnew a)⟩

/-- **The invariant rule**: what holds of a run of one element, and is kept when an element joins,
holds of every run. -/
theorem forall_cut : ∀ c ∈ cut joins join new l, P c.1 c.2 := by
  cases l with
  | nil => exact fun c hc => absurd hc List.not_mem_nil
  | cons a l => exact forall_cutFrom hnew hjoin (hnew a)

end Invariant

theorem isChain_cutFrom (run : List α) (g : γ) (l : List α) :
    (cutFrom joins join new run g l).IsChain fun c d =>
      ∃ a, d.1.head? = some a ∧ joins c.2 a = false := by
  induction l generalizing run g with
  | nil => exact List.isChain_singleton _
  | cons a l ih =>
    unfold cutFrom
    split
    · exact ih (run ++ [a]) (join g a)
    · next hjoins =>
      refine List.isChain_cons.mpr ⟨fun d hd => ?_, ih [a] (new a)⟩
      -- the next run begins with `a`
      obtain ⟨more, g', cuts, h⟩ : ∃ more g' cuts,
          cutFrom joins join new [a] (new a) l = ([a] ++ more, g') :: cuts :=
        exists_cutFrom_eq [a] (new a) l
      rw [h, List.head?_cons, Option.mem_some_iff] at hd
      subst hd
      exact ⟨a, rfl, Bool.eq_false_iff.mpr hjoins⟩

/-- **A run ends** where the next element does not join it. -/
theorem isChain_cut (l : List α) : (cut joins join new l).IsChain fun c d =>
    ∃ a, d.1.head? = some a ∧ joins c.2 a = false := by
  cases l with
  | nil => exact List.isChain_nil
  | cons a l => exact isChain_cutFrom [a] (new a) l

end Cuts
