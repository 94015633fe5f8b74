import Mathlib.Order.Lattice
import Mathlib.Order.MinMax

/-!
# The greatest of some values, where the first one wins

Values are compared by their ranks. Of two values the one of the greater rank is kept, and if the
ranks are the same, the first one. So a value is only replaced by one that is strictly newer.

* `join_assoc`, `foldl_join`: joining can be cut anywhere.
-/

namespace LeftMax

variable {ν α : Type*} [LinearOrder α] (rank : ν → α)

/-- The second value, if it is strictly greater. -/
def join (a b : ν) : ν := if rank a < rank b then b else a

variable {rank} {a b c : ν}

theorem join_eq_left (h : rank b ≤ rank a) : join rank a b = a := if_neg (not_lt.mpr h)

theorem join_eq_right (h : rank a < rank b) : join rank a b = b := if_pos h

theorem rank_join (rank : ν → α) (a b : ν) :
    rank (join rank a b) = max (rank a) (rank b) := by
  rcases lt_or_ge (rank a) (rank b) with h | h
  · rw [join_eq_right h, max_eq_right h.le]
  · rw [join_eq_left h, max_eq_left h]

theorem join_assoc : join rank (join rank a b) c = join rank a (join rank b c) := by
  rcases lt_or_ge (rank b) (rank c) with hbc | hbc
  · rw [join_eq_right hbc]
    rcases lt_or_ge (rank a) (rank b) with hab | hab
    · rw [join_eq_right hab, join_eq_right hbc, join_eq_right (hab.trans hbc)]
    · rw [join_eq_left hab]
  · rw [join_eq_left hbc, join_eq_left]
    rw [rank_join rank a b]
    exact hbc.trans (le_max_right _ _)

/-- What is joined first may be joined on its own. -/
theorem foldl_join (a b : ν) (l : List ν) :
    l.foldl (join rank) (join rank a b) = join rank a (l.foldl (join rank) b) := by
  induction l generalizing b with
  | nil => rfl
  | cons c l ih => rw [List.foldl_cons, List.foldl_cons, join_assoc, ih]

end LeftMax
