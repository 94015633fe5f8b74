import Mathlib.Order.Lattice
import Mathlib.Data.List.Basic

/-!
# Logs sorted by a stamp

A list whose elements carry strictly increasing stamps. `upTo stamp t log` is the part with a
stamp up to `t`.

* `upTo_append`: what is appended later, with larger stamps, does not change it.
* `upTo_split`: it grows with `t` by the elements in between; `between_split`: so does what is
  between two stamps.
* `take_eq_upTo`: a first part of a sorted log is the part up to its last stamp.
* `eq_of_mem_iff`: a sorted log is determined by its elements.
-/

namespace SortedLog

variable {α κ : Type*} [LinearOrder κ] (stamp : α → κ)

/-- The stamps increase strictly. -/
def Sorted (log : List α) : Prop := log.Pairwise fun a b => stamp a < stamp b

/-- The elements with a stamp up to `t`. -/
def upTo (t : κ) (log : List α) : List α := log.filter fun a => stamp a ≤ t

/-- The elements with a stamp after `s` and up to `t`. -/
def between (s t : κ) (log : List α) : List α := log.filter fun a => s < stamp a ∧ stamp a ≤ t

variable {stamp} {log l r : List α} {s t u : κ} {a : α}

theorem mem_upTo : a ∈ upTo stamp t log ↔ a ∈ log ∧ stamp a ≤ t := by
  simp [upTo]

theorem mem_between : a ∈ between stamp s t log ↔ a ∈ log ∧ s < stamp a ∧ stamp a ≤ t := by
  simp [between]

theorem upTo_append (h : ∀ a ∈ r, t < stamp a) : upTo stamp t (l ++ r) = upTo stamp t l := by
  have hr : upTo stamp t r = [] :=
    List.filter_eq_nil_iff.mpr fun a ha => by simpa using h a ha
  have happ : upTo stamp t (l ++ r) = upTo stamp t l ++ upTo stamp t r := List.filter_append ..
  rw [happ, hr, List.append_nil]

/-- Everything, when `t` bounds the stamps. -/
theorem upTo_eq_self (h : ∀ a ∈ log, stamp a ≤ t) : upTo stamp t log = log :=
  List.filter_eq_self.mpr fun a ha => by simpa using h a ha

/-- Nothing, when the stamps are all after `t`. -/
theorem upTo_eq_nil (h : ∀ a ∈ log, t < stamp a) : upTo stamp t log = [] :=
  List.filter_eq_nil_iff.mpr fun a ha => by simpa using h a ha

/-- **The part up to a later stamp adds the elements in between.** -/
theorem upTo_split (hlog : Sorted stamp log) (hst : s ≤ t) :
    upTo stamp t log = upTo stamp s log ++ between stamp s t log := by
  induction log with
  | nil => rfl
  | cons a log ih =>
    have ha := List.pairwise_cons.mp hlog
    by_cases hs : stamp a ≤ s
    · have hb : between stamp s t (a :: log) = between stamp s t log :=
        List.filter_cons_of_neg (by simp [not_lt.mpr hs])
      have hu : ∀ u, s ≤ u → upTo stamp u (a :: log) = a :: upTo stamp u log :=
        fun u hu => List.filter_cons_of_pos (by simpa using hs.trans hu)
      rw [hu t hst, hu s le_rfl, hb, ih ha.2, List.cons_append]
    · -- from the first element after `s` on, the part up to `s` is empty
      have hlt : s < stamp a := not_le.mp hs
      have hall : ∀ b ∈ a :: log, s < stamp b := by
        intro b hb
        rcases List.mem_cons.mp hb with rfl | hb
        · exact hlt
        · exact hlt.trans (ha.1 b hb)
      rw [upTo_eq_nil hall, List.nil_append]
      refine List.filter_congr fun b hb => ?_
      simp [hall b hb]

/-- The part up to a stamp comes first. -/
theorem exists_upTo_append (hlog : Sorted stamp log) (t : κ) :
    ∃ r, log = upTo stamp t log ++ r := by
  induction log with
  | nil => exact ⟨[], rfl⟩
  | cons a log ih =>
    have ha := List.pairwise_cons.mp hlog
    by_cases hat : stamp a ≤ t
    · obtain ⟨r, hr⟩ := ih ha.2
      have hu : upTo stamp t (a :: log) = a :: upTo stamp t log :=
        List.filter_cons_of_pos (by simpa using hat)
      exact ⟨r, by rw [hu, List.cons_append, ← hr]⟩
    · have hall : ∀ b ∈ a :: log, t < stamp b := by
        intro b hb
        rcases List.mem_cons.mp hb with rfl | hb
        · exact not_le.mp hat
        · exact (not_le.mp hat).trans (ha.1 b hb)
      exact ⟨a :: log, by rw [upTo_eq_nil hall, List.nil_append]⟩

theorem between_append (h : ∀ a ∈ r, t < stamp a) :
    between stamp s t (l ++ r) = between stamp s t l := by
  have hr : between stamp s t r = [] :=
    List.filter_eq_nil_iff.mpr fun a ha => by simp [not_le.mpr (h a ha)]
  have happ : between stamp s t (l ++ r) = between stamp s t l ++ between stamp s t r :=
    List.filter_append ..
  rw [happ, hr, List.append_nil]

theorem between_self : between stamp s s log = [] :=
  List.filter_eq_nil_iff.mpr fun a _ => by simp [not_le]

/-- What is after `s` and up to `u`, in two parts. -/
theorem between_split (hlog : Sorted stamp log) (hst : s ≤ t) (htu : t ≤ u) :
    between stamp s u log = between stamp s t log ++ between stamp t u log := by
  have hu := upTo_split hlog (hst.trans htu)
  rw [upTo_split hlog htu, upTo_split hlog hst, List.append_assoc] at hu
  exact (List.append_cancel_left hu).symm

/-- The last element of a sorted log has the largest stamp. -/
theorem le_getLast (h : Sorted stamp log) (hne : log ≠ []) (ha : a ∈ log) :
    stamp a ≤ stamp (log.getLast hne) := by
  unfold Sorted at h
  rw [← List.dropLast_append_getLast hne] at h ha
  rcases List.mem_append.mp ha with ha | ha
  · exact ((List.pairwise_append.mp h).2.2 a ha _ (List.mem_singleton.mpr rfl)).le
  · rw [List.mem_singleton.mp ha]

/-- A first part of a sorted log. -/
theorem take_eq_upTo (h : Sorted stamp log) {n : Nat} {e : α} (htake : log.take n = l ++ [e]) :
    l ++ [e] = upTo stamp (stamp e) log := by
  have hlog : (l ++ [e]) ++ log.drop n = log := by
    rw [← htake, List.take_append_drop]
  have hsorted : Sorted stamp ((l ++ [e]) ++ log.drop n) := by rwa [hlog]
  obtain ⟨htaken, -, hlt⟩ := List.pairwise_append.mp hsorted
  have hdrop : ∀ a ∈ log.drop n, stamp e < stamp a := hlt e (by simp)
  have hle : ∀ a ∈ l ++ [e], stamp a ≤ stamp e := by
    intro a ha
    have hlast := le_getLast htaken (by simp) ha
    simpa using hlast
  rw [← hlog, upTo_append hdrop, upTo_eq_self hle]

/-- **A sorted log is determined by its elements.** -/
theorem eq_of_mem_iff (hl : Sorted stamp l) (hr : Sorted stamp r) (h : ∀ a, a ∈ l ↔ a ∈ r) :
    l = r := by
  induction l generalizing r with
  | nil =>
    cases r with
    | nil => rfl
    | cons b r => exact absurd ((h b).mpr List.mem_cons_self) List.not_mem_nil
  | cons a l ih =>
    cases r with
    | nil => exact absurd ((h a).mp List.mem_cons_self) List.not_mem_nil
    | cons b r =>
      have ha := List.pairwise_cons.mp hl
      have hb := List.pairwise_cons.mp hr
      -- the heads are the least elements of the two lists
      have hab : a = b := by
        rcases List.mem_cons.mp ((h a).mp List.mem_cons_self) with e | har
        · exact e
        rcases List.mem_cons.mp ((h b).mpr List.mem_cons_self) with e | hbl
        · exact e.symm
        exact absurd (ha.1 b hbl) (not_lt.mpr (hb.1 a har).le)
      subst hab
      refine congrArg (a :: ·) (ih ha.2 hb.2 fun c => ?_)
      constructor
      · intro hc
        refine (List.mem_cons.mp ((h c).mp (List.mem_cons_of_mem a hc))).resolve_left ?_
        rintro rfl
        exact absurd (ha.1 c hc) (lt_irrefl _)
      · intro hc
        refine (List.mem_cons.mp ((h c).mpr (List.mem_cons_of_mem a hc))).resolve_left ?_
        rintro rfl
        exact absurd (hb.1 c hc) (lt_irrefl _)

end SortedLog
