import Mathlib.Order.Nat

/-!
# Leases of tasks in a queue

A queue knows of every task that is pending to whom it was delivered last, and when (`Delivery`).
Whoever has a task has to renew it: `Due k i d` says that `k` will have renewed the task `i` by the
time `d`. There may be several such dates, and all of them are kept.

* `Exclusive`: nobody else has a task, and the dates come before the delivery is `idle` old.
* `Exclusive.mono`, `.claim`, `.renew`, `.deliver`: what keeps it: dates that come earlier, a claim
  of tasks whose delivery is old enough, a renewal by who has the tasks, and the delivery of tasks
  that nobody has.
* `Exclusive.not_idle`: a claim finds no task that somebody has.
-/

namespace Lease

variable {κ ι : Type*}

/-- The last delivery of a task; at first it is nobody's. -/
structure Delivery (κ : Type*) where
  consumer : Option κ
  time : Nat
  deriving DecidableEq, Repr

/-- **The invariant** of a queue and of who has which task. -/
structure Exclusive (idle : Nat) (pending : ι → Option (Delivery κ))
    (Due : κ → ι → Nat → Prop) : Prop where
  owner : ∀ k i d p, Due k i d → pending i = some p → p.consumer = some k ∧ d < p.time + idle
  one : ∀ k k' i d d', Due k i d → Due k' i d' → k = k'

namespace Exclusive

variable {idle now : Nat} {pending pending' : ι → Option (Delivery κ)}
  {Due Due' : κ → ι → Nat → Prop} {k : κ} {S : ι → Prop}

/-- No date is later. -/
theorem mono (h : Exclusive idle pending Due)
    (hdue : ∀ k i d', Due' k i d' → ∃ d, Due k i d ∧ d' ≤ d) : Exclusive idle pending Due' where
  owner k i d' p hd' hp := by
    obtain ⟨d, hd, hle⟩ := hdue k i d' hd'
    obtain ⟨hk, hlt⟩ := h.owner k i d p hd hp
    exact ⟨hk, hle.trans_lt hlt⟩
  one k k' i d₁ d₂ h₁ h₂ := by
    obtain ⟨d, hd, -⟩ := hdue k i d₁ h₁
    obtain ⟨d', hd', -⟩ := hdue k' i d₂ h₂
    exact h.one k k' i d d' hd hd'

/-- Who has a task renews it in time, so its delivery is not old. -/
theorem not_idle (h : Exclusive idle pending Due) (hnow : ∀ k i d, Due k i d → now ≤ d) {i : ι}
    {d : Nat} {p : Delivery κ} (hd : Due k i d) (hp : pending i = some p) :
    now < p.time + idle := (hnow k i d hd).trans_lt (h.owner k i d p hd hp).2

/-- A claim of the tasks `S` by `k`. -/
theorem claim (h : Exclusive idle pending Due) (hnow : ∀ k i d, Due k i d → now ≤ d)
    (hidle : ∀ i, S i → ∃ p, pending i = some p ∧ p.time + idle ≤ now)
    (hin : ∀ i p, S i → pending' i = some p → p = ⟨some k, now⟩)
    (hout : ∀ i, ¬ S i → pending' i = pending i)
    (hdue : ∀ k' i d, Due' k' i d → Due k' i d ∨ k' = k ∧ S i ∧ d < now + idle) :
    Exclusive idle pending' Due' := by
  -- what is claimed is nobody's
  have hfree : ∀ k' i d, S i → ¬ Due k' i d := by
    intro k' i d hi hd
    obtain ⟨p, hp, hle⟩ := hidle i hi
    exact absurd (h.not_idle hnow hd hp) (not_lt.mpr hle)
  constructor
  · intro k' i d p hd hp
    rcases hdue k' i d hd with hold | ⟨rfl, hi, hlt⟩
    · rw [hout i fun hi => hfree k' i d hi hold] at hp
      exact h.owner k' i d p hold hp
    · obtain rfl := hin i p hi hp
      exact ⟨rfl, hlt⟩
  · intro k₁ k₂ i d₁ d₂ h₁ h₂
    rcases hdue k₁ i d₁ h₁ with h₁ | ⟨rfl, hi, -⟩
    · rcases hdue k₂ i d₂ h₂ with h₂ | ⟨rfl, hi, -⟩
      · exact h.one k₁ k₂ i d₁ d₂ h₁ h₂
      · exact absurd h₁ (hfree k₁ i d₁ hi)
    · rcases hdue k₂ i d₂ h₂ with h₂ | ⟨rfl, -, -⟩
      · exact absurd h₂ (hfree k₂ i d₂ hi)
      · rfl

/-- A renewal of the tasks `S` by `k`, which has all of them. -/
theorem renew (h : Exclusive idle pending Due) (hheld : ∀ i, S i → ∃ d, Due k i d)
    (hin : ∀ i p, S i → pending' i = some p → p = ⟨some k, now⟩)
    (hout : ∀ i, ¬ S i → pending' i = pending i)
    (hdue : ∀ k' i d', Due' k' i d' →
      (∃ d, Due k' i d ∧ (¬ S i → d' ≤ d)) ∧ (S i → d' < now + idle)) :
    Exclusive idle pending' Due' := by
  constructor
  · intro k' i d' p hd' hp
    obtain ⟨⟨d, hd, hle⟩, hlt⟩ := hdue k' i d' hd'
    by_cases hi : S i
    · obtain rfl := hin i p hi hp
      obtain ⟨d₀, hd₀⟩ := hheld i hi
      exact ⟨congrArg some (h.one k k' i d₀ d hd₀ hd), hlt hi⟩
    · rw [hout i hi] at hp
      obtain ⟨hk, hlt⟩ := h.owner k' i d p hd hp
      exact ⟨hk, (hle hi).trans_lt hlt⟩
  · intro k₁ k₂ i d₁ d₂ h₁ h₂
    obtain ⟨⟨d, hd, -⟩, -⟩ := hdue k₁ i d₁ h₁
    obtain ⟨⟨d', hd', -⟩, -⟩ := hdue k₂ i d₂ h₂
    exact h.one k₁ k₂ i d d' hd hd'

/-- Tasks are removed, and tasks that nobody has are delivered. -/
theorem deliver (h : Exclusive idle pending Due)
    (hpending : ∀ i p, pending' i = some p → pending i = some p ∨ ∀ k d, ¬ Due k i d) :
    Exclusive idle pending' Due where
  owner k i d p hd hp := by
    rcases hpending i p hp with hp | hnew
    · exact h.owner k i d p hd hp
    · exact absurd hd (hnew k d)
  one := h.one

end Exclusive

end Lease
