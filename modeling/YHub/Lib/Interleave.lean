import Mathlib.Logic.Relation
import Mathlib.Logic.Function.Basic

/-!
# Processes over a shared state

A system of processes `i : ι`, each with a local state, over one shared state. `Step env proc` is
one step of it: of the environment (`env`), which may change the shared state and may look at every
local state, or of one process (`proc`), which changes the shared state and its own local state.

What a step does to the local states: `update_cases`, `forall_update`. The rules for what holds in
every state of a run:

* `reach_invariant`: non-interference. An invariant `I` of the shared state and an assertion `L`
  for each process hold throughout when every step keeps `I` and the assertion of the process that
  takes it, and no step interferes with the assertion of another process.
* `reach_guarantee`: the same with a guarantee: every process step changes the shared state within
  `G`, and assertions are stable under `G`.
* `reach_assertion`: an assertion about the whole state that every step keeps.
* `reach_strengthen`: what always holds may be assumed of the states in which steps are taken.
* `Guarded`: steps that are restricted by what a process does next, in view of all others;
  `guarded_invariant`: an assertion about the whole state that every step keeps; `guarded_rel`:
  a relation that every step keeps the shared state in.
* `run_alone`, `reach_alone`: what a process does on its own (`Alone`) is part of a run.
-/

namespace Interleave

variable {σ ι κ : Type*}

/-! ## Local states after a step -/

/-- The local state of a process is the new one, or what it was. -/
theorem update_cases [DecidableEq ι] {ls : ι → κ} {i j : ι} {l k : κ}
    (h : Function.update ls i l j = k) : j = i ∧ l = k ∨ j ≠ i ∧ ls j = k := by
  by_cases hj : j = i
  · subst hj
    rw [Function.update_self] at h
    exact Or.inl ⟨rfl, h⟩
  · rw [Function.update_of_ne hj] at h
    exact Or.inr ⟨hj, h⟩

/-- An assertion that holds of every local state, and of the new one. -/
theorem forall_update [DecidableEq ι] {P : κ → Prop} {ls : ι → κ} {i : ι} {l : κ}
    (h : ∀ j, P (ls j)) (hl : P l) (j : ι) : P (Function.update ls i l j) :=
  (Function.forall_update_iff ls fun _ => P).mpr ⟨hl, fun j _ => h j⟩ j

/-! ## Systems -/

/-- A shared state and the local states of the processes. -/
abbrev State (σ ι κ : Type*) := σ × (ι → κ)

/-- One step of the environment or of one process. -/
inductive Step [DecidableEq ι] (env : State σ ι κ → σ → Prop) (proc : σ → κ → σ → κ → Prop) :
    State σ ι κ → State σ ι κ → Prop
  | env (s : σ) (ls : ι → κ) (s' : σ) (h : env (s, ls) s') : Step env proc (s, ls) (s', ls)
  | proc (s : σ) (ls : ι → κ) (i : ι) (s' : σ) (l : κ) (h : proc s (ls i) s' l) :
      Step env proc (s, ls) (s', Function.update ls i l)

variable [DecidableEq ι] {env env' : State σ ι κ → σ → Prop}
  {proc proc' : σ → κ → σ → κ → Prop} {I : σ → Prop} {L : σ → κ → Prop} {x₀ x : State σ ι κ}

/-- What holds of a state: the invariant, and every process's assertion. -/
def Holds (I : σ → Prop) (L : σ → κ → Prop) (x : State σ ι κ) : Prop := I x.1 ∧ ∀ i, L x.1 (x.2 i)

/-- **The rule of non-interference.** -/
theorem reach_invariant (h₀ : Holds I L x₀)
    (henv : ∀ s ls s', Holds I L (s, ls) → env (s, ls) s' → I s' ∧ ∀ i, L s' (ls i))
    (hproc : ∀ s l s' l', I s → L s l → proc s l s' l' →
      I s' ∧ L s' l' ∧ ∀ k, L s k → L s' k)
    (hx : Relation.ReflTransGen (Step env proc) x₀ x) : Holds I L x := by
  induction hx with
  | refl => exact h₀
  | tail _ hstep ih =>
    cases hstep with
    | env s ls s' h => exact henv s ls s' ih h
    | proc s ls i s' l h =>
      obtain ⟨hI, hl, hothers⟩ := hproc s (ls i) s' l ih.1 (ih.2 i) h
      exact ⟨hI, forall_update (fun j => hothers (ls j) (ih.2 j)) hl⟩

/-- **The rule with a guarantee.** -/
theorem reach_guarantee {G : σ → σ → Prop} (h₀ : Holds I L x₀)
    (hstable : ∀ s s' k, I s → I s' → G s s' → L s k → L s' k)
    (henv : ∀ s ls s', Holds I L (s, ls) → env (s, ls) s' → I s' ∧ ∀ i, L s' (ls i))
    (hproc : ∀ s l s' l', I s → L s l → proc s l s' l' → I s' ∧ G s s' ∧ L s' l')
    (hx : Relation.ReflTransGen (Step env proc) x₀ x) : Holds I L x := by
  refine reach_invariant h₀ henv (fun s l s' l' hI hl h => ?_) hx
  obtain ⟨hI', hG, hl'⟩ := hproc s l s' l' hI hl h
  exact ⟨hI', hl', fun k hk => hstable s s' k hI hI' hG hk⟩

/-- **The rule of invariants**, for an assertion about the whole state. -/
theorem reach_assertion {P : State σ ι κ → Prop} (h₀ : P x₀)
    (henv : ∀ s ls s', P (s, ls) → env (s, ls) s' → P (s', ls))
    (hproc : ∀ s ls i s' l, P (s, ls) → proc s (ls i) s' l → P (s', Function.update ls i l))
    (hx : Relation.ReflTransGen (Step env proc) x₀ x) : P x := by
  induction hx with
  | refl => exact h₀
  | tail _ hstep ih =>
    cases hstep with
    | env s ls s' h => exact henv s ls s' ih h
    | proc s ls i s' l h => exact hproc s ls i s' l ih h

/-- **Steps may be strengthened by what always holds.** -/
theorem reach_strengthen {P : State σ ι κ → Prop}
    (hP : ∀ x, Relation.ReflTransGen (Step env proc) x₀ x → P x)
    (henv : ∀ s ls s', P (s, ls) → env (s, ls) s' → env' (s, ls) s')
    (hproc : ∀ s ls i s' l, P (s, ls) → proc s (ls i) s' l → proc' s (ls i) s' l)
    (hx : Relation.ReflTransGen (Step env proc) x₀ x) :
    Relation.ReflTransGen (Step env' proc') x₀ x := by
  induction hx with
  | refl => exact Relation.ReflTransGen.refl
  | tail hreach hstep ih =>
    have hp := hP _ hreach
    refine ih.tail ?_
    cases hstep with
    | env s ls s' h => exact Step.env s ls s' (henv s ls s' hp h)
    | proc s ls i s' l h => exact Step.proc s ls i s' l (hproc s ls i s' l hp h)

/-! ## Guarded steps -/

/-- One step that `guard` admits: it sees the state before, who takes the step, and the local state
that the process goes to. -/
inductive Guarded (env : State σ ι κ → σ → Prop) (proc : σ → κ → σ → κ → Prop)
    (guard : State σ ι κ → ι → κ → Prop) : State σ ι κ → State σ ι κ → Prop
  | env (s : σ) (ls : ι → κ) (s' : σ) (h : env (s, ls) s') : Guarded env proc guard (s, ls) (s', ls)
  | proc (s : σ) (ls : ι → κ) (i : ι) (s' : σ) (l : κ) (h : proc s (ls i) s' l)
      (hg : guard (s, ls) i l) : Guarded env proc guard (s, ls) (s', Function.update ls i l)

variable {guard : State σ ι κ → ι → κ → Prop}

/-- **The rule of invariants.** -/
theorem guarded_invariant {P : State σ ι κ → Prop} (h₀ : P x₀)
    (henv : ∀ s ls s', P (s, ls) → env (s, ls) s' → P (s', ls))
    (hproc : ∀ s ls i s' l, P (s, ls) → proc s (ls i) s' l → guard (s, ls) i l →
      P (s', Function.update ls i l))
    (hx : Relation.ReflTransGen (Guarded env proc guard) x₀ x) : P x := by
  induction hx with
  | refl => exact h₀
  | tail _ hstep ih =>
    cases hstep with
    | env s ls s' h => exact henv s ls s' ih h
    | proc s ls i s' l h hg => exact hproc s ls i s' l ih h hg

/-- A stricter guard has fewer runs. -/
theorem guarded_mono {guard' : State σ ι κ → ι → κ → Prop}
    (hguard : ∀ x i l, guard x i l → guard' x i l)
    (hx : Relation.ReflTransGen (Guarded env proc guard) x₀ x) :
    Relation.ReflTransGen (Guarded env proc guard') x₀ x := by
  refine Relation.ReflTransGen.mono (fun y z h => ?_) _ _ hx
  cases h with
  | env s ls s' h => exact Guarded.env s ls s' h
  | proc s ls i s' l h hg => exact Guarded.proc s ls i s' l h (hguard _ _ _ hg)

/-- **The rule of relations**: what every step keeps the shared state in, a run keeps it in. -/
theorem guarded_rel {R : σ → σ → Prop} (hrefl : ∀ s, R s s)
    (htrans : ∀ s t u, R s t → R t u → R s u)
    (henv : ∀ s ls s', env (s, ls) s' → R s s')
    (hproc : ∀ s ls i s' l, proc s (ls i) s' l → guard (s, ls) i l → R s s')
    (hx : Relation.ReflTransGen (Guarded env proc guard) x₀ x) : R x₀.1 x.1 := by
  induction hx with
  | refl => exact hrefl _
  | tail _ hstep ih =>
    cases hstep with
    | env s ls s' h => exact htrans _ _ _ ih (henv s ls s' h)
    | proc s ls i s' l h hg => exact htrans _ _ _ ih (hproc s ls i s' l h hg)

/-! ## Undisturbed processes -/

/-- The steps of one process on its own. -/
def Alone (proc : σ → κ → σ → κ → Prop) : σ × κ → σ × κ → Prop :=
  Relation.ReflTransGen fun x y => proc x.1 x.2 y.1 y.2

namespace Alone

variable {y z : σ × κ} {s s' : σ} {k k' : κ}

theorem refl : Alone proc y y := Relation.ReflTransGen.refl

theorem trans {y' : σ × κ} (h : Alone proc y y') (h' : Alone proc y' z) : Alone proc y z :=
  Relation.ReflTransGen.trans h h'

/-- One more step. -/
theorem step (h : Alone proc y (s, k)) (hs : proc s k s' k') : Alone proc y (s', k') :=
  Relation.ReflTransGen.tail h hs

/-- One step before. -/
theorem head (hs : proc s k s' k') (h : Alone proc (s', k') y) : Alone proc (s, k) y :=
  Relation.ReflTransGen.head hs h

theorem mono (hproc : ∀ s k s' k', proc s k s' k' → proc' s k s' k') (h : Alone proc y z) :
    Alone proc' y z := by
  induction h with
  | refl => exact Relation.ReflTransGen.refl
  | tail _ hstep ih => exact Relation.ReflTransGen.tail ih (hproc _ _ _ _ hstep)

end Alone

/-- An undisturbed process in runs of any kind of step that its steps are among. -/
theorem run_alone {R : State σ ι κ → State σ ι κ → Prop} {i : ι} {y z : σ × κ}
    (hR : ∀ ls s s' k, proc s (ls i) s' k → R (s, ls) (s', Function.update ls i k))
    (h : Alone proc y z) {ls : ι → κ} (hi : ls i = y.2) :
    Relation.ReflTransGen R (y.1, ls) (z.1, Function.update ls i z.2) := by
  induction h with
  | refl =>
    rw [← hi, Function.update_eq_self]
  | tail _ hstep ih =>
    rename_i a b _
    have hstep : proc a.1 (Function.update ls i a.2 i) b.1 b.2 := by
      rwa [Function.update_self]
    have hrun : Relation.ReflTransGen R _ _ := ih.tail (hR _ a.1 b.1 b.2 hstep)
    rwa [Function.update_idem] at hrun

/-- **An undisturbed process is part of a run.** -/
theorem reach_alone {i : ι} {y z : σ × κ} (h : Alone proc y z) {ls : ι → κ} (hi : ls i = y.2) :
    Relation.ReflTransGen (Step env proc) (y.1, ls) (z.1, Function.update ls i z.2) :=
  run_alone (fun ls s s' k hstep => Step.proc s ls i s' k hstep) h hi

end Interleave
