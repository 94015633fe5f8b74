import Mathlib.Data.List.Basic

/-!
# Computations that may fail

What a computation in `Except` has done if it succeeds: a proof takes it apart at its binds, and a
loop by its invariant.

* `bind_eq_ok`, `map_eq_ok`: the parts have succeeded.
* `foldlM_eq_ok`: a loop keeps what each of its steps keeps.
* `exists_mapM_eq_ok`, `exists_mapM_eq_error`: all elements succeed, or the list fails.
* `foldlM_distinct_eq_ok`: a loop that rejects a key it has seen succeeds if each element does alone
  and the keys are distinct.
-/

universe u v

namespace Outcome

variable {ε : Type u} {α β : Type v}

theorem bind_eq_ok {x : Except ε α} {f : α → Except ε β} {b : β} :
    (x >>= f) = .ok b ↔ ∃ a, x = .ok a ∧ f a = .ok b := by
  cases x <;> simp [bind, Except.bind]

theorem map_eq_ok {x : Except ε α} {f : α → β} {b : β} :
    x.map f = .ok b ↔ ∃ a, x = .ok a ∧ f a = b := by
  cases x <;> simp [Except.map]

theorem mapError_eq_ok {ε' : Type*} {x : Except ε α} {f : ε → ε'} {a : α} :
    x.mapError f = .ok a ↔ x = .ok a := by
  cases x <;> simp [Except.mapError]

/-- **The invariant of a loop.** -/
theorem foldlM_eq_ok {P : List α → β → Prop} {f : β → α → Except ε β} {l : List α} {b b' : β}
    (hnil : P [] b)
    (hstep : ∀ done a c c', done ++ [a] <+: l → P done c → f c a = .ok c' → P (done ++ [a]) c')
    (h : l.foldlM f b = .ok b') : P l b' := by
  have hrest (done rest : List α) (c : β) (hl : done ++ rest = l) (hc : P done c)
      (h : rest.foldlM f c = .ok b') : P l b' := by
    induction rest generalizing done c with
    | nil =>
      obtain rfl := Except.ok.inj h
      rwa [← hl, List.append_nil]
    | cons a rest ih =>
      rw [List.foldlM_cons] at h
      obtain ⟨c', hc', h⟩ := bind_eq_ok.mp h
      rw [← List.singleton_append, ← List.append_assoc] at hl
      exact ih (done ++ [a]) c' hl (hstep done a c c' ⟨rest, hl⟩ hc hc') h
  exact hrest [] l b rfl hnil h

theorem exists_mapM_eq_ok {f : α → Except ε β} {l : List α} (h : ∀ a ∈ l, ∃ b, f a = .ok b) :
    ∃ bs, l.mapM f = .ok bs ∧ ∀ b, b ∈ bs ↔ ∃ a ∈ l, f a = .ok b := by
  induction l with
  | nil => exact ⟨[], rfl, by simp⟩
  | cons a l ih =>
    obtain ⟨⟨b, hb⟩, hl⟩ := List.forall_mem_cons.mp h
    obtain ⟨bs, hbs, hmem⟩ := ih hl
    refine ⟨b :: bs, by rw [List.mapM_cons, hb, hbs]; rfl, fun d => ?_⟩
    rw [List.mem_cons, List.exists_mem_cons_iff, hb, hmem, Except.ok.injEq, eq_comm]

theorem exists_of_mapM_eq_ok {f : α → Except ε β} {l : List α} {bs : List β}
    (h : l.mapM f = .ok bs) {a : α} (ha : a ∈ l) : ∃ b, f a = .ok b := by
  induction l generalizing bs with
  | nil => exact absurd ha List.not_mem_nil
  | cons a' l ih =>
    rw [List.mapM_cons] at h
    obtain ⟨b, hb, h⟩ := bind_eq_ok.mp h
    obtain ⟨bs', hbs', -⟩ := bind_eq_ok.mp h
    rcases List.mem_cons.mp ha with rfl | ha
    · exact ⟨b, hb⟩
    · exact ih hbs' ha

theorem exists_mapM_eq_error {f : α → Except ε β} {l : List α} {a : α} {e : ε} (ha : a ∈ l)
    (h : f a = .error e) : ∃ e', l.mapM f = .error e' := by
  cases hbs : l.mapM f with
  | error e' => exact ⟨e', rfl⟩
  | ok bs =>
    obtain ⟨b, hb⟩ := exists_of_mapM_eq_ok hbs ha
    exact absurd (h.symm.trans hb) (by simp)

/-- What a list makes are what its elements make. -/
theorem mem_of_mapM_eq_ok {f : α → Except ε β} {l : List α} {bs : List β} (h : l.mapM f = .ok bs)
    {b : β} : b ∈ bs ↔ ∃ a ∈ l, f a = .ok b := by
  obtain ⟨bs', hbs', hmem⟩ := exists_mapM_eq_ok fun a ha => exists_of_mapM_eq_ok h ha
  obtain rfl := Except.ok.inj (h.symm.trans hbs')
  exact hmem b

theorem mapM_cons_eq_ok {f : α → Except ε β} {a : α} {l : List α} {bs : List β} :
    (a :: l).mapM f = .ok bs ↔ ∃ b bs', f a = .ok b ∧ l.mapM f = .ok bs' ∧ bs = b :: bs' := by
  rw [List.mapM_cons, bind_eq_ok]
  constructor
  · rintro ⟨b, hb, h⟩
    obtain ⟨bs', hbs', h⟩ := bind_eq_ok.mp h
    exact ⟨b, bs', hb, hbs', (Except.ok.inj h).symm⟩
  · rintro ⟨b, bs', hb, hbs', rfl⟩
    exact ⟨b, hb, bind_eq_ok.mpr ⟨bs', hbs', rfl⟩⟩

/-- A part of what the elements make that is known of them. -/
theorem map_of_mapM_eq_ok {γ : Type*} {f : α → Except ε β} {l : List α} {bs : List β}
    (h : l.mapM f = .ok bs) {g : β → γ} {k : α → γ} (hg : ∀ a b, f a = .ok b → g b = k a) :
    bs.map g = l.map k := by
  induction l generalizing bs with
  | nil =>
    obtain rfl := Except.ok.inj h
    rfl
  | cons a l ih =>
    obtain ⟨b, bs', hb, hbs', rfl⟩ := mapM_cons_eq_ok.mp h
    rw [List.map_cons, List.map_cons, hg a b hb, ih hbs']

/-- In another order, the elements make the same. -/
theorem mapM_perm {f : α → Except ε β} {l l' : List α} (h : l.Perm l') {bs : List β}
    (hbs : l.mapM f = .ok bs) : ∃ bs', l'.mapM f = .ok bs' ∧ bs.Perm bs' := by
  induction h generalizing bs with
  | nil => exact ⟨bs, hbs, .refl bs⟩
  | cons a _ ih =>
    obtain ⟨b, cs, hb, hcs, rfl⟩ := mapM_cons_eq_ok.mp hbs
    obtain ⟨cs', hcs', hperm⟩ := ih hcs
    exact ⟨b :: cs', mapM_cons_eq_ok.mpr ⟨b, cs', hb, hcs', rfl⟩, hperm.cons b⟩
  | swap a a' l =>
    obtain ⟨b', _, hb', htail, rfl⟩ := mapM_cons_eq_ok.mp hbs
    obtain ⟨b, cs, hb, hcs, rfl⟩ := mapM_cons_eq_ok.mp htail
    exact ⟨b :: b' :: cs, mapM_cons_eq_ok.mpr
      ⟨b, b' :: cs, hb, mapM_cons_eq_ok.mpr ⟨b', cs, hb', hcs, rfl⟩, rfl⟩, .swap b b' cs⟩
  | trans _ _ ih ih' =>
    obtain ⟨cs, hcs, hperm⟩ := ih hbs
    obtain ⟨cs', hcs', hperm'⟩ := ih' hcs
    exact ⟨cs', hcs', hperm.trans hperm'⟩

/-- What holds of two results holds of what makes them, one before the other, and conversely. -/
theorem pairwise_mapM_iff {f : α → Except ε β} {l : List α} {bs : List β}
    (h : l.mapM f = .ok bs) {R : β → β → Prop} :
    bs.Pairwise R ↔ l.Pairwise fun a a' => ∀ b b', f a = .ok b → f a' = .ok b' → R b b' := by
  induction l generalizing bs with
  | nil =>
    obtain rfl := Except.ok.inj h
    exact ⟨fun _ => .nil, fun _ => .nil⟩
  | cons a l ih =>
    obtain ⟨b, bs', hb, hbs', rfl⟩ := mapM_cons_eq_ok.mp h
    rw [List.pairwise_cons, List.pairwise_cons, ih hbs']
    refine and_congr_left fun _ => ?_
    constructor
    · intro hR a' ha' c c' hc hc'
      obtain rfl := Except.ok.inj (hb.symm.trans hc)
      exact hR c' ((mem_of_mapM_eq_ok hbs').mpr ⟨a', ha', hc'⟩)
    · intro hR b' hb'
      obtain ⟨a', ha', hc'⟩ := (mem_of_mapM_eq_ok hbs').mp hb'
      exact hR a' ha' b b' hb hc'

/-- **A loop that rejects a key it has seen**: each element succeeds alone, and the keys are
distinct. -/
theorem foldlM_distinct_eq_ok {κ γ : Type v} {f : α → Except ε γ} {key : γ → κ} {add : β → γ → β}
    {step : List κ × β → α → Except ε (List κ × β)}
    (hstep : ∀ s a s', step s a = .ok s' ↔
      ∃ c, f a = .ok c ∧ key c ∉ s.1 ∧ s' = (s.1 ++ [key c], add s.2 c))
    {l : List α} {s s' : List κ × β} :
    l.foldlM step s = .ok s' ↔ ∃ cs, l.mapM f = .ok cs ∧ (cs.map key).Nodup ∧
      (∀ c ∈ cs, key c ∉ s.1) ∧ s' = (s.1 ++ cs.map key, cs.foldl add s.2) := by
  induction l generalizing s with
  | nil =>
    constructor
    · intro h
      obtain rfl := Except.ok.inj h
      exact ⟨[], rfl, List.nodup_nil, by simp, by simp⟩
    · rintro ⟨cs, hcs, -, -, rfl⟩
      obtain rfl := Except.ok.inj hcs
      exact congrArg Except.ok (Prod.ext (List.append_nil _).symm rfl)
  | cons a l ih =>
    rw [List.foldlM_cons, bind_eq_ok]
    constructor
    · rintro ⟨s₁, hs₁, h⟩
      obtain ⟨c, hc, hnew, rfl⟩ := (hstep s a s₁).mp hs₁
      obtain ⟨cs, hcs, hnodup, hfresh, rfl⟩ := ih.mp h
      have hother : ∀ c' ∈ cs, key c' ∉ s.1 ∧ key c' ≠ key c := by
        intro c' hc'
        have hout := hfresh c' hc'
        rw [List.mem_append, not_or, List.mem_singleton] at hout
        exact hout
      refine ⟨c :: cs, mapM_cons_eq_ok.mpr ⟨c, cs, hc, hcs, rfl⟩, ?_, ?_, by simp⟩
      · rw [List.map_cons, List.nodup_cons]
        refine ⟨fun hmem => ?_, hnodup⟩
        obtain ⟨c', hc', hkey⟩ := List.mem_map.mp hmem
        exact (hother c' hc').2 hkey
      · exact List.forall_mem_cons.mpr ⟨hnew, fun c' hc' => (hother c' hc').1⟩
    · rintro ⟨cs', hcs', hnodup, hfresh, rfl⟩
      obtain ⟨c, cs, hc, hcs, rfl⟩ := mapM_cons_eq_ok.mp hcs'
      rw [List.map_cons, List.nodup_cons] at hnodup
      rw [List.forall_mem_cons] at hfresh
      refine ⟨_, (hstep s a _).mpr ⟨c, hc, hfresh.1, rfl⟩, ih.mpr ?_⟩
      refine ⟨cs, hcs, hnodup.2, fun c' hc' hmem => ?_, by simp⟩
      rcases List.mem_append.mp hmem with hmem | hmem
      · exact hfresh.2 c' hc' hmem
      · exact hnodup.1 (List.mem_singleton.mp hmem ▸ List.mem_map_of_mem hc')

end Outcome
