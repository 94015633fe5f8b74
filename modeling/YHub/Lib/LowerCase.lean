import Mathlib

/-!
# Lower case

`String.prototype.toLowerCase` of JavaScript: each character has a mapping to lower case, which may
be several characters, and only the capital sigma depends on where it stands (`Final_Sigma`). The
tables of Unicode are a parameter; what they say of ASCII is stated.

* `lowerFrom_append`: texts are mapped part by part, if no cased letter follows.
* `mem_of_mem_lowerFrom`: a character of ASCII that is not a letter comes from itself only.
-/

/-- What the tables of Unicode say of a character. -/
structure CaseTable where
  /-- `Lowercase_Mapping` -/
  lower : Char → List Char
  cased : Char → Bool
  /-- `Case_Ignorable` -/
  ignorable : Char → Bool
  lower_ascii : ∀ c : Char, c.toNat < 128 → lower c = [c.toLower]
  cased_ascii : ∀ c : Char, c.toNat < 128 → cased c = c.isAlpha
  ignorable_ascii : ∀ c : Char, c.toNat < 128 →
    ignorable c = ['\'', '.', ':', '^', '\x60'].contains c
  lower_ne_nil : ∀ c, lower c ≠ []
  /-- Beyond ASCII, only letters are mapped to characters of ASCII, and to letters of it. -/
  eq_of_mem_lower : ∀ c d : Char, d ∈ lower c → d.toNat < 128 → d.isAlpha = false → c = d

namespace CaseTable

/-- Zero or more ignorable characters and then a cased letter are at the front. -/
def followed (t : CaseTable) : List Char → Bool
  | [] => false
  | c :: cs => t.cased c || (t.ignorable c && t.followed cs)

/-- `preceded`: a cased letter and then zero or more ignorable characters are before the text. -/
def lowerFrom (t : CaseTable) : Bool → List Char → List Char
  | _, [] => []
  | preceded, c :: cs =>
    (if c = 'Σ' ∧ preceded = true ∧ t.followed cs = false then ['ς'] else t.lower c) ++
      t.lowerFrom (t.cased c || (t.ignorable c && preceded)) cs

/-- `s.toLowerCase()` -/
def toLowerCase (t : CaseTable) (s : List Char) : List Char := t.lowerFrom false s

/-- A character of ASCII that is not a letter. -/
def Caseless (c : Char) : Prop := c.toNat < 128 ∧ c.isAlpha = false

instance : DecidablePred Caseless := fun _ => inferInstanceAs (Decidable (_ ∧ _))

variable {t : CaseTable} {p : Bool} {c : Char} {s x y z : List Char}

theorem toLower_of_isAlpha (h : c.isAlpha = false) : c.toLower = c :=
  Char.toLower_eq_of_not_isUpper (Bool.eq_false_iff.mp (Bool.or_eq_false_iff.mp h).1)

theorem Caseless.lower (h : Caseless c) : t.lower c = [c] := by
  rw [t.lower_ascii c h.1, toLower_of_isAlpha h.2]

theorem Caseless.cased (h : Caseless c) : t.cased c = false := (t.cased_ascii c h.1).trans h.2

theorem ne_sigma (h : c.toNat < 128) : c ≠ 'Σ' := by
  rintro rfl
  exact absurd h (by decide)

theorem lowerFrom_cons (h : c ≠ 'Σ') :
    t.lowerFrom p (c :: s) = t.lower c ++ t.lowerFrom (t.cased c || (t.ignorable c && p)) s := by
  rw [lowerFrom, if_neg fun hc => h hc.1]

theorem lowerFrom_cons_of_caseless (h : Caseless c) :
    t.lowerFrom p (c :: s) = c :: t.lowerFrom (t.ignorable c && p) s := by
  rw [lowerFrom_cons (ne_sigma h.1), h.lower, h.cased, Bool.false_or]
  rfl

/-! ## Texts in parts -/

theorem followed_append (h : t.followed y = false) : t.followed (x ++ y) = t.followed x := by
  induction x with
  | nil => exact h
  | cons c x ih => rw [List.cons_append, followed, followed, ih]

/-- **A text is mapped part by part**, where what stands before does not matter to the second part
and no cased letter in it to the first. -/
theorem lowerFrom_append (hy : t.followed y = false) (hz : ∀ p, t.lowerFrom p y = z) :
    t.lowerFrom p (x ++ y) = t.lowerFrom p x ++ z := by
  induction x generalizing p with
  | nil => exact hz p
  | cons c x ih =>
    rw [List.cons_append, lowerFrom, lowerFrom, followed_append hy, ih, List.append_assoc]

/-- At a character without case that does not let the context through. -/
theorem lowerFrom_append_cons (h : Caseless c) (hc : t.ignorable c = false) :
    t.lowerFrom p (x ++ c :: y) = t.lowerFrom p x ++ c :: t.lowerFrom false y := by
  refine lowerFrom_append ?_ fun p => ?_
  · rw [followed, h.cased, hc]
    rfl
  · rw [lowerFrom_cons_of_caseless h, hc, Bool.false_and]

theorem followed_of_caseless (h : ∀ c ∈ s, Caseless c) : t.followed s = false := by
  induction s with
  | nil => rfl
  | cons c s ih =>
    obtain ⟨hc, hs⟩ := List.forall_mem_cons.mp h
    rw [followed, hc.cased, ih hs, Bool.and_false, Bool.or_false]

theorem lowerFrom_of_caseless (h : ∀ c ∈ s, Caseless c) : t.lowerFrom p s = s := by
  induction s generalizing p with
  | nil => rfl
  | cons c s ih =>
    obtain ⟨hc, hs⟩ := List.forall_mem_cons.mp h
    rw [lowerFrom_cons_of_caseless hc, ih hs]

/-- Before characters without case. -/
theorem lowerFrom_append_of_caseless (h : ∀ c ∈ y, Caseless c) :
    t.lowerFrom p (x ++ y) = t.lowerFrom p x ++ y :=
  lowerFrom_append (followed_of_caseless h) fun _ => lowerFrom_of_caseless h

/-! ## Where characters come from -/

/-- **A character without case comes from itself only.** -/
theorem mem_of_mem_lowerFrom (hc : Caseless c) (h : c ∈ t.lowerFrom p s) : c ∈ s := by
  induction s generalizing p with
  | nil => exact h
  | cons a s ih =>
    rw [lowerFrom, List.mem_append] at h
    rcases h with h | h
    · split_ifs at h
      · obtain rfl := List.mem_singleton.mp h
        exact absurd hc.1 (by decide)
      · exact List.mem_cons.mpr (.inl (t.eq_of_mem_lower a c h hc.1 hc.2).symm)
    · exact List.mem_cons_of_mem _ (ih h)

theorem lowerFrom_eq_nil (h : t.lowerFrom p s = []) : s = [] := by
  cases s with
  | nil => rfl
  | cons c s =>
    rw [lowerFrom, List.append_eq_nil_iff] at h
    split_ifs at h
    · simp at h
    · exact absurd h.1 (t.lower_ne_nil c)

theorem lowerFrom_of_ascii (h : ∀ c ∈ s, c.toNat < 128) :
    t.lowerFrom p s = s.map Char.toLower := by
  induction s generalizing p with
  | nil => rfl
  | cons c s ih =>
    obtain ⟨hc, hs⟩ := List.forall_mem_cons.mp h
    rw [lowerFrom_cons (ne_sigma hc), t.lower_ascii c hc, ih hs]
    rfl

/-! ## ASCII -/

theorem toNat_lt_of_isAlphanum (h : c.isAlphanum = true) : c.toNat < 128 := by
  simp only [Char.isAlphanum, Char.isAlpha, Char.isUpper, Char.isLower, Char.isDigit, ge_iff_le,
    UInt32.le_iff_toNat_le, Bool.or_eq_true, Bool.and_eq_true, decide_eq_true_eq, Char.reduceVal,
    UInt32.reduceToNat] at h
  show c.val.toNat < 128
  omega

theorem caseless_of_isDigit (h : c.isDigit = true) : Caseless c := by
  refine ⟨toNat_lt_of_isAlphanum (by simp [Char.isAlphanum, h]), ?_⟩
  simp only [Char.isAlpha, Char.isUpper, Char.isLower, Char.isDigit, ge_iff_le,
    UInt32.le_iff_toNat_le, Bool.or_eq_false_iff, Bool.and_eq_false_iff, Bool.and_eq_true,
    decide_eq_true_eq, decide_eq_false_iff_not, Char.reduceVal, UInt32.reduceToNat] at h ⊢
  omega

/-- ASCII alone. -/
def ascii : CaseTable where
  lower c := [c.toLower]
  cased c := c.isAlpha
  ignorable c := ['\'', '.', ':', '^', '\x60'].contains c
  lower_ascii _ _ := rfl
  cased_ascii _ _ := rfl
  ignorable_ascii _ _ := rfl
  lower_ne_nil _ := List.cons_ne_nil _ _
  eq_of_mem_lower c d hd _ hd' := by
    obtain rfl := List.mem_singleton.mp hd
    rw [Char.isAlpha_toLower_eq_isAlpha] at hd'
    exact (toLower_of_isAlpha hd').symm

end CaseTable
