import Mathlib.Data.List.Basic

/-!
# Glob patterns

What a pattern of redis matches: `*` is any text, `?` any character, `[..]` a character of a set, a
backslash makes the next character stand for itself, and every other character stands for itself.

* `Lawful`: the laws of a matcher that the results here rest on. Those of `?` and of sets are not
  among them: they hold byte by byte, not character by character.
* `lawful_matchGlob`: a matcher.
* `Lawful.literal_star_iff`: a text without metacharacters and a star match what begins with the
  text.
-/

namespace Glob

/-- The characters that do not stand for themselves outside of a set. -/
def isMeta (c : Char) : Bool := c ∈ ['*', '?', '[', '\\']

structure Lawful (glob : List Char → List Char → Prop) : Prop where
  nil : ∀ s, glob [] s ↔ s = []
  literal : ∀ c p s, isMeta c = false → (glob (c :: p) s ↔ ∃ rest, s = c :: rest ∧ glob p rest)
  star : ∀ p s, glob ('*' :: p) s ↔ ∃ k, glob p (s.drop k)

namespace Lawful

variable {glob : List Char → List Char → Prop}

theorem literal_append_iff (h : Lawful glob) {l : List Char} (hl : ∀ c ∈ l, isMeta c = false)
    (p s : List Char) : glob (l ++ p) s ↔ ∃ rest, s = l ++ rest ∧ glob p rest := by
  induction l generalizing s with
  | nil => simp
  | cons c l ih =>
    obtain ⟨hc, hl⟩ := List.forall_mem_cons.mp hl
    rw [List.cons_append, h.literal c _ s hc]
    constructor
    · rintro ⟨_, rfl, hrest⟩
      obtain ⟨rest, rfl, hp⟩ := (ih hl _).mp hrest
      exact ⟨rest, rfl, hp⟩
    · rintro ⟨rest, rfl, hp⟩
      exact ⟨_, rfl, (ih hl _).mpr ⟨rest, rfl, hp⟩⟩

/-- A star at the end matches everything. -/
theorem star_nil (h : Lawful glob) (s : List Char) : glob ['*'] s :=
  (h.star [] s).mpr ⟨s.length, (h.nil _).mpr (List.drop_length ..)⟩

theorem literal_star_iff (h : Lawful glob) {l : List Char} (hl : ∀ c ∈ l, isMeta c = false)
    (s : List Char) : glob (l ++ ['*']) s ↔ l <+: s := by
  rw [h.literal_append_iff hl]
  constructor
  · rintro ⟨rest, rfl, -⟩
    exact List.prefix_append l rest
  · rintro ⟨rest, rfl⟩
    exact ⟨rest, rfl, h.star_nil rest⟩

end Lawful

/-! ## A matcher -/

inductive Token where
  | star
  | one
  | set (neg : Bool) (ranges : List (Char × Char))
  | lit (c : Char)

/-- The tokens of a pattern; `open_` is the set that is read. -/
def parse : Option (Bool × List (Char × Char)) → List Char → List Token
  | none, [] => []
  | none, '[' :: '^' :: p => parse (some (true, [])) p
  | none, '[' :: p => parse (some (false, [])) p
  | none, '\\' :: c :: p => .lit c :: parse none p
  | none, c :: p =>
    (if c = '*' then .star else if c = '?' then .one else .lit c) :: parse none p
  | some (neg, ranges), [] => [.set neg ranges]
  | some (neg, ranges), ']' :: p => .set neg ranges :: parse none p
  | some (neg, ranges), '\\' :: c :: p => parse (some (neg, (c, c) :: ranges)) p
  | some (neg, ranges), a :: '-' :: b :: p =>
    parse (some (neg, (if a ≤ b then (a, b) else (b, a)) :: ranges)) p
  | some (neg, ranges), c :: p => parse (some (neg, (c, c) :: ranges)) p

def matchTokens : List Token → List Char → Bool
  | [], s => s.isEmpty
  | .star :: ts, s => (List.range (s.length + 1)).any fun k => matchTokens ts (s.drop k)
  | .one :: ts, s =>
    match s with
    | [] => false
    | _ :: s => matchTokens ts s
  | .set neg ranges :: ts, s =>
    match s with
    | [] => false
    | c :: s => (neg != ranges.any fun r => r.1 ≤ c && c ≤ r.2) && matchTokens ts s
  | .lit c :: ts, s =>
    match s with
    | [] => false
    | d :: s => c == d && matchTokens ts s

def matchGlob (p s : List Char) : Prop := matchTokens (parse none p) s = true

theorem parse_literal {c : Char} (hc : isMeta c = false) (p : List Char) :
    parse none (c :: p) = .lit c :: parse none p := by
  have hne := of_decide_eq_false hc
  simp only [List.mem_cons, List.not_mem_nil, or_false, not_or] at hne
  obtain ⟨hstar, hone, hset, hescape⟩ := hne
  rw [parse.eq_def]
  split <;> simp_all

theorem parse_star (p : List Char) : parse none ('*' :: p) = .star :: parse none p := by
  rw [parse.eq_def]
  rfl

theorem lawful_matchGlob : Lawful matchGlob where
  nil s := by simp [matchGlob, parse, matchTokens]
  literal c p s hc := by
    unfold matchGlob
    rw [parse_literal hc]
    cases s with
    | nil => simp [matchTokens]
    | cons d s =>
      simp only [matchTokens, Bool.and_eq_true, beq_iff_eq, List.cons.injEq]
      constructor
      · rintro ⟨rfl, h⟩
        exact ⟨s, ⟨rfl, rfl⟩, h⟩
      · rintro ⟨_, ⟨rfl, rfl⟩, h⟩
        exact ⟨rfl, h⟩
  star p s := by
    unfold matchGlob
    rw [parse_star]
    simp only [matchTokens, List.any_eq_true, List.mem_range, Nat.lt_succ_iff]
    constructor
    · rintro ⟨k, -, h⟩
      exact ⟨k, h⟩
    · rintro ⟨k, h⟩
      refine ⟨min k s.length, Nat.min_le_right _ _, ?_⟩
      rcases Nat.le_total k s.length with hk | hk
      · rwa [Nat.min_eq_left hk]
      · rw [Nat.min_eq_right hk, List.drop_length]
        rwa [List.drop_eq_nil_of_le hk] at h

end Glob
