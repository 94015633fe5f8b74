import Mathlib.Data.List.TakeWhile

/-!
# Patterns that backtrack

A pattern is a list of items: a character, or a repetition of a class of characters. It is matched
against a whole text. A repetition tries the lengths it can have, a greedy one the longest first, a
lazy one the shortest first, and the first choice that lets the rest of the pattern match is taken.
The result are the texts of the repetitions.

* `matches_of_exec`, `exists_exec_of_matches`: a pattern finds a match, if there is one.
* `length_le_of_exec`: a greedy repetition at the front has the longest text of all matches.
-/

namespace Pattern

inductive Item where
  | lit (c : Char)
  /-- `p*`, `p+` or `p*?`. -/
  | rep (greedy : Bool) (atLeast : Nat) (p : Char → Bool)

/-- A text that stands for itself. -/
def literal (s : String) : List Item := s.toList.map .lit

/-- The lengths that a repetition can have at the front of a text, in the order they are tried. -/
def lengths (greedy : Bool) (atLeast : Nat) (p : Char → Bool) (s : List Char) : List Nat :=
  let ks := (List.range ((s.takeWhile p).length + 1)).filter (atLeast ≤ ·)
  if greedy then ks.reverse else ks

def exec : List Item → List Char → Option (List (List Char))
  | [], s => if s = [] then some [] else none
  | .lit c :: items, s =>
    match s with
    | [] => none
    | d :: s => if c = d then exec items s else none
  | .rep greedy atLeast p :: items, s =>
    (lengths greedy atLeast p s).findSome? fun k => (exec items (s.drop k)).map (s.take k :: ·)

/-- A text matches, with these texts for the repetitions. -/
inductive Matches : List Item → List Char → List (List Char) → Prop
  | nil : Matches [] [] []
  | lit (c : Char) {items : List Item} {s : List Char} {groups : List (List Char)}
      (h : Matches items s groups) : Matches (.lit c :: items) (c :: s) groups
  | rep (greedy : Bool) {atLeast : Nat} {p : Char → Bool} {items : List Item} {s g : List Char}
      {groups : List (List Char)} (hg : ∀ c ∈ g, p c = true) (hlen : atLeast ≤ g.length)
      (h : Matches items s groups) :
      Matches (.rep greedy atLeast p :: items) (g ++ s) (g :: groups)

variable {greedy : Bool} {atLeast : Nat} {p : Char → Bool} {items : List Item} {s g : List Char}
  {groups : List (List Char)}

/-! ## What matches -/

theorem matches_nil_iff : Matches [] s groups ↔ s = [] ∧ groups = [] := by
  constructor
  · rintro ⟨⟩
    exact ⟨rfl, rfl⟩
  · rintro ⟨rfl, rfl⟩
    exact .nil

theorem matches_lit_iff {c : Char} :
    Matches (.lit c :: items) s groups ↔ ∃ rest, s = c :: rest ∧ Matches items rest groups := by
  constructor
  · rintro (- | ⟨_, h⟩)
    exact ⟨_, rfl, h⟩
  · rintro ⟨rest, rfl, h⟩
    exact .lit c h

theorem matches_rep_iff :
    Matches (.rep greedy atLeast p :: items) s groups ↔
      ∃ g rest groups', s = g ++ rest ∧ groups = g :: groups' ∧ (∀ c ∈ g, p c = true) ∧
        atLeast ≤ g.length ∧ Matches items rest groups' := by
  constructor
  · intro h
    cases h with
    | rep _ hg hlen h => exact ⟨_, _, _, rfl, rfl, hg, hlen, h⟩
  · rintro ⟨g, rest, groups', rfl, rfl, hg, hlen, h⟩
    exact .rep greedy hg hlen h

theorem matches_literal_iff {text : String} :
    Matches (literal text ++ items) s groups ↔
      ∃ rest, s = text.toList ++ rest ∧ Matches items rest groups := by
  unfold literal
  induction text.toList generalizing s with
  | nil => simp
  | cons c l ih =>
    rw [List.map_cons, List.cons_append, matches_lit_iff]
    constructor
    · rintro ⟨_, rfl, h⟩
      obtain ⟨rest, rfl, hrest⟩ := ih.mp h
      exact ⟨rest, rfl, hrest⟩
    · rintro ⟨rest, rfl, h⟩
      exact ⟨_, rfl, ih.mpr ⟨rest, rfl, h⟩⟩

/-! ## The search -/

theorem mem_lengths {k : Nat} :
    k ∈ lengths greedy atLeast p s ↔ k ≤ (s.takeWhile p).length ∧ atLeast ≤ k := by
  have hrange : k ∈ (List.range ((s.takeWhile p).length + 1)).filter (atLeast ≤ ·) ↔
      k ≤ (s.takeWhile p).length ∧ atLeast ≤ k := by
    rw [List.mem_filter, List.mem_range, Nat.lt_add_one_iff, decide_eq_true_eq]
  cases greedy
  · exact hrange
  · exact List.mem_reverse.trans hrange

/-- What a repetition can have at the front of a text. -/
theorem length_mem_lengths (hg : ∀ c ∈ g, p c = true) (hlen : atLeast ≤ g.length) :
    g.length ∈ lengths greedy atLeast p (g ++ s) := by
  refine mem_lengths.mpr ⟨?_, hlen⟩
  rw [List.takeWhile_append_of_pos hg, List.length_append]
  exact Nat.le_add_right _ _

theorem take_of_mem_lengths {k : Nat} (hk : k ∈ lengths greedy atLeast p s) :
    (∀ c ∈ s.take k, p c = true) ∧ atLeast ≤ (s.take k).length := by
  obtain ⟨hle, hleast⟩ := mem_lengths.mp hk
  have htake : s.take k <+: s.takeWhile p := by
    refine List.prefix_of_prefix_length_le (List.take_prefix k s) (List.takeWhile_prefix p) ?_
    rw [List.length_take]
    exact (Nat.min_le_left _ _).trans hle
  refine ⟨fun c hc => List.mem_takeWhile_imp (htake.subset hc), ?_⟩
  rw [List.length_take]
  exact Nat.le_min.mpr ⟨hleast, hleast.trans (hle.trans (List.takeWhile_prefix p).length_le)⟩

/-- A greedy repetition tries the longer text first. -/
theorem pairwise_lengths : (lengths true atLeast p s).Pairwise (· > ·) :=
  List.pairwise_reverse.mpr (List.pairwise_lt_range.filter _)

theorem matches_of_exec (h : exec items s = some groups) : Matches items s groups := by
  induction items generalizing s groups with
  | nil =>
    unfold exec at h
    split_ifs at h with hs
    obtain rfl := Option.some.inj h
    exact hs ▸ .nil
  | cons item items ih =>
    cases item with
    | lit c =>
      cases s with
      | nil => exact absurd h (by simp [exec])
      | cons d s =>
        unfold exec at h
        simp only at h
        split_ifs at h with hcd
        exact hcd ▸ .lit c (ih h)
    | rep greedy atLeast p =>
      unfold exec at h
      obtain ⟨k, hk, h⟩ := List.exists_of_findSome?_eq_some h
      obtain ⟨groups, hgroups, rfl⟩ := Option.map_eq_some_iff.mp h
      obtain ⟨hp, hlen⟩ := take_of_mem_lengths hk
      have hmatch : Matches (.rep greedy atLeast p :: items) (s.take k ++ s.drop k) _ :=
        .rep greedy hp hlen (ih hgroups)
      rwa [List.take_append_drop] at hmatch

theorem exists_exec_of_matches (h : Matches items s groups) :
    ∃ groups', exec items s = some groups' := by
  induction h with
  | nil => exact ⟨[], rfl⟩
  | lit c h ih =>
    obtain ⟨groups', h'⟩ := ih
    refine ⟨groups', ?_⟩
    unfold exec
    exact (if_pos rfl).trans h'
  | @rep greedy atLeast p items s g groups hg hlen h ih =>
    obtain ⟨groups', h'⟩ := ih
    unfold exec
    rw [← Option.isSome_iff_exists, List.findSome?_isSome_iff]
    refine ⟨g.length, length_mem_lengths hg hlen, ?_⟩
    rw [List.drop_left, h']
    rfl

/-- **The longest text.** -/
theorem length_le_of_exec {g' : List Char} {groups' : List (List Char)}
    (h : exec (.rep true atLeast p :: items) s = some (g :: groups))
    (h' : Matches (.rep true atLeast p :: items) s (g' :: groups')) : g'.length ≤ g.length := by
  unfold exec at h
  obtain ⟨before, k, after, hsplit, hk, hbefore⟩ := List.findSome?_eq_some_iff.mp h
  obtain ⟨groups₀, -, hgroups₀⟩ := Option.map_eq_some_iff.mp hk
  obtain ⟨rfl, rfl⟩ := List.cons.inj hgroups₀
  -- a longer text is tried before, and would have let the rest match
  cases h' with
  | @rep _ _ _ _ s _ _ hg hlen hrest =>
    by_contra hlt
    have hmem : g'.length ∈ lengths true atLeast p (g' ++ s) := length_mem_lengths hg hlen
    have hpair : (lengths true atLeast p (g' ++ s)).Pairwise (· > ·) := pairwise_lengths
    have hk' : k ∈ lengths true atLeast p (g' ++ s) := by
      rw [hsplit]
      exact List.mem_append_right _ List.mem_cons_self
    have hlt : k < g'.length := by
      have hle := (mem_lengths.mp hk').1.trans (List.takeWhile_prefix p).length_le
      rw [List.length_take, Nat.min_eq_left hle] at hlt
      exact Nat.lt_of_not_le hlt
    rw [hsplit] at hmem hpair
    rcases List.mem_append.mp hmem with hmem | hmem
    · obtain ⟨groups'', hexec⟩ := exists_exec_of_matches hrest
      have hnone := hbefore _ hmem
      rw [List.drop_left, hexec] at hnone
      exact absurd hnone (by simp)
    · rcases List.mem_cons.mp hmem with heq | hmem
      · exact absurd heq hlt.ne'
      · have hgt := (List.pairwise_cons.mp (List.pairwise_append.mp hpair).2.1).1 _ hmem
        exact absurd hlt (Nat.lt_asymm hgt)

end Pattern
