import Mathlib.Order.Basic
import Mathlib.Order.Lattice

/-!
# Clocks: stream ids, and the three spellings of a stored clock

A clock is a string of one of three forms. A redis stream id is `'<ms>-<seq>'`; the clock of a
room without rows, and the id a read starts from, is `'<ms>'` (only `'0'` occurs);
`YHub.unsafePersistDoc` stores a row under `'<ms>-I'` (`index.js:438`). `Clock` is the set of
these strings, `Clock.text` the string itself.

* `isSmallerRedisClock` (`stream.js:84-90`) works on the text: it splits at `'-'` and compares
  the parts with `Number.parseInt`, where a part without digits is `NaN` and compares with
  nothing. `isSmallerRedisClock_text` computes it on the three forms: `Clock.isSmaller`.
* Strings are lists of characters. A clock part holds no white space, sign or `0x` prefix, so
  `parseInt` is modelled on its decimal digits. Numbers are exact: JavaScript's doubles are,
  below `2^53`.
* `Clock.isSmaller_iff_lt`: between numeric clocks the comparison is the order of stream ids.
  `Clock.persist_isSmaller_iff`, `Clock.isSmaller_persist_iff`: a clock `'<ms>-I'` is not below any
  clock of its own millisecond, nor any of those below it. `Clock.isSmaller_trans`,
  `Clock.isSmaller_asymm`: all clocks together are in a strict order, not a total one.
-/

namespace YHub

/-! ## Stream ids -/

/-- A redis stream id `<ms>-<seq>`. -/
structure StreamId where
  ms : Nat
  seq : Nat
  deriving DecidableEq, Repr

namespace StreamId

instance : LT StreamId := ⟨fun a b => a.ms < b.ms ∨ a.ms = b.ms ∧ a.seq < b.seq⟩

instance : LE StreamId := ⟨fun a b => a.ms < b.ms ∨ a.ms = b.ms ∧ a.seq ≤ b.seq⟩

theorem lt_def {a b : StreamId} : a < b ↔ a.ms < b.ms ∨ a.ms = b.ms ∧ a.seq < b.seq := Iff.rfl

theorem le_def {a b : StreamId} : a ≤ b ↔ a.ms < b.ms ∨ a.ms = b.ms ∧ a.seq ≤ b.seq := Iff.rfl

instance : DecidableLT StreamId := fun a b =>
  inferInstanceAs (Decidable (a.ms < b.ms ∨ a.ms = b.ms ∧ a.seq < b.seq))

instance : DecidableLE StreamId := fun a b =>
  inferInstanceAs (Decidable (a.ms < b.ms ∨ a.ms = b.ms ∧ a.seq ≤ b.seq))

/-- Stream ids are ordered by millisecond, then by sequence number. -/
instance : LinearOrder StreamId where
  le_refl a := by rw [le_def]; omega
  le_trans a b c := by simp only [le_def]; omega
  lt_iff_le_not_ge a b := by simp only [le_def, lt_def]; omega
  le_antisymm a b := by
    obtain ⟨_, _⟩ := a
    obtain ⟨_, _⟩ := b
    simp only [le_def, StreamId.mk.injEq]
    omega
  le_total a b := by simp only [le_def]; omega
  toDecidableLE := inferInstance
  toDecidableLT := inferInstance

/-- `0-0`, below every id redis assigns. -/
def zero : StreamId := ⟨0, 0⟩

theorem zero_le (a : StreamId) : zero ≤ a := by
  rw [le_def]
  simp only [zero]
  omega

/-- The id `XADD *` assigns on a stream whose last id is `last`, at redis time `now`
(milliseconds): `max(now-0, last + 1)`. -/
def next (now : Nat) (last : StreamId) : StreamId :=
  if last.ms < now then ⟨now, 0⟩ else ⟨last.ms, last.seq + 1⟩

theorem lt_next (now : Nat) (last : StreamId) : last < next now last := by
  unfold next
  split
  · exact Or.inl ‹_›
  · exact Or.inr ⟨rfl, Nat.lt_succ_self _⟩

theorem ms_next_le {now : Nat} {last : StreamId} (h : last.ms ≤ now) :
    (next now last).ms ≤ now := by
  unfold next
  split
  · exact le_refl _
  · exact h

theorem le_ms_next (now : Nat) (last : StreamId) : now ≤ (next now last).ms := by
  unfold next
  split
  · exact le_refl _
  · exact Nat.le_of_not_lt ‹_›

end StreamId

/-! ## The text of a clock -/

/-- A clock as the system writes it. -/
inductive Clock where
  /-- `'<ms>'`, in practice the `'0'` of a room that has nothing stored. -/
  | ms (ms : Nat)
  /-- `'<ms>-<seq>'`, a stream id. -/
  | id (id : StreamId)
  /-- `'<ms>-I'`, a row written by `unsafePersistDoc` at `ms`. -/
  | persist (ms : Nat)
  deriving DecidableEq, Repr

/-- The decimal digits of a number. -/
abbrev digits (n : Nat) : List Char := Nat.toDigits 10 n

namespace Clock

/-- `'0'`. -/
def zero : Clock := .ms 0

def text : Clock → List Char
  | .ms m => digits m
  | .id i => digits i.ms ++ '-' :: digits i.seq
  | .persist m => digits m ++ ['-', 'I']

/-- What stands before the first `'-'`. -/
def msPart : Clock → Nat
  | .ms m => m
  | .id i => i.ms
  | .persist m => m

/-- What `parseInt` makes of the part after the first `'-'`, `'0'` when there is none: `NaN`
(`none`) for the `'I'` of `unsafePersistDoc`. -/
def seqPart : Clock → Option Nat
  | .ms _ => some 0
  | .id i => some i.seq
  | .persist _ => none

/-- The stream id a numeric clock denotes, as `XREAD` reads it. -/
def toId? : Clock → Option StreamId
  | .ms m => some ⟨m, 0⟩
  | .id i => some i
  | .persist _ => none

end Clock

/-! ## Comparing clocks -/

/-- `Number.parseInt` on a clock part: the leading digits, `none` for `NaN`. -/
def parseInt (s : List Char) : Option Nat :=
  let ds := s.takeWhile Char.isDigit
  if ds = [] then none else some (Nat.ofDigitChars 10 ds 0)

/-- `<` on numbers, where `NaN` compares with nothing. -/
def numLt : Option Nat → Option Nat → Bool
  | some a, some b => a < b
  | _, _ => false

/-- `===` on numbers, where `NaN` is not equal to itself. -/
def numEq : Option Nat → Option Nat → Bool
  | some a, some b => a == b
  | _, _ => false

/-- `isSmallerRedisClock(a, b)`: `const [a1, a2 = '0'] = a.split('-')`, the same for `b`, then
`a1 < b1 || (a1 === b1 && a2 < b2)` on the parsed parts. -/
def isSmallerRedisClock (a b : List Char) : Bool :=
  let as := a.splitOn '-'
  let bs := b.splitOn '-'
  let a1n := parseInt (as[0]?.getD [])
  let b1n := parseInt (bs[0]?.getD [])
  numLt a1n b1n || (numEq a1n b1n &&
    numLt (parseInt (as[1]?.getD ['0'])) (parseInt (bs[1]?.getD ['0'])))

/-- `maxRedisClock(a, b) = isSmallerRedisClock(a, b) ? b : a`. -/
def maxRedisClock (a b : List Char) : List Char := if isSmallerRedisClock a b then b else a

/-- `minRedisClock(a, b) = isSmallerRedisClock(a, b) ? a : b`. -/
def minRedisClock (a b : List Char) : List Char := if isSmallerRedisClock a b then a else b

namespace Clock

/-- `isSmallerRedisClock` on the three forms (`isSmallerRedisClock_text`). -/
def isSmaller (a b : Clock) : Bool :=
  a.msPart < b.msPart || (a.msPart == b.msPart && numLt a.seqPart b.seqPart)

def max (a b : Clock) : Clock := if a.isSmaller b then b else a

def min (a b : Clock) : Clock := if a.isSmaller b then a else b

end Clock

/-! ### The text computes the comparison -/

theorem isDigit_of_mem_digits {n : Nat} {c : Char} (h : c ∈ digits n) : c.isDigit = true :=
  Nat.isDigit_of_mem_toDigits (by decide) (by decide) h

theorem digits_ne_nil (n : Nat) : digits n ≠ [] := Nat.toDigits_ne_nil

theorem ofDigitChars_digits (n : Nat) : Nat.ofDigitChars 10 (digits n) 0 = n :=
  Nat.ofDigitChars_ten_toDigits

theorem takeWhile_digits_append {n : Nat} {cs : List Char}
    (h : ∀ c ∈ cs.head?, c.isDigit = false) :
    (digits n ++ cs).takeWhile Char.isDigit = digits n := by
  rw [List.takeWhile_append_of_pos fun c hc => isDigit_of_mem_digits hc]
  cases cs with
  | nil => simp
  | cons c cs => rw [List.takeWhile_cons_of_neg (by simpa using h c rfl), List.append_nil]

theorem parseInt_digits (n : Nat) : parseInt (digits n) = some n := by
  have h : (digits n).takeWhile Char.isDigit = digits n := by
    simpa using @takeWhile_digits_append n [] (by simp)
  simp only [parseInt, h, if_neg (digits_ne_nil n), ofDigitChars_digits]

theorem dash_notMem_digits {n : Nat} : ∀ c ∈ digits n, (c == '-') = false := by
  intro c hc
  cases h : c == '-' with
  | false => rfl
  | true =>
    have := isDigit_of_mem_digits hc
    rw [beq_iff_eq.mp h] at this
    exact absurd this (by decide)

theorem splitOn_digits (n : Nat) : (digits n).splitOn '-' = [digits n] :=
  List.splitOnP_eq_singleton dash_notMem_digits

theorem splitOn_digits_dash (n : Nat) (cs : List Char) :
    (digits n ++ '-' :: cs).splitOn '-' = digits n :: cs.splitOn '-' := by
  show List.splitOnP (· == '-') _ = _
  rw [List.splitOnP_append_cons _ _ (by rfl), List.splitOnP_eq_singleton dash_notMem_digits]
  rfl

theorem parseInt_msPart (c : Clock) :
    parseInt ((c.text.splitOn '-')[0]?.getD []) = some c.msPart := by
  cases c with
  | ms m => simp only [Clock.text, splitOn_digits]; exact parseInt_digits m
  | id i => simp only [Clock.text, splitOn_digits_dash]; exact parseInt_digits i.ms
  | persist m =>
    simp only [Clock.text, splitOn_digits_dash]
    exact parseInt_digits m

theorem parseInt_seqPart (c : Clock) :
    parseInt ((c.text.splitOn '-')[1]?.getD ['0']) = c.seqPart := by
  cases c with
  | ms m => simp only [Clock.text, splitOn_digits]; exact parseInt_digits 0
  | id i =>
    simp only [Clock.text, splitOn_digits_dash, splitOn_digits]
    exact parseInt_digits i.seq
  | persist m => simp only [Clock.text, splitOn_digits_dash]; rfl

/-- **The comparison of two clocks**, computed on their text. -/
theorem isSmallerRedisClock_text (a b : Clock) :
    isSmallerRedisClock a.text b.text = a.isSmaller b := by
  simp only [isSmallerRedisClock, parseInt_msPart, parseInt_seqPart, Clock.isSmaller, numLt, numEq]

theorem maxRedisClock_text (a b : Clock) : maxRedisClock a.text b.text = (a.max b).text := by
  unfold maxRedisClock Clock.max
  rw [isSmallerRedisClock_text]
  split <;> rfl

theorem minRedisClock_text (a b : Clock) : minRedisClock a.text b.text = (a.min b).text := by
  unfold minRedisClock Clock.min
  rw [isSmallerRedisClock_text]
  split <;> rfl

/-! ### The order of clocks -/

namespace Clock

theorem isSmaller_iff {a b : Clock} : a.isSmaller b = true ↔
    a.msPart < b.msPart ∨ a.msPart = b.msPart ∧ numLt a.seqPart b.seqPart = true := by
  simp only [isSmaller, Bool.or_eq_true, decide_eq_true_eq, Bool.and_eq_true, beq_iff_eq]

@[simp] theorem isSmaller_self (a : Clock) : a.isSmaller a = false := by
  cases a <;> simp [isSmaller, msPart, seqPart, numLt]

/-- No clock is below `'0'`. -/
@[simp] theorem isSmaller_zero (a : Clock) : a.isSmaller zero = false := by
  cases a <;> simp [isSmaller, zero, msPart, seqPart, numLt]

/-- **Between numeric clocks the comparison is the order of stream ids.** -/
theorem isSmaller_iff_lt {a b : Clock} {i j : StreamId} (ha : a.toId? = some i)
    (hb : b.toId? = some j) : a.isSmaller b = true ↔ i < j := by
  rw [isSmaller_iff, StreamId.lt_def]
  cases a <;> cases b <;> cases ha <;> cases hb <;> simp [msPart, seqPart, numLt]

theorem not_isSmaller_iff_le {a b : Clock} {i j : StreamId} (ha : a.toId? = some i)
    (hb : b.toId? = some j) : a.isSmaller b = false ↔ j ≤ i := by
  rw [← not_lt, ← isSmaller_iff_lt ha hb, Bool.not_eq_true]

@[simp] theorem id_isSmaller_id (i j : StreamId) : (id i).isSmaller (id j) = decide (i < j) := by
  rw [Bool.eq_iff_iff, isSmaller_iff_lt rfl rfl, decide_eq_true_eq]

/-- A clock `'<ms>-I'` is below a clock iff that clock's millisecond is later. -/
theorem persist_isSmaller_iff {m : Nat} {b : Clock} :
    (persist m).isSmaller b = true ↔ m < b.msPart := by
  rw [isSmaller_iff]
  simp [msPart, seqPart, numLt]

/-- A clock is below `'<ms>-I'` iff its millisecond is earlier. -/
theorem isSmaller_persist_iff {m : Nat} {a : Clock} :
    a.isSmaller (persist m) = true ↔ a.msPart < m := by
  rw [isSmaller_iff]
  cases a <;> simp [msPart, seqPart, numLt]

theorem isSmaller_trans {a b c : Clock} (hab : a.isSmaller b = true) (hbc : b.isSmaller c = true) :
    a.isSmaller c = true := by
  rw [isSmaller_iff] at *
  rcases hab with hab | ⟨hab, hs⟩ <;> rcases hbc with hbc | ⟨hbc, ht⟩
  · exact Or.inl (by omega)
  · exact Or.inl (by omega)
  · exact Or.inl (by omega)
  · refine Or.inr ⟨by omega, ?_⟩
    cases ha : a.seqPart <;> cases hb : b.seqPart <;> cases hc : c.seqPart <;>
      simp [ha, hb, hc, numLt] at hs ht ⊢
    omega

/-- **The comparison is a strict order**: no two clocks are each below the other. -/
theorem isSmaller_asymm {a b : Clock} (h : a.isSmaller b = true) : b.isSmaller a = false := by
  by_contra hb
  have haa := isSmaller_trans h (Bool.eq_true_of_not_eq_false hb)
  rw [isSmaller_self] at haa
  exact Bool.false_ne_true haa

theorem max_eq_left {a b : Clock} (h : a.isSmaller b = false) : a.max b = a := by
  simp [Clock.max, h]

theorem max_eq_right {a b : Clock} (h : a.isSmaller b = true) : a.max b = b := by
  simp [Clock.max, h]

theorem max_cases (a b : Clock) :
    a.isSmaller b = true ∧ a.max b = b ∨ a.isSmaller b = false ∧ a.max b = a := by
  cases h : a.isSmaller b
  · exact Or.inr ⟨rfl, max_eq_left h⟩
  · exact Or.inl ⟨rfl, max_eq_right h⟩

theorem max_isSmaller {a b c : Clock} (ha : a.isSmaller c = true) (hb : b.isSmaller c = true) :
    (a.max b).isSmaller c = true := by
  rcases a.max_cases b with ⟨-, e⟩ | ⟨-, e⟩
  · rwa [e]
  · rwa [e]

end Clock

/-- The larger of two numeric clocks denotes the larger stream id. -/
theorem Clock.toId?_max {a b : Clock} {i j : StreamId} (ha : a.toId? = some i)
    (hb : b.toId? = some j) : (a.max b).toId? = some (Max.max i j) := by
  rcases a.max_cases b with ⟨h, e⟩ | ⟨h, e⟩
  · rw [e, hb, max_eq_right_of_lt ((isSmaller_iff_lt ha hb).mp h)]
  · rw [e, ha, sup_of_le_left ((not_isSmaller_iff_le ha hb).mp h)]

end YHub
