import Mathlib.Data.Int.Log
import Mathlib.Data.Rat.Floor
import Mathlib.Tactic.Linarith
import Mathlib.Tactic.NormNum
import YHub.Lib.JsNumber

/-!
# Numbers as text

`String(x)` of a number, as ECMAScript defines `Number::toString`: the digits of a decimal that is
rounded to the number, no more of them than needed, laid out with a point or an exponent.

* `numberValue`: the number that a rational is rounded to, with 53 bits, ties to even.
* `decimalValue_layout`: a text determines the decimal it was made of.
* `NumberText.unique`: so a text determines the number; the text of a number is not determined,
  there can be several with the same number of digits.
* `numberValue_natCast_of_lt`: the integers of 53 bits are numbers.
-/

namespace YHub

namespace JsNumber

/-! ## Rounding -/

/-- The nearest integer, an even one if there are two. -/
def roundEven (q : ℚ) : ℤ :=
  if q - ⌊q⌋ < 1 / 2 then ⌊q⌋
  else if 1 / 2 < q - ⌊q⌋ then ⌊q⌋ + 1
  else if 2 ∣ ⌊q⌋ then ⌊q⌋ else ⌊q⌋ + 1

/-- The number for a positive rational (`0` for the others). -/
def numberValue (v : ℚ) : JsNumber :=
  if v ≤ 0 then .ofNat 0
  else
    let e := max (Int.log 2 v - 52) (-1074)
    let x := roundEven (v / 2 ^ e) * (2 : ℚ) ^ e
    if 2 ^ 1024 ≤ x then .num ⊤ else .ofRat x

/-! ## Texts -/

def point (fraction : List Char) : List Char := if fraction = [] then [] else '.' :: fraction

/-- The text of `s * 10 ^ (n - k)`, where `s` has `k` digits. -/
def layout (n : Int) (k s : Nat) : List Char :=
  let digits := Nat.toDigits 10 s
  if k ≤ n ∧ n ≤ 21 then digits ++ List.replicate (n - k).toNat '0'
  else if 0 < n ∧ n ≤ 21 then digits.take n.toNat ++ point (digits.drop n.toNat)
  else if -6 < n ∧ n ≤ 0 then '0' :: point (List.replicate (-n).toNat '0' ++ digits)
  else
    digits.take 1 ++ point (digits.drop 1) ++
      'e' :: (if n - 1 < 0 then '-' else '+') :: Nat.toDigits 10 (n - 1).natAbs

/-- `s` has `k` digits, and `s * 10 ^ (n - k)` is rounded to `x`. -/
def IsDecimal (x : JsNumber) (n : Int) (k s : Nat) : Prop :=
  1 ≤ k ∧ 10 ^ (k - 1) ≤ s ∧ s < 10 ^ k ∧ numberValue (s * 10 ^ (n - k)) = x

/-- The text of a positive number: no decimal with fewer digits is rounded to it. -/
def PositiveText (q : ℚ) (t : List Char) : Prop :=
  0 < q ∧ ∃ n k s, IsDecimal (.ofRat q) n k s ∧
    (∀ n' k' s', IsDecimal (.ofRat q) n' k' s' → k ≤ k') ∧ t = layout n k s

/-- `String(x)` may be this text. -/
inductive NumberText : JsNumber → String → Prop
  | nan : NumberText .nan "NaN"
  | zero : NumberText (.ofNat 0) "0"
  | infinity : NumberText (.num ⊤) "Infinity"
  | negInfinity : NumberText (.num ⊥) "-Infinity"
  | pos {q : ℚ} {t : List Char} (h : PositiveText q t) : NumberText (.ofRat q) (String.ofList t)
  | neg {q : ℚ} {t : List Char} (h : PositiveText q t) :
    NumberText (.ofRat (-q)) (String.ofList ('-' :: t))

/-! ## Reading a text -/

def exponentValue : List Char → Int
  | '-' :: digits => -(Nat.ofDigitChars 10 digits 0)
  | '+' :: digits => Nat.ofDigitChars 10 digits 0
  | digits => Nat.ofDigitChars 10 digits 0

/-- The value of digits, with a point and an exponent or without. -/
def decimalValue (t : List Char) : ℚ :=
  let mantissa := t.takeWhile (· ≠ 'e')
  let exponent := (t.dropWhile (· ≠ 'e')).drop 1
  let whole := mantissa.takeWhile (· ≠ '.')
  let fraction := (mantissa.dropWhile (· ≠ '.')).drop 1
  Nat.ofDigitChars 10 (whole ++ fraction) 0 * 10 ^ (exponentValue exponent - fraction.length)

/-- A text whose first part has only characters of a class, and whose rest has none at its front. -/
theorem takeWhile_dropWhile_append {p : Char → Bool} {l r : List Char}
    (hl : ∀ c ∈ l, p c = true) (hr : r.takeWhile p = []) :
    (l ++ r).takeWhile p = l ∧ (l ++ r).dropWhile p = r := by
  have hdrop : r.dropWhile p = r := by
    have hsplit := List.takeWhile_append_dropWhile (p := p) (l := r)
    rwa [hr, List.nil_append] at hsplit
  rw [List.takeWhile_append_of_pos hl, List.dropWhile_append_of_pos hl, hr, hdrop]
  exact ⟨List.append_nil l, rfl⟩

theorem decimalValue_eq (whole fraction exponent : List Char)
    (hwhole : ∀ c ∈ whole, c.isDigit = true) (hfraction : ∀ c ∈ fraction, c.isDigit = true)
    (hexponent : exponent = [] ∨ ∃ rest, exponent = 'e' :: rest) :
    decimalValue (whole ++ point fraction ++ exponent) =
      Nat.ofDigitChars 10 (whole ++ fraction) 0 *
        10 ^ (exponentValue (exponent.drop 1) - fraction.length) := by
  have hdigit {c d : Char} (hc : c.isDigit = true) (hd : d.isDigit = false) :
      decide (c ≠ d) = true := by
    refine decide_eq_true ?_
    rintro rfl
    exact absurd (hd.symm.trans hc) Bool.false_ne_true
  have hmantissa : ∀ c ∈ whole ++ point fraction, decide (c ≠ 'e') = true := by
    intro c hc
    rcases List.mem_append.mp hc with hc | hc
    · exact hdigit (hwhole c hc) (by decide)
    · unfold point at hc
      split_ifs at hc with hnil
      · exact absurd hc List.not_mem_nil
      · rcases List.mem_cons.mp hc with rfl | hc
        · decide
        · exact hdigit (hfraction c hc) (by decide)
  have hend : exponent.takeWhile (· ≠ 'e') = [] := by
    rcases hexponent with rfl | ⟨rest, rfl⟩ <;> simp
  have hpoint : (point fraction).takeWhile (· ≠ '.') = [] := by
    unfold point
    split_ifs <;> simp
  have hdrop : (point fraction).drop 1 = fraction := by
    unfold point
    split_ifs with hnil
    · rw [hnil]
      rfl
    · rfl
  obtain ⟨htake, hrest⟩ := takeWhile_dropWhile_append hmantissa hend
  obtain ⟨htake', hrest'⟩ := takeWhile_dropWhile_append
    (fun c hc => hdigit (hwhole c hc) (by decide)) hpoint
  unfold decimalValue
  simp only [htake, hrest, htake', hrest', hdrop]

theorem isDigit_toDigits {s : Nat} : ∀ c ∈ Nat.toDigits 10 s, c.isDigit = true :=
  fun _ h => Nat.isDigit_of_mem_toDigits (by omega) (by omega) h

theorem isDigit_replicate (m : Nat) : ∀ c ∈ List.replicate m '0', c.isDigit = true := by
  intro c hc
  rw [(List.mem_replicate.mp hc).2]
  decide

theorem length_toDigits {k s : Nat} (hk : 1 ≤ k) (hle : 10 ^ (k - 1) ≤ s) (hlt : s < 10 ^ k) :
    (Nat.toDigits 10 s).length = k := by
  refine le_antisymm ((Nat.length_toDigits_le_iff (by omega) hk).mpr hlt) ?_
  by_contra hshort
  rcases Nat.eq_or_lt_of_le hk with rfl | hk
  · exact hshort Nat.length_toDigits_pos
  · have hle' := (Nat.length_toDigits_le_iff (n := s) (by omega : 1 < 10)
      (Nat.sub_pos_of_lt hk)).mp (Nat.le_sub_one_of_lt (Nat.lt_of_not_le hshort))
    exact absurd hle (Nat.not_le_of_lt hle')

theorem ofDigitChars_zeros_append (m : Nat) (l : List Char) :
    Nat.ofDigitChars 10 (List.replicate m '0' ++ l) 0 = Nat.ofDigitChars 10 l 0 := by
  rw [Nat.ofDigitChars_append, Nat.ofDigitChars_replicate_zero, Nat.mul_zero]

theorem exponentValue_eq (e : Int) :
    exponentValue ((if e < 0 then '-' else '+') :: Nat.toDigits 10 e.natAbs) = e := by
  split_ifs with he
  · show -((Nat.ofDigitChars 10 (Nat.toDigits 10 e.natAbs) 0 : Nat) : Int) = e
    rw [Nat.ofDigitChars_ten_toDigits]
    omega
  · show ((Nat.ofDigitChars 10 (Nat.toDigits 10 e.natAbs) 0 : Nat) : Int) = e
    rw [Nat.ofDigitChars_ten_toDigits]
    omega

/-- **A text determines the decimal it was made of.** -/
theorem decimalValue_layout {n : Int} {k s : Nat} (hk : 1 ≤ k) (hle : 10 ^ (k - 1) ≤ s)
    (hlt : s < 10 ^ k) : decimalValue (layout n k s) = s * 10 ^ (n - k) := by
  have hlen := length_toDigits hk hle hlt
  have hvalue : Nat.ofDigitChars 10 (Nat.toDigits 10 s) 0 = s := Nat.ofDigitChars_ten_toDigits
  have hnil : ∀ c ∈ ([] : List Char), c.isDigit = true := fun _ h => absurd h List.not_mem_nil
  have htake (m : Nat) : ∀ c ∈ (Nat.toDigits 10 s).take m, c.isDigit = true :=
    fun c hc => isDigit_toDigits c (List.mem_of_mem_take hc)
  have hdrop (m : Nat) : ∀ c ∈ (Nat.toDigits 10 s).drop m, c.isDigit = true :=
    fun c hc => isDigit_toDigits c (List.mem_of_mem_drop hc)
  unfold layout
  by_cases hinteger : k ≤ n ∧ n ≤ 21
  · -- zeros after the digits
    have h := decimalValue_eq (Nat.toDigits 10 s ++ List.replicate (n - k).toNat '0') [] []
      (List.forall_mem_append.mpr ⟨isDigit_toDigits, isDigit_replicate _⟩) hnil (Or.inl rfl)
    simp only [point, if_true, List.append_nil] at h
    have hexp : ((n - k).toNat : Int) = n - k := Int.toNat_of_nonneg (by omega)
    have hzero : exponentValue (List.drop 1 []) - (([] : List Char).length : Int) = 0 := rfl
    simp only [if_pos hinteger, h, Nat.ofDigitChars_append, hvalue,
      Nat.ofDigitChars_replicate_zero]
    rw [hzero, zpow_zero, mul_one, Nat.cast_mul, Nat.cast_pow, Nat.cast_ofNat, ← zpow_natCast, hexp,
      mul_comm]
  by_cases hinside : 0 < n ∧ n ≤ 21
  · -- a point between the digits
    have h := decimalValue_eq ((Nat.toDigits 10 s).take n.toNat) ((Nat.toDigits 10 s).drop n.toNat)
      [] (htake _) (hdrop _) (Or.inl rfl)
    rw [List.append_nil, List.take_append_drop, hvalue, List.length_drop, hlen] at h
    have hexp : exponentValue (List.drop 1 []) - ((k - n.toNat : Nat) : Int) = n - k := by
      show 0 - ((k - n.toNat : Nat) : Int) = n - k
      omega
    simp only [if_neg hinteger, if_pos hinside, h, hexp]
  by_cases hsmall : -6 < n ∧ n ≤ 0
  · -- a point and zeros before the digits
    have h := decimalValue_eq ['0'] (List.replicate (-n).toNat '0' ++ Nat.toDigits 10 s) []
      (List.forall_mem_singleton.mpr (by decide))
      (List.forall_mem_append.mpr ⟨isDigit_replicate _, isDigit_toDigits⟩) (Or.inl rfl)
    have hzero : '0' :: (List.replicate (-n).toNat '0' ++ Nat.toDigits 10 s) =
        List.replicate ((-n).toNat + 1) '0' ++ Nat.toDigits 10 s := rfl
    have hexp : exponentValue (List.drop 1 []) - (((-n).toNat + k : Nat) : Int) = n - k := by
      show 0 - (((-n).toNat + k : Nat) : Int) = n - k
      omega
    rw [List.append_nil, List.singleton_append, List.singleton_append, hzero,
      ofDigitChars_zeros_append, hvalue, List.length_append, List.length_replicate, hlen, hexp] at h
    simp only [if_neg hinteger, if_neg hinside, if_pos hsmall, h]
  · -- an exponent
    have h := decimalValue_eq ((Nat.toDigits 10 s).take 1) ((Nat.toDigits 10 s).drop 1)
      ('e' :: (if n - 1 < 0 then '-' else '+') :: Nat.toDigits 10 (n - 1).natAbs)
      (htake _) (hdrop _) (Or.inr ⟨_, rfl⟩)
    rw [List.take_append_drop, hvalue, List.length_drop, hlen, List.drop_succ_cons, List.drop_zero,
      exponentValue_eq] at h
    have hexp : n - 1 - ((k - 1 : Nat) : Int) = n - k := by omega
    simp only [if_neg hinteger, if_neg hinside, if_neg hsmall, h, hexp]

/-! ## The number of a text -/

/-- `-x` -/
def neg : JsNumber → JsNumber
  | nan => nan
  | num x =>
    match (x : Option (Option ℚ)) with
    | none => .num ⊤
    | some none => .num ⊥
    | some (some q) => .ofRat (-q)

def unsignedValue : List Char → JsNumber
  | 'N' :: _ => .nan
  | 'I' :: _ => .num ⊤
  | t => numberValue (decimalValue t)

/-- `Number(t)` for the text of a number. -/
def textNumber : List Char → JsNumber
  | '-' :: t => (unsignedValue t).neg
  | t => unsignedValue t

/-- A text without a sign begins with a digit. -/
theorem layout_eq_cons {n : Int} {k s : Nat} :
    ∃ c rest, layout n k s = c :: rest ∧ c.isDigit = true := by
  obtain ⟨d, ds, hd⟩ := List.exists_cons_of_ne_nil (Nat.toDigits_ne_nil : Nat.toDigits 10 s ≠ [])
  have hdigit : d.isDigit = true := isDigit_toDigits d (hd ▸ List.mem_cons_self)
  unfold layout
  rw [hd]
  by_cases hinteger : k ≤ n ∧ n ≤ 21
  · simp only [if_pos hinteger]
    exact ⟨d, _, rfl, hdigit⟩
  by_cases hinside : 0 < n ∧ n ≤ 21
  · obtain ⟨m, hm⟩ : ∃ m, n.toNat = m + 1 := ⟨n.toNat - 1, by omega⟩
    simp only [if_neg hinteger, if_pos hinside, hm]
    exact ⟨d, _, rfl, hdigit⟩
  by_cases hsmall : -6 < n ∧ n ≤ 0
  · simp only [if_neg hinteger, if_neg hinside, if_pos hsmall]
    exact ⟨'0', _, rfl, by decide⟩
  · simp only [if_neg hinteger, if_neg hinside, if_neg hsmall]
    exact ⟨d, _, rfl, hdigit⟩

theorem unsignedValue_of_isDigit {c : Char} (hc : c.isDigit = true) (t : List Char) :
    unsignedValue (c :: t) = numberValue (decimalValue (c :: t)) := by
  unfold unsignedValue
  split
  · next h =>
    obtain ⟨rfl, -⟩ := List.cons.inj h
    exact absurd hc (by decide)
  · next h =>
    obtain ⟨rfl, -⟩ := List.cons.inj h
    exact absurd hc (by decide)
  · rfl

theorem PositiveText.unsignedValue_eq {q : ℚ} {t : List Char} (h : PositiveText q t) :
    unsignedValue t = .ofRat q := by
  obtain ⟨-, n, k, s, ⟨hk, hle, hlt, hround⟩, -, rfl⟩ := h
  obtain ⟨c, rest, hlayout, hdigit⟩ := layout_eq_cons (n := n) (k := k) (s := s)
  rw [hlayout, unsignedValue_of_isDigit hdigit, ← hlayout, decimalValue_layout hk hle hlt, hround]

theorem textNumber_of_isDigit {c : Char} (hc : c.isDigit = true) (t : List Char) :
    textNumber (c :: t) = unsignedValue (c :: t) := by
  unfold textNumber
  split
  · next h =>
    obtain ⟨rfl, -⟩ := List.cons.inj h
    exact absurd hc (by decide)
  · rfl

/-- `Number(String(x))` is `x`. -/
theorem NumberText.textNumber_eq {x : JsNumber} {t : String} (h : NumberText x t) :
    textNumber t.toList = x := by
  cases h with
  | nan => rfl
  | zero =>
    have hvalue := decimalValue_eq ['0'] [] [] (List.forall_mem_singleton.mpr (by decide))
      (fun _ h => absurd h List.not_mem_nil) (Or.inl rfl)
    have hzero : decimalValue ['0'] = 0 := hvalue.trans (by simp [Nat.ofDigitChars])
    show numberValue (decimalValue ['0']) = _
    rw [hzero]
    exact if_pos le_rfl
  | infinity => rfl
  | negInfinity => rfl
  | pos h =>
    rw [String.toList_ofList, ← h.unsignedValue_eq]
    obtain ⟨-, n, k, s, -, -, rfl⟩ := h
    obtain ⟨c, rest, hlayout, hdigit⟩ := layout_eq_cons (n := n) (k := k) (s := s)
    rw [hlayout, textNumber_of_isDigit hdigit]
  | neg h =>
    rw [String.toList_ofList]
    show (unsignedValue _).neg = _
    rw [h.unsignedValue_eq]
    rfl

/-- **A text determines the number.** -/
theorem NumberText.unique {x y : JsNumber} {t : String} (hx : NumberText x t)
    (hy : NumberText y t) : x = y :=
  hx.textNumber_eq.symm.trans hy.textNumber_eq

/-- `null` is not the text of a number. -/
theorem NumberText.ne_null {x : JsNumber} {t : String} (h : NumberText x t) : t ≠ "null" := by
  cases h with
  | nan => decide
  | zero => decide
  | infinity => decide
  | negInfinity => decide
  | pos h =>
    obtain ⟨-, n, k, s, -, -, rfl⟩ := h
    obtain ⟨c, rest, hlayout, hdigit⟩ := layout_eq_cons (n := n) (k := k) (s := s)
    intro hnull
    have hlist := congrArg String.toList hnull
    rw [String.toList_ofList, hlayout] at hlist
    obtain ⟨rfl, -⟩ := List.cons.inj hlist
    exact absurd hdigit (by decide)
  | neg h =>
    intro hnull
    have hlist := congrArg String.toList hnull
    rw [String.toList_ofList] at hlist
    exact absurd (List.cons.inj hlist).1 (by decide)

/-! ## Integers -/

theorem roundEven_intCast (z : ℤ) : roundEven z = z := by
  unfold roundEven
  rw [Int.floor_intCast, sub_self]
  exact if_pos (by norm_num)

/-- An integer of 53 bits is a number. -/
theorem numberValue_natCast {m : Nat} (hpos : 0 < m) (hlt : m < 2 ^ 53) :
    numberValue m = .ofNat m := by
  have hlog : Nat.log 2 m < 53 := Nat.log_lt_of_lt_pow hpos.ne' hlt
  obtain ⟨d, hd⟩ : ∃ d : Nat, (Nat.log 2 m : Int) - 52 = -d :=
    ⟨52 - Nat.log 2 m, by omega⟩
  have he : max (Int.log 2 (m : ℚ) - 52) (-1074) = -(d : Int) := by
    rw [Int.log_natCast, hd]
    omega
  have hquot : (m : ℚ) / 2 ^ (-(d : Int)) = ((m * 2 ^ d : ℤ) : ℚ) := by
    rw [zpow_neg, zpow_natCast, div_inv_eq_mul]
    push_cast
    rfl
  have hprod : ((m * 2 ^ d : ℤ) : ℚ) * 2 ^ (-(d : Int)) = m := by
    rw [← hquot]
    exact div_mul_cancel₀ _ (zpow_ne_zero _ two_ne_zero)
  have hsmall : ¬ (2 : ℚ) ^ 1024 ≤ m := by
    rw [not_le]
    calc (m : ℚ) < 2 ^ 53 := by exact_mod_cast hlt
      _ ≤ 2 ^ 1024 := pow_le_pow_right₀ (by norm_num) (by norm_num)
  unfold numberValue
  rw [if_neg (not_le.mpr (Nat.cast_pos.mpr hpos))]
  simp only [he, hquot, roundEven_intCast, hprod, if_neg hsmall]
  rfl

theorem numberValue_natCast_of_lt {m : Nat} (hlt : m < 2 ^ 53) : numberValue m = .ofNat m := by
  rcases Nat.eq_zero_or_pos m with rfl | hpos
  · rw [Nat.cast_zero]
    exact if_pos le_rfl
  · exact numberValue_natCast hpos hlt

/-- The text of an integer of one digit. -/
theorem numberText_digit {d : Nat} (hpos : 0 < d) (hlt : d < 10) :
    NumberText (.ofNat d) (String.ofList [Nat.digitChar d]) := by
  have hlayout : layout 1 1 d = [Nat.digitChar d] := by
    unfold layout
    rw [Nat.toDigits_of_lt_base hlt]
    rfl
  have hvalue : numberValue (d * 10 ^ ((1 : Int) - (1 : Nat))) = .ofNat d := by
    rw [Nat.cast_one, sub_self, zpow_zero, mul_one]
    exact numberValue_natCast hpos (hlt.trans (by norm_num))
  rw [← hlayout]
  exact .pos ⟨Nat.cast_pos.mpr hpos, 1, 1, d, ⟨le_rfl, hpos, hlt, hvalue⟩,
    fun _ _ _ h => h.1, rfl⟩

end JsNumber

end YHub
