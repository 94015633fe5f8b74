import Mathlib.Data.List.DropRight
import YHub.Lib.NumberText

/-!
# Numbers as `printf` writes them

`%.<p>g` of a number: rounded to `p` significant digits, without zeros at the end, with an exponent
if the first digit is more than four places behind the point or does not fit in front of it. Lua
writes its numbers with `%.14g`.

* `toPrecision`: the number that is written.
* `ofDigits?_format_iff`: the text consists of digits exactly if this is an integer of at most `p`
  digits, and then it is read back.
* `toPrecision_ofNat`, `toPrecision_le_ofNat`: an integer of at most `p` digits is written as it is,
  and nothing below it as more.
-/

namespace YHub

namespace JsNumber

/-! ## Arithmetic -/

/-- The number that a rational is rounded to. -/
def rounded (q : ℚ) : JsNumber := if q < 0 then (numberValue (-q)).neg else numberValue q

/-- `x - y` -/
def sub : JsNumber → JsNumber → JsNumber
  | num x, num y =>
    match (x : Option (Option ℚ)), (y : Option (Option ℚ)) with
    | some (some p), some (some q) => rounded (p - q)
    | none, none => nan
    | some none, some none => nan
    | none, _ => num ⊥
    | some none, _ => num ⊤
    | _, none => num ⊤
    | _, some none => num ⊥
  | _, _ => nan

/-! ## Texts -/

/-- The exponent of the first digit, and the integer that `p` digits make. -/
def significant (p : Nat) (q : ℚ) : ℤ × ℕ :=
  let n := Int.log 10 q
  let s := (roundEven (q / 10 ^ (n - (p - 1)))).toNat
  if s = 10 ^ p then (n + 1, 10 ^ (p - 1)) else (n, s)

/-- A positive number to `p` significant digits. -/
def roundSignificant (p : Nat) (q : ℚ) : ℚ :=
  (significant p q).2 * 10 ^ ((significant p q).1 - (p - 1))

/-- The number to `p` significant digits. -/
def toPrecision (p : Nat) : JsNumber → JsNumber
  | nan => nan
  | num x =>
    match (x : Option (Option ℚ)) with
    | some (some q) =>
      if q = 0 then ofNat 0
      else if q < 0 then ofRat (-roundSignificant p (-q)) else ofRat (roundSignificant p q)
    | _ => num x

def dropZeros (fraction : List Char) : List Char := fraction.rdropWhile (· = '0')

/-- An exponent has two digits at least. -/
def exponentText (n : ℤ) : List Char :=
  'e' :: (if n < 0 then '-' else '+') ::
    if n.natAbs < 10 then '0' :: Nat.toDigits 10 n.natAbs else Nat.toDigits 10 n.natAbs

/-- The text of `s * 10 ^ (n - (p - 1))`, where `s` has `p` digits. -/
def layoutG (p : Nat) (n : ℤ) (s : ℕ) : List Char :=
  let digits := Nat.toDigits 10 s
  if 0 ≤ n ∧ n < p then
    digits.take (n.toNat + 1) ++ point (dropZeros (digits.drop (n.toNat + 1)))
  else if -4 ≤ n ∧ n < 0 then
    '0' :: point (dropZeros (List.replicate (-n - 1).toNat '0' ++ digits))
  else digits.take 1 ++ point (dropZeros (digits.drop 1)) ++ exponentText n

/-- `%.<p>g`; a `nan` may have a sign. -/
def format (p : Nat) : JsNumber → List Char
  | nan => "nan".toList
  | num x =>
    match (x : Option (Option ℚ)) with
    | none => "-inf".toList
    | some none => "inf".toList
    | some (some q) =>
      if q = 0 then ['0']
      else if q < 0 then
        '-' :: layoutG p (significant p (-q)).1 (significant p (-q)).2
      else layoutG p (significant p q).1 (significant p q).2

/-- The number that digits make. -/
def ofDigits? (t : List Char) : Option Nat :=
  if t ≠ [] ∧ t.all Char.isDigit = true then some (Nat.ofDigitChars 10 t 0) else none

/-- The numbers, by cases. -/
@[elab_as_elim]
theorem casesRat {motive : JsNumber → Prop} (nan : motive nan) (bot : motive (num ⊥))
    (top : motive (num ⊤)) (rat : ∀ q, motive (ofRat q)) (x : JsNumber) : motive x := by
  cases x with
  | nan => exact nan
  | num x =>
    induction x using WithBot.recBotCoe with
    | bot => exact bot
    | coe x =>
      induction x using WithTop.recTopCoe with
      | top => exact top
      | coe q => exact rat q

theorem format_ofRat (p : Nat) (q : ℚ) : format p (ofRat q) =
    if q = 0 then ['0']
    else if q < 0 then '-' :: layoutG p (significant p (-q)).1 (significant p (-q)).2
    else layoutG p (significant p q).1 (significant p q).2 := rfl

theorem toPrecision_ofRat (p : Nat) (q : ℚ) : (ofRat q).toPrecision p =
    if q = 0 then ofNat 0
    else if q < 0 then ofRat (-roundSignificant p (-q)) else ofRat (roundSignificant p q) := rfl

/-! ## Rounding to digits -/

variable {p : Nat} {q : ℚ}

theorem roundEven_le {z : ℤ} (h : q ≤ z) : roundEven q ≤ z := by
  have hfloor : ⌊q⌋ ≤ z := Int.floor_le_iff.mpr (h.trans_lt (lt_add_one _))
  have hnext (hhalf : 1 / 2 ≤ q - ⌊q⌋) : ⌊q⌋ + 1 ≤ z := by
    refine Int.add_one_le_of_lt (hfloor.lt_of_ne ?_)
    rintro rfl
    linarith
  unfold roundEven
  split_ifs with hlt hgt heven
  · exact hfloor
  · exact hnext hgt.le
  · exact hfloor
  · exact hnext (not_lt.mp hlt)

theorem le_roundEven {z : ℤ} (h : (z : ℚ) ≤ q) : z ≤ roundEven q := by
  have hfloor : z ≤ ⌊q⌋ := Int.le_floor.mpr h
  unfold roundEven
  split_ifs
  · exact hfloor
  · exact hfloor.trans (Int.le_add_one le_rfl)
  · exact hfloor
  · exact hfloor.trans (Int.le_add_one le_rfl)

/-- The number in units of its last digit. -/
theorem scaled_mem (hp : 0 < p) (hq : 0 < q) :
    (10 : ℚ) ^ (p - 1) ≤ q / 10 ^ (Int.log 10 q - (p - 1)) ∧
      q / 10 ^ (Int.log 10 q - (p - 1)) < 10 ^ p := by
  have hunit : (0 : ℚ) < 10 ^ (Int.log 10 q - (p - 1)) := zpow_pos (by norm_num) _
  have hle : (10 : ℚ) ^ Int.log 10 q ≤ q := by
    exact_mod_cast Int.zpow_log_le_self (b := 10) (by norm_num) hq
  have hlt : q < (10 : ℚ) ^ (Int.log 10 q + 1) := by
    exact_mod_cast Int.lt_zpow_succ_log_self (b := 10) (by norm_num) q
  constructor
  · rw [le_div_iff₀ hunit, ← zpow_natCast, ← zpow_add₀ (by norm_num)]
    refine le_trans (le_of_eq ?_) hle
    congr 1
    omega
  · rw [div_lt_iff₀ hunit, ← zpow_natCast, ← zpow_add₀ (by norm_num)]
    refine lt_of_lt_of_eq hlt ?_
    congr 1
    omega

/-- What is rounded has `p` digits, unless it is the next power of ten. -/
theorem roundEven_scaled (hp : 0 < p) (hq : 0 < q) :
    ∃ s : ℕ, roundEven (q / 10 ^ (Int.log 10 q - (p - 1))) = s ∧ 10 ^ (p - 1) ≤ s ∧
      s ≤ 10 ^ p := by
  obtain ⟨hle, hlt⟩ := scaled_mem hp hq
  have hlow := le_roundEven (z := ((10 ^ (p - 1) : ℕ) : ℤ)) (by push_cast; exact hle)
  have hhigh := roundEven_le (z := ((10 ^ p : ℕ) : ℤ)) (by push_cast; exact hlt.le)
  obtain ⟨s, hs⟩ := Int.eq_ofNat_of_zero_le (le_trans (Int.natCast_nonneg _) hlow)
  rw [hs] at hlow hhigh
  exact ⟨s, hs, Int.ofNat_le.mp hlow, Int.ofNat_le.mp hhigh⟩

theorem significant_mem (hp : 0 < p) (hq : 0 < q) :
    10 ^ (p - 1) ≤ (significant p q).2 ∧ (significant p q).2 < 10 ^ p := by
  obtain ⟨s, hs, hle, hle'⟩ := roundEven_scaled hp hq
  unfold significant
  simp only [hs, Int.toNat_natCast]
  split_ifs with h
  · exact ⟨le_rfl, Nat.pow_lt_pow_right (by omega) (by omega)⟩
  · exact ⟨hle, lt_of_le_of_ne hle' h⟩

theorem roundSignificant_eq (hp : 0 < p) (hq : 0 < q) : roundSignificant p q =
    roundEven (q / 10 ^ (Int.log 10 q - (p - 1))) * 10 ^ (Int.log 10 q - (p - 1)) := by
  obtain ⟨s, hs, -, -⟩ := roundEven_scaled hp hq
  unfold roundSignificant significant
  simp only [hs, Int.toNat_natCast, Int.cast_natCast]
  split_ifs with h
  · have hexp : Int.log 10 q + 1 - ((p : ℤ) - 1) = (1 : ℤ) + (Int.log 10 q - (p - 1)) := by ring
    have hpow : (10 : ℚ) ^ (p - 1) * 10 = 10 ^ p := by
      rw [← pow_succ, Nat.sub_add_cancel hp]
    rw [h, hexp, zpow_add₀ (by norm_num), zpow_one, ← mul_assoc]
    push_cast
    rw [hpow]
  · rfl

theorem roundSignificant_pos (hp : 0 < p) (hq : 0 < q) : 0 < roundSignificant p q := by
  have hs : 0 < (significant p q).2 :=
    lt_of_lt_of_le (Nat.pow_pos (by omega)) (significant_mem hp hq).1
  exact mul_pos (Nat.cast_pos.mpr hs) (zpow_pos (by norm_num) _)

/-! ## Which texts are digits -/

/-- A digit is its value. -/
theorem eq_zero_of_toNat_sub {c : Char} (hc : c.isDigit = true) (h : c.toNat - '0'.toNat = 0) :
    c = '0' := by
  have hle : '0'.toNat ≤ c.toNat := by
    simp only [Char.isDigit, Bool.and_eq_true, decide_eq_true_eq] at hc
    exact hc.1
  exact Char.toNat_inj.mp (by omega)

theorem dropZeros_eq_nil_iff {l : List Char} (hl : ∀ c ∈ l, c.isDigit = true) :
    dropZeros l = [] ↔ Nat.ofDigitChars 10 l 0 = 0 := by
  unfold dropZeros
  rw [List.rdropWhile_eq_nil_iff]
  induction l using List.reverseRecOn with
  | nil => simp
  | append_singleton l c ih =>
    obtain ⟨hl, hc⟩ := List.forall_mem_append.mp hl
    rw [List.forall_mem_append, ih hl, Nat.ofDigitChars_append, Nat.ofDigitChars_cons,
      Nat.ofDigitChars_nil, List.forall_mem_singleton, decide_eq_true_eq]
    constructor
    · rintro ⟨hzero, rfl⟩
      rw [hzero]
      rfl
    · intro hsum
      have hsub : c.toNat - '0'.toNat = 0 := by omega
      exact ⟨by omega, eq_zero_of_toNat_sub (hc c (List.mem_singleton_self c)) hsub⟩

theorem ofDigits?_eq_some {t : List Char} {m : Nat} : ofDigits? t = some m ↔
    t ≠ [] ∧ (∀ c ∈ t, c.isDigit = true) ∧ Nat.ofDigitChars 10 t 0 = m := by
  rw [← List.all_eq_true]
  unfold ofDigits?
  split_ifs with h
  · rw [Option.some.injEq]
    exact ⟨fun heq => ⟨h.1, h.2, heq⟩, fun heq => heq.2.2⟩
  · exact ⟨fun heq => absurd heq (by simp), fun heq => absurd ⟨heq.1, heq.2.1⟩ h⟩

/-- A character that is no digit. -/
theorem ofDigits?_eq_none {t : List Char} {c : Char} (hc : c ∈ t) (hdigit : c.isDigit = false) :
    ofDigits? t = none := by
  rw [Option.eq_none_iff_forall_ne_some]
  intro m hm
  exact absurd (hdigit.symm.trans ((ofDigits?_eq_some.mp hm).2.1 c hc)) Bool.false_ne_true

theorem ofDigitChars_lt {l : List Char} (hl : ∀ c ∈ l, c.isDigit = true) :
    Nat.ofDigitChars 10 l 0 < 10 ^ l.length := by
  induction l using List.reverseRecOn with
  | nil => simp
  | append_singleton l c ih =>
    obtain ⟨hl, hc⟩ := List.forall_mem_append.mp hl
    have hlt := ih hl
    have hdigit : c.toNat - '0'.toNat < 10 := by
      have hc := hc c (List.mem_singleton_self c)
      simp only [Char.isDigit, Bool.and_eq_true, decide_eq_true_eq] at hc
      have hnine : c.toNat ≤ '9'.toNat := hc.2
      have hval : '9'.toNat = '0'.toNat + 9 := rfl
      omega
    rw [Nat.ofDigitChars_append, Nat.ofDigitChars_cons, Nat.ofDigitChars_nil, List.length_append,
      List.length_singleton, pow_succ]
    omega

variable {s : ℕ} {n : ℤ} {m : ℕ}

/-- Digits in front of a point are all there is if only zeros would follow it. -/
theorem ofDigits?_point_iff {whole fraction : List Char} (hne : whole ≠ [])
    (hwhole : ∀ c ∈ whole, c.isDigit = true) (hfraction : ∀ c ∈ fraction, c.isDigit = true) :
    ofDigits? (whole ++ point (dropZeros fraction)) = some m ↔
      Nat.ofDigitChars 10 (whole ++ fraction) 0 = m * 10 ^ fraction.length := by
  have hvalue : Nat.ofDigitChars 10 (whole ++ fraction) 0 =
      10 ^ fraction.length * Nat.ofDigitChars 10 whole 0 + Nat.ofDigitChars 10 fraction 0 := by
    rw [Nat.ofDigitChars_append, Nat.ofDigitChars_eq_ofDigitChars_zero]
  have hpos : 0 < 10 ^ fraction.length := Nat.pow_pos (by omega)
  by_cases hzeros : dropZeros fraction = []
  · have hzero := (dropZeros_eq_nil_iff hfraction).mp hzeros
    rw [hzeros, hvalue, hzero, Nat.add_zero, mul_comm, Nat.mul_right_cancel_iff hpos]
    unfold point
    rw [if_pos rfl, List.append_nil, ofDigits?_eq_some]
    exact ⟨fun h => h.2.2, fun h => ⟨hne, hwhole, h⟩⟩
  · have hpoint : '.' ∈ whole ++ point (dropZeros fraction) := by
      unfold point
      rw [if_neg hzeros]
      exact List.mem_append_right _ List.mem_cons_self
    rw [ofDigits?_eq_none hpoint (by decide), hvalue]
    refine ⟨fun h => absurd h (by simp), fun h => absurd ?_ hzeros⟩
    have hmod := congrArg (· % 10 ^ fraction.length) h
    simp only [Nat.mul_add_mod, Nat.mul_mod_left] at hmod
    rw [Nat.mod_eq_of_lt (ofDigitChars_lt hfraction)] at hmod
    exact (dropZeros_eq_nil_iff hfraction).mpr hmod

/-- Outside, the text has a point behind a zero, or an exponent. -/
theorem ofDigits?_layoutG_eq_none (hs : s ≠ 0) (houtside : ¬ (0 ≤ n ∧ n < p)) :
    ofDigits? (layoutG p n s) = none := by
  unfold layoutG
  simp only [if_neg houtside]
  split_ifs with hsmall
  · have hdigits : ∀ c ∈ List.replicate (-n - 1).toNat '0' ++ Nat.toDigits 10 s,
        c.isDigit = true := List.forall_mem_append.mpr ⟨isDigit_replicate _, isDigit_toDigits⟩
    have hne : dropZeros (List.replicate (-n - 1).toNat '0' ++ Nat.toDigits 10 s) ≠ [] := by
      rw [ne_eq, dropZeros_eq_nil_iff hdigits, ofDigitChars_zeros_append,
        Nat.ofDigitChars_ten_toDigits]
      exact hs
    refine ofDigits?_eq_none (c := '.') (List.mem_cons_of_mem _ ?_) (by decide)
    unfold point
    rw [if_neg hne]
    exact List.mem_cons_self
  · exact ofDigits?_eq_none (List.mem_append_right _ List.mem_cons_self : 'e' ∈ _) (by decide)

theorem ne_dash_of_mem {l : List Char} (hl : ∀ c ∈ l, c.isDigit = true) :
    ∀ c ∈ l, decide (c ≠ '-') = true := by
  intro c hc
  refine decide_eq_true ?_
  rintro rfl
  exact absurd (hl _ hc) (by decide)

theorem ne_dash_of_mem_point {whole fraction : List Char}
    (hwhole : ∀ c ∈ whole, c.isDigit = true) (hfraction : ∀ c ∈ fraction, c.isDigit = true) :
    ∀ c ∈ whole ++ point (dropZeros fraction), decide (c ≠ '-') = true := by
  have hzeros : ∀ c ∈ dropZeros fraction, c.isDigit = true :=
    fun c hc => hfraction c ((List.rdropWhile_prefix _ fraction).mem hc)
  refine List.forall_mem_append.mpr ⟨ne_dash_of_mem hwhole, ?_⟩
  unfold point
  split_ifs
  · exact fun c hc => absurd hc List.not_mem_nil
  · exact List.forall_mem_cons.mpr ⟨by decide, ne_dash_of_mem hzeros⟩

/-- What is in front of a dash is no digits. -/
theorem dash_notMem_layoutG (h : ofDigits? ((layoutG p n s).takeWhile (· ≠ '-')) = some m) :
    (layoutG p n s).dropWhile (· ≠ '-') = [] := by
  unfold layoutG at *
  simp only at *
  split_ifs at * with hinside hsmall
  · exact List.dropWhile_eq_nil_iff.mpr (ne_dash_of_mem_point
      (fun c hc => isDigit_toDigits c (List.mem_of_mem_take hc))
      fun c hc => isDigit_toDigits c (List.mem_of_mem_drop hc))
  · have hzero : ∀ c ∈ ['0'], c.isDigit = true := List.forall_mem_singleton.mpr (by decide)
    exact List.dropWhile_eq_nil_iff.mpr (ne_dash_of_mem_point hzero
      (List.forall_mem_append.mpr ⟨isDigit_replicate _, isDigit_toDigits⟩))
  · rw [List.takeWhile_append_of_pos (ne_dash_of_mem_point
      (fun c hc => isDigit_toDigits c (List.mem_of_mem_take hc))
      fun c hc => isDigit_toDigits c (List.mem_of_mem_drop hc))] at h
    have hexp : 'e' ∈ (exponentText n).takeWhile (· ≠ '-') := by
      unfold exponentText
      rw [List.takeWhile_cons_of_pos (by decide)]
      exact List.mem_cons_self
    rw [ofDigits?_eq_none (List.mem_append_right _ hexp) (by decide)] at h
    exact absurd h (by simp)

theorem ofDigits?_layoutG_iff (hp : 0 < p) (hle : 10 ^ (p - 1) ≤ s) (hlt : s < 10 ^ p) :
    ofDigits? (layoutG p n s) = some m ↔
      (0 ≤ n ∧ n < p) ∧ s = m * 10 ^ (p - 1 - n.toNat) := by
  have hlen := length_toDigits hp hle hlt
  by_cases hinside : 0 ≤ n ∧ n < p
  · have hne : (Nat.toDigits 10 s).take (n.toNat + 1) ≠ [] := by
      intro hnil
      have hshort := congrArg List.length hnil
      rw [List.length_take, hlen, List.length_nil] at hshort
      omega
    have hexp : p - (n.toNat + 1) = p - 1 - n.toNat := by omega
    rw [and_iff_right hinside]
    unfold layoutG
    simp only [if_pos hinside]
    rw [ofDigits?_point_iff hne (fun c hc => isDigit_toDigits c (List.mem_of_mem_take hc))
      fun c hc => isDigit_toDigits c (List.mem_of_mem_drop hc), List.take_append_drop,
      Nat.ofDigitChars_ten_toDigits, List.length_drop, hlen, hexp]
  · have hpos : 0 < 10 ^ (p - 1) := Nat.pow_pos (by omega)
    rw [ofDigits?_layoutG_eq_none (by omega) hinside]
    exact ⟨fun h => absurd h (by simp), fun h => absurd h.1 hinside⟩

/-- `s * 10 ^ (n - (p - 1))`, where the last digit is not behind the point. -/
theorem digits_mul_eq_iff {k : ℕ} (hk : k < p) :
    (s : ℚ) * 10 ^ ((k : ℤ) - (p - 1)) = m ↔ s = m * 10 ^ (p - 1 - k) := by
  have hexp : (k : ℤ) - (p - 1) = -((p - 1 - k : ℕ) : ℤ) := by omega
  rw [hexp, zpow_neg, zpow_natCast, mul_inv_eq_iff_eq_mul₀ (pow_ne_zero _ (by norm_num))]
  exact_mod_cast Iff.rfl

/-- The exponent of an integer that `p` digits have room for. -/
theorem exponent_mem (hp : 0 < p) (hle : 10 ^ (p - 1) ≤ s) (hlt : s < 10 ^ p)
    (hm : (s : ℚ) * 10 ^ (n - (p - 1)) = m) (hroom : m < 10 ^ p) : 0 ≤ n ∧ n < p := by
  have hpos : (0 : ℚ) < 10 ^ (n - (p - 1)) := zpow_pos (by norm_num) _
  have hle : (10 : ℚ) ^ ((p : ℤ) - 1) ≤ s := by
    have hcast : ((p : ℤ) - 1) = ((p - 1 : ℕ) : ℤ) := by omega
    rw [hcast, zpow_natCast]
    exact_mod_cast hle
  have hlt : (s : ℚ) < 10 ^ (p : ℤ) := by
    rw [zpow_natCast]
    exact_mod_cast hlt
  constructor
  · -- what begins behind the point is less than one
    by_contra hneg
    have hsmall : (m : ℚ) < 1 :=
      calc (m : ℚ) = s * 10 ^ (n - (p - 1)) := hm.symm
        _ < 10 ^ (p : ℤ) * 10 ^ (n - (p - 1)) := mul_lt_mul_of_pos_right hlt hpos
        _ = 10 ^ (n + 1) := by
          rw [← zpow_add₀ (by norm_num)]
          congr 1
          ring
        _ ≤ 10 ^ (0 : ℤ) := zpow_le_zpow_right₀ (by norm_num) (by omega)
        _ = 1 := zpow_zero _
    have hzero : m = 0 := by
      have : m < 1 := by exact_mod_cast hsmall
      omega
    rw [hzero, Nat.cast_zero] at hm
    have hs : (0 : ℚ) < s := lt_of_lt_of_le (zpow_pos (by norm_num) _) hle
    exact absurd hm (mul_pos hs hpos).ne'
  · -- with one more digit there would be no room
    by_contra hlarge
    have hbig : (10 : ℚ) ^ (p : ℤ) ≤ m :=
      calc (10 : ℚ) ^ (p : ℤ) ≤ 10 ^ n := zpow_le_zpow_right₀ (by norm_num) (by omega)
        _ = 10 ^ ((p : ℤ) - 1) * 10 ^ (n - (p - 1)) := by
          rw [← zpow_add₀ (by norm_num)]
          congr 1
          ring
        _ ≤ s * 10 ^ (n - (p - 1)) := mul_le_mul_of_nonneg_right hle hpos.le
        _ = m := hm
    rw [zpow_natCast] at hbig
    exact absurd hroom (not_lt.mpr (by exact_mod_cast hbig))

/-- The digits of a positive number are its rounding, if that is an integer they have room for. -/
theorem significant_iff (hp : 0 < p) (hq : 0 < q) :
    ((0 ≤ (significant p q).1 ∧ (significant p q).1 < p) ∧
      (significant p q).2 = m * 10 ^ (p - 1 - (significant p q).1.toNat)) ↔
    roundSignificant p q = m ∧ m < 10 ^ p := by
  obtain ⟨hle, hlt⟩ := significant_mem hp hq
  unfold roundSignificant
  generalize (significant p q).1 = n at *
  generalize (significant p q).2 = s at *
  constructor
  · rintro ⟨⟨hnonneg, hn⟩, hs⟩
    obtain ⟨k, rfl⟩ := Int.eq_ofNat_of_zero_le hnonneg
    refine ⟨(digits_mul_eq_iff (by omega)).mpr hs, lt_of_le_of_lt ?_ hlt⟩
    rw [hs]
    exact Nat.le_mul_of_pos_right m (Nat.pow_pos (by omega))
  · rintro ⟨hm, hroom⟩
    obtain ⟨hnonneg, hn⟩ := exponent_mem hp hle hlt hm hroom
    obtain ⟨k, rfl⟩ := Int.eq_ofNat_of_zero_le hnonneg
    exact ⟨⟨hnonneg, hn⟩, (digits_mul_eq_iff (by omega)).mp hm⟩

theorem ofRat_eq_ofNat_iff {r : ℚ} : ofRat r = ofNat m ↔ r = m := by
  unfold ofNat ofRat
  rw [num.injEq, WithBot.coe_inj, WithTop.coe_inj]

/-- A text that begins with no digit. -/
theorem ofDigits?_cons_eq_none {c : Char} (hc : c.isDigit = false) (t : List Char) :
    ofDigits? (c :: t) = none :=
  ofDigits?_eq_none List.mem_cons_self hc

theorem bot_ne_ofNat : num ⊥ ≠ ofNat m := fun h => WithBot.bot_ne_coe (num.inj h)

theorem top_ne_ofNat : num ⊤ ≠ ofNat m :=
  fun h => WithTop.top_ne_coe (WithBot.coe_inj.mp (num.inj h))

/-- A number below zero is none of the integers. -/
theorem toPrecision_ne_ofNat_of_neg (hp : 0 < p) (hneg : q < 0) :
    (ofRat q).toPrecision p ≠ ofNat m := by
  have hpos := roundSignificant_pos hp (neg_pos.mpr hneg)
  rw [toPrecision_ofRat, if_neg hneg.ne, if_pos hneg, ne_eq, ofRat_eq_ofNat_iff]
  intro h
  have hm : (0 : ℚ) ≤ m := Nat.cast_nonneg m
  linarith

theorem toPrecision_ofRat_of_pos (hq : 0 < q) :
    (ofRat q).toPrecision p = ofRat (roundSignificant p q) := by
  rw [toPrecision_ofRat, if_neg hq.ne', if_neg hq.le.not_gt]

/-- **Which texts are digits.** -/
theorem ofDigits?_format_iff (hp : 0 < p) {x : JsNumber} :
    ofDigits? (format p x) = some m ↔ x.toPrecision p = .ofNat m ∧ m < 10 ^ p := by
  have hnone {c : Char} {t : List Char} {y : JsNumber} (hc : c.isDigit = false)
      (hy : y ≠ .ofNat m) : ofDigits? (c :: t) = some m ↔ y = .ofNat m ∧ m < 10 ^ p := by
    rw [ofDigits?_cons_eq_none hc]
    exact ⟨fun h => absurd h (by simp), fun h => absurd h.1 hy⟩
  induction x using casesRat with
  | nan => exact hnone (by decide) (by simp [toPrecision, ofNat, ofRat])
  | bot => exact hnone (by decide) bot_ne_ofNat
  | top => exact hnone (by decide) top_ne_ofNat
  | rat q =>
    rw [format_ofRat]
    rcases lt_trichotomy q 0 with hneg | rfl | hpos
    · rw [if_neg hneg.ne, if_pos hneg]
      exact hnone (by decide) (toPrecision_ne_ofNat_of_neg hp hneg)
    · have hvalue : ofDigits? ['0'] = some 0 := rfl
      rw [toPrecision_ofRat, if_pos rfl, if_pos rfl, hvalue, Option.some.injEq]
      constructor
      · rintro rfl
        exact ⟨rfl, Nat.pow_pos (by omega)⟩
      · rintro ⟨heq, -⟩
        exact_mod_cast ofRat_eq_ofNat_iff.mp heq
    · obtain ⟨hle, hlt⟩ := significant_mem hp hpos
      rw [if_neg hpos.ne', if_neg hpos.le.not_gt, toPrecision_ofRat_of_pos hpos,
        ofDigits?_layoutG_iff hp hle hlt, significant_iff hp hpos, ofRat_eq_ofNat_iff]

/-- A text that has digits in front of a dash has none. -/
theorem dash_notMem_format {x : JsNumber}
    (h : ofDigits? ((format p x).takeWhile (· ≠ '-')) = some m) :
    (format p x).dropWhile (· ≠ '-') = [] := by
  induction x using casesRat with
  | nan => rfl
  | bot => exact absurd h (by simp [format, ofDigits?])
  | top => rfl
  | rat q =>
    rw [format_ofRat] at *
    split_ifs at * with hzero hneg
    · rfl
    · exact absurd h (by simp [ofDigits?])
    · exact dash_notMem_layoutG h

/-! ## Integers -/

/-- What is less than `10 ^ p` is rounded to a place behind the point, or to the last in front. -/
theorem exists_log_eq (hq : 0 < q) (hroom : q < 10 ^ p) :
    ∃ d : ℕ, Int.log 10 q - (p - 1) = -(d : ℤ) := by
  have hle : (10 : ℚ) ^ Int.log 10 q ≤ q := by
    exact_mod_cast Int.zpow_log_le_self (b := 10) (by norm_num) hq
  have hlt : Int.log 10 q < p := by
    rw [← zpow_natCast] at hroom
    exact (zpow_lt_zpow_iff_right₀ (by norm_num : (1 : ℚ) < 10)).mp (hle.trans_lt hroom)
  exact ⟨(p - 1 - Int.log 10 q).toNat, by omega⟩

/-- A number is not written as more than an integer above it. -/
theorem roundSignificant_le (hp : 0 < p) (hq : 0 < q) (hle : q ≤ m) (hroom : m < 10 ^ p) :
    roundSignificant p q ≤ m := by
  have hroom : (m : ℚ) < 10 ^ p := by exact_mod_cast hroom
  obtain ⟨d, hd⟩ := exists_log_eq hq (hle.trans_lt hroom)
  have hpow : (0 : ℚ) < 10 ^ d := pow_pos (by norm_num) d
  rw [roundSignificant_eq hp hq, hd, zpow_neg, zpow_natCast, div_inv_eq_mul, mul_inv_le_iff₀ hpow]
  have hscaled : q * 10 ^ d ≤ ((m * 10 ^ d : ℤ) : ℚ) := by
    push_cast
    exact mul_le_mul_of_nonneg_right hle hpow.le
  exact_mod_cast roundEven_le hscaled

theorem roundSignificant_natCast (hp : 0 < p) (hpos : 0 < m) (hroom : m < 10 ^ p) :
    roundSignificant p m = m := by
  have hpos : (0 : ℚ) < m := Nat.cast_pos.mpr hpos
  have hroom : (m : ℚ) < 10 ^ p := by exact_mod_cast hroom
  obtain ⟨d, hd⟩ := exists_log_eq hpos hroom
  have hpow : (10 : ℚ) ^ d ≠ 0 := pow_ne_zero d (by norm_num)
  have hscaled : (m : ℚ) * 10 ^ d = ((m * 10 ^ d : ℤ) : ℚ) := by push_cast; rfl
  rw [roundSignificant_eq hp hpos, hd, zpow_neg, zpow_natCast, div_inv_eq_mul, hscaled,
    roundEven_intCast, ← hscaled, mul_inv_cancel_right₀ hpow]

theorem toPrecision_ofNat (hp : 0 < p) (hroom : m < 10 ^ p) :
    (ofNat m).toPrecision p = ofNat m := by
  rcases Nat.eq_zero_or_pos m with rfl | hpos
  · rfl
  · show (ofRat m).toPrecision p = _
    rw [toPrecision_ofRat_of_pos (Nat.cast_pos.mpr hpos), roundSignificant_natCast hp hpos hroom]
    rfl

/-- What has more digits keeps them. -/
theorem le_roundSignificant (hp : 0 < p) (hle : 10 ^ p ≤ q) : 10 ^ p ≤ roundSignificant p q := by
  have hq : 0 < q := lt_of_lt_of_le (pow_pos (by norm_num) p) hle
  obtain ⟨s, hs, hlow, -⟩ := roundEven_scaled hp hq
  have hlog : (p : ℤ) ≤ Int.log 10 q := by
    have hlt : q < (10 : ℚ) ^ (Int.log 10 q + 1) := by
      exact_mod_cast Int.lt_zpow_succ_log_self (b := 10) (by norm_num) q
    rw [← zpow_natCast] at hle
    have := (zpow_lt_zpow_iff_right₀ (by norm_num : (1 : ℚ) < 10)).mp (hle.trans_lt hlt)
    omega
  have hunit : (10 : ℚ) ≤ 10 ^ (Int.log 10 q - (p - 1)) := by
    calc (10 : ℚ) = 10 ^ (1 : ℤ) := (zpow_one _).symm
      _ ≤ 10 ^ (Int.log 10 q - (p - 1)) := zpow_le_zpow_right₀ (by norm_num) (by omega)
  have hlow : (10 : ℚ) ^ (p - 1) ≤ s := by exact_mod_cast hlow
  rw [roundSignificant_eq hp hq, hs, Int.cast_natCast]
  calc (10 : ℚ) ^ p = 10 ^ (p - 1) * 10 := by rw [← pow_succ, Nat.sub_add_cancel hp]
    _ ≤ s * 10 ^ (Int.log 10 q - (p - 1)) := by gcongr

/-- An integer is written as digits exactly if they have room for it. -/
theorem ofDigits?_format_ofNat (hp : 0 < p) :
    ofDigits? (format p (ofNat m)) = if m < 10 ^ p then some m else none := by
  split_ifs with hroom
  · exact (ofDigits?_format_iff hp).mpr ⟨toPrecision_ofNat hp hroom, hroom⟩
  · rw [Option.eq_none_iff_forall_ne_some]
    intro k hk
    obtain ⟨heq, hlt⟩ := (ofDigits?_format_iff hp).mp hk
    have hle : (10 : ℚ) ^ p ≤ m := by exact_mod_cast not_lt.mp hroom
    have hpos : (0 : ℚ) < m := lt_of_lt_of_le (pow_pos (by norm_num) p) hle
    rw [show ofNat m = ofRat m from rfl, toPrecision_ofRat_of_pos hpos, ofRat_eq_ofNat_iff] at heq
    have hbig := le_roundSignificant hp hle
    rw [heq] at hbig
    exact absurd hlt (not_lt.mpr (by exact_mod_cast hbig))

/-- An integer from `0` to below a bound. -/
theorem exists_ofNat_iff {x : JsNumber} {k : ℕ} : (∃ m, x = ofNat m ∧ m < k) ↔
    x.isInteger = true ∧ (ofNat 0).le x = true ∧ x.lt (ofNat k) = true := by
  constructor
  · rintro ⟨m, rfl, hlt⟩
    refine ⟨?_, (le_ofNat_ofNat 0 m).mpr m.zero_le, ?_⟩
    · exact decide_eq_true (Rat.den_natCast m)
    · refine decide_eq_true (WithBot.coe_lt_coe.mpr (WithTop.coe_lt_coe.mpr ?_))
      exact Nat.cast_lt.mpr hlt
  · rintro ⟨hinteger, hle, hlt⟩
    induction x using casesRat with
    | nan => exact absurd hinteger Bool.false_ne_true
    | bot => exact absurd hinteger Bool.false_ne_true
    | top => exact absurd hinteger Bool.false_ne_true
    | rat q =>
      have hden : q.den = 1 := of_decide_eq_true hinteger
      have hle : (((0 : ℕ) : ℚ) : WithTop ℚ) ≤ (q : WithTop ℚ) :=
        WithBot.coe_le_coe.mp (of_decide_eq_true hle)
      have hlt : (q : WithTop ℚ) < ((k : ℚ) : WithTop ℚ) :=
        WithBot.coe_lt_coe.mp (of_decide_eq_true hlt)
      rw [WithTop.coe_le_coe, Nat.cast_zero] at hle
      rw [WithTop.coe_lt_coe] at hlt
      obtain ⟨m, hm⟩ := Int.eq_ofNat_of_zero_le (Rat.num_nonneg.mpr hle)
      have hq : q = m := by
        rw [← Rat.num_div_den q, hden, hm, Nat.cast_one, div_one]
        exact Int.cast_natCast m
      refine ⟨m, ?_, ?_⟩
      · rw [hq]
        rfl
      · rw [hq] at hlt
        exact_mod_cast hlt

/-- What is written as digits is not more than an integer that the number is not above. -/
theorem le_of_toPrecision_eq (hp : 0 < p) {x : JsNumber} {k : ℕ}
    (hx : x.toPrecision p = ofNat k) (hk : k < 10 ^ p) (hle : (ofNat m).lt x = false) : k ≤ m := by
  induction x using casesRat with
  | nan => exact absurd hx (by simp [toPrecision, ofNat, ofRat])
  | bot => exact absurd hx bot_ne_ofNat
  | top => exact absurd hx top_ne_ofNat
  | rat q =>
    have hnot : ¬ (((m : ℚ) : WithTop ℚ) : WithBot (WithTop ℚ)) < ((q : WithTop ℚ) :) :=
      of_decide_eq_false hle
    rw [WithBot.coe_lt_coe, WithTop.coe_lt_coe, not_lt] at hnot
    rcases lt_trichotomy q 0 with hneg | rfl | hpos
    · exact absurd hx (toPrecision_ne_ofNat_of_neg hp hneg)
    · have hzero : ofRat ((0 : ℕ) : ℚ) = ofNat k := hx
      have hk : (0 : ℕ) = k := by exact_mod_cast ofRat_eq_ofNat_iff.mp hzero
      omega
    · have heq : roundSignificant p q = k :=
        ofRat_eq_ofNat_iff.mp ((toPrecision_ofRat_of_pos hpos).symm.trans hx)
      by_cases hroom : m < 10 ^ p
      · have hround := roundSignificant_le hp hpos hnot hroom
        rw [heq] at hround
        exact_mod_cast hround
      · omega

end JsNumber

end YHub
