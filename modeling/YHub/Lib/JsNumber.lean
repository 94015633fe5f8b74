import Mathlib.Algebra.Order.Monoid.WithTop
import Mathlib.Algebra.Order.Ring.Rat
import Mathlib.Tactic.Ring

/-!
# Numbers of JavaScript

A number is `NaN`, a rational, or one of the infinities (`⊥` and `⊤`); the two zeros are one.
Nothing is rounded: numbers are only compared here. `NaN` compares with nothing, and a number is
truthy unless it is `0` or `NaN`.
-/

namespace YHub

inductive JsNumber where
  | nan
  | num (x : WithBot (WithTop ℚ))
  deriving DecidableEq

namespace JsNumber

/-- A rational. -/
def ofRat (q : ℚ) : JsNumber := .num ((q : WithTop ℚ) : WithBot (WithTop ℚ))

def ofNat (n : Nat) : JsNumber := .ofRat n

def ofInt (n : Int) : JsNumber := .ofRat n

/-- `!!x` -/
def truthy : JsNumber → Bool
  | nan => false
  | num x => x ≠ 0

/-- `x <= y` -/
def le : JsNumber → JsNumber → Bool
  | num x, num y => x ≤ y
  | _, _ => false

/-- `x < y` -/
def lt : JsNumber → JsNumber → Bool
  | num x, num y => x < y
  | _, _ => false

/-- `ToIntegerOrInfinity(x)` as an index from the front: `none` is past every end. -/
def toIndex : JsNumber → Option Nat
  | nan => some 0
  | num x =>
    match (x : Option (Option ℚ)) with
    | none => some 0
    | some none => none
    | some (some q) => some q.floor.toNat

/-- `Number.isInteger(x)` -/
def isInteger : JsNumber → Bool
  | nan => false
  | num x =>
    match (x : Option (Option ℚ)) with
    | some (some q) => q.den = 1
    | _ => false

theorem truthy_eq_false_iff {x : JsNumber} : x.truthy = false ↔ x = .nan ∨ x = .ofNat 0 := by
  cases x with
  | nan => simp [truthy]
  | num x => simp [truthy, ofNat, ofRat]

@[simp] theorem truthy_ofNat (n : Nat) : (ofNat n).truthy = true ↔ n ≠ 0 := by
  simp [truthy, ofNat, ofRat]

@[simp] theorem le_ofNat_ofNat (m n : Nat) : (ofNat m).le (ofNat n) = true ↔ m ≤ n := by
  simp [le, ofNat, ofRat]

@[simp] theorem nan_le (x : JsNumber) : nan.le x = false := rfl

@[simp] theorem le_nan (x : JsNumber) : x.le nan = false := by
  cases x <;> rfl

end JsNumber

end YHub
