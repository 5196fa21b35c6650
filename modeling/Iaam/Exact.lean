import Iaam.Lib.Fractions
import Iaam.Numeric

/-! Exact fractions of 128-bit integers (`numeric/exact.rs`). A checked operation reports an overflow where the sum and
the product panic. -/

namespace Iaam
namespace Numeric
open Outcome

/-! ### 128-bit integers -/

/-- The integer fits in a signed 128-bit word. -/
def FitsI128 (n : Int) : Prop := -2 ^ 127 ≤ n ∧ n < 2 ^ 127

instance (n : Int) : Decidable (FitsI128 n) := inferInstanceAs (Decidable (_ ∧ _))

structure I128 where
  raw : Int
  fits : FitsI128 raw
  deriving DecidableEq

namespace I128

theorem ext_raw {a b : I128} (h : a.raw = b.raw) : a = b := by
  cases a
  cases b
  cases h
  rfl

def ofInt (n : Int) : Option I128 := if h : FitsI128 n then some ⟨n, h⟩ else none

@[simp] theorem ofInt_eq_some {n : Int} {a : I128} : ofInt n = some a ↔ a.raw = n := by
  unfold ofInt
  constructor
  · intro h
    split at h
    · cases h
      rfl
    · cases h
  · rintro rfl
    rw [dif_pos a.fits]

def zero : I128 := ⟨0, by decide⟩
def one : I128 := ⟨1, by decide⟩

def checkedAdd (a b : I128) : Option I128 := ofInt (a.raw + b.raw)
def checkedMul (a b : I128) : Option I128 := ofInt (a.raw * b.raw)
def checkedNeg (a : I128) : Option I128 := ofInt (-a.raw)

/-- The operator `/`, which drops a fraction and panics where there is no quotient. -/
def divide (a b : I128) : Option I128 := if b.raw = 0 then none else ofInt (a.raw.tdiv b.raw)

/-- `as i128`: the low 128 bits. -/
def wrap (n : Nat) : I128 where
  raw := (BitVec.ofNat 128 n).toInt
  fits := ⟨BitVec.le_toInt (BitVec.ofNat 128 n), BitVec.toInt_lt⟩

/-- The product of two `I256`: the low 256 bits. -/
def wideMul (a b : I128) : Int := (BitVec.ofInt 256 a.raw * BitVec.ofInt 256 b.raw).toInt

end I128

/-! ### Fractions -/

/-- `Exact`: a numerator and a denominator. -/
structure Exact where
  num : I128
  den : I128
  deriving DecidableEq

/-- Euclid's algorithm, on the magnitudes. -/
def gcd (a b : Nat) : Nat := if b = 0 then a else gcd b (a % b)
termination_by b
decreasing_by exact Nat.mod_lt _ (Nat.pos_of_ne_zero ‹_›)

namespace Exact

def fromInt (v : I128) : Exact := ⟨v, .one⟩

def zero : Exact := ⟨.zero, .one⟩

def isZero (x : Exact) : Bool := x.num.raw = 0

/-- The sign moved to the numerator. The least integer has no opposite. -/
def withPositiveDen (num den : I128) : Result NumericError (I128 × I128) :=
  if den.raw < 0 then do
    let num ← okOr .overflow num.checkedNeg
    let den ← okOr .overflow den.checkedNeg
    return (num, den)
  else .ok (num, den)

/-- Both parts divided by what they have in common. -/
def reduced (num den : I128) : Result NumericError Exact := do
  let g := I128.wrap (gcd num.raw.natAbs den.raw.natAbs)
  let num ← orPanic (num.divide g)
  let den ← orPanic (den.divide g)
  return ⟨num, den⟩

def fromRatio (num den : I128) : Result NumericError Exact :=
  if den.raw = 0 then .error (.error .zeroDenominator)
  else do
    let (num, den) ← withPositiveDen num den
    reduced num den

def new (num den : I128) : Result NumericError Exact := fromRatio num den

/-- `expect`: an error is a panic. -/
def expect {α : Type} : Result NumericError α → Result NumericError α
  | .ok a => .ok a
  | .error _ => .error .panic

def crossSum (x y : Exact) : Option I128 := do
  let a ← x.num.checkedMul y.den
  let b ← y.num.checkedMul x.den
  a.checkedAdd b

def add (x y : Exact) : Result NumericError Exact := do
  let num ← orPanic (crossSum x y)
  let den ← orPanic (x.den.checkedMul y.den)
  expect (new num den)

def neg (x : Exact) : Result NumericError Exact := do
  let num ← okOr .overflow x.num.checkedNeg
  return ⟨num, x.den⟩

def sub (x y : Exact) : Result NumericError Exact := do
  let opposite ← y.neg
  x.add opposite

def mul (x y : Exact) : Result NumericError Exact := do
  let num ← orPanic (x.num.checkedMul y.num)
  let den ← orPanic (x.den.checkedMul y.den)
  expect (new num den)

def div (x y : Exact) : Result NumericError Exact :=
  if y.isZero then .error (.error .divisionByZero)
  else do
    let num ← okOr .overflow (x.num.checkedMul y.den)
    let den ← okOr .overflow (x.den.checkedMul y.num)
    new num den

def sum (items : List Exact) : Result NumericError Exact := items.foldlM add zero

/-- The order of the cross products. -/
def cmp (x y : Exact) : Ordering := compare (x.num.wideMul y.den) (y.num.wideMul x.den)

end Exact
end Numeric
end Iaam
