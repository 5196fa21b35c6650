import Iaam.Lib.Outcome
import Mathlib.Data.Rat.Floor
import Mathlib.Algebra.Order.Field.Rat
import Mathlib.Tactic.Linarith
import Mathlib.Tactic.Positivity
import Mathlib.Tactic.NormNum

/-! Monetary numbers (`numeric/decimal.rs`).

`rust_decimal` is taken as it documents itself, without round-off errors: a `Decimal` is a rational of
magnitude at most `2 ^ 96 - 1`, an operation gives the exact result when that result is in the range, and
overflows otherwise. The checked operations return an error where the operators `+ - * /` panic. -/

namespace Iaam
open Outcome

inductive NumericError where
  | zeroDenominator
  | divisionByZero
  | overflow
  | scaleTooLarge (scale max : Nat)
  deriving DecidableEq, Repr

/-! ### Rounding -/

/-- Rounds to the nearest integer, halfway cases to the even one. -/
def roundHalfEven (q : ℚ) : Int :=
  let f := ⌊q⌋
  if q - f < 1 / 2 then f
  else if 1 / 2 < q - f then f + 1
  else if f % 2 = 0 then f else f + 1

theorem roundHalfEven_intCast (n : Int) : roundHalfEven n = n := by
  unfold roundHalfEven
  dsimp only
  rw [Int.floor_intCast, sub_self, if_pos (by norm_num)]

/-- Rounding does not pass an integer. -/
theorem roundHalfEven_le {q : ℚ} {n : Int} (h : q ≤ n) : roundHalfEven q ≤ n := by
  rcases h.eq_or_lt with rfl | hlt
  · rw [roundHalfEven_intCast]
  · have hfloor : ⌊q⌋ + 1 ≤ n := Int.floor_lt.mpr hlt
    unfold roundHalfEven
    dsimp only
    split_ifs <;> omega

theorem le_roundHalfEven {q : ℚ} {n : Int} (h : (n : ℚ) ≤ q) : n ≤ roundHalfEven q := by
  have hfloor : n ≤ ⌊q⌋ := Int.le_floor.mpr h
  unfold roundHalfEven
  dsimp only
  split_ifs <;> omega

/-- Rounds to the nearest integer, halfway cases away from zero. -/
def roundHalfAway (q : ℚ) : Int :=
  if 0 ≤ q then ⌊q + 1 / 2⌋ else -⌊-q + 1 / 2⌋

/-! ### Decimals -/

/-- The largest magnitude of a 96-bit decimal. -/
def decimalMax : ℚ := 2 ^ 96 - 1

/-- A decimal within range. -/
structure Dec where
  val : ℚ
  inRange : |val| ≤ decimalMax

namespace Dec

theorem ext_val {a b : Dec} (h : a.val = b.val) : a = b := by
  cases a
  cases b
  cases h
  rfl

instance : DecidableEq Dec := fun a b => decidable_of_iff (a.val = b.val) ⟨ext_val, fun h => h ▸ rfl⟩

instance : LinearOrder Dec := LinearOrder.lift' Dec.val fun _ _ => ext_val

instance : Repr Dec := ⟨fun d n => reprPrec d.val n⟩

theorem le_iff {a b : Dec} : a ≤ b ↔ a.val ≤ b.val := Iff.rfl

theorem lt_iff {a b : Dec} : a < b ↔ a.val < b.val := Iff.rfl

/-- The decimal with this exact value, when it is in range. -/
def exact (q : ℚ) : Option Dec := if h : |q| ≤ decimalMax then some ⟨q, h⟩ else none

theorem exact_eq_some {q : ℚ} {d : Dec} : exact q = some d ↔ d.val = q := by
  unfold exact
  constructor
  · intro h
    split at h
    · cases h; rfl
    · cases h
  · rintro rfl
    rw [dif_pos d.inRange]

theorem exact_eq_none {q : ℚ} : exact q = none ↔ ¬ |q| ≤ decimalMax := by
  unfold exact
  split
  · next h => exact iff_of_false (Option.some_ne_none _) (not_not.mpr h)
  · next h => exact iff_of_true rfl h

def zero : Dec := ⟨0, by simp [decimalMax]; norm_num⟩

def one : Dec := ⟨1, by simp [decimalMax]; norm_num⟩

def hundred : Dec := ⟨100, by simp [decimalMax]; norm_num⟩

/-- The decimal of a machine integer. -/
def ofInt64 (n : Int64) : Dec where
  val := n.toInt
  inRange := by
    have hlow : (-2 ^ 63 : ℚ) ≤ n.toInt := by exact_mod_cast n.le_toInt
    have hhigh : (n.toInt : ℚ) < 2 ^ 63 := by exact_mod_cast n.toInt_lt
    rw [abs_le, decimalMax]
    constructor <;> linarith

@[simp] theorem zero_val : zero.val = 0 := rfl
@[simp] theorem one_val : one.val = 1 := rfl
@[simp] theorem hundred_val : hundred.val = 100 := rfl

def isZero (d : Dec) : Bool := d.val = 0
def isPositive (d : Dec) : Bool := 0 < d.val
def isNegative (d : Dec) : Bool := d.val < 0

@[simp] theorem isZero_iff {d : Dec} : d.isZero = true ↔ d.val = 0 := by simp [isZero]
theorem not_isZero {d : Dec} : (!d.isZero) = true ↔ d.val ≠ 0 := by simp [isZero]
@[simp] theorem isPositive_iff {d : Dec} : d.isPositive = true ↔ 0 < d.val := by simp [isPositive]
@[simp] theorem isNegative_iff {d : Dec} : d.isNegative = true ↔ d.val < 0 := by simp [isNegative]

/-- The checked operations: the exact result, or an overflow. -/
def checked (q : ℚ) : Except NumericError Dec :=
  match exact q with
  | some d => .ok d
  | none => .error .overflow

@[simp] theorem checked_ok {q : ℚ} {d : Dec} : checked q = .ok d ↔ d.val = q := by
  unfold checked
  rw [← exact_eq_some]
  cases exact q <;> simp

/-- What lies between nothing and a decimal is in range. -/
theorem exists_checked (bound : Dec) {q : ℚ} (h0 : 0 ≤ q) (h : q ≤ bound.val) : ∃ d, checked q = .ok d ∧ d.val = q := by
  have hrange : |q| ≤ decimalMax := (abs_of_nonneg h0).trans_le (h.trans (abs_le.mp bound.inRange).2)
  exact ⟨⟨q, hrange⟩, checked_ok.mpr rfl, rfl⟩

def checkedAdd (a b : Dec) : Except NumericError Dec := checked (a.val + b.val)
def checkedSub (a b : Dec) : Except NumericError Dec := checked (a.val - b.val)
def checkedMul (a b : Dec) : Except NumericError Dec := checked (a.val * b.val)
def checkedNeg (a : Dec) : Except NumericError Dec := zero.checkedSub a

/-- Division, with a zero divisor told apart from an overflow. -/
def checkedDiv (a b : Dec) : Except NumericError Dec :=
  if b.isZero then .error .divisionByZero else checked (a.val / b.val)

@[simp] theorem checkedAdd_ok {a b d : Dec} : a.checkedAdd b = .ok d ↔ d.val = a.val + b.val := checked_ok
@[simp] theorem checkedSub_ok {a b d : Dec} : a.checkedSub b = .ok d ↔ d.val = a.val - b.val := checked_ok
@[simp] theorem checkedMul_ok {a b d : Dec} : a.checkedMul b = .ok d ↔ d.val = a.val * b.val := checked_ok
theorem exists_checkedAdd (bound : Dec) {a b : Dec} (h0 : 0 ≤ a.val + b.val) (h : a.val + b.val ≤ bound.val) :
    ∃ d, a.checkedAdd b = .ok d ∧ d.val = a.val + b.val := exists_checked bound h0 h

/-- A decimal less a part of it. -/
theorem exists_checkedSub {a b : Dec} (h0 : 0 ≤ b.val) (h : b.val ≤ a.val) :
    ∃ d, a.checkedSub b = .ok d ∧ d.val = a.val - b.val :=
  exists_checked a (sub_nonneg.mpr h) (sub_le_self _ h0)

@[simp] theorem checkedNeg_ok {a d : Dec} : a.checkedNeg = .ok d ↔ d.val = -a.val := by
  simp [checkedNeg]

theorem checkedDiv_ok {a b d : Dec} : a.checkedDiv b = .ok d ↔ b.val ≠ 0 ∧ d.val = a.val / b.val := by
  unfold checkedDiv
  split
  · next hz => simp [isZero_iff.mp hz]
  · next hz =>
    have hne : b.val ≠ 0 := fun h => hz (isZero_iff.mpr h)
    simp [hne]

theorem checkedNeg_total (a : Dec) : ∃ d, a.checkedNeg = .ok d :=
  ⟨⟨-a.val, by rw [abs_neg]; exact a.inRange⟩, by simp⟩

/-- `Dec::sum`. -/
def sum (items : List Dec) : Except NumericError Dec :=
  items.foldlM checkedAdd zero

/-- The largest integer not above. -/
def floor (d : Dec) : Dec where
  val := ⌊d.val⌋
  inRange := by
    have h := abs_le.mp d.inRange
    have hint : decimalMax = ((2 ^ 96 - 1 : Int) : ℚ) := by norm_num [decimalMax]
    rw [abs_le]
    constructor
    · rw [hint, ← Int.cast_neg, Int.cast_le, Int.le_floor]
      rw [hint] at h
      simpa using h.1
    · exact (Int.floor_le d.val).trans h.2

@[simp] theorem floor_val (d : Dec) : d.floor.val = ⌊d.val⌋ := rfl

/-- The largest scale that can be converted to exact mode. -/
def maxScale : Nat := 18

/-- Rounding to a decimal place, halfway cases away from zero. -/
def checkedRoundToScale (d : Dec) (scale : Nat) : Except NumericError Dec :=
  if maxScale < scale then .error (.scaleTooLarge scale maxScale)
  else checked (roundHalfAway (d.val * 10 ^ scale) / 10 ^ scale)

end Dec

/-! ### The unchecked operators of `Decimal` -/

/-- `a + b`, `a - b`, `a * b`: a result out of range panics. -/
def decAdd {ε : Type} (a b : Dec) : Result ε Dec := orPanic (Dec.exact (a.val + b.val))
def decSub {ε : Type} (a b : Dec) : Result ε Dec := orPanic (Dec.exact (a.val - b.val))
def decMul {ε : Type} (a b : Dec) : Result ε Dec := orPanic (Dec.exact (a.val * b.val))

/-- `a / b`: a zero divisor or a result out of range panics. -/
def decDiv {ε : Type} (a b : Dec) : Result ε Dec :=
  if b.isZero then .error .panic else orPanic (Dec.exact (a.val / b.val))

/-- The sum of an iterator of decimals. -/
def decSum {ε : Type} (items : List Dec) : Result ε Dec :=
  items.foldlM decAdd Dec.zero

@[simp] theorem decAdd_ok {ε : Type} {a b d : Dec} : (decAdd a b : Result ε Dec) = .ok d ↔ d.val = a.val + b.val := by
  simp [decAdd, Dec.exact_eq_some]

@[simp] theorem decSub_ok {ε : Type} {a b d : Dec} : (decSub a b : Result ε Dec) = .ok d ↔ d.val = a.val - b.val := by
  simp [decSub, Dec.exact_eq_some]

@[simp] theorem decMul_ok {ε : Type} {a b d : Dec} : (decMul a b : Result ε Dec) = .ok d ↔ d.val = a.val * b.val := by
  simp [decMul, Dec.exact_eq_some]

@[simp] theorem decDiv_ok {ε : Type} {a b d : Dec} :
    (decDiv a b : Result ε Dec) = .ok d ↔ b.val ≠ 0 ∧ d.val = a.val / b.val := by
  unfold decDiv
  split
  · next hz => simp [Dec.isZero_iff.mp hz]
  · next hz =>
    have hne : b.val ≠ 0 := fun h => hz (Dec.isZero_iff.mpr h)
    simp [Dec.exact_eq_some, hne]

theorem decSum_ok {ε : Type} {items : List Dec} {d : Dec} (h : (decSum items : Result ε Dec) = .ok d) :
    d.val = (items.map Dec.val).sum := by
  suffices hfold : ∀ (items : List Dec) (acc d : Dec), items.foldlM decAdd acc = (.ok d : Result ε Dec) →
      d.val = acc.val + (items.map Dec.val).sum by simpa using hfold items Dec.zero d h
  intro items
  induction items with
  | nil =>
    intro acc d h
    cases h
    simp
  | cons x items ih =>
    intro acc d h
    obtain ⟨acc', hx, h⟩ := bind_ok.mp h
    rw [ih acc' d h, decAdd_ok.mp hx]
    simp [add_assoc]

/-- Decimals that are not negative add up when their sum is in range. -/
theorem exists_decSum {ε : Type} {items : List Dec} (h : ∀ x ∈ items, 0 ≤ x.val) :
    (∃ d, (decSum items : Result ε Dec) = .ok d) ↔ (items.map Dec.val).sum ≤ decimalMax := by
  constructor
  · rintro ⟨d, hd⟩
    rw [← decSum_ok hd]
    exact (abs_le.mp d.inRange).2
  · suffices hfold : ∀ (items : List Dec) (acc : Dec), (∀ x ∈ items, 0 ≤ x.val) → 0 ≤ acc.val →
        acc.val + (items.map Dec.val).sum ≤ decimalMax → ∃ d, items.foldlM decAdd acc = (.ok d : Result ε Dec) from
      fun hmax => hfold items Dec.zero h le_rfl (by simpa using hmax)
    intro items
    induction items with
    | nil => exact fun acc _ _ _ => ⟨acc, rfl⟩
    | cons x items ih =>
      intro acc hitems hacc hmax
      obtain ⟨hx, hitems⟩ := List.forall_mem_cons.mp hitems
      rw [List.map_cons, List.sum_cons, ← add_assoc] at hmax
      have hrest : 0 ≤ (items.map Dec.val).sum := List.sum_nonneg (List.forall_mem_map.mpr hitems)
      have hrange : |acc.val + x.val| ≤ decimalMax := by
        rw [abs_of_nonneg (add_nonneg hacc hx)]
        linarith
      obtain ⟨d, hd⟩ := ih ⟨_, hrange⟩ hitems (add_nonneg hacc hx) hmax
      exact ⟨d, bind_ok.mpr ⟨_, decAdd_ok.mpr rfl, hd⟩⟩

end Iaam
