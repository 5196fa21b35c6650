import Iaam.Allocation
import Iaam.Store.Stamp

/-! What the share of an amortisation depends on, as it is written down for the hash (`allocation_inputs_hash` in
`rules/allocation.rs`). Decimals keep their scale here, for their texts show it. The texts of decimals and dates are
those of the libraries that the code takes them from. -/

namespace Iaam
namespace AllocationInputs

/-- `rust_decimal::Decimal`. -/
structure Decimal where
  negative : Bool
  mantissa : Nat
  scale : Nat
  mantissa_lt : mantissa < 2 ^ 96
  scale_le : scale ≤ 28

/-- The number that the decimal stands for. Decimals are equal and ordered by it, at whatever scale. -/
def Decimal.value (d : Decimal) : ℚ := (if d.negative then -(d.mantissa : ℚ) else d.mantissa) / 10 ^ d.scale

/-- `time::Date`. -/
structure CalendarDate where
  year : Int
  month : Nat
  day : Nat
  year_le : year.natAbs ≤ 9999
  month_le : 1 ≤ month ∧ month ≤ 12
  day_le : 1 ≤ day ∧ day ≤ daysInMonth year.natAbs month

namespace CalendarDate

def key (d : CalendarDate) : ℤ ×ₗ ℕ ×ₗ ℕ := toLex (d.year, toLex (d.month, d.day))

theorem key_injective : Function.Injective key := by
  intro d e h
  simp only [key, EmbeddingLike.apply_eq_iff_eq, Prod.mk.injEq] at h
  cases d
  cases e
  simpa using h

instance : LinearOrder CalendarDate := LinearOrder.lift' key key_injective

end CalendarDate

structure Amount where
  value : Decimal
  currency : CurrencyCode

structure PrincipalReturn where
  repaymentDate : CalendarDate
  sharePercent : Decimal

/-- The arguments of the hash. -/
structure Inputs where
  initial : Amount
  principalReturns : List PrincipalReturn
  on : CalendarDate
  snapshotId : Text

/-- The texts of decimals and dates, as the libraries display them. -/
structure InputTexts where
  decimal : Decimal → Text
  date : CalendarDate → Text

/-- The sign is written for negative numbers only. -/
def sign (negative : Bool) : Text := if negative then ['-'] else []

/-- A year of four digits, with its sign, then the month and the day. -/
def CalendarDate.text (d : CalendarDate) : Text :=
  sign (d.year < 0) ++ (numberText 4 d.year.natAbs ++ '-' :: (numberText 2 d.month ++ '-' :: numberText 2 d.day))

/-- What the libraries say of their texts. -/
structure InputTexts.Documented (t : InputTexts) : Prop where
  date : ∀ d, t.date d = d.text
  /-- Digits and a point, after a sign. -/
  decimal_shape : ∀ d, ∃ negative body, t.decimal d = sign negative ++ body ∧ body ≠ [] ∧
    ∀ c ∈ body, c.isDigit ∨ c = '.'
  /-- A text is that of one number. -/
  decimal_value : ∀ d e, t.decimal d = t.decimal e → d.value = e.value

/-- A return's place in the order. -/
def PrincipalReturn.key (item : PrincipalReturn) : CalendarDate ×ₗ ℚ :=
  toLex (item.repaymentDate, item.sharePercent.value)

/-- The returns by their days and shares. Those of one day and share stay in their order. -/
def ordered (principalReturns : List PrincipalReturn) : List PrincipalReturn :=
  principalReturns.insertionSort fun l r => l.key ≤ r.key

/-- What goes into the hash, one part after another. -/
def preimage (t : InputTexts) (inputs : Inputs) : Text :=
  "iaam/allocation-inputs/v1".toList ++ (t.decimal inputs.initial.value ++ (inputs.initial.currency.code.toList ++
    (((ordered inputs.principalReturns).flatMap fun item => t.date item.repaymentDate ++ t.decimal item.sharePercent) ++
      (t.date inputs.on ++ inputs.snapshotId))))

/-- `digest` is SHA-256, in hexadecimal digits. -/
def allocationInputsHash (digest : Text → String) (t : InputTexts) (inputs : Inputs) : String :=
  digest (preimage t inputs)

/-- The same principal, the same returns in whatever order, the same day and snapshot. -/
structure Same (a b : Inputs) : Prop where
  value : a.initial.value.value = b.initial.value.value
  currency : a.initial.currency = b.initial.currency
  principalReturns : (a.principalReturns.map PrincipalReturn.key).Perm (b.principalReturns.map PrincipalReturn.key)
  on : a.on = b.on
  snapshotId : a.snapshotId = b.snapshotId

/-! ### The inputs of the rule -/

theorem Decimal.abs_value_le (d : Decimal) : |d.value| ≤ decimalMax := by
  have habs : |d.value| = d.mantissa / 10 ^ d.scale := by
    rw [value, abs_div, abs_of_pos (by positivity : (0 : ℚ) < 10 ^ d.scale)]
    split
    · rw [abs_neg, Nat.abs_cast]
    · rw [Nat.abs_cast]
  have hmantissa : (d.mantissa : ℚ) ≤ decimalMax := by
    have hlt : (d.mantissa : ℚ) + 1 ≤ 2 ^ 96 := by exact_mod_cast d.mantissa_lt
    exact le_sub_iff_add_le.mpr hlt
  rw [habs]
  exact (div_le_self (by positivity) (one_le_pow₀ (by norm_num))).trans hmantissa

/-- The decimal without its scale. -/
def Decimal.dec (d : Decimal) : Dec := ⟨d.value, d.abs_value_le⟩

/-- The return without the scale of its share, its date numbered by `number`. -/
def PrincipalReturn.plain (number : CalendarDate → Date) (item : PrincipalReturn) : Bond.PrincipalReturn :=
  ⟨number item.repaymentDate, item.sharePercent.dec⟩

/-- The rule hashes the returns in this order. -/
theorem allocationInputsHash_plain {number : CalendarDate → Date} (hnumber : StrictMono number)
    (digest : PerUnitAmount → List Bond.PrincipalReturn → Date → String → String) (initial : PerUnitAmount)
    (principalReturns : List PrincipalReturn) (on : Date) (snapshotId : String) :
    Allocation.allocationInputsHash digest initial (principalReturns.map (·.plain number)) on snapshotId =
      digest initial ((ordered principalReturns).map (·.plain number)) on snapshotId := by
  have hkey : ∀ l r : PrincipalReturn, l.key ≤ r.key ↔
      toLex ((l.plain number).repaymentDate, (l.plain number).sharePercent.val) ≤
        toLex ((r.plain number).repaymentDate, (r.plain number).sharePercent.val) := by
    intro l r
    simp only [PrincipalReturn.key, PrincipalReturn.plain, Decimal.dec, Prod.Lex.toLex_le_toLex, hnumber.lt_iff_lt,
      hnumber.injective.eq_iff]
  rw [Allocation.allocationInputsHash, ordered, List.map_insertionSort (fun l r : PrincipalReturn => l.key ≤ r.key)
    (fun l r : Bond.PrincipalReturn =>
      toLex (l.repaymentDate, l.sharePercent.val) ≤ toLex (r.repaymentDate, r.sharePercent.val))
    (·.plain number) principalReturns fun l _ r _ => hkey l r]

end AllocationInputs
end Iaam
