import Iaam.Ids
import Iaam.Numeric

/-! Money and quantities (`money.rs`): posted amounts are 64-bit integers of minor units, calculated
values are decimals. -/

namespace Iaam
open Outcome

inductive CurrencyCode where
  | rub | usd | eur | cny | xau
  deriving DecidableEq, Repr

namespace CurrencyCode

/-- The position of the currency in the declaration, which orders them. -/
def index : CurrencyCode → Nat
  | rub => 0 | usd => 1 | eur => 2 | cny => 3 | xau => 4

instance : LinearOrder CurrencyCode :=
  LinearOrder.lift' index fun a b h => by cases a <;> cases b <;> first | rfl | simp [index] at h

def minorUnits : CurrencyCode → Nat
  | rub | usd | eur | cny => 2
  | xau => 4

def code : CurrencyCode → String
  | rub => "RUB" | usd => "USD" | eur => "EUR" | cny => "CNY" | xau => "XAU"

end CurrencyCode

/-! ### Posted amounts -/

/-- The integer fits in a signed 64-bit word. -/
def FitsI64 (n : Int) : Prop := -2 ^ 63 ≤ n ∧ n < 2 ^ 63

instance (n : Int) : Decidable (FitsI64 n) := inferInstanceAs (Decidable (_ ∧ _))

/-- A decimal can hold it. -/
theorem FitsI64.inRange {n : Int} (h : FitsI64 n) : |(n : ℚ)| ≤ decimalMax := by
  have hlow : (-2 ^ 63 : ℚ) ≤ n := by exact_mod_cast h.1
  have hhigh : (n : ℚ) < 2 ^ 63 := by exact_mod_cast h.2
  rw [abs_le, decimalMax]
  constructor <;> linarith

/-- A posted amount in minor units. -/
structure PostedMinor where
  raw : Int
  fits : FitsI64 raw
  deriving DecidableEq

namespace PostedMinor

instance : Repr PostedMinor := ⟨fun a n => reprPrec a.raw n⟩

theorem ext_raw {a b : PostedMinor} (h : a.raw = b.raw) : a = b := by
  cases a
  cases b
  cases h
  rfl

def new (value : Int64) : PostedMinor := ⟨value.toInt, value.le_toInt, value.toInt_lt⟩

/-- The amount with this value, when it fits. -/
def ofInt (n : Int) : Option PostedMinor := if h : FitsI64 n then some ⟨n, h⟩ else none

theorem ofInt_eq_some {n : Int} {a : PostedMinor} : ofInt n = some a ↔ a.raw = n := by
  unfold ofInt
  constructor
  · intro h
    split at h
    · cases h; rfl
    · cases h
  · rintro rfl
    rw [dif_pos a.fits]

def zero : PostedMinor := ⟨0, by decide⟩

@[simp] theorem zero_raw : zero.raw = 0 := rfl

def checkedAdd (a b : PostedMinor) : Option PostedMinor := ofInt (a.raw + b.raw)
def checkedSub (a b : PostedMinor) : Option PostedMinor := ofInt (a.raw - b.raw)
def checkedNeg (a : PostedMinor) : Option PostedMinor := ofInt (-a.raw)

end PostedMinor

/-! ### Money -/

inductive MoneyError where
  | currencyMismatch (left right : CurrencyCode)
  | overflow
  | numeric (e : NumericError)
  deriving DecidableEq, Repr

structure Money where
  amount : PostedMinor
  currency : CurrencyCode
  deriving DecidableEq, Repr

namespace Money

def zero (currency : CurrencyCode) : Money := ⟨.zero, currency⟩

@[simp] theorem zero_amount (c : CurrencyCode) : (zero c).amount = .zero := rfl
@[simp] theorem zero_currency (c : CurrencyCode) : (zero c).currency = c := rfl

def isZero (m : Money) : Bool := m.amount.raw = 0

@[simp] theorem isZero_iff {m : Money} : m.isZero = true ↔ m.amount.raw = 0 := by simp [isZero]

/-- The amount an operation computed, in the common currency of its operands. -/
def combine (l r : Money) (amount : Option PostedMinor) : Except MoneyError Money :=
  if l.currency = r.currency then
    match amount with
    | some a => .ok ⟨a, l.currency⟩
    | none => .error .overflow
  else .error (.currencyMismatch l.currency r.currency)

def tryAdd (l r : Money) : Except MoneyError Money := combine l r (l.amount.checkedAdd r.amount)
def trySub (l r : Money) : Except MoneyError Money := combine l r (l.amount.checkedSub r.amount)

def checkedNegate (m : Money) : Except MoneyError Money :=
  match m.amount.checkedNeg with
  | some a => .ok ⟨a, m.currency⟩
  | none => .error .overflow

theorem combine_ok {l r m : Money} {amount : Option PostedMinor} :
    combine l r amount = .ok m ↔ l.currency = r.currency ∧ amount = some m.amount ∧ m.currency = l.currency := by
  unfold combine
  split
  · next hc =>
    cases amount with
    | none => simp
    | some a =>
      simp only [Except.ok.injEq, Option.some.injEq, hc, true_and]
      constructor
      · rintro rfl; exact ⟨rfl, rfl⟩
      · rintro ⟨rfl, h⟩; cases m; cases h; rfl
  · next hc => simp [hc]

theorem tryAdd_ok {l r m : Money} : l.tryAdd r = .ok m ↔
    l.currency = r.currency ∧ m.amount.raw = l.amount.raw + r.amount.raw ∧ m.currency = l.currency := by
  rw [tryAdd, combine_ok, PostedMinor.checkedAdd, PostedMinor.ofInt_eq_some]

theorem trySub_ok {l r m : Money} : l.trySub r = .ok m ↔
    l.currency = r.currency ∧ m.amount.raw = l.amount.raw - r.amount.raw ∧ m.currency = l.currency := by
  rw [trySub, combine_ok, PostedMinor.checkedSub, PostedMinor.ofInt_eq_some]

theorem checkedNegate_ok {l m : Money} : l.checkedNegate = .ok m ↔
    m.amount.raw = -l.amount.raw ∧ m.currency = l.currency := by
  unfold checkedNegate
  constructor
  · intro h
    split at h
    · next a ha => cases h; exact ⟨PostedMinor.ofInt_eq_some.mp ha, rfl⟩
    · cases h
  · rintro ⟨ha, hc⟩
    rw [PostedMinor.checkedNeg, PostedMinor.ofInt_eq_some.mpr ha]
    cases m
    cases hc
    rfl

theorem ext_raw {a b : Money} (h : a.amount.raw = b.amount.raw) (hc : a.currency = b.currency) : a = b := by
  cases a
  cases b
  cases hc
  cases PostedMinor.ext_raw h
  rfl

/-- Adds an amount that may be absent, or takes it off. -/
def withOptional (op : Money → Money → Except MoneyError Money) (amount : Money) :
    Option Money → Except MoneyError Money
  | some extra => op amount extra
  | none => .ok amount

/-- The minor units of an amount that may be absent. -/
def rawOr (extra : Option Money) : Int := (extra.map fun m => m.amount.raw).getD 0

@[simp] theorem rawOr_none : rawOr none = 0 := rfl
@[simp] theorem rawOr_some (m : Money) : rawOr (some m) = m.amount.raw := rfl

theorem withOptional_tryAdd {amount m : Money} {extra : Option Money} (h : amount.withOptional tryAdd extra = .ok m) :
    m.amount.raw = amount.amount.raw + rawOr extra ∧ m.currency = amount.currency := by
  cases extra with
  | none =>
    cases h
    simp
  | some x => exact (tryAdd_ok.mp h).2

theorem withOptional_trySub {amount m : Money} {extra : Option Money} (h : amount.withOptional trySub extra = .ok m) :
    m.amount.raw = amount.amount.raw - rawOr extra ∧ m.currency = amount.currency := by
  cases extra with
  | none =>
    cases h
    simp
  | some x => exact (trySub_ok.mp h).2

/-- `Money::sum`: the currency is given, so that an empty list has a zero. -/
def sum (items : List Money) (currency : CurrencyCode) : Except MoneyError Money :=
  items.foldlM tryAdd (zero currency)

theorem sum_ok {items : List Money} {currency : CurrencyCode} {m : Money} (h : sum items currency = .ok m) :
    m.currency = currency ∧ m.amount.raw = (items.map fun x => x.amount.raw).sum ∧
      ∀ x ∈ items, x.currency = currency := by
  suffices hfold : ∀ (items : List Money) (acc m : Money), items.foldlM tryAdd acc = .ok m →
      m.currency = acc.currency ∧ m.amount.raw = acc.amount.raw + (items.map fun x => x.amount.raw).sum ∧
        ∀ x ∈ items, x.currency = acc.currency by
    obtain ⟨hc, hraw, hall⟩ := hfold items (zero currency) m h
    exact ⟨hc, by simpa using hraw, hall⟩
  intro items
  induction items with
  | nil =>
    rintro acc m ⟨⟩
    simp
  | cons x items ih =>
    intro acc m h
    obtain ⟨acc', hadd, h⟩ := bind_ok.mp h
    obtain ⟨hcur, hraw, hc⟩ := tryAdd_ok.mp hadd
    obtain ⟨hm, hsum, hall⟩ := ih acc' m h
    refine ⟨hm.trans hc, by rw [hsum, hraw]; simp [add_assoc], fun y hy => ?_⟩
    rcases List.mem_cons.mp hy with rfl | hy
    · exact hcur.symm
    · rw [hall y hy, hc]

/-- The amounts add up when they are in one currency and every running sum fits. -/
theorem sum_fits {items : List Money} {currency : CurrencyCode} : (∃ m, sum items currency = .ok m) ↔
    (∀ x ∈ items, x.currency = currency) ∧ ∀ p, p <+: items.map (fun x => x.amount.raw) → FitsI64 p.sum := by
  suffices hfold : ∀ (items : List Money) (acc : Money), (∃ m, items.foldlM tryAdd acc = .ok m) ↔
      (∀ x ∈ items, x.currency = acc.currency) ∧
        ∀ p, p <+: items.map (fun x => x.amount.raw) → FitsI64 (acc.amount.raw + p.sum) by
    have hsum := hfold items (zero currency)
    simp only [zero_amount, PostedMinor.zero_raw, zero_add, zero_currency] at hsum
    exact hsum
  intro items
  induction items with
  | nil =>
    intro acc
    refine ⟨fun _ => ⟨fun _ hx => (nomatch hx), fun p hp => ?_⟩, fun _ => ⟨acc, rfl⟩⟩
    rw [List.prefix_nil.mp hp]
    simpa using acc.amount.fits
  | cons x items ih =>
    intro acc
    rw [List.map_cons]
    constructor
    · rintro ⟨m, h⟩
      obtain ⟨acc', hadd, h⟩ := bind_ok.mp h
      obtain ⟨hcur, hraw, hc⟩ := tryAdd_ok.mp hadd
      obtain ⟨hall, hfits⟩ := (ih acc').mp ⟨m, h⟩
      refine ⟨List.forall_mem_cons.mpr ⟨hcur.symm, fun y hy => (hall y hy).trans hc⟩, fun p hp => ?_⟩
      rcases List.prefix_cons_iff.mp hp with rfl | ⟨p', rfl, hp'⟩
      · simpa using acc.amount.fits
      · have hsum := hfits p' hp'
        rw [hraw, add_assoc] at hsum
        rwa [List.sum_cons]
    · rintro ⟨hall, hfits⟩
      obtain ⟨hx, hall⟩ := List.forall_mem_cons.mp hall
      have hone : FitsI64 (acc.amount.raw + x.amount.raw) := by
        simpa using hfits [x.amount.raw] (List.prefix_cons_iff.mpr (Or.inr ⟨[], rfl, List.nil_prefix⟩))
      have hadd : acc.tryAdd x = .ok ⟨⟨_, hone⟩, acc.currency⟩ := tryAdd_ok.mpr ⟨hx.symm, rfl, rfl⟩
      obtain ⟨m, hm⟩ := (ih ⟨⟨_, hone⟩, acc.currency⟩).mpr ⟨hall, fun p hp => by
        have hsum := hfits (x.amount.raw :: p) (List.prefix_cons_iff.mpr (Or.inr ⟨p, rfl, hp⟩))
        rwa [List.sum_cons, ← add_assoc] at hsum⟩
      exact ⟨m, bind_ok.mpr ⟨_, hadd, hm⟩⟩

/-! Amounts by currency. -/

/-- The minor units of an amount in one currency. -/
def rawIn (c : CurrencyCode) (m : Money) : Int := if m.currency = c then m.amount.raw else 0

/-- The same of an amount that may be absent. -/
def knownIn (c : CurrencyCode) (extra : Option Money) : Int := (extra.map (rawIn c)).getD 0

section
variable {c : CurrencyCode} {a b m : Money}

@[simp] theorem knownIn_none : knownIn c none = 0 := rfl
@[simp] theorem knownIn_some (m : Money) : knownIn c (some m) = rawIn c m := rfl

theorem rawIn_of_zero (h : m.amount.raw = 0) : rawIn c m = 0 := by
  unfold rawIn
  rw [h, ite_self]

theorem rawIn_tryAdd (h : a.tryAdd b = .ok m) : rawIn c m = rawIn c a + rawIn c b := by
  obtain ⟨hab, hraw, hcur⟩ := tryAdd_ok.mp h
  unfold rawIn
  rw [hcur, ← hab, hraw]
  split <;> simp

theorem rawIn_trySub (h : a.trySub b = .ok m) : rawIn c m = rawIn c a - rawIn c b := by
  obtain ⟨hab, hraw, hcur⟩ := trySub_ok.mp h
  unfold rawIn
  rw [hcur, ← hab, hraw]
  split <;> simp

end

/-- The amount in major units, as a decimal of calculation. -/
def toCalcDec (m : Money) : Dec where
  val := m.amount.raw / 10 ^ m.currency.minorUnits
  inRange := by
    have hscale : (1 : ℚ) ≤ 10 ^ m.currency.minorUnits := one_le_pow₀ (by norm_num)
    rw [abs_div, abs_of_pos (lt_of_lt_of_le one_pos hscale)]
    exact (div_le_self (abs_nonneg _) hscale).trans m.amount.fits.inRange

end Money

/-- Adds to a total that may not have been started. -/
def accumulate (total : Option Money) (amount : Money) : Except MoneyError Money :=
  match total with
  | some previous => previous.tryAdd amount
  | none => .ok amount

/-- The sum of a running total, in the one currency of its parts. -/
theorem accumulate_ok {total : Option Money} {amount sum : Money} (h : accumulate total amount = .ok sum) :
    sum.amount.raw = Money.rawOr total + amount.amount.raw ∧ sum.currency = amount.currency ∧
      ∀ t, total = some t → t.currency = amount.currency := by
  cases total with
  | none =>
    cases h
    exact ⟨by simp, rfl, fun _ ht => (nomatch ht)⟩
  | some previous =>
    obtain ⟨hc, hraw, hcur⟩ := Money.tryAdd_ok.mp h
    exact ⟨hraw, hcur.trans hc, fun t ht => Option.some.inj ht ▸ hc⟩

theorem rawIn_accumulate {c : CurrencyCode} {total : Option Money} {amount sum : Money}
    (h : accumulate total amount = .ok sum) : sum.rawIn c = Money.knownIn c total + amount.rawIn c := by
  cases total with
  | none =>
    cases h
    exact (zero_add _).symm
  | some previous => exact Money.rawIn_tryAdd h

/-- A security quantity. The newtype of the source adds nothing to the arithmetic. -/
abbrev Quantity := Dec

/-! ### Calculated values -/

structure CalcMoney where
  value : Dec
  currency : CurrencyCode
  deriving DecidableEq, Repr

namespace CalcMoney

def checkedAdd (l r : CalcMoney) : Except MoneyError CalcMoney :=
  if l.currency = r.currency then do
    let value ← (l.value.checkedAdd r.value).mapError .numeric
    return ⟨value, l.currency⟩
  else .error (.currencyMismatch l.currency r.currency)

def checkedMul (m : CalcMoney) (factor : Dec) : Except MoneyError CalcMoney := do
  let value ← (m.value.checkedMul factor).mapError .numeric
  return ⟨value, m.currency⟩

def checkedSub (l r : CalcMoney) : Except MoneyError CalcMoney :=
  if l.currency = r.currency then do
    let value ← (l.value.checkedSub r.value).mapError .numeric
    return ⟨value, l.currency⟩
  else .error (.currencyMismatch l.currency r.currency)

/-- An operation on amounts of one currency. -/
theorem sameCurrency_ok {l r m : CalcMoney} {x : Except NumericError Dec} :
    (if l.currency = r.currency then do
      let value ← x.mapError MoneyError.numeric
      return (⟨value, l.currency⟩ : CalcMoney)
    else .error (.currencyMismatch l.currency r.currency)) = .ok m ↔
      l.currency = r.currency ∧ x = .ok m.value ∧ m.currency = l.currency := by
  split
  · next hc =>
    rw [bind_ok]
    constructor
    · rintro ⟨value, hvalue, h⟩
      cases h
      exact ⟨hc, mapError_ok.mp hvalue, rfl⟩
    · rintro ⟨-, hvalue, hcurrency⟩
      refine ⟨m.value, mapError_ok.mpr hvalue, ?_⟩
      rw [← hcurrency]
      rfl
  · next hc => exact ⟨fun h => (nomatch h), fun h => absurd h.1 hc⟩

theorem checkedAdd_ok {l r m : CalcMoney} : l.checkedAdd r = .ok m ↔
    l.currency = r.currency ∧ m.value.val = l.value.val + r.value.val ∧ m.currency = l.currency := by
  rw [checkedAdd, sameCurrency_ok, Dec.checkedAdd_ok]

theorem checkedSub_ok {l r m : CalcMoney} : l.checkedSub r = .ok m ↔
    l.currency = r.currency ∧ m.value.val = l.value.val - r.value.val ∧ m.currency = l.currency := by
  rw [checkedSub, sameCurrency_ok, Dec.checkedSub_ok]

end CalcMoney

/-- The source fact in minor units: rounded half away from zero, and it must fit in 64 bits. -/
def CalcMoney.roundedMinor (m : CalcMoney) : Except MoneyError PostedMinor := do
  let rounded ← (m.value.checkedRoundToScale m.currency.minorUnits).mapError .numeric
  let scaled ← (Dec.checked (rounded.val * 10 ^ m.currency.minorUnits)).mapError .numeric
  match PostedMinor.ofInt ⌊scaled.val⌋ with
  | some a => .ok a
  | none => .error (.numeric .overflow)

/-- A calculated amount for one unit of a security. -/
structure PerUnitAmount where
  value : Dec
  currency : CurrencyCode
  deriving DecidableEq, Repr

end Iaam
