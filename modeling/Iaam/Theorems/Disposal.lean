import Iaam.Rules
import Mathlib.Algebra.BigOperators.Group.List.Basic
import Mathlib.Tactic.Linarith
import Mathlib.Tactic.Ring

/-! What a disposal does to a list of lots: it takes exactly the requested quantity, it loses no minor unit of
cost, and it keeps positive lots positive. -/

namespace Iaam
namespace Disposal
open Outcome

/-! ### Sums over lots -/

def quantitySum (lots : List Lot) : ℚ := (lots.map fun lot => lot.quantity.val).sum
def basisSum (lots : List Lot) : Int := (lots.map fun lot => lot.costBasis.amount.raw).sum

@[simp] theorem quantitySum_nil : quantitySum [] = 0 := rfl
@[simp] theorem basisSum_nil : basisSum [] = 0 := rfl
@[simp] theorem quantitySum_cons (lot : Lot) (lots : List Lot) :
    quantitySum (lot :: lots) = lot.quantity.val + quantitySum lots := rfl
@[simp] theorem basisSum_cons (lot : Lot) (lots : List Lot) :
    basisSum (lot :: lots) = lot.costBasis.amount.raw + basisSum lots := rfl
@[simp] theorem quantitySum_append (l l' : List Lot) : quantitySum (l ++ l') = quantitySum l + quantitySum l' := by
  simp [quantitySum]
@[simp] theorem basisSum_append (l l' : List Lot) : basisSum (l ++ l') = basisSum l + basisSum l' := by
  simp [basisSum]

/-- The lots have their cost in one currency. -/
def InCurrency (currency : CurrencyCode) (lots : List Lot) : Prop := ∀ lot ∈ lots, lot.costBasis.currency = currency

/-- Every lot holds something. -/
def Positive (lots : List Lot) : Prop := ∀ lot ∈ lots, 0 < lot.quantity.val

/-! ### Splitting a lot -/

/-- A split succeeds when the product and the share are in range and the lot is not empty. -/
theorem splitBasis_ok {total share : Money} {taken of : Dec} : splitBasis total taken of = .ok share ↔
    |total.amount.raw * taken.val| ≤ decimalMax ∧ of.val ≠ 0 ∧ |total.amount.raw * taken.val / of.val| ≤ decimalMax ∧
      share.amount.raw = roundHalfEven (total.amount.raw * taken.val / of.val) ∧ share.currency = total.currency := by
  constructor
  · intro h
    obtain ⟨minor, hminor, h⟩ := bind_ok.mp h
    obtain ⟨product, hproduct, h⟩ := bind_ok.mp h
    obtain ⟨scaled, hscaled, h⟩ := bind_ok.mp h
    have hminor := Dec.exact_eq_some.mp (orPanic_ok.mp hminor)
    have hproduct := decMul_ok.mp hproduct
    obtain ⟨hne, hscaled⟩ := decDiv_ok.mp hscaled
    rw [hminor] at hproduct
    rw [hproduct] at hscaled
    split at h
    · next value hvalue =>
      cases h
      rw [← hscaled, ← hproduct]
      exact ⟨product.inRange, hne, scaled.inRange, PostedMinor.ofInt_eq_some.mp hvalue, rfl⟩
    · cases h
  · rintro ⟨hproduct, hne, hscaled, hraw, hcurrency⟩
    refine bind_ok.mpr ⟨⟨_, total.amount.fits.inRange⟩, orPanic_ok.mpr (Dec.exact_eq_some.mpr rfl), ?_⟩
    refine bind_ok.mpr ⟨⟨_, hproduct⟩, decMul_ok.mpr rfl, ?_⟩
    refine bind_ok.mpr ⟨⟨_, hscaled⟩, decDiv_ok.mpr ⟨hne, rfl⟩, ?_⟩
    rw [PostedMinor.ofInt_eq_some.mpr hraw, ← hcurrency]

theorem splitBasis_currency {total share : Money} {taken of : Dec} (h : splitBasis total taken of = .ok share) :
    share.currency = total.currency :=
  (splitBasis_ok.mp h).2.2.2.2

/-- The share of the whole quantity is the whole amount. -/
theorem splitBasis_whole {total share : Money} {taken of : Dec} (h : splitBasis total taken of = .ok share)
    (hwhole : taken.val = of.val) : share = total := by
  obtain ⟨-, hne, -, hraw, hcurrency⟩ := splitBasis_ok.mp h
  rw [hwhole, mul_div_cancel_right₀ _ hne, roundHalfEven_intCast] at hraw
  exact Money.ext_raw hraw hcurrency

theorem splitLot_ok {lot kept : Lot} {left : Dec} {part : DisposedPart} (h : splitLot lot left = .ok (part, kept)) :
    kept.quantity.val = lot.quantity.val - left.val ∧
      kept.costBasis.amount.raw + part.basisReleased.amount.raw = lot.costBasis.amount.raw ∧
      kept.costBasis.currency = lot.costBasis.currency ∧ part.basisReleased.currency = lot.costBasis.currency := by
  obtain ⟨taken, htaken, h⟩ := bind_ok.mp h
  obtain ⟨keptBasis, hkept, h⟩ := bind_ok.mp h
  obtain ⟨_, -, h⟩ := bind_ok.mp h
  obtain ⟨_, -, h⟩ := bind_ok.mp h
  obtain ⟨_, -, h⟩ := bind_ok.mp h
  obtain ⟨keptQuantity, hq, h⟩ := bind_ok.mp h
  cases h
  obtain ⟨-, hraw, hcur⟩ := Money.trySub_ok.mp (convert_ok.mp hkept)
  refine ⟨decSub_ok.mp hq, ?_, hcur, splitBasis_currency htaken⟩
  change keptBasis.amount.raw + taken.amount.raw = lot.costBasis.amount.raw
  rw [hraw]
  ring

/-! ### The loop -/

def releasedSum (disposed : List DisposedPart) : Int := (disposed.map fun part => part.basisReleased.amount.raw).sum

theorem fifoLoop_zero {left : Dec} (hz : left.val = 0) (lots : List Lot) : fifoLoop left lots = .ok ([], lots) := by
  induction lots with
  | nil => rfl
  | cons lot lots ih =>
    unfold fifoLoop
    rw [if_pos (Dec.isZero_iff.mpr hz), ih]
    rfl

/-- Every branch of the loop over a list that is not empty. -/
theorem fifoLoop_cons {left : Dec} {lot : Lot} {lots remaining : List Lot} {disposed : List DisposedPart}
    (h : fifoLoop left (lot :: lots) = .ok (disposed, remaining)) :
    (left.val = 0 ∧ disposed = [] ∧ remaining = lot :: lots) ∨
    (left.val ≠ 0 ∧ lot.quantity.val ≤ left.val ∧ ∃ left' disposed', left'.val = left.val - lot.quantity.val ∧
      fifoLoop left' lots = .ok (disposed', remaining) ∧ disposed = disposeWhole lot :: disposed') ∨
    (left.val ≠ 0 ∧ left.val < lot.quantity.val ∧ ∃ part kept, splitLot lot left = .ok (part, kept) ∧
      disposed = [part] ∧ remaining = kept :: lots) := by
  by_cases hz : left.val = 0
  · rw [fifoLoop_zero hz] at h
    cases h
    exact Or.inl ⟨hz, rfl, rfl⟩
  · unfold fifoLoop at h
    rw [if_neg (fun h => hz (Dec.isZero_iff.mp h))] at h
    split at h
    · next hle =>
      obtain ⟨left', hleft, h⟩ := bind_ok.mp h
      obtain ⟨⟨disposed', remaining'⟩, hloop, h⟩ := bind_ok.mp h
      cases h
      exact Or.inr (Or.inl ⟨hz, Dec.le_iff.mp hle, left', disposed', decSub_ok.mp hleft, hloop, rfl⟩)
    · next hlt =>
      obtain ⟨⟨part, kept⟩, hsplit, h⟩ := bind_ok.mp h
      rw [fifoLoop_zero Dec.zero_val] at h
      cases h
      exact Or.inr (Or.inr ⟨hz, lt_of_not_ge fun hle => hlt (Dec.le_iff.mpr hle), part, kept, hsplit, rfl, rfl⟩)

/-- What is not taken is left over only when the lots run out. -/
theorem fifoLoop_quantity {lots : List Lot} {left : Dec} {disposed : List DisposedPart} {remaining : List Lot}
    (h : fifoLoop left lots = .ok (disposed, remaining)) (h0 : 0 ≤ left.val) (henough : left.val ≤ quantitySum lots) :
    quantitySum remaining = quantitySum lots - left.val := by
  induction lots generalizing left disposed with
  | nil =>
    cases h
    have : left.val = 0 := le_antisymm henough h0
    simp [this]
  | cons lot lots ih =>
    rw [quantitySum_cons] at henough ⊢
    rcases fifoLoop_cons h with ⟨hz, -, rfl⟩ | ⟨-, hle, left', disposed', hleft, hloop, -⟩ |
      ⟨-, -, part, kept, hsplit, -, rfl⟩
    · rw [hz, quantitySum_cons, sub_zero]
    · rw [ih hloop (by linarith) (by linarith), hleft]
      ring
    · rw [quantitySum_cons, (splitLot_ok hsplit).1]
      ring

theorem fifoLoop_basis {lots : List Lot} {left : Dec} {disposed : List DisposedPart} {remaining : List Lot}
    (h : fifoLoop left lots = .ok (disposed, remaining)) :
    basisSum remaining + releasedSum disposed = basisSum lots := by
  induction lots generalizing left disposed remaining with
  | nil =>
    cases h
    rfl
  | cons lot lots ih =>
    rcases fifoLoop_cons h with ⟨-, rfl, rfl⟩ | ⟨-, -, left', disposed', -, hloop, rfl⟩ |
      ⟨-, -, part, kept, hsplit, rfl, rfl⟩
    · exact add_zero _
    · have hrest := ih hloop
      simp only [releasedSum, List.map_cons, List.sum_cons, disposeWhole, basisSum_cons] at hrest ⊢
      linarith
    · have hbasis := (splitLot_ok hsplit).2.1
      simp only [releasedSum, List.map_singleton, List.sum_singleton, basisSum_cons]
      linarith

theorem fifoLoop_currency {currency : CurrencyCode} {lots : List Lot} {left : Dec} {disposed : List DisposedPart}
    {remaining : List Lot} (h : fifoLoop left lots = .ok (disposed, remaining)) (hc : InCurrency currency lots) :
    InCurrency currency remaining := by
  induction lots generalizing left disposed remaining with
  | nil =>
    cases h
    exact hc
  | cons lot lots ih =>
    have hlots : InCurrency currency lots := fun x hx => hc x (List.mem_cons_of_mem _ hx)
    rcases fifoLoop_cons h with ⟨-, -, rfl⟩ | ⟨-, -, left', disposed', -, hloop, -⟩ |
      ⟨-, -, part, kept, hsplit, -, rfl⟩
    · exact hc
    · exact ih hloop hlots
    · intro x hx
      rcases List.mem_cons.mp hx with rfl | hx
      · rw [(splitLot_ok hsplit).2.2.1]
        exact hc lot List.mem_cons_self
      · exact hlots x hx

theorem fifoLoop_positive {lots : List Lot} {left : Dec} {disposed : List DisposedPart} {remaining : List Lot}
    (h : fifoLoop left lots = .ok (disposed, remaining)) (hp : Positive lots) : Positive remaining := by
  induction lots generalizing left disposed remaining with
  | nil =>
    cases h
    exact hp
  | cons lot lots ih =>
    have hlots : Positive lots := fun x hx => hp x (List.mem_cons_of_mem _ hx)
    rcases fifoLoop_cons h with ⟨-, -, rfl⟩ | ⟨-, -, left', disposed', -, hloop, -⟩ |
      ⟨-, hlt, part, kept, hsplit, -, rfl⟩
    · exact hp
    · exact ih hloop hlots
    · intro x hx
      rcases List.mem_cons.mp hx with rfl | hx
      · rw [(splitLot_ok hsplit).1]
        linarith
      · exact hlots x hx

theorem fifoLoop_length {lots : List Lot} {left : Dec} {disposed : List DisposedPart} {remaining : List Lot}
    (h : fifoLoop left lots = .ok (disposed, remaining)) : remaining.length ≤ lots.length := by
  induction lots generalizing left disposed remaining with
  | nil =>
    cases h
    exact le_refl _
  | cons lot lots ih =>
    rcases fifoLoop_cons h with ⟨-, -, rfl⟩ | ⟨-, -, left', disposed', -, hloop, -⟩ | ⟨-, -, part, kept, -, -, rfl⟩
    · exact le_refl _
    · exact (ih hloop).trans (Nat.le_succ _)
    · exact le_refl _

/-- A disposal of something changes the lots: one fewer, or the first one smaller. -/
theorem fifoLoop_ne {lots : List Lot} {left : Dec} {disposed : List DisposedPart} {remaining : List Lot}
    (h : fifoLoop left lots = .ok (disposed, remaining)) (hne : left.val ≠ 0) (hlots : lots ≠ []) :
    remaining ≠ lots := by
  cases lots with
  | nil => exact absurd rfl hlots
  | cons lot lots =>
    rcases fifoLoop_cons h with ⟨hz, -, -⟩ | ⟨-, -, left', disposed', -, hloop, -⟩ | ⟨-, -, part, kept, hsplit, -, rfl⟩
    · exact absurd hz hne
    · intro heq
      have hlen := fifoLoop_length hloop
      rw [heq, List.length_cons] at hlen
      omega
    · intro heq
      have hkept : kept = lot := (List.cons.inj heq).1
      have hq := (splitLot_ok hsplit).1
      rw [hkept] at hq
      exact hne (by linarith)

/-! ### The rule -/

/-- What a disposal that succeeds gives. -/
structure Disposes (lots : List Lot) (quantity : Quantity) (r : DisposalResult) : Prop where
  nonempty : lots ≠ []
  enough : quantity.val ≤ quantitySum lots
  changed : quantity.val ≠ 0 → r.remaining ≠ lots
  quantity : 0 ≤ quantity.val → quantitySum r.remaining = quantitySum lots - quantity.val
  basis : basisSum r.remaining + r.basisReleased.amount.raw = basisSum lots
  currency : InCurrency r.basisReleased.currency lots
  remaining : InCurrency r.basisReleased.currency r.remaining
  positive : Positive lots → Positive r.remaining

theorem apply_ok {rule : LotDisposalRule} {lots : List Lot} {quantity : Quantity} {r : DisposalResult}
    (h : rule.apply ⟨lots, quantity⟩ = .ok r) : Disposes lots quantity r := by
  cases rule
  change fifoV1Apply ⟨lots, quantity⟩ = .ok r at h
  unfold fifoV1Apply at h
  split at h
  · cases h
  · next first rest hfirst =>
    dsimp only at hfirst h
    split at h
    · cases h
    · next hmixed =>
      obtain ⟨available, havailable, h⟩ := bind_ok.mp h
      split at h
      · cases h
      · next hle =>
        obtain ⟨⟨disposed, remaining⟩, hloop, h⟩ := bind_ok.mp h
        obtain ⟨released, hreleased, h⟩ := bind_ok.mp h
        cases h
        obtain ⟨hcur, hraw, -⟩ := Money.sum_ok (convert_ok.mp hreleased)
        have hin : InCurrency first.costBasis.currency lots := fun lot hlot => by
          by_contra hne
          exact hmixed (List.any_eq_true.mpr ⟨lot, hlot, decide_eq_true hne⟩)
        have hsum : available.val = quantitySum lots := by
          rw [decSum_ok havailable, List.map_map]
          rfl
        have henough : quantity.val ≤ quantitySum lots := by
          rw [← hsum]
          exact not_lt.mp fun hlt => hle (Dec.lt_iff.mpr hlt)
        refine
          { nonempty := fun hnil => by rw [hnil] at hfirst; cases hfirst
            enough := henough
            changed := fun hne => fifoLoop_ne hloop hne fun hnil => by rw [hnil] at hfirst; cases hfirst
            quantity := fun h0 => fifoLoop_quantity hloop h0 henough
            basis := ?_
            currency := hcur ▸ hin
            remaining := hcur ▸ fifoLoop_currency hloop hin
            positive := fifoLoop_positive hloop }
        rw [hraw, List.map_map]
        exact fifoLoop_basis hloop

end Disposal
end Iaam
