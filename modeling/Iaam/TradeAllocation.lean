import Iaam.Money
import Mathlib.Data.List.Sort

/-! Distributing a posted amount over the fills of an order (`rules/trade_allocation.rs`). -/

namespace Iaam
namespace TradeAllocation

inductive AllocationError where
  | negativeTotal | zeroQuantity | floorOverflow | totalOverflow | remainderOverflow | overflow
  | numeric (e : NumericError)
  deriving DecidableEq, Repr

/-- The decimal of a posted amount. -/
def exactOf (total : PostedMinor) : Dec where
  val := total.raw
  inRange := total.fits.inRange

/-- The integer part, towards zero. -/
def truncated (q : ℚ) : ℤ := if 0 ≤ q then ⌊q⌋ else ⌈q⌉

/-- The whole minor units of the share of a weight, and what is cut off it. -/
def partOf (total quantity : Dec) (weight : Quantity) : Except AllocationError (PostedMinor × Dec) := do
  let scaled ← (total.checkedMul weight).mapError .numeric
  let exact ← (scaled.checkedDiv quantity).mapError .numeric
  match PostedMinor.ofInt (truncated exact.val) with
  | none => .error .floorOverflow
  | some base => do
    let remainder ← (Dec.checked (exact.val - truncated exact.val)).mapError fun _ => .remainderOverflow
    return (base, remainder)

def addBase (sum : PostedMinor) (part : PostedMinor × Dec) : Except AllocationError PostedMinor :=
  match sum.checkedAdd part.1 with
  | some sum => .ok sum
  | none => .error .totalOverflow

def remainderAt (parts : List (PostedMinor × Dec)) (index : Nat) : ℚ := ((parts[index]?.map Prod.snd).getD .zero).val

/-- The places by remainder, the largest first; equal ones stay as they are. -/
def byRemainder (parts : List (PostedMinor × Dec)) : List Nat :=
  (List.range parts.length).insertionSort fun left right =>
    remainderAt parts right < remainderAt parts left ∨ (remainderAt parts left = remainderAt parts right ∧ left ≤ right)

/-- One more unit at a place of the list. -/
def addUnit (result : List PostedMinor) (index : Nat) : Except AllocationError (List PostedMinor) :=
  match PostedMinor.ofInt ((result.getD index .zero).raw + 1) with
  | some amount => .ok (result.set index amount)
  | none => .error .overflow

/-- Largest remainders: what the whole units leave over goes to the largest remainders, one unit to each. -/
def allocateMinor (total : PostedMinor) (weights : List Quantity) : Except AllocationError (List PostedMinor) :=
  if total.raw < 0 then .error .negativeTotal
  else do
    let quantity ← (Dec.sum weights).mapError .numeric
    if quantity.isZero then .error .zeroQuantity
    else do
      let parts ← weights.mapM (partOf (exactOf total) quantity)
      let allocated ← parts.foldlM addBase .zero
      let remaining := total.raw - allocated.raw
      ((byRemainder parts).take remaining.toNat).foldlM addUnit (parts.map Prod.fst)

end TradeAllocation
end Iaam
