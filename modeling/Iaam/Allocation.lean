import Iaam.Journal.Codes
import Iaam.Quotation
import Mathlib.Data.List.Sort

/-! The share of the remaining principal that an amortisation returns (`rules/allocation.rs`). -/

namespace Iaam
namespace Allocation
open Bond

def allocationAlgorithmV1 : Nat := 1

/-- The returns on the day and those before it, summed apart. Every share of the schedule is checked, also a later one. -/
def addReturn (on : Date) (sums : Dec × Dec) (item : Bond.PrincipalReturn) : Except AllocationGap (Dec × Dec) :=
  if !item.sharePercent.isPositive then .error .invalidPrefix
  else if item.repaymentDate = on then do
    let scheduledOnDate ← (sums.1.checkedAdd item.sharePercent).mapError fun _ => .invalidPrefix
    return (scheduledOnDate, sums.2)
  else if item.repaymentDate < on then do
    let repaidBefore ← (sums.2.checkedAdd item.sharePercent).mapError fun _ => .invalidPrefix
    return (sums.1, repaidBefore)
  else .ok sums

/-- The amount of the initial principal that the schedule has for the day, rounded as the source of payments rounds. -/
def plannedAmount (initial : PerUnitAmount) (scheduledOnDate : Dec) : Except NumericError Dec := do
  let value ← initial.value.checkedMul scheduledOnDate
  let planned ← value.checkedDiv .hundred
  planned.checkedRoundToScale initial.currency.minorUnits

/-- The share of the principal before the event, which is that of all returns of the day together. -/
def returnedShare (returnedPerUnit : PerUnitAmount) (on : Date) (initial : PerUnitAmount)
    (principalReturns : List Bond.PrincipalReturn) : Except AllocationGap ReturnedShare :=
  if initial.currency ≠ returnedPerUnit.currency then .error .currencyMismatch
  else do
    let (scheduledOnDate, repaidBefore) ← principalReturns.foldlM (addReturn on) (.zero, .zero)
    if scheduledOnDate.isZero then .error .noRepaymentOnDate
    else do
      let remainingBefore ← (Dec.hundred.checkedSub repaidBefore).mapError fun _ => .invalidPrefix
      if !remainingBefore.isPositive then .error .invalidPrefix
      else do
        let planned ← (plannedAmount initial scheduledOnDate).mapError fun _ => .amountMismatch
        let returned ← (returnedPerUnit.value.checkedRoundToScale returnedPerUnit.currency.minorUnits).mapError fun _ =>
          .amountMismatch
        if planned ≠ returned then .error .amountMismatch
        else do
          let share ← (scheduledOnDate.checkedDiv remainingBefore).mapError fun _ => .invalidPrefix
          (ReturnedShare.new share).mapError fun _ => .invalidPrefix

/-- What the share depends on, the returns in the order of their days and shares; `digest` writes it down and hashes it. -/
def allocationInputsHash (digest : PerUnitAmount → List Bond.PrincipalReturn → Date → String → String)
    (initial : PerUnitAmount) (principalReturns : List Bond.PrincipalReturn) (on : Date) (snapshotId : String) : String :=
  digest initial (principalReturns.insertionSort fun l r =>
    toLex (l.repaymentDate, l.sharePercent.val) ≤ toLex (r.repaymentDate, r.sharePercent.val)) on snapshotId

def resolveBasisAllocation (digest : PerUnitAmount → List Bond.PrincipalReturn → Date → String → String)
    (returnedPerUnit : PerUnitAmount) (on : Date) (schedule : Option BondSchedule) (snapshotId : String)
    (knowledgeAsOf : OffsetDateTime) : BasisAllocation :=
  match schedule with
  | none => .unknown .scheduleMissing
  | some schedule =>
    match schedule.completeness, schedule.initialPrincipal with
    | .incomplete _, _ | .unknown, _ => .unknown .scheduleNotValidated
    | .validated, none => .unknown .scheduleMissing
    | .validated, some initial =>
      match returnedShare returnedPerUnit on initial schedule.principalReturns with
      | .error gap => .unknown gap
      | .ok share =>
        .known share ⟨allocationInputsHash digest initial schedule.principalReturns on snapshotId, knowledgeAsOf,
          allocationAlgorithmV1⟩

end Allocation
end Iaam
