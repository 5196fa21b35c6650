import Iaam.Numeric

/-! The solver of the internal rate of return (`numeric/xirr.rs`). It calculates in 64-bit floating point, whose
operations enter as they are used: nothing is assumed of them. -/

namespace Iaam

inductive DayCount where
  | act365
  deriving DecidableEq, Repr

/-- The offset in days from the first flow, and the amount in the currency of the report. -/
structure SolverFlow where
  dayOffset : Int
  amount : Dec
  deriving DecidableEq

inductive SolverRefusal where
  | tooFewFlows
  | noSignChange
  | rootNotBracketed
  | multipleRoots (count : Nat)
  | uniquenessNotProven (signChanges : Nat)
  | notConverged (iterations : Nat)
  | notRepresentable
  | badBracket
  | allZero
  deriving DecidableEq, Repr

/-- The operations of floating point that the solver uses. -/
structure Floats (F : Type) where
  ofDec : Dec → Option F
  ofInt : Int → F
  add : F → F → F
  sub : F → F → F
  mul : F → F → F
  div : F → F → F
  pow : F → F → F
  abs : F → F
  signum : F → F
  eq : F → F → Bool
  lt : F → F → Bool
  le : F → F → Bool
  isFinite : F → Bool

structure SolverPolicy (F : Type) where
  rateTolerance : F
  maxIterations : Nat
  bracketLow : F
  bracketHigh : F
  deriving DecidableEq

structure ApproxValue (F : Type) where
  value : F
  errorBound : F
  iterations : Nat
  deriving DecidableEq

structure RateOutcome (F : Type) where
  rate : ApproxValue F
  policy : SolverPolicy F
  dayCount : DayCount
  deriving DecidableEq

/-- The years since the first flow and the amount of each flow, in the order of time. -/
structure Series (F : Type) where
  terms : List (F × F)
  deriving DecidableEq

namespace Xirr

def scanPoints : Nat := 1000

section
variable {F : Type} (f : Floats F)

def yearLength : DayCount → F
  | .act365 => f.ofInt 365

def term (dayCount : DayCount) (flow : SolverFlow) : Except SolverRefusal (F × F) :=
  match f.ofDec flow.amount with
  | none => .error .notRepresentable
  | some amount =>
    if !f.isFinite amount then .error .notRepresentable
    else
      let years := f.div (f.ofInt flow.dayOffset) (yearLength f dayCount)
      if !f.isFinite years then .error .notRepresentable else .ok (years, amount)

/-- The series of the flows. Its sum of absolute values only tells a series of zeros. -/
def build (flows : List SolverFlow) (dayCount : DayCount) : Except SolverRefusal (Series F) := do
  if flows.length < 2 then .error .tooFewFlows
  else
    let terms ← flows.mapM (term f dayCount)
    let magnitude := terms.foldl (fun sum term => f.add sum (f.abs term.2)) (f.ofInt 0)
    if !f.isFinite magnitude then .error .notRepresentable
    else if f.le magnitude (f.ofInt 0) then .error .allZero
    else .ok ⟨terms⟩

/-- One amount of the scan for changes of sign: the changes so far, and the last amount that has a sign. -/
def countSign (state : Nat × F) (term : F × F) : Nat × F :=
  if f.eq term.2 (f.ofInt 0) then state
  else
    (if !f.eq state.2 (f.ofInt 0) && !f.eq (f.signum state.2) (f.signum term.2) then state.1 + 1 else state.1, term.2)

/-- The changes of sign along the amounts. An amount of zero has no sign. -/
def signChanges (series : Series F) : Nat := (series.terms.foldl (countSign f) (0, f.ofInt 0)).1

def npv (series : Series F) (rate : F) : F :=
  series.terms.foldl (fun sum term => f.add sum (f.div term.2 (f.pow (f.add (f.ofInt 1) rate) term.1))) (f.ofInt 0)

/-- One point of the scan: the rate and the value before it, and what was found. -/
def scanPoint (series : Series F) (low step : F) (state : F × F × List (F × F)) (i : Nat) :
    Except SolverRefusal (F × F × List (F × F)) :=
  let (previousRate, previousValue, found) := state
  let rate := f.add low (f.mul step (f.ofInt i))
  let value := npv f series rate
  if !f.isFinite value then .error .notRepresentable
  else if f.eq value (f.ofInt 0) then .ok (rate, value, found ++ [(rate, rate)])
  else if !f.eq previousValue (f.ofInt 0) && !f.eq (f.signum previousValue) (f.signum value) then
    .ok (rate, value, found ++ [(previousRate, rate)])
  else .ok (rate, value, found)

/-- The intervals of the scan at whose ends the value has opposite signs. -/
def brackets (series : Series F) (policy : SolverPolicy F) : Except SolverRefusal (List (F × F)) := do
  if !f.isFinite policy.bracketLow || !f.isFinite policy.bracketHigh then .error .badBracket
  else if f.le policy.bracketHigh policy.bracketLow then .error .badBracket
  else if f.le policy.bracketLow (f.ofInt (-1)) then .error .badBracket
  else
    let step := f.div (f.sub policy.bracketHigh policy.bracketLow) (f.ofInt scanPoints)
    let first := npv f series policy.bracketLow
    if !f.isFinite first then .error .notRepresentable
    else
      let (_, _, found) ← (List.range' 1 scanPoints).foldlM (scanPoint f series policy.bracketLow step)
        (policy.bracketLow, first, [])
      return found

def secantIsInside (secant low high : F) : Bool := f.lt low secant && f.lt secant high

def finish (low high : F) (iterations : Nat) : ApproxValue F :=
  ⟨f.div (f.add low high) (f.ofInt 2), f.div (f.abs (f.sub high low)) (f.ofInt 2), iterations⟩

/-- The iterations that are left, from a bracket and the values at its ends. -/
def refineFrom (series : Series F) (policy : SolverPolicy F) :
    Nat → F → F → F → F → Except SolverRefusal (ApproxValue F)
  | 0, _, _, _, _ => .error (.notConverged policy.maxIterations)
  | left + 1, low, high, lowValue, highValue =>
    let iteration := policy.maxIterations - left
    let denominator := f.sub highValue lowValue
    let secant := f.sub high (f.div (f.mul highValue (f.sub high low)) denominator)
    let guess := if secantIsInside f secant low high then secant else f.div (f.add low high) (f.ofInt 2)
    let value := npv f series guess
    if !f.isFinite value then .error .notRepresentable
    else if f.eq value (f.ofInt 0) then .ok (finish f guess guess iteration)
    else
      let (low, high, lowValue, highValue) :=
        if f.eq (f.signum value) (f.signum highValue) then (low, guess, f.div lowValue (f.ofInt 2), value)
        else (high, guess, highValue, value)
      let (smaller, larger) := if f.le low high then (low, high) else (high, low)
      if f.le (f.sub larger smaller) policy.rateTolerance then .ok (finish f smaller larger iteration)
      else refineFrom series policy left low high lowValue highValue

def refine (series : Series F) (bracket : F × F) (policy : SolverPolicy F) : Except SolverRefusal (ApproxValue F) :=
  if f.le (f.sub bracket.2 bracket.1) policy.rateTolerance then .ok (finish f bracket.1 bracket.2 0)
  else refineFrom f series policy policy.maxIterations bracket.1 bracket.2 (npv f series bracket.1)
    (npv f series bracket.2)

/-- The rate at which the present value of the flows is zero. One bracket is the only root when the amounts change their
    sign once. -/
def solve (flows : List SolverFlow) (policy : SolverPolicy F) (dayCount : DayCount) :
    Except SolverRefusal (RateOutcome F) := do
  let series ← build f flows dayCount
  let changes := signChanges f series
  if changes = 0 then .error .noSignChange
  else
    let found ← brackets f series policy
    match found with
    | [] => .error .rootNotBracketed
    | [bracket] =>
      if 1 < changes then .error (.uniquenessNotProven changes)
      else
        let rate ← refine f series bracket policy
        return ⟨rate, policy, dayCount⟩
    | found => .error (.multipleRoots (min found.length (2 ^ 32 - 1)))

end

end Xirr
end Iaam
