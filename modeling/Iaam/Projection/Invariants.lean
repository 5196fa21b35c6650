import Iaam.Event.Validate
import Iaam.Lib.Runs
import Iaam.Projection.State

/-! The invariants of the state as code (`projection/invariants.rs`). -/

namespace Iaam
open Outcome

inductive CheckedInvariant where
  | eventStructure (events : Nat)
  | lotsMatchPositions (pairs : Nat)
  | basisConserved (pairs : Nat)
  | flowsNonZero (flows : Nat)
  deriving DecidableEq, Repr

inductive InvariantViolation where
  | eventStructure (event : EventId) (source : EventValidationError)
  | lotsDoNotMatchPosition (key : LotKey) (lots position : Dec)
  | basisNotConserved (key : LotKey) (acquired remaining released : Int)
  | zeroExternalFlow (event : EventId)
  | numeric (e : NumericError)
  deriving DecidableEq

abbrev InvariantReport := List CheckedInvariant

/-- `a + b` on 64-bit integers: a result that does not fit panics. -/
def i64Add {ε : Type} (a b : Int) : Result ε Int := if FitsI64 (a + b) then .ok (a + b) else .error .panic

def checkStructure (events : List Event) : Result InvariantViolation Unit :=
  events.forM fun e => convert (.eventStructure e.id) e.validateStructure

/-- The quantity of an entry, zero when there is none. -/
def bookQuantity (book : LotBook) (key : LotKey) : Result InvariantViolation Quantity :=
  match book.entries[key]? with
  | some entry => convert .numeric entry.quantity
  | none => .ok Dec.zero

/-- Lots plus unpriced quantity against the position of the legs. -/
def checkQuantity (state : LedgerState) (key : LotKey) : Result InvariantViolation Unit := do
  let lots ← bookQuantity state.book key
  let position := state.balances.positionAt key
  if lots ≠ position then .error (.error (.lotsDoNotMatchPosition key lots position)) else .ok ()

/-- Acquired against remaining plus released. -/
def checkBasis (key : LotKey) (entry : InstrumentLots) (acquired : Money) : Result InvariantViolation Unit := do
  let remaining ← convert (fun _ => InvariantViolation.basisNotConserved key acquired.amount.raw 0 0)
    entry.remainingBasis
  let remaining := remaining.getD (Money.zero acquired.currency)
  let released := entry.releasedBasis.getD (Money.zero acquired.currency)
  let sum ← i64Add remaining.amount.raw released.amount.raw
  if sum ≠ acquired.amount.raw then
    .error (.error (.basisNotConserved key acquired.amount.raw remaining.amount.raw released.amount.raw))
  else .ok ()

/-- One key: the pairs checked so far, with those that have a basis. -/
def checkKey (state : LedgerState) (pairs : Nat × Nat) (key : LotKey) : Result InvariantViolation (Nat × Nat) := do
  checkQuantity state key
  match state.book.entries[key]? with
  | none => return (pairs.1 + 1, pairs.2)
  | some entry =>
    match entry.acquiredBasis with
    | none => return (pairs.1 + 1, pairs.2)
    | some acquired =>
      checkBasis key entry acquired
      return (pairs.1 + 1, pairs.2 + 1)

/-- The keys of the book and of the positions, in order. -/
def checkedKeys (state : LedgerState) : List LotKey :=
  (Std.ExtTreeSet.ofList (state.book.entries.keys ++ state.balances.positions.keys) compare).toList

def checkFlows (flows : List ExternalFlow) : Result InvariantViolation Unit :=
  flows.forM fun flow =>
    if flow.amount.isZero then .error (.error (.zeroExternalFlow flow.event)) else .ok ()

def check (state : LedgerState) (events : List Event) : Result InvariantViolation InvariantReport := do
  checkStructure events
  let (pairs, basisPairs) ← (checkedKeys state).foldlM (checkKey state) (0, 0)
  checkFlows state.flows.external
  return [.eventStructure events.length, .lotsMatchPositions pairs, .basisConserved basisPairs,
    .flowsNonZero state.flows.external.length]

/-! ### What the check reports -/

theorem bookQuantity_ok {book : LotBook} {key : LotKey} {q : Quantity} (h : bookQuantity book key = .ok q) :
    (book.lotsAt key).quantity = .ok q := by
  unfold bookQuantity at h
  unfold LotBook.lotsAt
  cases hl : book.entries[key]? with
  | none =>
    rw [hl] at h
    cases h
    rfl
  | some l =>
    rw [hl] at h
    exact convert_ok.mp h

theorem checkQuantity_error {state : LedgerState} {key : LotKey} {v : InvariantViolation}
    (h : checkQuantity state key = .error (.error v)) : (∃ e, v = .numeric e) ∨
      ∃ lots, (state.book.lotsAt key).quantity = .ok lots ∧ lots ≠ state.balances.positionAt key ∧
        v = .lotsDoNotMatchPosition key lots (state.balances.positionAt key) := by
  rcases bind_error.mp h with h | ⟨lots, hlots, h⟩
  · unfold bookQuantity at h
    split at h
    · obtain ⟨e, -, hv⟩ := convert_error.mp h
      cases hv
      exact Or.inl ⟨e, rfl⟩
    · cases h
  · dsimp only at h
    split at h
    · next hne =>
      cases h
      exact Or.inr ⟨lots, bookQuantity_ok hlots, hne, rfl⟩
    · cases h

theorem checkBasis_error {key : LotKey} {l : InstrumentLots} {acquired : Money} {v : InvariantViolation}
    (h : checkBasis key l acquired = .error (.error v)) :
    ∃ remaining released, v = .basisNotConserved key acquired.amount.raw remaining released := by
  rcases bind_error.mp h with h | ⟨r, -, h⟩
  · obtain ⟨e, -, hv⟩ := convert_error.mp h
    cases hv
    exact ⟨0, 0, rfl⟩
  · rcases bind_error.mp h with h | ⟨sum, -, h⟩
    · unfold i64Add at h
      split at h <;> cases h
    · split at h
      · cases h
        exact ⟨_, _, rfl⟩
      · cases h

/-- Where a reported violation comes from. -/
theorem check_error {state : LedgerState} {events : List Event} {v : InvariantViolation}
    (h : check state events = .error (.error v)) : (∃ e source, v = .eventStructure e source) ∨
      (∃ key, checkQuantity state key = .error (.error v)) ∨
      (∃ key l acquired, state.book.entries[key]? = some l ∧ l.acquiredBasis = some acquired ∧
        checkBasis key l acquired = .error (.error v)) ∨ ∃ e, v = .zeroExternalFlow e := by
  unfold check at h
  rcases bind_error.mp h with h | ⟨_, -, h⟩
  · obtain ⟨e, -, he⟩ := Runs.forM_error h
    obtain ⟨source, -, hv⟩ := convert_error.mp he
    cases hv
    exact Or.inl ⟨e.id, source, rfl⟩
  rcases bind_error.mp h with h | ⟨pairs, -, h⟩
  · obtain ⟨key, -, acc, hkey⟩ := Runs.foldlM_error h
    unfold checkKey at hkey
    rcases bind_error.mp hkey with hkey | ⟨_, -, hkey⟩
    · exact Or.inr (Or.inl ⟨key, hkey⟩)
    · split at hkey
      · cases hkey
      · next l hl =>
        split at hkey
        · cases hkey
        · next acquired ha =>
          rcases bind_error.mp hkey with hkey | ⟨_, -, hkey⟩
          · exact Or.inr (Or.inr (Or.inl ⟨key, l, acquired, hl, ha, hkey⟩))
          · cases hkey
  rcases bind_error.mp h with h | ⟨_, -, h⟩
  · obtain ⟨flow, -, hflow⟩ := Runs.forM_error h
    split at hflow
    · cases hflow
      exact Or.inr (Or.inr (Or.inr ⟨flow.event, rfl⟩))
    · cases hflow
  · cases h

end Iaam
