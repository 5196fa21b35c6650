import Iaam.Event.Correction
import Iaam.Lib.Search
import Iaam.Projection.Invariants

/-! Projections of the journal with snapshots (`projection/mod.rs`). -/

namespace Iaam
open Outcome

def projectionVersion : Nat := 8

structure ProjectionContext where
  contour : ContourDefinition
  rules : RuleRegistry
  lotRule : Nat

/-- A contour of one account, with the default rules. -/
def oneAccount : ProjectionContext := ⟨⟨⟨1⟩, 1, (∅ : Tree.Set AccountId).insert ⟨1⟩⟩, .withDefaults, 1⟩

/-- The two fingerprints: SHA-256 over the canonical bytes of a state and of a list of events. -/
structure Hashing where
  Hash : Type
  [decEq : DecidableEq Hash]
  fingerprint : LedgerState → Hash
  prefixDigest : List Event → Hash

attribute [instance] Hashing.decEq

/-- Hashing that keeps the events themselves as their digest. -/
def Hashing.transparent : Hashing where
  Hash := List Event
  fingerprint _ := []
  prefixDigest events := events

/-- A snapshot up to an order, with the fingerprint of its state and that of the events folded into it. -/
structure Snapshot (H : Hashing) where
  projectionVersion : Nat
  contour : ContourId
  contourVersion : Nat
  lotRule : Nat
  through : Option EffectiveOrder
  state : LedgerState
  fingerprint : H.Hash
  prefixDigest : H.Hash

structure Projection (H : Hashing) where
  snapshot : Snapshot H
  invariants : InvariantReport

inductive ProjectionError (H : Hashing) where
  | snapshotVersionMismatch (expected found : Nat)
  | snapshotFingerprintMismatch
  | snapshotContourMismatch (snapshotContour : ContourId) (snapshotVersion : Nat) (requestedContour : ContourId)
      (requestedVersion : Nat)
  | snapshotRuleMismatch (snapshot requested : Nat)
  | prefixChanged (expected found : H.Hash)
  | correction (e : CorrectionError)
  | balance (e : BalanceError)
  | lot (e : LotError)
  | flow (e : FlowError)
  | income (e : MoneyError)
  | invariant (e : InvariantViolation)

section
variable (H : Hashing)

abbrev Projected (α : Type) := Result (ProjectionError H) α

/-- The readers of the journal, one after another, on one event. -/
def applyEvent (ctx : ProjectionContext) (state : LedgerState) (e : Event) : Projected H LedgerState := do
  let balances ← convert .balance (state.balances.apply e)
  let book ← reraise .lot (Mut.onCopy (LotBook.apply e ctx.rules) state.book)
  let flows ← convert .flow (state.flows.apply e ctx.contour)
  let income ← convert .income (state.income.apply e)
  return ⟨balances, book, flows, income, state.prices.observe e, state.coverage.observe e⟩

/-- Applies the effective events to a state that has the earlier ones in it. -/
def fold (ctx : ProjectionContext) (state : LedgerState) (alreadyApplied effective : List Event) :
    Projected H (Projection H) := do
  let state ← effective.foldlM (applyEvent H ctx) state
  let all := alreadyApplied ++ effective
  let invariants ← reraise .invariant (check state all)
  return {
    snapshot := {
      projectionVersion := projectionVersion
      contour := ctx.contour.id
      contourVersion := ctx.contour.version
      lotRule := ctx.lotRule
      through := all.getLast?.map Event.order
      state := state
      fingerprint := H.fingerprint state
      prefixDigest := H.prefixDigest all }
    invariants := invariants }

/-- Full recomputation. -/
def project (ctx : ProjectionContext) (events : List Event) : Projected H (Projection H) := do
  let effective ← convert .correction (resolve events)
  fold H ctx (.new (.new ctx.lotRule)) [] effective

/-- A snapshot is taken up only by the version, contour and rule that built it, and when its fingerprint
    is that of its state. -/
def acceptSnapshot (ctx : ProjectionContext) (previous : Snapshot H) : Projected H Unit :=
  if previous.projectionVersion ≠ projectionVersion then
    .error (.error (.snapshotVersionMismatch projectionVersion previous.projectionVersion))
  else if previous.contour ≠ ctx.contour.id ∨ previous.contourVersion ≠ ctx.contour.version then
    .error (.error (.snapshotContourMismatch previous.contour previous.contourVersion ctx.contour.id
      ctx.contour.version))
  else if previous.lotRule ≠ ctx.lotRule then
    .error (.error (.snapshotRuleMismatch previous.lotRule ctx.lotRule))
  else if H.fingerprint previous.state ≠ previous.fingerprint then .error (.error .snapshotFingerprintMismatch)
  else .ok ()

/-- Where the effective list is split: the partition point of the events up to the order of the snapshot.
    The search is a parameter, since what it gives on a list that is not partitioned is not specified. -/
def splitPoint (search : (Event → Bool) → List Event → Nat) (through : Option EffectiveOrder)
    (effective : List Event) : Nat :=
  match through with
  | none => 0
  | some through => search (fun e => e.order.le through) effective

/-- Advances a snapshot over a full slice of the journal. -/
def advance (search : (Event → Bool) → List Event → Nat) (ctx : ProjectionContext) (previous : Snapshot H)
    (events : List Event) : Projected H (Projection H) := do
  acceptSnapshot H ctx previous
  let effective ← convert .correction (resolve events)
  let split := splitPoint search previous.through effective
  let applied := effective.take split
  let found := H.prefixDigest applied
  if found ≠ previous.prefixDigest then .error (.error (.prefixChanged previous.prefixDigest found))
  else fold H ctx previous.state applied (effective.drop split)

end
end Iaam
