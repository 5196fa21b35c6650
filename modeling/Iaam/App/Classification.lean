import Iaam.App.Correction

/-! Recomputing history by the rules (`recompute_history` of `scenarios/classification.rs`): what the rules as they
stand imply about the journal as it stands, and the facts that would record it. -/

namespace Iaam
open Outcome

/-- The subjects of a journal, by event. -/
def subjectsOf (events : List Event) : Tree.Map EventId ClassificationSubject :=
  Std.ExtTreeMap.ofList (events.filterMap fun e => (subject e).map fun s => (e.id, s)) compare

/-- An event by its identifier, which is unique in a journal that resolves. -/
def eventById (events : List Event) (id : EventId) : Option Event := events.find? fun e => e.id = id

/-- The identifiers drawn for one correction. -/
structure Draw where
  reversal : EventId
  fresh : Operation.Fresh

/-- The two facts of one correction. -/
def reclassificationCandidates (hashes : Hashes) (debug : EventKind → String) (draw : Draw) (owner : OwnerId)
    (original : Event) (classification : Classification) (declaredBy : Option PrincipalId) (index : Nat) :
    Result AppError (List Event) := do
  let replacement ← reclassificationFor hashes debug draw.fresh owner original classification declaredBy index
  return [reversalForWith hashes draw.reversal original declaredBy, replacement]

/-- The facts of one correction of a plan, when they can be constructed. -/
def correctionFacts (hashes : Hashes) (debug : EventKind → String) (draws : Nat → Draw) (owner : OwnerId)
    (declaredBy : Option PrincipalId) (events : List Event) : Correction × Nat → List Event
  | (correction, index) =>
    match eventById events correction.target with
    | none => []
    | some target =>
      match reclassificationCandidates hashes debug (draws index) owner target correction.becomes declaredBy index with
      | .ok facts => facts
      | .error _ => []

/-- The facts of every correction of a plan that can be constructed. -/
def planCandidates (hashes : Hashes) (debug : EventKind → String) (draws : Nat → Draw) (owner : OwnerId)
    (declaredBy : Option PrincipalId) (events : List Event) (plan : List Correction) : List Event :=
  plan.zipIdx.flatMap (correctionFacts hashes debug draws owner declaredBy events)

end Iaam
