import Iaam.Event.Envelope
import Mathlib.Data.List.Sort

/-! Corrections (`event/correction.rs`): the journal is append-only, and what counts of it is what is
neither reversed nor replaced, in the order of replay. -/

namespace Iaam

inductive CorrectionError where
  | danglingTarget (correction target : EventId)
  | conflictingReplacements (target first second : EventId)
  | duplicateEvent (id : EventId)
  deriving DecidableEq, Repr

inductive SupersededBy where
  | reversal
  | replacement (id : EventId)
  deriving DecidableEq, Repr

/-- What the relations between events say. It owns no events. -/
structure Supersession where
  reversed : Tree.Set EventId
  replacedBy : Tree.Map EventId EventId
  stands : Tree.Set EventId

def Supersession.supersededBy (s : Supersession) (event : EventId) : Option SupersededBy :=
  match s.replacedBy[event]? with
  | some id => some (.replacement id)
  | none => if event ∈ s.reversed then some .reversal else none

structure Resolution where
  effective : List Event
  supersession : Supersession

def indexId (ids : Tree.Set EventId) (r : EventId × Relation) : Except CorrectionError (Tree.Set EventId) :=
  if r.1 ∈ ids then .error (.duplicateEvent r.1) else .ok (ids.insert r.1)

/-- Step 1: the index of identifiers, where a duplicate is an error. -/
def indexIds (relations : List (EventId × Relation)) : Except CorrectionError (Tree.Set EventId) :=
  relations.foldlM indexId ∅

/-- Step 2, one event: records what the event reverses or replaces. `held` tells which targets are there. -/
def collectRelation (held : EventId → EventId → Bool) (acc : Tree.Set EventId × Tree.Map EventId EventId)
    (r : EventId × Relation) : Except CorrectionError (Tree.Set EventId × Tree.Map EventId EventId) :=
  match r.2 with
  | .none => .ok acc
  | .reversal target =>
    if !held r.1 target then .error (.danglingTarget r.1 target) else .ok (acc.1.insert target, acc.2)
  | .replacement target =>
    if !held r.1 target then .error (.danglingTarget r.1 target)
    else
      match acc.2[target]? with
      | some existing => .error (.conflictingReplacements target (min existing r.1) (max existing r.1))
      | none => .ok (acc.1, acc.2.insert target r.1)

def Relation.isReversal : Relation → Bool
  | .reversal _ => true
  | .none | .replacement _ => false

/-- Step 3: an effective event is neither reversed nor replaced, nor itself a reversal. -/
def supersession (relations : List (EventId × Relation)) (reversed : Tree.Set EventId)
    (replacedBy : Tree.Map EventId EventId) : Supersession :=
  let standing := relations.filter fun r => r.1 ∉ reversed && r.1 ∉ replacedBy && !r.2.isReversal
  ⟨reversed, replacedBy, Std.ExtTreeSet.ofList (standing.map Prod.fst) compare⟩

def resolveSupersessionInner (relations : List (EventId × Relation)) (allowUnheldTargets : Bool)
    (unheldHead : Option EventId) : Except CorrectionError Supersession := do
  let ids ← indexIds relations
  let held := fun id target => decide (target ∈ ids) || (allowUnheldTargets && unheldHead == some id)
  let (reversed, replacedBy) ← relations.foldlM (collectRelation held) (∅, ∅)
  return supersession relations reversed replacedBy

def resolveSupersession (relations : List (EventId × Relation)) : Except CorrectionError Supersession :=
  resolveSupersessionInner relations false none

/-- `sort_by` is stable, as the insertion sort is. -/
def sortForReplay (events : List Event) : List Event :=
  events.insertionSort fun l r => compareForReplay l r ≠ .gt

def resolutionFromEvents (events : List Event) (supersession : Supersession) : Resolution where
  effective := sortForReplay (events.filter fun e => e.id ∈ supersession.stands)
  supersession

def relationsOf (events : List Event) : List (EventId × Relation) := events.map fun e => (e.id, e.relation)

def resolveWithSupersession (events : List Event) : Except CorrectionError Resolution := do
  let supersession ← resolveSupersession (relationsOf events)
  return resolutionFromEvents events supersession

/-- A chain is a bounded view of the journal: its first event may name a target that is not held. -/
def resolveWithUnheldTargets (events : List Event) : Except CorrectionError Resolution := do
  let supersession ← resolveSupersessionInner (relationsOf events) true (events.head?.map Event.id)
  return resolutionFromEvents events supersession

/-- The effective events, in the order of replay. -/
def resolve (events : List Event) : Except CorrectionError (List Event) := do
  let resolution ← resolveWithSupersession events
  return resolution.effective

end Iaam
