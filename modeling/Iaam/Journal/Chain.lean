import Iaam.Event.Correction

/-! The correction chain of one operation, entered from anywhere in it (`journal/chain.rs`): back along the
relations to the fact the chain began at, then forward to all that names it. -/

namespace Iaam

/-- What an event corrects. -/
def Relation.target? : Relation → Option EventId
  | none => Option.none
  | reversal target | replacement target => some target

/-- One fact of the journal, with the text of the moment this instance wrote it down. -/
structure RecordedEvent where
  event : Event
  recordedAt : String
  deriving DecidableEq

inductive StoreError where
  | correctionChainCycle (event : EventId)
  deriving DecidableEq, Repr

/-- Where a fact sits within the act that named its target. -/
def relationOrder (e : Event) : Nat :=
  match e.relation with
  | .reversal _ => 0
  | .replacement _ => 1
  | .none => 2

namespace Chain

/-- One fact of the owner's, by identifier. -/
def recordedEvent (journal : List RecordedEvent) (owner : OwnerId) (id : EventId) : Option RecordedEvent :=
  journal.find? fun r => r.event.owner = owner ∧ r.event.id = id

/-- The facts that name this one as what they reverse or replace, the reversal first. -/
def correctionsNaming (journal : List RecordedEvent) (owner : OwnerId) (target : EventId) : List RecordedEvent :=
  (journal.filter fun r => r.event.owner = owner ∧ r.event.relation.target? = some target).insertionSort fun l r =>
    (compare (relationOrder l.event) (relationOrder r.event)).then
      ((compare l.recordedAt r.recordedAt).then (compare l.event.id r.event.id)) ≠ .gt

/-- Back along the relations until nothing of the owner's is named. The loop ends within as many steps as there
    are facts; `none` is a loop that has not. -/
def headOfChain (journal : List RecordedEvent) (owner : OwnerId) :
    Nat → Tree.Set EventId → RecordedEvent → Option (Except StoreError RecordedEvent)
  | 0, _, _ => none
  | fuel + 1, seen, current =>
    if current.event.id ∈ seen then some (.error (.correctionChainCycle current.event.id))
    else
      match current.event.relation.target?.bind (recordedEvent journal owner) with
      | some named => headOfChain journal owner fuel (seen.insert current.event.id) named
      | none => some (.ok current)

/-- Forward from the head, depth first; the top of the stack of what is pending comes first. -/
def chainFrom (journal : List RecordedEvent) (owner : OwnerId) :
    Nat → List RecordedEvent → Tree.Set EventId → List RecordedEvent → Option (Except StoreError (List RecordedEvent))
  | 0, _, _, _ => none
  | _ + 1, chain, _, [] => some (.ok chain)
  | fuel + 1, chain, seen, current :: pending =>
    if current.event.id ∈ seen then some (.error (.correctionChainCycle current.event.id))
    else
      chainFrom journal owner fuel (chain ++ [current]) (seen.insert current.event.id)
        (correctionsNaming journal owner current.event.id ++ pending)

/-- Every fact of the chain an event belongs to, oldest first; none where the owner has no such event. -/
def eventChain (journal : List RecordedEvent) (owner : OwnerId) (event : EventId) :
    Option (Except StoreError (List RecordedEvent)) :=
  match recordedEvent journal owner event with
  | none => some (.ok [])
  | some entered =>
    match headOfChain journal owner (journal.length + 1) ∅ entered with
    | none => none
    | some (.error e) => some (.error e)
    | some (.ok head) => chainFrom journal owner (journal.length + 1) [] ∅ [head]

end Chain
end Iaam
