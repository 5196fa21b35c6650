import Iaam.Ingest.Classification
import Iaam.Lib.Matching
import Mathlib.Data.List.Sort

/-! One movement that a single document printed on both of its accounts (`mirror.rs`): a departure and an arrival of one day
and one amount. A row that could go with rows on two accounts goes with none. -/

namespace Iaam

/-- A row as the mirror test reads it. -/
structure MirrorSide where
  row : Nat
  account : AccountId
  direction : Classification.Movement
  amountMinor : PostedMinor
  currency : CurrencyCode
  date : Date
  farSide : Option AccountId
  deriving DecidableEq, Repr

inductive MirrorEvidence where
  | bothSidesNamed | oneSideNamed | shapeAlone
  deriving DecidableEq, Repr

/-- Two rows that are one movement. -/
structure Mirror where
  outgoing : Nat
  incoming : Nat
  evidence : MirrorEvidence
  deriving DecidableEq, Repr

/-- Why a side is in no pair. -/
inductive Unpaired where
  | noCounterpart | ambiguous
  deriving DecidableEq, Repr

structure UnpairedSide where
  row : Nat
  reason : Unpaired
  deriving DecidableEq, Repr

structure Mirroring where
  pairs : List Mirror
  unpaired : List UnpairedSide
  deriving DecidableEq, Repr

namespace Mirror

/-- The two halves of one movement. Neither names a far side other than the account of the other. -/
def mirrors (outgoing incoming : MirrorSide) : Bool :=
  outgoing.account ≠ incoming.account && outgoing.currency = incoming.currency &&
    outgoing.amountMinor = incoming.amountMinor && 0 < outgoing.amountMinor.raw && outgoing.date = incoming.date &&
      (outgoing.farSide.all fun named => named = incoming.account) &&
        incoming.farSide.all fun named => named = outgoing.account

/-- The departure is the first argument of `mirrors`, whichever side is asked about. -/
def counterparts (sides : List MirrorSide) (side : MirrorSide) : List MirrorSide :=
  sides.filter fun other => other.direction ≠ side.direction &&
    match side.direction with
    | .out => mirrors side other
    | .in => mirrors other side

/-- The accounts a side could be the near half of a movement to or from. -/
def counterpartAccounts (sides : List MirrorSide) (side : MirrorSide) : List AccountId :=
  (((counterparts sides side).map MirrorSide.account).insertionSort (· ≤ ·)).dedup

/-- The arrivals a departure may go with. -/
def candidatesOf (sides : List MirrorSide) (outgoing : MirrorSide) : List MirrorSide :=
  match counterpartAccounts sides outgoing with
  | [account] => sides.filter fun incoming =>
      incoming.direction = .in && incoming.account = account && mirrors outgoing incoming &&
        (counterpartAccounts sides incoming).length = 1
  | _ => []

def candidatePairs (sides : List MirrorSide) : List (MirrorSide × MirrorSide) :=
  (sides.filter fun side => side.direction = .out).flatMap fun outgoing =>
    (candidatesOf sides outgoing).map fun incoming => (outgoing, incoming)

/-- In the order of the rows, each row at most once. -/
def matched (sides : List MirrorSide) : List (MirrorSide × MirrorSide) :=
  Matching.greedy MirrorSide.row MirrorSide.row
    ((candidatePairs sides).insertionSort fun l r => toLex (l.1.row, l.2.row) ≤ toLex (r.1.row, r.2.row))

def evidenceOf (outgoing incoming : MirrorSide) : MirrorEvidence :=
  match outgoing.farSide.isSome, incoming.farSide.isSome with
  | true, true => .bothSidesNamed
  | true, false | false, true => .oneSideNamed
  | false, false => .shapeAlone

/-- The doubt belongs to the pair: a side is ambiguous when a counterpart of it is. -/
def whyUnpaired (sides : List MirrorSide) (side : MirrorSide) : Unpaired :=
  if 1 < (counterpartAccounts sides side).length ||
      (counterparts sides side).any fun other => 1 < (counterpartAccounts sides other).length then .ambiguous
  else .noCounterpart

def mirrored (sides : List MirrorSide) : Mirroring :=
  let taken := matched sides
  { pairs := taken.map fun pair => ⟨pair.1.row, pair.2.row, evidenceOf pair.1 pair.2⟩
    unpaired := ((sides.filter fun side =>
        side.row ∉ taken.map (fun pair => pair.1.row) && side.row ∉ taken.map fun pair => pair.2.row).map fun side =>
      (⟨side.row, whyUnpaired sides side⟩ : UnpairedSide)).insertionSort fun l r => l.row ≤ r.row }

end Mirror
end Iaam
