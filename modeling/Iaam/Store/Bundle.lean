import Iaam.Ids
import Iaam.Lib.Outcome

/-! Instruments of an archive (`bundle.rs`, `import_bundle`). An instrument names its parent by a foreign key, so a
parent of the archive must be inserted before its children, in whatever order they stand there. -/

namespace Iaam
namespace Bundle

inductive StoreError where
  | bundleCorrupted (detail : String)
  deriving DecidableEq, Repr

/-- A row of `instruments`, as the archive carries it. -/
structure InstrumentSection where
  id : InstrumentId
  kind : Option String
  symbol : String
  title : String
  denominationCurrency : String
  settlementCurrency : String
  quoteCurrency : String
  lineageParent : Option InstrumentId
  lineageReason : Option String
  deriving DecidableEq, Repr

/-- A pass over the pending instruments: the inserts executed so far, in their order, and what the pass leaves. -/
structure Pass where
  placed : Tree.Set InstrumentId
  inserted : List InstrumentSection
  stillPending : List InstrumentSection
  progressed : Bool

def parentStillPending (instruments : List InstrumentSection) (placed : Tree.Set InstrumentId)
    (instrument : InstrumentSection) : Bool :=
  match instrument.lineageParent with
  | some parent => (instruments.any fun candidate => candidate.id = parent) && !placed.contains parent
  | none => false

/-- One instrument of a pass. The statement of an insert succeeds. -/
def visit (instruments : List InstrumentSection) (p : Pass) (instrument : InstrumentSection) : Pass :=
  if parentStillPending instruments p.placed instrument then
    { p with stillPending := p.stillPending ++ [instrument] }
  else
    { p with
      placed := p.placed.insert instrument.id
      inserted := p.inserted ++ [instrument]
      progressed := true }

def pass (instruments : List InstrumentSection) (placed : Tree.Set InstrumentId) (inserted pending : List InstrumentSection) :
    Pass :=
  pending.foldl (visit instruments) ⟨placed, inserted, [], false⟩

theorem length_visit (instruments : List InstrumentSection) (p : Pass) (instrument : InstrumentSection) :
    (visit instruments p instrument).stillPending.length + (visit instruments p instrument).progressed.toNat ≤
      p.stillPending.length + p.progressed.toNat + 1 := by
  unfold visit
  split
  · change (p.stillPending ++ [instrument]).length + p.progressed.toNat ≤ _
    rw [List.length_append, List.length_singleton]
    omega
  · change p.stillPending.length + 1 ≤ _
    omega

theorem length_visits (instruments pending : List InstrumentSection) (p : Pass) :
    (pending.foldl (visit instruments) p).stillPending.length +
        (pending.foldl (visit instruments) p).progressed.toNat ≤
      p.stillPending.length + p.progressed.toNat + pending.length := by
  induction pending generalizing p with
  | nil => exact le_rfl
  | cons instrument pending ih =>
    have hone := length_visit instruments p instrument
    have hrest := ih (visit instruments p instrument)
    rw [List.foldl_cons, List.length_cons]
    omega

/-- A pass that makes progress leaves fewer instruments pending. -/
theorem length_pass {instruments inserted pending : List InstrumentSection} {placed : Tree.Set InstrumentId}
    (h : (pass instruments placed inserted pending).progressed = true) :
    (pass instruments placed inserted pending).stillPending.length < pending.length := by
  have hle := length_visits instruments pending ⟨placed, inserted, [], false⟩
  change (pass instruments placed inserted pending).stillPending.length +
    (pass instruments placed inserted pending).progressed.toNat ≤ 0 + 0 + pending.length at hle
  rw [h, Bool.toNat_true] at hle
  omega

/-- What an archive whose lineage goes round in circles is refused with. -/
def lineageCycle : StoreError :=
  .bundleCorrupted "instrument lineage_parent forms a cycle within one bundle section"

/-- Passes until nothing is pending, or until one inserts nothing. -/
def place (instruments : List InstrumentSection) (placed : Tree.Set InstrumentId) (inserted pending : List InstrumentSection) :
    Except StoreError (List InstrumentSection) :=
  if pending.isEmpty then .ok inserted
  else if _ : (pass instruments placed inserted pending).progressed = true then
    place instruments (pass instruments placed inserted pending).placed
      (pass instruments placed inserted pending).inserted (pass instruments placed inserted pending).stillPending
  else .error lineageCycle
termination_by pending.length
decreasing_by exact length_pass ‹_›

/-- The inserts of the instruments, in the order in which they are executed. -/
def importInstruments (instruments : List InstrumentSection) : Except StoreError (List InstrumentSection) :=
  place instruments ∅ [] instruments

end Bundle
end Iaam
