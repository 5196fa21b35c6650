import Iaam.Theorems.TransferPairing

/-! The figures of a fold of balances, read off the events: a figure is there when a leg moved it, and it is the
sum of what the legs moved. -/

namespace Iaam

/-- The leg moves cash under the key, be it nothing. -/
def Leg.movesCash (leg : Leg) (key : CashKey) : Bool :=
  leg.cashEffect.any fun money => ⟨leg.account, money.currency⟩ = key

/-- The leg carries a quantity of the position. -/
def Leg.movesPosition (leg : Leg) (key : PositionKey) : Bool :=
  leg.quantity.isSome && leg.instrument.any fun instrument => ⟨leg.account, instrument⟩ = key

def Event.movesCash (e : Event) (key : CashKey) : Bool := e.legs.any fun leg => leg.movesCash key
def Event.movesPosition (e : Event) (key : PositionKey) : Bool := e.legs.any fun leg => leg.movesPosition key

namespace Figures
open Outcome Runs TransferPairing

/-- The quantity a list of events moves in a position. -/
def quantityMoved (events : List Event) (key : PositionKey) : ℚ := (events.map fun e => e.quantityEffect key).sum

/-! ### The keys of a fold -/

theorem applyLeg_keys {event : EventId} {b b' : Balances} {leg : Leg} (h : b.applyLeg event leg = .ok b')
    (cash : CashKey) (position : PositionKey) :
    (cash ∈ b'.cash ↔ cash ∈ b.cash ∨ leg.movesCash cash = true) ∧
      (position ∈ b'.positions ↔ position ∈ b.positions ∨ leg.movesPosition position = true) := by
  obtain ⟨b₁, hcash, hquantity⟩ := bind_ok.mp h
  have hpositions : b₁.positions = b.positions := (Balances.applyCash_ok hcash).1
  have hmoney : b'.cash = b₁.cash := (Balances.applyQuantity_ok hquantity).1
  rw [hmoney, ← hpositions]
  constructor
  · unfold Balances.applyCash at hcash
    unfold Leg.movesCash
    cases hm : leg.cashEffect with
    | none =>
      rw [hm] at hcash
      cases hcash
      simp
    | some money =>
      rw [hm] at hcash
      cases hsum : (b.cashAt ⟨leg.account, money.currency⟩).checkedAdd money.amount with
      | none => simp [hsum] at hcash
      | some sum =>
        simp only [hsum, Except.ok.injEq] at hcash
        subst hcash
        simp [Std.ExtTreeMap.mem_insert, or_comm]
  · unfold Balances.applyQuantity at hquantity
    unfold Leg.movesPosition
    cases hq : leg.quantity with
    | none =>
      rw [hq] at hquantity
      cases hquantity
      simp
    | some quantity =>
      rw [hq] at hquantity
      cases hi : leg.instrument with
      | none =>
        rw [hi] at hquantity
        cases hquantity
      | some instrument =>
        rw [hi] at hquantity
        obtain ⟨sum, -, hquantity⟩ := bind_ok.mp hquantity
        cases hquantity
        simp [Std.ExtTreeMap.mem_insert, or_comm]

theorem apply_keys {b b' : Balances} {e : Event} (h : b.apply e = .ok b') (cash : CashKey) (position : PositionKey) :
    (cash ∈ b'.cash ↔ cash ∈ b.cash ∨ e.movesCash cash = true) ∧
      (position ∈ b'.positions ↔ position ∈ b.positions ∨ e.movesPosition position = true) := by
  have hrun := foldlM_ok.mp h
  have hcash := hrun.marks (P := fun b => cash ∈ b.cash) fun hr => (applyLeg_keys hr cash position).1
  have hposition := hrun.marks (P := fun b => position ∈ b.positions) fun hr => (applyLeg_keys hr cash position).2
  simpa [Event.movesCash, Event.movesPosition] using And.intro hcash hposition

section
variable {events : List Event} {b : Balances}

theorem mem_cash_of_fold (h : events.foldlM Balances.apply .empty = .ok b) (key : CashKey) :
    key ∈ b.cash ↔ events.any (·.movesCash key) = true := by
  have hmarks := (foldlM_ok.mp h).marks (P := fun b => key ∈ b.cash) fun hr =>
    (apply_keys hr key ⟨key.account, ⟨0⟩⟩).1
  simpa [Balances.empty] using hmarks

theorem mem_positions_of_fold (h : events.foldlM Balances.apply .empty = .ok b) (key : PositionKey) :
    key ∈ b.positions ↔ events.any (·.movesPosition key) = true := by
  have hmarks := (foldlM_ok.mp h).marks (P := fun b => key ∈ b.positions) fun hr =>
    (apply_keys hr ⟨key.account, .rub⟩ key).2
  simpa [Balances.empty] using hmarks

theorem positionAt_of_fold (h : events.foldlM Balances.apply .empty = .ok b) (key : PositionKey) :
    (b.positionAt key).val = quantityMoved events key := by
  have hrun := (foldlM_ok.mp h).adds (fun b => (b.positionAt key).val) (fun e => e.quantityEffect key)
    fun _ hstep => (Balances.apply_ok hstep ⟨key.account, .rub⟩ key).2
  have hempty : (Balances.empty.positionAt key).val = 0 := by simp [Balances.empty, Balances.positionAt]
  rw [hrun, hempty, zero_add]
  rfl

/-- The cash figure of a fold. -/
theorem cash_of_fold (h : events.foldlM Balances.apply .empty = .ok b) (key : CashKey) :
    b.cash[key]?.map PostedMinor.raw = if events.any (·.movesCash key) then some (cashMoved events key) else none := by
  rw [Tree.map_get _ .zero, ← cashAt_of_fold h]
  simp only [mem_cash_of_fold h]
  rfl

/-- The position figure of a fold. -/
theorem position_of_fold (h : events.foldlM Balances.apply .empty = .ok b) (key : PositionKey) :
    b.positions[key]?.map Dec.val =
      if events.any (·.movesPosition key) then some (quantityMoved events key) else none := by
  rw [Tree.map_get _ .zero, ← positionAt_of_fold h]
  simp only [mem_positions_of_fold h]
  rfl

end
end Figures
end Iaam
