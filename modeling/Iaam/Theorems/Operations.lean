import Iaam.Ingest.Operation

/-! What `build` makes of the operations of a cash statement whose amount is positive. -/

namespace Iaam
namespace Operation
open Outcome

/-- A positive amount can be negated. -/
theorem exists_negated {a : PostedMinor} (h : 0 < a.raw) : ∃ n, a.checkedNeg = some n ∧ n.raw = -a.raw := by
  have hfits : FitsI64 (-a.raw) := by
    have := a.fits
    unfold FitsI64 at *
    omega
  exact ⟨⟨-a.raw, hfits⟩, PostedMinor.ofInt_eq_some.mpr rfl, rfl⟩

section
variable {transferId : TransferId} {account target : AccountId} {a n : PostedMinor} {currency : CurrencyCode}

theorem positive_of_pos (h : 0 < a.raw) (field : String) : positive a field currency = .ok a := if_pos h

theorem positiveMoney_of_pos (h : 0 < a.raw) (field : String) :
    positiveMoney a field currency = .ok ⟨a, currency⟩ := by
  simp [positiveMoney, positive_of_pos h]

theorem negatedMoney_of_pos (h : 0 < a.raw) (hn : a.checkedNeg = some n) :
    negatedMoney a currency = .ok ⟨n, currency⟩ :=
  bind_ok.mpr ⟨a, positive_of_pos h _, bind_ok.mpr ⟨n, orPanic_ok.mpr hn, rfl⟩⟩

theorem build_deposit (h : 0 < a.raw) : build transferId account (.deposit a currency) =
    .ok (.cashIn ⟨a, currency⟩, [.cash account ⟨a, currency⟩]) :=
  bind_ok.mpr ⟨_, positiveMoney_of_pos h _, rfl⟩

theorem build_refund (h : 0 < a.raw) : build transferId account (.refund a currency) =
    .ok (.refund ⟨a, currency⟩, [.cash account ⟨a, currency⟩]) :=
  bind_ok.mpr ⟨_, positiveMoney_of_pos h _, rfl⟩

theorem build_income {instrument : Option InstrumentId} {kind : Option IncomeKind} (h : 0 < a.raw) :
    build transferId account (.income instrument a currency kind) =
      .ok (.income instrument ⟨a, currency⟩ kind, [.cash account ⟨a, currency⟩]) :=
  bind_ok.mpr ⟨_, positiveMoney_of_pos h _, rfl⟩

theorem build_withdrawal (h : 0 < a.raw) (hn : a.checkedNeg = some n) :
    build transferId account (.withdrawal a currency) =
      .ok (.cashOut ⟨n, currency⟩, [.cash account ⟨n, currency⟩]) :=
  bind_ok.mpr ⟨_, negatedMoney_of_pos h hn, rfl⟩

theorem build_fee {origin : FeeOrigin} (h : 0 < a.raw) (hn : a.checkedNeg = some n) :
    build transferId account (.fee a currency origin) =
      .ok (.fee ⟨n, currency⟩ origin, [.fee account ⟨n, currency⟩]) :=
  bind_ok.mpr ⟨_, negatedMoney_of_pos h hn, rfl⟩

theorem build_transfer (hne : target ≠ account) (h : 0 < a.raw) (hn : a.checkedNeg = some n) :
    build transferId account (.transfer target a currency) =
      .ok (.cashTransfer transferId account target ⟨a, currency⟩,
        [.cash account ⟨n, currency⟩, .cash target ⟨a, currency⟩]) := by
  have hnegate : (⟨a, currency⟩ : Money).checkedNegate = .ok ⟨n, currency⟩ := by simp [Money.checkedNegate, hn]
  simp only [build, if_neg hne]
  refine bind_ok.mpr ⟨_, positiveMoney_of_pos h _, ?_⟩
  rw [hnegate]
  rfl

/-- A movement between own accounts with its direction. -/
theorem build_ownOut (h : 0 < a.raw) (hn : a.checkedNeg = some n) :
    build transferId account (.ownAccountMovement (some .out) a currency) =
      .ok (.ownAccountMovement ⟨n, currency⟩, [.cash account ⟨n, currency⟩]) :=
  bind_ok.mpr ⟨_, positive_of_pos h _, bind_ok.mpr ⟨n, orPanic_ok.mpr hn, rfl⟩⟩

theorem build_ownIn (h : 0 < a.raw) : build transferId account (.ownAccountMovement (some .in) a currency) =
    .ok (.ownAccountMovement ⟨a, currency⟩, [.cash account ⟨a, currency⟩]) :=
  bind_ok.mpr ⟨_, positive_of_pos h _, rfl⟩

theorem build_ownUnresolved (h : 0 < a.raw) : build transferId account (.ownAccountMovement none a currency) =
    .ok (.unresolvedOwnAccountMovement ⟨a, currency⟩, []) :=
  bind_ok.mpr ⟨_, positive_of_pos h _, rfl⟩

theorem positive_ok {field : String} {m : PostedMinor} (h : positive a field currency = .ok m) : m = a ∧ 0 < a.raw := by
  unfold positive at h
  split at h
  · next hpos =>
    cases h
    exact ⟨rfl, hpos⟩
  · cases h

theorem positiveMoney_ok {field : String} {m : Money} (h : positiveMoney a field currency = .ok m) :
    m = ⟨a, currency⟩ ∧ 0 < a.raw := by
  obtain ⟨value, hvalue, hm⟩ := bind_ok.mp h
  obtain ⟨rfl, hpos⟩ := positive_ok hvalue
  cases hm
  exact ⟨rfl, hpos⟩

/-- Nothing but a transfer builds a transfer: from the account of the operation to another one, a positive amount that
    leaves the one and arrives on the other. -/
theorem build_cashTransfer {kind : OperationKind} {id : TransferId} {source : AccountId} {amount : Money} {legs : List Leg}
    (h : build transferId account kind = .ok (.cashTransfer id source target amount, legs)) :
    source = account ∧ target ≠ account ∧ 0 < amount.amount.raw ∧
      ∃ outgoing, outgoing.raw = -amount.amount.raw ∧
        legs = [.cash source ⟨outgoing, amount.currency⟩, .cash target amount] := by
  cases kind with
  | transfer far minor currency =>
    simp only [build] at h
    split at h
    · cases h
    · next hne =>
      obtain ⟨money, hmoney, hrest⟩ := bind_ok.mp h
      obtain ⟨rfl, hpos⟩ := positiveMoney_ok hmoney
      obtain ⟨n, hn, hraw⟩ := exists_negated hpos
      have hnegate : (⟨minor, currency⟩ : Money).checkedNegate = .ok ⟨n, currency⟩ := by simp [Money.checkedNegate, hn]
      rw [hnegate] at hrest
      cases hrest
      exact ⟨rfl, hne, hpos, n, hraw, rfl⟩
  | ownAccountMovement movement minor currency =>
    obtain ⟨magnitude, -, h⟩ := bind_ok.mp h
    rcases movement with _ | (_ | _)
    · cases h
    · cases h
    · obtain ⟨negated, -, h⟩ := bind_ok.mp h
      cases h
  | sell instrument custody quantity gross fee basisFee accrued currency =>
    obtain ⟨⟨terms, settlement⟩, -, hrest⟩ := bind_ok.mp h
    dsimp only at hrest
    split at hrest <;> cases hrest
  | buy instrument custody quantity gross fee basisFee accrued currency =>
    obtain ⟨⟨terms, settlement⟩, -, h⟩ := bind_ok.mp h
    obtain ⟨paid, -, h⟩ := bind_ok.mp h
    cases h
  | openingCash minor currency => cases h
  | valuation instrument price currency quality => cases h
  | deposit | withdrawal | refund | income | fee | tax | statedSecuritiesValue | openingPosition =>
    obtain ⟨money, -, h⟩ := bind_ok.mp h
    cases h

end

end Operation
end Iaam
