import Iaam.Projection.Balances
import Mathlib.Algebra.BigOperators.Group.List.Basic

/-! What an event moves, and what its kind declares.

The legs move money and securities whatever the kind of the event; the kind declares, in its own terms, what
the event is about. -/

namespace Iaam

/-! ### What the legs move -/

/-- The money a leg moves on an account in a currency, in minor units. -/
def Leg.cashOn (leg : Leg) (key : CashKey) : Int :=
  match leg.cashEffect with
  | some money => if leg.account = key.account ∧ money.currency = key.currency then money.amount.raw else 0
  | none => 0

/-- The quantity a leg moves in a position. -/
def Leg.quantityOn (leg : Leg) (key : PositionKey) : ℚ :=
  match leg.quantity, leg.instrument with
  | some quantity, some instrument => if ⟨leg.account, instrument⟩ = key then quantity.val else 0
  | _, _ => 0

namespace Event

def cashEffect (e : Event) (key : CashKey) : Int := (e.legs.map fun leg => leg.cashOn key).sum
def quantityEffect (e : Event) (key : PositionKey) : ℚ := (e.legs.map fun leg => leg.quantityOn key).sum

end Event

/-! ### What the kind declares -/

/-- What a trade is settled for: a purchase costs the gross amount, the interest and the fee, a sale brings
    the gross amount and the interest, less the fee. -/
def settlementMinor (side : TradeSide) (gross : Money) (fee interest : Option Money) : Int :=
  match side with
  | .buy => -(gross.amount.raw + Money.rawOr interest + Money.rawOr fee)
  | .sell => gross.amount.raw + Money.rawOr interest - Money.rawOr fee

/-- A purchase adds the quantity, a sale takes it away. -/
def TradeSide.signed (side : TradeSide) (quantity : ℚ) : ℚ :=
  match side with
  | .buy => quantity
  | .sell => -quantity

/-- An amount on an account in a currency, as it counts for a key. -/
def amountOn (account : AccountId) (currency : CurrencyCode) (minor : Int) (key : CashKey) : Int :=
  if account = key.account ∧ currency = key.currency then minor else 0

/-- A quantity of an instrument on an account, as it counts for a key. -/
def heldOn (account : AccountId) (instrument : InstrumentId) (quantity : ℚ) (key : PositionKey) : ℚ :=
  if (⟨account, instrument⟩ : PositionKey) = key then quantity else 0

namespace Event

/-- The money the kind declares. What names no account is declared on the account of the event. -/
def declaredCash (e : Event) (key : CashKey) : Int :=
  let own := fun m : Money => amountOn e.account m.currency m.amount.raw key
  match e.kind with
  | .cashIn amount | .cashOut amount | .refund amount | .openingCash amount | .ownAccountMovement amount => own amount
  | .income _ gross _ => own gross
  | .fee amount _ | .tax amount _ => own amount
  | .cashTransfer _ source target amount =>
    amountOn source amount.currency (-amount.amount.raw) key + amountOn target amount.currency amount.amount.raw key
  | .trade t =>
    amountOn e.account t.gross.currency (settlementMinor t.side t.gross t.fee t.accruedInterest) key
  | .corporateAction (.partialRedemption t _) | .corporateAction (.redemption t) => own t.compensation
  | .corporateAction (.conversion t) => (t.compensation.map own).getD 0
  | .offerExercise (.settled t) =>
    amountOn e.account t.gross.currency (settlementMinor .sell t.gross t.fee t.accruedInterest) key
  | .offerExercise (.submitted ..) | .offerExercise (.cancelled ..) | .openingPosition .. | .statedSecuritiesValue ..
  | .unresolvedOwnAccountMovement .. | .valuation .. | .controlAssertion .. | .importCoverageGap .. => 0

/-- The quantity the kind declares, on the account of the event. -/
def declaredQuantity (e : Event) (key : PositionKey) : ℚ :=
  match e.kind with
  | .trade t => heldOn e.account t.instrument (t.side.signed t.quantity.val) key
  | .openingPosition instrument quantity _ _ => heldOn e.account instrument quantity.val key
  | .corporateAction (.redemption t) => heldOn e.account t.instrument (-t.quantity.val) key
  | .corporateAction (.conversion t) =>
    heldOn e.account t.predecessor (-t.quantityIn.val) key + heldOn e.account t.successor t.quantityOut.val key
  | .offerExercise (.settled t) => heldOn e.account t.instrument (-t.quantity.val) key
  | .corporateAction (.partialRedemption ..) | .offerExercise (.submitted ..) | .offerExercise (.cancelled ..)
  | .cashIn .. | .cashOut .. | .refund .. | .openingCash .. | .ownAccountMovement .. | .income .. | .fee .. | .tax ..
  | .cashTransfer .. | .statedSecuritiesValue .. | .unresolvedOwnAccountMovement .. | .valuation ..
  | .controlAssertion .. | .importCoverageGap .. => 0

/-- The legs move exactly the money the kind declares. -/
def ExactCash (e : Event) : Prop := ∀ key, e.cashEffect key = e.declaredCash key

/-- The legs move exactly the securities the kind declares. -/
def ExactQuantity (e : Event) : Prop := ∀ key, e.quantityEffect key = e.declaredQuantity key

end Event

/-! ### The movements of a kind -/

/-- A movement of money: the kind of its leg, where it happens, and the amount in minor units. -/
structure Movement where
  kind : LegKind
  key : CashKey
  minor : Int
  deriving DecidableEq, Repr

def Leg.movement (leg : Leg) : Option Movement :=
  leg.cashEffect.map fun money => ⟨leg.kind, ⟨leg.account, money.currency⟩, money.amount.raw⟩

/-- Trades and payments may have their fees and taxes as legs of their own. -/
def EventKind.carriesCharges : EventKind → Bool
  | trade _ | income .. | corporateAction _ | offerExercise _ => true
  | _ => false

namespace Event

def movements (e : Event) : List Movement := e.legs.filterMap Leg.movement

/-- The movements of money that belong to the kind, one for each of its monetary legs. -/
def kindMovements (e : Event) : List Movement :=
  let own := fun kind (m : Money) => [(⟨kind, ⟨e.account, m.currency⟩, m.amount.raw⟩ : Movement)]
  match e.kind with
  | .cashIn amount | .cashOut amount | .refund amount | .openingCash amount | .ownAccountMovement amount =>
    own .cash amount
  | .income _ gross _ => own .cash gross
  | .fee amount _ => own .fee amount
  | .tax amount _ => own .tax amount
  | .cashTransfer _ source target amount =>
    [⟨.cash, ⟨source, amount.currency⟩, -amount.amount.raw⟩, ⟨.cash, ⟨target, amount.currency⟩, amount.amount.raw⟩]
  | .trade t =>
    [⟨.cash, ⟨e.account, t.gross.currency⟩, settlementMinor t.side t.gross t.fee t.accruedInterest⟩]
  | .corporateAction (.partialRedemption t _) | .corporateAction (.redemption t) => own .principal t.compensation
  | .corporateAction (.conversion t) => (t.compensation.map (own .cash)).getD []
  | .offerExercise (.settled t) =>
    [⟨.cash, ⟨e.account, t.gross.currency⟩, settlementMinor .sell t.gross t.fee t.accruedInterest⟩]
  | .offerExercise (.submitted ..) | .offerExercise (.cancelled ..) | .openingPosition .. | .statedSecuritiesValue ..
  | .unresolvedOwnAccountMovement .. | .valuation .. | .controlAssertion .. | .importCoverageGap .. => []

/-- A fee or a tax of a trade or of a payment, as a leg of its own on the account of the event. -/
def Charge (e : Event) (m : Movement) : Prop :=
  (m.kind = .fee ∨ m.kind = .tax) ∧ m.key.account = e.account ∧ e.kind.carriesCharges = true

instance (e : Event) (m : Movement) : Decidable (e.Charge m) := inferInstanceAs (Decidable (_ ∧ _))

/-- The event moves money by exactly the legs of its kind, in whatever order, beside the charges. -/
def CarriesItsLegs (e : Event) : Prop :=
  ∃ charges : List Movement, (∀ m ∈ charges, e.Charge m) ∧ e.movements.Perm (e.kindMovements ++ charges)

end Event

/-! ### The balances add up what the legs move -/

namespace Balances

theorem applyCash_ok {b b' : Balances} {leg : Leg} (h : b.applyCash leg = .ok b') :
    b'.positions = b.positions ∧ ∀ key, (b'.cashAt key).raw = (b.cashAt key).raw + leg.cashOn key := by
  unfold applyCash at h
  unfold Leg.cashOn
  cases hm : leg.cashEffect with
  | none =>
    rw [hm] at h
    cases h
    exact ⟨rfl, fun key => (add_zero _).symm⟩
  | some money =>
    rw [hm] at h
    dsimp only at h
    split at h
    · cases h
    · next sum hsum =>
      cases h
      have hraw := PostedMinor.ofInt_eq_some.mp hsum
      refine ⟨rfl, fun key => ?_⟩
      simp only [cashAt, Tree.get_insert]
      by_cases hk : (⟨leg.account, money.currency⟩ : CashKey) = key
      · subst hk
        simpa [cashAt] using hraw
      · have hne : ¬(leg.account = key.account ∧ money.currency = key.currency) := fun hc =>
          hk (by cases key; simp_all)
        simp [hk, hne]

theorem applyQuantity_ok {event : EventId} {b b' : Balances} {leg : Leg} (h : b.applyQuantity event leg = .ok b') :
    b'.cash = b.cash ∧ ∀ key, (b'.positionAt key).val = (b.positionAt key).val + leg.quantityOn key := by
  unfold applyQuantity at h
  unfold Leg.quantityOn
  cases hq : leg.quantity with
  | none =>
    rw [hq] at h
    cases h
    exact ⟨rfl, fun key => by simp⟩
  | some quantity =>
    rw [hq] at h
    cases hi : leg.instrument with
    | none =>
      rw [hi] at h
      cases h
    | some instrument =>
      rw [hi] at h
      obtain ⟨sum, hsum, h⟩ := Outcome.bind_ok.mp h
      cases h
      have hval : sum.val = (b.positionAt ⟨leg.account, instrument⟩).val + quantity.val :=
        Dec.checkedAdd_ok.mp (Outcome.mapError_ok.mp hsum)
      refine ⟨rfl, fun key => ?_⟩
      simp only [positionAt, Tree.get_insert]
      by_cases hk : (⟨leg.account, instrument⟩ : PositionKey) = key
      · subst hk
        simpa [positionAt] using hval
      · simp [hk]

theorem applyLegs_ok {event : EventId} {legs : List Leg} {b b' : Balances}
    (h : legs.foldlM (applyLeg event) b = .ok b') (cash : CashKey) (position : PositionKey) :
    (b'.cashAt cash).raw = (b.cashAt cash).raw + (legs.map fun leg => leg.cashOn cash).sum ∧
      (b'.positionAt position).val =
        (b.positionAt position).val + (legs.map fun leg => leg.quantityOn position).sum := by
  induction legs generalizing b with
  | nil =>
    cases h
    simp
  | cons leg legs ih =>
    obtain ⟨b₁, hleg, h⟩ := Outcome.bind_ok.mp h
    obtain ⟨b₀, hcash, hquantity⟩ := Outcome.bind_ok.mp hleg
    obtain ⟨hpos, hcash⟩ := applyCash_ok hcash
    obtain ⟨hmoney, hquantity⟩ := applyQuantity_ok hquantity
    have hcash₁ : (b₁.cashAt cash).raw = (b₀.cashAt cash).raw := by simp only [cashAt, hmoney]
    have hpos₁ : b₀.positionAt position = b.positionAt position := by simp only [positionAt, hpos]
    obtain ⟨ihc, ihq⟩ := ih h
    rw [ihc, hcash₁, hcash, ihq, hquantity, hpos₁]
    simp only [List.map_cons, List.sum_cons]
    exact ⟨add_assoc _ _ _, add_assoc _ _ _⟩

/-- Applying an event adds exactly the effects of its legs. -/
theorem apply_ok {b b' : Balances} {e : Event} (h : b.apply e = .ok b') (cash : CashKey) (position : PositionKey) :
    (b'.cashAt cash).raw = (b.cashAt cash).raw + e.cashEffect cash ∧
      (b'.positionAt position).val = (b.positionAt position).val + e.quantityEffect position :=
  applyLegs_ok h cash position

end Balances
end Iaam
