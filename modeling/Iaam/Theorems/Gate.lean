import Iaam.Event.Declared
import Iaam.Theorems.LegMatching

/-! What the structural gate lets through. An accepted event moves what its kind declares, and besides that
what the arm of its kind does not examine: the money of leg kinds the arm does not count, the quantities on
legs that are not its security legs, and the way from the account of the event to the account of a single
money leg. -/

namespace Iaam
namespace Gate
open Outcome

/-! ### What the arms examine -/

/-- The leg kinds whose money the arm of the kind accounts for. -/
def countsMoney : EventKind → LegKind → Bool
  | .cashIn .., k | .cashOut .., k | .refund .., k | .openingCash .., k | .income .., k | .ownAccountMovement .., k
  | .cashTransfer .., k | .trade .., k | .openingPosition .., k => k = .cash
  | .fee .., k => k = .fee
  | .tax .., k => k = .tax
  | _, _ => true

/-- The leg kinds whose quantity the arm accounts for. -/
def countsQuantity : EventKind → LegKind → Bool
  | .trade .., k | .openingPosition .., k | .corporateAction .., k | .offerExercise .., k => k = .securityQuantity
  | _, _ => false

/-- The arm checks which account the money is on. -/
def placesMoney : EventKind → Bool
  | .cashIn .. | .cashOut .. | .refund .. | .openingCash .. | .income .. | .fee .. | .tax .. => false
  | _ => true

/-- A leg as the arm takes it: on the account of the event, when it does not look at the account. -/
def placed (e : Event) (leg : Leg) : Leg := if placesMoney e.kind then leg else { leg with account := e.account }

/-- The money of the legs that the arm does not account for. -/
def unexaminedCash (e : Event) (key : CashKey) : Int :=
  (e.legs.map fun leg => leg.cashOn key - if countsMoney e.kind leg.kind then (placed e leg).cashOn key else 0).sum

/-- The quantity of the legs that the arm does not account for. -/
def unexaminedQuantity (e : Event) (key : PositionKey) : ℚ :=
  ((e.legs.filter fun leg => !countsQuantity e.kind leg.kind).map fun leg => leg.quantityOn key).sum

/-- The money of the legs that the arm accounts for, as it takes them. -/
def examinedCash (e : Event) (key : CashKey) : Int :=
  ((e.legs.filter fun leg => countsMoney e.kind leg.kind).map fun leg => (placed e leg).cashOn key).sum

def examinedQuantity (e : Event) (key : PositionKey) : ℚ :=
  ((e.legs.filter fun leg => countsQuantity e.kind leg.kind).map fun leg => leg.quantityOn key).sum

theorem cashEffect_eq (e : Event) (key : CashKey) : e.cashEffect key = examinedCash e key + unexaminedCash e key := by
  unfold Event.cashEffect examinedCash unexaminedCash
  induction e.legs with
  | nil => rfl
  | cons leg legs ih =>
    rw [List.filter_cons]
    cases hc : countsMoney e.kind leg.kind <;> simp [hc, ih] <;> ring

theorem quantityEffect_eq (e : Event) (key : PositionKey) :
    e.quantityEffect key = examinedQuantity e key + unexaminedQuantity e key := by
  unfold Event.quantityEffect examinedQuantity unexaminedQuantity
  induction e.legs with
  | nil => simp
  | cons leg legs ih =>
    rw [List.filter_cons, List.filter_cons]
    cases hc : countsQuantity e.kind leg.kind <;> simp [ih] <;> ring

/-! ### Legs by kind -/

theorem cashOn_of_money {leg : Leg} {account : AccountId} {money : Money} (hk : leg.kind ≠ .securityQuantity)
    (ha : leg.account = account) (hm : leg.money = some money) (key : CashKey) :
    leg.cashOn key = amountOn account money.currency money.amount.raw key := by
  unfold Leg.cashOn Leg.cashEffect amountOn
  cases h : leg.kind <;> simp_all

theorem cashOn_security {leg : Leg} (hk : leg.kind = .securityQuantity) (key : CashKey) : leg.cashOn key = 0 := by
  unfold Leg.cashOn Leg.cashEffect
  rw [hk]

theorem quantityOn_of_held {leg : Leg} {account : AccountId} {instrument : InstrumentId} {quantity : Quantity}
    (ha : leg.account = account) (hi : leg.instrument = some instrument) (hq : leg.quantity = some quantity)
    (key : PositionKey) : leg.quantityOn key = heldOn account instrument quantity.val key := by
  unfold Leg.quantityOn heldOn
  rw [hq, hi, ha]

theorem mem_legsOfKind {e : Event} {kind : LegKind} {leg : Leg} {legs : List Leg}
    (h : e.legsOfKind kind = legs) (hleg : leg ∈ legs) : leg.kind = kind := by
  rw [← h] at hleg
  simpa using (List.mem_filter.mp hleg).2

/-! ### Checks -/

theorem requireEqual_ok {name : String} {leg declared : Money} (h : requireEqual name leg declared = .ok ()) :
    leg = declared := by
  unfold requireEqual at h
  split_ifs at h with hc hr
  exact Money.ext_raw (not_not.mp hr) (not_not.mp hc)

theorem legMoney_ok {name : String} {leg : Leg} {money : Money} (h : legMoney name leg = .ok money) :
    leg.money = some money := by
  unfold legMoney at h
  cases hm : leg.money <;> rw [hm] at h <;> cases h
  rfl

theorem singleLeg_ok {name expected : String} {legs : List Leg} {leg : Leg}
    (h : singleLeg name legs expected = .ok leg) : legs = [leg] := by
  unfold singleLeg at h
  split at h <;> cases h
  rfl

theorem singleLegMoney_ok {name expected : String} {legs : List Leg} {money : Money}
    (h : singleLegMoney name legs expected = .ok money) : ∃ leg, legs = [leg] ∧ leg.money = some money := by
  obtain ⟨leg, hleg, h⟩ := bind_ok.mp h
  exact ⟨leg, singleLeg_ok hleg, legMoney_ok h⟩

theorem expectSingleCash_ok {e : Event} {name : String} {declared : Money} {sign : Sign}
    (h : e.expectSingleCash name declared sign = .ok ()) :
    ∃ leg, e.cashLegs = [leg] ∧ leg.money = some declared := by
  obtain ⟨money, hmoney, h⟩ := bind_ok.mp h
  obtain ⟨leg, hlegs, hleg⟩ := singleLegMoney_ok hmoney
  dsimp only at h
  split_ifs at h
  exact ⟨leg, hlegs, requireEqual_ok h ▸ hleg⟩

/-- The declared amount has the sign that is asked for. -/
theorem expectSingleCash_sign {e : Event} {name : String} {declared : Money} {sign : Sign}
    (h : e.expectSingleCash name declared sign = .ok ()) :
    (sign = .positive → 0 < declared.amount.raw) ∧ (sign = .negative → declared.amount.raw < 0) := by
  obtain ⟨money, -, h⟩ := bind_ok.mp h
  dsimp only at h
  split_ifs at h with hsign
  have heq := requireEqual_ok h
  subst heq
  constructor
  · rintro rfl
    simpa using hsign
  · rintro rfl
    simpa using hsign

theorem expectSingleCharge_ok {e : Event} {kind : LegKind} {expected name : String} {declared : Money}
    (h : e.expectSingleCharge kind expected name declared = .ok ()) :
    ∃ leg, e.legsOfKind kind = [leg] ∧ leg.money = some declared := by
  obtain ⟨money, hmoney, h⟩ := bind_ok.mp h
  obtain ⟨leg, hlegs, hleg⟩ := singleLegMoney_ok hmoney
  split at h
  · cases h
  · exact ⟨leg, hlegs, requireEqual_ok h ▸ hleg⟩

/-- A charge is negative. -/
theorem expectSingleCharge_sign {e : Event} {kind : LegKind} {expected name : String} {declared : Money}
    (h : e.expectSingleCharge kind expected name declared = .ok ()) : declared.amount.raw < 0 := by
  obtain ⟨money, -, h⟩ := bind_ok.mp h
  split_ifs at h with hsign
  rw [← requireEqual_ok h]
  exact not_le.mp hsign

theorem requireOwnAccount_ok {leg event : AccountId} (h : requireOwnAccount leg event = .ok ()) : leg = event := by
  unfold requireOwnAccount at h
  split_ifs at h with hc
  exact hc

theorem requireSameInstrument_ok {name : String} {leg : Option InstrumentId} {declared : InstrumentId}
    (h : requireSameInstrument name leg declared = .ok ()) : leg = some declared := by
  unfold requireSameInstrument at h
  split_ifs at h with hc
  exact hc

theorem requireSameQuantity_ok {name : String} {leg : Option Quantity} {declared : Quantity}
    (h : requireSameQuantity name leg declared = .ok ()) : leg = some declared := by
  unfold requireSameQuantity at h
  split_ifs at h with hc
  exact hc

theorem requireNoLegs_ok {name : String} {legs : List Leg} (h : requireNoLegs name legs = .ok ()) : legs = [] := by
  unfold requireNoLegs at h
  split_ifs at h with hc
  exact List.isEmpty_iff.mp hc

theorem tradeSettlement_ok {side : TradeSide} {gross settlement : Money} {fee interest : Option Money}
    (h : tradeSettlement side gross fee interest = .ok settlement) :
    settlement.currency = gross.currency ∧ settlement.amount.raw = settlementMinor side gross fee interest := by
  obtain ⟨m, hm, h⟩ := bind_ok.mp h
  obtain ⟨hraw, hcur⟩ := Money.withOptional_tryAdd hm
  unfold settlementMinor
  cases side with
  | buy =>
    obtain ⟨n, hn, h⟩ := bind_ok.mp h
    obtain ⟨hraw', hcur'⟩ := Money.withOptional_tryAdd hn
    obtain ⟨hneg, hcur''⟩ := Money.checkedNegate_ok.mp h
    exact ⟨hcur''.trans (hcur'.trans hcur), by rw [hneg, hraw', hraw]⟩
  | sell =>
    obtain ⟨hraw', hcur'⟩ := Money.withOptional_trySub h
    exact ⟨hcur'.trans hcur, by rw [hraw', hraw]⟩

/-! ### The arms -/

/-- The arm accounts for exactly what the kind declares. -/
def Examines (e : Event) : Prop :=
  (∀ key, examinedCash e key = e.declaredCash key) ∧ ∀ key, examinedQuantity e key = e.declaredQuantity key

theorem examinedCash_single {e : Event} {kind : LegKind} {leg : Leg} {money : Money}
    (hcounts : ∀ k, countsMoney e.kind k = decide (k = kind)) (hkind : kind ≠ .securityQuantity)
    (hplace : placesMoney e.kind = true → leg.account = e.account) (hlegs : e.legsOfKind kind = [leg])
    (hmoney : leg.money = some money) (key : CashKey) :
    examinedCash e key = amountOn e.account money.currency money.amount.raw key := by
  have hfilter : (e.legs.filter fun leg => countsMoney e.kind leg.kind) = [leg] := by
    simp only [hcounts]
    exact hlegs
  have hk : leg.kind = kind := mem_legsOfKind hlegs List.mem_cons_self
  unfold examinedCash
  rw [hfilter, List.map_singleton, List.sum_singleton]
  unfold placed
  split
  · next hp => exact cashOn_of_money (hk ▸ hkind) (hplace hp) hmoney key
  · have hplaced : ({ leg with account := e.account } : Leg).kind ≠ .securityQuantity := hk ▸ hkind
    exact cashOn_of_money hplaced rfl hmoney key

theorem examinedQuantity_single {e : Event} {leg : Leg} {instrument : InstrumentId} {quantity : Quantity}
    (hcounts : ∀ k, countsQuantity e.kind k = decide (k = .securityQuantity)) (hlegs : e.securityLegs = [leg])
    (ha : leg.account = e.account) (hi : leg.instrument = some instrument) (hq : leg.quantity = some quantity)
    (key : PositionKey) : examinedQuantity e key = heldOn e.account instrument quantity.val key := by
  have hfilter : (e.legs.filter fun leg => countsQuantity e.kind leg.kind) = [leg] := by
    simp only [hcounts]
    exact hlegs
  unfold examinedQuantity
  rw [hfilter, List.map_singleton, List.sum_singleton, quantityOn_of_held ha hi hq]

theorem examinedQuantity_none {e : Event} (hcounts : ∀ k, countsQuantity e.kind k = false) (key : PositionKey) :
    examinedQuantity e key = 0 := by
  simp [examinedQuantity, hcounts]

/-- An arm that asks for no legs at all. -/
theorem examined_no_legs {e : Event} (h : e.legs = []) :
    (∀ key, examinedCash e key = 0) ∧ ∀ key, examinedQuantity e key = 0 := by
  simp [examinedCash, examinedQuantity, h]

theorem examines_ownAccountMovement {e : Event} {name : String} {amount : Money}
    (hk : e.kind = .ownAccountMovement amount) (h : e.validateOwnAccountMovement name amount = .ok ()) : Examines e := by
  unfold Event.validateOwnAccountMovement at h
  split at h
  · cases h
  · obtain ⟨hcash, h⟩ := seq_ok.mp h
    obtain ⟨leg, hlegs, hmoney⟩ := expectSingleCash_ok hcash
    rw [hlegs] at h
    have hown : leg.account = e.account := by
      simp only [List.head?_cons] at h
      split_ifs at h with hne
      exact not_not.mp hne
    refine ⟨fun key => ?_, fun key => ?_⟩
    · rw [examinedCash_single (fun k => by rw [hk]; rfl) (by decide) (fun _ => hown) hlegs hmoney]
      simp only [Event.declaredCash, hk]
    · rw [examinedQuantity_none (fun k => by rw [hk]; rfl)]
      simp only [Event.declaredQuantity, hk]

theorem find_two {source target : AccountId} {legs : List Leg} {out inn : Leg} (hne : source ≠ target)
    (hlen : legs.length = 2) (hout : (legs.find? fun leg => leg.account = source) = some out)
    (hinn : (legs.find? fun leg => leg.account = target) = some inn) :
    out.account = source ∧ inn.account = target ∧ (legs = [out, inn] ∨ legs = [inn, out]) := by
  have ho : out.account = source := by simpa using List.find?_some hout
  have hi : inn.account = target := by simpa using List.find?_some hinn
  have hdiff : out ≠ inn := fun h => hne (by rw [← ho, ← hi, h])
  have hmo := List.mem_of_find?_eq_some hout
  have hmi := List.mem_of_find?_eq_some hinn
  refine ⟨ho, hi, ?_⟩
  obtain ⟨a, b, hab⟩ := List.length_eq_two.mp hlen
  rw [hab] at hmo hmi ⊢
  simp only [List.mem_cons, List.not_mem_nil, or_false] at hmo hmi
  rcases hmo with hoa | hob <;> rcases hmi with hia | hib
  · exact absurd (hoa.trans hia.symm) hdiff
  · exact Or.inl (by rw [hoa, hib])
  · exact Or.inr (by rw [hob, hia])
  · exact absurd (hob.trans hib.symm) hdiff

theorem validateOwnAccountMovement_ne {e : Event} {name : String} {declared : Money}
    (h : e.validateOwnAccountMovement name declared = .ok ()) : declared.amount.raw ≠ 0 := by
  unfold Event.validateOwnAccountMovement at h
  split_ifs at h with hzero
  exact hzero

/-- A transfer is recorded on one of the two accounts. -/
theorem validateTransfer_account {e : Event} {name : String} {source target : AccountId} {amount : Money}
    (h : e.validateTransfer name source target amount = .ok ()) : e.account = source ∨ e.account = target := by
  unfold Event.validateTransfer at h
  split at h
  · cases h
  · split at h
    · cases h
    · next hother =>
      by_contra hneither
      exact hother (not_or.mp hneither)

/-- An accepted transfer has two monetary legs: the amount leaves the source and arrives at the target. -/
theorem validateTransfer_ok {e : Event} {name : String} {source target : AccountId} {amount : Money}
    (h : e.validateTransfer name source target amount = .ok ()) :
    source ≠ target ∧ 0 < amount.amount.raw ∧ ∃ out inn outMoney,
      out.account = source ∧ inn.account = target ∧ out.money = some outMoney ∧ inn.money = some amount ∧
        outMoney.currency = amount.currency ∧ outMoney.amount.raw = -amount.amount.raw ∧
          (e.cashLegs = [out, inn] ∨ e.cashLegs = [inn, out]) := by
  unfold Event.validateTransfer at h
  by_cases hself : source = target
  · rw [if_pos hself] at h
    cases h
  rw [if_neg hself] at h
  split at h
  · cases h
  split at h
  · cases h
  next hlen =>
  have hlen := not_not.mp hlen
  split at h
  · cases h
  · cases h
  · next out inn hout hinn =>
    obtain ⟨outMoney, hom, h⟩ := bind_ok.mp h
    obtain ⟨inMoney, him, h⟩ := bind_ok.mp h
    split_ifs at h with hcur hneg hpos
    obtain ⟨-, h⟩ := seq_ok.mp h
    obtain ⟨residual, hres, h⟩ := bind_ok.mp h
    split_ifs at h with hzero
    have hdeclared : inMoney = amount := requireEqual_ok h
    have hres := (Money.tryAdd_ok.mp (mapError_ok.mp hres)).2.1
    have hraw : outMoney.amount.raw = -inMoney.amount.raw := by
      have := Money.isZero_iff.mp hzero
      omega
    obtain ⟨hoa, hia, hlegs⟩ := find_two hself hlen hout hinn
    subst hdeclared
    exact ⟨hself, by omega, out, inn, outMoney, hoa, hia, legMoney_ok hom, legMoney_ok him, not_not.mp hcur, hraw, hlegs⟩

theorem examines_transfer {e : Event} {name : String} {id : TransferId} {source target : AccountId} {amount : Money}
    (hk : e.kind = .cashTransfer id source target amount)
    (h : e.validateTransfer name source target amount = .ok ()) : Examines e := by
  obtain ⟨-, -, out, inn, outMoney, hoa, hia, hom, him, hcur, hraw, hlegs⟩ := validateTransfer_ok h
  have hcash {leg : Leg} (hleg : leg = out ∨ leg = inn) : leg.kind ≠ .securityQuantity := by
    have hmem : leg ∈ e.cashLegs := by rcases hlegs with hl | hl <;> rw [hl] <;> simp [hleg.symm, hleg]
    rw [mem_legsOfKind rfl hmem]
    decide
  have hfilter : (e.legs.filter fun leg => countsMoney e.kind leg.kind) = e.cashLegs := by
    rw [hk]
    rfl
  refine ⟨fun key => ?_, fun key => ?_⟩
  · have hsum : examinedCash e key = out.cashOn key + inn.cashOn key := by
      unfold examinedCash placed
      rw [hfilter, hk]
      rcases hlegs with hl | hl <;> rw [hl] <;> simp [placesMoney, add_comm]
    rw [hsum, cashOn_of_money (hcash (Or.inl rfl)) hoa hom, cashOn_of_money (hcash (Or.inr rfl)) hia him]
    simp only [Event.declaredCash, hk]
    rw [hraw, hcur]
  · rw [examinedQuantity_none (fun k => by rw [hk]; rfl)]
    simp only [Event.declaredQuantity, hk]

theorem tradeQuantity_ok {side : TradeSide} {quantity q : Quantity} (h : tradeQuantity side quantity = .ok q) :
    q.val = side.signed quantity.val := by
  cases side with
  | buy =>
    cases h
    rfl
  | sell => exact Dec.checkedNeg_ok.mp h

theorem examines_trade {e : Event} {name : String} {terms : Trade} (hk : e.kind = .trade terms)
    (h : e.validateTrade name terms = .ok ()) : Examines e := by
  obtain ⟨-, h⟩ := seq_ok.mp h
  obtain ⟨-, h⟩ := seq_ok.mp h
  obtain ⟨-, h⟩ := seq_ok.mp h
  obtain ⟨-, h⟩ := seq_ok.mp h
  obtain ⟨-, h⟩ := seq_ok.mp h
  obtain ⟨cash, hcash, h⟩ := bind_ok.mp h
  obtain ⟨money, hmoney, h⟩ := bind_ok.mp h
  obtain ⟨hown, h⟩ := seq_ok.mp h
  obtain ⟨settlement, hsettle, h⟩ := bind_ok.mp h
  obtain ⟨hequal, h⟩ := seq_ok.mp h
  obtain ⟨leg, hleg, h⟩ := bind_ok.mp h
  obtain ⟨hlegOwn, h⟩ := seq_ok.mp h
  obtain ⟨hinstrument, h⟩ := seq_ok.mp h
  obtain ⟨quantity, hquantity, h⟩ := bind_ok.mp h
  obtain ⟨hcur, hraw⟩ := tradeSettlement_ok (mapError_ok.mp hsettle)
  have hpaid : cash.money = some settlement := requireEqual_ok hequal ▸ legMoney_ok hmoney
  refine ⟨fun key => ?_, fun key => ?_⟩
  · rw [examinedCash_single (fun k => by rw [hk]; rfl) (by decide) (fun _ => requireOwnAccount_ok hown)
      (singleLeg_ok hcash) hpaid]
    simp only [Event.declaredCash, hk, hcur, hraw]
  · rw [examinedQuantity_single (fun k => by rw [hk]; rfl) (singleLeg_ok hleg) (requireOwnAccount_ok hlegOwn)
      (requireSameInstrument_ok hinstrument) (requireSameQuantity_ok h)]
    simp only [Event.declaredQuantity, hk, tradeQuantity_ok (mapError_ok.mp hquantity)]

theorem examines_openingPosition {e : Event} {name : String} {instrument : InstrumentId} {quantity : Quantity}
    {basis : Option Money} {assertions : OpeningAssertions}
    (hk : e.kind = .openingPosition instrument quantity basis assertions)
    (h : e.validateOpeningPosition name instrument quantity = .ok ()) : Examines e := by
  obtain ⟨-, h⟩ := seq_ok.mp h
  split_ifs at h with hcash
  have hcash : e.cashLegs = [] := by simpa using hcash
  obtain ⟨leg, hleg, h⟩ := bind_ok.mp h
  obtain ⟨hown, h⟩ := seq_ok.mp h
  obtain ⟨hinstrument, h⟩ := seq_ok.mp h
  refine ⟨fun key => ?_, fun key => ?_⟩
  · have hfilter : (e.legs.filter fun leg => countsMoney e.kind leg.kind) = [] := by
      rw [hk]
      exact hcash
    simp only [examinedCash, hfilter, List.map_nil, List.sum_nil, Event.declaredCash]
    rw [hk]
  · rw [examinedQuantity_single (fun k => by rw [hk]; rfl) (singleLeg_ok hleg) (requireOwnAccount_ok hown)
      (requireSameInstrument_ok hinstrument) (requireSameQuantity_ok h)]
    simp only [Event.declaredQuantity, hk]

/-! ### The arms that match every leg -/

/-- What a leg counts for in an arm that accounts for all money and for the quantity of security legs. -/
def examinedHeld (leg : Leg) (key : PositionKey) : ℚ :=
  if leg.kind = .securityQuantity then leg.quantityOn key else 0

theorem counted_principal {leg : Leg} {account : AccountId} {instrument : InstrumentId} {money : Money}
    (h : legMatches leg (principalLeg account instrument money) = true) (cash : CashKey) (position : PositionKey) :
    leg.cashOn cash = amountOn account money.currency money.amount.raw cash ∧ examinedHeld leg position = 0 := by
  obtain ⟨hk, ha, hm⟩ := LegMatching.matches_principalLeg h
  exact ⟨cashOn_of_money (by rw [hk]; decide) ha hm cash, if_neg (by rw [hk]; decide)⟩

theorem counted_cash {leg : Leg} {account : AccountId} {money : Money}
    (h : legMatches leg (cashLeg account money) = true) (cash : CashKey) (position : PositionKey) :
    leg.cashOn cash = amountOn account money.currency money.amount.raw cash ∧ examinedHeld leg position = 0 := by
  obtain ⟨hk, ha, hm⟩ := LegMatching.matches_cashLeg h
  exact ⟨cashOn_of_money (by rw [hk]; decide) ha hm cash, if_neg (by rw [hk]; decide)⟩

theorem counted_security {leg : Leg} {account : AccountId} {custody : CustodyId} {instrument : InstrumentId}
    {quantity : Quantity} (h : legMatches leg (securityLeg account custody instrument quantity) = true)
    (cash : CashKey) (position : PositionKey) :
    leg.cashOn cash = 0 ∧ examinedHeld leg position = heldOn account instrument quantity.val position := by
  obtain ⟨hk, ha, hi, hq⟩ := LegMatching.matches_securityLeg h
  exact ⟨cashOn_security hk cash, (if_pos hk).trans (quantityOn_of_held ha hi hq position)⟩

theorem examined_of_matched {e : Event} {legs : List Leg} (hcounts : ∀ k, countsMoney e.kind k = true)
    (hquantities : ∀ k, countsQuantity e.kind k = decide (k = .securityQuantity))
    (hplaces : placesMoney e.kind = true) (hperm : legs.Perm e.legs) (cash : CashKey) (position : PositionKey) :
    examinedCash e cash = (legs.map fun leg => leg.cashOn cash).sum ∧
      examinedQuantity e position = (legs.map fun leg => examinedHeld leg position).sum := by
  rw [(hperm.map _).sum_eq, (hperm.map _).sum_eq]
  unfold examinedCash examinedQuantity placed examinedHeld
  simp only [hcounts, hplaces, hquantities, List.filter_true, if_true, true_and]
  induction e.legs with
  | nil => rfl
  | cons leg legs ih =>
    rw [List.filter_cons]
    by_cases hk : leg.kind = .securityQuantity <;> simp [hk, ih]

theorem examines_corporateAction {e : Event} {name : String} {action : CorporateAction}
    (hk : e.kind = .corporateAction action) (h : e.validateCorporateAction name action = .ok ()) : Examines e := by
  have hmatched {legs : List Leg} (hperm : legs.Perm e.legs) := fun cash position =>
    examined_of_matched (fun k => by rw [hk]; rfl) (fun k => by rw [hk]; rfl) (by rw [hk]; rfl) hperm cash position
  cases action with
  | partialRedemption terms allocation =>
    obtain ⟨-, h⟩ := seq_ok.mp h
    obtain ⟨-, h⟩ := seq_ok.mp h
    obtain ⟨-, h⟩ := seq_ok.mp h
    obtain ⟨legs, hperm, hlegs⟩ := LegMatching.legs_of_expectLegs h
    obtain _ | ⟨hp, _ | _⟩ := hlegs
    refine ⟨fun key => ?_, fun key => ?_⟩
    · rw [(hmatched hperm key ⟨e.account, terms.instrument⟩).1]
      simp [(counted_principal hp key ⟨e.account, terms.instrument⟩).1, Event.declaredCash, hk]
    · rw [(hmatched hperm ⟨e.account, terms.compensation.currency⟩ key).2]
      simp [(counted_principal hp ⟨e.account, terms.compensation.currency⟩ key).2, Event.declaredQuantity, hk]
  | redemption terms =>
    obtain ⟨-, h⟩ := seq_ok.mp h
    obtain ⟨-, h⟩ := seq_ok.mp h
    obtain ⟨negated, hneg, h⟩ := bind_ok.mp h
    have hneg := Dec.checkedNeg_ok.mp (mapError_ok.mp hneg)
    obtain ⟨legs, hperm, hlegs⟩ := LegMatching.legs_of_expectLegs h
    obtain _ | ⟨hp, _ | ⟨hs, _ | _⟩⟩ := hlegs
    refine ⟨fun key => ?_, fun key => ?_⟩
    · rw [(hmatched hperm key ⟨e.account, terms.instrument⟩).1]
      simp [(counted_principal hp key ⟨e.account, terms.instrument⟩).1,
        (counted_security hs key ⟨e.account, terms.instrument⟩).1, Event.declaredCash, hk]
    · rw [(hmatched hperm ⟨e.account, terms.compensation.currency⟩ key).2]
      simp [(counted_principal hp ⟨e.account, terms.compensation.currency⟩ key).2,
        (counted_security hs ⟨e.account, terms.compensation.currency⟩ key).2, Event.declaredQuantity, hk, hneg]
  | conversion terms =>
    obtain ⟨-, h⟩ := seq_ok.mp h
    obtain ⟨-, h⟩ := seq_ok.mp h
    obtain ⟨-, h⟩ := seq_ok.mp h
    obtain ⟨-, h⟩ := seq_ok.mp h
    obtain ⟨-, h⟩ := seq_ok.mp h
    obtain ⟨negated, hneg, h⟩ := bind_ok.mp h
    have hneg := Dec.checkedNeg_ok.mp (mapError_ok.mp hneg)
    obtain ⟨legs, hperm, hlegs⟩ := LegMatching.legs_of_expectLegs h
    obtain _ | ⟨hs, _ | ⟨ht, hrest⟩⟩ := hlegs
    cases hc : terms.compensation with
    | none =>
      rw [hc] at hrest
      obtain _ | _ := hrest
      refine ⟨fun key => ?_, fun key => ?_⟩
      · rw [(hmatched hperm key ⟨e.account, terms.successor⟩).1]
        simp [(counted_security hs key ⟨e.account, terms.successor⟩).1,
          (counted_security ht key ⟨e.account, terms.successor⟩).1, Event.declaredCash, hk, hc]
      · rw [(hmatched hperm ⟨e.account, .rub⟩ key).2]
        simp [(counted_security hs ⟨e.account, .rub⟩ key).2, (counted_security ht ⟨e.account, .rub⟩ key).2,
          Event.declaredQuantity, hk, hneg]
    | some compensation =>
      rw [hc] at hrest
      obtain _ | ⟨hm, _ | _⟩ := hrest
      refine ⟨fun key => ?_, fun key => ?_⟩
      · rw [(hmatched hperm key ⟨e.account, terms.successor⟩).1]
        simp [(counted_security hs key ⟨e.account, terms.successor⟩).1,
          (counted_security ht key ⟨e.account, terms.successor⟩).1,
          (counted_cash hm key ⟨e.account, terms.successor⟩).1, Event.declaredCash, hk, hc]
      · rw [(hmatched hperm ⟨e.account, .rub⟩ key).2]
        simp [(counted_security hs ⟨e.account, .rub⟩ key).2, (counted_security ht ⟨e.account, .rub⟩ key).2,
          (counted_cash hm ⟨e.account, .rub⟩ key).2, Event.declaredQuantity, hk, hneg]

theorem examines_offerExercise {e : Event} {name : String} {action : OfferExerciseAction}
    (hk : e.kind = .offerExercise action) (h : e.validateOfferExercise name action = .ok ()) : Examines e := by
  have hmatched {legs : List Leg} (hperm : legs.Perm e.legs) := fun cash position =>
    examined_of_matched (fun k => by rw [hk]; rfl) (fun k => by rw [hk]; rfl) (by rw [hk]; rfl) hperm cash position
  obtain ⟨-, h⟩ := seq_ok.mp h
  cases action with
  | submitted =>
    obtain ⟨legs, hperm, hlegs⟩ := LegMatching.legs_of_expectLegs h
    obtain _ | _ := hlegs
    have hnone := examined_no_legs hperm.nil_eq.symm
    exact ⟨fun key => by simp [hnone.1, Event.declaredCash, hk], fun key => by simp [hnone.2, Event.declaredQuantity, hk]⟩
  | cancelled =>
    obtain ⟨legs, hperm, hlegs⟩ := LegMatching.legs_of_expectLegs h
    obtain _ | _ := hlegs
    have hnone := examined_no_legs hperm.nil_eq.symm
    exact ⟨fun key => by simp [hnone.1, Event.declaredCash, hk], fun key => by simp [hnone.2, Event.declaredQuantity, hk]⟩
  | settled terms =>
    obtain ⟨-, h⟩ := seq_ok.mp h
    obtain ⟨settlement, hsettle, h⟩ := bind_ok.mp h
    obtain ⟨negated, hneg, h⟩ := bind_ok.mp h
    have hneg := Dec.checkedNeg_ok.mp (mapError_ok.mp hneg)
    obtain ⟨hcur, hraw⟩ := tradeSettlement_ok (mapError_ok.mp hsettle)
    obtain ⟨legs, hperm, hlegs⟩ := LegMatching.legs_of_expectLegs h
    obtain _ | ⟨hm, _ | ⟨hs, _ | _⟩⟩ := hlegs
    refine ⟨fun key => ?_, fun key => ?_⟩
    · rw [(hmatched hperm key ⟨e.account, terms.instrument⟩).1]
      simp [(counted_cash hm key ⟨e.account, terms.instrument⟩).1,
        (counted_security hs key ⟨e.account, terms.instrument⟩).1, Event.declaredCash, hk, hcur, hraw]
    · rw [(hmatched hperm ⟨e.account, .rub⟩ key).2]
      simp [(counted_cash hm ⟨e.account, .rub⟩ key).2, (counted_security hs ⟨e.account, .rub⟩ key).2,
        Event.declaredQuantity, hk, hneg]

/-! ### The gate -/

/-- An arm that asks for one money leg of a kind and does not look at its account. -/
theorem examines_single {e : Event} {kind : LegKind} {amount : Money}
    (hkind : kind ≠ .securityQuantity) (hcounts : ∀ k, countsMoney e.kind k = decide (k = kind))
    (hplaces : placesMoney e.kind = false) (hquantities : ∀ k, countsQuantity e.kind k = false)
    (hcash : ∀ key, e.declaredCash key = amountOn e.account amount.currency amount.amount.raw key)
    (hquantity : ∀ key, e.declaredQuantity key = 0)
    (h : ∃ leg, e.legsOfKind kind = [leg] ∧ leg.money = some amount) : Examines e := by
  obtain ⟨leg, hlegs, hmoney⟩ := h
  refine ⟨fun key => ?_, fun key => ?_⟩
  · rw [hcash, examinedCash_single hcounts hkind (by rw [hplaces]; exact fun h => (nomatch h)) hlegs hmoney]
  · rw [hquantity, examinedQuantity_none hquantities]

theorem examines_no_legs {e : Event} (hcash : ∀ key, e.declaredCash key = 0)
    (hquantity : ∀ key, e.declaredQuantity key = 0) (h : e.legs = []) : Examines e := by
  obtain ⟨hc, hq⟩ := examined_no_legs h
  exact ⟨fun key => by rw [hc, hcash], fun key => by rw [hq, hquantity]⟩

theorem examines_of_valid {e : Event} (h : e.validateStructure = .ok ()) : Examines e := by
  unfold Event.validateStructure at h
  cases hk : e.kind <;> rw [hk] at h <;> dsimp only at h
  case trade terms => exact examines_trade hk h
  case ownAccountMovement amount => exact examines_ownAccountMovement hk h
  case cashTransfer id source target amount => exact examines_transfer hk h
  case openingPosition instrument quantity basis assertions => exact examines_openingPosition hk h
  case corporateAction action => exact examines_corporateAction hk h
  case offerExercise action => exact examines_offerExercise hk h
  case cashIn | cashOut | refund | openingCash | income =>
    exact examines_single (by decide) (fun k => by rw [hk]; rfl) (by rw [hk]; rfl) (fun k => by rw [hk]; rfl)
      (fun key => by simp only [Event.declaredCash, hk]) (fun key => by simp only [Event.declaredQuantity, hk])
      (expectSingleCash_ok h)
  case fee | tax =>
    exact examines_single (by decide) (fun k => by rw [hk]; rfl) (by rw [hk]; rfl) (fun k => by rw [hk]; rfl)
      (fun key => by simp only [Event.declaredCash, hk]) (fun key => by simp only [Event.declaredQuantity, hk])
      (expectSingleCharge_ok h)
  all_goals
    refine examines_no_legs (fun key => by simp only [Event.declaredCash, hk])
      (fun key => by simp only [Event.declaredQuantity, hk]) ?_
  case unresolvedOwnAccountMovement => exact requireNoLegs_ok (seq_ok.mp h).1
  case statedSecuritiesValue =>
    unfold Event.validateStatedSecuritiesValue at h
    split_ifs at h
    exact requireNoLegs_ok h
  case valuation =>
    unfold Event.validateValuation at h
    split_ifs at h
    exact requireNoLegs_ok h
  case controlAssertion => exact requireNoLegs_ok (seq_ok.mp (seq_ok.mp (seq_ok.mp h).2).2).2
  case importCoverageGap =>
    obtain ⟨-, h⟩ := seq_ok.mp h
    split_ifs at h <;> exact requireNoLegs_ok (seq_ok.mp h).1

/-- The balances add up what the legs move; and for an accepted event that is what the kind declares exactly
    when the part of the legs that the arm of the kind does not examine comes to nothing. -/
theorem exact_iff_unexamined {e : Event} (h : e.validateStructure = .ok ()) :
    (∀ b b' : Balances, b.apply e = .ok b' → ∀ cash position,
      (b'.cashAt cash).raw = (b.cashAt cash).raw + e.cashEffect cash ∧
        (b'.positionAt position).val = (b.positionAt position).val + e.quantityEffect position) ∧
    (e.ExactCash ∧ e.ExactQuantity ↔ (∀ key, unexaminedCash e key = 0) ∧ ∀ key, unexaminedQuantity e key = 0) := by
  obtain ⟨hcash, hquantity⟩ := examines_of_valid h
  refine ⟨fun b b' hb cash position => Balances.apply_ok hb cash position, ?_⟩
  unfold Event.ExactCash Event.ExactQuantity
  simp only [cashEffect_eq, quantityEffect_eq, hcash, hquantity, add_eq_left]

/-- A deposit with the one leg it declares. -/
def plainDeposit : Event :=
  eventWith ⟨1⟩ ⟨1⟩ ⟨0⟩ 0 (.cashIn ⟨.new 500, .rub⟩) [.cash ⟨1⟩ ⟨.new 500, .rub⟩]

theorem plainDeposit_exact : plainDeposit.validateStructure = .ok () ∧ plainDeposit.ExactCash ∧
    plainDeposit.ExactQuantity := by
  have hvalid : plainDeposit.validateStructure = .ok () := by decide
  refine ⟨hvalid, (exact_iff_unexamined hvalid).2.mpr ⟨fun key => ?_, fun key => ?_⟩⟩
  · change ((Leg.cash ⟨1⟩ _).cashOn key - (Leg.cash ⟨1⟩ _).cashOn key) + 0 = 0
    rw [sub_self, add_zero]
  · change (Leg.cash ⟨1⟩ _).quantityOn key + 0 = 0
    rw [add_zero]
    rfl

/-- The same deposit with a fee charged to another account. -/
def depositWithStrayFee : Event :=
  { plainDeposit with
    legs := [.cash ⟨1⟩ ⟨.new 500, .rub⟩, .fee ⟨2⟩ ⟨.new (-300), .rub⟩] }

theorem depositWithStrayFee_accepted : depositWithStrayFee.validateStructure = .ok () ∧
    depositWithStrayFee.cashEffect ⟨⟨2⟩, .rub⟩ = -300 ∧ depositWithStrayFee.declaredCash ⟨⟨2⟩, .rub⟩ = 0 ∧
    ¬depositWithStrayFee.ExactCash := by
  have heffect : depositWithStrayFee.cashEffect ⟨⟨2⟩, .rub⟩ = -300 := by decide
  have hdeclared : depositWithStrayFee.declaredCash ⟨⟨2⟩, .rub⟩ = 0 := by decide
  refine ⟨by decide, heffect, hdeclared, fun h => ?_⟩
  have := h ⟨⟨2⟩, .rub⟩
  rw [heffect, hdeclared] at this
  cases this

end Gate
end Iaam
