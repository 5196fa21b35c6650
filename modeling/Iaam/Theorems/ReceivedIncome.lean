import Iaam.Theorems.AtomicPayment

/-! A payment and the income it leaves in the book.

A coupon or a partial redemption is spread over the quantity without cost and the lots, every share but the last
one rounded. The last recipient takes what the others leave, so what the entry has received grows by the payment. -/

namespace Iaam
namespace ReceivedIncome
open Outcome Disposal InstrumentLots LotSteps Atomicity

/-! ### What an entry has received -/

/-- What the lots have received. -/
def receivedByLots (c : CurrencyCode) (lots : List Lot) : Int := (lots.map fun lot => Money.knownIn c lot.receivedToDate).sum

/-- What the lots, the quantity without cost and the position as a whole have received. -/
def received (c : CurrencyCode) (l : InstrumentLots) : Int :=
  receivedByLots c l.lots + Money.knownIn c l.unpricedIncome + Money.knownIn c l.unallocatedIncome

@[simp] theorem receivedByLots_cons {c : CurrencyCode} (lot : Lot) (lots : List Lot) :
    receivedByLots c (lot :: lots) = Money.knownIn c lot.receivedToDate + receivedByLots c lots := rfl

/-- The entry has the same lots and has received the payment. -/
structure Receives (l l' : InstrumentLots) (payment : Money) : Prop where
  lots : l'.lots.map Lot.id = l.lots.map Lot.id
  income : ∀ c, received c l' = received c l + payment.rawIn c

/-! ### The lots -/

theorem leftOf_ok {amount share amount' : Money} {quantity taken quantity' : Dec}
    (h : leftOf amount quantity share taken = .ok (amount', quantity')) :
    amount.trySub share = .ok amount' ∧ quantity'.val = quantity.val - taken.val := by
  obtain ⟨a, ha, h⟩ := bind_ok.mp h
  obtain ⟨q, hq, h⟩ := bind_ok.mp h
  cases h
  exact ⟨convert_ok.mp ha, Dec.checkedSub_ok.mp (convert_ok.mp hq)⟩

/-- A recipient of the whole quantity leaves nothing of the payment. -/
theorem leftOf_whole {amount share amount' : Money} {quantity taken quantity' : Dec}
    (hshare : splitBasis amount taken quantity = .ok share) (hwhole : taken.val = quantity.val)
    (h : leftOf amount quantity share taken = .ok (amount', quantity')) : amount'.amount.raw = 0 := by
  rw [splitBasis_whole hshare hwhole] at h
  rw [(Money.trySub_ok.mp (leftOf_ok h).1).2.1, sub_self]

theorem allot_ids (amount : Money) (quantity : Dec) (lots : List Lot) :
    (allot amount quantity lots).2.map Lot.id = lots.map Lot.id := by
  induction lots generalizing amount quantity with
  | nil => rfl
  | cons lot lots ih =>
    unfold allot
    dsimp only
    split
    · exact congrArg (lot.id :: ·) (ih amount quantity)
    · split
      · rfl
      · split
        · rfl
        · exact congrArg (lot.id :: ·) (ih _ _)

/-- The lots receive all of an amount that goes to their quantity. -/
theorem allot_received {c : CurrencyCode} {amount : Money} {quantity : Dec} {lots : List Lot}
    (h : (allot amount quantity lots).1 = .ok ()) (hquantity : quantity.val = quantitySum lots)
    (hnone : (∀ lot ∈ lots, lot.quantity.val = 0) → amount.amount.raw = 0) :
    receivedByLots c (allot amount quantity lots).2 = receivedByLots c lots + amount.rawIn c := by
  induction lots generalizing amount quantity with
  | nil =>
    rw [Money.rawIn_of_zero (hnone fun _ hx => (nomatch hx)), add_zero]
    rfl
  | cons lot lots ih =>
    rw [quantitySum_cons] at hquantity
    by_cases hz : lot.quantity.val = 0
    · rw [allot_skip hz] at h ⊢
      have hlots := ih h (by rw [hquantity, hz, zero_add]) fun hall =>
        hnone (List.forall_mem_cons.mpr ⟨hz, hall⟩)
      rw [receivedByLots_cons, receivedByLots_cons, hlots, add_assoc]
    · rcases hcredit : creditOf amount quantity lot with f | ⟨share, sum⟩
      · rw [allot_credit hz hcredit] at h
        cases h
      rcases hleft : leftOf amount quantity share lot.quantity with f | ⟨amount', quantity'⟩
      · rw [allot_left hz hcredit hleft] at h
        cases h
      rw [allot_later hz hcredit hleft] at h ⊢
      obtain ⟨share', hshare, hsum⟩ := bind_ok.mp hcredit
      obtain ⟨sum', hsum, hpair⟩ := bind_ok.mp hsum
      cases hpair
      have hshare := reraise_ok.mp hshare
      obtain ⟨hsub, hquantity'⟩ := leftOf_ok hleft
      -- the last lot that holds something is the whole of what is left
      have hlast : (∀ x ∈ lots, x.quantity.val = 0) → amount'.amount.raw = 0 := fun hall => by
        have hsum : quantitySum lots = 0 := List.sum_eq_zero (List.forall_mem_map.mpr hall)
        rw [hsum, add_zero] at hquantity
        exact leftOf_whole hshare hquantity.symm hleft
      have hlots := ih h (by rw [hquantity', hquantity, add_sub_cancel_left]) hlast
      rw [receivedByLots_cons, receivedByLots_cons, hlots, Money.knownIn_some, rawIn_accumulate (convert_ok.mp hsum),
        Money.rawIn_trySub hsub]
      ring

/-! ### The entry -/

/-- The share of the quantity without cost, and what goes to the lots. -/
theorem receiveUnpriced_ok {amount amount' : Money} {total quantity : Dec} {l m : InstrumentLots}
    (h : receiveUnpriced amount total l = (.ok (amount', quantity), m)) (htotal : total.val = held l)
    (hne : total.val ≠ 0) : m.lots = l.lots ∧ quantity.val = quantitySum l.lots ∧
      ((∀ lot ∈ l.lots, lot.quantity.val = 0) → amount'.amount.raw = 0) ∧
      ∀ c, received c m + amount'.rawIn c = received c l + amount.rawIn c := by
  unfold held at htotal
  by_cases hu : l.unpriced.val = 0
  · rw [receiveUnpriced_zero hu] at h
    cases h
    rw [hu, zero_add] at htotal
    refine ⟨rfl, htotal, fun hall => ?_, fun c => rfl⟩
    have hsum : quantitySum l.lots = 0 := List.sum_eq_zero (List.forall_mem_map.mpr hall)
    exact absurd (htotal.trans hsum) hne
  · rcases @receiveUnpriced_cases l amount total hu with ⟨f, hstop⟩ | ⟨share, sum, hshare, hsum⟩
    · rw [hstop] at h
      cases h
    rw [receiveUnpriced_part hu hshare hsum] at h
    obtain ⟨hleft, rfl⟩ := Prod.mk.inj h
    obtain ⟨hsub, hquantity⟩ := leftOf_ok hleft
    refine ⟨rfl, by rw [hquantity, htotal, add_sub_cancel_left], fun hall => ?_, fun c => ?_⟩
    · have hzero : quantitySum l.lots = 0 := List.sum_eq_zero (List.forall_mem_map.mpr hall)
      rw [hzero, add_zero] at htotal
      exact leftOf_whole hshare htotal.symm hleft
    · unfold received
      rw [Money.knownIn_some, rawIn_accumulate hsum, Money.rawIn_trySub hsub]
      ring

/-- A payment that is allocated is received, whatever the quantities of the lots. -/
theorem addReceived_receives {amount : Money} {l l' : InstrumentLots} (h : addReceived amount l = (.ok (), l')) :
    Receives l l' amount := by
  unfold addReceived at h
  rw [Mut.get_bind] at h
  obtain ⟨total, htotal, h⟩ := Mut.lift_bind_ok.mp h
  have hheld := quantity_ok (convert_ok.mp htotal)
  split at h
  · obtain ⟨sum, hsum, rfl⟩ := addTotal_ok.mp h
    refine ⟨rfl, fun c => ?_⟩
    unfold received
    rw [Money.knownIn_some, rawIn_accumulate hsum, ← add_assoc]
  · next hz =>
    have hne : total.val ≠ 0 := fun h0 => hz (Dec.isZero_iff.mpr h0)
    obtain ⟨⟨amount', quantity⟩, m, hunpriced, h⟩ := Mut.bind_ok.mp h
    obtain ⟨lots, hallot, rfl⟩ := Mut.zoom_ok.mp h
    obtain ⟨hlots, hquantity, hnone, hreceived⟩ := receiveUnpriced_ok hunpriced hheld hne
    rw [hlots] at hallot
    have hids := allot_ids amount' quantity l.lots
    rw [hallot] at hids
    refine ⟨hids, fun c => ?_⟩
    have hincome := allot_received (c := c) (congrArg Prod.fst hallot) hquantity hnone
    rw [hallot] at hincome
    have hm := hreceived c
    unfold received at hm ⊢
    rw [hlots] at hm
    dsimp only at hincome ⊢
    linarith

theorem amortiseLots_received {rule : AmortisationRule} {share : ReturnedShare} {total returned : Money}
    {lots lots' : List Lot} (h : amortiseLots rule share total lots = .ok (lots', returned)) :
    lots'.map Lot.id = lots.map Lot.id ∧ lots'.map Lot.receivedToDate = lots.map Lot.receivedToDate := by
  induction lots generalizing total lots' with
  | nil =>
    cases h
    exact ⟨rfl, rfl⟩
  | cons lot lots ih =>
    obtain ⟨part, -, h⟩ := bind_ok.mp h
    obtain ⟨costBasis, -, h⟩ := bind_ok.mp h
    obtain ⟨total', -, h⟩ := bind_ok.mp h
    obtain ⟨⟨rest, _⟩, hrest, h⟩ := bind_ok.mp h
    cases h
    obtain ⟨hids, hreceived⟩ := ih hrest
    exact ⟨congrArg (lot.id :: ·) hids, congrArg (lot.receivedToDate :: ·) hreceived⟩

/-- The returned cost changes nothing of what the entry has received. -/
theorem returnBasis_received {rule : AmortisationRule} {allocation : BasisAllocation} {currency : CurrencyCode}
    {returned : Money} {l m : InstrumentLots} (h : returnBasis rule allocation currency l = (.ok returned, m)) :
    m.lots.map Lot.id = l.lots.map Lot.id ∧ ∀ c, received c m = received c l := by
  cases allocation with
  | known share evidence =>
    obtain ⟨⟨lots, total⟩, hlots, h⟩ := Mut.lift_bind_ok.mp h
    obtain ⟨rfl, rfl⟩ : returned = total ∧ m = { l with lots } := Mut.pure_ok.mp h
    obtain ⟨hids, hreceived⟩ := amortiseLots_received hlots
    refine ⟨hids, fun c => ?_⟩
    have hsum := congrArg (fun xs => (xs.map (Money.knownIn c)).sum) hreceived
    rw [List.map_map, List.map_map] at hsum
    exact congrArg (· + Money.knownIn c l.unpricedIncome + Money.knownIn c l.unallocatedIncome) hsum
  | unknown why =>
    obtain ⟨-, rfl⟩ : returned = Money.zero currency ∧ m = markBasisGap .amortisationAllocationUnknown l :=
      Mut.pure_ok.mp h
    exact ⟨rfl, fun c => rfl⟩

theorem addReturned_received {returned : Money} {l m : InstrumentLots} (h : addReturned returned l = (.ok (), m)) :
    m.lots = l.lots ∧ ∀ c, received c m = received c l := by
  unfold addReturned at h
  split at h
  · obtain ⟨-, rfl⟩ := Mut.pure_ok.mp h
    exact ⟨rfl, fun c => rfl⟩
  · obtain ⟨sum, -, rfl⟩ := addTotal_ok.mp h
    exact ⟨rfl, fun c => rfl⟩

theorem amortise_receives {rule : AmortisationRule} {allocation : BasisAllocation} {compensation : Money}
    {l l' : InstrumentLots} (h : amortise rule allocation compensation l = (.ok (), l')) :
    Receives l l' compensation := by
  obtain ⟨returned, m₁, hreturned, h⟩ := Mut.bind_ok.mp h
  obtain ⟨m₂, hpaid, h⟩ := Mut.seq_ok.mp h
  obtain ⟨m₃, hreleased, h⟩ := Mut.seq_ok.mp h
  obtain ⟨result, -, h⟩ := Mut.lift_bind_ok.mp h
  obtain ⟨realized, -, rfl⟩ := addRealised_ok h
  obtain ⟨hids, hkept⟩ := returnBasis_received hreturned
  have hpaid := addReceived_receives hpaid
  obtain ⟨hlots, hkept'⟩ := addReturned_received hreleased
  refine ⟨?_, fun c => ?_⟩
  · change m₃.lots.map Lot.id = _
    rw [hlots, hpaid.lots, hids]
  · change received c m₃ = _
    rw [hkept', hpaid.income, hkept]

/-! ### The book -/

/-- The payments that an entry receives: coupons and partial redemptions. -/
def payment (e : Event) : Option (LotKey × Money) :=
  match e.kind with
  | .income (some instrument) gross (some .coupon) => some (⟨e.account, instrument⟩, gross)
  | .corporateAction (.partialRedemption terms _) => some (⟨e.account, terms.instrument⟩, terms.compensation)
  | _ => none

section
variable {rules : RuleRegistry} {b b' : LotBook} {e : Event}

theorem coupon_received {key : LotKey} {amount : Money}
    (h : LotBook.onEntry key (addReceived amount) b = (.ok (), b')) :
    ∃ l', Receives (b.lotsAt key) l' amount ∧ b'.lotsAt = Function.update b.lotsAt key l' := by
  obtain ⟨l', hreceived, rfl⟩ := onEntry_ok.mp h
  exact ⟨l', addReceived_receives hreceived, lotsAt_putLots key l' b⟩

theorem amortisation_received {terms : PrincipalReturn} {allocation : BasisAllocation}
    (h : LotBook.applyAmortisation e terms allocation rules b = (.ok (), b')) :
    ∃ l', Receives (b.lotsAt ⟨e.account, terms.instrument⟩) l' terms.compensation ∧
      b'.lotsAt = Function.update b.lotsAt ⟨e.account, terms.instrument⟩ l' := by
  obtain ⟨-, h⟩ := requireWholePosition_ok h
  rw [Mut.get_bind] at h
  obtain ⟨rule, -, h⟩ := Mut.lift_bind_ok.mp h
  obtain ⟨l, hl, h⟩ := requireEntry_ok.mp h
  obtain ⟨next, hnext, h⟩ := Mut.lift_bind_ok.mp h
  cases Mut.modify_ok.mp h
  rw [lotsAt_of_get hl]
  exact ⟨next, amortise_receives (Mut.onCopy_ok.mp hnext), lotsAt_putLots _ next b⟩

theorem entry_of_payment {key : LotKey} {amount : Money} (hp : payment e = some (key, amount))
    (h : LotBook.apply e rules b = (.ok (), b')) :
    ∃ l', Receives (b.lotsAt key) l' amount ∧ b'.lotsAt = Function.update b.lotsAt key l' := by
  unfold LotBook.apply at h
  rw [Mut.get_bind] at h
  unfold payment at hp
  split at hp
  · next instrument gross hk =>
    cases hp
    rw [hk] at h
    exact coupon_received h
  · next terms allocation hk =>
    cases hp
    rw [hk] at h
    exact amortisation_received h
  · cases hp

/-- No payment is lost or invented: what its entry has received grows by the payment, and no other entry
    changes. -/
theorem payment_received {key : LotKey} {amount : Money} (hp : payment e = some (key, amount))
    (h : LotBook.apply e rules b = (.ok (), b')) :
    Receives (b.lotsAt key) (b'.lotsAt key) amount ∧ ∀ k, k ≠ key → b'.lotsAt k = b.lotsAt k := by
  obtain ⟨l', hreceives, hlots⟩ := entry_of_payment hp h
  rw [hlots, Function.update_self]
  exact ⟨hreceives, fun k hk => Function.update_of_ne hk _ _⟩

end

/-- Three lots of a unit each. -/
def threeUnits : LotBook :=
  let lot (id : Nat) : Lot := ⟨⟨id⟩, ⟨1⟩, none, Dec.one, ⟨.new 500, .rub⟩, none, none, none⟩
  (LotBook.new 1).putLots ⟨⟨1⟩, ⟨1⟩⟩ { InstrumentLots.empty with lots := [lot 1, lot 2, lot 3] }

/-- A coupon of a hundred. -/
def couponOfHundred : Event :=
  eventWith ⟨4⟩ ⟨1⟩ ⟨0⟩ 4 (.income (some ⟨1⟩) ⟨.new 100, .rub⟩ (some .coupon)) [.cash ⟨1⟩ ⟨.new 100, .rub⟩]

theorem couponOfHundred_received : ∃ b', LotBook.apply couponOfHundred .withDefaults threeUnits = (.ok (), b') ∧
    (b'.lotsAt ⟨⟨1⟩, ⟨1⟩⟩).lots.map (fun lot => Money.knownIn .rub lot.receivedToDate) = [33, 34, 33] ∧
    Receives (threeUnits.lotsAt ⟨⟨1⟩, ⟨1⟩⟩) (b'.lotsAt ⟨⟨1⟩, ⟨1⟩⟩) ⟨.new 100, .rub⟩ := by
  have hok : (LotBook.apply couponOfHundred .withDefaults threeUnits).1 = .ok () := by decide +kernel
  have happly : LotBook.apply couponOfHundred .withDefaults threeUnits =
      (.ok (), (LotBook.apply couponOfHundred .withDefaults threeUnits).2) := Prod.ext hok rfl
  refine ⟨_, happly, by decide +kernel, ?_⟩
  exact (payment_received rfl happly).1

end ReceivedIncome
end Iaam
