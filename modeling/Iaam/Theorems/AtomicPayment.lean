import Iaam.Theorems.AtomicEntry

/-! What a failed payment leaves of an entry.

A payment is spread in place, over the quantity without cost and then over the lots, so a share that fails leaves
the shares before it. -/

namespace Iaam
namespace Atomicity
open Outcome LotSteps InstrumentLots

/-! ### The lots -/

section Allot
variable {amount amount' received sum : Money} {quantity quantity' : Dec} {lot : Lot} {lots : List Lot}
  {f : Fail LotError}

/-- The spreading of a payment returns an error at one of the lots. -/
inductive AllotFails : Money → Dec → List Lot → Prop
  | skip {amount : Money} {quantity : Dec} {lot : Lot} {lots : List Lot} : lot.quantity.val = 0 →
      AllotFails amount quantity lots → AllotFails amount quantity (lot :: lots)
  | credit {amount : Money} {quantity : Dec} {lot : Lot} {lots : List Lot} {e : LotError} : lot.quantity.val ≠ 0 →
      creditOf amount quantity lot = .error (.error e) → AllotFails amount quantity (lot :: lots)
  | left {amount received sum : Money} {quantity : Dec} {lot : Lot} {lots : List Lot} {e : LotError} :
      lot.quantity.val ≠ 0 → creditOf amount quantity lot = .ok (received, sum) →
      leftOf amount quantity received lot.quantity = .error (.error e) → AllotFails amount quantity (lot :: lots)
  | later {amount received sum amount' : Money} {quantity quantity' : Dec} {lot : Lot} {lots : List Lot} :
      lot.quantity.val ≠ 0 → creditOf amount quantity lot = .ok (received, sum) →
      leftOf amount quantity received lot.quantity = .ok (amount', quantity') →
      AllotFails amount' quantity' lots → AllotFails amount quantity (lot :: lots)

/-- It does so behind a lot whose received amount it has changed. -/
inductive AllotTears : Money → Dec → List Lot → Prop
  | skip {amount : Money} {quantity : Dec} {lot : Lot} {lots : List Lot} : lot.quantity.val = 0 →
      AllotTears amount quantity lots → AllotTears amount quantity (lot :: lots)
  | left {amount received sum : Money} {quantity : Dec} {lot : Lot} {lots : List Lot} {e : LotError} :
      lot.quantity.val ≠ 0 → creditOf amount quantity lot = .ok (received, sum) → lot.receivedToDate ≠ some sum →
      leftOf amount quantity received lot.quantity = .error (.error e) → AllotTears amount quantity (lot :: lots)
  | later {amount received sum amount' : Money} {quantity quantity' : Dec} {lot : Lot} {lots : List Lot} :
      lot.quantity.val ≠ 0 → creditOf amount quantity lot = .ok (received, sum) → lot.receivedToDate ≠ some sum →
      leftOf amount quantity received lot.quantity = .ok (amount', quantity') →
      AllotFails amount' quantity' lots → AllotTears amount quantity (lot :: lots)
  | behind {amount received sum amount' : Money} {quantity quantity' : Dec} {lot : Lot} {lots : List Lot} :
      lot.quantity.val ≠ 0 → creditOf amount quantity lot = .ok (received, sum) →
      leftOf amount quantity received lot.quantity = .ok (amount', quantity') →
      AllotTears amount' quantity' lots → AllotTears amount quantity (lot :: lots)

theorem allot_skip (hz : lot.quantity.val = 0) : allot amount quantity (lot :: lots) =
    ((allot amount quantity lots).1, lot :: (allot amount quantity lots).2) := by
  rw [allot, if_pos (Dec.isZero_iff.mpr hz)]

theorem allot_credit (hz : lot.quantity.val ≠ 0) (hc : creditOf amount quantity lot = .error f) :
    allot amount quantity (lot :: lots) = (.error f, lot :: lots) := by
  rw [allot, if_neg fun h => hz (Dec.isZero_iff.mp h), hc]

theorem allot_left (hz : lot.quantity.val ≠ 0) (hc : creditOf amount quantity lot = .ok (received, sum))
    (hl : leftOf amount quantity received lot.quantity = .error f) : allot amount quantity (lot :: lots) =
      (.error f, { lot with receivedToDate := some sum } :: lots) := by
  rw [allot, if_neg fun h => hz (Dec.isZero_iff.mp h), hc]
  dsimp only
  rw [hl]

theorem allot_later (hz : lot.quantity.val ≠ 0) (hc : creditOf amount quantity lot = .ok (received, sum))
    (hl : leftOf amount quantity received lot.quantity = .ok (amount', quantity')) :
    allot amount quantity (lot :: lots) = ((allot amount' quantity' lots).1,
      { lot with receivedToDate := some sum } :: (allot amount' quantity' lots).2) := by
  rw [allot, if_neg fun h => hz (Dec.isZero_iff.mp h), hc]
  dsimp only
  rw [hl]

theorem allotFails_iff : AllotFails amount quantity lots ↔ ∃ e, (allot amount quantity lots).1 = .error (.error e) := by
  constructor
  · intro h
    induction h with
    | skip hz _ ih => exact allot_skip hz ▸ ih
    | credit hz hc => exact ⟨_, by rw [allot_credit hz hc]⟩
    | left hz hc hl => exact ⟨_, by rw [allot_left hz hc hl]⟩
    | later hz hc hl _ ih => exact allot_later hz hc hl ▸ ih
  · induction lots generalizing amount quantity with
    | nil =>
      rintro ⟨e, h⟩
      cases h
    | cons lot lots ih =>
      rintro ⟨e, h⟩
      by_cases hz : lot.quantity.val = 0
      · rw [allot_skip hz] at h
        exact .skip hz (ih ⟨e, h⟩)
      rcases hc : creditOf amount quantity lot with f | ⟨received, sum⟩
      · rw [allot_credit hz hc] at h
        cases h
        exact .credit hz hc
      rcases hl : leftOf amount quantity received lot.quantity with f | ⟨amount', quantity'⟩
      · rw [allot_left hz hc hl] at h
        cases h
        exact .left hz hc hl
      · rw [allot_later hz hc hl] at h
        exact .later hz hc hl (ih ⟨e, h⟩)

theorem credited_eq_iff : { lot with receivedToDate := some sum } = lot ↔ lot.receivedToDate = some sum := by
  constructor
  · intro h
    exact (congrArg Lot.receivedToDate h).symm
  · intro h
    rw [← h]

theorem allotTears_iff : AllotTears amount quantity lots ↔
    AllotFails amount quantity lots ∧ (allot amount quantity lots).2 ≠ lots := by
  constructor
  · intro h
    induction h with
    | skip hz _ ih =>
      rw [allot_skip hz]
      exact ⟨.skip hz ih.1, fun heq => ih.2 (List.cons.inj heq).2⟩
    | left hz hc hne hl =>
      rw [allot_left hz hc hl]
      exact ⟨.left hz hc hl, fun heq => hne (credited_eq_iff.mp (List.cons.inj heq).1)⟩
    | later hz hc hne hl hfails =>
      rw [allot_later hz hc hl]
      exact ⟨.later hz hc hl hfails, fun heq => hne (credited_eq_iff.mp (List.cons.inj heq).1)⟩
    | behind hz hc hl _ ih =>
      rw [allot_later hz hc hl]
      exact ⟨.later hz hc hl ih.1, fun heq => ih.2 (List.cons.inj heq).2⟩
  · rintro ⟨hfails, hne⟩
    induction hfails with
    | skip hz _ ih =>
      rw [allot_skip hz] at hne
      exact .skip hz (ih fun heq => hne (by rw [heq]))
    | credit hz hc =>
      rw [allot_credit hz hc] at hne
      exact absurd rfl hne
    | left hz hc hl =>
      rw [allot_left hz hc hl] at hne
      exact .left hz hc (fun heq => hne (by rw [credited_eq_iff.mpr heq])) hl
    | @later amount received sum amount' quantity quantity' lot lots hz hc hl hfails ih =>
      rw [allot_later hz hc hl] at hne
      by_cases hsum : lot.receivedToDate = some sum
      · exact .behind hz hc hl (ih fun heq => hne (by rw [heq, credited_eq_iff.mpr hsum]))
      · exact .later hz hc hsum hl hfails

end Allot

/-! ### The entry -/

section Payment
variable {l : InstrumentLots} {amount share sum amount' : Money} {total quantity' : Dec} {f : Fail LotError}

/-- A payment fails behind the quantity without cost or behind a lot whose income it has changed. -/
inductive PaymentTears (l : InstrumentLots) (amount : Money) : Prop
  | lots {total : Quantity} : l.quantity = .ok total → total.val ≠ 0 → l.unpriced.val = 0 →
      AllotTears amount total l.lots → PaymentTears l amount
  | left {total : Quantity} {share sum : Money} {e : LotError} : l.quantity = .ok total → total.val ≠ 0 →
      l.unpriced.val ≠ 0 → splitBasis amount l.unpriced total = .ok share →
      accumulate l.unpricedIncome share = .ok sum → l.unpricedIncome ≠ some sum →
      leftOf amount total share l.unpriced = .error (.error e) → PaymentTears l amount
  | later {total : Quantity} {share sum amount' : Money} {quantity' : Dec} : l.quantity = .ok total → total.val ≠ 0 →
      l.unpriced.val ≠ 0 → splitBasis amount l.unpriced total = .ok share →
      accumulate l.unpricedIncome share = .ok sum → l.unpricedIncome ≠ some sum →
      leftOf amount total share l.unpriced = .ok (amount', quantity') → AllotFails amount' quantity' l.lots →
      PaymentTears l amount
  | behind {total : Quantity} {share sum amount' : Money} {quantity' : Dec} : l.quantity = .ok total →
      total.val ≠ 0 → l.unpriced.val ≠ 0 → splitBasis amount l.unpriced total = .ok share →
      accumulate l.unpricedIncome share = .ok sum →
      leftOf amount total share l.unpriced = .ok (amount', quantity') → AllotTears amount' quantity' l.lots →
      PaymentTears l amount

theorem receiveUnpriced_zero (hu : l.unpriced.val = 0) : receiveUnpriced amount total l = (.ok (amount, total), l) := by
  unfold receiveUnpriced
  rw [Mut.get_bind, if_pos (Dec.isZero_iff.mpr hu)]
  rfl

theorem receiveUnpriced_part (hu : l.unpriced.val ≠ 0) (hshare : splitBasis amount l.unpriced total = .ok share)
    (hsum : accumulate l.unpricedIncome share = .ok sum) : receiveUnpriced amount total l =
      (leftOf amount total share l.unpriced, { l with unpricedIncome := some sum }) := by
  unfold receiveUnpriced
  rw [Mut.get_bind, if_neg fun h => hu (Dec.isZero_iff.mp h), Mut.lift_bind_of_ok (reraise_ok.mpr hshare),
    Mut.bind_of_ok (addTotal_ok.mpr ⟨sum, hsum, rfl⟩)]
  rfl

/-- The share of the quantity without cost is written, or the step fails before. -/
theorem receiveUnpriced_cases (hu : l.unpriced.val ≠ 0) : (∃ f, receiveUnpriced amount total l = (.error f, l)) ∨
    ∃ share sum, splitBasis amount l.unpriced total = .ok share ∧ accumulate l.unpricedIncome share = .ok sum := by
  unfold receiveUnpriced
  rw [Mut.get_bind, if_neg fun h => hu (Dec.isZero_iff.mp h)]
  cases hshare : reraise LotError.disposal (splitBasis amount l.unpriced total) with
  | error f => exact Or.inl ⟨f, rfl⟩
  | ok share =>
    rw [Mut.lift_bind_of_ok rfl]
    cases hsum : accumulate l.unpricedIncome share with
    | error e =>
      exact Or.inl ⟨.error (.money e), Mut.bind_of_error (addTotal_of_error hsum) _⟩
    | ok sum => exact Or.inr ⟨share, sum, reraise_ok.mp hshare, hsum⟩

/-- The payment on an entry that holds something. -/
theorem addReceived_run (hq : l.quantity = .ok total) (hz : total.val ≠ 0) : addReceived amount l =
    (receiveUnpriced amount total >>= fun rest =>
      Mut.zoom InstrumentLots.lots (fun lots l => { l with lots }) (allot rest.1 rest.2)) l := by
  unfold addReceived
  rw [Mut.get_bind, Mut.lift_bind_of_ok (convert_ok.mpr hq), if_neg fun h => hz (Dec.isZero_iff.mp h)]

theorem addReceived_rest {m : InstrumentLots} (hq : l.quantity = .ok total) (hz : total.val ≠ 0)
    (h : receiveUnpriced amount total l = (.ok (amount', quantity'), m)) : addReceived amount l =
      ((allot amount' quantity' m.lots).1, { m with lots := (allot amount' quantity' m.lots).2 }) := by
  rw [addReceived_run hq hz, Mut.bind_of_ok h]
  rfl

theorem paymentTears_iff :
    PaymentTears l amount ↔ ∃ e l', addReceived amount l = (.error (.error e), l') ∧ l' ≠ l := by
  constructor
  · intro h
    cases h with
    | lots hq hz hu htears =>
      obtain ⟨hfails, hne⟩ := allotTears_iff.mp htears
      obtain ⟨e, he⟩ := allotFails_iff.mp hfails
      exact ⟨e, _, (addReceived_rest hq hz (receiveUnpriced_zero hu)).trans (Prod.ext he rfl),
        fun heq => hne (congrArg InstrumentLots.lots heq)⟩
    | left hq hz hu hshare hsum hne hleft =>
      have hstop := receiveUnpriced_part hu hshare hsum
      rw [hleft] at hstop
      exact ⟨_, _, (addReceived_run hq hz).trans (Mut.bind_of_error hstop _),
        fun heq => hne (congrArg unpricedIncome heq).symm⟩
    | later hq hz hu hshare hsum hne hleft hfails =>
      obtain ⟨e, he⟩ := allotFails_iff.mp hfails
      have hrest := receiveUnpriced_part hu hshare hsum
      rw [hleft] at hrest
      exact ⟨e, _, (addReceived_rest hq hz hrest).trans (Prod.ext he rfl),
        fun heq => hne (congrArg unpricedIncome heq).symm⟩
    | behind hq hz hu hshare hsum hleft htears =>
      obtain ⟨hfails, hne⟩ := allotTears_iff.mp htears
      obtain ⟨e, he⟩ := allotFails_iff.mp hfails
      have hrest := receiveUnpriced_part hu hshare hsum
      rw [hleft] at hrest
      exact ⟨e, _, (addReceived_rest hq hz hrest).trans (Prod.ext he rfl),
        fun heq => hne (congrArg InstrumentLots.lots heq)⟩
  · rintro ⟨e, l', h, hne⟩
    cases hq : l.quantity with
    | error err =>
      unfold addReceived at h
      rw [Mut.get_bind, hq] at h
      exact absurd (Prod.mk.inj h).2.symm hne
    | ok total =>
      by_cases hz : total.val = 0
      · unfold addReceived at h
        rw [Mut.get_bind, Mut.lift_bind_of_ok (convert_ok.mpr hq), if_pos (Dec.isZero_iff.mpr hz)] at h
        exact absurd (addTotal_error h).2 hne
      by_cases hu : l.unpriced.val = 0
      · rw [addReceived_rest hq hz (receiveUnpriced_zero hu)] at h
        obtain ⟨he, rfl⟩ := Prod.mk.inj h
        have hlots : (allot amount total l.lots).2 ≠ l.lots := fun heq => hne (by rw [heq])
        exact .lots hq hz hu (allotTears_iff.mpr ⟨allotFails_iff.mpr ⟨e, he⟩, hlots⟩)
      rcases receiveUnpriced_cases hu with ⟨f, hstop⟩ | ⟨share, sum, hshare, hsum⟩
      · rw [addReceived_run hq hz, Mut.bind_of_error hstop] at h
        exact absurd (Prod.mk.inj h).2.symm hne
      have hrest := receiveUnpriced_part hu hshare hsum
      rcases hleft : leftOf amount total share l.unpriced with f | ⟨amount', quantity'⟩
      · rw [hleft] at hrest
        rw [addReceived_run hq hz, Mut.bind_of_error hrest] at h
        obtain ⟨he, rfl⟩ := Prod.mk.inj h
        cases he
        exact .left hq hz hu hshare hsum (fun heq => hne (by rw [← heq])) hleft
      · rw [hleft] at hrest
        rw [addReceived_rest hq hz hrest] at h
        obtain ⟨he, rfl⟩ := Prod.mk.inj h
        have hfails := allotFails_iff.mpr ⟨e, he⟩
        by_cases hincome : l.unpricedIncome = some sum
        · have hlots : (allot amount' quantity' l.lots).2 ≠ l.lots := fun heq => hne (by simp only [heq, ← hincome])
          exact .behind hq hz hu hshare hsum hleft (allotTears_iff.mpr ⟨hfails, hlots⟩)
        · exact .later hq hz hu hshare hsum hincome hleft hfails

theorem atomicAt_addReceived : Mut.AtomicAt (addReceived amount) l ↔ ¬PaymentTears l amount := by
  rw [Mut.atomicAt_iff, paymentTears_iff]

/-- A coupon on a key without an entry cannot fail. -/
theorem atomicAt_coupon {b : LotBook} {key : LotKey} :
    Mut.AtomicAt (LotBook.onEntry key (addReceived amount)) b ↔ ¬PaymentTears (b.lotsAt key) amount := by
  cases hl : b.entries[key]? with
  | some l => rw [atomicAt_onEntry hl, atomicAt_addReceived, lotsAt_of_get hl]
  | none =>
    have hempty : b.lotsAt key = .empty := by
      unfold LotBook.lotsAt
      rw [hl]
      rfl
    have hok : addReceived amount .empty = (.ok (), { InstrumentLots.empty with unallocatedIncome := some amount }) := rfl
    constructor
    · rintro - htears
      obtain ⟨e, l', h, -⟩ := paymentTears_iff.mp htears
      rw [hempty, hok] at h
      cases h
    · intro _ e t h
      obtain ⟨l', h, -⟩ := Mut.zoom_error.mp h
      rw [hempty, hok] at h
      cases h

end Payment

end Atomicity
end Iaam
