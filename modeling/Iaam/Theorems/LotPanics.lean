import Iaam.Theorems.Atomicity
import Iaam.Theorems.Fifo
import Iaam.Theorems.ReceivedIncome

/-! Overflows of the lot book.

The rules calculate with the operators of `Decimal`, which panic where the checked operations return an error. What
keeps an event from a panic is a range of sums and products over the lots that it meets. -/

namespace Iaam
namespace LotPanics
open Outcome Disposal InstrumentLots LotSteps Fifo Runs

/-! ### A split amount -/

section Split
variable {total : Money} {taken of : Dec}

/-- The product of an amount and a quantity is in range. -/
def ProductFits (amount : Money) (q : ℚ) : Prop := |amount.amount.raw * q| ≤ decimalMax

theorem productFits_mono {amount amount' : Money} {q : ℚ} (h : ProductFits amount q)
    (hle : |(amount'.amount.raw : ℚ)| ≤ |(amount.amount.raw : ℚ)|) : ProductFits amount' q := by
  unfold ProductFits at h ⊢
  rw [abs_mul] at h ⊢
  exact (mul_le_mul_of_nonneg_right hle (abs_nonneg q)).trans h

theorem productFits_of_le_one {q : ℚ} (h0 : 0 ≤ q) (h1 : q ≤ 1) (amount : Money) : ProductFits amount q := by
  unfold ProductFits
  rw [abs_mul, abs_of_nonneg h0]
  exact (mul_le_of_le_one_right (abs_nonneg _) h1).trans amount.amount.fits.inRange

/-- A split panics when its product is out of range. -/
theorem splitBasis_panics (h : ¬ ProductFits total taken.val) : splitBasis total taken of = .error .panic := by
  have hminor : Dec.exact total.amount.raw = some ⟨_, total.amount.fits.inRange⟩ := Dec.exact_eq_some.mpr rfl
  have hproduct : (decMul ⟨_, total.amount.fits.inRange⟩ taken : Result DisposalError Dec) = .error .panic := by
    unfold decMul
    rw [orPanic_panic]
    exact Dec.exact_eq_none.mpr h
  unfold splitBasis
  rw [hminor]
  change (decMul _ taken >>= _) = _
  rw [hproduct]
  rfl

/-- A split of a part of a quantity that is not zero panics only there. -/
theorem splitBasis_ne_panic (hproduct : ProductFits total taken.val) (h0 : 0 ≤ taken.val) (hle : taken.val ≤ of.val)
    (hne : of.val ≠ 0) : splitBasis total taken of ≠ .error .panic := by
  have hpos : 0 < of.val := lt_of_le_of_ne (h0.trans hle) hne.symm
  have hscaled : |total.amount.raw * taken.val / of.val| ≤ decimalMax := by
    rw [mul_div_assoc]
    exact productFits_of_le_one (div_nonneg h0 hpos.le) ((div_le_one hpos).mpr hle) total
  unfold splitBasis
  refine bind_ne_panic ?_ fun minor hminor => ?_
  · rw [Ne, orPanic_panic, Dec.exact_eq_none, not_not]
    exact total.amount.fits.inRange
  have hminor := Dec.exact_eq_some.mp (orPanic_ok.mp hminor)
  refine bind_ne_panic ?_ fun product h => ?_
  · unfold decMul
    rw [Ne, orPanic_panic, Dec.exact_eq_none, not_not, hminor]
    exact hproduct
  have hmul := decMul_ok.mp h
  refine bind_ne_panic ?_ fun scaled _ => ?_
  · unfold decDiv
    rw [if_neg fun hz => hne (Dec.isZero_iff.mp hz), Ne, orPanic_panic, Dec.exact_eq_none, not_not, hmul, hminor]
    exact hscaled
  · split <;> exact fun hpanic => (nomatch hpanic)

/-- What is left after a share is no larger than the amount. -/
theorem left_le {share rest : Money} (hshare : splitBasis total taken of = .ok share) (h0 : 0 ≤ taken.val)
    (hle : taken.val ≤ of.val) (hrest : total.trySub share = .ok rest) :
    |(rest.amount.raw : ℚ)| ≤ |(total.amount.raw : ℚ)| := by
  obtain ⟨-, hne, -, hraw, -⟩ := splitBasis_ok.mp hshare
  have hpos : 0 < of.val := lt_of_le_of_ne (h0.trans hle) hne.symm
  have hratio0 : 0 ≤ taken.val / of.val := div_nonneg h0 hpos.le
  have hratio1 : taken.val / of.val ≤ 1 := (div_le_one hpos).mpr hle
  rw [mul_div_assoc] at hraw
  have hsub : rest.amount.raw = total.amount.raw - share.amount.raw := (Money.trySub_ok.mp hrest).2.1
  rcases le_total 0 total.amount.raw with hsign | hsign
  · have hcast : (0 : ℚ) ≤ total.amount.raw := by exact_mod_cast hsign
    have hhigh := roundHalfEven_le (mul_le_of_le_one_right hcast hratio1)
    have hlow : 0 ≤ roundHalfEven (total.amount.raw * (taken.val / of.val)) :=
      le_roundHalfEven (by exact_mod_cast mul_nonneg hcast hratio0)
    have habs : |rest.amount.raw| ≤ |total.amount.raw| := by
      rw [abs_of_nonneg hsign, abs_le]
      omega
    exact_mod_cast habs
  · have hcast : (total.amount.raw : ℚ) ≤ 0 := by exact_mod_cast hsign
    have hlow := le_roundHalfEven (le_mul_of_le_one_right hcast hratio1)
    have hhigh : roundHalfEven (total.amount.raw * (taken.val / of.val)) ≤ 0 :=
      roundHalfEven_le (by exact_mod_cast mul_nonpos_of_nonpos_of_nonneg hcast hratio0)
    have habs : |rest.amount.raw| ≤ |total.amount.raw| := by
      rw [abs_of_nonpos hsign, abs_le]
      omega
    exact_mod_cast habs

end Split

/-! ### First in, first out -/

section Fifo
variable {lot : Lot} {lots : List Lot} {taken left : Dec} {q : Quantity}

theorem splitOptionalBasis_panics {total : Option Money} {of : Dec}
    (h : ¬ ∀ amount ∈ total.toList, ProductFits amount taken.val) :
    splitOptionalBasis total taken of = .error .panic := by
  cases total with
  | none => exact absurd (fun _ hx => (nomatch hx)) h
  | some total =>
    have hproduct : ¬ ProductFits total taken.val := fun hfits => h (List.forall_mem_singleton.mpr hfits)
    unfold splitOptionalBasis
    dsimp only
    rw [splitBasis_panics hproduct]
    rfl

/-- A lot that is not split panics. -/
theorem splitLot_ne_error (h0 : 0 < taken.val) (hlt : taken.val < lot.quantity.val) {e : DisposalError} :
    splitLot lot taken ≠ .error (.error e) := by
  intro herror
  have hnot : ¬ ∀ amount ∈ amounts lot, |amount.amount.raw * taken.val| ≤ decimalMax := fun hfits => by
    obtain ⟨r, hr⟩ := (splitLot_iff h0 hlt).mpr hfits
    cases hr.symm.trans herror
  unfold amounts at hnot
  rw [List.forall_mem_cons, List.forall_mem_append, List.forall_mem_append] at hnot
  simp only [splitLot] at herror
  by_cases hcost : ProductFits lot.costBasis taken.val
  · obtain ⟨share, kept, hshare, hkept⟩ := exists_splitBasis h0 hlt.le hcost
    rw [hshare, ok_bind, convert_ok.mpr hkept, ok_bind] at herror
    by_cases hinterest : ∀ amount ∈ lot.accruedInterestPaid.toList, ProductFits amount taken.val
    · obtain ⟨interest, hi⟩ := exists_splitOptionalBasis h0 hlt hinterest
      rw [hi, ok_bind] at herror
      by_cases hacquisition : ∀ amount ∈ lot.acquisitionBasis.toList, ProductFits amount taken.val
      · obtain ⟨acquisition, ha⟩ := exists_splitOptionalBasis h0 hlt hacquisition
        rw [ha, ok_bind] at herror
        have hreceived : ¬ ∀ amount ∈ lot.receivedToDate.toList, ProductFits amount taken.val := fun hreceived =>
          hnot ⟨hcost, hinterest, hacquisition, hreceived⟩
        rw [splitOptionalBasis_panics hreceived] at herror
        cases herror
      · rw [splitOptionalBasis_panics hacquisition] at herror
        cases herror
    · rw [splitOptionalBasis_panics hinterest] at herror
      cases herror
  · rw [splitBasis_panics hcost] at herror
    cases herror

theorem fifoLoop_ne_error (h0 : 0 ≤ left.val) {e : DisposalError} : fifoLoop left lots ≠ .error (.error e) := by
  induction lots generalizing left with
  | nil => exact fun h => (nomatch h)
  | cons lot lots ih =>
    by_cases hz : left.val = 0
    · rw [fifoLoop_zero hz]
      exact fun h => (nomatch h)
    rw [fifoLoop, if_neg fun h => hz (Dec.isZero_iff.mp h)]
    split
    · next hle =>
      intro h
      rcases bind_error.mp h with h | ⟨left', hleft, h⟩
      · exact orPanic_ne_error h
      have hrest : 0 ≤ left'.val := by
        rw [decSub_ok.mp hleft]
        exact sub_nonneg.mpr (Dec.le_iff.mp hle)
      rcases bind_error.mp h with h | ⟨_, -, h⟩
      · exact ih hrest h
      · cases h
    · next hlt =>
      have hlt : left.val < lot.quantity.val := lt_of_not_ge fun hle => hlt (Dec.le_iff.mpr hle)
      intro h
      rcases bind_error.mp h with h | ⟨_, -, h⟩
      · exact splitLot_ne_error (lt_of_le_of_ne h0 (Ne.symm hz)) hlt h
      rcases bind_error.mp h with h | ⟨_, -, h⟩
      · rw [fifoLoop_zero Dec.zero_val] at h
        cases h
      · cases h

/-- The decimals of a disposal are in range, as far as the rule gets: the sum of the quantities where the lots have one
    currency, and the products of the lot that is split where there is enough. -/
def RuleFits (lots : List Lot) (q : ℚ) : Prop :=
  (∃ c, InCurrency c lots) → quantitySum lots ≤ decimalMax ∧ (q ≤ quantitySum lots →
    ∀ lot taken, (cut q lots).2 = some (lot, taken) → ∀ amount ∈ amounts lot, |amount.amount.raw * taken| ≤ decimalMax)

theorem decSum_ne_error {items : List Dec} {e : DisposalError} :
    (decSum items : Result DisposalError Dec) ≠ .error (.error e) := by
  intro h
  obtain ⟨i, -, t, hstep⟩ := foldlM_error h
  exact orPanic_ne_error hstep

/-- Over lots that hold no less than nothing, the rule panics exactly when its decimals are not in range. -/
theorem fifo_panic_iff (hn : ∀ lot ∈ lots, 0 ≤ lot.quantity.val) (h0 : 0 ≤ q.val) :
    fifoV1Apply ⟨lots, q⟩ = .error .panic ↔ ¬ RuleFits lots q.val := by
  have hsum := exists_decSum (ε := DisposalError) (List.forall_mem_map.mpr hn : ∀ x ∈ lots.map Lot.quantity, 0 ≤ x.val)
  rw [quantities_eq] at hsum
  cases lots with
  | nil =>
    refine iff_of_false (fun h => (nomatch h)) (not_not.mpr fun _ => ⟨?_, fun _ _ _ h => (nomatch h)⟩)
    norm_num [decimalMax]
  | cons first rest =>
    unfold fifoV1Apply
    dsimp only
    split
    · next hmixed =>
      refine iff_of_false (fun h => (nomatch h)) (not_not.mpr ?_)
      rintro ⟨c, hc⟩
      obtain rfl : first.costBasis.currency = c := hc first List.mem_cons_self
      rw [mixed_iff.mpr hc] at hmixed
      cases hmixed
    next hmixed =>
    have hcurrency : ∃ c, InCurrency c (first :: rest) := ⟨_, mixed_iff.mp (Bool.eq_false_iff.mpr hmixed)⟩
    rcases havailable : (decSum ((first :: rest).map Lot.quantity) : Result DisposalError Dec) with (e | _) | available
    · exact absurd havailable decSum_ne_error
    · refine iff_of_true rfl fun hfits => ?_
      obtain ⟨d, hd⟩ := hsum.mpr (hfits hcurrency).1
      cases havailable.symm.trans hd
    rw [ok_bind]
    have hmax : quantitySum (first :: rest) ≤ decimalMax := hsum.mp ⟨available, havailable⟩
    have hval : available.val = quantitySum (first :: rest) := by rw [decSum_ok havailable, quantities_eq]
    split
    · next hless =>
      refine iff_of_false (fun h => (nomatch h)) (not_not.mpr fun _ => ⟨hmax, fun henough => ?_⟩)
      rw [← hval] at henough
      exact absurd (Dec.lt_iff.mp hless) (not_lt.mpr henough)
    · next hless =>
      have henough : q.val ≤ quantitySum (first :: rest) := by
        rw [← hval]
        exact not_lt.mp fun hlt => hless (Dec.lt_iff.mpr hlt)
      have hloop := fifoLoop_iff hn h0 henough
      constructor
      · intro hpanic hfits
        obtain ⟨r, hr⟩ := hloop.mpr ((hfits hcurrency).2 henough)
        rw [hr, ok_bind] at hpanic
        rcases bind_error.mp hpanic with h | ⟨_, -, h⟩
        · exact convert_ne_panic h
        · cases h
      · intro hnot
        rcases hr : fifoLoop q (first :: rest) with (e | _) | r
        · exact absurd hr (fifoLoop_ne_error h0)
        · rfl
        · exact absurd (fun _ => ⟨hmax, fun _ => hloop.mp ⟨r, hr⟩⟩) hnot

end Fifo

/-! ### What an entry must be for an event -/

/-- A disposal that needs more than the quantity without cost finds lots that hold no less than nothing, and the decimals
    of the rule in range. -/
def DisposalFits (l : InstrumentLots) (q : ℚ) : Prop :=
  l.unpriced.val < q → (∀ lot ∈ l.lots, 0 ≤ lot.quantity.val) ∧ RuleFits l.lots (q - l.unpriced.val)

/-- A payment finds lots that hold no less than nothing, and its products with the quantities are in range. -/
structure PaymentFits (l : InstrumentLots) (amount : Money) : Prop where
  lots : ∀ lot ∈ l.lots, 0 ≤ lot.quantity.val
  unpriced : ProductFits amount l.unpriced.val
  products : ∀ lot ∈ l.lots, ProductFits amount lot.quantity.val

/-- What keeps the event from a panic. -/
def Fits (b : LotBook) (e : Event) : Prop :=
  match e.kind with
  | .trade terms => terms.side = .sell → DisposalFits (b.lotsAt ⟨e.account, terms.instrument⟩) terms.quantity.val
  | .income (some instrument) gross (some .coupon) => PaymentFits (b.lotsAt ⟨e.account, instrument⟩) gross
  | .corporateAction (.partialRedemption terms _) =>
    PaymentFits (b.lotsAt ⟨e.account, terms.instrument⟩) terms.compensation
  | .corporateAction (.redemption terms) => DisposalFits (b.lotsAt ⟨e.account, terms.instrument⟩) terms.quantity.val
  | .offerExercise (.settled terms) => DisposalFits (b.lotsAt ⟨e.account, terms.instrument⟩) terms.quantity.val
  | _ => True

/-! ### Operations without decimals -/

section Plain
variable {l : InstrumentLots}

theorem addTotal_noPanicAt {total : InstrumentLots → Option Money} {put : Money → InstrumentLots → InstrumentLots}
    {amount : Money} : Mut.NoPanicAt (addTotal total put amount) l :=
  Mut.noPanicAt_lift_bind convert_ne_panic fun _ _ => Mut.noPanicAt_modify _

theorem addRealised_noPanicAt {amount : Money} : Mut.NoPanicAt (addRealised amount) l := by
  unfold addRealised Mut.NoPanicAt
  rw [Mut.get_bind]
  split
  · exact Mut.noPanicAt_pure ()
  · exact addTotal_noPanicAt

theorem realise_noPanicAt {proceeds released : Money} : Mut.NoPanicAt (realise proceeds released) l := by
  unfold realise Mut.NoPanicAt
  rw [Mut.get_bind]
  split
  · exact Mut.noPanicAt_pure ()
  · exact Mut.noPanicAt_lift_bind convert_ne_panic fun _ _ => addTotal_noPanicAt

theorem addReturned_noPanicAt {returned : Money} : Mut.NoPanicAt (addReturned returned) l := by
  unfold addReturned
  split
  · exact Mut.noPanicAt_pure ()
  · exact addTotal_noPanicAt

theorem acquire_noPanicAt {lot : Lot} {settlement : SettlementKnowledge} : Mut.NoPanicAt (acquire lot settlement) l :=
  addTotal_noPanicAt.bind fun _ _ _ => Mut.noPanicAt_modify _

theorem restorePriced_noPanicAt {lot : Lot} {settlement : SettlementKnowledge} :
    Mut.NoPanicAt (restorePriced lot settlement) l :=
  addTotal_noPanicAt.bind fun _ _ _ => Mut.noPanicAt_modify _

theorem restoreUnpriced_noPanicAt {quantity : Quantity} {settlement : SettlementKnowledge} :
    Mut.NoPanicAt (restoreUnpriced quantity settlement) l :=
  Mut.noPanicAt_lift_bind convert_ne_panic fun _ _ => Mut.noPanicAt_modify _

theorem takeUnpriced_noPanicAt {quantity : Quantity} : Mut.NoPanicAt (takeUnpriced quantity) l := by
  unfold takeUnpriced Mut.NoPanicAt
  rw [Mut.get_bind]
  dsimp only
  split
  · exact Mut.noPanicAt_lift convert_ne_panic
  · exact Mut.noPanicAt_lift_bind convert_ne_panic fun _ _ => Mut.noPanicAt_lift convert_ne_panic

theorem handOver_noPanicAt {carried : Money} {delta : Quantity} {settlement : SettlementKnowledge} :
    Mut.NoPanicAt (handOver carried delta settlement) l :=
  (Mut.noPanicAt_modify _).bind fun _ _ _ => addTotal_noPanicAt.bind fun _ _ _ => Mut.noPanicAt_modify _

theorem takeOver_noPanicAt {carried : Money} {moved : List Lot} {quantity : Quantity}
    {settlement : SettlementKnowledge} : Mut.NoPanicAt (takeOver carried moved quantity settlement) l :=
  addTotal_noPanicAt.bind fun _ _ _ => (Mut.noPanicAt_modify _).bind fun _ _ _ => Mut.noPanicAt_modify _

end Plain

/-! ### A payment -/

section Payment
variable {l : InstrumentLots} {amount : Money} {quantity : Dec} {lots : List Lot}

theorem quantitySum_nonneg (h : ∀ lot ∈ lots, 0 ≤ lot.quantity.val) : 0 ≤ quantitySum lots :=
  List.sum_nonneg (List.forall_mem_map.mpr h)

/-- Each lot takes a part of the quantity that is left, so the amounts that are split only get smaller. -/
theorem allot_ne_panic (hn : ∀ lot ∈ lots, 0 ≤ lot.quantity.val) (hquantity : quantity.val = quantitySum lots)
    (hfits : ∀ lot ∈ lots, ProductFits amount lot.quantity.val) : (allot amount quantity lots).1 ≠ .error .panic := by
  induction lots generalizing amount quantity with
  | nil => exact fun h => (nomatch h)
  | cons lot lots ih =>
    obtain ⟨hlot, hlots⟩ := List.forall_mem_cons.mp hn
    obtain ⟨hproduct, hproducts⟩ := List.forall_mem_cons.mp hfits
    rw [quantitySum_cons] at hquantity
    by_cases hz : lot.quantity.val = 0
    · rw [Atomicity.allot_skip hz]
      exact ih hlots (by rw [hquantity, hz, zero_add]) hproducts
    have hle : lot.quantity.val ≤ quantity.val := by
      rw [hquantity]
      exact le_add_of_nonneg_right (quantitySum_nonneg hlots)
    have hne : quantity.val ≠ 0 := (lt_of_lt_of_le (lt_of_le_of_ne hlot (Ne.symm hz)) hle).ne'
    have hcredit : creditOf amount quantity lot ≠ .error .panic := by
      refine bind_ne_panic (fun h => ?_) fun _ _ => bind_ne_panic convert_ne_panic fun _ _ h => (nomatch h)
      exact splitBasis_ne_panic hproduct hlot hle hne (reraise_panic.mp h)
    rcases hc : creditOf amount quantity lot with f | ⟨share, sum⟩
    · rw [Atomicity.allot_credit hz hc]
      rw [hc] at hcredit
      exact fun h => hcredit (by cases h; rfl)
    have hleft : leftOf amount quantity share lot.quantity ≠ .error .panic :=
      bind_ne_panic convert_ne_panic fun _ _ => bind_ne_panic convert_ne_panic fun _ _ h => (nomatch h)
    rcases hl : leftOf amount quantity share lot.quantity with f | ⟨amount', quantity'⟩
    · rw [Atomicity.allot_left hz hc hl]
      rw [hl] at hleft
      exact fun h => hleft (by cases h; rfl)
    · rw [Atomicity.allot_later hz hc hl]
      obtain ⟨share', hshare, hpair⟩ := bind_ok.mp hc
      obtain ⟨sum', -, hpair⟩ := bind_ok.mp hpair
      cases hpair
      obtain ⟨hsub, hquantity'⟩ := ReceivedIncome.leftOf_ok hl
      have hsmaller := left_le (reraise_ok.mp hshare) hlot hle hsub
      exact ih hlots (by rw [hquantity', hquantity, add_sub_cancel_left])
        fun other hother => productFits_mono (hproducts other hother) hsmaller

/-- A payment whose products are in range does not panic. -/
theorem addReceived_noPanicAt (hu : 0 ≤ l.unpriced.val) (hfits : PaymentFits l amount) :
    Mut.NoPanicAt (addReceived amount) l := by
  obtain ⟨hn, hunpriced, hproducts⟩ := hfits
  have hsum := quantitySum_nonneg hn
  unfold addReceived Mut.NoPanicAt
  rw [Mut.get_bind]
  refine Mut.noPanicAt_lift_bind convert_ne_panic fun total htotal => ?_
  have hheld := quantity_ok (convert_ok.mp htotal)
  split
  · exact addTotal_noPanicAt
  next hz =>
  have hne : total.val ≠ 0 := fun h0 => hz (Dec.isZero_iff.mpr h0)
  have hle : l.unpriced.val ≤ total.val := by
    rw [hheld]
    exact le_add_of_nonneg_right hsum
  refine Mut.NoPanicAt.bind ?_ fun ⟨amount', quantity⟩ m hm => ?_
  · unfold receiveUnpriced Mut.NoPanicAt
    rw [Mut.get_bind]
    split
    · exact Mut.noPanicAt_pure _
    · refine Mut.noPanicAt_lift_bind (fun h => ?_) fun share _ => addTotal_noPanicAt.bind fun _ _ _ => ?_
      · exact splitBasis_ne_panic hunpriced hu hle hne (reraise_panic.mp h)
      · exact Mut.noPanicAt_lift
          (bind_ne_panic convert_ne_panic fun _ _ => bind_ne_panic convert_ne_panic fun _ _ h => (nomatch h))
  · obtain ⟨hlots, hquantity, -⟩ := ReceivedIncome.receiveUnpriced_ok hm hheld hne
    have hsmaller : |(amount'.amount.raw : ℚ)| ≤ |(amount.amount.raw : ℚ)| := by
      by_cases hzero : l.unpriced.val = 0
      · rw [Atomicity.receiveUnpriced_zero hzero] at hm
        cases hm
        exact le_rfl
      · rcases @Atomicity.receiveUnpriced_cases l amount total hzero with ⟨f, hstop⟩ | ⟨share, sum, hshare, hsum⟩
        · rw [hstop] at hm
          cases hm
        rw [Atomicity.receiveUnpriced_part hzero hshare hsum] at hm
        exact left_le hshare hu hle (ReceivedIncome.leftOf_ok (Prod.mk.inj hm).1).1
    refine Mut.noPanicAt_zoom.mpr ?_
    rw [← hlots] at hn hquantity hproducts
    exact allot_ne_panic hn hquantity fun lot hlot => productFits_mono (hproducts lot hlot) hsmaller

/-- A share of a cost is in range. -/
theorem amortiseLots_ne_panic {rule : AmortisationRule} {share : ReturnedShare} {total : Money} :
    amortiseLots rule share total lots ≠ .error .panic := by
  induction lots generalizing total with
  | nil => exact fun h => (nomatch h)
  | cons lot lots ih =>
    refine bind_ne_panic (fun h => ?_) fun _ _ => bind_ne_panic convert_ne_panic fun _ _ =>
      bind_ne_panic convert_ne_panic fun _ _ => bind_ne_panic ih fun _ _ h => (nomatch h)
    cases rule
    have hproduct := productFits_of_le_one share.pos.le share.leOne lot.costBasis
    exact splitBasis_ne_panic hproduct share.pos.le share.leOne one_ne_zero (reraise_panic.mp (reraise_panic.mp h))

theorem amortise_noPanicAt {rule : AmortisationRule} {allocation : BasisAllocation} (hu : 0 ≤ l.unpriced.val)
    (hfits : PaymentFits l amount) : Mut.NoPanicAt (amortise rule allocation amount) l := by
  obtain ⟨hn, hunpriced, hproducts⟩ := hfits
  refine Mut.NoPanicAt.bind (x := returnBasis rule allocation amount.currency) ?_ fun returned m hm => ?_
  · cases allocation with
    | known share evidence => exact Mut.noPanicAt_lift_bind amortiseLots_ne_panic fun _ _ => fun h => (nomatch h)
    | unknown why => exact fun h => (nomatch h)
  have hreturned : m.unpriced = l.unpriced ∧ m.lots.map Lot.quantity = l.lots.map Lot.quantity := by
    cases allocation with
    | known share evidence =>
      obtain ⟨⟨lots, total⟩, hlots, hm⟩ := Mut.lift_bind_ok.mp hm
      obtain ⟨rfl, rfl⟩ : returned = total ∧ m = { l with lots } := Mut.pure_ok.mp hm
      exact ⟨rfl, (amortiseLots_ok hlots).1⟩
    | unknown why =>
      obtain ⟨-, rfl⟩ : returned = Money.zero amount.currency ∧
        m = markBasisGap .amortisationAllocationUnknown l := Mut.pure_ok.mp hm
      exact ⟨rfl, rfl⟩
  obtain ⟨hum, hquantities⟩ := hreturned
  have hall {P : ℚ → Prop} (h : ∀ lot ∈ l.lots, P lot.quantity.val) : ∀ lot ∈ m.lots, P lot.quantity.val := by
    have hmap : ∀ q ∈ m.lots.map Lot.quantity, P q.val := by
      rw [hquantities]
      exact List.forall_mem_map.mpr h
    exact fun lot hlot => hmap _ (List.mem_map_of_mem hlot)
  have hpaid : Mut.NoPanicAt (addReceived amount) m :=
    addReceived_noPanicAt (hum ▸ hu) ⟨hall hn, hum ▸ hunpriced, hall hproducts⟩
  exact hpaid.bind fun _ _ _ => addReturned_noPanicAt.bind fun _ _ _ =>
    Mut.noPanicAt_lift_bind convert_ne_panic fun _ _ => addRealised_noPanicAt

end Payment

/-! ### The book -/

section Book
variable {rules : RuleRegistry} {b : LotBook} {e : Event} {key : LotKey} {settlement : SettlementKnowledge}

theorem onEntry_noPanicAt {α : Type} {x : InstrumentLots.Step α} :
    Mut.NoPanicAt (LotBook.onEntry key x) b ↔ Mut.NoPanicAt x (b.lotsAt key) := Mut.noPanicAt_zoom

theorem requireEntry_noPanicAt {α : Type} {f : InstrumentLots → LotBook.Step α}
    (hf : ∀ l, b.entries[key]? = some l → Mut.NoPanicAt (f l) b) :
    Mut.NoPanicAt (LotBook.requireEntry e key >>= f) b :=
  Mut.noPanicAt_lift_bind okOr_ne_panic fun l hl => hf l (okOr_ok.mp hl)

theorem requireWholePosition_noPanicAt {α : Type} {declared : Quantity} {f : Unit → LotBook.Step α}
    (hf : Mut.NoPanicAt (f ()) b) : Mut.NoPanicAt (LotBook.requireWholePosition e key declared >>= f) b := by
  refine Mut.NoPanicAt.bind ?_ fun u b' h => ?_
  · refine requireEntry_noPanicAt fun l _ => Mut.noPanicAt_lift_bind convert_ne_panic fun held _ => ?_
    split
    · exact Mut.noPanicAt_pure ()
    · exact fun h => (nomatch h)
  · obtain ⟨-, rfl⟩ := requireWholePosition_iff.mp h
    exact hf

theorem releaseLots_noPanicAt {rule : LotDisposalRule} {left : Dec} {l : InstrumentLots}
    (hn : ∀ lot ∈ l.lots, 0 ≤ lot.quantity.val) (h0 : 0 ≤ left.val) (hfits : RuleFits l.lots left.val) :
    Mut.NoPanicAt (releaseLots rule left) l := by
  unfold releaseLots Mut.NoPanicAt
  rw [Mut.get_bind]
  refine Mut.noPanicAt_lift_bind (fun h => ?_) fun _ _ => (Mut.noPanicAt_modify _).bind fun _ _ _ =>
    addTotal_noPanicAt.bind fun _ _ _ => Mut.noPanicAt_pure _
  cases rule
  exact (fifo_panic_iff hn h0).mp (reraise_panic.mp h) hfits

theorem dispose_noPanicAt {quantity : Quantity} {proceeds : Money} (hu : 0 ≤ (b.lotsAt key).unpriced.val)
    (hq : 0 < quantity.val) (hfits : DisposalFits (b.lotsAt key) quantity.val) :
    Mut.NoPanicAt (LotBook.dispose e key quantity proceeds rules settlement) b := by
  refine Mut.noPanicAt_lift_bind convert_ne_panic fun delta _ => ?_
  unfold Mut.NoPanicAt
  rw [Mut.get_bind]
  refine Mut.noPanicAt_lift_bind okOr_ne_panic fun rule _ => requireEntry_noPanicAt fun _ _ => ?_
  refine (onEntry_noPanicAt.mpr takeUnpriced_noPanicAt).bind fun left b₁ h => ?_
  obtain ⟨m, htake, rfl⟩ := onEntry_ok.mp h
  have htaken := takeUnpriced_ok htake
  split
  · exact onEntry_noPanicAt.mpr (Mut.noPanicAt_modify _)
  next hz =>
  have hne : left.val ≠ 0 := fun h0 => hz (Dec.isZero_iff.mpr h0)
  obtain ⟨hpos, hleft, hrest⟩ := Atomicity.taken_rest htaken hu hq hne
  have hlots : m.lots = (b.lotsAt key).lots := by
    rcases hrest with ⟨-, rfl⟩ | ⟨-, -, -, hlots, -⟩
    · rfl
    · exact hlots
  obtain ⟨hn, hrule⟩ := hfits (by linarith)
  rw [← hlots] at hn hrule
  rw [← hleft] at hrule
  refine Mut.NoPanicAt.bind (onEntry_noPanicAt.mpr ?_) fun _ _ _ => (Mut.noPanicAt_modify _).bind fun _ _ _ =>
    (onEntry_noPanicAt.mpr realise_noPanicAt).bind fun _ _ _ => onEntry_noPanicAt.mpr (Mut.noPanicAt_modify _)
  rw [lotsAt_putLots, Function.update_self]
  exact releaseLots_noPanicAt hn hpos.le hrule

theorem applyTrade_noPanicAt {terms : Trade} (hu : ∀ key, 0 ≤ (b.lotsAt key).unpriced.val)
    (hpos : 0 < terms.quantity.val)
    (hfits : terms.side = .sell → DisposalFits (b.lotsAt ⟨e.account, terms.instrument⟩) terms.quantity.val) :
    Mut.NoPanicAt (LotBook.applyTrade e terms settlement rules) b := by
  unfold LotBook.applyTrade
  cases hs : terms.side with
  | buy =>
    exact Mut.noPanicAt_lift_bind convert_ne_panic fun _ _ => Mut.noPanicAt_lift_bind convert_ne_panic fun _ _ =>
      onEntry_noPanicAt.mpr acquire_noPanicAt
  | sell =>
    exact Mut.noPanicAt_lift_bind convert_ne_panic fun _ _ => Mut.noPanicAt_lift_bind convert_ne_panic fun _ _ =>
      dispose_noPanicAt (hu _) hpos (hfits hs)

theorem applyAmortisation_noPanicAt {terms : PrincipalReturn} {allocation : BasisAllocation}
    (hu : ∀ key, 0 ≤ (b.lotsAt key).unpriced.val)
    (hfits : PaymentFits (b.lotsAt ⟨e.account, terms.instrument⟩) terms.compensation) :
    Mut.NoPanicAt (LotBook.applyAmortisation e terms allocation rules) b := by
  refine requireWholePosition_noPanicAt ?_
  unfold Mut.NoPanicAt
  rw [Mut.get_bind]
  refine Mut.noPanicAt_lift_bind okOr_ne_panic fun rule _ => requireEntry_noPanicAt fun l hl => ?_
  have hu := hu ⟨e.account, terms.instrument⟩
  rw [lotsAt_of_get hl] at hfits hu
  exact Mut.noPanicAt_lift_bind (Mut.onCopy_ne_panic (amortise_noPanicAt hu hfits)) fun _ _ => Mut.noPanicAt_modify _

theorem applyConversion_noPanicAt {terms : Conversion} :
    Mut.NoPanicAt (LotBook.applyConversion e terms settlement) b := by
  refine requireWholePosition_noPanicAt (Mut.noPanicAt_lift_bind convert_ne_panic fun delta _ => ?_)
  refine requireEntry_noPanicAt fun l _ => Mut.noPanicAt_lift_bind convert_ne_panic fun moved _ => ?_
  split
  · exact Mut.noPanicAt_pure ()
  · refine Mut.noPanicAt_lift_bind convert_ne_panic fun carried _ => ?_
    refine Mut.noPanicAt_lift_bind (Mut.onCopy_ne_panic handOver_noPanicAt) fun emptied _ => ?_
    exact (Mut.noPanicAt_modify _).bind fun _ _ _ => onEntry_noPanicAt.mpr takeOver_noPanicAt

/-- A valid event that fits the book does not panic. -/
theorem apply_noPanicAt (hu : ∀ key, 0 ≤ (b.lotsAt key).unpriced.val) (hv : e.validateStructure = .ok ())
    (hfits : Fits b e) : Mut.NoPanicAt (LotBook.apply e rules) b := by
  unfold LotBook.apply Mut.NoPanicAt
  rw [Mut.get_bind]
  unfold Fits at hfits
  cases hk : e.kind with
  | trade terms =>
    rw [hk] at hfits
    exact applyTrade_noPanicAt hu (trade_positive hv hk) hfits
  | openingPosition instrument quantity costBasis assertions =>
    cases costBasis with
    | some basis => exact onEntry_noPanicAt.mpr restorePriced_noPanicAt
    | none => exact onEntry_noPanicAt.mpr restoreUnpriced_noPanicAt
  | income instrument gross kind =>
    rw [hk] at hfits
    match instrument, kind, hfits with
    | none, _, _ => exact Mut.noPanicAt_pure ()
    | some _, some .coupon, hfits => exact onEntry_noPanicAt.mpr (addReceived_noPanicAt (hu _) hfits)
    | some _, some .dividend, _ | some _, some .depositInterest, _ => exact onEntry_noPanicAt.mpr (Mut.noPanicAt_pure ())
    | some _, none, _ => exact onEntry_noPanicAt.mpr (Mut.noPanicAt_modify _)
  | corporateAction action =>
    rw [hk] at hfits
    cases action with
    | partialRedemption terms allocation => exact applyAmortisation_noPanicAt hu hfits
    | redemption terms =>
      exact requireWholePosition_noPanicAt (dispose_noPanicAt (hu _) (redemption_positive hv hk) hfits)
    | conversion terms => exact applyConversion_noPanicAt
  | offerExercise action =>
    rw [hk] at hfits
    cases action with
    | submitted | cancelled => exact Mut.noPanicAt_pure ()
    | settled terms =>
      exact Mut.noPanicAt_lift_bind convert_ne_panic fun _ _ => Mut.noPanicAt_lift_bind convert_ne_panic fun _ _ =>
        dispose_noPanicAt (hu _) (settled_positive hv hk) hfits
  | _ => exact Mut.noPanicAt_pure ()

end Book

/-- Ten units for a thousand, and a sale of five of them. -/
def tenUnits : List Event := [openingOf ⟨1⟩ ⟨1⟩ (.ofInt64 10) (some ⟨.new 1000, .rub⟩)]
def saleOfFive : Event := saleOf ⟨2⟩ ⟨1⟩ (.ofInt64 5) (.ofInt64 (-5)) ⟨.new 700, .rub⟩

/-- A hundred quintillion units for a hundred million, and the sale of a tenth of them. -/
def quintillions : List Event :=
  [openingOf ⟨1⟩ ⟨1⟩ ⟨10 ^ 20, by decide +kernel⟩ (some ⟨.new (10 ^ 10), .rub⟩)]
def saleOfTenth : Event :=
  saleOf ⟨2⟩ ⟨1⟩ ⟨10 ^ 19, by decide +kernel⟩ ⟨-10 ^ 19, by decide +kernel⟩ ⟨.new (10 ^ 10), .rub⟩

/-- Two lots that add up to more than a decimal, and the sale of a unit. -/
def twoLargest : List Event :=
  [openingOf ⟨1⟩ ⟨1⟩ ⟨decimalMax, by decide +kernel⟩ (some ⟨.new 100, .rub⟩),
    openingOf ⟨2⟩ ⟨1⟩ ⟨decimalMax, by decide +kernel⟩ (some ⟨.new 100, .rub⟩)]
def saleOfUnit : Event := saleOf ⟨3⟩ ⟨1⟩ Dec.one (.ofInt64 (-1)) ⟨.new 100, .rub⟩

end LotPanics
end Iaam
