import Iaam.Theorems.AtomicPayment
import Iaam.Theorems.AtomicDisposal

/-! What a failed event leaves of the book.

Which inputs leave a changed book behind is said in the terms of each operation, by the sums and shares that
fail. -/

namespace Iaam
namespace Atomicity
open Outcome LotSteps Runs InstrumentLots

/-! ### A conversion -/

/-- A conversion empties the predecessor and then fails to add the cost to the successor. -/
inductive ConversionTears (e : Event) (terms : Conversion) (b : LotBook) : Prop
  | intro {l : InstrumentLots} {first : Lot} {rest moved : List Lot} {carried released : Money} {err : MoneyError} :
      b.entries[(⟨e.account, terms.predecessor⟩ : LotKey)]? = some l → l.quantity = .ok terms.quantityIn →
      l.lots = first :: rest → convertLots terms Dec.zero l.lots = .ok moved →
      Money.sum (l.lots.map Lot.costBasis) first.costBasis.currency = .ok carried →
      accumulate l.releasedBasis carried = .ok released →
      accumulate (b.lotsAt ⟨e.account, terms.successor⟩).acquiredBasis carried = .error err → ConversionTears e terms b

section Conversion
variable {b : LotBook} {source target : LotKey} {l emptied : InstrumentLots} {carried : Money} {moved : List Lot}
  {quantity delta : Quantity} {settlement : SettlementKnowledge}

/-- The entry a conversion leaves the predecessor with. -/
theorem handOver_run {released : Money} (h : accumulate l.releasedBasis carried = .ok released) :
    Mut.onCopy (handOver carried delta settlement) l =
      .ok (InstrumentLots.observe delta settlement { l with lots := [], releasedBasis := some released }) := by
  have hadd : addReleasedBasis carried { l with lots := [] } =
      (.ok (), { l with lots := [], releasedBasis := some released }) :=
    addTotal_ok.mpr ⟨released, h, rfl⟩
  exact Mut.onCopy_ok.mpr (Mut.seq_ok.mpr ⟨_, rfl, Mut.seq_ok.mpr ⟨_, hadd, rfl⟩⟩)

theorem takeOver_error {f : Fail LotError} {l' : InstrumentLots}
    (h : takeOver carried moved quantity settlement l = (.error f, l')) :
    (∃ err, accumulate l.acquiredBasis carried = .error err) ∧ l' = l := by
  rcases Mut.bind_error.mp h with h | ⟨_, u, -, h⟩
  · exact addTotal_error h
  · rw [Mut.modify_bind] at h
    exact absurd h Mut.modify_error

/-- The predecessor is written before the cost is added to the successor. -/
theorem atomicAt_handedOver (hl : b.entries[source]? = some l) (hne : l.lots ≠ []) (hlots : emptied.lots = [])
    (hacquired : emptied.acquiredBasis = l.acquiredBasis) :
    Mut.AtomicAt (Mut.modify (LotBook.putLots source emptied) >>= fun _ =>
        LotBook.onEntry target (takeOver carried moved quantity settlement)) b ↔
      ∀ err, accumulate (b.lotsAt target).acquiredBasis carried ≠ .error err := by
  -- also where an instrument is converted into itself
  have hbasis : ((b.putLots source emptied).lotsAt target).acquiredBasis = (b.lotsAt target).acquiredBasis := by
    rw [lotsAt_putLots]
    by_cases heq : target = source
    · rw [heq, Function.update_self, hacquired, lotsAt_of_get hl]
    · rw [Function.update_of_ne heq]
  constructor
  · intro h err hsum
    have hfail : LotBook.onEntry target (takeOver carried moved quantity settlement) (b.putLots source emptied) =
        (.error (.error (.money err)), (b.putLots source emptied).putLots target
          ((b.putLots source emptied).lotsAt target)) := by
      refine Mut.zoom_error.mpr ⟨_, ?_, rfl⟩
      exact Mut.bind_of_error (addTotal_of_error (hbasis ▸ hsum)) _
    have heq := congrArg (fun b => (b.lotsAt source).lots) (h _ _ hfail)
    rw [lotsAt_putLots, Function.update_eq_self, lotsAt_putLots, Function.update_self, lotsAt_of_get hl, hlots] at heq
    exact hne heq.symm
  · intro h err t hx
    rw [Mut.modify_bind] at hx
    obtain ⟨l', hx, -⟩ := Mut.zoom_error.mp hx
    obtain ⟨⟨err', hsum⟩, -⟩ := takeOver_error hx
    exact absurd (hbasis ▸ hsum) (h err')

theorem atomicAt_applyConversion {e : Event} {terms : Conversion} :
    Mut.AtomicAt (LotBook.applyConversion e terms settlement) b ↔ ¬ConversionTears e terms b := by
  obtain ⟨delta, hdelta⟩ := Dec.checkedNeg_total terms.quantityIn
  unfold LotBook.applyConversion
  constructor
  · rintro h ⟨hl, hq, hlots, hmoved, hcarried, hreleased, hacquired⟩
    have h := atomicAt_lift.mp (atomicAt_requireWholePosition.mp h _ hl hq) delta (convert_ok.mpr hdelta)
    have h := atomicAt_lift.mp (atomicAt_requireEntry.mp h _ hl) _ (convert_ok.mpr hmoved)
    rw [hlots] at h hcarried
    have h := atomicAt_lift.mp (atomicAt_lift.mp h _ (convert_ok.mpr hcarried)) _ (handOver_run hreleased)
    refine (atomicAt_handedOver hl ?_ ?_ ?_).mp h _ hacquired
    · rw [hlots]
      exact List.cons_ne_nil _ _
    · rfl
    · rfl
  · intro h
    refine atomicAt_requireWholePosition.mpr fun l hl hq => atomicAt_lift.mpr fun delta _ => ?_
    refine atomicAt_requireEntry.mpr fun l' hl' => atomicAt_lift.mpr fun moved hmoved => ?_
    obtain rfl : l' = l := Option.some.inj (hl'.symm.trans hl)
    rcases hlots : l'.lots with _ | ⟨first, rest⟩
    · exact Mut.atomicAt_of_keeps (Mut.keeps_pure _) _
    · refine atomicAt_lift.mpr fun carried hcarried => atomicAt_lift.mpr fun emptied hemptied => ?_
      obtain ⟨released, hreleased, hsame⟩ := handOver_ok (Mut.onCopy_ok.mp hemptied)
      rw [← hlots] at hcarried
      have hgone : emptied.lots = [] := by simpa using hsame.lots
      refine (atomicAt_handedOver hl (by simp [hlots]) hgone hsame.acquiredBasis).mpr fun err hacquired => h ?_
      exact .intro hl hq hlots (convert_ok.mp hmoved) (convert_ok.mp hcarried) hreleased hacquired

end Conversion

/-- An amortisation works on a copy, and writes it last. -/
theorem atomicAt_applyAmortisation {e : Event} {terms : PrincipalReturn} {allocation : BasisAllocation}
    {rules : RuleRegistry} {b : LotBook} :
    Mut.AtomicAt (LotBook.applyAmortisation e terms allocation rules) b := by
  refine atomicAt_requireWholePosition.mpr fun l hl hq => ?_
  refine (Mut.atomicAt_bind Mut.keeps_get).mpr fun b' _ => atomicAt_lift.mpr fun rule _ => ?_
  refine atomicAt_requireEntry.mpr fun l' hl' => atomicAt_lift.mpr fun next _ => ?_
  exact fun err t h => absurd h Mut.modify_error

/-! ### The book -/

theorem unpriced_taken {l m : InstrumentLots} {quantity left : Dec} (h : Taken l quantity left m)
    (hu : 0 ≤ l.unpriced.val) : 0 ≤ m.unpriced.val := by
  cases h with
  | nothing => exact hu
  | part _ hunpriced _ =>
    have hle : (min l.unpriced quantity).val ≤ l.unpriced.val := Dec.le_iff.mp (min_le_left _ _)
    exact hunpriced ▸ sub_nonneg.mpr hle

theorem unpriced_touched {e : Event} {key : LotKey} {l l' : InstrumentLots} {q : ℚ} (h : Touched e key l l' q)
    (hu : 0 ≤ l.unpriced.val) : 0 ≤ l'.unpriced.val := by
  cases h with
  | paid hsame | kindUnknown hsame | unallocated _ _ hsame =>
    rw [hsame.unpriced]
    exact hu
  | acquired hacquired =>
    obtain ⟨-, sum, lots, -, -, hsame⟩ := hacquired
    rw [hsame.unpriced]
    exact hu
  | restored _ _ hrestored =>
    obtain ⟨hpos, unpriced, hval, hsame⟩ := hrestored
    rw [hsame.unpriced]
    exact hval ▸ add_nonneg hu hpos.le
  | disposed _ hdisposed =>
    cases hdisposed with
    | unpriced htaken _ hsame | lots htaken _ _ _ hsame =>
      have hm := unpriced_taken htaken hu
      rw [hsame.unpriced]
      exact hm
  | amortised hamortised =>
    rw [hamortised.entry.unpriced]
    exact hu

/-- In every run the quantity without cost stays non-negative, so that taking from it cannot fail. -/
theorem unpriced_of_run {rules : RuleRegistry} {version : Nat} {es : List Event} {b : LotBook}
    (h : Run (Accepts rules) (.new version) es b) : ∀ key, 0 ≤ (b.lotsAt key).unpriced.val := by
  refine h.keeps (P := fun b => ∀ key, 0 ≤ (b.lotsAt key).unpriced.val) (fun hb hstep => ?_) fun key => ?_
  · refine hstep.applied.keeps (P := fun l => 0 ≤ l.unpriced.val) hb (fun htouched => unpriced_touched htouched (hb _))
      fun _ hover => ?_
    refine hover.keeps (P := fun l => 0 ≤ l.unpriced.val) hb (fun _ _ hsame => ?_) fun _ hm _ hsame => ?_
    · rw [hsame.unpriced]
      exact hb _
    · rw [hsame.unpriced]
      exact hm
  · rw [lotsAt_new]
    exact le_refl _

/-- The events that leave a changed book behind when they fail, by what they do. -/
inductive Tears (rules : RuleRegistry) (e : Event) (b : LotBook) : Prop
  | sold {terms : Trade} {gross proceeds : Money} {rule : LotDisposalRule} {l : InstrumentLots} :
      e.kind = .trade terms → terms.side = .sell → terms.gross.withOptional Money.trySub terms.fee = .ok gross →
      gross.withOptional Money.trySub terms.basisFee = .ok proceeds → rules.disposalRule b.ruleVersion = some rule →
      b.entries[(⟨e.account, terms.instrument⟩ : LotKey)]? = some l →
      DisposalTears rule l terms.quantity proceeds → Tears rules e b
  | offered {terms : OfferSettlement} {gross proceeds : Money} {rule : LotDisposalRule} {l : InstrumentLots} :
      e.kind = .offerExercise (.settled terms) →
      terms.gross.withOptional Money.tryAdd terms.accruedInterest = .ok gross →
      gross.withOptional Money.trySub terms.fee = .ok proceeds → rules.disposalRule b.ruleVersion = some rule →
      b.entries[(⟨e.account, terms.instrument⟩ : LotKey)]? = some l →
      DisposalTears rule l terms.quantity proceeds → Tears rules e b
  | redeemed {terms : PrincipalReturn} {rule : LotDisposalRule} {l : InstrumentLots} :
      e.kind = .corporateAction (.redemption terms) → rules.disposalRule b.ruleVersion = some rule →
      b.entries[(⟨e.account, terms.instrument⟩ : LotKey)]? = some l → l.quantity = .ok terms.quantity →
      DisposalTears rule l terms.quantity terms.compensation → Tears rules e b
  | converted {terms : Conversion} : e.kind = .corporateAction (.conversion terms) → ConversionTears e terms b →
      Tears rules e b
  | paid {instrument : InstrumentId} {gross : Money} : e.kind = .income (some instrument) gross (some .coupon) →
      PaymentTears (b.lotsAt ⟨e.account, instrument⟩) gross → Tears rules e b

section Book
variable {rules : RuleRegistry} {e : Event} {b : LotBook} {settlement : SettlementKnowledge}

theorem atomicAt_applyTrade {terms : Trade} (hu : ∀ key, 0 ≤ (b.lotsAt key).unpriced.val)
    (hk : e.kind = .trade terms) (hq : 0 < terms.quantity.val) :
    Mut.AtomicAt (LotBook.applyTrade e terms settlement rules) b ↔ ¬Tears rules e b := by
  unfold LotBook.applyTrade
  cases hside : terms.side with
  | buy =>
    refine iff_of_true (atomicAt_lift.mpr fun _ _ => atomicAt_lift.mpr fun _ _ => atomicAt_acquire _ _ _ _) fun htears => ?_
    cases htears with
    | sold hk' hsell =>
      cases hk.symm.trans hk'
      cases hside.symm.trans hsell
    | _ hk' => cases hk.symm.trans hk'
  | sell =>
    refine (atomicAt_disposeFor (hu _) hq).trans ⟨fun h htears => ?_, fun h g p rule l hgross hproceeds hrule hl htears => ?_⟩
    · cases htears with
      | sold hk' _ hgross hproceeds hrule hl htears =>
        cases hk.symm.trans hk'
        exact h _ _ _ _ hgross hproceeds hrule hl htears
      | _ hk' => cases hk.symm.trans hk'
    · exact h (.sold hk hside hgross hproceeds hrule hl htears)

theorem atomicAt_restore (instrument : InstrumentId) (quantity : Quantity) (costBasis : Option Money)
    (acquired : Option Date) : Mut.AtomicAt (LotBook.restore e instrument quantity costBasis acquired settlement) b := by
  cases costBasis with
  | none => exact atomicAt_restoreUnpriced _ _ _ _
  | some basis => exact atomicAt_restorePriced _ _ _ _

theorem atomicAt_applyIncome {instrument : InstrumentId} {gross : Money} {kind : Option IncomeKind}
    (hk : e.kind = .income (some instrument) gross kind) :
    Mut.AtomicAt (LotBook.applyIncome e instrument gross kind) b ↔ ¬Tears rules e b := by
  have hpaid : Tears rules e b ↔ kind = some .coupon ∧ PaymentTears (b.lotsAt ⟨e.account, instrument⟩) gross := by
    constructor
    · intro htears
      cases htears with
      | paid hk' htears =>
        cases hk.symm.trans hk'
        exact ⟨rfl, htears⟩
      | _ hk' => cases hk.symm.trans hk'
    · rintro ⟨rfl, htears⟩
      exact .paid hk htears
  rw [hpaid]
  rcases kind with _ | kind
  · exact iff_of_true (atomicAt_onEntry_total fun _ _ _ => Mut.modify_error) fun htears => (nomatch htears.1)
  · cases kind with
    | coupon => exact atomicAt_coupon.trans (not_congr ⟨fun htears => ⟨rfl, htears⟩, fun htears => htears.2⟩)
    | dividend | depositInterest =>
      exact iff_of_true (atomicAt_onEntry_total fun _ _ _ => Mut.pure_error) fun htears => (nomatch htears.1)

theorem atomicAt_applyCorporateAction {action : CorporateAction} (hu : ∀ key, 0 ≤ (b.lotsAt key).unpriced.val)
    (hv : e.validateStructure = .ok ()) (hk : e.kind = .corporateAction action) :
    Mut.AtomicAt (LotBook.applyCorporateAction e action settlement rules) b ↔ ¬Tears rules e b := by
  cases action with
  | partialRedemption terms allocation =>
    refine iff_of_true atomicAt_applyAmortisation fun htears => ?_
    cases htears with
    | _ hk' => cases hk.symm.trans hk'
  | redemption terms =>
    have hq := redemption_positive hv hk
    constructor
    · rintro h htears
      cases htears with
      | redeemed hk' hrule hl hwhole htears =>
        cases hk.symm.trans hk'
        have h := atomicAt_requireWholePosition.mp h _ hl hwhole
        exact (atomicAt_dispose (hu _) hq).mp h _ _ hrule hl htears
      | _ hk' => cases hk.symm.trans hk'
    · intro h
      refine atomicAt_requireWholePosition.mpr fun l hl hwhole => ?_
      refine (atomicAt_dispose (hu _) hq).mpr fun rule l' hrule hl' htears => h ?_
      obtain rfl : l' = l := Option.some.inj (hl'.symm.trans hl)
      exact .redeemed hk hrule hl hwhole htears
  | conversion terms =>
    refine atomicAt_applyConversion.trans (not_congr ⟨fun htears => .converted hk htears, fun htears => ?_⟩)
    cases htears with
    | converted hk' htears =>
      cases hk.symm.trans hk'
      exact htears
    | _ hk' => cases hk.symm.trans hk'

theorem atomicAt_applyOfferExercise {action : OfferExerciseAction} (hu : ∀ key, 0 ≤ (b.lotsAt key).unpriced.val)
    (hv : e.validateStructure = .ok ()) (hk : e.kind = .offerExercise action) :
    Mut.AtomicAt (LotBook.applyOfferExercise e action settlement rules) b ↔ ¬Tears rules e b := by
  cases action with
  | submitted | cancelled =>
    refine iff_of_true (Mut.atomicAt_of_keeps (Mut.keeps_pure _) _) fun htears => ?_
    cases htears with
    | _ hk' => cases hk.symm.trans hk'
  | settled terms =>
    have hq := settled_positive hv hk
    refine (atomicAt_disposeFor (hu _) hq).trans ⟨fun h htears => ?_, fun h g p rule l hgross hproceeds hrule hl htears => ?_⟩
    · cases htears with
      | offered hk' hgross hproceeds hrule hl htears =>
        cases hk.symm.trans hk'
        exact h _ _ _ _ hgross hproceeds hrule hl htears
      | _ hk' => cases hk.symm.trans hk'
    · exact h (.offered hk hgross hproceeds hrule hl htears)

end Book

/-- A sale of twelve units. -/
def oversale : Event :=
  saleOf ⟨2⟩ ⟨1⟩ (.ofInt64 12) (.ofInt64 (-12)) ⟨.new 500, .rub⟩

end Atomicity
end Iaam
