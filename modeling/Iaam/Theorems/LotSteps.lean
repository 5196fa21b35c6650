import Iaam.Event.Declared
import Iaam.Event.Validate
import Iaam.Lib.Runs
import Iaam.Projection.Project
import Iaam.Theorems.LotOps

/-! What a step of the lot book can do.

Every event that the book accepts is inverted once, to what it did to the entries. Each invariant is then a case
analysis over `Applied`, and a run keeps what every step keeps. -/

namespace Iaam
namespace LotSteps
open Outcome Disposal InstrumentLots

/-! ### Entries of the book -/

theorem lotsAt_putLots (key : LotKey) (l : InstrumentLots) (b : LotBook) :
    (b.putLots key l).lotsAt = Function.update b.lotsAt key l := by
  funext k
  unfold LotBook.putLots LotBook.lotsAt
  dsimp only
  rw [Tree.get_insert, Function.update_apply]
  by_cases hk : key = k
  · rw [if_pos hk, if_pos hk.symm]
    rfl
  · rw [if_neg hk, if_neg fun h => hk h.symm]

theorem lotsAt_of_get {b : LotBook} {key : LotKey} {l : InstrumentLots} (h : b.entries[key]? = some l) :
    b.lotsAt key = l := by
  unfold LotBook.lotsAt
  rw [h]
  rfl

theorem onEntry_ok {α : Type} {key : LotKey} {x : InstrumentLots.Step α} {b b' : LotBook} {a : α} :
    LotBook.onEntry key x b = (.ok a, b') ↔ ∃ l', x (b.lotsAt key) = (.ok a, l') ∧ b' = b.putLots key l' :=
  Mut.zoom_ok

theorem onEntry_bind_ok {α β : Type} {key : LotKey} {x : InstrumentLots.Step α} {f : α → LotBook.Step β}
    {b b' : LotBook} {r : β} : (LotBook.onEntry key x >>= f) b = (.ok r, b') ↔
      ∃ a l', x (b.lotsAt key) = (.ok a, l') ∧ f a (b.putLots key l') = (.ok r, b') :=
  Mut.zoom_bind_ok

theorem requireEntry_ok {α : Type} {e : Event} {key : LotKey} {f : InstrumentLots → LotBook.Step α} {b b' : LotBook}
    {a : α} : (LotBook.requireEntry e key >>= f) b = (.ok a, b') ↔
      ∃ l, b.entries[key]? = some l ∧ f l b = (.ok a, b') := by
  unfold LotBook.requireEntry
  change (Mut.lift _ >>= f) b = _ ↔ _
  rw [Mut.lift_bind_ok]
  simp only [okOr_ok]

theorem requireWholePosition_iff {e : Event} {key : LotKey} {declared : Quantity} {b b' : LotBook} :
    LotBook.requireWholePosition e key declared b = (.ok (), b') ↔
      (∃ l, b.entries[key]? = some l ∧ l.quantity = .ok declared) ∧ b' = b := by
  unfold LotBook.requireWholePosition
  rw [requireEntry_ok]
  constructor
  · rintro ⟨l, hl, h⟩
    obtain ⟨held, hheld, h⟩ := Mut.lift_bind_ok.mp h
    split at h
    · next heq => exact ⟨⟨l, hl, heq ▸ convert_ok.mp hheld⟩, (Mut.pure_ok.mp h).2⟩
    · cases (Mut.lift_ok.mp h).1
  · rintro ⟨⟨l, hl, hq⟩, rfl⟩
    refine ⟨l, hl, Mut.lift_bind_ok.mpr ⟨declared, convert_ok.mpr hq, ?_⟩⟩
    rw [if_pos rfl]
    rfl

theorem requireWholePosition_ok {α : Type} {e : Event} {key : LotKey} {declared : Quantity}
    {f : Unit → LotBook.Step α} {b b' : LotBook} {a : α}
    (h : (LotBook.requireWholePosition e key declared >>= f) b = (.ok a, b')) :
    (∃ l, b.entries[key]? = some l ∧ l.quantity = .ok declared) ∧ f () b = (.ok a, b') := by
  obtain ⟨u, hwhole, hrest⟩ := Mut.seq_ok.mp h
  obtain ⟨hentry, hu⟩ := requireWholePosition_iff.mp hwhole
  exact ⟨hentry, hu ▸ hrest⟩

theorem dispose_ok {e : Event} {key : LotKey} {quantity : Quantity} {proceeds : Money} {rules : RuleRegistry}
    {settlement : SettlementKnowledge} {b b' : LotBook}
    (h : LotBook.dispose e key quantity proceeds rules settlement b = (.ok (), b')) :
    ∃ l', Disposed (b.lotsAt key) quantity l' ∧ b'.lotsAt = Function.update b.lotsAt key l' := by
  obtain ⟨delta, -, h⟩ := Mut.lift_bind_ok.mp h
  rw [Mut.get_bind] at h
  obtain ⟨rule, -, h⟩ := Mut.lift_bind_ok.mp h
  obtain ⟨_, -, h⟩ := requireEntry_ok.mp h
  obtain ⟨left, m, htake, h⟩ := onEntry_bind_ok.mp h
  have htaken := takeUnpriced_ok htake
  split at h
  · next hz =>
    obtain ⟨l', hobserve, rfl⟩ := onEntry_ok.mp h
    rw [lotsAt_putLots, Function.update_self] at hobserve
    cases Mut.modify_ok.mp hobserve
    refine ⟨InstrumentLots.observe delta settlement m, .unpriced htaken (Dec.isZero_iff.mp hz) ⟨rfl, rfl, rfl, rfl, rfl, rfl, rfl⟩, ?_⟩
    rw [lotsAt_putLots, lotsAt_putLots, Function.update_idem]
  · obtain ⟨r, m₁, hrelease, h⟩ := onEntry_bind_ok.mp h
    rw [lotsAt_putLots, Function.update_self] at hrelease
    obtain ⟨hdisposes, sum, hsum, rfl⟩ := releaseLots_ok hrelease
    rw [Mut.modify_bind] at h
    obtain ⟨_, m₂, hrealise, h⟩ := onEntry_bind_ok.mp h
    obtain ⟨l', hobserve, rfl⟩ := onEntry_ok.mp h
    have hm : LotBook.lotsAt { (b.putLots key m).putLots key { m with lots := r.remaining, releasedBasis := some sum }
        with appliedRule := some r.rule } = Function.update b.lotsAt key
          { m with lots := r.remaining, releasedBasis := some sum } := by
      change (LotBook.putLots _ _ _).lotsAt = _
      rw [lotsAt_putLots, lotsAt_putLots, Function.update_idem]
    rw [hm, Function.update_self] at hrealise
    obtain ⟨realized, hrealized, rfl⟩ := realise_ok hrealise
    rw [lotsAt_putLots, Function.update_self] at hobserve
    cases Mut.modify_ok.mp hobserve
    refine ⟨InstrumentLots.observe delta settlement { m with lots := r.remaining, releasedBasis := some sum, realized },
      .lots htaken hdisposes hsum hrealized ⟨rfl, rfl, rfl, rfl, rfl, rfl, rfl⟩, ?_⟩
    rw [lotsAt_putLots, lotsAt_putLots, Function.update_idem, hm, Function.update_idem]

/-! ### What validation gives -/

theorem requirePositiveQuantity_ok {name field : String} {quantity : Quantity}
    (h : requirePositiveQuantity name field quantity = .ok ()) : 0 < quantity.val := by
  unfold requirePositiveQuantity at h
  split at h
  · next hp => exact Dec.isPositive_iff.mp hp
  · cases h

section Valid
variable {e : Event} (h : e.validateStructure = .ok ())
include h

theorem trade_positive {terms : Trade} (hk : e.kind = .trade terms) : 0 < terms.quantity.val := by
  simp only [Event.validateStructure, hk] at h
  obtain ⟨-, h⟩ := seq_ok.mp h
  exact requirePositiveQuantity_ok (seq_ok.mp h).1

theorem openingPosition_positive {instrument : InstrumentId} {quantity : Quantity} {costBasis : Option Money}
    {assertions : OpeningAssertions} (hk : e.kind = .openingPosition instrument quantity costBasis assertions) :
    0 < quantity.val := by
  simp only [Event.validateStructure, hk] at h
  exact requirePositiveQuantity_ok (seq_ok.mp h).1

theorem redemption_positive {terms : PrincipalReturn} (hk : e.kind = .corporateAction (.redemption terms)) :
    0 < terms.quantity.val := by
  simp only [Event.validateStructure, hk] at h
  obtain ⟨-, h⟩ := seq_ok.mp h
  exact requirePositiveQuantity_ok (seq_ok.mp h).1

theorem settled_positive {terms : OfferSettlement} (hk : e.kind = .offerExercise (.settled terms)) :
    0 < terms.quantity.val := by
  simp only [Event.validateStructure, hk] at h
  exact requirePositiveQuantity_ok (seq_ok.mp h).1

theorem conversion_positive {terms : Conversion} (hk : e.kind = .corporateAction (.conversion terms)) :
    0 < terms.quantityIn.val ∧ 0 < terms.quantityOut.val ∧ 0 < terms.ratio.val := by
  simp only [Event.validateStructure, hk] at h
  obtain ⟨hin, h⟩ := seq_ok.mp h
  obtain ⟨hout, h⟩ := seq_ok.mp h
  obtain ⟨hratio, h⟩ := seq_ok.mp h
  exact ⟨requirePositiveQuantity_ok hin, requirePositiveQuantity_ok hout, requirePositiveQuantity_ok hratio⟩

end Valid

/-! ### What a step of the book can do -/

/-- What an event can do to one entry, with the quantity it adds there. -/
inductive Touched (e : Event) (key : LotKey) (l l' : InstrumentLots) : ℚ → Prop
  | paid : Same l l' → Touched e key l l' 0
  | kindUnknown : Same { l with incomeKindUnknown := true } l' → Touched e key l l' 0
  | acquired {lot : Lot} : Acquired l lot l' → Touched e key l l' lot.quantity.val
  | restored {instrument : InstrumentId} {quantity : Quantity} {assertions : OpeningAssertions} :
      e.kind = .openingPosition instrument quantity none assertions → key = ⟨e.account, instrument⟩ →
      Restored l quantity l' → Touched e key l l' quantity.val
  | disposed {quantity : Quantity} : 0 < quantity.val → Disposed l quantity l' → Touched e key l l' (-quantity.val)
  | amortised {returned : Money} {lots : List Lot} {released realized : Option Money} :
      Amortised l l' returned lots released realized → Touched e key l l' 0
  | unallocated {terms : PrincipalReturn} {why : AllocationGap} :
      e.kind = .corporateAction (.partialRedemption terms (.unknown why)) → key = ⟨e.account, terms.instrument⟩ →
      Same (markBasisGap .amortisationAllocationUnknown l) l' → Touched e key l l' 0

/-- The lots of a conversion: those that move, and the cost that moves with them. -/
structure Moved (terms : Conversion) (lots init moved : List Lot) (last : Lot) (carried : Money) : Prop where
  split : lots = init ++ [last]
  worth : moved.map (fun lot => (lot.quantity.val, lot.costBasis)) =
    init.map (fun lot => (lot.quantity.val * terms.ratio.val, lot.costBasis)) ++
      [(terms.quantityOut.val - quantitySum init * terms.ratio.val, last.costBasis)]
  basis : carried.amount.raw = basisSum lots
  currency : InCurrency carried.currency lots

/-- What a conversion of lots leaves of the predecessor and of the successor. -/
inductive HandedOver (terms : Conversion) (source target : LotKey) (before after : LotKey → InstrumentLots) : Prop
  | intro {init moved : List Lot} {last : Lot} {carried released acquired : Money} {l l' : InstrumentLots} :
      Moved terms (before source).lots init moved last carried →
      accumulate (before source).releasedBasis carried = .ok released →
      Same { before source with lots := [], releasedBasis := some released } l →
      accumulate (Function.update before source l target).acquiredBasis carried = .ok acquired →
      Same { Function.update before source l target with
        acquiredBasis := some acquired
        lots := (Function.update before source l target).lots ++ moved } l' →
      after = Function.update (Function.update before source l) target l' →
      HandedOver terms source target before after

theorem HandedOver.nonempty {terms : Conversion} {source target : LotKey} {before after : LotKey → InstrumentLots}
    (h : HandedOver terms source target before after) : (before source).lots ≠ [] := by
  obtain ⟨hmoved, -⟩ := h
  rw [hmoved.split]
  exact List.append_ne_nil_of_right_ne_nil _ (List.cons_ne_nil _ _)

/-- What a conversion of a whole position does: nothing where there are no lots. -/
structure Converts (e : Event) (terms : Conversion) (b b' : LotBook) : Prop where
  whole : held (b.lotsAt ⟨e.account, terms.predecessor⟩) = terms.quantityIn.val
  outcome : ((b.lotsAt ⟨e.account, terms.predecessor⟩).lots = [] ∧ b'.lotsAt = b.lotsAt) ∨
    HandedOver terms ⟨e.account, terms.predecessor⟩ ⟨e.account, terms.successor⟩ b.lotsAt b'.lotsAt

/-- What a step of the book can do. -/
inductive Applied (e : Event) (b b' : LotBook) : Prop
  | idle : (∀ k, e.declaredQuantity k = 0) → b'.lotsAt = b.lotsAt → Applied e b b'
  | touched {key : LotKey} {q : ℚ} {l' : InstrumentLots} : (∀ k, e.declaredQuantity k = if key = k then q else 0) →
      Touched e key (b.lotsAt key) l' q → b'.lotsAt = Function.update b.lotsAt key l' → Applied e b b'
  | converted {terms : Conversion} : e.kind = .corporateAction (.conversion terms) → Converts e terms b b' →
      Applied e b b'

section Inversion
variable {e : Event} {rules : RuleRegistry} {settlement : SettlementKnowledge} {b b' : LotBook}

/-- A step that works on one entry and declares its quantity there. -/
theorem applied_of_onEntry {key : LotKey} {q : ℚ} {x : InstrumentLots.Step Unit}
    (hq : ∀ k, e.declaredQuantity k = if key = k then q else 0) (h : LotBook.onEntry key x b = (.ok (), b'))
    (htouched : ∀ l', x (b.lotsAt key) = (.ok (), l') → Touched e key (b.lotsAt key) l' q) : Applied e b b' := by
  obtain ⟨l', hx, rfl⟩ := onEntry_ok.mp h
  exact .touched hq (htouched l' hx) (lotsAt_putLots key l' b)

theorem applied_of_dispose {key : LotKey} {quantity : Quantity} {proceeds : Money} (hpos : 0 < quantity.val)
    (hq : ∀ k, e.declaredQuantity k = if key = k then -quantity.val else 0)
    (h : LotBook.dispose e key quantity proceeds rules settlement b = (.ok (), b')) : Applied e b b' := by
  obtain ⟨l', hdisposed, hlots⟩ := dispose_ok h
  exact .touched hq (.disposed hpos hdisposed) hlots

theorem applyIncome_ok {instrument : InstrumentId} {gross amount : Money} {kind : Option IncomeKind}
    (hk : e.kind = .income (some instrument) gross kind)
    (h : LotBook.applyIncome e instrument amount kind b = (.ok (), b')) : Applied e b b' := by
  have hq : ∀ k, e.declaredQuantity k = if (⟨e.account, instrument⟩ : LotKey) = k then 0 else 0 := fun k => by
    simp [Event.declaredQuantity, hk]
  refine applied_of_onEntry hq h fun l' hx => ?_
  match kind, hx with
  | some .coupon, hx => exact .paid ((keeps_addReceived amount).of_run hx)
  | some .dividend, hx | some .depositInterest, hx =>
    rw [(Mut.pure_ok.mp hx).2]
    exact .paid (.refl _)
  | none, hx =>
    rw [Mut.modify_ok.mp hx]
    exact .kindUnknown (.refl _)

theorem applyTrade_ok {terms : Trade} (hk : e.kind = .trade terms) (hpos : 0 < terms.quantity.val)
    (h : LotBook.applyTrade e terms settlement rules b = (.ok (), b')) : Applied e b b' := by
  unfold LotBook.applyTrade at h
  cases hs : terms.side with
  | buy =>
    rw [hs] at h
    obtain ⟨basis, -, h⟩ := Mut.lift_bind_ok.mp h
    obtain ⟨basis', -, h⟩ := Mut.lift_bind_ok.mp h
    refine applied_of_onEntry (fun k => ?_) h fun l' hx => .acquired (acquire_ok hpos hx)
    simp [Event.declaredQuantity, hk, hs, TradeSide.signed, heldOn]
  | sell =>
    rw [hs] at h
    obtain ⟨proceeds, -, h⟩ := Mut.lift_bind_ok.mp h
    obtain ⟨proceeds', -, h⟩ := Mut.lift_bind_ok.mp h
    refine applied_of_dispose hpos (fun k => ?_) h
    simp [Event.declaredQuantity, hk, hs, TradeSide.signed, heldOn]

theorem restore_ok {instrument : InstrumentId} {quantity : Quantity} {costBasis : Option Money}
    {assertions : OpeningAssertions} {acquired : Option Date}
    (hk : e.kind = .openingPosition instrument quantity costBasis assertions) (hpos : 0 < quantity.val)
    (h : LotBook.restore e instrument quantity costBasis acquired settlement b = (.ok (), b')) : Applied e b b' := by
  have hq : ∀ k, e.declaredQuantity k = if (⟨e.account, instrument⟩ : LotKey) = k then quantity.val else 0 :=
    fun k => by simp [Event.declaredQuantity, hk, heldOn]
  unfold LotBook.restore at h
  refine applied_of_onEntry hq h fun l' hx => ?_
  cases costBasis with
  | some basis => exact .acquired (restorePriced_ok hpos hx)
  | none => exact .restored hk rfl (restoreUnpriced_ok hpos hx)

theorem applyAmortisation_ok {terms : PrincipalReturn} {allocation : BasisAllocation}
    (hk : e.kind = .corporateAction (.partialRedemption terms allocation))
    (h : LotBook.applyAmortisation e terms allocation rules b = (.ok (), b')) : Applied e b b' := by
  obtain ⟨-, h⟩ := requireWholePosition_ok h
  rw [Mut.get_bind] at h
  obtain ⟨rule, -, h⟩ := Mut.lift_bind_ok.mp h
  obtain ⟨l, hl, h⟩ := requireEntry_ok.mp h
  obtain ⟨next, hnext, h⟩ := Mut.lift_bind_ok.mp h
  cases Mut.modify_ok.mp h
  have hnext := Mut.onCopy_ok.mp hnext
  rw [← lotsAt_of_get hl] at hnext
  have hq : ∀ k, e.declaredQuantity k = if (⟨e.account, terms.instrument⟩ : LotKey) = k then 0 else 0 := fun k => by
    simp [Event.declaredQuantity, hk]
  refine .touched hq ?_ (lotsAt_putLots _ _ _)
  cases allocation with
  | known share evidence =>
    obtain ⟨returned, lots, released, realized, hamortised⟩ := amortise_known_ok hnext
    exact .amortised hamortised
  | unknown why => exact .unallocated hk rfl (amortise_unknown_ok hnext)

theorem handOver_ok {carried : Money} {delta : Quantity} {l l' : InstrumentLots}
    (h : handOver carried delta settlement l = (.ok (), l')) :
    ∃ sum, accumulate l.releasedBasis carried = .ok sum ∧
      Same { l with lots := [], releasedBasis := some sum } l' := by
  unfold handOver at h
  rw [Mut.modify_bind] at h
  obtain ⟨m, hadd, h⟩ := Mut.seq_ok.mp h
  obtain ⟨sum, hsum, rfl⟩ := addTotal_ok.mp hadd
  cases Mut.modify_ok.mp h
  exact ⟨sum, hsum, ⟨rfl, rfl, rfl, rfl, rfl, rfl, rfl⟩⟩

theorem takeOver_ok {carried : Money} {moved : List Lot} {quantity : Quantity} {l l' : InstrumentLots}
    (h : takeOver carried moved quantity settlement l = (.ok (), l')) :
    ∃ sum, accumulate l.acquiredBasis carried = .ok sum ∧
      Same { l with acquiredBasis := some sum, lots := l.lots ++ moved } l' := by
  obtain ⟨m, hadd, h⟩ := Mut.seq_ok.mp h
  obtain ⟨sum, hsum, rfl⟩ := addTotal_ok.mp hadd
  rw [Mut.modify_bind] at h
  cases Mut.modify_ok.mp h
  exact ⟨sum, hsum, ⟨rfl, rfl, rfl, rfl, rfl, rfl, rfl⟩⟩

theorem moved_of_ok {terms : Conversion} {lots moved : List Lot} {first : Lot} {carried : Money} (hne : lots ≠ [])
    (hmoved : convertLots terms Dec.zero lots = .ok moved)
    (hcarried : Money.sum (lots.map Lot.costBasis) first.costBasis.currency = .ok carried) :
    ∃ init last, Moved terms lots init moved last carried := by
  obtain ⟨hcur, hraw, hall⟩ := Money.sum_ok hcarried
  refine ⟨lots.dropLast, lots.getLast hne, (List.dropLast_append_getLast hne).symm, ?_, ?_, ?_⟩
  · rw [← List.dropLast_append_getLast hne] at hmoved
    simpa using convertLots_ok hmoved
  · rw [hraw, List.map_map]
    rfl
  · intro lot hlot
    rw [hcur]
    exact hall _ (List.mem_map_of_mem hlot)

theorem applyConversion_ok {terms : Conversion}
    (h : LotBook.applyConversion e terms settlement b = (.ok (), b')) : Converts e terms b b' := by
  obtain ⟨⟨l, hl, hwhole⟩, h⟩ := requireWholePosition_ok h
  obtain ⟨delta, -, h⟩ := Mut.lift_bind_ok.mp h
  obtain ⟨l', hl', h⟩ := requireEntry_ok.mp h
  obtain ⟨moved, hmoved, h⟩ := Mut.lift_bind_ok.mp h
  refine ⟨by rw [lotsAt_of_get hl, quantity_ok hwhole], ?_⟩
  have hentry := lotsAt_of_get hl'
  rcases hlots : l'.lots with _ | ⟨first, rest⟩
  · rw [hlots] at h
    obtain ⟨-, rfl⟩ := Mut.pure_ok.mp h
    exact Or.inl ⟨hentry ▸ hlots, rfl⟩
  · rw [hlots] at h
    obtain ⟨carried, hcarried, h⟩ := Mut.lift_bind_ok.mp h
    rw [← hlots] at hcarried
    obtain ⟨emptied, hemptied, h⟩ := Mut.lift_bind_ok.mp h
    rw [Mut.modify_bind] at h
    obtain ⟨target, htarget, rfl⟩ := onEntry_ok.mp h
    obtain ⟨released, hreleased, hsame⟩ := handOver_ok (Mut.onCopy_ok.mp hemptied)
    rw [lotsAt_putLots] at htarget
    obtain ⟨acquired, hacquired, hsame'⟩ := takeOver_ok htarget
    have hne : l'.lots ≠ [] := by
      rw [hlots]
      exact List.cons_ne_nil _ _
    obtain ⟨init, last, hmoves⟩ := moved_of_ok hne (convert_ok.mp hmoved) (convert_ok.mp hcarried)
    rw [← hentry] at hmoves hreleased hsame
    refine Or.inr (.intro hmoves hreleased hsame hacquired hsame' ?_)
    rw [lotsAt_putLots, lotsAt_putLots]

theorem applyCorporateAction_ok {action : CorporateAction} (hv : e.validateStructure = .ok ())
    (hk : e.kind = .corporateAction action)
    (h : LotBook.applyCorporateAction e action settlement rules b = (.ok (), b')) : Applied e b b' := by
  cases action with
  | partialRedemption terms allocation => exact applyAmortisation_ok hk h
  | redemption terms =>
    obtain ⟨-, h⟩ := requireWholePosition_ok h
    exact applied_of_dispose (redemption_positive hv hk) (fun k => by simp [Event.declaredQuantity, hk, heldOn]) h
  | conversion terms => exact .converted hk (applyConversion_ok h)

theorem applyOfferExercise_ok {action : OfferExerciseAction} (hv : e.validateStructure = .ok ())
    (hk : e.kind = .offerExercise action)
    (h : LotBook.applyOfferExercise e action settlement rules b = (.ok (), b')) : Applied e b b' := by
  cases action with
  | submitted | cancelled =>
    obtain ⟨-, rfl⟩ := Mut.pure_ok.mp h
    exact .idle (fun k => by simp [Event.declaredQuantity, hk]) rfl
  | settled terms =>
    obtain ⟨proceeds, -, h⟩ := Mut.lift_bind_ok.mp h
    obtain ⟨proceeds', -, h⟩ := Mut.lift_bind_ok.mp h
    exact applied_of_dispose (settled_positive hv hk) (fun k => by simp [Event.declaredQuantity, hk, heldOn]) h

/-- The inversion of a step: a valid event that the book accepts did one of these. -/
theorem applied_of_apply (hv : e.validateStructure = .ok ()) (h : LotBook.apply e rules b = (.ok (), b')) :
    Applied e b b' := by
  unfold LotBook.apply at h
  rw [Mut.get_bind] at h
  cases hk : e.kind with
  | trade terms =>
    rw [hk] at h
    exact applyTrade_ok hk (trade_positive hv hk) h
  | openingPosition instrument quantity costBasis assertions =>
    rw [hk] at h
    exact restore_ok hk (openingPosition_positive hv hk) h
  | income instrument gross kind =>
    rw [hk] at h
    cases instrument with
    | none =>
      obtain ⟨-, rfl⟩ := Mut.pure_ok.mp h
      exact .idle (fun k => by simp [Event.declaredQuantity, hk]) rfl
    | some instrument => exact applyIncome_ok hk h
  | corporateAction action =>
    rw [hk] at h
    exact applyCorporateAction_ok hv hk h
  | offerExercise action =>
    rw [hk] at h
    exact applyOfferExercise_ok hv hk h
  | _ =>
    rw [hk] at h
    obtain ⟨-, rfl⟩ := Mut.pure_ok.mp h
    exact .idle (fun k => by simp [Event.declaredQuantity, hk]) rfl

end Inversion

/-! ### Runs -/

/-- A valid event that the book accepts. -/
def Accepts (rules : RuleRegistry) (b : LotBook) (e : Event) (b' : LotBook) : Prop :=
  e.validateStructure = .ok () ∧ LotBook.apply e rules b = (.ok (), b')

theorem Accepts.applied {rules : RuleRegistry} {b b' : LotBook} {e : Event} (h : Accepts rules b e b') :
    Applied e b b' :=
  applied_of_apply h.1 h.2

theorem Accepts.converts {rules : RuleRegistry} {b b' : LotBook} {e : Event} (h : Accepts rules b e b')
    {terms : Conversion} (hk : e.kind = .corporateAction (.conversion terms)) : Converts e terms b b' := by
  have happly := h.2
  unfold LotBook.apply at happly
  rw [Mut.get_bind, hk] at happly
  exact applyConversion_ok happly

@[simp] theorem lotsAt_new (version : Nat) (key : LotKey) : (LotBook.new version).lotsAt key = .empty := by
  simp [LotBook.lotsAt, LotBook.new]

/-- The rule for a property of single entries over a conversion: the predecessor keeps it without its lots,
    the successor keeps it with the moved ones. -/
theorem HandedOver.keeps {P : InstrumentLots → Prop} {terms : Conversion} {source target : LotKey}
    {before after : LotKey → InstrumentLots} (h : HandedOver terms source target before after)
    (hb : ∀ key, P (before key))
    (hgive : ∀ {init moved last carried released l}, Moved terms (before source).lots init moved last carried →
      accumulate (before source).releasedBasis carried = .ok released →
      Same { before source with lots := [], releasedBasis := some released } l → P l)
    (htake : ∀ {init moved last carried acquired m l}, Moved terms (before source).lots init moved last carried →
      P m → accumulate m.acquiredBasis carried = .ok acquired →
      Same { m with acquiredBasis := some acquired, lots := m.lots ++ moved } l → P l) :
    ∀ key, P (after key) := by
  obtain ⟨hmoved, hreleased, hsource, hacquired, htarget, rfl⟩ := h
  have hmid : ∀ key, P (Function.update before source _ key) :=
    (Function.forall_update_iff before fun _ l => P l).mpr ⟨hgive hmoved hreleased hsource, fun key _ => hb key⟩
  exact (Function.forall_update_iff _ fun _ l => P l).mpr
    ⟨htake hmoved (hmid target) hacquired htarget, fun key _ => hmid key⟩

/-- The rule for a property of single entries over a step. -/
theorem Applied.keeps {P : InstrumentLots → Prop} {e : Event} {b b' : LotBook} (h : Applied e b b')
    (hb : ∀ key, P (b.lotsAt key))
    (htouched : ∀ {key l' q}, Touched e key (b.lotsAt key) l' q → P l')
    (hconverted : ∀ {terms}, e.kind = .corporateAction (.conversion terms) →
      HandedOver terms ⟨e.account, terms.predecessor⟩ ⟨e.account, terms.successor⟩ b.lotsAt b'.lotsAt →
      ∀ key, P (b'.lotsAt key)) :
    ∀ key, P (b'.lotsAt key) := by
  rcases h with ⟨-, hlots⟩ | ⟨-, hl, hlots⟩ | ⟨hk, -, ⟨-, hlots⟩ | hover⟩
  · rw [hlots]
    exact hb
  · rw [hlots]
    exact (Function.forall_update_iff _ fun _ l => P l).mpr ⟨htouched hl, fun key _ => hb key⟩
  · rw [hlots]
    exact hb
  · exact hconverted hk hover

theorem accepts_of_ok {rules : RuleRegistry} {b : LotBook} {e : Event} (hv : e.validateStructure = .ok ())
    (h : (LotBook.apply e rules b).1 = .ok ()) : Accepts rules b e (LotBook.apply e rules b).2 :=
  ⟨hv, Prod.ext h rfl⟩

theorem run_of_foldlM {rules : RuleRegistry} {b b' : LotBook} {es : List Event}
    (hv : ∀ e ∈ es, e.validateStructure = .ok ())
    (h : es.foldlM (fun b e => Mut.onCopy (LotBook.apply e rules) b) b = .ok b') :
    Runs.Run (Accepts rules) b es b' :=
  (Runs.foldlM_ok.mp h).map id fun he hstep => ⟨hv _ he, Mut.onCopy_ok.mp hstep⟩

/-- A run that is computed: valid events, all accepted, and what is read off the book at the end. -/
theorem exists_run {α : Type} (rules : RuleRegistry) (b : LotBook) (es : List Event) (read : LotBook → α) {a : α}
    (hv : ∀ e ∈ es, e.validateStructure = .ok ())
    (h : (es.foldlM (fun b e => Mut.onCopy (LotBook.apply e rules) b) b).map read = .ok a) :
    ∃ b', Runs.Run (Accepts rules) b es b' ∧ read b' = a := by
  cases hfold : es.foldlM (fun b e => Mut.onCopy (LotBook.apply e rules) b) b with
  | error failure =>
    rw [hfold] at h
    cases h
  | ok b' =>
    rw [hfold] at h
    cases h
    exact ⟨b', run_of_foldlM hv hfold, rfl⟩

/-- The same in two stretches, with what is read off the book after each. -/
theorem exists_runs {α β : Type} (rules : RuleRegistry) (b : LotBook) (es es' : List Event) (read₁ : LotBook → α)
    (read₂ : LotBook → β) {a₁ : α} {a₂ : β} (hv : ∀ e ∈ es ++ es', e.validateStructure = .ok ())
    (h₁ : (es.foldlM (fun b e => Mut.onCopy (LotBook.apply e rules) b) b).map read₁ = .ok a₁)
    (h₂ : ((es ++ es').foldlM (fun b e => Mut.onCopy (LotBook.apply e rules) b) b).map read₂ = .ok a₂) :
    ∃ b₁ b₂, Runs.Run (Accepts rules) b es b₁ ∧ Runs.Run (Accepts rules) b₁ es' b₂ ∧ read₁ b₁ = a₁ ∧ read₂ b₂ = a₂ := by
  rw [List.foldlM_append] at h₂
  cases hfold : es.foldlM (fun b e => Mut.onCopy (LotBook.apply e rules) b) b with
  | error failure =>
    rw [hfold] at h₁
    cases h₁
  | ok b₁ =>
    rw [hfold] at h₁ h₂
    cases h₁
    obtain ⟨b₂, hrun, hread⟩ := exists_run rules b₁ es' read₂ (fun e he => hv e (List.mem_append_right _ he)) h₂
    exact ⟨b₁, b₂, run_of_foldlM (fun e he => hv e (List.mem_append_left _ he)) hfold, hrun, rfl, hread⟩

/-! ### The book inside the projection -/

section
variable {H : Hashing} {ctx : ProjectionContext} {state state' : LedgerState} {e : Event} {es : List Event}

/-- An event that the projection applies was applied to the balances and accepted by the book. -/
theorem applyEvent_ok (h : applyEvent H ctx state e = .ok state') :
    state.balances.apply e = .ok state'.balances ∧ LotBook.apply e ctx.rules state.book = (.ok (), state'.book) := by
  obtain ⟨balances, hbalances, h⟩ := bind_ok.mp h
  obtain ⟨book, hbook, h⟩ := bind_ok.mp h
  obtain ⟨flows, -, h⟩ := bind_ok.mp h
  obtain ⟨income, -, h⟩ := bind_ok.mp h
  cases h
  exact ⟨convert_ok.mp hbalances, Mut.onCopy_ok.mp (reraise_ok.mp hbook)⟩

theorem book_run (hv : ∀ e ∈ es, e.validateStructure = .ok ())
    (h : es.foldlM (applyEvent H ctx) state = .ok state') :
    Runs.Run (Accepts ctx.rules) state.book es state'.book :=
  (Runs.foldlM_ok.mp h).map LedgerState.book fun he hstep => ⟨hv _ he, (applyEvent_ok hstep).2⟩

/-- A fold of the projection that is computed, with what is read off the state at the end. -/
theorem exists_state {α : Type} (es : List Event) (read : LedgerState → α) {a : α}
    (h : (es.foldlM (applyEvent .transparent oneAccount) (.new (.new 1))).toOption.map read = some a) :
    ∃ state, es.foldlM (applyEvent .transparent oneAccount) (.new (.new 1)) = .ok state ∧ read state = a := by
  cases hfold : es.foldlM (applyEvent .transparent oneAccount) (.new (.new 1)) with
  | error failure =>
    rw [hfold] at h
    cases h
  | ok state =>
    rw [hfold] at h
    exact ⟨state, rfl, Option.some.inj h⟩

end

/-! ### Events of one account -/

/-- An opening position of an instrument on the first account. -/
def openingOf (id : EventId) (instrument : InstrumentId) (quantity : Quantity) (costBasis : Option Money) : Event :=
  eventWith id ⟨1⟩ ⟨0⟩ id.uuid (.openingPosition instrument quantity costBasis {})
    [.security ⟨1⟩ ⟨1⟩ instrument quantity]

/-- A sale on the first account, with the quantity that leaves. -/
def saleOf (id : EventId) (instrument : InstrumentId) (quantity leaving : Quantity) (gross : Money) : Event :=
  eventWith id ⟨1⟩ ⟨0⟩ id.uuid (.trade ⟨.sell, instrument, quantity, gross, none, none, none, none⟩)
    [.cash ⟨1⟩ gross, .security ⟨1⟩ ⟨1⟩ instrument leaving]

/-- A conversion of the first instrument into the second one, with the quantity that leaves. -/
def conversionOf (id : EventId) (ratio quantityIn leaving quantityOut : Dec) (fractional : FractionalTreatment) : Event :=
  eventWith id ⟨1⟩ ⟨0⟩ id.uuid
    (.corporateAction (.conversion
      ⟨⟨1⟩, ⟨2⟩, ⟨1⟩, ratio, quantityIn, quantityOut, fractional, none, ⟨0⟩, none, none, .carryOver⟩))
    [.security ⟨1⟩ ⟨1⟩ ⟨1⟩ leaving, .security ⟨1⟩ ⟨1⟩ ⟨2⟩ quantityOut]

/-- A partial redemption on the first account. -/
def amortisationOf (id : EventId) (instrument : InstrumentId) (quantity : Quantity) (compensation : Money)
    (allocation : BasisAllocation) : Event :=
  eventWith id ⟨1⟩ ⟨0⟩ id.uuid
    (.corporateAction (.partialRedemption
      ⟨instrument, ⟨1⟩, quantity, ⟨Dec.one, compensation.currency⟩, compensation, ⟨0⟩, none, none⟩ allocation))
    [.principal ⟨1⟩ instrument compensation]

/-- Ten units, converted one to two. -/
def doubled : List Event :=
  [openingOf ⟨1⟩ ⟨1⟩ (.ofInt64 10) (some ⟨.new 1000, .rub⟩),
    conversionOf ⟨2⟩ (.ofInt64 2) (.ofInt64 10) (.ofInt64 (-10)) (.ofInt64 20)
      .notApplicable]

end LotSteps
end Iaam
