import Iaam.Projection.Lots
import Iaam.Theorems.Disposal

/-! What an operation on one entry of the lot book can do.

Every operation that succeeds is inverted once, down to the fields the invariants speak about: the quantities,
the costs, the totals and the marks of an entry. -/

namespace Iaam
namespace LotSteps
open Outcome Disposal InstrumentLots

/-! ### What an entry holds -/

/-- The quantity of an entry: the lots and the quantity without cost. -/
def held (l : InstrumentLots) : ℚ := l.unpriced.val + quantitySum l.lots

theorem quantity_ok {l : InstrumentLots} {q : Quantity} (h : l.quantity = .ok q) : q.val = held l := by
  suffices hfold : ∀ (lots : List Lot) (acc q : Quantity),
      lots.foldlM (fun acc lot => Dec.checkedAdd acc lot.quantity) acc = .ok q → q.val = acc.val + quantitySum lots from
    hfold l.lots l.unpriced q h
  intro lots
  induction lots with
  | nil =>
    rintro acc q ⟨⟩
    simp
  | cons lot lots ih =>
    intro acc q h
    obtain ⟨acc', hadd, h⟩ := bind_ok.mp h
    rw [ih acc' q h, Dec.checkedAdd_ok.mp hadd, quantitySum_cons, add_assoc]

/-- What a lot is worth: its quantity and its cost. -/
def worth (lot : Lot) : Quantity × Money := (lot.quantity, lot.costBasis)

section Worth
variable {lots lots' : List Lot}

theorem mem_of_worth (h : lots'.map worth = lots.map worth) {lot : Lot} (hlot : lot ∈ lots') :
    ∃ x ∈ lots, x.quantity = lot.quantity ∧ x.costBasis = lot.costBasis := by
  have hmem : worth lot ∈ lots.map worth := h ▸ List.mem_map_of_mem hlot
  obtain ⟨x, hx, heq⟩ := List.mem_map.mp hmem
  exact ⟨x, hx, congrArg Prod.fst heq, congrArg Prod.snd heq⟩

theorem quantitySum_of_worth (h : lots'.map worth = lots.map worth) : quantitySum lots' = quantitySum lots := by
  have hsum := congrArg (fun xs : List (Quantity × Money) => (xs.map fun x => x.1.val).sum) h
  simpa [quantitySum, worth, Function.comp_def] using hsum

theorem basisSum_of_worth (h : lots'.map worth = lots.map worth) : basisSum lots' = basisSum lots := by
  have hsum := congrArg (fun xs : List (Quantity × Money) => (xs.map fun x => x.2.amount.raw).sum) h
  simpa [basisSum, worth, Function.comp_def] using hsum

theorem positive_of_worth (h : lots'.map worth = lots.map worth) (hp : Positive lots) : Positive lots' := by
  intro lot hlot
  obtain ⟨x, hx, hq, -⟩ := mem_of_worth h hlot
  exact hq ▸ hp x hx

theorem inCurrency_of_worth {c : CurrencyCode} (h : lots'.map worth = lots.map worth) (hc : InCurrency c lots) :
    InCurrency c lots' := by
  intro lot hlot
  obtain ⟨x, hx, -, hb⟩ := mem_of_worth h hlot
  exact hb ▸ hc x hx

end Worth

/-- The two entries agree on the quantities, the costs, the totals and the marks: all but the income and the
    histories of acquisition and ownership. -/
structure Same (l l' : InstrumentLots) : Prop where
  unpriced : l'.unpriced = l.unpriced
  lots : l'.lots.map worth = l.lots.map worth
  realized : l'.realized = l.realized
  acquiredBasis : l'.acquiredBasis = l.acquiredBasis
  releasedBasis : l'.releasedBasis = l.releasedBasis
  gap : l'.gap = l.gap
  incomeKindUnknown : l'.incomeKindUnknown = l.incomeKindUnknown

theorem Same.refl (l : InstrumentLots) : Same l l := ⟨rfl, rfl, rfl, rfl, rfl, rfl, rfl⟩

theorem Same.trans {l m n : InstrumentLots} (h : Same l m) (h' : Same m n) : Same l n :=
  ⟨h'.unpriced.trans h.unpriced, h'.lots.trans h.lots, h'.realized.trans h.realized,
    h'.acquiredBasis.trans h.acquiredBasis, h'.releasedBasis.trans h.releasedBasis, h'.gap.trans h.gap,
    h'.incomeKindUnknown.trans h.incomeKindUnknown⟩

instance : Std.Refl Same := ⟨Same.refl⟩
instance : IsTrans InstrumentLots Same := ⟨fun _ _ _ => Same.trans⟩

theorem Same.held {l l' : InstrumentLots} (h : Same l l') : held l' = held l := by
  unfold LotSteps.held
  rw [h.unpriced, quantitySum_of_worth h.lots]

/-! ### A payment -/

theorem allot_worth (amount : Money) (quantity : Dec) (lots : List Lot) :
    (allot amount quantity lots).2.map worth = lots.map worth := by
  induction lots generalizing amount quantity with
  | nil => rfl
  | cons lot lots ih =>
    unfold allot
    dsimp only
    split
    · exact congrArg (worth lot :: ·) (ih amount quantity)
    · split
      · rfl
      · split
        · rfl
        · exact congrArg (worth lot :: ·) (ih _ _)

/-- Adding to a total of income leaves the holding alone, whether it succeeds or not. -/
theorem keeps_addTotal {total : InstrumentLots → Option Money} {put : Money → InstrumentLots → InstrumentLots}
    (hput : ∀ sum l, Same l (put sum l)) (amount : Money) : Mut.Keeps Same (addTotal total put amount) :=
  .bind Mut.keeps_get fun _ =>
    .bind (Mut.keeps_lift _) fun sum => Mut.keeps_modify (hput sum)

theorem keeps_receiveUnpriced (amount : Money) (total : Dec) : Mut.Keeps Same (receiveUnpriced amount total) := by
  refine .bind Mut.keeps_get fun l => ?_
  split
  · exact Mut.keeps_pure _
  · refine .bind (Mut.keeps_lift _) fun share => ?_
    refine .bind (keeps_addTotal ?_ share) fun _ => ?_
    · exact fun _ _ => ⟨rfl, rfl, rfl, rfl, rfl, rfl, rfl⟩
    · exact Mut.keeps_lift _

/-- A payment leaves the holding alone, whether it succeeds or not. -/
theorem keeps_addReceived (amount : Money) : Mut.Keeps Same (addReceived amount) := by
  refine .bind Mut.keeps_get fun l => ?_
  refine .bind (Mut.keeps_lift _) fun total => ?_
  split
  · refine keeps_addTotal ?_ amount
    exact fun _ _ => ⟨rfl, rfl, rfl, rfl, rfl, rfl, rfl⟩
  · refine .bind (keeps_receiveUnpriced amount total) fun rest => ?_
    intro l
    exact ⟨rfl, allot_worth _ _ _, rfl, rfl, rfl, rfl, rfl⟩

/-! ### Acquisition and restoration -/

theorem addTotal_ok {total : InstrumentLots → Option Money} {put : Money → InstrumentLots → InstrumentLots}
    {amount : Money} {l l' : InstrumentLots} : addTotal total put amount l = (.ok (), l') ↔
      ∃ sum, accumulate (total l) amount = .ok sum ∧ l' = put sum l := by
  unfold addTotal
  rw [Mut.get_bind, Mut.lift_bind_ok]
  simp only [convert_ok, Mut.modify_ok]

/-- A lot came in, at the back of the queue or at the front. -/
structure Acquired (l : InstrumentLots) (lot : Lot) (l' : InstrumentLots) : Prop where
  positive : 0 < lot.quantity.val
  entry : ∃ sum lots, accumulate l.acquiredBasis lot.costBasis = .ok sum ∧
    (lots = l.lots ++ [lot] ∨ lots = lot :: l.lots) ∧ Same { l with acquiredBasis := some sum, lots } l'

theorem acquire_ok {lot : Lot} {settlement : SettlementKnowledge} {l l' : InstrumentLots} (hq : 0 < lot.quantity.val)
    (h : acquire lot settlement l = (.ok (), l')) : Acquired l lot l' := by
  obtain ⟨m, hadd, h⟩ := Mut.seq_ok.mp h
  obtain ⟨sum, hsum, rfl⟩ := addTotal_ok.mp hadd
  cases Mut.modify_ok.mp h
  exact ⟨hq, sum, _, hsum, Or.inl rfl, ⟨rfl, rfl, rfl, rfl, rfl, rfl, rfl⟩⟩

theorem restorePriced_ok {lot : Lot} {settlement : SettlementKnowledge} {l l' : InstrumentLots}
    (hq : 0 < lot.quantity.val) (h : restorePriced lot settlement l = (.ok (), l')) : Acquired l lot l' := by
  obtain ⟨m, hadd, h⟩ := Mut.seq_ok.mp h
  obtain ⟨sum, hsum, rfl⟩ := addTotal_ok.mp hadd
  cases Mut.modify_ok.mp h
  exact ⟨hq, sum, _, hsum, Or.inr rfl, ⟨rfl, rfl, rfl, rfl, rfl, rfl, rfl⟩⟩

/-- A quantity without cost came in. -/
structure Restored (l : InstrumentLots) (quantity : Quantity) (l' : InstrumentLots) : Prop where
  positive : 0 < quantity.val
  entry : ∃ unpriced : Quantity, unpriced.val = l.unpriced.val + quantity.val ∧
    Same { l with unpriced, gap := some .restoredWithoutBasis } l'

theorem restoreUnpriced_ok {quantity : Quantity} {settlement : SettlementKnowledge} {l l' : InstrumentLots}
    (hq : 0 < quantity.val) (h : restoreUnpriced quantity settlement l = (.ok (), l')) : Restored l quantity l' := by
  obtain ⟨unpriced, hadd, h⟩ := Mut.lift_bind_ok.mp h
  cases Mut.modify_ok.mp h
  exact ⟨hq, unpriced, Dec.checkedAdd_ok.mp (convert_ok.mp hadd), ⟨rfl, rfl, rfl, rfl, rfl, rfl, rfl⟩⟩

/-! ### Disposal -/

/-- What a disposal takes from the quantity without cost, with what is left to take from the lots. -/
inductive Taken (l : InstrumentLots) (quantity left : Dec) : InstrumentLots → Prop
  | nothing : (min l.unpriced quantity).val = 0 → left.val = quantity.val → Taken l quantity left l
  | part {unpriced : Quantity} : (min l.unpriced quantity).val ≠ 0 →
      unpriced.val = l.unpriced.val - (min l.unpriced quantity).val →
      left.val = quantity.val - (min l.unpriced quantity).val →
      Taken l quantity left { l with unpriced, realized := none, gap := some .restoredWithoutBasis }

theorem takeUnpriced_ok {quantity : Quantity} {left : Dec} {l l' : InstrumentLots}
    (h : takeUnpriced quantity l = (.ok left, l')) : Taken l quantity left l' := by
  unfold takeUnpriced at h
  rw [Mut.get_bind] at h
  dsimp only at h
  split at h
  · next hz =>
    obtain ⟨hleft, rfl⟩ := Mut.lift_ok.mp h
    have hz := Dec.isZero_iff.mp hz
    have hleft := Dec.checkedSub_ok.mp (convert_ok.mp hleft)
    exact .nothing hz (by rw [hleft, hz, sub_zero])
  · next hz =>
    obtain ⟨unpriced, hsub, h⟩ := Mut.lift_bind_ok.mp h
    rw [Mut.modify_bind] at h
    obtain ⟨hleft, rfl⟩ := Mut.lift_ok.mp h
    exact .part (fun h0 => hz (Dec.isZero_iff.mpr h0)) (Dec.checkedSub_ok.mp (convert_ok.mp hsub))
      (Dec.checkedSub_ok.mp (convert_ok.mp hleft))

theorem releaseLots_ok {rule : LotDisposalRule} {left : Dec} {r : DisposalResult} {l l' : InstrumentLots}
    (h : releaseLots rule left l = (.ok r, l')) : Disposes l.lots left r ∧
      ∃ sum, accumulate l.releasedBasis r.basisReleased = .ok sum ∧
        l' = { l with lots := r.remaining, releasedBasis := some sum } := by
  obtain ⟨result, hrule, h⟩ := Mut.lift_bind_ok.mp h
  rw [Mut.modify_bind] at h
  obtain ⟨_, hadd, h⟩ := Mut.seq_ok.mp h
  obtain ⟨sum, hsum, rfl⟩ := addTotal_ok.mp hadd
  obtain ⟨rfl, rfl⟩ := Mut.pure_ok.mp h
  exact ⟨apply_ok (reraise_ok.mp hrule), sum, hsum, rfl⟩

/-- A result is added only where there is no gap. -/
theorem realise_ok {proceeds released : Money} {l l' : InstrumentLots}
    (h : realise proceeds released l = (.ok (), l')) :
    ∃ realized, (l.gap ≠ none → realized = l.realized) ∧ l' = { l with realized } := by
  unfold realise at h
  rw [Mut.get_bind] at h
  split at h
  · obtain ⟨-, rfl⟩ := Mut.pure_ok.mp h
    exact ⟨_, fun _ => rfl, rfl⟩
  · next hgap =>
    obtain ⟨result, -, h⟩ := Mut.lift_bind_ok.mp h
    obtain ⟨sum, -, rfl⟩ := addTotal_ok.mp h
    exact ⟨some sum, fun hne => absurd (Option.isSome_iff_ne_none.mpr hne) hgap, rfl⟩

/-- What a disposal leaves of an entry. -/
inductive Disposed (l : InstrumentLots) (quantity : Quantity) (l' : InstrumentLots) : Prop
  | unpriced {m : InstrumentLots} {left : Dec} : Taken l quantity left m → left.val = 0 → Same m l' →
      Disposed l quantity l'
  | lots {m : InstrumentLots} {left : Dec} {r : DisposalResult} {sum : Money} {realized : Option Money} :
      Taken l quantity left m → Disposes m.lots left r → accumulate m.releasedBasis r.basisReleased = .ok sum →
      (m.gap ≠ none → realized = m.realized) →
      Same { m with lots := r.remaining, releasedBasis := some sum, realized } l' → Disposed l quantity l'

/-! ### Amortisation -/

theorem amortiseLots_ok {rule : AmortisationRule} {share : ReturnedShare} {total returned : Money}
    {lots lots' : List Lot} (h : amortiseLots rule share total lots = .ok (lots', returned)) :
    lots'.map Lot.quantity = lots.map Lot.quantity ∧
      basisSum lots' + returned.amount.raw = basisSum lots + total.amount.raw ∧
      returned.currency = total.currency ∧ InCurrency total.currency lots ∧ InCurrency total.currency lots' := by
  induction lots generalizing total lots' with
  | nil =>
    cases h
    exact ⟨rfl, rfl, rfl, fun _ hx => (nomatch hx), fun _ hx => (nomatch hx)⟩
  | cons lot lots ih =>
    obtain ⟨part, hpart, h⟩ := bind_ok.mp h
    obtain ⟨costBasis, hcost, h⟩ := bind_ok.mp h
    obtain ⟨total', htotal, h⟩ := bind_ok.mp h
    obtain ⟨⟨rest, _⟩, hrest, h⟩ := bind_ok.mp h
    cases h
    obtain ⟨hq, hsum, hcur, hin, hin'⟩ := ih hrest
    obtain ⟨hcc, hcraw, hccur⟩ := Money.trySub_ok.mp (convert_ok.mp hcost)
    obtain ⟨htc, htraw, htcur⟩ := Money.tryAdd_ok.mp (convert_ok.mp htotal)
    have hlot : lot.costBasis.currency = total.currency := hcc.trans htc.symm
    refine ⟨by simp [hq], ?_, hcur.trans htcur, fun x hx => ?_, fun x hx => ?_⟩
    · rw [basisSum_cons, basisSum_cons]
      change costBasis.amount.raw + basisSum rest + returned.amount.raw = _
      rw [hcraw, add_assoc, hsum, htraw]
      ring
    · rcases List.mem_cons.mp hx with rfl | hx
      · exact hlot
      · exact (hin x hx).trans htcur
    · rcases List.mem_cons.mp hx with rfl | hx
      · exact hccur.trans hlot
      · exact (hin' x hx).trans htcur

/-- What an amortisation with a known share leaves of an entry. -/
structure Amortised (l l' : InstrumentLots) (returned : Money) (lots : List Lot)
    (released realized : Option Money) : Prop where
  quantity : lots.map Lot.quantity = l.lots.map Lot.quantity
  basis : basisSum lots + returned.amount.raw = basisSum l.lots
  before : InCurrency returned.currency l.lots
  after : InCurrency returned.currency lots
  release : (returned.amount.raw = 0 ∧ released = l.releasedBasis) ∨
    (returned.amount.raw ≠ 0 ∧ ∃ sum, accumulate l.releasedBasis returned = .ok sum ∧ released = some sum)
  result : l.gap ≠ none → realized = l.realized
  entry : Same { l with lots, releasedBasis := released, realized } l'

theorem addRealised_ok {amount : Money} {l l' : InstrumentLots} (h : addRealised amount l = (.ok (), l')) :
    ∃ realized, (l.gap ≠ none → realized = l.realized) ∧ l' = { l with realized } := by
  unfold addRealised at h
  rw [Mut.get_bind] at h
  split at h
  · obtain ⟨-, rfl⟩ := Mut.pure_ok.mp h
    exact ⟨_, fun _ => rfl, rfl⟩
  · next hgap =>
    obtain ⟨sum, -, rfl⟩ := addTotal_ok.mp h
    exact ⟨some sum, fun hne => absurd (Option.isSome_iff_ne_none.mpr hne) hgap, rfl⟩

/-- What follows the return of cost: the payment, the released cost and the result. -/
theorem amortise_rest {returned compensation : Money} {m l' : InstrumentLots}
    (h : (addReceived compensation >>= fun _ =>
      addReturned returned >>= fun _ =>
      Mut.lift (convert .money (compensation.trySub returned)) >>= addRealised) m = (.ok (), l')) :
    ∃ released realized, ((returned.amount.raw = 0 ∧ released = m.releasedBasis) ∨
      (returned.amount.raw ≠ 0 ∧ ∃ sum, accumulate m.releasedBasis returned = .ok sum ∧ released = some sum)) ∧
      (m.gap ≠ none → realized = m.realized) ∧ Same { m with releasedBasis := released, realized } l' := by
  obtain ⟨m₁, hpaid, h⟩ := Mut.seq_ok.mp h
  have hsame := (keeps_addReceived compensation).of_run hpaid
  obtain ⟨m₂, hreleased, h⟩ := Mut.seq_ok.mp h
  obtain ⟨result, -, h⟩ := Mut.lift_bind_ok.mp h
  obtain ⟨realized, hrealized, rfl⟩ := addRealised_ok h
  unfold addReturned at hreleased
  split at hreleased
  · next hz =>
    obtain ⟨-, rfl⟩ := Mut.pure_ok.mp hreleased
    exact ⟨m.releasedBasis, realized, Or.inl ⟨Money.isZero_iff.mp hz, rfl⟩,
      fun hgap => hsame.realized ▸ hrealized (hsame.gap ▸ hgap), { hsame with realized := rfl }⟩
  · next hz =>
    obtain ⟨sum, hsum, rfl⟩ := addTotal_ok.mp hreleased
    rw [hsame.releasedBasis] at hsum
    exact ⟨some sum, realized, Or.inr ⟨fun h0 => hz (Money.isZero_iff.mpr h0), sum, hsum, rfl⟩,
      fun hgap => hsame.realized ▸ hrealized (hsame.gap ▸ hgap),
      { hsame with realized := rfl, releasedBasis := rfl }⟩

theorem amortise_known_ok {rule : AmortisationRule} {share : ReturnedShare} {evidence : AllocationEvidence}
    {compensation : Money} {l l' : InstrumentLots}
    (h : amortise rule (.known share evidence) compensation l = (.ok (), l')) :
    ∃ returned lots released realized, Amortised l l' returned lots released realized := by
  obtain ⟨returned, m, hreturned, h⟩ := Mut.bind_ok.mp h
  obtain ⟨⟨lots, total⟩, hlots, hreturned⟩ := Mut.lift_bind_ok.mp hreturned
  obtain ⟨rfl, rfl⟩ : returned = total ∧ m = { l with lots } := Mut.pure_ok.mp hreturned
  obtain ⟨hq, hsum, hcur, hin, hin'⟩ := amortiseLots_ok hlots
  obtain ⟨released, realized, hreleased, hrealized, hsame⟩ := amortise_rest h
  exact ⟨returned, lots, released, realized, hq, by simpa using hsum, hcur ▸ hin, hcur ▸ hin', hreleased, hrealized,
    hsame⟩

theorem amortise_unknown_ok {rule : AmortisationRule} {why : AllocationGap} {compensation : Money}
    {l l' : InstrumentLots} (h : amortise rule (.unknown why) compensation l = (.ok (), l')) :
    Same (markBasisGap .amortisationAllocationUnknown l) l' := by
  obtain ⟨returned, m, hreturned, h⟩ := Mut.bind_ok.mp h
  obtain ⟨rfl, rfl⟩ : returned = Money.zero compensation.currency ∧
      m = markBasisGap .amortisationAllocationUnknown l := Mut.pure_ok.mp hreturned
  obtain ⟨released, realized, hreleased, hrealized, hsame⟩ := amortise_rest h
  rcases hreleased with ⟨-, rfl⟩ | ⟨hne, -⟩
  · rw [hrealized (by simp [markBasisGap])] at hsame
    exact hsame
  · exact absurd rfl hne

/-! ### Conversion -/

/-- The moved lots have the costs of the lots they come from; all but the last one are scaled by the ratio,
    and the last one has the rest of the declared quantity. -/
theorem convertLots_ok {terms : Conversion} {assigned : Dec} {init moved : List Lot} {last : Lot}
    (h : convertLots terms assigned (init ++ [last]) = .ok moved) :
    moved.map (fun lot => (lot.quantity.val, lot.costBasis)) =
      init.map (fun lot => (lot.quantity.val * terms.ratio.val, lot.costBasis)) ++
        [(terms.quantityOut.val - assigned.val - quantitySum init * terms.ratio.val, last.costBasis)] := by
  induction init generalizing assigned moved with
  | nil =>
    obtain ⟨quantity, hq, h⟩ := bind_ok.mp h
    obtain ⟨assigned', -, h⟩ := bind_ok.mp h
    obtain ⟨rest, hrest, h⟩ := bind_ok.mp h
    cases hrest
    cases h
    have hq : quantity.val = terms.quantityOut.val - assigned.val := Dec.checkedSub_ok.mp hq
    simp [convertedLot, hq]
  | cons lot init ih =>
    rw [List.cons_append] at h
    obtain ⟨quantity, hq, h⟩ := bind_ok.mp h
    obtain ⟨assigned', ha, h⟩ := bind_ok.mp h
    obtain ⟨rest, hrest, h⟩ := bind_ok.mp h
    cases h
    unfold convertedQuantity at hq
    rw [if_neg (by simp)] at hq
    have hq : quantity.val = lot.quantity.val * terms.ratio.val := Dec.checkedMul_ok.mp hq
    have hlast : terms.quantityOut.val - assigned'.val - quantitySum init * terms.ratio.val =
        terms.quantityOut.val - assigned.val - quantitySum (lot :: init) * terms.ratio.val := by
      rw [Dec.checkedAdd_ok.mp ha, hq, quantitySum_cons]
      ring
    rw [List.map_cons, ih hrest, hlast, List.map_cons, List.cons_append]
    simp only [convertedLot, hq]

end LotSteps
end Iaam
