import Iaam.Projection.Invariants
import Iaam.Theorems.LotSteps

/-! Conservation of cost over runs of the book.

Every operation moves cost between three places, the acquired total, the lots and the released total, and it
moves whole minor units. The check of the invariants adds the lots up again in 64 bits, one after another. -/

namespace Iaam
namespace BasisConserved
open Outcome Disposal LotSteps Runs

/-! ### One entry -/

/-- What was acquired is what the lots still hold and what was released, all in one currency; before the first
    acquisition there is neither. -/
structure Conserved (l : InstrumentLots) : Prop where
  minor : Money.rawOr l.acquiredBasis = basisSum l.lots + Money.rawOr l.releasedBasis
  started : l.acquiredBasis = none → l.lots = [] ∧ l.releasedBasis = none
  lots : ∀ acquired, l.acquiredBasis = some acquired → InCurrency acquired.currency l.lots
  released : ∀ acquired r, l.acquiredBasis = some acquired → l.releasedBasis = some r →
    r.currency = acquired.currency

theorem conserved_empty : Conserved .empty :=
  ⟨rfl, fun _ => ⟨rfl, rfl⟩, fun _ h => (nomatch h), fun _ _ h => (nomatch h)⟩

section Entry
variable {l l' : InstrumentLots}

/-- Conservation reads the totals and the worth of the lots only. -/
theorem Conserved.congr (h : Conserved l) (ha : l'.acquiredBasis = l.acquiredBasis)
    (hlots : l'.lots.map worth = l.lots.map worth) (hr : l'.releasedBasis = l.releasedBasis) : Conserved l' where
  minor := by rw [ha, hr, basisSum_of_worth hlots, h.minor]
  started := by
    intro hnone
    obtain ⟨hnil, hreleased⟩ := h.started (ha ▸ hnone)
    rw [hnil, List.map_nil, List.map_eq_nil_iff] at hlots
    exact ⟨hlots, hr.trans hreleased⟩
  lots := fun acquired hacquired => inCurrency_of_worth hlots (h.lots acquired (ha ▸ hacquired))
  released := fun acquired r hacquired hreleased => h.released acquired r (ha ▸ hacquired) (hr ▸ hreleased)

theorem Conserved.same (h : Conserved l) (hs : Same l l') : Conserved l' :=
  h.congr hs.acquiredBasis hs.lots hs.releasedBasis

/-- An entry with lots has one currency. -/
theorem Conserved.currency {c : CurrencyCode} (h : Conserved l) (hne : l.lots ≠ []) (hc : InCurrency c l.lots) :
    ∃ acquired, l.acquiredBasis = some acquired ∧ acquired.currency = c := by
  cases ha : l.acquiredBasis with
  | none => exact absurd (h.started ha).1 hne
  | some acquired =>
    obtain ⟨lot, hlot⟩ := List.exists_mem_of_ne_nil _ hne
    exact ⟨acquired, rfl, (h.lots acquired ha lot hlot).symm.trans (hc lot hlot)⟩

/-- Cost comes in with its lots. -/
theorem Conserved.acquire {x sum : Money} {lots : List Lot} (h : Conserved l)
    (hsum : accumulate l.acquiredBasis x = .ok sum) (hbasis : basisSum lots = basisSum l.lots + x.amount.raw)
    (hlots : ∀ lot ∈ lots, lot ∈ l.lots ∨ lot.costBasis.currency = x.currency) :
    Conserved { l with acquiredBasis := some sum, lots } := by
  obtain ⟨hraw, hcur, htotal⟩ := accumulate_ok hsum
  refine ⟨?_, fun hnone => (nomatch hnone), ?_, ?_⟩
  · have hminor := h.minor
    simp only [Money.rawOr_some]
    linarith
  · rintro _ ⟨⟩ lot hlot
    rcases hlots lot hlot with hold | hnew
    · cases ha : l.acquiredBasis with
      | none =>
        rw [(h.started ha).1] at hold
        cases hold
      | some acquired => rw [h.lots acquired ha lot hold, htotal acquired ha, hcur]
    · exact hnew.trans hcur.symm
  · rintro _ r ⟨⟩ hr
    cases ha : l.acquiredBasis with
    | none =>
      rw [(h.started ha).2] at hr
      cases hr
    | some acquired => rw [h.released acquired r ha hr, htotal acquired ha, hcur]

/-- Cost leaves the lots and is released. -/
theorem Conserved.release {x sum : Money} {lots : List Lot} (h : Conserved l) (hne : l.lots ≠ [])
    (hsum : accumulate l.releasedBasis x = .ok sum) (hbasis : basisSum lots + x.amount.raw = basisSum l.lots)
    (hbefore : InCurrency x.currency l.lots) (hafter : InCurrency x.currency lots) :
    Conserved { l with lots, releasedBasis := some sum } := by
  obtain ⟨hraw, hcur, -⟩ := accumulate_ok hsum
  obtain ⟨acquired, ha, hx⟩ := h.currency hne hbefore
  refine ⟨?_, fun hnone => ?_, fun a ha' => ?_, fun a r ha' hr => ?_⟩
  · have hminor := h.minor
    simp only [Money.rawOr_some]
    linarith
  · rw [ha] at hnone
    cases hnone
  · rw [ha] at ha'
    cases ha'
    exact hx ▸ hafter
  · rw [ha] at ha'
    cases ha'
    cases hr
    rw [hcur, hx]

/-- Cost moves between the lots. -/
theorem Conserved.relot {lots : List Lot} {c : CurrencyCode} (h : Conserved l) (hnil : l.lots = [] → lots = [])
    (hbasis : basisSum lots = basisSum l.lots) (hbefore : InCurrency c l.lots) (hafter : InCurrency c lots) :
    Conserved { l with lots } := by
  refine ⟨by rw [h.minor, hbasis], fun hnone => ?_, fun a ha => ?_, h.released⟩
  · obtain ⟨hlots, hreleased⟩ := h.started hnone
    exact ⟨hnil hlots, hreleased⟩
  · by_cases hne : l.lots = []
    · rw [hnil hne]
      exact fun _ hx => (nomatch hx)
    · obtain ⟨acquired, ha', hc⟩ := h.currency hne hbefore
      rw [ha'] at ha
      cases ha
      exact hc ▸ hafter

theorem conserved_taken {m : InstrumentLots} {quantity left : Dec} (h : Taken l quantity left m) (hc : Conserved l) :
    Conserved m := by
  cases h with
  | nothing => exact hc
  | part => exact hc.congr rfl rfl rfl

theorem conserved_disposed {quantity : Quantity} (h : Disposed l quantity l') (hc : Conserved l) : Conserved l' := by
  cases h with
  | unpriced htaken _ hsame => exact (conserved_taken htaken hc).same hsame
  | lots htaken hdisposes hsum _ hsame =>
    have hm := conserved_taken htaken hc
    have hreleased := hm.release hdisposes.nonempty hsum hdisposes.basis hdisposes.currency hdisposes.remaining
    exact hreleased.congr hsame.acquiredBasis hsame.lots hsame.releasedBasis

theorem conserved_amortised {returned : Money} {lots : List Lot} {released realized : Option Money}
    (h : Amortised l l' returned lots released realized) (hc : Conserved l) : Conserved l' := by
  have hnil : l.lots = [] → lots = [] := fun hnil => by
    have hq := h.quantity
    rw [hnil, List.map_nil, List.map_eq_nil_iff] at hq
    exact hq
  suffices hentry : Conserved { l with lots, releasedBasis := released } from
    hentry.congr h.entry.acquiredBasis h.entry.lots h.entry.releasedBasis
  rcases h.release with ⟨hzero, rfl⟩ | ⟨hne, sum, hsum, rfl⟩
  · have hbasis := h.basis
    rw [hzero, add_zero] at hbasis
    exact hc.relot hnil hbasis h.before h.after
  · refine hc.release (fun hlots => hne ?_) hsum h.basis h.before h.after
    have hbasis := h.basis
    rw [hlots, hnil hlots] at hbasis
    simpa using hbasis

theorem conserved_touched {e : Event} {key : LotKey} {q : ℚ} (h : Touched e key l l' q) (hc : Conserved l) :
    Conserved l' := by
  cases h with
  | paid hsame => exact hc.same hsame
  | kindUnknown hsame | unallocated _ _ hsame => exact hc.congr hsame.acquiredBasis hsame.lots hsame.releasedBasis
  | acquired hacquired =>
    obtain ⟨-, sum, lots, hsum, hlots, hsame⟩ := hacquired
    refine (hc.acquire hsum ?_ fun x hx => ?_).same hsame
    · rcases hlots with rfl | rfl
      · simp
      · rw [basisSum_cons, add_comm]
    · rcases hlots with rfl | rfl
      · rcases List.mem_append.mp hx with hold | hnew
        · exact Or.inl hold
        · exact Or.inr (by rw [List.mem_singleton.mp hnew])
      · rcases List.mem_cons.mp hx with rfl | hold
        · exact Or.inr rfl
        · exact Or.inl hold
  | restored _ _ hrestored =>
    obtain ⟨-, unpriced, -, hsame⟩ := hrestored
    exact hc.congr hsame.acquiredBasis hsame.lots hsame.releasedBasis
  | disposed _ hdisposed => exact conserved_disposed hdisposed hc
  | amortised hamortised => exact conserved_amortised hamortised hc

end Entry

/-! ### Steps and runs -/

theorem moved_costs {terms : Conversion} {lots init moved : List Lot} {last : Lot} {carried : Money}
    (h : Moved terms lots init moved last carried) : moved.map Lot.costBasis = lots.map Lot.costBasis := by
  have hcosts := congrArg (List.map Prod.snd) h.worth
  rw [h.split]
  simpa [Function.comp_def] using hcosts

theorem basisSum_moved {terms : Conversion} {lots init moved : List Lot} {last : Lot} {carried : Money}
    (h : Moved terms lots init moved last carried) : basisSum moved = carried.amount.raw := by
  have hsum := congrArg (fun costs : List Money => (costs.map fun m => m.amount.raw).sum) (moved_costs h)
  rw [h.basis]
  simpa [basisSum, Function.comp_def] using hsum

theorem inCurrency_moved {terms : Conversion} {lots init moved : List Lot} {last : Lot} {carried : Money}
    (h : Moved terms lots init moved last carried) : InCurrency carried.currency moved := by
  intro lot hlot
  have hmem : lot.costBasis ∈ lots.map Lot.costBasis := moved_costs h ▸ List.mem_map_of_mem hlot
  obtain ⟨x, hx, heq⟩ := List.mem_map.mp hmem
  exact heq ▸ h.currency x hx

section
variable {rules : RuleRegistry} {b b' : LotBook} {e : Event} {es : List Event} {version : Nat}

theorem conserved_step (h : Accepts rules b e b') (hc : ∀ key, Conserved (b.lotsAt key)) (key : LotKey) :
    Conserved (b'.lotsAt key) := by
  refine h.applied.keeps hc (fun htouched => conserved_touched htouched (hc _)) (fun _ hover => ?_) key
  refine hover.keeps hc (fun hmoved hsum hsame => ?_) fun hmoved hm hsum hsame => ?_
  · refine ((hc _).release hover.nonempty hsum ?_ hmoved.currency (List.forall_mem_nil _)).same hsame
    rw [basisSum_nil, zero_add, hmoved.basis]
  · refine (hm.acquire hsum ?_ fun lot hlot => ?_).same hsame
    · rw [basisSum_append, basisSum_moved hmoved]
    · exact (List.mem_append.mp hlot).imp_right (inCurrency_moved hmoved lot)

theorem conserved_run (h : Run (Accepts rules) (.new version) es b) (key : LotKey) : Conserved (b.lotsAt key) := by
  refine h.keeps (P := fun b => ∀ key, Conserved (b.lotsAt key)) (fun hc hstep => conserved_step hstep hc)
    (fun key => ?_) key
  rw [lotsAt_new]
  exact conserved_empty

end

/-! ### The check -/

/-- The costs of the lots can be added up one after another in 64 bits. -/
def RunningSumsFit (lots : List Lot) : Prop := ∀ n, FitsI64 (basisSum (lots.take n))

theorem sum_costs_iff {lots : List Lot} {c : CurrencyCode} (hc : InCurrency c lots) :
    (∃ m, Money.sum (lots.map Lot.costBasis) c = .ok m) ↔ RunningSumsFit lots := by
  suffices hfold : ∀ (lots : List Lot) (acc : Money), InCurrency acc.currency lots →
      ((∃ m, (lots.map Lot.costBasis).foldlM Money.tryAdd acc = .ok m) ↔
        ∀ n, FitsI64 (acc.amount.raw + basisSum (lots.take n))) by
    simpa [Money.sum, RunningSumsFit] using hfold lots (Money.zero c) hc
  intro lots
  induction lots with
  | nil =>
    intro acc _
    refine ⟨fun _ n => ?_, fun _ => ⟨acc, rfl⟩⟩
    rw [List.take_nil, basisSum_nil, add_zero]
    exact acc.amount.fits
  | cons lot lots ih =>
    intro acc hc
    have hlot : acc.currency = lot.costBasis.currency := (hc lot List.mem_cons_self).symm
    constructor
    · rintro ⟨m, h⟩ n
      obtain ⟨acc', hadd, h⟩ := bind_ok.mp h
      obtain ⟨-, hraw, hcur⟩ := Money.tryAdd_ok.mp hadd
      have hrest := (ih acc' fun x hx => hcur ▸ hc x (List.mem_cons_of_mem _ hx)).mp ⟨m, h⟩
      cases n with
      | zero =>
        rw [List.take_zero, basisSum_nil, add_zero]
        exact acc.amount.fits
      | succ n =>
        rw [List.take_succ_cons, basisSum_cons, ← add_assoc, ← hraw]
        exact hrest n
    · intro hfits
      have hone := hfits 1
      rw [List.take_succ_cons, List.take_zero, basisSum_cons, basisSum_nil, add_zero] at hone
      let acc' : Money := ⟨⟨acc.amount.raw + lot.costBasis.amount.raw, hone⟩, acc.currency⟩
      have hadd : acc.tryAdd lot.costBasis = .ok acc' := Money.tryAdd_ok.mpr ⟨hlot, rfl, rfl⟩
      obtain ⟨m, hm⟩ := (ih acc' fun x hx => hc x (List.mem_cons_of_mem _ hx)).mpr fun n => by
        have hn := hfits (n + 1)
        rwa [List.take_succ_cons, basisSum_cons, ← add_assoc] at hn
      exact ⟨m, bind_ok.mpr ⟨acc', hadd, hm⟩⟩

theorem remainingBasis_eq {l : InstrumentLots} {c : CurrencyCode} (hne : l.lots ≠ []) (hc : InCurrency c l.lots) :
    l.remainingBasis = (Money.sum (l.lots.map Lot.costBasis) c).map some := by
  unfold InstrumentLots.remainingBasis
  split
  · next hnil => exact absurd hnil hne
  · next first rest hcons => rw [hc first (hcons ▸ List.mem_cons_self)]

/-- The lots can be read as one amount exactly when they can be added up, and the amount is their sum. -/
theorem remainingBasis_iff {l : InstrumentLots} {c : CurrencyCode} (hc : InCurrency c l.lots) :
    (∃ r, l.remainingBasis = .ok r) ↔ RunningSumsFit l.lots := by
  by_cases hne : l.lots = []
  · unfold InstrumentLots.remainingBasis
    rw [hne]
    refine ⟨fun _ n => ?_, fun _ => ⟨none, rfl⟩⟩
    rw [List.take_nil, basisSum_nil]
    decide
  · rw [remainingBasis_eq hne hc, ← sum_costs_iff hc]
    cases Money.sum (l.lots.map Lot.costBasis) c <;> simp [Except.map]

theorem remainingBasis_ok {l : InstrumentLots} {c : CurrencyCode} {r : Option Money} (hc : InCurrency c l.lots)
    (h : l.remainingBasis = .ok r) : Money.rawOr r = basisSum l.lots := by
  by_cases hne : l.lots = []
  · unfold InstrumentLots.remainingBasis at h
    rw [hne] at h
    cases h
    rw [hne]
    rfl
  · rw [remainingBasis_eq hne hc] at h
    cases hm : Money.sum (l.lots.map Lot.costBasis) c with
    | error failure =>
      rw [hm] at h
      cases h
    | ok m =>
      rw [hm] at h
      cases h
      rw [Money.rawOr_some, (Money.sum_ok hm).2.1, List.map_map]
      rfl

/-- The amount read off a total that may not have been started. -/
theorem raw_getD_zero (total : Option Money) (c : CurrencyCode) :
    (total.getD (Money.zero c)).amount.raw = Money.rawOr total := by
  cases total <;> rfl

/-- The check of a conserved entry passes exactly when its lots can be added up; otherwise it reports that cost
    was lost. -/
theorem checkBasis_iff {key : LotKey} {l : InstrumentLots} {acquired : Money} (h : Conserved l)
    (ha : l.acquiredBasis = some acquired) : checkBasis key l acquired = .ok () ↔ RunningSumsFit l.lots := by
  have hcur := h.lots acquired ha
  rw [← remainingBasis_iff hcur]
  unfold checkBasis
  rw [bind_ok]
  constructor
  · rintro ⟨r, hr, -⟩
    exact ⟨r, convert_ok.mp hr⟩
  · rintro ⟨r, hr⟩
    have hsum : (r.getD (Money.zero acquired.currency)).amount.raw +
        (l.releasedBasis.getD (Money.zero acquired.currency)).amount.raw = acquired.amount.raw := by
      have hminor := h.minor
      rw [ha, Money.rawOr_some] at hminor
      rw [raw_getD_zero, raw_getD_zero, remainingBasis_ok hcur hr, hminor]
    refine ⟨r, convert_ok.mpr hr, ?_⟩
    dsimp only
    unfold i64Add
    rw [hsum, if_pos acquired.amount.fits]
    exact if_neg fun hne => hne rfl

/-- Every check of a cost in the book passes. -/
def CostsPass (b : LotBook) : Prop :=
  ∀ key l acquired, b.entries[key]? = some l → l.acquiredBasis = some acquired → checkBasis key l acquired = .ok ()

theorem costsPass_iff {b : LotBook} (h : ∀ key, Conserved (b.lotsAt key)) :
    CostsPass b ↔ ∀ key, RunningSumsFit (b.lotsAt key).lots := by
  constructor
  · intro hpass key
    cases ha : (b.lotsAt key).acquiredBasis with
    | none =>
      intro n
      rw [((h key).started ha).1, List.take_nil, basisSum_nil]
      decide
    | some acquired =>
      cases hget : b.entries[key]? with
      | none =>
        unfold LotBook.lotsAt at ha
        rw [hget] at ha
        cases ha
      | some l =>
        have hl := lotsAt_of_get hget
        exact (checkBasis_iff (h key) ha).mp (hl ▸ hpass key l acquired hget (hl ▸ ha))
  · intro hfits key l acquired hget ha
    have hl := lotsAt_of_get hget
    exact (checkBasis_iff (hl ▸ h key) ha).mpr (hl ▸ hfits key)

theorem check_of_costsPass {state : LedgerState} (h : CostsPass state.book) (events : List Event) (key : LotKey)
    (acquired remaining released : Int) :
    check state events ≠ .error (.error (.basisNotConserved key acquired remaining released)) := by
  intro hcheck
  rcases check_error hcheck with ⟨_, _, hv⟩ | ⟨k, hquantity⟩ | ⟨k, l, total, hl, ha, hbasis⟩ | ⟨_, hv⟩
  · cases hv
  · rcases checkQuantity_error hquantity with ⟨_, hv⟩ | ⟨_, -, -, hv⟩
    · cases hv
    · cases hv
  · rw [h k l total hl ha] at hbasis
    cases hbasis
  · cases hv

/-- In every run the cost is conserved under every key; and the checks of the costs pass exactly when the lots
    of every key can be added up one after another, so that no loss of cost is reported then. -/
theorem conserved_and_checked {rules : RuleRegistry} {version : Nat} {es : List Event} {state : LedgerState}
    (h : Run (Accepts rules) (.new version) es state.book) :
    (∀ key, Conserved (state.book.lotsAt key)) ∧
      (CostsPass state.book ↔ ∀ key, RunningSumsFit (state.book.lotsAt key).lots) ∧
      ((∀ key, RunningSumsFit (state.book.lotsAt key).lots) → ∀ events key acquired remaining released,
        check state events ≠ .error (.error (.basisNotConserved key acquired remaining released))) := by
  have hc := conserved_run h
  exact ⟨hc, costsPass_iff hc, fun hfits => check_of_costsPass ((costsPass_iff hc).mpr hfits)⟩

/-- Ten units with their cost, and a sale of four of them. -/
def partlySold : List Event :=
  [openingOf ⟨1⟩ ⟨1⟩ (.ofInt64 10) (some ⟨.new 1001, .rub⟩),
    saleOf ⟨2⟩ ⟨1⟩ (.ofInt64 4) (.ofInt64 (-4)) ⟨.new 500, .rub⟩]

theorem conserved_partlySold : ∃ state : LedgerState, Run (Accepts .withDefaults) (.new 1) partlySold state.book ∧
    basisSum (state.book.lotsAt ⟨⟨1⟩, ⟨1⟩⟩).lots = 601 ∧
    Money.rawOr (state.book.lotsAt ⟨⟨1⟩, ⟨1⟩⟩).acquiredBasis =
      601 + Money.rawOr (state.book.lotsAt ⟨⟨1⟩, ⟨1⟩⟩).releasedBasis := by
  obtain ⟨state, hfold, hsum⟩ := exists_state partlySold (fun state => basisSum (state.book.lotsAt ⟨⟨1⟩, ⟨1⟩⟩).lots)
    (a := 601) (by decide +kernel)
  have hvalid : ∀ e ∈ partlySold, e.validateStructure = .ok () := by decide +kernel
  have hrun := book_run hvalid hfold
  exact ⟨state, hrun, hsum, hsum ▸ ((conserved_and_checked hrun).1 ⟨⟨1⟩, ⟨1⟩⟩).minor⟩

/-- Three reconstructed lots of one instrument, the first one with a negative cost. -/
def offsetting : List Event :=
  [openingOf ⟨1⟩ ⟨1⟩ (.ofInt64 1) (some ⟨.new (-9000000000000000000), .rub⟩),
    openingOf ⟨2⟩ ⟨1⟩ (.ofInt64 1) (some ⟨.new 9000000000000000000, .rub⟩),
    openingOf ⟨3⟩ ⟨1⟩ (.ofInt64 1) (some ⟨.new 9000000000000000000, .rub⟩)]

/-- The cost is conserved, but the last two lots come first and their sum does not fit: the check reports the
    whole of it as lost. -/
theorem offsetting_reported : ∃ state, Run (Accepts .withDefaults) (.new 1) offsetting state.book ∧
    Money.rawOr (state.book.lotsAt ⟨⟨1⟩, ⟨1⟩⟩).acquiredBasis =
      basisSum (state.book.lotsAt ⟨⟨1⟩, ⟨1⟩⟩).lots + Money.rawOr (state.book.lotsAt ⟨⟨1⟩, ⟨1⟩⟩).releasedBasis ∧
    check state offsetting = .error (.error (.basisNotConserved ⟨⟨1⟩, ⟨1⟩⟩ 9000000000000000000 0 0)) := by
  obtain ⟨state, hfold, hcheck⟩ := exists_state offsetting (fun state => check state offsetting)
    (a := .error (.error (.basisNotConserved ⟨⟨1⟩, ⟨1⟩⟩ 9000000000000000000 0 0))) (by decide +kernel)
  have hvalid : ∀ e ∈ offsetting, e.validateStructure = .ok () := by decide
  have hrun := book_run hvalid hfold
  exact ⟨state, hrun, (conserved_run hrun _).minor, hcheck⟩

end BasisConserved
end Iaam
