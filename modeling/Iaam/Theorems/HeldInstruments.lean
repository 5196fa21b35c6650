import Iaam.Lib.Totals
import Iaam.Projection.ActiveInstruments
import Iaam.Theorems.Incremental
import Iaam.Theorems.LotsMatch
import Iaam.Theorems.ReplayOrder

/-! The instruments to synchronise and the positions. The first are netted over the kinds of the events, the second
are read off the legs. No position of a projection that passes its check is negative, so positions of several accounts
do not cancel, and where the legs move what the kinds declare the two agree. -/

namespace Iaam
namespace HeldInstruments
open Outcome Disposal LotSteps LotsMatch Runs ActiveInstruments

/-! ### No entry is negative -/

/-- Neither the lots together nor the quantity without cost is below zero. A single lot may be. -/
def NonNegative (l : InstrumentLots) : Prop := 0 ≤ quantitySum l.lots ∧ 0 ≤ l.unpriced.val

section
variable {l l' m : InstrumentLots}

theorem nonNegative_same (h : Same l l') (hl : NonNegative l) : NonNegative l' := by
  rw [NonNegative, quantitySum_of_worth h.lots, h.unpriced]
  exact hl

theorem nonNegative_taken {quantity left : Dec} (h : Taken l quantity left m) (hl : NonNegative l) : NonNegative m := by
  cases h with
  | nothing _ _ => exact hl
  | part _ hunpriced _ =>
    have hmin : (min l.unpriced quantity).val ≤ l.unpriced.val := Dec.le_iff.mp (min_le_left _ _)
    refine ⟨hl.1, ?_⟩
    dsimp only
    rw [hunpriced]
    linarith

theorem nonNegative_disposed {quantity : Quantity} (h : Disposed l quantity l') (hq : 0 < quantity.val)
    (hl : NonNegative l) : NonNegative l' := by
  cases h with
  | unpriced htaken _ hsame => exact nonNegative_same hsame (nonNegative_taken htaken hl)
  | lots htaken hdisposes _ _ hsame =>
    have hm := nonNegative_taken htaken hl
    refine nonNegative_same hsame ⟨?_, hm.2⟩
    dsimp only
    rw [hdisposes.quantity (held_taken htaken hq).2]
    linarith [hdisposes.enough]

theorem nonNegative_touched {e : Event} {key : LotKey} {q : ℚ} (h : Touched e key l l' q) (hl : NonNegative l) :
    NonNegative l' := by
  cases h with
  | paid hsame | kindUnknown hsame => exact nonNegative_same hsame hl
  | unallocated _ _ hsame => exact nonNegative_same hsame hl
  | acquired hacquired =>
    obtain ⟨hpos, sum, lots, -, hlots, hsame⟩ := hacquired
    refine nonNegative_same hsame ⟨?_, hl.2⟩
    have hsum := hl.1
    rcases hlots with rfl | rfl
    · simp only [quantitySum_append, quantitySum_cons, quantitySum_nil]
      linarith
    · simp only [quantitySum_cons]
      linarith
  | restored _ _ hrestored =>
    obtain ⟨hpos, unpriced, hunpriced, hsame⟩ := hrestored
    refine nonNegative_same hsame ⟨hl.1, ?_⟩
    dsimp only
    rw [hunpriced]
    linarith [hl.2]
  | disposed hpos hdisposed => exact nonNegative_disposed hdisposed hpos hl
  | amortised hamortised =>
    refine nonNegative_same hamortised.entry ⟨?_, hl.2⟩
    dsimp only
    rw [quantitySum_of_quantities hamortised.quantity]
    exact hl.1

end

section
variable {rules : RuleRegistry} {b b' : LotBook} {e : Event} {es : List Event} {version : Nat}

theorem nonNegative_step (h : Accepts rules b e b') (hb : ∀ key, NonNegative (b.lotsAt key)) :
    ∀ key, NonNegative (b'.lotsAt key) := by
  refine h.applied.keeps hb (fun htouched => nonNegative_touched htouched (hb _)) fun hk hover => ?_
  obtain ⟨-, hout, -⟩ := conversion_positive h.1 hk
  refine hover.keeps hb (fun _ _ hsame => ?_) fun hmoved hm _ hsame => ?_
  · exact nonNegative_same hsame ⟨le_rfl, (hb _).2⟩
  · refine nonNegative_same hsame ⟨?_, hm.2⟩
    rw [quantitySum_append, quantitySum_moved hmoved]
    linarith [hm.1]

theorem nonNegative_run (h : Run (Accepts rules) (.new version) es b) : ∀ key, NonNegative (b.lotsAt key) := by
  refine h.keeps (P := fun b : LotBook => ∀ key, NonNegative (b.lotsAt key)) ?_ fun key => ?_
  · intro b e b' hb hstep
    exact nonNegative_step hstep hb
  rw [lotsAt_new]
  simp [NonNegative, InstrumentLots.empty]

theorem held_nonneg {l : InstrumentLots} (h : NonNegative l) : 0 ≤ held l := add_nonneg h.2 h.1

end

/-! ### The check -/

theorem matches_of_check {state : LedgerState} {events : List Event} {report : InvariantReport}
    (h : check state events = .ok report) : Matches state := by
  intro key
  unfold check at h
  obtain ⟨-, h⟩ := seq_ok.mp h
  obtain ⟨pairs, hkeys, -⟩ := bind_ok.mp h
  by_cases hkey : key ∈ checkedKeys state
  · obtain ⟨_, _, hstep⟩ := (foldlM_ok.mp hkeys).exists_step hkey
    obtain ⟨hquantity, -⟩ := seq_ok.mp hstep
    obtain ⟨lots, hlots, hquantity⟩ := bind_ok.mp hquantity
    dsimp only at hquantity
    split at hquantity
    · cases hquantity
    · next heq => rw [← quantity_ok (bookQuantity_ok hlots), not_ne_iff.mp heq]
  · simp only [checkedKeys, Std.ExtTreeSet.mem_toList, Std.ExtTreeSet.mem_ofList, List.contains_iff_mem,
      List.mem_append, Std.ExtTreeMap.mem_keys, not_or] at hkey
    have hentry : state.book.entries[key]? = none := Std.ExtTreeMap.getElem?_eq_none hkey.1
    have hposition : state.balances.positions[key]? = none := Std.ExtTreeMap.getElem?_eq_none hkey.2
    simp [LotBook.lotsAt, Balances.positionAt, hentry, hposition, InstrumentLots.empty, held]

/-! ### Netting over the kinds -/

def deltaOn (i : InstrumentId) (delta : InstrumentId × Dec) : ℚ := if delta.1 = i then delta.2.val else 0

/-- The quantity of an instrument that the kind declares. -/
def declaredOf (e : Event) (i : InstrumentId) : ℚ := e.declaredQuantity ⟨e.account, i⟩

theorem heldOn_eq (account : AccountId) (instrument : InstrumentId) (q : ℚ) (key : PositionKey) :
    heldOn account instrument q key =
      if account = key.account then heldOn account instrument q ⟨account, key.instrument⟩ else 0 := by
  obtain ⟨account', i⟩ := key
  simp only [heldOn, PositionKey.mk.injEq]
  by_cases h : account = account' <;> simp [h]

/-- Whatever a kind declares, it declares on the account of the event. -/
theorem declaredQuantity_eq (e : Event) (key : PositionKey) :
    e.declaredQuantity key = if e.account = key.account then declaredOf e key.instrument else 0 := by
  simp only [declaredOf, Event.declaredQuantity]
  split
  all_goals first | exact heldOn_eq _ _ _ _ | exact (ite_self _).symm | skip
  next terms _ =>
    rw [heldOn_eq _ _ _ key, heldOn_eq _ terms.successor _ key]
    by_cases h : e.account = key.account <;> simp [h]

theorem netNegated_ok (quantity : Dec) : ∃ q : Dec, ActiveInstruments.negated quantity = .ok q ∧ q.val = -quantity.val := by
  obtain ⟨q, hq⟩ := quantity.checkedNeg_total
  exact ⟨q, hq, Dec.checkedNeg_ok.mp hq⟩

theorem heldOn_own (account : AccountId) (instrument i : InstrumentId) (q : ℚ) :
    heldOn account instrument q ⟨account, i⟩ = if instrument = i then q else 0 := by
  simp [heldOn]

/-- What is netted of an event is what its kind declares. -/
theorem deltas_ok (e : Event) :
    ∃ ds, deltas e = .ok ds ∧ ∀ i, (ds.map (deltaOn i)).sum = declaredOf e i := by
  cases hk : e.kind with
  | trade terms =>
    obtain ⟨q, hq, hval⟩ := netNegated_ok terms.quantity
    cases hs : terms.side with
    | buy =>
      refine ⟨[(terms.instrument, terms.quantity)], by simp [deltas, hk, hs], fun i => ?_⟩
      simp [declaredOf, Event.declaredQuantity, hk, hs, deltaOn, heldOn_own, TradeSide.signed]
    | sell =>
      refine ⟨[(terms.instrument, q)], by simp [deltas, hk, hs, hq], fun i => ?_⟩
      simp [declaredOf, Event.declaredQuantity, hk, hs, deltaOn, heldOn_own, TradeSide.signed, hval]
  | openingPosition instrument quantity _ _ =>
    refine ⟨[(instrument, quantity)], by simp [deltas, hk], fun i => ?_⟩
    simp [declaredOf, Event.declaredQuantity, hk, deltaOn, heldOn_own]
  | corporateAction action =>
    cases action with
    | partialRedemption terms _ =>
      refine ⟨[(terms.instrument, Dec.zero)], by simp [deltas, hk], fun i => ?_⟩
      simp [declaredOf, Event.declaredQuantity, hk, deltaOn]
    | redemption terms =>
      obtain ⟨q, hq, hval⟩ := netNegated_ok terms.quantity
      refine ⟨[(terms.instrument, q)], by simp [deltas, hk, hq], fun i => ?_⟩
      simp [declaredOf, Event.declaredQuantity, hk, deltaOn, heldOn_own, hval]
    | conversion terms =>
      obtain ⟨q, hq, hval⟩ := netNegated_ok terms.quantityIn
      refine ⟨[(terms.predecessor, q), (terms.successor, terms.quantityOut)], by simp [deltas, hk, hq], fun i => ?_⟩
      simp [declaredOf, Event.declaredQuantity, hk, deltaOn, heldOn_own, hval]
  | offerExercise action =>
    cases action with
    | settled terms =>
      obtain ⟨q, hq, hval⟩ := netNegated_ok terms.quantity
      refine ⟨[(terms.instrument, q)], by simp [deltas, hk, hq], fun i => ?_⟩
      simp [declaredOf, Event.declaredQuantity, hk, deltaOn, heldOn_own, hval]
    | submitted | cancelled => exact ⟨[], by simp [deltas, hk], fun i => by simp [declaredOf, Event.declaredQuantity, hk]⟩
  | cashIn | refund | cashOut | cashTransfer | ownAccountMovement | unresolvedOwnAccountMovement | income | fee | tax
  | openingCash | statedSecuritiesValue | valuation | controlAssertion | importCoverageGap =>
    exact ⟨[], by simp [deltas, hk], fun i => by simp [declaredOf, Event.declaredQuantity, hk]⟩

/-- Everything that is netted, in order. -/
def allDeltas (effective : List Event) : List (InstrumentId × Dec) :=
  effective.flatMap fun e => (deltas e).toOption.getD []

/-- No running total of an instrument over all accounts leaves the range of a decimal. -/
def InRange (effective : List Event) : Prop :=
  ∀ i n, |(((allDeltas effective).take n).map (deltaOn i)).sum| ≤ decimalMax

section
variable {effective : List Event} {q q' : Quantities}

theorem foldlM_addEvent (effective : List Event) (q : Quantities) :
    effective.foldlM addEvent q = (allDeltas effective).foldlM addDelta q := by
  rw [allDeltas, foldlM_flatMap]
  refine foldlM_congr (fun q e _ => ?_) q
  obtain ⟨ds, hds, -⟩ := deltas_ok e
  rw [addEvent, hds]
  rfl

theorem sum_allDeltas (effective : List Event) (i : InstrumentId) :
    ((allDeltas effective).map (deltaOn i)).sum = (effective.map fun e => declaredOf e i).sum := by
  induction effective with
  | nil => rfl
  | cons e effective ih =>
    obtain ⟨ds, hds, hsum⟩ := deltas_ok e
    rw [allDeltas, List.flatMap_cons, List.map_append, List.sum_append, List.map_cons, List.sum_cons, ← ih, ← hsum, hds]
    rfl

theorem quantityAt_addDelta {delta : InstrumentId × Dec} (h : addDelta q delta = .ok q') (i : InstrumentId) :
    (quantityAt q' i).val = (quantityAt q i).val + deltaOn i delta := by
  obtain ⟨sum, hsum, h⟩ := bind_ok.mp h
  cases h
  rw [quantityAt, Tree.get_insert, deltaOn]
  split
  · next hi => rw [Option.getD_some, Dec.checkedAdd_ok.mp hsum, ← hi]
  · rw [add_zero]
    rfl

theorem exists_addDelta {delta : InstrumentId × Dec}
    (h : ∀ i, |(quantityAt q i).val + deltaOn i delta| ≤ decimalMax) : ∃ q', addDelta q delta = .ok q' := by
  have hrange := h delta.1
  rw [deltaOn, if_pos rfl] at hrange
  exact ⟨_, bind_ok.mpr ⟨⟨_, hrange⟩, Dec.checkedAdd_ok.mpr rfl, rfl⟩⟩

theorem exists_foldlM_addEvent : (∃ q, effective.foldlM addEvent ∅ = .ok q) ↔ InRange effective := by
  have hiff : (∃ q, (allDeltas effective).foldlM addDelta ∅ = .ok q) ↔
      ∀ i n, |(quantityAt ∅ i).val + (((allDeltas effective).take n).map (deltaOn i)).sum| ≤ decimalMax :=
    exists_foldlM_iff (fun q i => (quantityAt q i).val) (fun delta i => deltaOn i delta) (fun x => |x| ≤ decimalMax)
      (fun q i => (quantityAt q i).inRange) quantityAt_addDelta exists_addDelta
  rw [foldlM_addEvent, hiff, InRange]
  refine forall₂_congr fun i n => ?_
  rw [show (quantityAt ∅ i).val = 0 by simp [quantityAt], zero_add]

theorem quantityAt_fold (h : effective.foldlM addEvent ∅ = .ok q) (i : InstrumentId) :
    (quantityAt q i).val = (effective.map fun e => declaredOf e i).sum := by
  rw [foldlM_addEvent] at h
  have hadds := (foldlM_ok.mp h).adds (fun q : Quantities => (quantityAt q i).val) (deltaOn i) fun _ hstep =>
    quantityAt_addDelta hstep i
  rw [hadds, sum_allDeltas, show (quantityAt ∅ i).val = 0 by simp [quantityAt], zero_add]

/-- An accumulation fails by overflow only. -/
theorem foldlM_addEvent_error {e : NumericError} (h : effective.foldlM addEvent ∅ = .error e) : e = .overflow := by
  rw [foldlM_addEvent] at h
  obtain ⟨delta, -, q, hq⟩ := foldlM_error h
  rcases bind_error.mp hq with hadd | ⟨sum, -, hinsert⟩
  · simp only [Dec.checkedAdd, Dec.checked] at hadd
    split at hadd
    · cases hadd
    · exact (Except.error.inj hadd).symm
  · cases hinsert

end

/-! ### Positions -/

section
variable {H : Hashing} {ctx : ProjectionContext} {events effective : List Event} {p : Projection H}

/-- What the instruments to synchronise are for: those of which some account holds something. -/
def Held (state : LedgerState) (i : InstrumentId) : Prop :=
  ∃ account, (state.balances.positionAt ⟨account, i⟩).val ≠ 0

theorem mem_active {q : Quantities} {i : InstrumentId} :
    i ∈ (Std.ExtTreeSet.ofList (q.toList.filterMap fun entry => if entry.2.isZero then none else some entry.1) compare) ↔
      (quantityAt q i).val ≠ 0 := by
  simp only [Std.ExtTreeSet.mem_ofList, List.contains_iff_mem, List.mem_filterMap, quantityAt]
  constructor
  · rintro ⟨⟨i', d⟩, hentry, hsome⟩
    split at hsome
    · cases hsome
    · next hzero =>
      cases hsome
      rw [Std.ExtTreeMap.mem_toList_iff_getElem?_eq_some.mp hentry, Option.getD_some]
      exact mt Dec.isZero_iff.mpr hzero
  · intro hne
    cases hget : q[i]? with
    | none => simp [hget] at hne
    | some d =>
      rw [hget, Option.getD_some] at hne
      exact ⟨(i, d), Std.ExtTreeMap.mem_toList_iff_getElem?_eq_some.mpr hget, by simp [hne]⟩

/-- The set is what the kinds net, unless a running total leaves the range. -/
theorem activeInstruments_spec (hres : resolve events = .ok effective) :
    (InRange effective → ∃ active, activeInstruments events = .ok active ∧
      ∀ i, i ∈ active ↔ (effective.map fun e => declaredOf e i).sum ≠ 0) ∧
    (¬InRange effective → activeInstruments events = .error (.numeric .overflow)) := by
  simp only [activeInstruments, hres]
  constructor
  · intro hrange
    obtain ⟨q, hq⟩ := exists_foldlM_addEvent.mpr hrange
    refine ⟨_, bind_ok.mpr ⟨effective, rfl, bind_ok.mpr ⟨q, mapError_ok.mpr hq, rfl⟩⟩, fun i => ?_⟩
    rw [mem_active, quantityAt_fold hq]
  · intro hrange
    cases hq : effective.foldlM addEvent ∅ with
    | ok q => exact absurd (exists_foldlM_addEvent.mp ⟨q, hq⟩) hrange
    | error e =>
      cases foldlM_addEvent_error hq
      refine bind_error.mpr (.inr ⟨effective, rfl, bind_error.mpr (.inl ?_)⟩)
      rw [hq]
      rfl

/-- A projection holds what the legs move, and no position of it is negative. -/
theorem positions_of_project (hvalid : ∀ e ∈ effective, e.validateStructure = .ok ()) (hres : resolve events = .ok effective)
    (hp : project H ctx events = .ok p) (key : PositionKey) :
    0 ≤ (p.snapshot.state.balances.positionAt key).val ∧ (p.snapshot.state.balances.positionAt key).val =
      (effective.map fun e => e.quantityEffect key).sum := by
  obtain ⟨effective', hres', hfold⟩ := Incremental.project_ok hp
  cases hres.symm.trans hres'
  obtain ⟨state, hstate, hfold⟩ := bind_ok.mp hfold
  obtain ⟨report, hcheck, hfold⟩ := bind_ok.mp hfold
  cases hfold
  have hmatch := matches_of_check (reraise_ok.mp hcheck) key
  have hbook := nonNegative_run (book_run hvalid hstate) key
  have hadds := (foldlM_ok.mp hstate).adds (fun s : LedgerState => (s.balances.positionAt key).val)
    (fun e => e.quantityEffect key) fun _ hstep => (Balances.apply_ok (applyEvent_ok hstep).1 ⟨key.account, .rub⟩ key).2
  refine ⟨?_, ?_⟩
  · rw [← hmatch]
    exact held_nonneg hbook
  · refine hadds.trans ?_
    rw [show ((Incremental.start ctx).balances.positionAt key).val = 0 by
      simp [Incremental.start, LedgerState.new, Balances.empty, Balances.positionAt], zero_add]

/-- Positions that are not negative do not cancel over the accounts. -/
theorem held_iff (hvalid : ∀ e ∈ effective, e.validateStructure = .ok ()) (hexact : ∀ e ∈ effective, e.ExactQuantity)
    (hres : resolve events = .ok effective) (hp : project H ctx events = .ok p) (i : InstrumentId) :
    Held p.snapshot.state i ↔ (effective.map fun e => declaredOf e i).sum ≠ 0 := by
  have hposition : ∀ account, (p.snapshot.state.balances.positionAt ⟨account, i⟩).val =
      ((effective.filter fun e => e.account = account).map fun e => declaredOf e i).sum := by
    intro account
    rw [(positions_of_project hvalid hres hp ⟨account, i⟩).2, ← Cut.sum_ite_zero]
    refine congrArg List.sum (List.map_congr_left fun e he => ?_)
    rw [hexact e he, declaredQuantity_eq]
  have hnonneg : ∀ account, 0 ≤ (p.snapshot.state.balances.positionAt ⟨account, i⟩).val := fun account =>
    (positions_of_project hvalid hres hp ⟨account, i⟩).1
  have hsum := Cut.sum_partition (List.nodup_dedup (effective.map Event.account)) Event.account
    (fun e => declaredOf e i) effective
  have hall : effective.filter (fun e => e.account ∈ (effective.map Event.account).dedup) = effective :=
    List.filter_eq_self.mpr fun e he => by simpa using ⟨e, he, rfl⟩
  rw [hall] at hsum
  simp only [← hposition] at hsum
  rw [← hsum]
  constructor
  · rintro ⟨account, hne⟩ hzero
    have hin : account ∈ (effective.map Event.account).dedup := by
      by_contra hnot
      refine hne ?_
      have hnone : effective.filter (fun e => e.account = account) = [] := by
        refine List.filter_eq_nil_iff.mpr fun e he heq => hnot ?_
        rw [List.mem_dedup, ← of_decide_eq_true heq]
        exact List.mem_map_of_mem he
      rw [hposition, hnone]
      rfl
    have hle := List.single_le_sum (fun x hx => by
      obtain ⟨account, -, rfl⟩ := List.mem_map.mp hx
      exact hnonneg account) _ (List.mem_map_of_mem (f := fun account =>
        (p.snapshot.state.balances.positionAt ⟨account, i⟩).val) hin)
    rw [hzero] at hle
    exact hne (le_antisymm hle (hnonneg account))
  · intro hne
    by_contra hnone
    refine hne (List.sum_eq_zero fun x hx => ?_)
    obtain ⟨account, -, rfl⟩ := List.mem_map.mp hx
    by_contra hx
    exact hnone ⟨account, hx⟩

theorem mem_of_resolve (h : resolve events = .ok effective) {e : Event} (he : e ∈ effective) : e ∈ events := by
  obtain ⟨resolution, hresolution, h⟩ := bind_ok.mp h
  cases h
  obtain ⟨supersession, -, hresolution⟩ := bind_ok.mp hresolution
  cases hresolution
  exact List.mem_of_mem_filter (ReplayOrder.mem_sortForReplay.mp he)

end

/-- Ten units without cost. -/
def tenUnits : List Event := [openingOf ⟨1⟩ ⟨1⟩ (.ofInt64 10) none]

/-- As many units in each of two accounts as the decimals hold of one, but not of both. -/
def hugeHoldings : List Event :=
  [eventWith ⟨1⟩ ⟨1⟩ ⟨0⟩ 1 (.openingPosition ⟨1⟩ ⟨5 * 10 ^ 28, by decide +kernel⟩ none {})
      [.security ⟨1⟩ ⟨1⟩ ⟨1⟩ ⟨5 * 10 ^ 28, by decide +kernel⟩],
    eventWith ⟨2⟩ ⟨2⟩ ⟨0⟩ 2 (.openingPosition ⟨1⟩ ⟨5 * 10 ^ 28, by decide +kernel⟩ none {})
      [.security ⟨2⟩ ⟨1⟩ ⟨1⟩ ⟨5 * 10 ^ 28, by decide +kernel⟩]]

/-- Ten units without cost converted, and a deposit with legs that put them back. -/
def strayLegs : List Event :=
  unpricedConverted ++
    [eventWith ⟨3⟩ ⟨1⟩ ⟨2⟩ 3 (.cashIn ⟨.new 100, .rub⟩) [.cash ⟨1⟩ ⟨.new 100, .rub⟩,
      .security ⟨1⟩ ⟨1⟩ ⟨1⟩ (.ofInt64 10), .security ⟨1⟩ ⟨1⟩ ⟨2⟩ (.ofInt64 (-10))]]

end HeldInstruments
end Iaam
