import Iaam.Theorems.LotSteps
import Mathlib.Algebra.BigOperators.Ring.List

/-! Lots against positions over runs of the projection.

The balances add up the legs, the book adds up what the kinds declare. The two agree as long as a conversion
finds no quantity without cost: that quantity leaves the position with the legs and stays in the book. -/

namespace Iaam
namespace LotsMatch
open Outcome Disposal LotSteps Runs

/-! ### One entry -/

section Entry
variable {l l' : InstrumentLots}

/-- What is taken from the quantity without cost and what is left to take are the disposed quantity. -/
theorem held_taken {m : InstrumentLots} {quantity left : Dec} (h : Taken l quantity left m) (hq : 0 < quantity.val) :
    held m = held l - quantity.val + left.val ∧ 0 ≤ left.val := by
  have hle : (min l.unpriced quantity).val ≤ quantity.val := Dec.le_iff.mp (min_le_right _ _)
  cases h with
  | nothing hz hleft =>
    rw [hleft]
    exact ⟨by ring, hq.le⟩
  | part _ hunpriced hleft =>
    refine ⟨?_, by linarith⟩
    unfold held
    dsimp only
    rw [hunpriced, hleft]
    ring

theorem held_disposed {quantity : Quantity} (h : Disposed l quantity l') (hq : 0 < quantity.val) :
    held l' = held l - quantity.val := by
  cases h with
  | unpriced htaken hz hsame => rw [hsame.held, (held_taken htaken hq).1, hz, add_zero]
  | lots htaken hdisposes _ _ hsame =>
    obtain ⟨hm, hleft⟩ := held_taken htaken hq
    rw [hsame.held]
    unfold held at hm ⊢
    dsimp only
    rw [hdisposes.quantity hleft]
    linarith

theorem quantitySum_of_quantities {lots lots' : List Lot} (h : lots'.map Lot.quantity = lots.map Lot.quantity) :
    quantitySum lots' = quantitySum lots := by
  have hsum := congrArg (fun qs : List Quantity => (qs.map Dec.val).sum) h
  simpa [quantitySum, Function.comp_def] using hsum

theorem held_touched {e : Event} {key : LotKey} {q : ℚ} (h : Touched e key l l' q) : held l' = held l + q := by
  cases h with
  | paid hsame | kindUnknown hsame | unallocated _ _ hsame =>
    rw [add_zero]
    exact hsame.held
  | acquired hacquired =>
    obtain ⟨-, sum, lots, -, hlots, hsame⟩ := hacquired
    rw [hsame.held]
    unfold held
    rcases hlots with rfl | rfl
    · simp [add_assoc]
    · rw [quantitySum_cons]
      ring
  | restored _ _ hrestored =>
    obtain ⟨-, unpriced, hval, hsame⟩ := hrestored
    rw [hsame.held]
    unfold held
    dsimp only
    rw [hval]
    ring
  | disposed hq hdisposed => rw [held_disposed hdisposed hq, sub_eq_add_neg]
  | amortised hamortised =>
    rw [hamortised.entry.held, add_zero]
    unfold held
    dsimp only
    rw [quantitySum_of_quantities hamortised.quantity]

end Entry

/-! ### A conversion -/

theorem quantitySum_moved {terms : Conversion} {lots init moved : List Lot} {last : Lot} {carried : Money}
    (h : Moved terms lots init moved last carried) : quantitySum moved = terms.quantityOut.val := by
  have hsum := congrArg (fun xs : List (ℚ × Money) => (xs.map Prod.fst).sum) h.worth
  have hscaled : (init.map fun lot => lot.quantity.val * terms.ratio.val).sum = quantitySum init * terms.ratio.val :=
    List.sum_map_mul_right _ _ _
  simp only [List.map_append, List.map_map, Function.comp_def, List.map_cons, List.map_nil, List.sum_append,
    List.sum_cons, List.sum_nil, add_zero, hscaled] at hsum
  unfold quantitySum
  linarith

/-- A conversion of lots adds to every position what it declares and leaves the quantity without cost with the
    predecessor. -/
theorem held_handedOver {terms : Conversion} {source target : LotKey} {before after : LotKey → InstrumentLots}
    (h : HandedOver terms source target before after) (key : LotKey) :
    held (after key) = held (before key) + (if source = key then (before source).unpriced.val - held (before source)
      else 0) + if target = key then terms.quantityOut.val else 0 := by
  obtain ⟨hmoved, -, hsource, -, htarget, rfl⟩ := h
  rename_i l l'
  have hl : held l = (before source).unpriced.val := by
    rw [hsource.held]
    unfold held
    simp
  have hmid : held (Function.update before source l key) = held (before key) +
      if source = key then (before source).unpriced.val - held (before source) else 0 := by
    rw [Function.update_apply]
    by_cases hk : source = key
    · rw [if_pos hk.symm, if_pos hk, hl, ← hk]
      ring
    · rw [if_neg fun hk' => hk hk'.symm, if_neg hk, add_zero]
  rw [← hmid, Function.update_apply _ target]
  by_cases hk : target = key
  · rw [if_pos hk.symm, if_pos hk, htarget.held, ← hk]
    unfold held
    dsimp only
    rw [quantitySum_append, quantitySum_moved hmoved, add_assoc]
  · rw [if_neg fun hk' => hk hk'.symm, if_neg hk, add_zero]

/-! ### Steps and runs -/

/-- A conversion carries the whole position: it leaves no quantity without cost behind, unless it turns a
    position without lots into itself. -/
def CarriesWhole (e : Event) (b : LotBook) : Prop :=
  ∀ terms, e.kind = .corporateAction (.conversion terms) →
    (b.lotsAt ⟨e.account, terms.predecessor⟩).unpriced.val = 0 ∨
      ((b.lotsAt ⟨e.account, terms.predecessor⟩).lots = [] ∧ terms.predecessor = terms.successor ∧
        terms.quantityIn.val = terms.quantityOut.val)

theorem declaredQuantity_conversion {e : Event} {terms : Conversion}
    (hk : e.kind = .corporateAction (.conversion terms)) (key : LotKey) : e.declaredQuantity key =
      (if (⟨e.account, terms.predecessor⟩ : LotKey) = key then -terms.quantityIn.val else 0) +
        if (⟨e.account, terms.successor⟩ : LotKey) = key then terms.quantityOut.val else 0 := by
  simp [Event.declaredQuantity, hk, heldOn]

section
variable {rules : RuleRegistry} {b b' : LotBook} {e : Event}

theorem carriesWhole_of_held (h : Accepts rules b e b')
    (hheld : ∀ key, held (b'.lotsAt key) = held (b.lotsAt key) + e.declaredQuantity key) : CarriesWhole e b := by
  intro terms hk
  obtain ⟨hin, -, -⟩ := conversion_positive h.1 hk
  obtain ⟨hwhole, houtcome⟩ := h.converts hk
  have hsource := hheld ⟨e.account, terms.predecessor⟩
  rw [declaredQuantity_conversion hk, if_pos rfl] at hsource
  rcases houtcome with ⟨hnil, hlots⟩ | hover
  · -- Nothing moved, so the declared quantities must cancel on the predecessor.
    rw [hlots] at hsource
    split_ifs at hsource with hsame
    · refine Or.inr ⟨hnil, (congrArg PositionKey.instrument hsame).symm, by linarith⟩
    · linarith
  · rw [held_handedOver hover, if_pos rfl] at hsource
    exact Or.inl (by linarith)

theorem held_of_carriesWhole (h : Accepts rules b e b') (hwhole : CarriesWhole e b) (key : LotKey) :
    held (b'.lotsAt key) = held (b.lotsAt key) + e.declaredQuantity key := by
  rcases h.applied with ⟨hq, hlots⟩ | ⟨hq, htouched, hlots⟩ | @⟨terms, hk, hheld, houtcome⟩
  · rw [hlots, hq, add_zero]
  · rw [hlots, hq, Function.update_apply]
    split_ifs with hk hk' hk'
    · rw [held_touched htouched, hk]
    · exact absurd hk.symm hk'
    · exact absurd hk'.symm hk
    · rw [add_zero]
  · obtain ⟨hin, -, -⟩ := conversion_positive h.1 hk
    rw [declaredQuantity_conversion hk]
    rcases houtcome with ⟨hnil, hlots⟩ | hover
    · rcases hwhole _ hk with hzero | ⟨-, hsame, heq⟩
      · -- A position without lots and without anything else is empty, and an empty one is not converted.
        unfold held at hheld
        rw [hnil, hzero, quantitySum_nil] at hheld
        linarith
      · rw [hlots, hsame, heq]
        split_ifs
        · ring
        · ring
    · have hzero : (b.lotsAt ⟨e.account, terms.predecessor⟩).unpriced.val = 0 :=
        (hwhole terms hk).resolve_right fun hnil => hover.nonempty hnil.1
      rw [held_handedOver hover, hzero, hheld, zero_sub, add_assoc]

end

/-- The lots and the quantity without cost are the position, under every key. -/
def Matches (state : LedgerState) : Prop :=
  ∀ key, held (state.book.lotsAt key) = (state.balances.positionAt key).val

/-- A valid event with exactly the legs its kind declares, applied by the projection. -/
def Posts (H : Hashing) (ctx : ProjectionContext) (state : LedgerState) (e : Event) (state' : LedgerState) : Prop :=
  e.validateStructure = .ok () ∧ e.ExactQuantity ∧ applyEvent H ctx state e = .ok state'

theorem check_of_matches {state : LedgerState} (h : Matches state) (events : List Event) (key : LotKey)
    (lots position : Dec) : check state events ≠ .error (.error (.lotsDoNotMatchPosition key lots position)) := by
  intro hcheck
  rcases check_error hcheck with ⟨_, _, hv⟩ | ⟨k, hquantity⟩ | ⟨k, l, total, -, -, hbasis⟩ | ⟨_, hv⟩
  · cases hv
  · rcases checkQuantity_error hquantity with ⟨_, hv⟩ | ⟨q, hq, hne, -⟩
    · cases hv
    · exact hne (Dec.ext_val ((quantity_ok hq).trans (h k)))
  · obtain ⟨_, _, hv⟩ := checkBasis_error hbasis
    cases hv
  · cases hv

section
variable {H : Hashing} {ctx : ProjectionContext} {state state' : LedgerState} {e : Event} {es : List Event}
  {version : Nat}

theorem matches_step_iff (h : Posts H ctx state e state') (hm : Matches state) :
    Matches state' ↔ CarriesWhole e state.book := by
  obtain ⟨hv, hexact, happly⟩ := h
  obtain ⟨hbalances, hbook⟩ := applyEvent_ok happly
  have haccepts : Accepts ctx.rules state.book e state'.book := ⟨hv, hbook⟩
  have hposition : ∀ key, (state'.balances.positionAt key).val =
      held (state.book.lotsAt key) + e.declaredQuantity key := fun key => by
    rw [(Balances.apply_ok hbalances ⟨key.account, .rub⟩ key).2, hexact key, hm key]
  constructor
  · exact fun hm' => carriesWhole_of_held haccepts fun key => (hm' key).trans (hposition key)
  · exact fun hwhole key => (held_of_carriesWhole haccepts hwhole key).trans (hposition key).symm

end

/-! ### A conversion with cost and one without -/

theorem openingOf_exact (id : EventId) (instrument : InstrumentId) (quantity : Quantity) (costBasis : Option Money) :
    (openingOf id instrument quantity costBasis).ExactQuantity := by
  intro key
  change (Leg.security ⟨1⟩ ⟨1⟩ instrument quantity).quantityOn key + 0 = heldOn ⟨1⟩ instrument quantity.val key
  rw [add_zero]
  rfl

theorem conversionOf_exact (id : EventId) {ratio quantityIn leaving quantityOut : Dec} (fractional : FractionalTreatment)
    (h : leaving.val = -quantityIn.val) :
    (conversionOf id ratio quantityIn leaving quantityOut fractional).ExactQuantity := by
  intro key
  change (Leg.security ⟨1⟩ ⟨1⟩ ⟨1⟩ leaving).quantityOn key +
    ((Leg.security ⟨1⟩ ⟨1⟩ ⟨2⟩ quantityOut).quantityOn key + 0) =
      heldOn ⟨1⟩ ⟨1⟩ (-quantityIn.val) key + heldOn ⟨1⟩ ⟨2⟩ quantityOut.val key
  rw [add_zero, ← h]
  rfl

/-- Ten units without cost, converted one to one. -/
def unpricedConverted : List Event :=
  [openingOf ⟨1⟩ ⟨1⟩ (.ofInt64 10) none,
    conversionOf ⟨2⟩ Dec.one (.ofInt64 10) (.ofInt64 (-10)) (.ofInt64 10) .notApplicable]

end LotsMatch
end Iaam
