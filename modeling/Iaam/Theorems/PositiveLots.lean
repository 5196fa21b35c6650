import Iaam.Theorems.LotSteps

/-! Positive lots over runs of the book.

Every operation keeps the lots positive but one: a conversion gives its last lot what the other lots leave of
the declared quantity, and a declared quantity that was rounded down can be used up before. -/

namespace Iaam
namespace PositiveLots
open Outcome Disposal LotSteps Runs

/-- A conversion leaves something for the last lot: it declares more than the scaled quantity of the others. -/
def LeavesLast (e : Event) (b : LotBook) : Prop :=
  ∀ terms, e.kind = .corporateAction (.conversion terms) →
    (b.lotsAt ⟨e.account, terms.predecessor⟩).lots ≠ [] →
    quantitySum (b.lotsAt ⟨e.account, terms.predecessor⟩).lots.dropLast * terms.ratio.val < terms.quantityOut.val

/-! ### One entry -/

theorem positive_append {lots lots' : List Lot} : Positive (lots ++ lots') ↔ Positive lots ∧ Positive lots' :=
  List.forall_mem_append

theorem positive_of_quantities {lots lots' : List Lot} (h : lots'.map Lot.quantity = lots.map Lot.quantity)
    (hp : Positive lots) : Positive lots' := by
  intro lot hlot
  have hmem : lot.quantity ∈ lots.map Lot.quantity := h ▸ List.mem_map_of_mem hlot
  obtain ⟨x, hx, heq⟩ := List.mem_map.mp hmem
  exact heq ▸ hp x hx

theorem positive_taken {l m : InstrumentLots} {quantity left : Dec} (h : Taken l quantity left m)
    (hp : Positive l.lots) : Positive m.lots := by
  cases h <;> exact hp

theorem positive_disposed {l l' : InstrumentLots} {quantity : Quantity} (h : Disposed l quantity l')
    (hp : Positive l.lots) : Positive l'.lots := by
  cases h with
  | unpriced htaken _ hsame => exact positive_of_worth hsame.lots (positive_taken htaken hp)
  | lots htaken hdisposes _ _ hsame =>
    exact positive_of_worth hsame.lots (hdisposes.positive (positive_taken htaken hp))

theorem positive_touched {e : Event} {key : LotKey} {l l' : InstrumentLots} {q : ℚ} (h : Touched e key l l' q)
    (hp : Positive l.lots) : Positive l'.lots := by
  cases h with
  | paid hsame | kindUnknown hsame | unallocated _ _ hsame => exact positive_of_worth hsame.lots hp
  | acquired hacquired =>
    obtain ⟨hpos, sum, lots, -, hlots, hsame⟩ := hacquired
    refine positive_of_worth hsame.lots ?_
    rcases hlots with rfl | rfl
    · exact positive_append.mpr ⟨hp, List.forall_mem_singleton.mpr hpos⟩
    · exact List.forall_mem_cons.mpr ⟨hpos, hp⟩
  | restored _ _ hrestored =>
    obtain ⟨-, unpriced, -, hsame⟩ := hrestored
    exact positive_of_worth hsame.lots hp
  | disposed _ hdisposed => exact positive_disposed hdisposed hp
  | amortised hamortised =>
    exact positive_of_worth hamortised.entry.lots (positive_of_quantities hamortised.quantity hp)

/-! ### A conversion -/

/-- The moved lots are positive exactly when the last one is left something. -/
theorem positive_moved_iff {terms : Conversion} {lots init moved : List Lot} {last : Lot} {carried : Money}
    (h : Moved terms lots init moved last carried) (hratio : 0 < terms.ratio.val) (hp : Positive lots) :
    Positive moved ↔ quantitySum lots.dropLast * terms.ratio.val < terms.quantityOut.val := by
  have hquantities : Positive moved ↔ ∀ x ∈ moved.map fun lot => (lot.quantity.val, lot.costBasis), 0 < x.1 := by
    rw [List.forall_mem_map]
    rfl
  have hinit : ∀ lot ∈ init, 0 < lot.quantity.val * terms.ratio.val := fun lot hlot =>
    mul_pos (hp lot (h.split ▸ List.mem_append_left _ hlot)) hratio
  rw [hquantities, h.worth, List.forall_mem_append, List.forall_mem_map, List.forall_mem_singleton, h.split,
    List.dropLast_concat, sub_pos]
  exact ⟨fun hall => hall.2, fun hlt => ⟨hinit, hlt⟩⟩

theorem positive_handedOver_iff {terms : Conversion} {source target : LotKey} {before after : LotKey → InstrumentLots}
    (h : HandedOver terms source target before after) (hratio : 0 < terms.ratio.val)
    (hp : ∀ key, Positive (before key).lots) : (∀ key, Positive (after key).lots) ↔
      quantitySum (before source).lots.dropLast * terms.ratio.val < terms.quantityOut.val := by
  constructor
  · obtain ⟨hmoved, -, -, -, htarget, rfl⟩ := h
    intro hall
    have hlots := hall target
    rw [Function.update_self] at hlots
    have happend := positive_of_worth htarget.lots.symm hlots
    exact (positive_moved_iff hmoved hratio (hp source)).mp (positive_append.mp happend).2
  · intro hlt
    refine h.keeps (P := fun l => Positive l.lots) hp (fun _ _ hsame => ?_) fun hmoved hm _ hsame => ?_
    · exact positive_of_worth hsame.lots fun _ hx => (nomatch hx)
    · have hpos := (positive_moved_iff hmoved hratio (hp source)).mpr hlt
      exact positive_of_worth hsame.lots (positive_append.mpr ⟨hm, hpos⟩)

/-! ### Steps and runs -/

section
variable {rules : RuleRegistry} {b b' : LotBook} {e : Event} {es : List Event} {version : Nat}

/-- A step from a book of positive lots leads to one exactly when it leaves the last lot something. -/
theorem positive_step_iff (h : Accepts rules b e b') (hp : ∀ key, Positive (b.lotsAt key).lots) :
    (∀ key, Positive (b'.lotsAt key).lots) ↔ LeavesLast e b := by
  constructor
  · intro hall terms hk hne
    obtain ⟨-, -, hratio⟩ := conversion_positive h.1 hk
    rcases (h.converts hk).outcome with ⟨hnil, -⟩ | hover
    · exact absurd hnil hne
    · exact (positive_handedOver_iff hover hratio hp).mp hall
  · intro hlast
    refine h.applied.keeps (P := fun l => Positive l.lots) hp (fun htouched => positive_touched htouched (hp _))
      fun hk hover => ?_
    obtain ⟨-, -, hratio⟩ := conversion_positive h.1 hk
    exact (positive_handedOver_iff hover hratio hp).mpr (hlast _ hk hover.nonempty)

end

theorem half_inRange : |(1 / 2 : ℚ)| ≤ decimalMax := by decide +kernel

/-- Lots of two units and of one, converted two to one and rounded down. -/
def halved : List Event :=
  [openingOf ⟨1⟩ ⟨1⟩ (.ofInt64 1) (some ⟨.new 100, .rub⟩),
    openingOf ⟨2⟩ ⟨1⟩ (.ofInt64 2) (some ⟨.new 200, .rub⟩),
    conversionOf ⟨3⟩ ⟨1 / 2, half_inRange⟩ (.ofInt64 3) (.ofInt64 (-3)) (.ofInt64 1)
      .roundedDown]

end PositiveLots
end Iaam
