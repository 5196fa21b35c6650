import Iaam.Theorems.Disposal

/-! First in, first out: what a disposal takes and what it leaves.

The lots are a queue of quantities, drawn from the front. A disposal takes whole lots, and part of at most one more;
no quantity, no cost and no accrued interest is lost where that lot is split. -/

namespace Iaam
namespace Fifo
open Outcome Disposal

/-! ### A queue of quantities -/

section Queue
variable {κ α : Type} [AddCommGroup α] [LinearOrder α] [IsOrderedAddMonoid α]

/-- What a draw from the front of a queue leaves. -/
def left : α → List (κ × α) → List (κ × α)
  | _, [] => []
  | q, (k, n) :: entries => if n ≤ q then left (q - n) entries else (k, n - q) :: entries

/-- Two draws leave what one of their sum does. -/
theorem left_add {a b : α} (hb : 0 ≤ b) (entries : List (κ × α)) :
    left b (left a entries) = left (a + b) entries := by
  induction entries generalizing a with
  | nil => rfl
  | cons entry entries ih =>
    obtain ⟨k, n⟩ := entry
    rw [left, left]
    by_cases hn : n ≤ a
    · rw [if_pos hn, if_pos (hn.trans (le_add_of_nonneg_right hb)), ih, sub_add_eq_add_sub]
    · rw [if_neg hn, left]
      by_cases hab : n - a ≤ b
      · rw [if_pos hab, if_pos (sub_le_iff_le_add'.mp hab), sub_sub_eq_add_sub, add_comm b a]
      · rw [if_neg hab, if_neg fun h => hab (sub_le_iff_le_add'.mpr h), sub_sub]

end Queue

/-! ### The lots that go -/

/-- The lots that go whole, and the lot that is split with what goes of it. -/
def cut : ℚ → List Lot → List Lot × Option (Lot × ℚ)
  | _, [] => ([], none)
  | q, lot :: lots =>
    if q = 0 then ([], none)
    else if lot.quantity.val ≤ q then
      (lot :: (cut (q - lot.quantity.val) lots).1, (cut (q - lot.quantity.val) lots).2)
    else ([], some (lot, q))

/-- The amounts of a lot that are split with it. -/
def amounts (lot : Lot) : List Money :=
  lot.costBasis :: (lot.accruedInterestPaid.toList ++ (lot.acquisitionBasis.toList ++ lot.receivedToDate.toList))

/-- The cost that each lot gives up. -/
def released (q : ℚ) (lots : List Lot) : List Int :=
  (cut q lots).1.map (fun lot => lot.costBasis.amount.raw) ++
    (cut q lots).2.toList.map fun (lot, taken) => roundHalfEven (lot.costBasis.amount.raw * taken / lot.quantity.val)

/-- The decimals of a disposal are in range: the sum of the quantities, and the products of the lot that is
    split. -/
structure DecimalsFit (lots : List Lot) (q : ℚ) : Prop where
  sum : quantitySum lots ≤ decimalMax
  products : ∀ lot taken, (cut q lots).2 = some (lot, taken) → ∀ amount ∈ amounts lot,
    |amount.amount.raw * taken| ≤ decimalMax

/-- What it takes for a disposal to succeed. -/
structure Allowed (lots : List Lot) (q : ℚ) : Prop where
  nonempty : lots ≠ []
  currency : ∃ c, InCurrency c lots
  enough : q ≤ quantitySum lots
  decimals : DecimalsFit lots q
  /-- Every running sum of the released cost is a 64-bit amount. -/
  released : ∀ p, p <+: released q lots → FitsI64 p.sum

/-! ### The lot that is split -/

/-- A lot in two: the part that goes and the part that stays. -/
structure Split (lot : Lot) (part : DisposedPart) (kept : Lot) : Prop where
  id : part.lot = lot.id ∧ kept.id = lot.id
  acquired : part.acquired = lot.acquired ∧ kept.acquired = lot.acquired
  instrument : kept.instrument = lot.instrument
  quantity : part.quantity.val + kept.quantity.val = lot.quantity.val
  basis : ∀ c, part.basisReleased.rawIn c + kept.costBasis.rawIn c = lot.costBasis.rawIn c
  interest : ∀ c, Money.knownIn c part.accruedInterestReleased + Money.knownIn c kept.accruedInterestPaid =
    Money.knownIn c lot.accruedInterestPaid

theorem splitOptionalBasis_ok {total taken kept : Option Money} {takenQty lotQty : Dec}
    (h : splitOptionalBasis total takenQty lotQty = .ok (taken, kept)) (c : CurrencyCode) :
    Money.knownIn c taken + Money.knownIn c kept = Money.knownIn c total := by
  cases total with
  | none =>
    cases h
    rfl
  | some total =>
    obtain ⟨share, -, h⟩ := bind_ok.mp h
    obtain ⟨rest, hrest, h⟩ := bind_ok.mp h
    cases h
    simp only [Money.knownIn_some]
    rw [Money.rawIn_trySub (convert_ok.mp hrest)]
    ring

theorem splitLot_split {lot kept : Lot} {taken : Dec} {part : DisposedPart}
    (h : splitLot lot taken = .ok (part, kept)) : Split lot part kept ∧ part.quantity = taken ∧
      part.basisReleased.amount.raw = roundHalfEven (lot.costBasis.amount.raw * taken.val / lot.quantity.val) := by
  obtain ⟨share, hshare, h⟩ := bind_ok.mp h
  obtain ⟨keptBasis, hkept, h⟩ := bind_ok.mp h
  obtain ⟨⟨takenInterest, keptInterest⟩, hinterest, h⟩ := bind_ok.mp h
  obtain ⟨⟨_, keptAcquisition⟩, -, h⟩ := bind_ok.mp h
  obtain ⟨⟨_, keptReceived⟩, -, h⟩ := bind_ok.mp h
  obtain ⟨keptQuantity, hquantity, h⟩ := bind_ok.mp h
  cases h
  refine ⟨⟨⟨rfl, rfl⟩, ⟨rfl, rfl⟩, rfl, ?_, fun c => ?_, splitOptionalBasis_ok hinterest⟩, rfl,
    (splitBasis_ok.mp hshare).2.2.2.1⟩
  · change taken.val + keptQuantity.val = lot.quantity.val
    rw [decSub_ok.mp hquantity]
    ring
  · change share.rawIn c + keptBasis.rawIn c = lot.costBasis.rawIn c
    rw [Money.rawIn_trySub (convert_ok.mp hkept)]
    ring

/-- A part takes no more of an amount than there is. -/
theorem exists_splitBasis {taken whole : Dec} (h0 : 0 < taken.val) (hle : taken.val ≤ whole.val) {total : Money}
    (hproduct : |total.amount.raw * taken.val| ≤ decimalMax) :
    ∃ share kept, splitBasis total taken whole = .ok share ∧ total.trySub share = .ok kept := by
  have hq : 0 < whole.val := h0.trans_le hle
  have hratio : taken.val / whole.val ≤ 1 := (div_le_one hq).mpr hle
  have hratio0 : 0 ≤ taken.val / whole.val := (div_pos h0 hq).le
  have hscaled : |total.amount.raw * taken.val / whole.val| ≤ decimalMax := by
    rw [mul_div_assoc, abs_mul, abs_of_nonneg hratio0]
    exact (mul_le_of_le_one_right (abs_nonneg _) hratio).trans total.amount.fits.inRange
  -- the share lies between zero and the amount, whatever its sign
  have hfits : FitsI64 (roundHalfEven (total.amount.raw * taken.val / whole.val)) ∧
      FitsI64 (total.amount.raw - roundHalfEven (total.amount.raw * taken.val / whole.val)) := by
    obtain ⟨hlow, hhigh⟩ := total.amount.fits
    rw [mul_div_assoc]
    unfold FitsI64
    rcases le_total 0 total.amount.raw with hsign | hsign
    · have hcast : (0 : ℚ) ≤ total.amount.raw := by exact_mod_cast hsign
      have hle := roundHalfEven_le (mul_le_of_le_one_right hcast hratio)
      have hge : 0 ≤ roundHalfEven (total.amount.raw * (taken.val / whole.val)) :=
        le_roundHalfEven (by exact_mod_cast mul_nonneg hcast hratio0)
      omega
    · have hcast : (total.amount.raw : ℚ) ≤ 0 := by exact_mod_cast hsign
      have hge := le_roundHalfEven (le_mul_of_le_one_right hcast hratio)
      have hle : roundHalfEven (total.amount.raw * (taken.val / whole.val)) ≤ 0 :=
        roundHalfEven_le (by exact_mod_cast mul_nonpos_of_nonpos_of_nonneg hcast hratio0)
      omega
  have hsplit : splitBasis total taken whole = .ok ⟨⟨_, hfits.1⟩, total.currency⟩ :=
    splitBasis_ok.mpr ⟨hproduct, hq.ne', hscaled, rfl, rfl⟩
  exact ⟨_, ⟨⟨_, hfits.2⟩, total.currency⟩, hsplit, Money.trySub_ok.mpr ⟨rfl, rfl, rfl⟩⟩

section Part
variable {lot : Lot} {taken : Dec} (h0 : 0 < taken.val) (hlt : taken.val < lot.quantity.val)
include h0 hlt

theorem exists_splitOptionalBasis {total : Option Money}
    (hproducts : ∀ amount ∈ total.toList, |amount.amount.raw * taken.val| ≤ decimalMax) :
    ∃ shares, splitOptionalBasis total taken lot.quantity = .ok shares := by
  cases total with
  | none => exact ⟨_, rfl⟩
  | some total =>
    obtain ⟨share, kept, hshare, hkept⟩ := exists_splitBasis h0 hlt.le (hproducts total (List.mem_singleton_self _))
    exact ⟨_, bind_ok.mpr ⟨share, hshare, bind_ok.mpr ⟨kept, convert_ok.mpr hkept, rfl⟩⟩⟩

omit h0 hlt in
theorem product_of_split {total : Option Money} {of : Dec} {shares : Option Money × Option Money}
    (h : splitOptionalBasis total taken of = .ok shares) :
    ∀ amount ∈ total.toList, |amount.amount.raw * taken.val| ≤ decimalMax := by
  cases total with
  | none => exact fun _ hx => (nomatch hx)
  | some total =>
    obtain ⟨share, hshare, -⟩ := bind_ok.mp h
    exact List.forall_mem_singleton.mpr (splitBasis_ok.mp hshare).1

/-- A lot is split when the products of its amounts are in range. -/
theorem splitLot_iff : (∃ r, splitLot lot taken = .ok r) ↔
    ∀ amount ∈ amounts lot, |amount.amount.raw * taken.val| ≤ decimalMax := by
  unfold amounts
  rw [List.forall_mem_cons, List.forall_mem_append, List.forall_mem_append]
  constructor
  · rintro ⟨r, h⟩
    obtain ⟨share, hshare, h⟩ := bind_ok.mp h
    obtain ⟨keptBasis, -, h⟩ := bind_ok.mp h
    obtain ⟨interest, hinterest, h⟩ := bind_ok.mp h
    obtain ⟨acquisition, hacquisition, h⟩ := bind_ok.mp h
    obtain ⟨received, hreceived, -⟩ := bind_ok.mp h
    exact ⟨(splitBasis_ok.mp hshare).1, product_of_split hinterest, product_of_split hacquisition,
      product_of_split hreceived⟩
  · rintro ⟨hcost, hinterest, hacquisition, hreceived⟩
    obtain ⟨share, kept, hshare, hkept⟩ := exists_splitBasis h0 hlt.le hcost
    obtain ⟨interest, hinterest⟩ := exists_splitOptionalBasis h0 hlt hinterest
    obtain ⟨acquisition, hacquisition⟩ := exists_splitOptionalBasis h0 hlt hacquisition
    obtain ⟨received, hreceived⟩ := exists_splitOptionalBasis h0 hlt hreceived
    have hrange : |lot.quantity.val - taken.val| ≤ decimalMax := by
      have hle := (abs_le.mp lot.quantity.inRange).2
      rw [abs_le]
      constructor <;> linarith
    have hquantity : (decSub lot.quantity taken : Result DisposalError Dec) = .ok ⟨_, hrange⟩ := decSub_ok.mpr rfl
    refine exists_ok ?_
    unfold splitLot
    simp only [hshare, convert_ok.mpr hkept, hinterest, hacquisition, hreceived, hquantity, ok_bind]
    rfl

end Part

/-! ### The loop -/

@[simp] theorem cut_zero (lots : List Lot) : cut 0 lots = ([], none) := by
  cases lots with
  | nil => rfl
  | cons lot lots => rw [cut, if_pos rfl]

/-- The parts and the lots a disposal gives: the first lots go whole, at most one more is split, and the lots behind
    it stay as they are. -/
inductive Cuts : List Lot → List DisposedPart → List Lot → Prop
  | between {whole later : List Lot} : Cuts (whole ++ later) (whole.map disposeWhole) later
  | within {whole later : List Lot} {lot kept : Lot} {part : DisposedPart} : Split lot part kept →
      Cuts (whole ++ lot :: later) (whole.map disposeWhole ++ [part]) (kept :: later)

theorem Cuts.cons {lot : Lot} {lots remaining : List Lot} {disposed : List DisposedPart}
    (h : Cuts lots disposed remaining) : Cuts (lot :: lots) (disposeWhole lot :: disposed) remaining := by
  cases h with
  | @between whole => exact @Cuts.between (lot :: whole) _
  | @within whole _ _ _ _ hsplit => exact @Cuts.within (lot :: whole) _ _ _ _ hsplit

/-- What the parts and the lots that stay add up to, for anything that a split keeps. -/
theorem Cuts.sum {M : Type} [AddCommMonoid M] {f : Lot → M} {g : DisposedPart → M} {lots remaining : List Lot}
    {disposed : List DisposedPart} (h : Cuts lots disposed remaining) (hwhole : ∀ lot, g (disposeWhole lot) = f lot)
    (hsplit : ∀ {lot part kept}, Split lot part kept → g part + f kept = f lot) :
    (disposed.map g).sum + (remaining.map f).sum = (lots.map f).sum := by
  have hmap : ∀ whole : List Lot, (whole.map disposeWhole).map g = whole.map f := fun whole => by
    rw [List.map_map]
    exact List.map_congr_left fun lot _ => hwhole lot
  cases h with
  | between => rw [hmap, List.map_append, List.sum_append]
  | within h =>
    simp only [List.map_append, hmap, List.map_cons, List.map_nil, List.sum_append, List.sum_cons, List.sum_nil, add_zero]
    rw [add_assoc, ← add_assoc (g _), hsplit h]

section Loop
variable {lots remaining : List Lot} {left : Dec} {disposed : List DisposedPart}

theorem fifoLoop_cuts (h : fifoLoop left lots = .ok (disposed, remaining)) (hend : left.val ≤ quantitySum lots) :
    Cuts lots disposed remaining := by
  induction lots generalizing left disposed remaining with
  | nil =>
    cases h
    exact @Cuts.between [] _
  | cons lot lots ih =>
    rw [quantitySum_cons] at hend
    rcases fifoLoop_cons h with ⟨-, rfl, rfl⟩ | ⟨-, -, left', disposed', hleft, hloop, rfl⟩ |
      ⟨-, -, part, kept, hsplit, rfl, rfl⟩
    · exact @Cuts.between [] _
    · exact (ih hloop (by linarith)).cons
    · exact @Cuts.within [] _ _ _ _ (splitLot_split hsplit).1

theorem fifoLoop_released (h : fifoLoop left lots = .ok (disposed, remaining)) :
    disposed.map (fun part => part.basisReleased.amount.raw) = released left.val lots := by
  induction lots generalizing left disposed remaining with
  | nil =>
    cases h
    rfl
  | cons lot lots ih =>
    rcases fifoLoop_cons h with ⟨hz, rfl, -⟩ | ⟨hz, hle, left', disposed', hleft, hloop, rfl⟩ |
      ⟨hz, hlt, part, kept, hsplit, rfl, -⟩
    · rw [hz, released, cut_zero]
      rfl
    · rw [List.map_cons, ih hloop, hleft, released, released, cut, if_neg hz, if_pos hle]
      rfl
    · rw [released, cut, if_neg hz, if_neg (not_le.mpr hlt), List.map_singleton, (splitLot_split hsplit).2.2]
      rfl

/-- What is disposed of is what was asked for. -/
theorem fifoLoop_disposed (h : fifoLoop left lots = .ok (disposed, remaining)) (hp : Positive lots)
    (hend : left.val ≤ quantitySum lots) (hne : lots ≠ []) :
    (disposed.map fun part => part.quantity.val).sum = left.val := by
  induction lots generalizing left disposed remaining with
  | nil => exact absurd rfl hne
  | cons lot lots ih =>
    rw [quantitySum_cons] at hend
    rcases fifoLoop_cons h with ⟨hz, rfl, -⟩ | ⟨-, hle, left', disposed', hleft, hloop, rfl⟩ |
      ⟨-, -, part, kept, hsplit, rfl, -⟩
    · exact hz.symm
    · rw [List.map_cons, List.sum_cons]
      change lot.quantity.val + _ = left.val
      cases lots with
      | nil =>
        cases hloop
        rw [quantitySum_nil, add_zero] at hend
        rw [List.map_nil, List.sum_nil, add_zero]
        exact le_antisymm hle hend
      | cons next lots =>
        rw [ih hloop (List.forall_mem_cons.mp hp).2 (by linarith) (List.cons_ne_nil _ _), hleft]
        ring
    · rw [List.map_singleton, List.sum_singleton, (splitLot_split hsplit).2.1]

/-- The loop succeeds when the products of the lot that is split are in range. -/
theorem fifoLoop_iff (hp : ∀ lot ∈ lots, 0 ≤ lot.quantity.val) (h0 : 0 ≤ left.val) (hend : left.val ≤ quantitySum lots) :
    (∃ r, fifoLoop left lots = .ok r) ↔ ∀ lot taken, (cut left.val lots).2 = some (lot, taken) →
      ∀ amount ∈ amounts lot, |amount.amount.raw * taken| ≤ decimalMax := by
  induction lots generalizing left with
  | nil => exact ⟨fun _ _ _ h => (nomatch h), fun _ => ⟨_, rfl⟩⟩
  | cons lot lots ih =>
    obtain ⟨-, hlots⟩ := List.forall_mem_cons.mp hp
    rw [quantitySum_cons] at hend
    by_cases hz : left.val = 0
    · rw [hz, cut_zero]
      exact ⟨fun _ _ _ h => (nomatch h), fun _ => ⟨_, fifoLoop_zero hz _⟩⟩
    by_cases hle : lot.quantity.val ≤ left.val
    · have hrange : |left.val - lot.quantity.val| ≤ decimalMax := by
        have hmax := (abs_le.mp left.inRange).2
        have hpos := hp lot List.mem_cons_self
        rw [abs_of_nonneg (sub_nonneg.mpr hle)]
        linarith
      have hsub : (decSub left lot.quantity : Result DisposalError Dec) = .ok ⟨_, hrange⟩ := decSub_ok.mpr rfl
      have hrest := @ih ⟨_, hrange⟩ hlots (sub_nonneg.mpr hle) (sub_le_iff_le_add'.mpr hend)
      rw [cut, if_neg hz, if_pos hle, ← hrest, fifoLoop, if_neg fun h => hz (Dec.isZero_iff.mp h), if_pos (Dec.le_iff.mpr hle), hsub, ok_bind]
      constructor
      · rintro ⟨r, h⟩
        obtain ⟨r', hloop, -⟩ := bind_ok.mp h
        exact ⟨r', hloop⟩
      · rintro ⟨⟨disposed, remaining⟩, hloop⟩
        exact ⟨_, bind_ok.mpr ⟨_, hloop, rfl⟩⟩
    · have hlt := lt_of_not_ge hle
      have hcut : (∀ lot' taken, (cut left.val (lot :: lots)).2 = some (lot', taken) →
          ∀ amount ∈ amounts lot', |amount.amount.raw * taken| ≤ decimalMax) ↔
            ∀ amount ∈ amounts lot, |amount.amount.raw * left.val| ≤ decimalMax := by
        rw [cut, if_neg hz, if_neg hle]
        exact ⟨fun h => h lot left.val rfl, fun h lot' taken heq => by cases heq; exact h⟩
      rw [hcut, ← splitLot_iff (lt_of_le_of_ne h0 (Ne.symm hz)) hlt]
      rw [fifoLoop, if_neg fun h => hz (Dec.isZero_iff.mp h), if_neg fun h => hle (Dec.le_iff.mp h)]
      constructor
      · rintro ⟨r, h⟩
        obtain ⟨r', hsplit, -⟩ := bind_ok.mp h
        exact ⟨r', hsplit⟩
      · rintro ⟨⟨part, kept⟩, hsplit⟩
        exact ⟨_, bind_ok.mpr ⟨_, hsplit, bind_ok.mpr ⟨_, fifoLoop_zero Dec.zero_val _, rfl⟩⟩⟩

/-- The loop leaves what a draw from the queue does. -/
theorem fifoLoop_left (h : fifoLoop left lots = .ok (disposed, remaining)) (hp : Positive lots) (h0 : 0 ≤ left.val) :
    remaining.map (fun lot => (lot.id, lot.quantity.val)) =
      Fifo.left left.val (lots.map fun lot => (lot.id, lot.quantity.val)) := by
  induction lots generalizing left disposed remaining with
  | nil =>
    cases h
    rfl
  | cons lot lots ih =>
    obtain ⟨hpos, hlots⟩ := List.forall_mem_cons.mp hp
    rw [List.map_cons, Fifo.left]
    rcases fifoLoop_cons h with ⟨hz, -, rfl⟩ | ⟨-, hle, left', disposed', hleft, hloop, -⟩ |
      ⟨-, hlt, part, kept, hsplit, -, rfl⟩
    · rw [hz, if_neg (not_le.mpr hpos), sub_zero]
      rfl
    · rw [if_pos hle, ih hloop hlots (hleft ▸ sub_nonneg.mpr hle), hleft]
    · obtain ⟨hlot, hquantity, -⟩ := splitLot_split hsplit
      have hkept := hlot.quantity
      rw [hquantity] at hkept
      rw [if_neg (not_le.mpr hlt), List.map_cons, hlot.id.2, ← hkept, add_sub_cancel_left]

theorem fifoLoop_released_currency {c : CurrencyCode} (h : fifoLoop left lots = .ok (disposed, remaining))
    (hc : InCurrency c lots) : ∀ part ∈ disposed, part.basisReleased.currency = c := by
  induction lots generalizing left disposed remaining with
  | nil =>
    cases h
    exact fun _ hx => (nomatch hx)
  | cons lot lots ih =>
    obtain ⟨hlot, hlots⟩ := List.forall_mem_cons.mp hc
    rcases fifoLoop_cons h with ⟨-, rfl, -⟩ | ⟨-, -, left', disposed', -, hloop, rfl⟩ |
      ⟨-, -, part, kept, hsplit, rfl, -⟩
    · exact fun _ hx => (nomatch hx)
    · exact List.forall_mem_cons.mpr ⟨hlot, ih hloop hlots⟩
    · exact List.forall_mem_singleton.mpr ((splitLot_ok hsplit).2.2.2.trans hlot)

end Loop

/-! ### The rule -/

section Rule
variable {lots : List Lot} {q : Quantity} {r : DisposalResult}

theorem mixed_iff {c : CurrencyCode} :
    (lots.any fun lot => lot.costBasis.currency ≠ c) = false ↔ InCurrency c lots := by
  rw [List.any_eq_false]
  constructor
  · intro h lot hlot
    by_contra hne
    exact h lot hlot (decide_eq_true hne)
  · intro h lot hlot hne
    exact of_decide_eq_true hne (h lot hlot)

/-- The checks of the rule, its loop and its sum. -/
theorem apply_iff_loop : fifoV1Apply ⟨lots, q⟩ = .ok r ↔ ∃ first rest available, lots = first :: rest ∧
    InCurrency first.costBasis.currency lots ∧
    (decSum (lots.map Lot.quantity) : Result DisposalError Dec) = .ok available ∧ q.val ≤ available.val ∧
    ∃ disposed remaining released, fifoLoop q lots = .ok (disposed, remaining) ∧
      Money.sum (disposed.map DisposedPart.basisReleased) first.costBasis.currency = .ok released ∧
      r = ⟨fifoV1Id, disposed, remaining, released⟩ := by
  cases lots with
  | nil => exact ⟨fun h => (nomatch h), fun ⟨_, _, _, h, _⟩ => (nomatch h)⟩
  | cons first rest =>
    unfold fifoV1Apply
    dsimp only
    constructor
    · intro h
      split at h
      · cases h
      next hmixed =>
      obtain ⟨available, havailable, h⟩ := bind_ok.mp h
      split at h
      · cases h
      next henough =>
      obtain ⟨⟨disposed, remaining⟩, hloop, h⟩ := bind_ok.mp h
      obtain ⟨released, hreleased, h⟩ := bind_ok.mp h
      cases h
      exact ⟨first, rest, available, rfl, mixed_iff.mp (Bool.eq_false_iff.mpr hmixed), havailable,
        not_lt.mp fun hlt => henough (Dec.lt_iff.mpr hlt), disposed, remaining, released, hloop,
        convert_ok.mp hreleased, rfl⟩
    · rintro ⟨_, _, available, hlots, hcurrency, havailable, henough, disposed, remaining, released, hloop, hreleased,
        rfl⟩
      cases hlots
      rw [if_neg (Bool.eq_false_iff.mp (mixed_iff.mpr hcurrency)), havailable, ok_bind,
        if_neg fun hlt => not_lt.mpr henough (Dec.lt_iff.mp hlt), hloop, ok_bind]
      exact bind_ok.mpr ⟨released, convert_ok.mpr hreleased, rfl⟩

theorem quantities_eq : ((lots.map Lot.quantity).map Dec.val).sum = quantitySum lots := by
  rw [List.map_map]
  rfl

theorem apply_loop (h : fifoV1Apply ⟨lots, q⟩ = .ok r) :
    lots ≠ [] ∧ q.val ≤ quantitySum lots ∧ fifoLoop q lots = .ok (r.disposed, r.remaining) := by
  obtain ⟨first, rest, available, hlots, -, havailable, henough, disposed, remaining, released, hloop, -, rfl⟩ :=
    apply_iff_loop.mp h
  rw [decSum_ok havailable, quantities_eq] at henough
  exact ⟨by rw [hlots]; exact List.cons_ne_nil _ _, henough, hloop⟩

/-- A disposal of a quantity that is not negative succeeds exactly when it is allowed. -/
theorem apply_iff (hp : Positive lots) (h0 : 0 ≤ q.val) :
    (∃ r, fifoV1Apply ⟨lots, q⟩ = .ok r) ↔ Allowed lots q.val := by
  have hquantities : ∀ x ∈ lots.map Lot.quantity, 0 ≤ x.val := List.forall_mem_map.mpr fun lot hlot => (hp lot hlot).le
  have hsum := exists_decSum (ε := DisposalError) hquantities
  rw [quantities_eq] at hsum
  have hraws : ∀ disposed remaining, fifoLoop q lots = .ok (disposed, remaining) →
      (disposed.map DisposedPart.basisReleased).map (fun x => x.amount.raw) = released q.val lots :=
    fun disposed remaining hloop => by
      rw [List.map_map]
      exact fifoLoop_released hloop
  constructor
  · rintro ⟨r, h⟩
    obtain ⟨first, rest, available, hlots, hcurrency, havailable, henough, disposed, remaining, released, hloop,
      hreleased, -⟩ := apply_iff_loop.mp h
    rw [decSum_ok havailable, quantities_eq] at henough
    refine ⟨by rw [hlots]; exact List.cons_ne_nil _ _, ⟨_, hcurrency⟩, henough,
      ⟨hsum.mp ⟨available, havailable⟩, (fifoLoop_iff (fun lot hlot => (hp lot hlot).le) h0 henough).mp ⟨_, hloop⟩⟩, ?_⟩
    rw [← hraws _ _ hloop]
    exact (Money.sum_fits.mp ⟨released, hreleased⟩).2
  · rintro ⟨hne, ⟨c, hcurrency⟩, henough, ⟨hmax, hproducts⟩, hreleased⟩
    obtain ⟨first, rest, rfl⟩ := List.exists_cons_of_ne_nil hne
    obtain rfl : first.costBasis.currency = c := hcurrency first List.mem_cons_self
    obtain ⟨available, havailable⟩ := hsum.mpr hmax
    obtain ⟨⟨disposed, remaining⟩, hloop⟩ := (fifoLoop_iff (fun lot hlot => (hp lot hlot).le) h0 henough).mpr hproducts
    have hcurrencies : ∀ x ∈ disposed.map DisposedPart.basisReleased, x.currency = first.costBasis.currency :=
      List.forall_mem_map.mpr (fifoLoop_released_currency hloop hcurrency)
    rw [← hraws _ _ hloop] at hreleased
    obtain ⟨total, htotal⟩ := Money.sum_fits.mpr ⟨hcurrencies, hreleased⟩
    rw [← quantities_eq, ← decSum_ok havailable] at henough
    exact ⟨_, apply_iff_loop.mpr ⟨first, rest, available, rfl, hcurrency, havailable, henough, disposed, remaining,
      total, hloop, htotal, rfl⟩⟩

/-- What a disposal keeps: it takes what was asked for from the front of the lots, and loses nothing. -/
structure Conserves (lots : List Lot) (q : Quantity) (r : DisposalResult) : Prop where
  order : Cuts lots r.disposed r.remaining
  disposed : (r.disposed.map fun part => part.quantity.val).sum = q.val
  quantity : (r.disposed.map fun part => part.quantity.val).sum + quantitySum r.remaining = quantitySum lots
  basis : ∀ c, (r.disposed.map fun part => part.basisReleased.rawIn c).sum +
    (r.remaining.map fun lot => lot.costBasis.rawIn c).sum = (lots.map fun lot => lot.costBasis.rawIn c).sum
  interest : ∀ c, (r.disposed.map fun part => Money.knownIn c part.accruedInterestReleased).sum +
    (r.remaining.map fun lot => Money.knownIn c lot.accruedInterestPaid).sum =
      (lots.map fun lot => Money.knownIn c lot.accruedInterestPaid).sum

theorem apply_conserves (hp : Positive lots) (h : fifoV1Apply ⟨lots, q⟩ = .ok r) : Conserves lots q r := by
  obtain ⟨hne, henough, hloop⟩ := apply_loop h
  have hcuts := fifoLoop_cuts hloop henough
  exact
    { order := hcuts
      disposed := fifoLoop_disposed hloop hp henough hne
      quantity := hcuts.sum (fun _ => rfl) fun hsplit => hsplit.quantity
      basis := fun c => hcuts.sum (fun _ => rfl) fun hsplit => hsplit.basis c
      interest := fun c => hcuts.sum (fun _ => rfl) fun hsplit => hsplit.interest c }

/-- The lots as a queue of quantities. -/
def queue (lots : List Lot) : List (LotId × ℚ) := lots.map fun lot => (lot.id, lot.quantity.val)

theorem apply_left (hp : Positive lots) (h0 : 0 ≤ q.val) (h : fifoV1Apply ⟨lots, q⟩ = .ok r) :
    queue r.remaining = left q.val (queue lots) :=
  fifoLoop_left (apply_loop h).2.2 hp h0

end Rule

/-- First in, first out. A disposal of what is there succeeds when its amounts are in range; one that succeeds keeps
    quantities, cost and accrued interest, and takes the oldest; and two disposals leave the lots that one of their
    sum leaves. -/
theorem fifo_conserves {lots : List Lot} (hp : Positive lots) :
    (∀ q : Quantity, 0 ≤ q.val → ((∃ r, fifoV1Apply ⟨lots, q⟩ = .ok r) ↔ Allowed lots q.val)) ∧
    (∀ q r, fifoV1Apply ⟨lots, q⟩ = .ok r → Conserves lots q r) ∧
    ∀ a b sum : Quantity, 0 ≤ a.val → 0 ≤ b.val → sum.val = a.val + b.val →
      ∀ first second whole, fifoV1Apply ⟨lots, a⟩ = .ok first → fifoV1Apply ⟨first.remaining, b⟩ = .ok second →
        fifoV1Apply ⟨lots, sum⟩ = .ok whole → queue second.remaining = queue whole.remaining := by
  refine ⟨fun q h0 => apply_iff hp h0, fun q r h => apply_conserves hp h, ?_⟩
  intro a b sum ha hb hsum first second whole hfirst hsecond hwhole
  have hrest : Positive first.remaining := fifoLoop_positive (apply_loop hfirst).2.2 hp
  rw [apply_left hrest hb hsecond, apply_left hp ha hfirst, left_add hb, ← hsum,
    apply_left hp (hsum ▸ add_nonneg ha hb) hwhole]

/-! ### Lots -/

/-- Two lots of a unit. -/
def units (cost : Money) : List Lot :=
  [⟨⟨1⟩, ⟨1⟩, none, Dec.one, cost, none, none, none⟩, ⟨⟨2⟩, ⟨1⟩, none, Dec.one, cost, none, none, none⟩]

theorem positive_units (cost : Money) : Positive (units cost) := by
  intro lot hlot
  rcases List.mem_pair.mp hlot with rfl | rfl
  · exact one_pos
  · exact one_pos

def half : Dec := ⟨1 / 2, by decide +kernel⟩
def oneAndHalf : Dec := ⟨3 / 2, by decide +kernel⟩

/-- Half a unit and then a unit leave half a unit of the second lot. -/
theorem units_in_two : ∃ first second whole, fifoV1Apply ⟨units ⟨.new 101, .rub⟩, half⟩ = .ok first ∧
    fifoV1Apply ⟨first.remaining, Dec.one⟩ = .ok second ∧
    fifoV1Apply ⟨units ⟨.new 101, .rub⟩, oneAndHalf⟩ = .ok whole ∧
    queue second.remaining = queue whole.remaining ∧ Conserves (units ⟨.new 101, .rub⟩) oneAndHalf whole := by
  have htwo : (fifoV1Apply ⟨units ⟨.new 101, .rub⟩, half⟩ >>= fun first =>
      fifoV1Apply ⟨first.remaining, Dec.one⟩).isOk = true := by decide +kernel
  have hone : (fifoV1Apply ⟨units ⟨.new 101, .rub⟩, oneAndHalf⟩).isOk = true := by decide +kernel
  obtain ⟨second, hboth⟩ := exists_ok htwo
  obtain ⟨first, hfirst, hsecond⟩ := bind_ok.mp hboth
  obtain ⟨whole, hwhole⟩ := exists_ok hone
  obtain ⟨-, hkeeps, hleft⟩ := fifo_conserves (positive_units ⟨.new 101, .rub⟩)
  refine ⟨first, second, whole, hfirst, hsecond, hwhole, ?_, hkeeps _ _ hwhole⟩
  exact hleft half Dec.one oneAndHalf (by decide +kernel) zero_le_one (by decide +kernel) _ _ _ hfirst hsecond hwhole

theorem refused_of_isOk {lots : List Lot} {q : Quantity} (h : (fifoV1Apply ⟨lots, q⟩).isOk = false) :
    ¬∃ r, fifoV1Apply ⟨lots, q⟩ = .ok r := by
  rintro ⟨r, hr⟩
  rw [hr] at h
  cases h

/-- Two units of an enormous cost, in one currency and both asked for, are refused: their costs do not add up. A
    request below zero can be refused as well, and one that is not gives its unit back to the lot that is then in
    front. -/
theorem refused_and_misplaced :
    (Positive (units ⟨.new (2 ^ 62), .rub⟩) ∧ InCurrency .rub (units ⟨.new (2 ^ 62), .rub⟩) ∧
      DecimalsFit (units ⟨.new (2 ^ 62), .rub⟩) 2 ∧ quantitySum (units ⟨.new (2 ^ 62), .rub⟩) = 2 ∧
      ¬∃ r, fifoV1Apply ⟨units ⟨.new (2 ^ 62), .rub⟩, .ofInt64 2⟩ = .ok r) ∧
    (¬∃ r, fifoV1Apply ⟨units ⟨.new (-2 ^ 63), .rub⟩, .ofInt64 (-1)⟩ = .ok r) ∧
    ∃ first second whole, fifoV1Apply ⟨units ⟨.new 101, .rub⟩, Dec.one⟩ = .ok first ∧
      fifoV1Apply ⟨first.remaining, .ofInt64 (-1)⟩ = .ok second ∧
      fifoV1Apply ⟨units ⟨.new 101, .rub⟩, Dec.zero⟩ = .ok whole ∧
      queue second.remaining = [(⟨2⟩, 2)] ∧ queue whole.remaining = [(⟨1⟩, 1), (⟨2⟩, 1)] := by
  refine ⟨?_, refused_of_isOk (by decide +kernel), ?_⟩
  · refine ⟨positive_units _, ?_, ⟨by decide +kernel, ?_⟩, by decide +kernel, refused_of_isOk (by decide +kernel)⟩
    · intro lot hlot
      rcases List.mem_pair.mp hlot with rfl | rfl <;> rfl
    · have hcut : (cut 2 (units ⟨.new (2 ^ 62), .rub⟩)).2 = none := by decide +kernel
      intro lot taken h
      rw [hcut] at h
      cases h
  · have htwo : (fifoV1Apply ⟨units ⟨.new 101, .rub⟩, Dec.one⟩ >>= fun first =>
        fifoV1Apply ⟨first.remaining, .ofInt64 (-1)⟩).toOption.map (fun r => queue r.remaining) =
          some [(⟨2⟩, 2)] := by decide +kernel
    have hone : (fifoV1Apply ⟨units ⟨.new 101, .rub⟩, Dec.zero⟩).toOption.map (fun r => queue r.remaining) =
        some [(⟨1⟩, 1), (⟨2⟩, 1)] := by decide +kernel
    obtain ⟨second, hboth⟩ := exists_ok (show (fifoV1Apply ⟨units ⟨.new 101, .rub⟩, Dec.one⟩ >>= fun first =>
      fifoV1Apply ⟨first.remaining, .ofInt64 (-1)⟩).isOk = true by decide +kernel)
    obtain ⟨whole, hwhole⟩ := exists_ok (show (fifoV1Apply ⟨units ⟨.new 101, .rub⟩, Dec.zero⟩).isOk = true by
      decide +kernel)
    obtain ⟨first, hfirst, hsecond⟩ := bind_ok.mp hboth
    exact ⟨first, second, whole, hfirst, hsecond, hwhole, read_of_ok hboth _ htwo, read_of_ok hwhole _ hone⟩

end Fifo
end Iaam
