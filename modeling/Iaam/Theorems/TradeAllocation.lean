import Iaam.Lib.Remainders
import Iaam.Lib.Runs
import Iaam.TradeAllocation

/-! The parts of a posted amount make it up, and each of them is its exact share rounded down or up. -/

namespace Iaam
namespace TradeAllocation
open Outcome Runs Remainders

/-- The exact share of a weight. -/
def shareOf (total : PostedMinor) (weights : List Quantity) (weight : Quantity) : ℚ :=
  total.raw * weight.val / (weights.map Dec.val).sum

section Parts
variable {total quantity : Dec} {weight : Quantity} {part : PostedMinor × Dec}

theorem partOf_ok (h : partOf total quantity weight = .ok part) (hnonneg : 0 ≤ total.val * weight.val / quantity.val) :
    part.1.raw = ⌊total.val * weight.val / quantity.val⌋ ∧ part.2.val = Int.fract (total.val * weight.val / quantity.val) := by
  obtain ⟨scaled, hscaled, h⟩ := bind_ok.mp h
  obtain ⟨exact, hexact, h⟩ := bind_ok.mp h
  have hval : exact.val = total.val * weight.val / quantity.val := by
    rw [(Dec.checkedDiv_ok.mp (mapError_ok.mp hexact)).2, Dec.checkedMul_ok.mp (mapError_ok.mp hscaled)]
  have htrunc : truncated exact.val = ⌊exact.val⌋ := if_pos (hval ▸ hnonneg)
  rw [htrunc] at h
  rw [← hval]
  split at h
  · cases h
  · next base hbase =>
    obtain ⟨remainder, hremainder, h⟩ := bind_ok.mp h
    cases h
    exact ⟨PostedMinor.ofInt_eq_some.mp hbase, Dec.checked_ok.mp (mapError_ok.mp hremainder)⟩

end Parts

/-! ### The units handed out -/

section Units
variable {base result : List PostedMinor} {places : List Nat}

theorem addUnit_ok {index : Nat} (h : addUnit base index = .ok result) (hindex : index < base.length) :
    result.length = base.length ∧ ∀ i : Nat, result[i]?.map PostedMinor.raw =
      base[i]?.map fun amount => amount.raw + if i = index then 1 else 0 := by
  simp only [addUnit] at h
  split at h
  · next amount hamount =>
    cases h
    refine ⟨List.length_set, fun i => ?_⟩
    have hraw := PostedMinor.ofInt_eq_some.mp hamount
    rw [List.getD_eq_getElem?_getD, List.getElem?_eq_getElem hindex] at hraw
    rw [List.getElem?_set]
    by_cases hi : index = i
    · subst hi
      rw [if_pos rfl, if_pos hindex, List.getElem?_eq_getElem hindex]
      simp [hraw]
    · rw [if_neg hi]
      simp [Ne.symm hi]
  · cases h

/-- Every place gets as many units as it is listed. -/
theorem units_of_run (h : Run (fun s i t => addUnit s i = .ok t) base places result)
    (hplaces : ∀ i ∈ places, i < base.length) : ∀ i : Nat, result[i]?.map PostedMinor.raw =
      base[i]?.map fun amount => amount.raw + (places.count i : ℤ) := by
  induction h with
  | nil s => simp
  | @cons s t u place places hstep _ ih =>
    obtain ⟨hlength, hunit⟩ := addUnit_ok hstep (hplaces place List.mem_cons_self)
    intro i
    have hrest := ih (fun j hj => hlength ▸ hplaces j (List.mem_cons_of_mem _ hj)) i
    have hboth := congrArg (Option.map (· + (places.count i : ℤ))) (hunit i)
    rw [Option.map_map, Option.map_map] at hboth
    refine hrest.trans (hboth.trans (congrArg (Option.map · s[i]?) (funext fun amount => ?_)))
    rw [List.count_cons, Function.comp_apply]
    by_cases hi : i = place
    · simp [hi]
      ring
    · simp [hi, Ne.symm hi]

end Units

/-! ### The allocation -/

theorem sum_ok {items : List Dec} {d : Dec} (h : Dec.sum items = .ok d) : d.val = (items.map Dec.val).sum :=
  ((foldlM_ok.mp h).adds Dec.val Dec.val fun _ hstep => Dec.checkedAdd_ok.mp hstep).trans (zero_add _)

theorem addBase_ok {sum sum' : PostedMinor} {part : PostedMinor × Dec} (h : addBase sum part = .ok sum') :
    sum'.raw = sum.raw + part.1.raw := by
  simp only [addBase] at h
  split at h
  · next s hs =>
    cases h
    exact PostedMinor.ofInt_eq_some.mp hs
  · cases h

theorem sorted_byRemainder (parts : List (PostedMinor × Dec)) :
    (byRemainder parts).Pairwise fun i j => remainderAt parts j ≤ remainderAt parts i := by
  let before := fun i j : Nat =>
    remainderAt parts j < remainderAt parts i ∨ (remainderAt parts i = remainderAt parts j ∧ i ≤ j)
  have htotal : Std.Total before := by
    refine ⟨fun i j => ?_⟩
    rcases lt_trichotomy (remainderAt parts i) (remainderAt parts j) with hlt | heq | hlt
    · exact .inr (.inl hlt)
    · rcases le_total i j with hle | hle
      · exact .inl (.inr ⟨heq, hle⟩)
      · exact .inr (.inr ⟨heq.symm, hle⟩)
    · exact .inl (.inl hlt)
  have htrans : IsTrans Nat before := by
    refine ⟨fun i j k hij hjk => ?_⟩
    rcases hij with hij | ⟨hij, hle⟩ <;> rcases hjk with hjk | ⟨hjk, hle'⟩
    · exact .inl (hjk.trans hij)
    · exact .inl (hjk ▸ hij)
    · exact .inl (hij ▸ hjk)
    · exact .inr ⟨hij.trans hjk, hle.trans hle'⟩
  refine (List.pairwise_insertionSort before _).imp fun hbefore => ?_
  rcases hbefore with hlt | ⟨heq, -⟩
  · exact hlt.le
  · exact heq.ge

section Shares
variable {total : PostedMinor} {weights : List Quantity} {parts : List (PostedMinor × Dec)}

/-- The shares make up the total. -/
theorem sum_shareOf (hsum : (weights.map Dec.val).sum ≠ 0) : (weights.map (shareOf total weights)).sum = total.raw := by
  have hmul : (weights.map (shareOf total weights)).sum =
      total.raw / (weights.map Dec.val).sum * (weights.map Dec.val).sum := by
    rw [← List.sum_map_mul_left]
    refine congrArg List.sum (List.map_congr_left fun weight _ => ?_)
    rw [shareOf]
    ring
  rw [hmul, div_mul_cancel₀ _ hsum]

theorem shareOf_nonneg (htotal : 0 ≤ total.raw) (hweights : ∀ weight ∈ weights, 0 ≤ weight.val) {weight : Quantity}
    (hweight : weight ∈ weights) : 0 ≤ shareOf total weights weight := by
  have hsum : 0 ≤ (weights.map Dec.val).sum := List.sum_nonneg fun x hx => by
    obtain ⟨y, hy, rfl⟩ := List.mem_map.mp hx
    exact hweights y hy
  exact div_nonneg (mul_nonneg (by exact_mod_cast htotal) (hweights weight hweight)) hsum

theorem parts_ok {quantity : Dec} (hquantity : quantity.val = (weights.map Dec.val).sum) (htotal : 0 ≤ total.raw)
    (hweights : ∀ weight ∈ weights, 0 ≤ weight.val) (h : weights.mapM (partOf (exactOf total) quantity) = .ok parts) :
    parts.map (fun part => part.1.raw) = (weights.map (shareOf total weights)).map Int.floor ∧
      parts.map (fun part => part.2.val) = (weights.map (shareOf total weights)).map Int.fract := by
  have hparts : List.Forall₂ (fun weight part => part.1.raw = ⌊shareOf total weights weight⌋ ∧
      part.2.val = Int.fract (shareOf total weights weight)) weights parts := by
    refine ((List.forall₂_and_left _ _).mpr ⟨fun weight hweight => hweight, mapM_ok.mp h⟩).imp fun weight part hpart => ?_
    have hnonneg := shareOf_nonneg htotal hweights hpart.1
    have hok := partOf_ok hpart.2 (by rw [hquantity]; exact hnonneg)
    rw [hquantity] at hok
    exact hok
  rw [List.map_map, List.map_map]
  exact ⟨(map_eq_of_forall₂ (hparts.imp fun _ _ h => h.1.symm)).symm,
    (map_eq_of_forall₂ (hparts.imp fun _ _ h => h.2.symm)).symm⟩

theorem remainderAt_eq {shares : List ℚ} (h : parts.map (fun part => part.2.val) = shares.map Int.fract) (i : Nat) :
    remainderAt parts i = Int.fract (shares.getD i 0) := by
  have hfract := congrArg (fun l : List ℚ => l[i]?.getD 0) h
  simp only [List.getElem?_map] at hfract
  have hleft : remainderAt parts i = (parts[i]?.map fun part => part.2.val).getD 0 := by
    rw [remainderAt]
    cases parts[i]? <;> rfl
  rw [hleft, hfract, List.getD_eq_getElem?_getD]
  cases shares[i]? with
  | none => exact Int.fract_zero.symm
  | some share => rfl

/-- The units left over by the floors are not negative. -/
theorem sum_floors_le {shares : List ℚ} {n : ℤ} (hsum : shares.sum = n) : 0 ≤ n - (shares.map Int.floor).sum := by
  have hcut := sum_fract shares
  have hnonneg : 0 ≤ (shares.map Int.fract).sum := List.sum_nonneg fun x hx => by
    obtain ⟨y, -, rfl⟩ := List.mem_map.mp hx
    exact Int.fract_nonneg y
  rw [hcut, hsum, ← Int.cast_sub] at hnonneg
  exact Int.cast_nonneg_iff.mp hnonneg

/-- The units handed out over the floors are those of the general method. -/
theorem raws_eq {shares : List ℚ} {places : List Nat} {result : List PostedMinor}
    (hfloors : parts.map (fun part => part.1.raw) = shares.map Int.floor)
    (hplaces : ∀ i ∈ places, i < parts.length) (h : places.foldlM addUnit (parts.map Prod.fst) = .ok result) :
    result.map PostedMinor.raw = withUnits shares places := by
  refine List.ext_getElem? fun i => ?_
  have hbase := congrArg (fun l : List ℤ => l[i]?.map (· + (places.count i : ℤ))) hfloors
  simp only [List.getElem?_map, Option.map_map] at hbase
  have hunits := units_of_run (foldlM_ok.mp h) (fun j hj => by rw [List.length_map]; exact hplaces j hj) i
  rw [getElem?_withUnits, List.getElem?_map, hunits, List.getElem?_map, Option.map_map]
  exact hbase

end Shares

/-- The parts make up the amount, and each is its exact share rounded down or up. -/
theorem allocateMinor_exact {total : PostedMinor} {weights : List Quantity} {result : List PostedMinor}
    (hweights : ∀ weight ∈ weights, 0 ≤ weight.val) (h : allocateMinor total weights = .ok result) :
    (result.map PostedMinor.raw).sum = total.raw ∧
      List.Forall₂ (fun part weight => part.raw = ⌊shareOf total weights weight⌋ ∨
        part.raw = ⌈shareOf total weights weight⌉) result weights := by
  simp only [allocateMinor] at h
  split at h
  · cases h
  · next hnegative =>
    have htotal : 0 ≤ total.raw := not_lt.mp hnegative
    obtain ⟨quantity, hquantity, h⟩ := bind_ok.mp h
    have hquantity := sum_ok (mapError_ok.mp hquantity)
    split at h
    · cases h
    · next hzero =>
      obtain ⟨parts, hparts, h⟩ := bind_ok.mp h
      obtain ⟨allocated, hallocated, h⟩ := bind_ok.mp h
      obtain ⟨hfloors, hfracts⟩ := parts_ok hquantity htotal hweights hparts
      have hsum : (weights.map (shareOf total weights)).sum = ((total.raw : ℤ) : ℚ) :=
        sum_shareOf fun h0 => hzero (Dec.isZero_iff.mpr (hquantity.trans h0))
      have hallocated : allocated.raw = ((weights.map (shareOf total weights)).map Int.floor).sum := by
        rw [← hfloors]
        exact ((foldlM_ok.mp hallocated).adds PostedMinor.raw (fun part => part.1.raw) fun _ hstep =>
          addBase_ok hstep).trans (zero_add _)
      have hlength : parts.length = (weights.map (shareOf total weights)).length := by
        have h := congrArg List.length hfloors
        rw [List.length_map, List.length_map] at h
        exact h
      have hremaining : (((total.raw - allocated.raw).toNat : ℕ) : ℤ) =
          total.raw - ((weights.map (shareOf total weights)).map Int.floor).sum := by
        rw [hallocated, Int.toNat_of_nonneg (sum_floors_le hsum)]
      have hperm : (byRemainder parts).Perm (List.range parts.length) := List.perm_insertionSort _ _
      have hsorted := (sorted_byRemainder parts).imp fun {i j} h => by
        rw [remainderAt_eq hfracts, remainderAt_eq hfracts] at h
        exact h
      obtain ⟨hmake, hround⟩ := withUnits_largest hsum (hlength ▸ hperm) hsorted hremaining
      have hresult := raws_eq hfloors (fun i hi => List.mem_range.mp (hperm.mem_iff.mp (List.mem_of_mem_take hi))) h
      rw [← hresult] at hmake hround
      exact ⟨hmake, List.forall₂_map_left_iff.mp (List.forall₂_map_right_iff.mp hround)⟩

/-- Ten units over weights of one, two and three: the unit left over goes to the first one. -/
theorem allocateMinor_ten : ∃ result, allocateMinor (.new 10) [.ofInt64 1, .ofInt64 2, .ofInt64 3] = .ok result ∧
    result.map PostedMinor.raw = [2, 3, 5] ∧ (result.map PostedMinor.raw).sum = 10 := by
  obtain ⟨result, h⟩ := exists_ok
    (show (allocateMinor (.new 10) [.ofInt64 1, .ofInt64 2, .ofInt64 3]).isOk = true by decide +kernel)
  have hweights : ∀ weight ∈ [Dec.ofInt64 1, .ofInt64 2, .ofInt64 3], 0 ≤ weight.val := by decide
  exact ⟨result, h, read_of_ok h (fun result => result.map PostedMinor.raw) (by decide +kernel),
    (allocateMinor_exact hweights h).1⟩

end TradeAllocation
end Iaam
