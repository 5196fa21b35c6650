import Mathlib.Algebra.BigOperators.Fin
import Mathlib.Algebra.Order.BigOperators.Group.List
import Mathlib.Algebra.Order.Floor.Ring
import Mathlib.Data.List.Indexes
import Mathlib.Data.List.Perm.Basic
import Mathlib.Tactic.Linarith
import Mathlib.Tactic.Ring

/-! Largest remainders: the shares of an integer total are rounded down, and what is left over is handed out one unit to a
share, those with the largest remainder first. No share gets a unit that has no remainder. -/

namespace Remainders
variable {R : Type} [Field R] [LinearOrder R] [IsStrictOrderedRing R]

/-- Where remainders below one sum to `k` or more, the first `k` of them in descending order are positive. -/
theorem pos_of_mem_take {ι : Type} {f : ι → R} {order : List ι} (hsorted : order.Pairwise fun i j => f j ≤ f i)
    (hone : ∀ i ∈ order, f i < 1) {k : ℕ} (hk : (k : R) ≤ (order.map f).sum) :
    k ≤ order.length ∧ ∀ i ∈ order.take k, 0 < f i := by
  induction order generalizing k with
  | nil =>
    rw [List.map_nil, List.sum_nil] at hk
    exact ⟨by exact_mod_cast hk, fun i hi => by rw [List.take_nil] at hi; cases hi⟩
  | cons i rest ih =>
    cases k with
    | zero => exact ⟨Nat.zero_le _, fun j hj => by cases hj⟩
    | succ k =>
      obtain ⟨hhead, hrest⟩ := List.pairwise_cons.mp hsorted
      rw [List.map_cons, List.sum_cons, Nat.cast_succ] at hk
      have hpos : 0 < f i := by
        by_contra hle
        have hsum : (rest.map f).sum ≤ (rest.map fun _ => 0).sum :=
          List.sum_le_sum fun j hj => (hhead j hj).trans (not_lt.mp hle)
        rw [List.map_const', List.sum_replicate, nsmul_zero] at hsum
        have hcast : (0 : R) ≤ k := Nat.cast_nonneg k
        linarith
      have hnext : (k : R) ≤ (rest.map f).sum := by linarith [hone i List.mem_cons_self]
      obtain ⟨hlength, htake⟩ := ih hrest (fun j hj => hone j (List.mem_cons_of_mem _ hj)) hnext
      refine ⟨Nat.succ_le_succ hlength, fun j hj => ?_⟩
      rcases List.mem_cons.mp hj with rfl | hj
      · exact hpos
      · exact htake j hj

variable [FloorRing R]

/-- The shares rounded down, and one more unit for every time their place is listed. -/
def withUnits (shares : List R) (places : List ℕ) : List ℤ :=
  shares.mapIdx fun i share => ⌊share⌋ + places.count i

omit [IsStrictOrderedRing R] in
theorem length_withUnits (shares : List R) (places : List ℕ) : (withUnits shares places).length = shares.length :=
  List.length_mapIdx

omit [IsStrictOrderedRing R] in
theorem getElem?_withUnits (shares : List R) (places : List ℕ) (i : ℕ) :
    (withUnits shares places)[i]? = shares[i]?.map fun share => ⌊share⌋ + (places.count i : ℤ) :=
  List.getElem?_mapIdx

omit [IsStrictOrderedRing R] in
theorem sum_withUnits {shares : List R} {places : List ℕ} (hplaces : ∀ i ∈ places, i < shares.length) :
    (withUnits shares places).sum = (shares.map Int.floor).sum + places.length := by
  have hcount : ∑ i : Fin shares.length, (places.count i.val : ℤ) = places.length := by
    rw [← Finset.sum_range fun i => (places.count i : ℤ), ← Nat.cast_sum]
    have hcard := Multiset.sum_count_eq_card (m := (places : Multiset ℕ)) fun i hi => Finset.mem_range.mpr (hplaces i hi)
    simp only [Multiset.coe_card, Multiset.coe_count] at hcard
    exact congrArg _ hcard
  have hfloor : ∑ i : Fin shares.length, ⌊shares.get i⌋ = (shares.map Int.floor).sum :=
    Fin.sum_univ_fun_getElem shares Int.floor
  rw [withUnits, List.mapIdx_eq_ofFn, List.sum_ofFn, Finset.sum_add_distrib, hcount, hfloor]

omit [IsStrictOrderedRing R] in
theorem sum_fract (shares : List R) : (shares.map Int.fract).sum = shares.sum - ((shares.map Int.floor).sum : ℤ) := by
  induction shares with
  | nil => simp
  | cons share shares ih =>
    rw [List.map_cons, List.sum_cons, ih, List.sum_cons, List.map_cons, List.sum_cons, Int.cast_add, Int.fract]
    ring

/-- What is handed out by largest remainders makes up the total, and every share is rounded down or up. -/
theorem withUnits_largest {shares : List R} {total : ℤ} (htotal : shares.sum = total) {order : List ℕ}
    (hperm : order.Perm (List.range shares.length))
    (hsorted : order.Pairwise fun i j => Int.fract (shares.getD j 0) ≤ Int.fract (shares.getD i 0)) {k : ℕ}
    (hk : (k : ℤ) = total - (shares.map Int.floor).sum) :
    (withUnits shares (order.take k)).sum = total ∧
      List.Forall₂ (fun amount share => amount = ⌊share⌋ ∨ amount = ⌈share⌉) (withUnits shares (order.take k)) shares := by
  have hremainders : (order.map fun i => Int.fract (shares.getD i 0)).sum = k := by
    have hlist : (List.range shares.length).map (fun i => Int.fract (shares.getD i 0)) = shares.map Int.fract := by
      refine List.ext_getElem (by simp) fun i h₁ h₂ => ?_
      rw [List.length_map] at h₂
      simp [List.getElem?_eq_getElem h₂]
    have hcast : (k : R) = ((total - (shares.map Int.floor).sum : ℤ) : R) := by
      rw [← hk]
      exact (Int.cast_natCast k).symm
    rw [(hperm.map _).sum_eq, hlist, sum_fract, htotal, hcast, Int.cast_sub]
  obtain ⟨hlength, hpos⟩ := pos_of_mem_take hsorted (fun i _ => Int.fract_lt_one _) hremainders.ge
  have hplaces : ∀ i ∈ order.take k, i < shares.length := fun i hi =>
    List.mem_range.mp (hperm.mem_iff.mp (List.mem_of_mem_take hi))
  have hnodup : (order.take k).Nodup := (hperm.nodup_iff.mpr List.nodup_range).sublist (List.take_sublist _ _)
  refine ⟨?_, List.forall₂_iff_get.mpr ⟨length_withUnits _ _, fun i h₁ h₂ => ?_⟩⟩
  · rw [sum_withUnits hplaces, List.length_take, min_eq_left hlength, hk]
    omega
  · have hget : (withUnits shares (order.take k)).get ⟨i, h₁⟩ = ⌊shares.get ⟨i, h₂⟩⌋ + ((order.take k).count i : ℤ) :=
      List.getElem_mapIdx
    rw [hget]
    rcases Nat.le_one_iff_eq_zero_or_eq_one.mp (List.nodup_iff_count_le_one.mp hnodup i) with hnone | hone
    · exact .inl (by rw [hnone, Nat.cast_zero, add_zero])
    · right
      have hmem : i ∈ order.take k := List.count_pos_iff.mp (by omega)
      have hfract := hpos i hmem
      rw [List.getD_eq_getElem?_getD, List.getElem?_eq_getElem h₂] at hfract
      rw [hone, Nat.cast_one]
      refine (Int.ceil_eq_floor_add_one_iff_notMem _).mpr ?_ |>.symm
      rintro ⟨n, hn⟩
      change (0 : R) < Int.fract (shares.get ⟨i, h₂⟩) at hfract
      rw [← hn, Int.fract_intCast] at hfract
      exact lt_irrefl _ hfract

end Remainders
