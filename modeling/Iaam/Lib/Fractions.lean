import Mathlib.Algebra.Order.Ring.Rat
import Mathlib.Data.Int.GCD
import Mathlib.Data.Rat.Lemmas
import Mathlib.Tactic.FieldSimp
import Mathlib.Tactic.Ring

/-! Fractions of integers in lowest terms: each rational number has one, and fractions with positive denominators are
compared by their cross products. -/

namespace Fractions
variable {n d m k : ℤ}

/-- A fraction in lowest terms with a positive denominator. -/
structure Lowest (n d : ℤ) : Prop where
  pos : 0 < d
  coprime : Nat.Coprime n.natAbs d.natAbs

theorem lowest_one (n : ℤ) : Lowest n 1 := ⟨one_pos, Nat.coprime_one_right _⟩

theorem Lowest.neg (h : Lowest n d) : Lowest (-n) d := ⟨h.pos, by rw [Int.natAbs_neg]; exact h.coprime⟩

theorem Lowest.den_ne_zero (h : Lowest n d) : (d : ℚ) ≠ 0 := Int.cast_ne_zero.mpr h.pos.ne'

/-- One fraction for each rational number. -/
theorem Lowest.inj (h : Lowest n d) (h' : Lowest m k) : n = m ∧ d = k ↔ (n : ℚ) / d = m / k :=
  ⟨fun heq => by rw [heq.1, heq.2], Rat.div_int_inj h.pos h'.pos h.coprime h'.coprime⟩

/-- Both parts less their common factor. -/
theorem exists_lowest (n : ℤ) (hd : 0 < d) : ∃ g : ℕ, g = Nat.gcd n.natAbs d.natAbs ∧ 0 < g ∧ (g : ℤ) ≤ d ∧
    ∃ m k : ℤ, n = g * m ∧ d = g * k ∧ Lowest m k ∧ (m : ℚ) / k = n / d := by
  refine ⟨_, rfl, ?_⟩
  have hpos : 0 < Nat.gcd n.natAbs d.natAbs := Nat.gcd_pos_of_pos_right _ (Int.natAbs_pos.mpr hd.ne')
  obtain ⟨m, hm⟩ : ((Nat.gcd n.natAbs d.natAbs : ℕ) : ℤ) ∣ n := Int.natCast_dvd.mpr (Nat.gcd_dvd_left _ _)
  obtain ⟨k, hk⟩ : ((Nat.gcd n.natAbs d.natAbs : ℕ) : ℤ) ∣ d := Int.natCast_dvd.mpr (Nat.gcd_dvd_right _ _)
  generalize hg : Nat.gcd n.natAbs d.natAbs = g at hpos hm hk ⊢
  have hgz : (0 : ℤ) < g := Int.natCast_pos.mpr hpos
  have hkpos : 0 < k := pos_of_mul_pos_right (hk ▸ hd) hgz.le
  refine ⟨hpos, ?_, m, k, hm, hk, ⟨hkpos, ?_⟩, ?_⟩
  · calc (g : ℤ) = g * 1 := (mul_one _).symm
      _ ≤ g * k := mul_le_mul_of_nonneg_left hkpos hgz.le
      _ = d := hk.symm
  · have hgcd : g * Nat.gcd m.natAbs k.natAbs = g * 1 := by
      rw [← Nat.gcd_mul_left, mul_one]
      conv_rhs => rw [← hg, hm, hk, Int.natAbs_mul, Int.natAbs_mul, Int.natAbs_natCast]
    exact Nat.eq_of_mul_eq_mul_left hpos hgcd
  · have hgq : (g : ℚ) ≠ 0 := Nat.cast_ne_zero.mpr hpos.ne'
    rw [hm, hk]
    push_cast
    rw [mul_div_mul_left _ _ hgq]

theorem div_lt_div_iff_cross (hd : 0 < d) (hk : 0 < k) : (n : ℚ) / d < m / k ↔ n * k < m * d := by
  rw [div_lt_div_iff₀ (Int.cast_pos.mpr hd) (Int.cast_pos.mpr hk)]
  exact_mod_cast Iff.rfl

/-- The cross products are in the order of the fractions. -/
theorem compare_cross (hd : 0 < d) (hk : 0 < k) : compare (n * k) (m * d) = compare ((n : ℚ) / d) (m / k) := by
  rcases lt_trichotomy (n * k) (m * d) with hlt | heq | hgt
  · rw [compare_lt_iff_lt.mpr hlt, compare_lt_iff_lt.mpr ((div_lt_div_iff_cross hd hk).mpr hlt)]
  · have hdiv : (n : ℚ) / d = m / k := by
      rw [div_eq_div_iff (Int.cast_pos.mpr hd).ne' (Int.cast_pos.mpr hk).ne']
      exact_mod_cast heq
    rw [compare_eq_iff_eq.mpr heq, compare_eq_iff_eq.mpr hdiv]
  · rw [compare_gt_iff_gt.mpr hgt, compare_gt_iff_gt.mpr ((div_lt_div_iff_cross hk hd).mpr hgt)]

end Fractions
