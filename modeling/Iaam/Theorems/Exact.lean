import Iaam.Exact

/-! The exact fractions are in lowest terms: there is one for each rational number, the operations give the rational
result whenever they give one, and the order is that of the rationals. -/

namespace Iaam
namespace Numeric
open Outcome

theorem gcd_eq (a b : Nat) : gcd a b = Nat.gcd a b := by
  induction a, b using gcd.induct with
  | case1 a => rw [gcd, if_pos rfl, Nat.gcd_zero_right]
  | case2 a b hb ih => rw [gcd, if_neg hb, ih, Nat.gcd_comm a b, Nat.gcd_rec b a, Nat.gcd_comm]

namespace I128

theorem wrap_raw {n : Nat} (h : FitsI128 n) : (wrap n).raw = n := by
  unfold FitsI128 at h
  have hsmall : 2 * (BitVec.ofNat 128 n).toNat < 2 ^ 128 := by
    rw [BitVec.toNat_ofNat, Nat.mod_eq_of_lt (by omega)]
    omega
  calc (wrap n).raw = (BitVec.ofNat 128 n).toInt := rfl
    _ = (BitVec.ofNat 128 n).toNat := BitVec.toInt_eq_toNat_of_lt hsmall
    _ = n := by rw [BitVec.toNat_ofNat, Nat.mod_eq_of_lt (by omega)]

/-- An exact quotient. -/
theorem divide_mul {a b c : I128} (hb : b.raw ≠ 0) (ha : a.raw = b.raw * c.raw) : a.divide b = some c := by
  rw [divide, if_neg hb, ha, Int.mul_tdiv_cancel_left _ hb]
  exact ofInt_eq_some.mpr rfl

/-- The product of two 128-bit integers has at most 255 bits and a sign. -/
theorem wideMul_eq (a b : I128) : a.wideMul b = a.raw * b.raw := by
  have ha := a.fits
  have hb := b.fits
  unfold FitsI128 at ha hb
  have habs : |a.raw * b.raw| ≤ 2 ^ 127 * 2 ^ 127 := by
    rw [abs_mul]
    exact mul_le_mul (abs_le.mpr ⟨ha.1, ha.2.le⟩) (abs_le.mpr ⟨hb.1, hb.2.le⟩) (abs_nonneg _) (by norm_num)
  have hbounds := abs_le.mp habs
  rw [wideMul, ← BitVec.ofInt_mul]
  exact BitVec.toInt_ofInt_eq_self (by decide) (by omega) (by omega)

end I128

namespace Exact
variable {x y z : Exact} {num den : I128}

/-- The rational number. -/
def value (x : Exact) : ℚ := x.num.raw / x.den.raw

/-- In lowest terms, with a positive denominator. -/
def Canonical (x : Exact) : Prop := Fractions.Lowest x.num.raw x.den.raw

/-- The canonical fraction of a rational number. -/
structure Represents (x : Exact) (q : ℚ) : Prop where
  canonical : x.Canonical
  value : x.value = q

/-! ### Constructors -/

theorem withPositiveDen_ok {num' den' : I128} (hden : den.raw ≠ 0) (h : withPositiveDen num den = .ok (num', den')) :
    0 < den'.raw ∧ (num'.raw : ℚ) / den'.raw = num.raw / den.raw := by
  unfold withPositiveDen at h
  split at h
  · next hneg =>
    obtain ⟨n, hn, h⟩ := bind_ok.mp h
    obtain ⟨d, hd, h⟩ := bind_ok.mp h
    cases h
    have hn : num'.raw = -num.raw := I128.ofInt_eq_some.mp (okOr_ok.mp hn)
    have hd : den'.raw = -den.raw := I128.ofInt_eq_some.mp (okOr_ok.mp hd)
    rw [hn, hd, Int.cast_neg, Int.cast_neg, neg_div_neg_eq]
    exact ⟨by omega, rfl⟩
  · cases h
    exact ⟨by omega, rfl⟩

/-- A factor of a number is no further from zero than the number. -/
theorem fits_factor {g n q : ℤ} (hg : 1 ≤ g) (h : n = g * q) (hn : FitsI128 n) : FitsI128 q := by
  unfold FitsI128 at hn ⊢
  rcases le_total 0 q with hq | hq
  · have hle : q ≤ g * q := le_mul_of_one_le_left hq hg
    omega
  · have hle : g * q ≤ 1 * q := mul_le_mul_of_nonpos_right hg hq
    omega

/-- Reduction does not fail: the common factor is positive and no greater than the denominator. -/
theorem exists_reduced (num : I128) (hden : 0 < den.raw) :
    ∃ x, reduced num den = .ok x ∧ x.Represents (num.raw / den.raw) := by
  obtain ⟨g, hg, hpos, hle, m, k, hm, hk, hlowest, hvalue⟩ := Fractions.exists_lowest num.raw hden
  have hden128 := den.fits
  unfold FitsI128 at hden128
  have hgz : (1 : ℤ) ≤ g := by exact_mod_cast hpos
  have hwrap : (I128.wrap (gcd num.raw.natAbs den.raw.natAbs)).raw = g := by
    rw [gcd_eq, ← hg]
    refine I128.wrap_raw ?_
    unfold FitsI128
    omega
  have hmfits := fits_factor hgz hm num.fits
  have hkfits := fits_factor hgz hk den.fits
  refine ⟨⟨⟨m, hmfits⟩, ⟨k, hkfits⟩⟩, ?_, hlowest, hvalue⟩
  unfold reduced
  generalize I128.wrap (gcd num.raw.natAbs den.raw.natAbs) = w at hwrap
  have hw : w.raw ≠ 0 := by omega
  have hnum : num.divide w = some ⟨m, hmfits⟩ := I128.divide_mul hw (by rw [hwrap]; exact hm)
  have hdiv : den.divide w = some ⟨k, hkfits⟩ := I128.divide_mul hw (by rw [hwrap]; exact hk)
  dsimp only
  rw [hnum, hdiv]
  rfl

theorem new_ok (h : new num den = .ok x) : den.raw ≠ 0 ∧ x.Represents (num.raw / den.raw) := by
  unfold new fromRatio at h
  split at h
  · cases h
  · next hden =>
    obtain ⟨⟨num', den'⟩, hsign, h⟩ := bind_ok.mp h
    obtain ⟨hpos, hvalue⟩ := withPositiveDen_ok hden hsign
    obtain ⟨x', hx, hrepresents⟩ := exists_reduced num' hpos
    change reduced num' den' = .ok x at h
    rw [hx] at h
    cases h
    rw [← hvalue]
    exact ⟨hden, hrepresents⟩

theorem fromInt_represents (v : I128) : (fromInt v).Represents v.raw :=
  ⟨Fractions.lowest_one _, by rw [value, fromInt]; exact div_one _⟩

theorem zero_represents : zero.Represents 0 := fromInt_represents .zero

/-! ### Operations -/

theorem expect_ok {α : Type} {r : Result NumericError α} {a : α} : expect r = .ok a ↔ r = .ok a := by
  cases r <;> simp [expect]

theorem Canonical.den_ne (hx : x.Canonical) : (x.den.raw : ℚ) ≠ 0 := Fractions.Lowest.den_ne_zero hx

theorem crossSum_eq_some {num : I128} (h : crossSum x y = some num) :
    num.raw = x.num.raw * y.den.raw + y.num.raw * x.den.raw := by
  obtain ⟨a, ha, h⟩ := Option.bind_eq_some_iff.mp h
  obtain ⟨b, hb, h⟩ := Option.bind_eq_some_iff.mp h
  rw [I128.ofInt_eq_some.mp h, I128.ofInt_eq_some.mp ha, I128.ofInt_eq_some.mp hb]

theorem add_ok (hx : x.Canonical) (hy : y.Canonical) (h : x.add y = .ok z) : z.Represents (x.value + y.value) := by
  obtain ⟨num, hnum, h⟩ := bind_ok.mp h
  obtain ⟨den, hden, h⟩ := bind_ok.mp h
  obtain ⟨-, hz⟩ := new_ok (expect_ok.mp h)
  rw [crossSum_eq_some (orPanic_ok.mp hnum), I128.ofInt_eq_some.mp (orPanic_ok.mp hden)] at hz
  rw [value, value, div_add_div _ _ hx.den_ne hy.den_ne, mul_comm (x.den.raw : ℚ) y.num.raw]
  exact_mod_cast hz

theorem neg_ok (hx : x.Canonical) (h : x.neg = .ok z) : z.Represents (-x.value) := by
  obtain ⟨num, hnum, h⟩ := bind_ok.mp h
  cases h
  have hraw : num.raw = -x.num.raw := I128.ofInt_eq_some.mp (okOr_ok.mp hnum)
  refine ⟨?_, ?_⟩
  · unfold Canonical
    rw [hraw]
    exact Fractions.Lowest.neg hx
  · unfold value
    rw [hraw, Int.cast_neg, neg_div]

theorem sub_ok (hx : x.Canonical) (hy : y.Canonical) (h : x.sub y = .ok z) : z.Represents (x.value - y.value) := by
  obtain ⟨opposite, hopposite, h⟩ := bind_ok.mp h
  have hneg := neg_ok hy hopposite
  rw [sub_eq_add_neg, ← hneg.value]
  exact add_ok hx hneg.canonical h

theorem mul_ok (h : x.mul y = .ok z) : z.Represents (x.value * y.value) := by
  obtain ⟨num, hnum, h⟩ := bind_ok.mp h
  obtain ⟨den, hden, h⟩ := bind_ok.mp h
  obtain ⟨-, hz⟩ := new_ok (expect_ok.mp h)
  rw [I128.ofInt_eq_some.mp (orPanic_ok.mp hnum), I128.ofInt_eq_some.mp (orPanic_ok.mp hden)] at hz
  rw [value, value, div_mul_div_comm]
  exact_mod_cast hz

theorem div_ok (hy : y.Canonical) (h : x.div y = .ok z) : y.value ≠ 0 ∧ z.Represents (x.value / y.value) := by
  unfold div at h
  split at h
  · cases h
  · obtain ⟨num, hnum, h⟩ := bind_ok.mp h
    obtain ⟨den, hden, h⟩ := bind_ok.mp h
    obtain ⟨hne, hz⟩ := new_ok h
    have hnum : num.raw = x.num.raw * y.den.raw := I128.ofInt_eq_some.mp (okOr_ok.mp hnum)
    have hden : den.raw = x.den.raw * y.num.raw := I128.ofInt_eq_some.mp (okOr_ok.mp hden)
    have hnz : (y.num.raw : ℚ) ≠ 0 := Int.cast_ne_zero.mpr fun h0 => hne (by rw [hden, h0, mul_zero])
    refine ⟨div_ne_zero hnz hy.den_ne, ?_⟩
    rw [hnum, hden] at hz
    rw [value, value, div_div_div_eq]
    exact_mod_cast hz

theorem sum_ok {items : List Exact} (hitems : ∀ x ∈ items, x.Canonical) (h : sum items = .ok z) :
    z.Represents (items.map value).sum := by
  have hfold : ∀ {acc : Exact} {q : ℚ}, acc.Represents q → items.foldlM add acc = .ok z →
      z.Represents (q + (items.map value).sum) := by
    clear h
    induction items with
    | nil =>
      intro acc q hacc h
      cases h
      rw [List.map_nil, List.sum_nil, add_zero]
      exact hacc
    | cons x items ih =>
      intro acc q hacc h
      obtain ⟨next, hnext, h⟩ := bind_ok.mp h
      have hadded := add_ok hacc.canonical (hitems x List.mem_cons_self) hnext
      rw [hacc.value] at hadded
      rw [List.map_cons, List.sum_cons, ← add_assoc]
      exact ih (fun y hy => hitems y (List.mem_cons_of_mem _ hy)) hadded h
  have hsum := hfold zero_represents h
  rwa [zero_add] at hsum

/-! ### Equality and order -/

theorem eq_iff (hx : x.Canonical) (hy : y.Canonical) : x = y ↔ x.value = y.value := by
  refine Iff.trans ⟨fun h => ?_, fun h => ?_⟩ (Fractions.Lowest.inj hx hy)
  · rw [h]
    exact ⟨rfl, rfl⟩
  · cases x
    cases y
    exact congrArg₂ Exact.mk (I128.ext_raw h.1) (I128.ext_raw h.2)

theorem cmp_eq (hx : x.Canonical) (hy : y.Canonical) : x.cmp y = compare x.value y.value := by
  rw [cmp, I128.wideMul_eq, I128.wideMul_eq]
  exact Fractions.compare_cross hx.pos hy.pos

/-- A total order, of which equal fractions are one. -/
structure Ordered (x y z : Exact) : Prop where
  same : x.cmp y = .eq ↔ x = y
  swap : (x.cmp y).swap = y.cmp x
  trans : x.cmp y ≠ .gt → y.cmp z ≠ .gt → x.cmp z ≠ .gt

theorem ordered (hx : x.Canonical) (hy : y.Canonical) (hz : z.Canonical) : Ordered x y z where
  same := by rw [cmp_eq hx hy, compare_eq_iff_eq, eq_iff hx hy]
  swap := by rw [cmp_eq hx hy, cmp_eq hy hx, ← Std.OrientedCmp.eq_swap]
  trans := by
    rw [cmp_eq hx hy, cmp_eq hy hz, cmp_eq hx hz, compare_le_iff_le, compare_le_iff_le, compare_le_iff_le]
    exact le_trans

/-! ### What can be built -/

/-- The fractions that the constructors and the operations give. -/
inductive Built : Exact → Prop
  | new {num den : I128} {x : Exact} : new num den = .ok x → Built x
  | fromInt (v : I128) : Built (fromInt v)
  | zero : Built zero
  | add {x y z : Exact} : Built x → Built y → x.add y = .ok z → Built z
  | neg {x z : Exact} : Built x → x.neg = .ok z → Built z
  | sub {x y z : Exact} : Built x → Built y → x.sub y = .ok z → Built z
  | mul {x y z : Exact} : Built x → Built y → x.mul y = .ok z → Built z
  | div {x y z : Exact} : Built x → Built y → x.div y = .ok z → Built z
  | sum {items : List Exact} {z : Exact} : (∀ x ∈ items, Built x) → sum items = .ok z → Built z

theorem Built.canonical (h : Built x) : x.Canonical := by
  induction h with
  | new h => exact (new_ok h).2.canonical
  | fromInt v => exact (fromInt_represents v).canonical
  | zero => exact zero_represents.canonical
  | add _ _ h hx hy => exact (add_ok hx hy h).canonical
  | neg _ h hx => exact (neg_ok hx h).canonical
  | sub _ _ h hx hy => exact (sub_ok hx hy h).canonical
  | mul _ _ h _ _ => exact (mul_ok h).canonical
  | div _ _ h _ hy => exact (div_ok hy h).2.canonical
  | sum _ h hitems => exact (sum_ok hitems h).canonical

/-- What canonical fractions give, and how they compare. -/
structure Sound (x y z : Exact) : Prop where
  add : x.add y = .ok z → z.Represents (x.value + y.value)
  sub : x.sub y = .ok z → z.Represents (x.value - y.value)
  mul : x.mul y = .ok z → z.Represents (x.value * y.value)
  div : x.div y = .ok z → y.value ≠ 0 ∧ z.Represents (x.value / y.value)
  neg : x.neg = .ok z → z.Represents (-x.value)
  eq : x = y ↔ x.value = y.value
  cmp : x.cmp y = compare x.value y.value

/-- Whatever is built is canonical, and canonical fractions are what the rational numbers are. -/
theorem exact_sound :
    (∀ {x}, Built x → x.Canonical) ∧
    (∀ {num den x}, new num den = .ok x → x.Represents (num.raw / den.raw)) ∧
    (∀ v, (fromInt v).Represents v.raw) ∧ zero.Represents 0 ∧
    (∀ {x y : Exact}, x.Canonical → y.Canonical → ∀ z, Sound x y z) ∧
    (∀ {items z}, (∀ x ∈ items, x.Canonical) → sum items = .ok z → z.Represents (items.map value).sum) ∧
    ∀ {x y z : Exact}, x.Canonical → y.Canonical → z.Canonical → Ordered x y z :=
  ⟨Built.canonical, fun h => (new_ok h).2, fromInt_represents, zero_represents,
    fun hx hy _ => ⟨add_ok hx hy, sub_ok hx hy, mul_ok, div_ok hy, neg_ok hx, eq_iff hx hy, cmp_eq hx hy⟩,
    sum_ok, ordered⟩

def sampleHalf : Exact := ⟨.one, ⟨2, by decide⟩⟩
def sampleThird : Exact := ⟨.one, ⟨3, by decide⟩⟩

theorem sampleHalf_canonical : sampleHalf.Canonical := ⟨by decide, by decide⟩
theorem sampleThird_canonical : sampleThird.Canonical := ⟨by decide, by decide⟩

/-- A half and a third are five sixths, and the half is the greater. -/
theorem half_and_third : (⟨⟨5, by decide⟩, ⟨6, by decide⟩⟩ : Exact).Represents (1 / 2 + 1 / 3) ∧
    sampleHalf.cmp sampleThird = compare (1 / 2 : ℚ) (1 / 3) := by
  have hsound := exact_sound.2.2.2.2.1 sampleHalf_canonical sampleThird_canonical
  have hhalf : sampleHalf.value = 1 / 2 := by norm_num [value, sampleHalf, I128.one]
  have hthird : sampleThird.value = 1 / 3 := by norm_num [value, sampleThird, I128.one]
  rw [← hhalf, ← hthird]
  refine ⟨(hsound _).add ?_, (hsound sampleHalf).cmp⟩
  show expect (reduced ⟨5, by decide⟩ ⟨6, by decide⟩) = _
  rw [reduced, gcd_eq]
  rfl

end Exact
end Numeric
end Iaam
