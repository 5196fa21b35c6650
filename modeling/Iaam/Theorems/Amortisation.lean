import Iaam.Allocation
import Iaam.Lib.Runs
import Iaam.Lib.Totals
import Iaam.Theorems.Fifo
import Iaam.Theorems.LotOps
import Mathlib.Data.List.Dedup
import Mathlib.Data.List.Sort

/-! The shares of an amortised bond telescope.

On each repayment date the share is that of the principal before it. What is left after the dates so far is the product of
what each of them leaves, and the last date leaves nothing: of the principal, and of the cost of each lot. -/

namespace Iaam
namespace Allocation
open Bond Outcome Runs Disposal LotSteps InstrumentLots

/-! ### Percentages of the schedule -/

def percentOn (items : List Bond.PrincipalReturn) (day : Date) : ℚ :=
  ((items.filter fun item => item.repaymentDate = day).map fun item => item.sharePercent.val).sum

def percentBefore (items : List Bond.PrincipalReturn) (day : Date) : ℚ :=
  ((items.filter fun item => item.repaymentDate < day).map fun item => item.sharePercent.val).sum

def percentThrough (items : List Bond.PrincipalReturn) (day : Date) : ℚ :=
  ((items.filter fun item => item.repaymentDate ≤ day).map fun item => item.sharePercent.val).sum

/-- The dates on which something is repaid, in order and each once. -/
def repaymentDates (items : List Bond.PrincipalReturn) : List Date :=
  (items.map Bond.PrincipalReturn.repaymentDate).dedup.insertionSort (· ≤ ·)

section Percentages
variable {items : List Bond.PrincipalReturn} {day : Date}

theorem percentThrough_eq (items : List Bond.PrincipalReturn) (day : Date) :
    percentThrough items day = percentBefore items day + percentOn items day := by
  refine Cut.sum_eq_add (fun item _ => ?_) _
  rcases lt_trichotomy item.repaymentDate day with hlt | heq | hgt
  · simp [hlt, hlt.le, hlt.ne]
  · simp [heq]
  · simp [hgt.not_ge, hgt.not_gt, hgt.ne']

theorem percentOn_cons (item : Bond.PrincipalReturn) (items : List Bond.PrincipalReturn) (day : Date) :
    percentOn (item :: items) day = (if item.repaymentDate = day then item.sharePercent.val else 0) + percentOn items day := by
  simp only [percentOn, List.filter_cons, decide_eq_true_eq]
  split <;> simp

theorem percentBefore_cons (item : Bond.PrincipalReturn) (items : List Bond.PrincipalReturn) (day : Date) :
    percentBefore (item :: items) day =
      (if item.repaymentDate < day then item.sharePercent.val else 0) + percentBefore items day := by
  simp only [percentBefore, List.filter_cons, decide_eq_true_eq]
  split <;> simp

theorem mem_repaymentDates : day ∈ repaymentDates items ↔ ∃ item ∈ items, item.repaymentDate = day := by
  rw [repaymentDates, List.mem_insertionSort, List.mem_dedup, List.mem_map]

theorem sorted_repaymentDates : (repaymentDates items).Pairwise (· < ·) := by
  have hnodup : (repaymentDates items).Nodup := (List.perm_insertionSort _ _).nodup_iff.mpr (List.nodup_dedup _)
  exact ((List.pairwise_insertionSort (· ≤ ·) _).and hnodup).imp fun h => lt_of_le_of_ne h.1 h.2

theorem mem_of_split {pre post : List Date} (h : repaymentDates items = pre ++ day :: post) :
    day ∈ repaymentDates items := by
  rw [h]
  exact List.mem_append_right _ List.mem_cons_self

/-- Nothing is repaid before the first date. -/
theorem percentBefore_first {post : List Date} (h : repaymentDates items = day :: post) : percentBefore items day = 0 := by
  have hsorted : (day :: post).Pairwise (· < ·) := h ▸ sorted_repaymentDates
  have hnil : items.filter (fun item => item.repaymentDate < day) = [] := by
    refine List.filter_eq_nil_iff.mpr fun item hitem hlt => ?_
    have hmem : item.repaymentDate ∈ day :: post := h ▸ mem_repaymentDates.mpr ⟨item, hitem, rfl⟩
    rcases List.mem_cons.mp hmem with heq | hmem
    · exact lt_irrefl _ (heq ▸ of_decide_eq_true hlt)
    · exact lt_asymm (of_decide_eq_true hlt) (List.rel_of_pairwise_cons hsorted hmem)
  rw [percentBefore, hnil]
  rfl

/-- Nothing is repaid between two dates that follow each other. -/
theorem percentBefore_next {pre post : List Date} {next : Date} (h : repaymentDates items = pre ++ day :: next :: post) :
    percentBefore items next = percentThrough items day := by
  have hsorted : (pre ++ day :: next :: post).Pairwise (· < ·) := h ▸ sorted_repaymentDates
  obtain ⟨-, hrest, hacross⟩ := List.pairwise_append.mp hsorted
  obtain ⟨hday, hrest⟩ := List.pairwise_cons.mp hrest
  refine congrArg (fun items : List Bond.PrincipalReturn => (items.map fun item => item.sharePercent.val).sum)
    (List.filter_congr fun item hitem => ?_)
  have hmem : item.repaymentDate ∈ pre ++ day :: next :: post := h ▸ mem_repaymentDates.mpr ⟨item, hitem, rfl⟩
  rw [Bool.eq_iff_iff, decide_eq_true_eq, decide_eq_true_eq]
  rcases List.mem_append.mp hmem with hmem | hmem
  · have hlt := hacross _ hmem day List.mem_cons_self
    exact iff_of_true (hlt.trans (hday next List.mem_cons_self)) hlt.le
  · rcases List.mem_cons.mp hmem with heq | hmem
    · rw [heq]
      exact iff_of_true (hday next List.mem_cons_self) le_rfl
    · refine iff_of_false (fun hlt => ?_) (not_le.mpr (hday _ hmem))
      rcases List.mem_cons.mp hmem with heq | hmem
      · exact lt_irrefl _ (heq ▸ hlt)
      · exact lt_asymm hlt (List.rel_of_pairwise_cons hrest hmem)

/-- Everything is repaid by the last date. -/
theorem percentThrough_last {pre : List Date} (h : repaymentDates items = pre ++ [day]) :
    percentThrough items day = (items.map fun item => item.sharePercent.val).sum := by
  have hsorted : (pre ++ [day]).Pairwise (· < ·) := h ▸ sorted_repaymentDates
  obtain ⟨-, -, hacross⟩ := List.pairwise_append.mp hsorted
  have hall : items.filter (fun item => item.repaymentDate ≤ day) = items := by
    refine List.filter_eq_self.mpr fun item hitem => ?_
    have hmem : item.repaymentDate ∈ pre ++ [day] := h ▸ mem_repaymentDates.mpr ⟨item, hitem, rfl⟩
    rw [decide_eq_true_eq]
    rcases List.mem_append.mp hmem with hmem | hmem
    · exact (hacross _ hmem day (List.mem_singleton_self _)).le
    · exact (List.mem_singleton.mp hmem).le
  rw [percentThrough, hall]

end Percentages

/-! ### The share of a day -/

/-- The return pays the percentage of the initial principal, to the minor unit. -/
def Pays (initial returnedPerUnit : PerUnitAmount) (percent : ℚ) : Prop :=
  initial.currency = returnedPerUnit.currency ∧ ∃ scheduledOnDate : Dec, scheduledOnDate.val = percent ∧
    ∃ amount, plannedAmount initial scheduledOnDate = .ok amount ∧
      returnedPerUnit.value.checkedRoundToScale returnedPerUnit.currency.minorUnits = .ok amount

/-- Positive shares that make up the whole. -/
structure Whole (items : List Bond.PrincipalReturn) : Prop where
  positive : ∀ item ∈ items, 0 < item.sharePercent.val
  sum : (items.map fun item => item.sharePercent.val).sum = 100

section Share
variable {items : List Bond.PrincipalReturn} {day : Date}

/-- One return is added to the sum of its side of the day, or to none. -/
theorem exists_addReturn {item : Bond.PrincipalReturn} (hitem : 0 < item.sharePercent.val) (sums : Dec × Dec)
    (h0 : 0 ≤ sums.1.val) (h0' : 0 ≤ sums.2.val) (h100 : sums.1.val + sums.2.val + item.sharePercent.val ≤ 100) :
    ∃ sums', addReturn day sums item = .ok sums' ∧
      sums'.1.val = sums.1.val + (if item.repaymentDate = day then item.sharePercent.val else 0) ∧
      sums'.2.val = sums.2.val + (if item.repaymentDate < day then item.sharePercent.val else 0) ∧
      sums'.1.val + sums'.2.val ≤ sums.1.val + sums.2.val + item.sharePercent.val := by
  rw [addReturn, if_neg (by rw [Dec.isPositive_iff.mpr hitem]; exact Bool.false_ne_true)]
  rcases lt_trichotomy item.repaymentDate day with hlt | heq | hgt
  · obtain ⟨sum, hsum, hval⟩ := Dec.exists_checkedAdd .hundred (a := sums.2) (b := item.sharePercent) (by linarith)
      (by rw [Dec.hundred_val]; linarith)
    rw [if_neg hlt.ne, if_pos hlt, if_neg hlt.ne, if_pos hlt, hsum]
    exact ⟨(sums.1, sum), rfl, (add_zero _).symm, hval, by rw [hval, add_assoc]⟩
  · obtain ⟨sum, hsum, hval⟩ := Dec.exists_checkedAdd .hundred (a := sums.1) (b := item.sharePercent) (by linarith)
      (by rw [Dec.hundred_val]; linarith)
    rw [if_pos heq, if_pos heq, if_neg heq.not_lt, hsum]
    exact ⟨(sum, sums.2), rfl, hval, (add_zero _).symm, by rw [hval, add_right_comm]⟩
  · rw [if_neg hgt.ne', if_neg hgt.not_gt, if_neg hgt.ne', if_neg hgt.not_gt]
    exact ⟨sums, rfl, (add_zero _).symm, (add_zero _).symm, by linarith⟩

/-- The loop sums the returns of the day and those before it. -/
theorem exists_sums (hpositive : ∀ item ∈ items, 0 < item.sharePercent.val) (sums : Dec × Dec) (h0 : 0 ≤ sums.1.val)
    (h0' : 0 ≤ sums.2.val) (h100 : sums.1.val + sums.2.val + (items.map fun item => item.sharePercent.val).sum ≤ 100) :
    ∃ scheduledOnDate repaidBefore, items.foldlM (addReturn day) sums = .ok (scheduledOnDate, repaidBefore) ∧
      scheduledOnDate.val = sums.1.val + percentOn items day ∧ repaidBefore.val = sums.2.val + percentBefore items day := by
  induction items generalizing sums with
  | nil => exact ⟨sums.1, sums.2, rfl, (add_zero _).symm, (add_zero _).symm⟩
  | cons item items ih =>
    have hrest : ∀ item ∈ items, 0 < item.sharePercent.val := fun x hx => hpositive x (List.mem_cons_of_mem _ hx)
    have hnonneg : 0 ≤ (items.map fun item => item.sharePercent.val).sum :=
      List.sum_nonneg fun x hx => by
        obtain ⟨y, hy, rfl⟩ := List.mem_map.mp hx
        exact (hrest y hy).le
    rw [List.map_cons, List.sum_cons] at h100
    obtain ⟨sums', hstep, hon, hbefore, hle⟩ :=
      @exists_addReturn day item (hpositive item List.mem_cons_self) sums h0 h0' (by linarith)
    have hon0 : 0 ≤ sums'.1.val := by
      rw [hon]
      split <;> linarith [hpositive item List.mem_cons_self]
    have hbefore0 : 0 ≤ sums'.2.val := by
      rw [hbefore]
      split <;> linarith [hpositive item List.mem_cons_self]
    obtain ⟨scheduled, repaid, hfold, hscheduled, hrepaid⟩ := ih hrest sums' hon0 hbefore0 (by linarith)
    refine ⟨scheduled, repaid, ?_, ?_, ?_⟩
    · rw [List.foldlM_cons, hstep]
      exact hfold
    · rw [hscheduled, hon, percentOn_cons, add_assoc]
    · rw [hrepaid, hbefore, percentBefore_cons, add_assoc]

theorem percentOn_pos (h : Whole items) (hday : day ∈ repaymentDates items) : 0 < percentOn items day := by
  obtain ⟨item, hitem, heq⟩ := mem_repaymentDates.mp hday
  refine List.sum_pos _ (fun x hx => ?_) ?_
  · obtain ⟨y, hy, rfl⟩ := List.mem_map.mp hx
    exact h.positive y (List.mem_of_mem_filter hy)
  · exact List.map_eq_nil_iff.not.mpr (List.ne_nil_of_mem (List.mem_filter.mpr ⟨hitem, decide_eq_true heq⟩))

theorem percentThrough_le (h : Whole items) : percentThrough items day ≤ 100 := by
  rw [percentThrough, ← h.sum]
  refine (List.filter_sublist.map _).sum_le_sum fun x hx => ?_
  obtain ⟨y, hy, rfl⟩ := List.mem_map.mp hx
  exact (h.positive y hy).le

theorem percentBefore_nonneg (h : Whole items) (day : Date) : 0 ≤ percentBefore items day := by
  refine List.sum_nonneg fun x hx => ?_
  obtain ⟨y, hy, rfl⟩ := List.mem_map.mp hx
  exact (h.positive y (List.mem_of_mem_filter hy)).le

/-- Before a repayment date something is left. -/
theorem percentBefore_lt (h : Whole items) (hday : day ∈ repaymentDates items) : 0 < 100 - percentBefore items day := by
  have hthrough := percentThrough_eq items day ▸ percentThrough_le h
  linarith [percentOn_pos h hday]

/-- A date takes no more than what is left. -/
theorem percentOn_le (h : Whole items) : percentOn items day ≤ 100 - percentBefore items day := by
  have hthrough := percentThrough_eq items day ▸ percentThrough_le h
  linarith

/-- On a repayment date the share is that of the principal before it, if the return pays it. -/
theorem returnedShare_ok (h : Whole items) (hday : day ∈ repaymentDates items) {initial returnedPerUnit : PerUnitAmount}
    {share : ReturnedShare} :
    returnedShare returnedPerUnit day initial items = .ok share ↔
      Pays initial returnedPerUnit (percentOn items day) ∧
        share.inner.val = percentOn items day / (100 - percentBefore items day) := by
  obtain ⟨scheduled, repaid, hfold, hscheduled, hrepaid⟩ := @exists_sums items day h.positive (.zero, .zero)
    le_rfl le_rfl (by rw [h.sum]; norm_num)
  rw [Dec.zero_val, zero_add] at hscheduled hrepaid
  have hon := percentOn_pos h hday
  have hremaining := percentBefore_lt h hday
  have hne : ¬scheduled.isZero = true := fun hz => hon.ne' (hscheduled.symm.trans (Dec.isZero_iff.mp hz))
  constructor
  · intro h
    simp only [returnedShare] at h
    split at h
    · cases h
    · next hcurrency =>
      obtain ⟨sums, hsums, h⟩ := bind_ok.mp h
      cases hfold.symm.trans hsums
      rw [if_neg hne] at h
      obtain ⟨remaining, hsub, h⟩ := bind_ok.mp h
      split at h
      · cases h
      · obtain ⟨planned, hplanned, h⟩ := bind_ok.mp h
        obtain ⟨amount, hamount, h⟩ := bind_ok.mp h
        split at h
        · cases h
        · next hsame =>
          obtain ⟨value, hvalue, h⟩ := bind_ok.mp h
          refine ⟨⟨not_not.mp hcurrency, scheduled, hscheduled, planned, mapError_ok.mp hplanned, ?_⟩, ?_⟩
          · rw [not_not.mp hsame]
            exact mapError_ok.mp hamount
          · rw [ReturnedShare.new_ok.mp (mapError_ok.mp h), (Dec.checkedDiv_ok.mp (mapError_ok.mp hvalue)).2,
              Dec.checkedSub_ok.mp (mapError_ok.mp hsub), hscheduled, hrepaid, Dec.hundred_val]
  · rintro ⟨⟨hcurrency, percent, hpercent, amount, hamount, hreturned⟩, hshare⟩
    cases Dec.ext_val (hscheduled.trans hpercent.symm)
    have hrange : |100 - percentBefore items day| ≤ decimalMax := by
      rw [abs_of_pos hremaining]
      linarith [percentBefore_nonneg h day, show (100 : ℚ) ≤ decimalMax by norm_num [decimalMax]]
    have hsub : Dec.hundred.checkedSub repaid = .ok ⟨_, hrange⟩ := Dec.checkedSub_ok.mpr (by rw [hrepaid, Dec.hundred_val])
    have hpositive : ¬(!Dec.isPositive ⟨_, hrange⟩) = true := by
      rw [Dec.isPositive_iff.mpr hremaining]
      exact Bool.false_ne_true
    have hdiv : scheduled.checkedDiv ⟨_, hrange⟩ = .ok share.inner :=
      Dec.checkedDiv_ok.mpr ⟨hremaining.ne', by rw [hshare, hscheduled]⟩
    rw [returnedShare, if_neg (not_not.mpr hcurrency)]
    refine bind_ok.mpr ⟨_, hfold, ?_⟩
    change (if scheduled.isZero = true then _ else _) = _
    rw [if_neg hne]
    refine bind_ok.mpr ⟨_, mapError_ok.mpr hsub, ?_⟩
    rw [if_neg hpositive]
    refine bind_ok.mpr ⟨_, mapError_ok.mpr hamount, bind_ok.mpr ⟨_, mapError_ok.mpr hreturned, ?_⟩⟩
    rw [if_neg (not_not.mpr rfl)]
    exact bind_ok.mpr ⟨_, mapError_ok.mpr hdiv, mapError_ok.mpr (ReturnedShare.new_ok.mpr rfl)⟩

end Share

/-! ### What the dates so far leave -/

theorem returnedShare_ext {share share' : ReturnedShare} (h : share.inner = share'.inner) : share = share' := by
  cases share
  cases share'
  cases h
  rfl

section Telescope
variable {items : List Bond.PrincipalReturn} {share : Date → ReturnedShare}

/-- The share of each repayment date is that of the principal before it. -/
def SharesOf (items : List Bond.PrincipalReturn) (share : Date → ReturnedShare) : Prop :=
  ∀ day ∈ repaymentDates items, (share day).inner.val = percentOn items day / (100 - percentBefore items day)

theorem exists_sharesOf (h : Whole items) : ∃ share, SharesOf items share := by
  have hshare : ∀ day, ∃ share : ReturnedShare,
      day ∈ repaymentDates items → share.inner.val = percentOn items day / (100 - percentBefore items day) := by
    intro day
    by_cases hday : day ∈ repaymentDates items
    · have hremaining := percentBefore_lt h hday
      have hpos := div_pos (percentOn_pos h hday) hremaining
      have hone : percentOn items day / (100 - percentBefore items day) ≤ 1 := (div_le_one hremaining).mpr (percentOn_le h)
      have hrange : |percentOn items day / (100 - percentBefore items day)| ≤ decimalMax := by
        rw [abs_of_pos hpos]
        exact hone.trans (by norm_num [decimalMax])
      exact ⟨⟨⟨_, hrange⟩, hpos, hone⟩, fun _ => rfl⟩
    · exact ⟨⟨.one, by norm_num, by norm_num⟩, fun hmem => absurd hmem hday⟩
  choose share hshare using hshare
  exact ⟨share, fun day => hshare day⟩

/-- A date takes its percentage of what the dates before it left. -/
theorem left_step (h : Whole items) (hshares : SharesOf items share) {day : Date} (hday : day ∈ repaymentDates items) :
    (1 - percentBefore items day / 100) * (1 - (share day).inner.val) = 1 - percentThrough items day / 100 := by
  have hremaining := (percentBefore_lt h hday).ne'
  rw [hshares day hday, percentThrough_eq]
  field_simp
  ring

theorem prod_left (h : Whole items) (hshares : SharesOf items share) {pre post : List Date} {day : Date}
    (hdates : repaymentDates items = pre ++ day :: post) :
    (pre.map fun d => 1 - (share d).inner.val).prod = 1 - percentBefore items day / 100 := by
  induction pre using List.reverseRecOn generalizing day post with
  | nil =>
    rw [percentBefore_first hdates]
    norm_num
  | append_singleton pre last ih =>
    rw [List.append_assoc, List.singleton_append] at hdates
    have hlast := mem_of_split hdates
    rw [List.map_append, List.prod_append, ih hdates, List.map_singleton, List.prod_singleton, left_step h hshares hlast,
      percentBefore_next hdates]

theorem prod_through (h : Whole items) (hshares : SharesOf items share) {pre post : List Date} {day : Date}
    (hdates : repaymentDates items = pre ++ day :: post) :
    ((pre ++ [day]).map fun d => 1 - (share d).inner.val).prod = 1 - percentThrough items day / 100 := by
  have hday := mem_of_split hdates
  rw [List.map_append, List.prod_append, prod_left h hshares hdates, List.map_singleton, List.prod_singleton,
    left_step h hshares hday]

/-- The last date takes everything that is left. -/
theorem share_last (h : Whole items) (hshares : SharesOf items share) {pre : List Date} {day : Date}
    (hdates : repaymentDates items = pre ++ [day]) : (share day).inner.val = 1 := by
  have hday := mem_of_split hdates
  have hon := percentOn_pos h hday
  have hall := (percentThrough_last hdates).trans h.sum
  rw [percentThrough_eq] at hall
  rw [hshares day hday, show 100 - percentBefore items day = percentOn items day by linarith]
  exact div_self hon.ne'

end Telescope

/-! ### The remaining principal -/

theorem repaidThrough_ok {schedule : BondSchedule} {day : Date} {repaid : Dec}
    (h : repaidThrough schedule day = .ok repaid) : repaid.val = percentThrough schedule.principalReturns day := by
  have hrun : Run (fun (s : Dec) (item : Bond.PrincipalReturn) t => t.val = s.val + item.sharePercent.val) Dec.zero
      (schedule.principalReturns.filter fun item => item.repaymentDate ≤ day) repaid := by
    refine (foldlM_ok.mp h).view id (fun item => decide (item.repaymentDate ≤ day)) ?_ ?_
    · intro s item t hstep hdue
      rw [if_neg (not_lt.mpr (of_decide_eq_true hdue))] at hstep
      split at hstep
      · cases hstep
      · exact Dec.checkedAdd_ok.mp (mapError_ok.mp hstep)
    · intro s item t hstep hdue
      rw [if_pos (not_le.mp (of_decide_eq_false hdue))] at hstep
      cases hstep
      rfl
  exact (hrun.adds Dec.val (fun item : Bond.PrincipalReturn => item.sharePercent.val) fun _ hstep => hstep).trans (zero_add _)

theorem remainingPrincipal_ok {schedule : BondSchedule} {initial face : PerUnitAmount} {day : Date}
    (hinitial : schedule.initialPrincipal = some initial) (h : remainingPrincipal schedule day = .ok face) :
    face.value.val = initial.value.val * (1 - percentThrough schedule.principalReturns day / 100) := by
  rw [remainingPrincipal, hinitial] at h
  cases hcomplete : schedule.completeness with
  | incomplete reason =>
    rw [hcomplete] at h
    cases h
  | unknown =>
    rw [hcomplete] at h
    cases h
  | validated =>
    rw [hcomplete] at h
    obtain ⟨repaid, hrepaid, h⟩ := bind_ok.mp h
    split at h
    · cases h
    · obtain ⟨remaining, hremaining, h⟩ := bind_ok.mp h
      obtain ⟨scaled, hscaled, h⟩ := bind_ok.mp h
      obtain ⟨value, hvalue, h⟩ := bind_ok.mp h
      cases h
      rw [(Dec.checkedDiv_ok.mp (mapError_ok.mp hvalue)).2, Dec.checkedMul_ok.mp (mapError_ok.mp hscaled),
        Dec.checkedSub_ok.mp (mapError_ok.mp hremaining), repaidThrough_ok hrepaid, Dec.hundred_val]
      ring

/-! ### The lots over all dates -/

/-- An amortisation takes a share of each lot, and adds what it took to what was returned before. -/
def Returns (currency : CurrencyCode) (s : List Lot × ℤ) (share : ReturnedShare) (t : List Lot × ℤ) : Prop :=
  ∃ returned, amortiseLots .proRataV1 share (.zero currency) s.1 = .ok (t.1, returned) ∧
    t.2 = s.2 + returned.amount.raw

section Lots
variable {currency : CurrencyCode} {s t : List Lot × ℤ} {share : ReturnedShare} {shares : List ReturnedShare}

theorem Returns.conserves (h : Returns currency s share t) : basisSum t.1 + t.2 = basisSum s.1 + s.2 := by
  obtain ⟨returned, hlots, hsum⟩ := h
  obtain ⟨-, hbasis, -, -, -⟩ := amortiseLots_ok hlots
  have hzero : (Money.zero currency).amount.raw = 0 := rfl
  omega

/-- The whole share takes the whole cost of each lot. -/
theorem amortiseLots_whole (hshare : share.inner.val = 1) {total returned : Money} {lots lots' : List Lot}
    (h : amortiseLots .proRataV1 share total lots = .ok (lots', returned)) :
    ∀ lot ∈ lots', lot.costBasis.amount.raw = 0 := by
  induction lots generalizing total lots' with
  | nil =>
    cases h
    exact fun _ hlot => absurd hlot List.not_mem_nil
  | cons lot lots ih =>
    obtain ⟨part, hpart, h⟩ := bind_ok.mp h
    obtain ⟨costBasis, hcost, h⟩ := bind_ok.mp h
    obtain ⟨total', -, h⟩ := bind_ok.mp h
    obtain ⟨⟨rest, _⟩, hrest, h⟩ := bind_ok.mp h
    cases h
    intro lot' hlot'
    rcases List.mem_cons.mp hlot' with rfl | hlot'
    · have hwhole := splitBasis_whole (reraise_ok.mp (reraise_ok.mp hpart)) (hshare.trans Dec.one_val.symm)
      have hraw := (Money.trySub_ok.mp (convert_ok.mp hcost)).2.1
      rw [hwhole, sub_self] at hraw
      exact hraw
    · exact ih hrest lot' hlot'

/-- Dates of which the last one takes the whole return the whole cost, and leave none in any lot. -/
theorem returns_whole {last : ReturnedShare} (hlast : last.inner.val = 1) {lots lots' : List Lot} {total : ℤ}
    (h : Run (Returns currency) (lots, 0) (shares ++ [last]) (lots', total)) :
    (∀ lot ∈ lots', lot.costBasis.amount.raw = 0) ∧ total = basisSum lots := by
  have hconserved : basisSum lots' + total = basisSum lots + 0 :=
    h.keeps (P := fun t => basisSum t.1 + t.2 = basisSum lots + 0) (fun hs hstep => hstep.conserves.trans hs) rfl
  obtain ⟨u, -, hrest⟩ := h.split
  rcases hrest with _ | ⟨⟨returned, hlots, -⟩, hrest⟩
  rcases hrest with _ | _
  have hzero := amortiseLots_whole hlast hlots
  have hnone : basisSum lots' = 0 := by
    refine List.sum_eq_zero fun raw hraw => ?_
    obtain ⟨lot, hlot, rfl⟩ := List.mem_map.mp hraw
    exact hzero lot hlot
  exact ⟨hzero, by omega⟩

/-- A single lot has a share for every date. -/
theorem exists_returns (share : ReturnedShare) (lot : Lot) (n : ℤ) :
    ∃ lot' m, Returns lot.costBasis.currency ([lot], n) share ([lot'], m) ∧
      lot'.costBasis.currency = lot.costBasis.currency := by
  have hproduct : |lot.costBasis.amount.raw * share.inner.val| ≤ decimalMax := by
    rw [abs_mul, abs_of_pos share.pos]
    exact (mul_le_of_le_one_right (abs_nonneg _) share.leOne).trans lot.costBasis.amount.fits.inRange
  have hone : share.inner.val ≤ Dec.one.val := share.leOne
  obtain ⟨part, kept, hpart, hkept⟩ := Fifo.exists_splitBasis share.pos hone hproduct
  have hcurrency := splitBasis_currency hpart
  have htotal : (Money.zero lot.costBasis.currency).tryAdd part = .ok part :=
    Money.tryAdd_ok.mpr ⟨hcurrency.symm, (zero_add _).symm, hcurrency⟩
  refine ⟨{ lot with costBasis := kept }, n + part.amount.raw, ⟨part, ?_, rfl⟩, (Money.trySub_ok.mp hkept).2.2⟩
  refine bind_ok.mpr ⟨part, reraise_ok.mpr (reraise_ok.mpr hpart), bind_ok.mpr ⟨kept, convert_ok.mpr hkept, ?_⟩⟩
  exact bind_ok.mpr ⟨part, convert_ok.mpr htotal, rfl⟩

theorem exists_run (lot : Lot) (shares : List ReturnedShare) (n : ℤ) :
    ∃ lot' m, Run (Returns lot.costBasis.currency) ([lot], n) shares ([lot'], m) := by
  induction shares generalizing lot n with
  | nil => exact ⟨lot, n, .nil _⟩
  | cons share shares ih =>
    obtain ⟨next, m, hstep, hcurrency⟩ := exists_returns share lot n
    obtain ⟨lot', m', hrun⟩ := ih next m
    rw [hcurrency] at hrun
    exact ⟨lot', m', .cons hstep hrun⟩

end Lots

/-- With a validated schedule and a known principal, only the share of the day decides. -/
theorem resolveBasisAllocation_known {digest : PerUnitAmount → List Bond.PrincipalReturn → Date → String → String}
    {schedule : BondSchedule} {initial : PerUnitAmount} (hvalidated : schedule.completeness = .validated)
    (hinitial : schedule.initialPrincipal = some initial) {returnedPerUnit : PerUnitAmount} {day : Date} {snapshotId : String}
    {knowledgeAsOf : OffsetDateTime} {share : ReturnedShare} :
    (∃ evidence, resolveBasisAllocation digest returnedPerUnit day (some schedule) snapshotId knowledgeAsOf =
        .known share evidence) ↔
      returnedShare returnedPerUnit day initial schedule.principalReturns = .ok share := by
  simp only [resolveBasisAllocation, hvalidated, hinitial]
  cases returnedShare returnedPerUnit day initial schedule.principalReturns with
  | error gap => exact iff_of_false (fun ⟨_, h⟩ => nomatch h) (fun h => nomatch h)
  | ok share' =>
    constructor
    · rintro ⟨evidence, h⟩
      rw [(BasisAllocation.known.inj h).1]
    · intro h
      rw [Except.ok.inj h]
      exact ⟨_, rfl⟩

/-- A schedule of positive shares that make up the whole has one share for each of its dates, and an allocation on that day
    is that share or is not known, where the return does not pay it. What the dates so far leave is the remaining principal,
    the last one takes all of it, and the lots are left without cost. -/
theorem shares_telescope (digest : PerUnitAmount → List Bond.PrincipalReturn → Date → String → String)
    {schedule : BondSchedule} {initial : PerUnitAmount} (hvalidated : schedule.completeness = .validated)
    (hinitial : schedule.initialPrincipal = some initial) (hwhole : Whole schedule.principalReturns) :
    ∃ share : Date → ReturnedShare,
      (∀ day ∈ repaymentDates schedule.principalReturns, ∀ returnedPerUnit snapshotId knowledgeAsOf share' evidence,
        resolveBasisAllocation digest returnedPerUnit day (some schedule) snapshotId knowledgeAsOf = .known share' evidence →
          share' = share day) ∧
      (∀ day ∈ repaymentDates schedule.principalReturns, ∀ returnedPerUnit snapshotId knowledgeAsOf,
        Pays initial returnedPerUnit (percentOn schedule.principalReturns day) → ∃ evidence,
          resolveBasisAllocation digest returnedPerUnit day (some schedule) snapshotId knowledgeAsOf =
            .known (share day) evidence) ∧
      (∀ pre day post, repaymentDates schedule.principalReturns = pre ++ day :: post →
        ((pre ++ [day]).map fun d => 1 - (share d).inner.val).prod =
            1 - percentThrough schedule.principalReturns day / 100 ∧
          (∀ face, remainingPrincipal schedule day = .ok face →
            face.value.val = initial.value.val * ((pre ++ [day]).map fun d => 1 - (share d).inner.val).prod) ∧
          (post = [] → (share day).inner.val = 1)) ∧
      (∀ currency lots lots' total,
        Run (Returns currency) (lots, 0) ((repaymentDates schedule.principalReturns).map share) (lots', total) →
          (∀ lot ∈ lots', lot.costBasis.amount.raw = 0) ∧ total = basisSum lots) ∧
      ∀ lot : Lot, ∃ lot', Run (Returns lot.costBasis.currency) ([lot], 0)
        ((repaymentDates schedule.principalReturns).map share) ([lot'], lot.costBasis.amount.raw) := by
  obtain ⟨share, hshares⟩ := exists_sharesOf hwhole
  have hsome : repaymentDates schedule.principalReturns ≠ [] := by
    intro hnil
    have hempty : schedule.principalReturns = [] := List.eq_nil_iff_forall_not_mem.mpr fun item hitem =>
      absurd (mem_repaymentDates.mpr ⟨item, hitem, rfl⟩) (hnil ▸ List.not_mem_nil)
    have hsum := hwhole.sum
    rw [hempty] at hsum
    norm_num at hsum
  obtain ⟨pre, last, hlast⟩ := (List.eq_nil_or_concat _).resolve_left hsome
  rw [List.concat_eq_append] at hlast
  have hreturned : ∀ {currency lots lots' total},
      Run (Returns currency) (lots, 0) ((repaymentDates schedule.principalReturns).map share) (lots', total) →
        (∀ lot ∈ lots', lot.costBasis.amount.raw = 0) ∧ total = basisSum lots := by
    intro currency lots lots' total hrun
    rw [hlast, List.map_append, List.map_singleton] at hrun
    exact returns_whole (share_last hwhole hshares hlast) hrun
  refine ⟨share, fun day hday returnedPerUnit snapshotId knowledgeAsOf share' evidence h => ?_,
    fun day hday returnedPerUnit snapshotId knowledgeAsOf hpays => ?_, fun pre day post hdates => ?_,
    fun _ _ _ _ hrun => hreturned hrun, fun lot => ?_⟩
  · have hreturn := (resolveBasisAllocation_known hvalidated hinitial).mp ⟨evidence, h⟩
    have hval := ((returnedShare_ok hwhole hday).mp hreturn).2.trans (hshares day hday).symm
    exact returnedShare_ext (Dec.ext_val hval)
  · exact (resolveBasisAllocation_known hvalidated hinitial).mpr
      ((returnedShare_ok hwhole hday).mpr ⟨hpays, hshares day hday⟩)
  · have hprod := prod_through hwhole hshares hdates
    refine ⟨hprod, fun face hface => ?_, fun hnil => ?_⟩
    · rw [hprod]
      exact remainingPrincipal_ok hinitial hface
    · rw [hnil] at hdates
      exact share_last hwhole hshares hdates
  · obtain ⟨lot', total, hrun⟩ := exists_run lot ((repaymentDates schedule.principalReturns).map share) 0
    have htotal := (hreturned hrun).2
    rw [basisSum_cons, basisSum_nil, add_zero] at htotal
    exact ⟨lot', htotal ▸ hrun⟩

/-- A bond of a thousand roubles, repaid in three parts on two days. -/
def threeParts : BondSchedule where
  principalReturns := [⟨⟨9⟩, .ofInt64 50⟩, ⟨⟨5⟩, .ofInt64 20⟩, ⟨⟨5⟩, .ofInt64 30⟩]
  initialPrincipal := some ⟨.ofInt64 1000, .rub⟩
  completeness := .validated

/-- The first day returns half of it and the second one all that is left. -/
theorem shares_threeParts : ∃ share : Date → ReturnedShare,
    (∃ evidence, resolveBasisAllocation (fun _ _ _ _ => "") ⟨.ofInt64 500, .rub⟩ ⟨5⟩ (some threeParts) "" ⟨0⟩ =
      .known (share ⟨5⟩) evidence) ∧
    1 - (share ⟨5⟩).inner.val = 1 / 2 ∧ (share ⟨9⟩).inner.val = 1 := by
  have hdates : repaymentDates threeParts.principalReturns = [⟨5⟩, ⟨9⟩] := by decide
  have hwhole : Whole threeParts.principalReturns := ⟨by decide +kernel, by decide +kernel⟩
  obtain ⟨share, -, hknown, hleft, -, -⟩ := shares_telescope (fun _ _ _ _ => "")
    (show threeParts.completeness = .validated from rfl) rfl hwhole
  have hpays : Pays ⟨.ofInt64 1000, .rub⟩ ⟨.ofInt64 500, .rub⟩ (percentOn threeParts.principalReturns ⟨5⟩) :=
    ⟨rfl, .ofInt64 50, by decide +kernel, .ofInt64 500, by decide +kernel, by decide +kernel⟩
  have hfirst := (hleft [] ⟨5⟩ [⟨9⟩] hdates).1
  rw [List.nil_append, List.map_singleton, List.prod_singleton] at hfirst
  refine ⟨share, hknown ⟨5⟩ (hdates ▸ List.mem_cons_self) _ _ _ hpays, hfirst.trans (by decide +kernel), ?_⟩
  exact (hleft [⟨5⟩] ⟨9⟩ [] hdates).2.2 rfl

end Allocation
end Iaam
