import Iaam.Event.Validate
import Iaam.Theorems.MoneyFlow

/-! What the money flow explains, over whole runs: the cash of every account but for the openings, in
breakdowns that lose nothing. -/

namespace Iaam
namespace MoneyFlow
open Outcome

/-! ### Queries -/

theorem narrow_ok {amount : Int} {quantity : String} {a : PostedMinor} (h : narrow amount quantity = .ok a) :
    a.raw = amount := by
  unfold narrow at h
  cases hn : PostedMinor.ofInt amount with
  | none =>
    rw [hn] at h
    cases h
  | some b =>
    rw [hn] at h
    cases h
    exact PostedMinor.ofInt_eq_some.mp hn

/-- A sum over chosen entries is a sum over all of them in which the others count nothing. -/
theorem sum_filter_entries {κ : Type} [LinearOrder κ] (ledger : Tree.Map κ PostedMinor) (p : κ → PostedMinor → Bool) :
    ((ledger.toList.filter fun entry => p entry.1 entry.2).map fun entry => entry.2.raw).sum =
      Tree.total ledger fun key amount => if p key amount then amount.raw else 0 := by
  unfold Tree.total
  induction ledger.toList with
  | nil => rfl
  | cons entry entries ih =>
    rw [List.filter_cons]
    cases hp : p entry.1 entry.2 <;> simp [hp, ih]

theorem totalFiltered_ok {ledger : Ledger} {currency : CurrencyCode} {quantity : String} {include_ : Int → Bool}
    {money : Money} (h : ledger.totalFiltered currency quantity include_ = .ok money) :
    money.amount.raw = Tree.total ledger fun key amount =>
      if key.currency = currency ∧ include_ amount.raw then amount.raw else 0 := by
  obtain ⟨amount, hamount, h⟩ := bind_ok.mp h
  cases h
  have hsum := sum_filter_entries ledger fun key amount => key.currency = currency && include_ amount.raw
  rw [narrow_ok hamount]
  simpa using hsum

theorem total_ok {ledger : Ledger} {currency : CurrencyCode} {quantity : String} {money : Money}
    (h : ledger.total currency quantity = .ok money) : money.amount.raw = sumOver ledger (·.currency = currency) := by
  rw [totalFiltered_ok h]
  unfold sumOver
  congr 1
  funext key amount
  by_cases hzero : amount.raw = 0 <;> simp [hzero]

theorem totalPositive_ok {ledger : Ledger} {currency : CurrencyCode} {quantity : String} {money : Money}
    (h : ledger.totalPositive currency quantity = .ok money) :
    money.amount.raw = Tree.total ledger fun key amount => if key.currency = currency then max 0 amount.raw else 0 := by
  rw [totalFiltered_ok h]
  congr 1
  funext key amount
  by_cases hpos : 0 < amount.raw
  · simp [hpos, max_eq_right hpos.le]
  · simp [hpos, max_eq_left (not_lt.mp hpos)]

theorem addWide_ok {a b sum : Int} {quantity : String} (h : addWide a b quantity = .ok sum) : sum = a + b := by
  unfold addWide at h
  split_ifs at h
  cases h
  rfl

/-- The rows that are listed add up to all of the chosen ones: what is left out is zero. -/
theorem listed_ok {γ : Type} {currency : CurrencyCode} {quantity : String} {entries : List (γ × Int)}
    {rows : List (γ × Money)} (p : γ → Prop) [DecidablePred p]
    (h : (entries.filter fun (_, amount) => amount ≠ 0).mapM (fun (key, amount) => do
      let amount ← narrow amount quantity
      return (key, (⟨amount, currency⟩ : Money))) = .ok rows) :
    ((rows.filter fun row => p row.1).map fun row => row.2.amount.raw).sum =
      (entries.map fun entry => if p entry.1 then entry.2 else 0).sum := by
  induction entries generalizing rows with
  | nil =>
    cases h
    rfl
  | cons entry entries ih =>
    by_cases hzero : entry.2 = 0
    · rw [List.filter_cons_of_neg (by simp [hzero])] at h
      rw [ih h, List.map_cons, List.sum_cons, hzero, ite_self, zero_add]
    · rw [List.filter_cons_of_pos (by simp [hzero]), List.mapM_cons] at h
      obtain ⟨row, hrow, h⟩ := bind_ok.mp h
      obtain ⟨rest, hrest, h⟩ := bind_ok.mp h
      obtain ⟨amount, hamount, hrow⟩ := bind_ok.mp hrow
      cases hrow
      cases h
      have hrest := ih hrest
      by_cases hp : p entry.1
      · simp only [List.filter_cons, hp, decide_true, if_true, List.map_cons, List.sum_cons, hrest, narrow_ok hamount]
      · simp only [List.filter_cons, hp, decide_false, Bool.false_eq_true, if_false, List.map_cons, List.sum_cons, hrest,
          zero_add]

/-- The chosen rows of a breakdown add up to the entries of the currency in those groups. -/
theorem breakdown_of {κ γ : Type} [LinearOrder κ] [LinearOrder γ] {ledger : Tree.Map κ PostedMinor} {group : κ → γ}
    {currencyOf : κ → CurrencyCode} {currency : CurrencyCode} {quantity : String} {rows : List (γ × Money)}
    (h : breakdown ledger group currencyOf currency quantity = .ok rows) (p : γ → Prop) [DecidablePred p] :
    ((rows.filter fun row => p row.1).map fun row => row.2.amount.raw).sum =
      sumOver ledger fun key => currencyOf key = currency ∧ p (group key) := by
  obtain ⟨totals, htotals, h⟩ := bind_ok.mp h
  have hentries := sum_filter_entries ledger fun key _ => currencyOf key = currency && p (group key)
  have hfold : Tree.total totals (fun group sum => if p group then sum else 0) =
      sumOver ledger fun key => currencyOf key = currency ∧ p (group key) := by
    have hrun := (Runs.foldlM_ok.mp htotals).adds (fun totals => Tree.total totals fun group sum => if p group then sum else 0)
      (fun entry => if p (group entry.1) then entry.2.raw else 0) fun {s i t} _ hstep => by
        obtain ⟨sum, hsum, hstep⟩ := bind_ok.mp hstep
        cases hstep
        rw [Tree.total_insert, addWide_ok hsum]
        unfold Tree.share
        cases s[group i.1]? <;> by_cases hp : p (group i.1) <;> simp [hp]
    rw [hrun, Tree.total_empty, zero_add]
    simp only [sumOver, Bool.and_eq_true, decide_eq_true_eq] at hentries ⊢
    rw [← hentries]
    have hchosen : (ledger.toList.filter fun entry => decide (currencyOf entry.1 = currency) && decide (p (group entry.1))) =
        (ledger.toList.filter fun entry => currencyOf entry.1 = currency).filter fun entry => p (group entry.1) := by
      rw [List.filter_filter]
      exact List.filter_congr fun entry _ => Bool.and_comm _ _
    rw [hchosen]
    induction ledger.toList.filter fun entry => currencyOf entry.1 = currency with
    | nil => rfl
    | cons entry entries ih => by_cases hp : p (group entry.1) <;> simp [hp, ih]
  rw [listed_ok p h, ← hfold]
  rfl

/-- The rows of a breakdown add up to the entries of the currency. -/
theorem breakdown_ok {κ γ : Type} [LinearOrder κ] [LinearOrder γ] {ledger : Tree.Map κ PostedMinor} {group : κ → γ}
    {currencyOf : κ → CurrencyCode} {currency : CurrencyCode} {quantity : String} {rows : List (γ × Money)}
    (h : breakdown ledger group currencyOf currency quantity = .ok rows) :
    (rows.map fun row => row.2.amount.raw).sum = sumOver ledger (currencyOf · = currency) := by
  simpa using breakdown_of h fun _ => True

theorem notDecomposed_ok {flow : MoneyFlow} {currency : CurrencyCode} {count : Nat} {money : Money}
    (h : flow.notDecomposedIn currency = .ok (count, money)) :
    money.amount.raw = sumOver flow.notDecomposed (·.currency = currency) := by
  obtain ⟨_, -, h⟩ := bind_ok.mp h
  obtain ⟨amount, hamount, h⟩ := bind_ok.mp h
  cases h
  have hentries := sum_filter_entries flow.notDecomposed fun key _ => key.currency = currency
  rw [narrow_ok hamount]
  simpa [sumOver] using hentries

/-! ### Breakdowns -/

variable {contour : ContourDefinition} {window : DateWindow} {categories : CategoryIndex} {events : List Event}
  {flow : MoneyFlow}

/-- What went out is what has a category and what has none, and what was earned is what its sources earned. -/
theorem breakdowns_complete (h : events.foldlM (apply contour window categories) new = .ok flow) (c : CurrencyCode)
    {wentOut earned undecomposed : Money} {count : Nat} {byCategory : List (CategoryId × Money)}
    {bySource : List (EarningSource × Money)} (hout : flow.wentOutTotal c = .ok wentOut)
    (hcategories : flow.wentOutByCategoryIn c = .ok byCategory)
    (hnot : flow.notDecomposedIn c = .ok (count, undecomposed)) (hearned : flow.earnedByCapitalTotal c = .ok earned)
    (hsources : flow.earnedByCapitalBySourceIn c = .ok bySource) :
    wentOut.amount.raw = (byCategory.map fun row => row.2.amount.raw).sum + undecomposed.amount.raw ∧
      earned.amount.raw = (bySource.map fun row => row.2.amount.raw).sum := by
  have hwentOut := run_adds (reading_sum .wentOut (·.currency = c)) h
  have hdecomposed := run_adds (reading_decomposed c) h
  have hsum := run_adds (reading_sum .earned (·.currency = c)) h
  have hsourced := run_adds (reading_sourced c) h
  simp only [ledgerOf, Quantity.signed, new, decomposedIn, sourcedIn, sumOver, Tree.total_empty, zero_add] at *
  rw [total_ok hout, total_ok hearned, breakdown_ok hcategories, breakdown_ok hsources, notDecomposed_ok hnot]
  simp only [sumOver]
  rw [hwentOut, hsum, ← hdecomposed, ← hsourced]
  exact ⟨rfl, rfl⟩

/-- A contour of two accounts, and a report over thirty days. -/
def household : ContourDefinition := ⟨⟨1⟩, 1, Std.ExtTreeSet.ofList [⟨1⟩, ⟨2⟩] compare⟩
def august : DateWindow := ⟨⟨1⟩, ⟨30⟩⟩

/-- A month of the household: an opening, a salary, a purchase and its refund, a coupon with its tax, a transfer
    between the accounts and one to an account outside. -/
def sampleMonth : List Event :=
  [eventWith ⟨1⟩ ⟨1⟩ ⟨1⟩ 0 (.openingCash ⟨.new 500, .rub⟩) [.cash ⟨1⟩ ⟨.new 500, .rub⟩],
    eventWith ⟨2⟩ ⟨1⟩ ⟨2⟩ 0 (.cashIn ⟨.new 300, .rub⟩) [.cash ⟨1⟩ ⟨.new 300, .rub⟩],
    eventWith ⟨3⟩ ⟨1⟩ ⟨3⟩ 0 (.cashOut ⟨.new (-100), .rub⟩) [.cash ⟨1⟩ ⟨.new (-100), .rub⟩],
    eventWith ⟨4⟩ ⟨1⟩ ⟨4⟩ 0 (.refund ⟨.new 40, .rub⟩) [.cash ⟨1⟩ ⟨.new 40, .rub⟩],
    eventWith ⟨5⟩ ⟨1⟩ ⟨5⟩ 0 (.income (some ⟨7⟩) ⟨.new 20, .rub⟩ (some .coupon))
      [.cash ⟨1⟩ ⟨.new 20, .rub⟩, .tax ⟨1⟩ ⟨.new (-3), .rub⟩],
    eventWith ⟨6⟩ ⟨1⟩ ⟨6⟩ 0 (.cashTransfer ⟨1⟩ ⟨1⟩ ⟨2⟩ ⟨.new 50, .rub⟩)
      [.cash ⟨1⟩ ⟨.new (-50), .rub⟩, .cash ⟨2⟩ ⟨.new 50, .rub⟩],
    eventWith ⟨7⟩ ⟨1⟩ ⟨7⟩ 0 (.cashTransfer ⟨2⟩ ⟨1⟩ ⟨3⟩ ⟨.new 60, .rub⟩)
      [.cash ⟨1⟩ ⟨.new (-60), .rub⟩, .cash ⟨3⟩ ⟨.new 60, .rub⟩]]

/-- Every purchase is food. -/
def foodOnly : CategoryIndex := fun _ => .assigned ⟨1⟩ (.sourceCategory ⟨1⟩)

theorem breakdowns_sampleMonth :
    ∃ flow wentOut earned undecomposed count byCategory bySource,
      sampleMonth.foldlM (apply household august foodOnly) new = .ok flow ∧ flow.wentOutTotal .rub = .ok wentOut ∧
        flow.wentOutByCategoryIn .rub = .ok byCategory ∧ flow.notDecomposedIn .rub = .ok (count, undecomposed) ∧
          flow.earnedByCapitalTotal .rub = .ok earned ∧ flow.earnedByCapitalBySourceIn .rub = .ok bySource ∧
            wentOut.amount.raw = (byCategory.map fun row => row.2.amount.raw).sum + undecomposed.amount.raw ∧
              earned.amount.raw = (bySource.map fun row => row.2.amount.raw).sum := by
  have hrun : (sampleMonth.foldlM (apply household august foodOnly) new >>= fun flow => do
      let wentOut ← flow.wentOutTotal .rub
      let byCategory ← flow.wentOutByCategoryIn .rub
      let undecomposed ← flow.notDecomposedIn .rub
      let earned ← flow.earnedByCapitalTotal .rub
      let bySource ← flow.earnedByCapitalBySourceIn .rub
      return (wentOut, byCategory, undecomposed, earned, bySource)).isOk = true := by decide
  obtain ⟨_, hrun⟩ := exists_ok hrun
  obtain ⟨flow, h, hrun⟩ := bind_ok.mp hrun
  obtain ⟨wentOut, hout, hrun⟩ := bind_ok.mp hrun
  obtain ⟨byCategory, hcategories, hrun⟩ := bind_ok.mp hrun
  obtain ⟨⟨count, undecomposed⟩, hnot, hrun⟩ := bind_ok.mp hrun
  obtain ⟨earned, hearned, hrun⟩ := bind_ok.mp hrun
  obtain ⟨bySource, hsources, hrun⟩ := bind_ok.mp hrun
  exact ⟨flow, wentOut, earned, undecomposed, count, byCategory, bySource, h, hout, hcategories, hnot, hearned, hsources,
    breakdowns_complete h .rub hout hcategories hnot hearned hsources⟩

/-! ### The identity -/

/-- The share of a movement in a reading, when its account is in the contour. -/
def movementShare (share : Option Quantity → CashKey → Int → Int) (contour : ContourDefinition) (e : Event)
    (m : Movement) : Int :=
  if contour.contains m.key.account then share (quantityOf e.kind (classify contour e) m.kind) m.key m.minor else 0

theorem legShares_eq (share : Option Quantity → CashKey → Int → Int) (contour : ContourDefinition) (e : Event) :
    (e.legs.map (legShare share contour e)).sum = (e.movements.map (movementShare share contour e)).sum := by
  unfold Event.movements
  induction e.legs with
  | nil => rfl
  | cons leg legs ih =>
    rw [List.map_cons, List.sum_cons, ih, List.filterMap_cons]
    unfold Leg.movement legShare
    cases leg.cashEffect with
    | none => simp
    | some money => simp [movementShare]

/-- The shares of the legs are those of the movements of the kind and of the charges. -/
theorem legShares_of_perm {e : Event} {movements : List Movement} (h : e.movements.Perm movements)
    (share : Option Quantity → CashKey → Int → Int) (contour : ContourDefinition) :
    (e.legs.map (legShare share contour e)).sum = (movements.map (movementShare share contour e)).sum := by
  rw [legShares_eq]
  exact (h.map _).sum_eq

/-- The cash legs of an opening that is dated in the window. -/
def openingCashIn (window : DateWindow) (key : CashKey) (e : Event) : Int :=
  match e.kind with
  | .openingCash _ =>
    if e.dates.effectiveDate.any window.covers then (e.cashLegs.map fun leg => leg.cashOn key).sum else 0
  | _ => 0

theorem cashLegs_sum (e : Event) (key : CashKey) :
    (e.cashLegs.map fun leg => leg.cashOn key).sum =
      (e.movements.map fun m => if m.kind = .cash ∧ m.key = key then m.minor else 0).sum := by
  unfold Event.cashLegs Event.legsOfKind Event.movements
  induction e.legs with
  | nil => rfl
  | cons leg legs ih =>
    rw [List.filter_cons, List.filterMap_cons]
    unfold Leg.movement Leg.cashOn at *
    cases hm : leg.cashEffect with
    | none => by_cases hk : leg.kind = .cash <;> simp [hk, hm, ih]
    | some money =>
      have hkey : (leg.account = key.account ∧ money.currency = key.currency) ↔
          (⟨leg.account, money.currency⟩ : CashKey) = key := by
        cases key
        simp
      by_cases hk : leg.kind = .cash <;> simp [hk, hm, ih, hkey]

/-- A charge is explained by its leg kind. -/
theorem charge_explained {e : Event} {m : Movement} {flowClass : FlowClass} (h : e.Charge m) :
    quantityOf e.kind flowClass m.kind ≠ none := by
  rcases h.1 with hk | hk <;> rw [hk] <;> simp [quantityOf]

/-- Every movement of a kind other than an opening is explained, when the event concerns the contour. -/
theorem kindMovement_explained {e : Event} (hopening : ∀ amount, e.kind ≠ .openingCash amount)
    (hclass : classify contour e ≠ .irrelevant) {m : Movement} (hm : m ∈ e.kindMovements) :
    quantityOf e.kind (classify contour e) m.kind ≠ none := by
  cases hk : e.kind with
  | openingCash amount => exact absurd hk (hopening amount)
  | cashTransfer id source target amount =>
    have hcash : m.kind = .cash := by
      simp only [Event.kindMovements, hk, List.mem_cons, List.not_mem_nil, or_false] at hm
      rcases hm with rfl | rfl <;> rfl
    have hcases : classify contour e = .internal ∨ (∃ c v, classify contour e = .externalIn c v) ∨
        ∃ c v, classify contour e = .externalOut c v := by
      unfold classify at hclass ⊢
      simp only [hk, EventKind.flowEndpoints] at hclass ⊢
      cases hs : contour.contains source <;> cases ht : contour.contains target <;> simp [hs, ht] at hclass ⊢
    rw [hcash]
    rcases hcases with hc | ⟨c, v, hc⟩ | ⟨c, v, hc⟩ <;> simp [quantityOf, hc]
  | corporateAction action =>
    cases action with
    | conversion terms =>
      cases hcomp : terms.compensation <;> simp [Event.kindMovements, hk, hcomp] at hm
      simp [quantityOf, hm]
    | partialRedemption terms allocation =>
      simp only [Event.kindMovements, hk, List.mem_singleton] at hm
      simp [quantityOf, hm]
    | redemption terms =>
      simp only [Event.kindMovements, hk, List.mem_singleton] at hm
      simp [quantityOf, hm]
  | offerExercise action =>
    cases action <;> simp [Event.kindMovements, hk] at hm
    simp [quantityOf, hm]
  | _ =>
    simp only [Event.kindMovements, hk, List.mem_singleton, List.not_mem_nil] at hm
    all_goals simp [quantityOf, hm]

/-- The part of a movement that stays unexplained on a key. -/
def unexplainedOn (key : CashKey) (quantity : Option Quantity) (k : CashKey) (minor : Int) : Int :=
  if quantity = none ∧ k = key then minor else 0

theorem movementShare_of_explained {e : Event} {key : CashKey} {m : Movement}
    (h : quantityOf e.kind (classify contour e) m.kind ≠ none) :
    movementShare (unexplainedOn key) contour e m = 0 := by
  unfold movementShare unexplainedOn
  simp [h]

/-- An opening is not explained, and its cash legs are all there is of it. -/
theorem unexplained_opening {e : Event} {amount : Money} (hk : e.kind = .openingCash amount) (he : e.CarriesItsLegs)
    {key : CashKey} (hin : contour.contains key.account = true) :
    eventShare (unexplainedOn key) contour window e = openingCashIn window key e := by
  obtain ⟨charges, hcharges, hperm⟩ := he
  have hnil : charges = [] := List.eq_nil_iff_forall_not_mem.mpr fun m hm => by
    have hcharge := (hcharges m hm).2.2
    rw [hk] at hcharge
    cases hcharge
  rw [hnil, List.append_nil] at hperm
  have hmovements : e.kindMovements = [⟨.cash, ⟨e.account, amount.currency⟩, amount.amount.raw⟩] := by
    simp only [Event.kindMovements, hk]
  have hshare := legShares_of_perm hperm (unexplainedOn key) contour
  have hcash := cashLegs_sum e key
  rw [(hperm.map _).sum_eq] at hcash
  unfold eventShare openingCashIn
  rw [hshare, hcash, hmovements, hk]
  by_cases hkey : (⟨e.account, amount.currency⟩ : CashKey) = key
  · -- The account of the opening is the account that is asked for, so the event concerns the contour.
    subst hkey
    have hclass : classify contour e = .internal := by
      unfold classify
      simp only [hk, EventKind.flowEndpoints]
      simp_all
    have hmember : contour.contains e.account = true := hin
    simp [counts, hclass, movementShare, unexplainedOn, quantityOf, hk, hmember]
  · simp [movementShare, unexplainedOn, hkey]

theorem unexplained_event {e : Event} (he : e.CarriesItsLegs) {key : CashKey}
    (hin : contour.contains key.account = true) :
    eventShare (unexplainedOn key) contour window e = openingCashIn window key e := by
  by_cases hopening : ∃ amount, e.kind = .openingCash amount
  · obtain ⟨amount, hk⟩ := hopening
    exact unexplained_opening hk he hin
  · have hopening := fun amount h => hopening ⟨amount, h⟩
    have hnone : openingCashIn window key e = 0 := by
      unfold openingCashIn
      split
      · next amount hk => exact absurd hk (hopening amount)
      · rfl
    obtain ⟨charges, hcharges, hperm⟩ := he
    rw [hnone]
    unfold eventShare
    split_ifs with hcounts
    · have hclass : classify contour e ≠ .irrelevant := by
        unfold counts at hcounts
        simp only [Bool.and_eq_true, decide_eq_true_eq] at hcounts
        exact hcounts.1
      rw [legShares_of_perm hperm]
      refine List.sum_eq_zero fun n hn => ?_
      obtain ⟨m, hm, rfl⟩ := List.mem_map.mp hn
      rcases List.mem_append.mp hm with hm | hm
      · exact movementShare_of_explained (kindMovement_explained hopening hclass hm)
      · exact movementShare_of_explained (charge_explained (hcharges m hm))
    · rfl

/-- Over every run the cash that stays unexplained on an account of the contour is what its openings brought. -/
theorem residual_eq_opening (hlegs : ∀ e ∈ events, e.CarriesItsLegs)
    (h : events.foldlM (apply contour window categories) new = .ok flow) {account : AccountId}
    (hin : contour.contains account = true) (currency : CurrencyCode) :
    flow.residualOf account currency = (events.map (openingCashIn window ⟨account, currency⟩)).sum := by
  have hrun := run_adds (reading_residual account currency) h
  have hempty : new.residualOf account currency = 0 := by simp [residualOf, new, MoneyFlow.at]
  rw [hempty, zero_add] at hrun
  rw [hrun]
  exact congrArg List.sum (List.map_congr_left fun e he => unexplained_event (hlegs e he) hin)

theorem sampleMonth_legs : ∀ e ∈ sampleMonth, e.CarriesItsLegs := by
  have hlegs : ∀ e ∈ sampleMonth, (∀ m ∈ e.movements.filter (e.Charge ·), e.Charge m) ∧
      e.movements.Perm (e.kindMovements ++ e.movements.filter (e.Charge ·)) := by decide
  exact fun e he => ⟨_, hlegs e he⟩

theorem residual_sampleMonth :
    ∃ flow, sampleMonth.foldlM (apply household august noCategories) new = .ok flow ∧ flow.residualOf ⟨1⟩ .rub = 500 := by
  obtain ⟨flow, h⟩ := exists_ok (show (sampleMonth.foldlM (apply household august noCategories) new).isOk = true by
    decide)
  refine ⟨flow, h, ?_⟩
  rw [residual_eq_opening sampleMonth_legs h (by decide) .rub]
  decide

end MoneyFlow
end Iaam
