import Iaam.Theorems.FlowSeries
import Iaam.Theorems.OneValue

/-! What the fingerprint of the inputs says of the money figures of the returns report. It lists by hand the
inputs that the figures read, and leaves out three: the order of the flows, the flag of a contradicted
basis, and the rate of the currency of a face. -/

namespace Iaam
namespace Returns
open Outcome

/-! ### What is hashed -/

/-- The positions that are valued. -/
def heldEntries (state : LedgerState) (request : ReturnsRequest) : List (PositionKey × Quantity) :=
  state.balances.iterPositions.filter fun entry => request.contour.contains entry.1.account && !entry.2.isZero

/-- The currencies and days of the rates that are hashed. -/
def hashedKeys (state : LedgerState) (request : ReturnsRequest) : Tree.Set (CurrencyCode ×ₗ Date) :=
  fxKeys request.asOf (selectedFlows state request) (selectedCash state request)
    ((positionAssessments state request).map selectedPosition)

theorem mem_fxKeys {asOf : Date} {flows : List ExternalFlow} {cash : List (AccountId × Money)}
    {positions : List SelectedPosition} {key : CurrencyCode ×ₗ Date} :
    key ∈ fxKeys asOf flows cash positions ↔
      (∃ flow ∈ flows, toLex (flow.amount.currency, flow.date) = key) ∨
      (∃ entry ∈ cash, toLex (entry.2.currency, asOf) = key) ∨
      ∃ position ∈ positions, ∃ currency, position.valuation.currency? = some currency ∧ toLex (currency, asOf) = key := by
  unfold fxKeys
  rw [Tree.mem_foldl_insert_set]
  simp

section
variable {s s' : LedgerState} {r r' : ReturnsRequest} (h : selectedInputs s r = selectedInputs s' r')

include h

/-- Two requests with one fingerprint agree on every hashed rate. -/
theorem rate_of_hashed {currency : CurrencyCode} {date : Date} (hkey : toLex (currency, date) ∈ hashedKeys s r) :
    r.fx.rate currency r.reportCurrency date = r'.fx.rate currency r'.reportCurrency date := by
  have hasOf := congrArg SelectedInputs.asOf h
  have hflows := congrArg SelectedInputs.flows h
  have hcash := congrArg SelectedInputs.cash h
  have hpositions := congrArg SelectedInputs.positions h
  have hrates := congrArg SelectedInputs.rates h
  simp only [selectedInputs] at hasOf hflows hcash hpositions hrates
  rw [← hasOf, ← hflows, ← hcash, ← hpositions] at hrates
  have heach := List.map_inj_left.mp hrates (toLex (currency, date)) (Std.ExtTreeSet.mem_toList.mpr hkey)
  simp only [ofLex_toLex, Prod.mk.injEq, true_and] at heach
  exact heach.2

/-- The positions of the two states are the same, and the fingerprint has the same of each. -/
theorem heldEntries_eq : heldEntries s r = heldEntries s' r' ∧
    ∀ entry ∈ heldEntries s r, selectedPosition (assess s r entry) = selectedPosition (assess s' r' entry) := by
  have hpositions := congrArg SelectedInputs.positions h
  simp only [selectedInputs, positionAssessments, List.map_map] at hpositions
  replace hpositions : (heldEntries s r).map (selectedPosition ∘ assess s r) =
    (heldEntries s' r').map (selectedPosition ∘ assess s' r') := hpositions
  have hentry : ∀ (s : LedgerState) (r : ReturnsRequest) (entries : List (PositionKey × Quantity)),
      ((entries.map (selectedPosition ∘ assess s r)).map fun p => (PositionKey.mk p.account p.instrument, p.quantity)) =
        entries := by
    intro s r entries
    rw [List.map_map]
    exact List.map_id entries
  have hsame : heldEntries s r = heldEntries s' r' := by
    have hmap := congrArg (List.map fun p : SelectedPosition => (PositionKey.mk p.account p.instrument, p.quantity))
      hpositions
    rwa [hentry, hentry] at hmap
  refine ⟨hsame, fun entry hmem => ?_⟩
  have hlist : (heldEntries s r).map (selectedPosition ∘ assess s r) =
      (heldEntries s r).map (selectedPosition ∘ assess s' r') := by
    rw [hpositions, hsame]
  exact List.map_inj_left.mp hlist entry hmem

/-- The cash of the contour is the same: the sort leaves it as it is. -/
theorem contourCash_eq : contourCash s r = contourCash s' r' := by
  have hsorted : ∀ (s : LedgerState) (r : ReturnsRequest), selectedCash s r = contourCash s r := by
    intro s r
    refine Numbered.sortBy_of_perm (List.Perm.refl _) ?_
    have hkeys : s.balances.cash.toList.Pairwise fun l r => l.1 < r.1 :=
      Std.ExtTreeMap.ordered_keys_toList.imp fun hlt => compare_lt_iff_lt.mp hlt
    exact List.Pairwise.filter _ (List.pairwise_map.mpr hkeys)
  have hcash := congrArg SelectedInputs.cash h
  simp only [selectedInputs, hsorted] at hcash
  exact hcash

end

/-! ### Values -/

section
variable {r r' : ReturnsRequest}

/-- The requests have the same rate of a currency on the day of the report. -/
def SameRate (r r' : ReturnsRequest) (currency : CurrencyCode) : Prop :=
  r.fx.rate currency r.reportCurrency r.asOf = r'.fx.rate currency r'.reportCurrency r'.asOf

theorem converted_congr (hcurrency : r.reportCurrency = r'.reportCurrency) {date : Date} {amount : Money}
    (h : r.fx.rate amount.currency r.reportCurrency date = r'.fx.rate amount.currency r'.reportCurrency date) :
    converted r date amount = converted r' date amount := by
  simp only [converted, convertMoney]
  rw [h, hcurrency]

theorem valued_congr (hcurrency : r.reportCurrency = r'.reportCurrency) (hasOf : r.asOf = r'.asOf) {quantity : Quantity}
    {unit : Dec × CurrencyCode} (h : SameRate r r' unit.2) : valued r quantity unit = valued r' quantity unit := by
  unfold valued
  rw [h, hcurrency, hasOf]

/-- The currency of a unit is that of the quotation, or that of the face for a percentage of it. -/
theorem unitOf_currency {i : InstrumentId} {price : Dec} {basis : QuotationBasis} {currency : CurrencyCode}
    {face : Except NotComputable (Option PerUnitAmount)} {unit : Dec × CurrencyCode}
    (h : unitOf i price basis currency face = .ok unit) :
    basis = .moneyPerUnit ∧ unit.2 = currency ∨ basis = .percentOfRemainingFace ∧ ∃ f, face = .ok (some f) ∧ unit.2 = f.currency := by
  obtain ⟨remaining, hremaining, h⟩ := bind_ok.mp h
  rw [mapError_ok] at h
  cases basis with
  | moneyPerUnit =>
    cases h
    exact .inl ⟨rfl, rfl⟩
  | unknown => cases h
  | percentOfRemainingFace =>
    replace hremaining : face = .ok remaining := hremaining
    cases remaining with
    | none => cases h
    | some f =>
      obtain ⟨fraction, -, h⟩ := bind_ok.mp h
      obtain ⟨money, -, h⟩ := bind_ok.mp h
      cases h
      exact .inr ⟨rfl, f, hremaining, rfl⟩

theorem basis_of_code {l r : QuotationBasis} (h : l.code = r.code) : l = r := by
  cases l <;> cases r <;> first | rfl | simp [QuotationBasis.code] at h

/-- Of one position, the fingerprint, the flag of the evidence and the rate of the face make the value. -/
theorem assessedValue_congr {s s' : LedgerState} {entry : PositionKey × Quantity}
    (hcurrency : r.reportCurrency = r'.reportCurrency) (hasOf : r.asOf = r'.asOf)
    (hschedules : r.bondSchedules = r'.bondSchedules)
    (hselected : selectedPosition (assess s r entry) = selectedPosition (assess s' r' entry))
    (hquote : ∀ c, (selectedPosition (assess s r entry)).valuation.currency? = some c → SameRate r r' c)
    (hevidence : contradicted (kindOf (decisionOf s r entry.1.instrument)) =
      contradicted (kindOf (decisionOf s' r' entry.1.instrument)))
    (hface : ∀ price face, decisionOf s r entry.1.instrument = .selected price →
      price.candidate.basisEvidenceContradicts = false → price.candidate.basis = .percentOfRemainingFace →
      remainingFace r entry.1.instrument = .ok (some face) → SameRate r r' face.currency) :
    assessedValue r (assess s r entry) = assessedValue r' (assess s' r' entry) := by
  have hremaining : remainingFace r entry.1.instrument = remainingFace r' entry.1.instrument := by
    simp only [remainingFace, hschedules, hasOf]
  have hvaluation := congrArg SelectedPosition.valuation hselected
  simp only [selectedPosition, assess] at hvaluation hquote
  simp only [assessedValue, assess]
  cases hd : decisionOf s r entry.1.instrument with
  | selected price =>
    cases hd' : decisionOf s' r' entry.1.instrument with
    | selected price' =>
      simp only [hd, hd', kindOf, PositionValuation.selected.injEq] at hvaluation hquote hevidence ⊢
      have hprice : price.candidate.price = price'.candidate.price := congrArg SelectedObservation.price hvaluation
      have hcur : price.candidate.currency = price'.candidate.currency :=
        congrArg SelectedObservation.currency hvaluation
      have hbasis : price.candidate.basis = price'.candidate.basis :=
        basis_of_code (congrArg SelectedObservation.quotationBasis hvaluation)
      rw [positionValue_eq, positionValue_eq, ← hremaining, ← hprice, ← hcur, ← hbasis]
      simp only [← hevidence]
      split
      · rfl
      · next hcontra =>
        -- only a unit that was found is converted, and its rate is one the requests agree on
        cases hunit : unitOf entry.1.instrument price.candidate.price price.candidate.basis price.candidate.currency
            (remainingFace r entry.1.instrument) with
        | error e => rfl
        | ok unit =>
          refine valued_congr hcurrency hasOf ?_
          rcases unitOf_currency hunit with ⟨-, hsame⟩ | ⟨hpercent, face, hok, hsame⟩
          · rw [hsame]
            exact hquote _ rfl
          · rw [hsame]
            exact hface price face hd (by simpa [contradicted] using hcontra) hpercent hok
    | legacyDerived quality price' => simp [hd, hd', kindOf] at hvaluation
    | uncovered reason => simp [hd, hd', kindOf] at hvaluation
  | legacyDerived quality price =>
    cases hd' : decisionOf s' r' entry.1.instrument with
    | selected price' => simp [hd, hd', kindOf] at hvaluation
    | legacyDerived quality' price' =>
      simp only [hd, hd', kindOf, PositionValuation.legacyDerived.injEq] at hvaluation hquote ⊢
      rw [← hvaluation.2]
      cases hraw : s.prices.priceAtOrBefore entry.1.instrument r.asOf with
      | none => rfl
      | some found =>
        rw [hraw] at hquote
        simp only [positionValue_eq, contradicted]
        exact valued_congr hcurrency hasOf (hquote found.currency rfl)
    | uncovered reason => simp [hd, hd', kindOf] at hvaluation
  | uncovered reason =>
    cases hd' : decisionOf s' r' entry.1.instrument with
    | selected price' => simp [hd, hd', kindOf] at hvaluation
    | legacyDerived quality' price' => simp [hd, hd', kindOf] at hvaluation
    | uncovered reason' => rfl

end

/-! ### The figures -/

/-- What the fingerprint leaves out of two inputs is alike: the order of the flows, unless each has a rate and none
    is negative; the flag of the evidence of each selected price; and the rate of the currency of the face for a
    price in percent of it. -/
structure Agree (s : LedgerState) (r : ReturnsRequest) (s' : LedgerState) (r' : ReturnsRequest) : Prop where
  flows : flowsUpTo s r.asOf = flowsUpTo s' r'.asOf ∨
    ∀ flow ∈ flowsUpTo s r.asOf, ∃ rate, r.fx.rate flow.amount.currency r.reportCurrency flow.date = some rate ∧
      0 ≤ rate.val
  evidence : ∀ entry ∈ heldEntries s r, contradicted (kindOf (decisionOf s r entry.1.instrument)) =
    contradicted (kindOf (decisionOf s' r' entry.1.instrument))
  faces : ∀ entry ∈ heldEntries s r, ∀ price face, decisionOf s r entry.1.instrument = .selected price →
    price.candidate.basisEvidenceContradicts = false → price.candidate.basis = .percentOfRemainingFace →
    remainingFace r entry.1.instrument = .ok (some face) → SameRate r r' face.currency

section
variable {s s' : LedgerState} {r r' : ReturnsRequest}

theorem selectedFlows_eq (hs : FlowsOf r.contour s.flows) :
    selectedFlows s r = Numbered.sortBy (fun flow => toLex (flow.date, flow.event)) (flowsUpTo s r.asOf) := by
  unfold selectedFlows flowsUpTo
  congr 1
  refine List.filter_congr fun flow hflow => ?_
  obtain ⟨hcontour, hversion, -⟩ := hs flow hflow
  simp [hcontour, hversion]

variable (h : selectedInputs s r = selectedInputs s' r')

include h

/-- The flows of the two states are the same, in some order. -/
theorem flowsUpTo_perm (hs : FlowsOf r.contour s.flows) (hs' : FlowsOf r'.contour s'.flows) :
    (flowsUpTo s r.asOf).Perm (flowsUpTo s' r'.asOf) := by
  have hflows := congrArg SelectedInputs.flows h
  simp only [selectedInputs] at hflows
  rw [selectedFlows_eq hs, selectedFlows_eq hs'] at hflows
  have hleft := List.perm_insertionSort (fun l r : ExternalFlow => toLex (l.date, l.event) ≤ toLex (r.date, r.event))
    (flowsUpTo s r.asOf)
  have hright := List.perm_insertionSort (fun l r : ExternalFlow => toLex (l.date, l.event) ≤ toLex (r.date, r.event))
    (flowsUpTo s' r'.asOf)
  unfold Numbered.sortBy at hflows
  rw [hflows] at hleft
  exact hleft.symm.trans hright

/-- A flow is converted alike under the two requests. -/
theorem addFlow_congr (hs : FlowsOf r.contour s.flows) (series : FlowSeries) {flow : ExternalFlow}
    (hflow : flow ∈ flowsUpTo s r.asOf) : addFlow r series flow = addFlow r' series flow := by
  have hcurrency := congrArg SelectedInputs.reportCurrency h
  have hkey : toLex (flow.amount.currency, flow.date) ∈ hashedKeys s r := by
    refine mem_fxKeys.mpr (.inl ⟨flow, ?_, rfl⟩)
    rw [selectedFlows_eq hs]
    exact (List.perm_insertionSort _ _).mem_iff.mpr hflow
  simp only [addFlow, converted_congr hcurrency (rate_of_hashed h hkey)]

theorem sumsOf_eq (hs : FlowsOf r.contour s.flows) (hs' : FlowsOf r'.contour s'.flows) (hagree : Agree s r s' r') :
    sumsOf ((flowsUpTo s r.asOf).foldlM (addFlow r) ⟨.zero, .zero, []⟩) =
      sumsOf ((flowsUpTo s' r'.asOf).foldlM (addFlow r') ⟨.zero, .zero, []⟩) := by
  have hsame : ∀ {flows : List ExternalFlow}, (∀ flow ∈ flows, flow ∈ flowsUpTo s r.asOf) →
      flows.foldlM (addFlow r) ⟨.zero, .zero, []⟩ = flows.foldlM (addFlow r') ⟨.zero, .zero, []⟩ := by
    intro flows hflows
    exact Runs.foldlM_congr (fun series flow hflow => addFlow_congr h hs series (hflows flow hflow)) _
  have hperm := flowsUpTo_perm h hs hs'
  rw [← hsame fun flow hflow => hperm.mem_iff.mpr hflow]
  rcases hagree.flows with heq | hrates
  · rw [heq]
  · refine sumsOf_perm hperm fun flow hflow => ⟨?_, hrates flow hflow⟩
    exact (hs flow (List.mem_of_mem_filter hflow)).2.2

theorem accountValues_eq (hnew : guardStateNotNewer s r.asOf = .ok ()) (hnew' : guardStateNotNewer s' r'.asOf = .ok ())
    (hagree : Agree s r s' r') : accountValues s r = accountValues s' r' := by
  have hcurrency : r.reportCurrency = r'.reportCurrency := congrArg SelectedInputs.reportCurrency h
  have hasOf : r.asOf = r'.asOf := congrArg SelectedInputs.asOf h
  have hschedules : r.bondSchedules = r'.bondSchedules := congrArg SelectedInputs.bondSchedules h
  obtain ⟨hheld, hselected⟩ := heldEntries_eq h
  have hcash : ∀ values, ∀ entry ∈ contourCash s r, addCash r values entry = addCash r' values entry := by
    intro values entry hentry
    have hkey : toLex (entry.2.currency, r.asOf) ∈ hashedKeys s r := by
      refine mem_fxKeys.mpr (.inr (.inl ⟨entry, ?_, rfl⟩))
      exact (List.perm_insertionSort _ _).mem_iff.mpr hentry
    have hconverted : converted r r.asOf entry.2 = converted r' r'.asOf entry.2 := by
      rw [← hasOf]
      exact converted_congr hcurrency (rate_of_hashed h hkey)
    simp only [addCash, hconverted]
  have hvalue : ∀ entry ∈ heldEntries s r, assessedValue r (assess s r entry) = assessedValue r' (assess s' r' entry) := by
    intro entry hentry
    refine assessedValue_congr hcurrency hasOf hschedules (hselected entry hentry) (fun c hc => ?_)
      (hagree.evidence entry hentry) (hagree.faces entry hentry)
    have hkey : toLex (c, r.asOf) ∈ hashedKeys s r := by
      refine mem_fxKeys.mpr (.inr (.inr ⟨selectedPosition (assess s r entry), ?_, c, hc, rfl⟩))
      exact List.mem_map_of_mem (List.mem_map_of_mem hentry)
    have hrate := rate_of_hashed h hkey
    rw [SameRate, hrate, hasOf]
  have hpositions : ∀ values, (positionValues s r).foldlM addPosition values =
      (positionValues s' r').foldlM addPosition values := by
    intro values
    have hleft : positionValues s r = (heldEntries s r).map fun entry =>
        ⟨assess s r entry, assessedValue r (assess s r entry)⟩ := List.map_map
    have hright : positionValues s' r' = (heldEntries s r).map fun entry =>
        ⟨assess s' r' entry, assessedValue r' (assess s' r' entry)⟩ := by
      rw [hheld]
      exact List.map_map
    rw [hleft, hright, List.foldlM_map, List.foldlM_map]
    refine Runs.foldlM_congr (fun values entry hentry => ?_) values
    simp only [addPosition, hvalue entry hentry]
    rfl
  unfold accountValues
  rw [hnew, hnew', ok_bind, ok_bind, ← contourCash_eq h, Runs.foldlM_congr hcash]
  exact bind_congr hpositions

end

/-- The two reports have the same money figures. -/
structure SameFigures {H : Type} (l r : ReturnsReport H) : Prop where
  contributed : l.contributed = r.contributed
  withdrawn : l.withdrawn = r.withdrawn
  terminalValue : l.terminalValue = r.terminalValue

/-- The table without the rate of one currency on one day. -/
def withoutRate (request : ReturnsRequest) (currency : CurrencyCode) : ReturnsRequest :=
  { request with fx :=
    { request.fx with rates := request.fx.rates.erase ⟨currency, request.reportCurrency, request.asOf⟩ } }

section
variable {s : LedgerState} {r : ReturnsRequest} {currency : CurrencyCode}

theorem rate_withoutRate {c : CurrencyCode} {date : Date} (h : (c, date) ≠ (currency, r.asOf)) :
    (withoutRate r currency).fx.rate c r.reportCurrency date = r.fx.rate c r.reportCurrency date := by
  unfold FxTable.rate withoutRate
  split
  · rfl
  · rw [Std.ExtTreeMap.getElem?_erase, if_neg]
    rw [compare_eq_iff_eq]
    intro heq
    cases heq
    exact h rfl

theorem selectedInputs_withoutRate (h : toLex (currency, r.asOf) ∉ hashedKeys s r) :
    selectedInputs s (withoutRate r currency) = selectedInputs s r := by
  have hrates : ∀ key ∈ (hashedKeys s r).toList,
      (withoutRate r currency).fx.rate (ofLex key).1 r.reportCurrency (ofLex key).2 =
        r.fx.rate (ofLex key).1 r.reportCurrency (ofLex key).2 := by
    intro key hkey
    refine rate_withoutRate fun heq => h ?_
    have hmem := Std.ExtTreeSet.mem_toList.mp hkey
    have hpair : key = toLex (currency, r.asOf) := congrArg toLex heq
    rwa [hpair] at hmem
  have hmap : (hashedKeys s r).toList.map (fun key => ((ofLex key).1, r.reportCurrency, (ofLex key).2,
        (withoutRate r currency).fx.rate (ofLex key).1 r.reportCurrency (ofLex key).2)) =
      (hashedKeys s r).toList.map fun key => ((ofLex key).1, r.reportCurrency, (ofLex key).2,
        r.fx.rate (ofLex key).1 r.reportCurrency (ofLex key).2) :=
    List.map_congr_left fun key hkey => by rw [hrates key hkey]
  have hsame : selectedInputs s (withoutRate r currency) = { selectedInputs s r with
    rates := (hashedKeys s r).toList.map fun key => ((ofLex key).1, r.reportCurrency, (ofLex key).2,
      (withoutRate r currency).fx.rate (ofLex key).1 r.reportCurrency (ofLex key).2) } := rfl
  rw [hsame, hmap]
  rfl

/-- A terminal value that was computed rests on a value of each position. -/
theorem valued_of_terminal {v : Dec} (h : terminalValue s r = .ok v) {entry : PositionKey × Quantity}
    (hentry : entry ∈ heldEntries s r) : ∃ d, assessedValue r (assess s r entry) = .ok d := by
  obtain ⟨values, hvalues, -⟩ := bind_ok.mp h
  obtain ⟨-, hvalues⟩ := seq_ok.mp hvalues
  obtain ⟨cash, -, hpositions⟩ := bind_ok.mp hvalues
  have hmem : PositionValue.mk (assess s r entry) (assessedValue r (assess s r entry)) ∈ positionValues s r :=
    List.mem_map_of_mem (List.mem_map_of_mem hentry)
  obtain ⟨before, after, hstep⟩ := (Runs.foldlM_ok.mp hpositions).exists_step hmem
  obtain ⟨d, hd, -⟩ := bind_ok.mp hstep
  exact ⟨d, hd⟩

/-- A position in percent of a face in another currency has no value without the rate of that currency. -/
theorem no_value_withoutRate {entry : PositionKey × Quantity} {price : SelectedPrice} {face : PerUnitAmount}
    (hd : decisionOf s r entry.1.instrument = .selected price)
    (hpercent : price.candidate.basis = .percentOfRemainingFace)
    (hface : remainingFace r entry.1.instrument = .ok (some face)) (hne : face.currency ≠ r.reportCurrency) (d : Dec) :
    assessedValue (withoutRate r face.currency) (assess s (withoutRate r face.currency) entry) ≠ .ok d := by
  intro hvalue
  have hdecision : decisionOf s (withoutRate r face.currency) entry.1.instrument = .selected price := hd
  have hremaining : remainingFace (withoutRate r face.currency) entry.1.instrument = .ok (some face) := hface
  simp only [assessedValue, assess, hdecision, kindOf] at hvalue
  rw [positionValue_eq] at hvalue
  split at hvalue
  · cases hvalue
  · obtain ⟨unit, hunit, hvalue⟩ := bind_ok.mp hvalue
    obtain ⟨rate, hrate, -⟩ := valued_ok hvalue
    rcases unitOf_currency hunit with ⟨hmoney, -⟩ | ⟨-, found, hfound, hcurrency⟩
    · rw [hpercent] at hmoney
      cases hmoney
    · cases hremaining.symm.trans hfound
      have hnone : (withoutRate r face.currency).fx.rate face.currency r.reportCurrency r.asOf = none := by
        rw [FxTable.rate, if_neg hne]
        exact Std.ExtTreeMap.getElem?_erase_self
      rw [hcurrency] at hrate
      cases hnone.symm.trans hrate

end

/-- One fingerprint means the same money figures, when what it leaves out is alike. And what it leaves out counts: a
    terminal value that rests on the rate of a face, in a currency the fingerprint has no rate of, is lost under
    the same fingerprint when the rate is taken out of the table. -/
theorem fingerprint_determines_figures {H : Type} {hashSelected : SelectedInputs → H}
    (hinjective : Function.Injective hashSelected) :
    (∀ s r s' r', ProjectedFor r.contour s → ProjectedFor r'.contour s' →
      guardStateNotNewer s r.asOf = .ok () → guardStateNotNewer s' r'.asOf = .ok () →
      (returnsReport hashSelected s r).inputsHash = (returnsReport hashSelected s' r').inputsHash →
      Agree s r s' r' → SameFigures (returnsReport hashSelected s r) (returnsReport hashSelected s' r')) ∧
    ∀ s r v, terminalValue s r = .ok v → ∀ entry ∈ heldEntries s r, ∀ price face,
      decisionOf s r entry.1.instrument = .selected price → price.candidate.basis = .percentOfRemainingFace →
      remainingFace r entry.1.instrument = .ok (some face) → face.currency ≠ r.reportCurrency →
      toLex (face.currency, r.asOf) ∉ hashedKeys s r →
      (returnsReport hashSelected s (withoutRate r face.currency)).inputsHash = (returnsReport hashSelected s r).inputsHash ∧
        ¬SameFigures (returnsReport hashSelected s (withoutRate r face.currency)) (returnsReport hashSelected s r) := by
  constructor
  · intro s r s' r' hs hs' hnew hnew' hhash hagree
    have h : selectedInputs s r = selectedInputs s' r' := hinjective hhash
    have hsums := sumsOf_eq h hs.flowsOf hs'.flowsOf hagree
    rw [← sumsOf_flowSeries hnew, ← sumsOf_flowSeries hnew'] at hsums
    refine ⟨?_, ?_, ?_⟩
    · show (flowSeries s r).map FlowSeries.contributed = (flowSeries s' r').map FlowSeries.contributed
      rw [contributed_eq, contributed_eq, hsums]
    · show (flowSeries s r).map FlowSeries.withdrawn = (flowSeries s' r').map FlowSeries.withdrawn
      rw [withdrawn_eq, withdrawn_eq, hsums]
    · show terminalValue s r = terminalValue s' r'
      rw [terminalValue, accountValues_eq h hnew hnew' hagree, terminalValue]
  · intro s r v hvalue entry hentry price face hd hpercent hface hne hkey
    refine ⟨congrArg hashSelected (selectedInputs_withoutRate hkey), fun hsame => ?_⟩
    obtain ⟨d, hd'⟩ := valued_of_terminal (hsame.terminalValue.trans hvalue) (r := withoutRate r face.currency) hentry
    exact no_value_withoutRate hd hpercent hface hne d hd'

/-! ### A bond with a face in dollars -/

/-- A journal of ten bonds. -/
def tenBonds : List Event :=
  [eventWith ⟨1⟩ ⟨1⟩ ⟨0⟩ 0 (.openingPosition ⟨1⟩ (.ofInt64 10) none {}) [.security ⟨1⟩ ⟨1⟩ ⟨1⟩ (.ofInt64 10)]]

/-- The market has the bond at 95 percent, and the currency of the quotation is the rouble. -/
def bondQuote : PriceCandidate :=
  ⟨⟨1⟩, .ofInt64 95, .rub, .percentOfRemainingFace, "moex:bond", false, ⟨1⟩, none, .market ⟨"TQOB", 3⟩ .legalClose,
    .indicativePreviousClose⟩

def bondFace : PerUnitAmount := ⟨.ofInt64 1000, .usd⟩

/-- A report in roubles. -/
def bondRequest (fx : FxTable) : ReturnsRequest where
  contour := oneAccount.contour
  asOf := ⟨1⟩
  reportCurrency := .rub
  fx := fx
  coordinate := ⟨⟨0⟩, 1, 1⟩
  marketPrices := [bondQuote]
  bondSchedules := (∅ : Tree.Map InstrumentId Bond.BondSchedule).insert ⟨1⟩ ⟨[], some bondFace, .validated⟩

/-- The rate of a dollar on the day of the report. -/
def dollarAt (rate : Int64) : FxTable := (FxTable.new .cbrOfficial).withRate .usd .rub ⟨1⟩ (.ofInt64 rate)

/-- With the rate of a euro, that nothing is valued at. -/
def dollarAndEuro : FxTable := (dollarAt 90).withRate .eur .rub ⟨1⟩ (.ofInt64 100)

/-- What the projection of the journal has for the report, whatever the table is. -/
structure HoldsBonds (s : LedgerState) : Prop where
  projected : ProjectedFor oneAccount.contour s
  notNewer : guardStateNotNewer s ⟨1⟩ = .ok ()
  held : ∀ fx, heldEntries s (bondRequest fx) = [(⟨⟨1⟩, ⟨1⟩⟩, .ofInt64 10)]
  keys : ∀ fx, (hashedKeys s (bondRequest fx)).toList = [toLex (.rub, ⟨1⟩)]
  decision : ∀ fx, decisionOf s (bondRequest fx) ⟨1⟩ =
    .selected ⟨bondQuote, .asObserved, .fresh, ValuationPolicyV1.provenance {} bondQuote⟩
  atNinety : terminalValue s (bondRequest (dollarAt 90)) = .ok (.ofInt64 855000)
  atEighty : terminalValue s (bondRequest (dollarAt 80)) = .ok (.ofInt64 760000)

theorem exists_holdsBonds : ∃ s, HoldsBonds s := by
  obtain ⟨p, hp⟩ := exists_ok (x := project .transparent oneAccount tenBonds) (by decide +kernel)
  refine ⟨p.snapshot.state, ⟨.transparent, oneAccount, tenBonds, p, rfl, hp, rfl⟩, ?_, fun _ => ?_, fun _ => ?_,
    fun _ => ?_, ?_, ?_⟩
  · exact read_of_ok hp (fun p => guardStateNotNewer p.snapshot.state ⟨1⟩) (by decide +kernel)
  · exact read_of_ok hp (fun p => heldEntries p.snapshot.state (bondRequest (dollarAt 90))) (by decide +kernel)
  · exact read_of_ok hp (fun p => (hashedKeys p.snapshot.state (bondRequest (dollarAt 90))).toList) (by decide +kernel)
  · exact read_of_ok hp (fun p => decisionOf p.snapshot.state (bondRequest (dollarAt 90)) ⟨1⟩) (by decide +kernel)
  · exact read_of_ok hp (fun p => terminalValue p.snapshot.state (bondRequest (dollarAt 90))) (by decide +kernel)
  · exact read_of_ok hp (fun p => terminalValue p.snapshot.state (bondRequest (dollarAt 80))) (by decide +kernel)

/-- The one rate that is hashed is that of the rouble. -/
theorem HoldsBonds.selectedInputs_eq {s : LedgerState} (h : HoldsBonds s) {l r : FxTable} (hsource : l.source = r.source) :
    selectedInputs s (bondRequest l) = selectedInputs s (bondRequest r) := by
  have hrates : ∀ fx, (selectedInputs s (bondRequest fx)).rates = [(.rub, .rub, ⟨1⟩, some .one)] := by
    intro fx
    change (hashedKeys s (bondRequest fx)).toList.map _ = _
    rw [h.keys fx]
    simp [bondRequest, FxTable.rate]
  have hl : selectedInputs s (bondRequest l) = { selectedInputs s (bondRequest r) with
    fxSource := l.source, rates := (selectedInputs s (bondRequest l)).rates } := rfl
  rw [hl, hsource, hrates l, ← hrates r]
  rfl

theorem bonds_without_euro : ∃ s, ProjectedFor oneAccount.contour s ∧
    SameFigures (returnsReport id s (bondRequest (dollarAt 90))) (returnsReport id s (bondRequest dollarAndEuro)) ∧
    ¬SameFigures (returnsReport id s (withoutRate (bondRequest (dollarAt 90)) .usd))
      (returnsReport id s (bondRequest (dollarAt 90))) := by
  obtain ⟨s, hs⟩ := exists_holdsBonds
  obtain ⟨hfigures, hlost⟩ := fingerprint_determines_figures (H := SelectedInputs) Function.injective_id
  have hface : remainingFace (bondRequest (dollarAt 90)) ⟨1⟩ = .ok (some bondFace) := by decide +kernel
  have hagree : Agree s (bondRequest (dollarAt 90)) s (bondRequest dollarAndEuro) := by
    refine ⟨.inl rfl, fun entry hentry => rfl, ?_⟩
    intro entry hentry price face hprice hevidence hpercent hfound
    rw [hs.held, List.mem_singleton] at hentry
    rw [hentry, hface] at hfound
    cases hfound
    change (dollarAt 90).rate .usd .rub ⟨1⟩ = dollarAndEuro.rate .usd .rub ⟨1⟩
    decide
  refine ⟨s, hs.projected, ?_, ?_⟩
  · exact hfigures _ _ _ _ hs.projected hs.projected hs.notNewer hs.notNewer (hs.selectedInputs_eq rfl) hagree
  · have hentry : (⟨⟨1⟩, ⟨1⟩⟩, .ofInt64 10) ∈ heldEntries s (bondRequest (dollarAt 90)) := by
      rw [hs.held]
      exact List.mem_singleton_self _
    have hkey : toLex (bondFace.currency, (⟨1⟩ : Date)) ∉ hashedKeys s (bondRequest (dollarAt 90)) := by
      rw [← Std.ExtTreeSet.mem_toList, hs.keys]
      decide
    exact (hlost s _ _ hs.atNinety _ hentry _ bondFace (hs.decision _) rfl hface (by decide) hkey).2

theorem face_rate_not_hashed : ∃ s, ProjectedFor oneAccount.contour s ∧
    guardStateNotNewer s (bondRequest (dollarAt 90)).asOf = .ok () ∧
    (returnsReport id s (bondRequest (dollarAt 90))).inputsHash = (returnsReport id s (bondRequest (dollarAt 80))).inputsHash ∧
    (returnsReport id s (bondRequest (dollarAt 90))).terminalValue = .ok (.ofInt64 855000) ∧
    (returnsReport id s (bondRequest (dollarAt 80))).terminalValue = .ok (.ofInt64 760000) := by
  obtain ⟨s, hs⟩ := exists_holdsBonds
  exact ⟨s, hs.projected, hs.notNewer, hs.selectedInputs_eq rfl, hs.atNinety, hs.atEighty⟩

end Returns
end Iaam
