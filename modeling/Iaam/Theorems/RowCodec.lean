import Iaam.Journal.RowCodec
import Iaam.Lib.Runs
import Iaam.Lib.Search
import Iaam.Theorems.Gate
import Iaam.Theorems.RowText
import Mathlib.Data.Rat.Encodable

/-! The rows of an event are read back as the event. What the legs hold in place of a column is found again because
the gate let the event through. -/

namespace Iaam
namespace Rows
open Outcome LegMatching Gate

section
variable {c : TextCodecs}

/-! ### The header -/

section
variable (hc : c.ReadBack)
include hc

theorem decodeRelation_encode (field : String) (relation : Relation) :
    decodeRelation c field (encodeRelation c relation).1 (encodeRelation c relation).2 = .ok relation := by
  cases relation with
  | none => rfl
  | reversal target => simp [encodeRelation, decodeRelation, parseUuid_idText hc]
  | replacement target => simp [encodeRelation, decodeRelation, parseUuid_idText hc]

theorem decodeRuleSettlement_encode {settlement : Option RuleSettlement} (h : ∀ s ∈ settlement, s.Typed) :
    decodeRuleSettlement c (encodeRuleSettlement c settlement).1 (encodeRuleSettlement c settlement).2.1
      (encodeRuleSettlement c settlement).2.2 = .ok settlement := by
  rcases settlement with _ | _ | ⟨rule, version⟩ | ⟨rule, version⟩
  · rfl
  · rfl
  · have hversion : version < 2 ^ 32 := h _ rfl
    simp [encodeRuleSettlement, decodeRuleSettlement, decodeRule, parseUuid_idText hc, u32FromI64_ofNat _ hversion]
  · have hversion : version < 2 ^ 32 := h _ rfl
    simp [encodeRuleSettlement, decodeRuleSettlement, decodeRule, parseUuid_idText hc, u32FromI64_ofNat _ hversion]

omit hc in
theorem decodeRow_encode {row : Option RowLocator} {columns : Option String × Option String × Option Int64}
    (h : ∀ r ∈ row, RawHash.IsMade r.document) (hrow : encodeRow row = .ok columns) :
    decodeRow columns.1 columns.2.1 columns.2.2 = .ok row := by
  cases row with
  | none =>
    cases hrow
    rfl
  | some row =>
    obtain ⟨number, hnumber, hcolumns⟩ := bind_ok.mp hrow
    cases hcolumns
    unfold encodeRowNumber at hnumber
    split at hnumber
    · next hlt =>
      cases hnumber
      simp [decodeRow, parse_rawHash (h row rfl), orInvalid, u64FromI64_ofNat _ hlt, Functor.map, Except.map]
    · cases hnumber

theorem decodeProvenance_header {e : Event} {columns : Option String × Option String × Option Int64} (htyped : e.Typed)
    (hrow : encodeRow e.provenance.row = .ok columns) :
    decodeProvenance c (headerOf c e columns) = .ok e.provenance := by
  unfold decodeProvenance headerOf
  dsimp only
  rw [parseUuid_idText hc, parse_rawHash htyped.rawHash, mapM_map (parseUuid_idText hc "import"),
    mapM_map (parseUuid_idText hc "import_session"), mapM_map (parseUuid_idText hc "declared_by"),
    decodeRuleSettlement_encode hc htyped.ruleSettlement, decodeRow_encode htyped.document hrow]
  rfl

theorem decodeOrder_header {e : Event} {columns : Option String × Option String × Option Int64} (htyped : e.Typed) :
    decodeOrder c (headerOf c e columns) = .ok e.order := by
  unfold decodeOrder headerOf
  dsimp only
  rw [dateFromText_dateToText hc, mapM_map (sourceTimeFromText_sourceTimeToText hc "source_time"),
    u32FromI64_ofNat _ htyped.sequence]
  rfl

theorem decodeDates_header {e : Event} {columns : Option String × Option String × Option Int64} (htyped : e.Typed) :
    decodeDates c (headerOf c e columns) = .ok e.dates := by
  have htax : (e.dates.taxPeriodOverride.map Int64.ofInt).mapM (i32FromI64 "tax_period_override") =
      .ok e.dates.taxPeriodOverride := by
    have hbounds := htyped.taxPeriod
    cases hyear : e.dates.taxPeriodOverride with
    | none => rfl
    | some year =>
      obtain ⟨hlow, hhigh⟩ := hbounds year hyear
      simp [i32FromI64_ofInt _ hlow hhigh, Functor.map, Except.map]
  unfold decodeDates headerOf
  dsimp only
  rw [mapM_map (dateFromText_dateToText hc "date_trade"), mapM_map (dateFromText_dateToText hc "date_settled"),
    mapM_map (dateFromText_dateToText hc "date_cash_posted"), mapM_map (dateFromText_dateToText hc "date_entitlement"),
    mapM_map (dateFromText_dateToText hc "date_paid"), htax]
  rfl

/-! ### The legs -/

theorem rowToLeg_legToRow (event : String) (ordinal : Nat) (leg : Leg) :
    rowToLeg c (legToRow c event ordinal leg) = .ok leg := by
  unfold rowToLeg legToRow
  dsimp only
  rw [parseLegKind_code, parseUuid_idText hc, mapM_map (parseUuid_idText hc "event_legs.custody"),
    mapM_map (parseUuid_idText hc "event_legs.instrument"), optionalMoney_columns,
    mapM_map (decFromText_decToText hc "event_legs.quantity")]
  rfl

/-- The legs come back in their order from any order of their rows. -/
theorem legs_of_perm {event : String} {legs : List Leg} {rows : List LegRow}
    (hp : rows.Perm (Numbered.number (legToRow c event) legs)) :
    (Numbered.sortBy LegRow.ordinal rows).mapM (rowToLeg c) = .ok legs := by
  have hsorted : Numbered.sortBy LegRow.ordinal rows = Numbered.number (legToRow c event) legs :=
    Numbered.sortBy_number Nat.cast Nat.strictMono_cast (fun _ _ => rfl) hp
  rw [hsorted]
  exact Numbered.mapM_number fun p _ => rowToLeg_legToRow hc event p.2 p.1

/-! ### Amounts that the legs hold -/

omit hc in
theorem singleLegMoney_of_filter {e : Event} {kind : LegKind} {leg : Leg} {money : Money}
    (hlegs : e.legsOfKind kind = [leg]) (hmoney : leg.money = some money) :
    Rows.singleLegMoney e.legs kind = .ok money := by
  unfold Event.legsOfKind at hlegs
  unfold Rows.singleLegMoney
  rw [hlegs]
  exact orInvalid_ok.mpr hmoney

omit hc in
theorem cash_of_gate {e : Event} {name : String} {declared : Money} {sign : Sign}
    (h : e.expectSingleCash name declared sign = .ok ()) : Rows.singleLegMoney e.legs .cash = .ok declared := by
  obtain ⟨leg, hlegs, hmoney⟩ := expectSingleCash_ok h
  exact singleLegMoney_of_filter hlegs hmoney

omit hc in
theorem charge_of_gate {e : Event} {kind : LegKind} {expected name : String} {declared : Money}
    (h : e.expectSingleCharge kind expected name declared = .ok ()) :
    Rows.singleLegMoney e.legs kind = .ok declared := by
  obtain ⟨leg, hlegs, hmoney⟩ := expectSingleCharge_ok h
  exact singleLegMoney_of_filter hlegs hmoney

omit hc in
/-- A movement between own accounts is checked as one monetary leg first. -/
theorem ownMovement_of_gate {e : Event} {name : String} {declared : Money}
    (h : e.validateOwnAccountMovement name declared = .ok ()) : Rows.singleLegMoney e.legs .cash = .ok declared := by
  unfold Event.validateOwnAccountMovement at h
  split at h
  · cases h
  · obtain ⟨hcash, -⟩ := seq_ok.mp h
    exact cash_of_gate hcash

omit hc in
/-- Of the two legs of a transfer one is on the account it goes to. -/
theorem transfer_of_gate {e : Event} {name : String} {source target : AccountId} {amount : Money}
    (h : e.validateTransfer name source target amount = .ok ()) :
    legMoneyForAccount e.legs .cash target = .ok amount := by
  obtain ⟨hne, -, out, inn, outMoney, hout, hinn, -, hmoney, -, -, hlegs⟩ := validateTransfer_ok h
  have hfilter : e.legs.filter (fun leg => leg.kind = .cash ∧ leg.account = target) =
      e.cashLegs.filter fun leg => leg.account = target := by
    rw [Event.cashLegs, Event.legsOfKind, List.filter_filter]
    refine List.filter_congr fun leg _ => ?_
    simp [Bool.and_comm]
  have hone : e.cashLegs.filter (fun leg => leg.account = target) = [inn] := by
    rcases hlegs with hlegs | hlegs
    · simp [hlegs, hout, hinn, hne]
    · simp [hlegs, hout, hinn, hne]
  unfold legMoneyForAccount
  rw [hfilter, hone]
  exact orInvalid_ok.mpr hmoney

omit hc in
theorem legsOfKind_of_perm {e : Event} {legs expected : List Leg} {kind : LegKind} (hp : legs.Perm e.legs)
    (hfilter : legs.filter (fun leg => leg.kind = kind) = expected) (hlength : expected.length ≤ 1) :
    e.legsOfKind kind = expected := by
  have hperm : expected.Perm (e.legsOfKind kind) := hfilter ▸ hp.filter _
  rcases expected with _ | ⟨leg, _ | ⟨other, rest⟩⟩
  · exact hperm.symm.eq_nil
  · exact List.perm_singleton.mp hperm.symm
  · simp at hlength

omit hc in
/-- An amortisation has the one leg that returns principal. -/
theorem partialRedemption_of_gate {e : Event} {name : String} {terms : PrincipalReturn} {allocation : BasisAllocation}
    (h : e.validateCorporateAction name (.partialRedemption terms allocation) = .ok ()) :
    Rows.singleLegMoney e.legs .principal = .ok terms.compensation := by
  obtain ⟨-, h⟩ := seq_ok.mp h
  obtain ⟨-, h⟩ := seq_ok.mp h
  obtain ⟨-, h⟩ := seq_ok.mp h
  obtain ⟨legs, hperm, hmatched⟩ := legs_of_expectLegs h
  obtain _ | ⟨hleg, _ | _⟩ := hmatched
  obtain ⟨hkind, -, hmoney⟩ := matches_principalLeg hleg
  exact singleLegMoney_of_filter (legsOfKind_of_perm hperm (by simp [hkind]) le_rfl) hmoney

omit hc in
theorem redemption_of_gate {e : Event} {name : String} {terms : PrincipalReturn}
    (h : e.validateCorporateAction name (.redemption terms) = .ok ()) :
    Rows.singleLegMoney e.legs .principal = .ok terms.compensation := by
  obtain ⟨-, h⟩ := seq_ok.mp h
  obtain ⟨-, h⟩ := seq_ok.mp h
  obtain ⟨negated, -, h⟩ := bind_ok.mp h
  obtain ⟨legs, hperm, hmatched⟩ := legs_of_expectLegs h
  obtain _ | ⟨hleg, _ | ⟨hsecurity, _ | _⟩⟩ := hmatched
  obtain ⟨hkind, -, hmoney⟩ := matches_principalLeg hleg
  have hother := (matches_securityLeg hsecurity).1
  exact singleLegMoney_of_filter (legsOfKind_of_perm hperm (by simp [hkind, hother]) le_rfl) hmoney

omit hc in
/-- A conversion has a monetary leg exactly when it has a compensation. -/
theorem conversion_of_gate {e : Event} {name : String} {terms : Conversion}
    (h : e.validateCorporateAction name (.conversion terms) = .ok ()) :
    optionalLegMoney e.legs .cash = .ok terms.compensation := by
  obtain ⟨-, h⟩ := seq_ok.mp h
  obtain ⟨-, h⟩ := seq_ok.mp h
  obtain ⟨-, h⟩ := seq_ok.mp h
  obtain ⟨-, h⟩ := seq_ok.mp h
  obtain ⟨-, h⟩ := seq_ok.mp h
  obtain ⟨negated, -, h⟩ := bind_ok.mp h
  obtain ⟨legs, hperm, hmatched⟩ := legs_of_expectLegs h
  obtain _ | ⟨htaken, _ | ⟨hgiven, hrest⟩⟩ := hmatched
  have htakenKind := (matches_securityLeg htaken).1
  have hgivenKind := (matches_securityLeg hgiven).1
  unfold optionalLegMoney
  cases hcompensation : terms.compensation with
  | none =>
    rw [hcompensation] at hrest
    obtain _ | _ := hrest
    have hlegs : e.legsOfKind .cash = [] := legsOfKind_of_perm hperm (by simp [htakenKind, hgivenKind]) (by simp)
    rw [Event.legsOfKind] at hlegs
    rw [hlegs]
  | some money =>
    rw [hcompensation] at hrest
    obtain _ | @⟨cash, _, _, _, hcash, _ | _⟩ := hrest
    obtain ⟨hkind, -, hmoney⟩ := matches_cashLeg hcash
    have hlegs : e.legsOfKind .cash = [cash] :=
      legsOfKind_of_perm hperm (by simp [htakenKind, hgivenKind, hkind]) le_rfl
    rw [Event.legsOfKind] at hlegs
    rw [hlegs]
    simp [hmoney, orInvalid]

/-! ### The details -/

theorem tradeFromRow_tradeToRow (event : String) (terms : Trade) :
    tradeFromRow c (tradeToRow c event terms) = .ok (.trade terms) := by
  have hexact : decodeExactFee c (terms.basisFeeExact.map fun m => decToText c m.value)
      (terms.basisFeeExact.map fun m => m.currency.code) = .ok terms.basisFeeExact := by
    cases terms.basisFeeExact with
    | none => rfl
    | some exact => simp [decodeExactFee, decFromText_decToText hc]
  unfold tradeFromRow tradeToRow
  dsimp only
  rw [parseTradeSide_code, parseUuid_idText hc, decFromText_decToText hc, requireMoney_columns, optionalMoney_columns,
    optionalMoney_columns, hexact, optionalMoney_columns]
  rfl

theorem openingPositionFromRow_toRow (event : String) (instrument : InstrumentId) (quantity : Quantity)
    (costBasis : Option Money) (assertions : OpeningAssertions) :
    openingPositionFromRow c (openingPositionToRow c event instrument quantity costBasis assertions) =
      .ok (.openingPosition instrument quantity costBasis assertions) := by
  have hbasis : decodeCostBasis (costBasis.map fun m => rawColumn m.amount) (costBasis.map fun m => m.currency.code) =
      .ok costBasis := by
    cases costBasis with
    | none => rfl
    | some basis => simp [decodeCostBasis]
  have hassertions : decodeAssertions c (openingPositionToRow c event instrument quantity costBasis assertions) =
      .ok assertions := by
    unfold decodeAssertions openingPositionToRow
    dsimp only
    rw [parseCertainty_code, mapM_map (dateFromText_dateToText hc _), parseDateCertainty_code, parseBasisCertainty_code,
      mapM_map (parseCurrency_code _), mapM_map (decFromText_decToText hc _), parseTristate_code, parseKnowledge_code,
      parseKnowledge_code]
    rfl
  unfold openingPositionFromRow
  rw [hassertions]
  unfold openingPositionToRow
  dsimp only
  rw [hbasis, parseUuid_idText hc, decFromText_decToText hc]
  rfl

theorem decodePeriod_texts {period : AssertionPeriod} (field : String) (h : period.isWellFormed = true) :
    decodePeriod c field (dateToText c period.from) (dateToText c period.to) = .ok period := by
  have hbetween : AssertionPeriod.between period.from period.to = some period := if_pos (of_decide_eq_true h)
  simp [decodePeriod, dateFromText_dateToText hc, hbetween]

theorem decodeClaim_toRow (field event : String) (period : AssertionPeriod) (claim : ControlClaim) :
    decodeClaim c field (controlAssertionToRow c event period claim) = .ok claim := by
  cases claim with
  | positionQuantity instrument quantity point =>
    simp [decodeClaim, controlAssertionToRow, ControlClaim.discriminant, parseUuid_idText hc, decFromText_decToText hc]
  | cashBalance currency amount point =>
    simp [decodeClaim, controlAssertionToRow, ControlClaim.discriminant, decodeTotal]
  | cashTurnover currency debit credit =>
    simp [decodeClaim, controlAssertionToRow, ControlClaim.discriminant]
  | feesTotal currency amount | incomeTotal currency amount | taxWithheldTotal currency amount =>
    simp [decodeClaim, controlAssertionToRow, ControlClaim.discriminant, decodeTotal]

theorem controlAssertionFromRow_toRow {period : AssertionPeriod} (event : String) (claim : ControlClaim)
    (h : period.isWellFormed = true) :
    controlAssertionFromRow c (controlAssertionToRow c event period claim) = .ok (.controlAssertion period claim) := by
  have hfrom : (controlAssertionToRow c event period claim).periodFrom = dateToText c period.from := by
    cases claim <;> rfl
  have hto : (controlAssertionToRow c event period claim).periodTo = dateToText c period.to := by
    cases claim <;> rfl
  unfold controlAssertionFromRow
  rw [hfrom, hto, decodePeriod_texts hc _ h, decodeClaim_toRow hc]
  rfl

/-! ### Coverage gaps -/

omit hc in
theorem requireWellFormed_ok {name : String} {period : AssertionPeriod}
    (h : Event.requireWellFormed name period = .ok ()) : period.isWellFormed = true := by
  unfold Event.requireWellFormed at h
  split at h
  · assumption
  · cases h

omit hc in
/-- The gate checks what the columns leave out: the number of rows and the union of their dimensions. -/
theorem coverageGap_of_gate {e : Event} {name : String} {period : AssertionPeriod} {dimensions : Finset Dimension}
    {refused : Nat} {rows : List RefusedRow}
    (h : e.validateImportCoverageGap name period dimensions refused rows = .ok ()) :
    period.isWellFormed = true ∧ rows.length = refused ∧
      rows.foldl (fun union row => union ∪ row.dimensions) ∅ = dimensions := by
  obtain ⟨hperiod, h⟩ := seq_ok.mp h
  split_ifs at h with hrefused hempty hrows hlength
  · cases (seq_ok.mp h).2
  · cases (seq_ok.mp h).2
  · obtain ⟨-, h⟩ := seq_ok.mp h
    dsimp only at h
    split_ifs at h with hunion
    exact ⟨requireWellFormed_ok hperiod, not_not.mp hlength, not_not.mp hunion⟩

omit hc in
theorem dimensions_read (event : String) (ordinal : Nat) (row : RefusedRow) :
    (coverageGapDimensionRows event ordinal row).mapM (fun row => parseDimension row.dimension) =
      .ok (Dimension.all.filter (· ∈ row.dimensions)) := by
  refine Runs.mapM_ok.mpr (List.forall₂_map_left_iff.mpr (List.forall₂_same.mpr fun d _ => ?_))
  exact parseDimension_code d

/-- A refused row comes back with its dimensions, from any order of the dimension rows. -/
theorem refusedRowFrom_rows {event : String} {rows : List RefusedRow} {dimensions : List CoverageGapDimensionRow}
    (hp : (Numbered.numberAll (coverageGapDimensionRows event) rows).Perm dimensions) {p : RefusedRow × Nat}
    (hmem : p ∈ rows.zipIdx) :
    refusedRowFrom c dimensions (coverageGapSourceRow c event p.2 p.1) = .ok p.1 := by
  have hkey : ∀ (i : Nat) (row : RefusedRow), ∀ d ∈ coverageGapDimensionRows event i row, d.ordinal = (i : Int) := by
    intro i row d hd
    obtain ⟨dimension, -, rfl⟩ := List.mem_map.mp hd
    rfl
  have hown : (coverageGapDimensionRows event p.2 p.1).Perm (dimensions.filter fun row => row.ordinal = (p.2 : Int)) := by
    rw [← Numbered.filter_numberAll Nat.cast Nat.strictMono_cast hkey hmem]
    exact hp.filter _
  obtain ⟨own, hread, hperm⟩ := Runs.mapM_perm hown (dimensions_read event p.2 p.1)
  have hset : own.toFinset = p.1.dimensions := by
    rw [List.toFinset_eq_of_perm _ _ hperm]
    ext d
    simp [Dimension.mem_all]
  unfold refusedRowFrom
  rw [show (coverageGapSourceRow c event p.2 p.1).ordinal = (p.2 : Int) from rfl, hread]
  unfold coverageGapSourceRow
  simp [parseUuid_idText hc, parseRowName_parts, hset]

theorem coverageGapFromDetail_rows {e : Event} {name event : String} {period : AssertionPeriod}
    {dimensions : Finset Dimension} {refused : Nat} {rows : List RefusedRow} {sources : List CoverageGapSourceRow}
    {dimensionRows : List CoverageGapDimensionRow}
    (hvalid : e.validateImportCoverageGap name period dimensions refused rows = .ok ()) (htyped : refused < 2 ^ 32)
    (hsources : (coverageGapToDetail c event period rows).sources.Perm sources)
    (hdimensions : (coverageGapToDetail c event period rows).dimensions.Perm dimensionRows) :
    coverageGapFromDetail c ⟨(coverageGapToDetail c event period rows).header, sources, dimensionRows⟩ =
      .ok (.importCoverageGap period dimensions refused rows) := by
  obtain ⟨hperiod, hlength, hunion⟩ := coverageGap_of_gate hvalid
  have hsorted : Numbered.sortBy CoverageGapSourceRow.ordinal sources =
      Numbered.number (coverageGapSourceRow c event) rows :=
    Numbered.sortBy_number Nat.cast Nat.strictMono_cast (fun _ _ => rfl) hsources.symm
  have hrows : (Numbered.sortBy CoverageGapSourceRow.ordinal sources).mapM (refusedRowFrom c dimensionRows) =
      .ok rows := by
    rw [hsorted]
    exact Numbered.mapM_number fun p hmem => refusedRowFrom_rows hc hdimensions hmem
  have hrefused : refusedOf rows = .ok refused := by
    rw [refusedOf, hlength, if_pos htyped]
  unfold coverageGapFromDetail coverageGapToDetail
  dsimp only
  rw [decodePeriod_texts hc _ hperiod, hrows, ok_bind, ok_bind, hrefused, ok_bind, hunion]
  rfl

/-! ### Corporate actions and offers -/

theorem decodeBasisAllocation_encode {allocation : BasisAllocation} {columns : EncodedBasisAllocation}
    (htyped : ∀ share evidence, allocation = .known share evidence → evidence.Typed)
    (h : encodeBasisAllocation c allocation = .ok columns) : decodeBasisAllocation c columns = .ok allocation := by
  cases allocation with
  | unknown gap =>
    cases h
    simp [decodeBasisAllocation]
  | known share evidence =>
    obtain ⟨text, htext, hcolumns⟩ := bind_ok.mp h
    cases hcolumns
    obtain ⟨⟨value, hhash⟩, hversion⟩ := htyped share evidence rfl
    simp [decodeBasisAllocation, decFromText_decToText hc, returnedShare_new, inputsHash_new hhash, Except.mapError,
      offsetDateTimeFromText_of_text hc htext, u16FromI64_ofNat _ hversion]

theorem decodePrincipalReturn_toRow {legs : List Leg} {terms : PrincipalReturn} (field : String) (row : CorporateActionRow)
    (hinstrument : row.instrument = some (idText c terms.instrument))
    (hquantity : row.quantity = some (decToText c terms.quantity))
    (hvalue : row.principalReturnedPerUnitValue = some (decToText c terms.principalReturnedPerUnit.value))
    (hcurrency : row.principalReturnedPerUnitCurrency = some terms.principalReturnedPerUnit.currency.code)
    (hgrounds : row.grounds = terms.grounds) (hlegs : Rows.singleLegMoney legs .principal = .ok terms.compensation) :
    decodePrincipalReturn c field terms.custody terms.effectiveDate terms.recordDate row legs = .ok terms := by
  simp [decodePrincipalReturn, hinstrument, hquantity, hvalue, hcurrency, hgrounds, hlegs, parseUuid_idText hc,
    decFromText_decToText hc]

theorem corporateActionFromRow_toRow {e : Event} {name event : String} {action : CorporateAction}
    {row : CorporateActionRow} (hvalid : e.validateCorporateAction name action = .ok ())
    (htyped : (EventKind.corporateAction action).Typed) (h : corporateActionToRow c event action = .ok row) :
    corporateActionFromRow c row e.legs = .ok (.corporateAction action) := by
  cases action with
  | partialRedemption terms allocation =>
    obtain ⟨columns, hcolumns, hrow⟩ := bind_ok.mp h
    cases hrow
    have hallocation : decodeBasisAllocation c columns = .ok allocation := by
      refine decodeBasisAllocation_encode hc ?_ hcolumns
      rintro share evidence rfl
      exact htyped
    have hterms := decodePrincipalReturn_toRow hc "event_corporate_action"
      { principalReturnToRow c event "partial_redemption" terms with
        allocationKind := columns.kind
        allocationGap := columns.gap
        allocationShare := columns.share
        allocationInputsHash := columns.inputsHash
        allocationKnownAsOf := columns.knownAsOf
        allocationAlgorithm := columns.algorithm } rfl rfl rfl rfl rfl (partialRedemption_of_gate hvalid)
    simp [corporateActionFromRow, principalReturnToRow, parseUuid_idText hc, dateFromText_dateToText hc,
      mapM_map (dateFromText_dateToText hc _)] at hterms ⊢
    simp [hterms, allocationColumns, hallocation]
  | redemption terms =>
    cases h
    have hterms := decodePrincipalReturn_toRow hc "event_corporate_action"
      (principalReturnToRow c event "redemption" terms) rfl rfl rfl rfl rfl (redemption_of_gate hvalid)
    simp [corporateActionFromRow, principalReturnToRow, parseUuid_idText hc, dateFromText_dateToText hc,
      mapM_map (dateFromText_dateToText hc _)] at hterms ⊢
    simp [hterms]
  | conversion terms =>
    cases h
    simp [corporateActionFromRow, decodeConversion, parseUuid_idText hc, decFromText_decToText hc,
      dateFromText_dateToText hc, mapM_map (dateFromText_dateToText hc _), conversion_of_gate hvalid]

theorem offerExerciseFromRow_toRow (event : String) (action : OfferExerciseAction) :
    offerExerciseFromRow c (offerExerciseToRow c event action) = .ok (.offerExercise action) := by
  cases action with
  | submitted submission window instrument quantity =>
    simp [offerExerciseFromRow, offerExerciseToRow, parseUuid_idText hc, decFromText_decToText hc]
  | cancelled submission quantity =>
    simp [offerExerciseFromRow, offerExerciseToRow, parseUuid_idText hc, decFromText_decToText hc]
  | settled terms =>
    simp [offerExerciseFromRow, offerExerciseToRow, decodeSettlement, parseUuid_idText hc, decFromText_decToText hc]

/-! ### The event -/

/-- Every kind comes back from its detail and the legs. -/
theorem detailToKind_kindToDetail {e : Event} {event : String} {detail detail' : DetailRows}
    (hvalid : e.validateStructure = .ok ()) (htyped : e.kind.Typed) (h : kindToDetail c event e.kind = .ok detail)
    (hshuffled : detail.Shuffled detail') : detailToKind c e.kind.discriminant detail' e.legs = .ok e.kind := by
  unfold Event.validateStructure at hvalid
  cases hkind : e.kind with
  | trade terms =>
    rw [hkind] at h
    cases h
    cases hshuffled
    exact tradeFromRow_tradeToRow hc event terms
  | cashIn amount | cashOut amount | refund amount | openingCash amount =>
    rw [hkind] at h hvalid
    cases h
    cases hshuffled
    simp [detailToKind, noneDetailFromKind, EventKind.discriminant, cash_of_gate hvalid]
  | ownAccountMovement amount =>
    rw [hkind] at h hvalid
    cases h
    cases hshuffled
    simp [detailToKind, noneDetailFromKind, EventKind.discriminant, ownMovement_of_gate hvalid]
  | cashTransfer id source target amount =>
    rw [hkind] at h hvalid
    cases h
    cases hshuffled
    simp [detailToKind, cashTransferFromRow, parseUuid_idText hc, transfer_of_gate hvalid]
  | unresolvedOwnAccountMovement amount =>
    rw [hkind] at h
    cases h
    cases hshuffled
    simp [detailToKind]
  | income instrument gross kind =>
    rw [hkind] at h hvalid
    cases h
    cases hshuffled
    simp [detailToKind, incomeFromRow, mapM_map (parseUuid_idText hc _), mapM_map parseIncomeKind_code,
      cash_of_gate hvalid]
  | fee amount origin =>
    rw [hkind] at h hvalid
    cases h
    cases hshuffled
    simp [detailToKind, charge_of_gate hvalid]
  | tax amount origin =>
    rw [hkind] at h hvalid
    cases h
    cases hshuffled
    simp [detailToKind, charge_of_gate hvalid]
  | openingPosition instrument quantity costBasis assertions =>
    rw [hkind] at h
    cases h
    cases hshuffled
    exact openingPositionFromRow_toRow hc event instrument quantity costBasis assertions
  | statedSecuritiesValue amount =>
    rw [hkind] at h
    cases h
    cases hshuffled
    simp [detailToKind]
  | valuation instrument price currency quality =>
    rw [hkind] at h
    cases h
    cases hshuffled
    simp [detailToKind, valuationFromRow, parseUuid_idText hc, decFromText_decToText hc]
  | controlAssertion period claim =>
    rw [hkind] at h hvalid
    cases h
    cases hshuffled
    exact controlAssertionFromRow_toRow hc event claim (requireWellFormed_ok (seq_ok.mp hvalid).1)
  | importCoverageGap period dimensions refused rows =>
    rw [hkind] at h hvalid htyped
    cases h
    obtain ⟨sources, dimensionRows, hsources, hdimensions, rfl⟩ := hshuffled
    exact coverageGapFromDetail_rows hc hvalid htyped hsources hdimensions
  | corporateAction action =>
    rw [hkind] at h hvalid htyped
    obtain ⟨row, hrow, h⟩ := bind_ok.mp h
    cases h
    cases hshuffled
    exact corporateActionFromRow_toRow hc hvalid htyped hrow
  | offerExercise action =>
    rw [hkind] at h
    cases h
    cases hshuffled
    exact offerExerciseFromRow_toRow hc event action

/-- The rows of an accepted event are read back as the event, in whatever order the legs and the rows of a coverage
    gap come. -/
theorem fromRows_toRows {e : Event} {header : EventRow} {legs legs' : List LegRow} {detail detail' : DetailRows}
    (hvalid : e.validateStructure = .ok ()) (htyped : e.Typed) (hrows : toRows c e = .ok (header, legs, detail))
    (hlegs : legs.Perm legs') (hdetail : detail.Shuffled detail') : fromRows c header legs' detail' = .ok e := by
  obtain ⟨columns, hcolumns, hrows⟩ := bind_ok.mp hrows
  obtain ⟨stored, hstored, hrows⟩ := bind_ok.mp hrows
  cases hrows
  have hkind := detailToKind_kindToDetail hc hvalid htyped.kind hstored hdetail
  unfold fromRows
  rw [decodeOrder_header hc htyped, decodeDates_header hc htyped, decodeProvenance_header hc htyped hcolumns,
    legs_of_perm hc hlegs.symm]
  unfold headerOf
  simp [parseUuid_idText hc, decodeRelation_encode hc, hkind]

end
end

/-! ### Texts of a few values -/

section
variable {α : Type} [DecidableEq α] (code : α → Nat) (decode : Nat → Option α) (table : List (α × String))

/-- The texts of a table, and a tally for every other value. -/
def tableText (a : α) : String :=
  ((table.find? fun entry => entry.1 = a).map Prod.snd).getD (String.ofList ('#' :: List.replicate (code a) '1'))

def tableParse (text : String) : Option α :=
  ((table.find? fun entry => entry.2 = text).map fun entry => some entry.1).getD (decode (text.toList.length - 1))

theorem tableParse_tableText (hcode : ∀ a, decode (code a) = some a) (hnames : (table.map Prod.snd).Nodup) (hplain : ∀ entry ∈ table, entry.2.toList.head? ≠ some '#') (a : α) :
    tableParse decode table (tableText code table a) = some a := by
  unfold tableText tableParse
  cases hfind : table.find? fun entry => decide (entry.1 = a) with
  | some entry =>
    have hkey : entry.1 = a := by simpa using List.find?_some hfind
    have hmem := List.mem_of_find?_eq_some hfind
    have hnamed : table.find? (fun other => other.2 = entry.2) = some entry :=
      (Search.find_key_eq_some hnames).mpr ⟨hmem, rfl⟩
    simp [hnamed, hkey]
  | none =>
    have hunnamed : table.find? (fun entry => entry.2 = String.ofList ('#' :: List.replicate (code a) '1')) = none := by
      refine List.find?_eq_none.mpr fun entry hentry heq => hplain entry hentry ?_
      rw [of_decide_eq_true heq, String.toList_ofList]
      rfl
    rw [Option.map_none, Option.getD_none, hunnamed, Option.map_none, Option.getD_none, String.toList_ofList,
      List.length_cons, List.length_replicate]
    exact hcode a

end

/-- The identifiers, the day and the quantities of the events below, as the libraries print them. -/
def sampleIds : List (Nat × String) :=
  [(0, "00000000-0000-0000-0000-000000000000"), (1, "00000000-0000-0000-0000-000000000001")]
def sampleDays : List (Date × String) := [(⟨10⟩, "1970-01-11")]
def sampleQuantities : List (Dec × String) := [(.ofInt64 5, "5"), (.ofInt64 (-5), "-5")]

def dayCode (d : Date) : Nat := Encodable.encode d.day
def dayOfCode (n : Nat) : Option Date := (Encodable.decode n).map Date.mk
def timeOfCode (n : Nat) : Option Time := some ⟨n⟩
def momentCode (t : OffsetDateTime) : Nat := Encodable.encode t.nanos
def momentOfCode (n : Nat) : Option OffsetDateTime := (Encodable.decode n).map OffsetDateTime.mk
def quantityCode (d : Dec) : Nat := Encodable.encode d.val
def quantityOfCode (n : Nat) : Option Dec := (Encodable.decode n).bind Dec.exact

def sampleTexts : TextCodecs where
  uuidText := tableText id sampleIds
  parseUuid := tableParse some sampleIds
  dateText := tableText dayCode sampleDays
  parseDate := tableParse dayOfCode sampleDays
  formatTime t := some (tableText Time.nanos [] t)
  timeText := tableText Time.nanos []
  parseTime := tableParse timeOfCode []
  formatMoment t := some (tableText momentCode [] t)
  parseMoment := tableParse momentOfCode []
  decimalText := tableText quantityCode sampleQuantities
  parseDecimal := tableParse quantityOfCode sampleQuantities

theorem sampleTexts_readBack : sampleTexts.ReadBack where
  uuid := tableParse_tableText id some sampleIds (fun _ => rfl) (by decide) (by decide)
  date := tableParse_tableText dayCode dayOfCode sampleDays
    (fun d => by rw [dayOfCode, dayCode, Encodable.encodek, Option.map_some]) (by decide) (by decide)
  time := tableParse_tableText Time.nanos timeOfCode [] (fun _ => rfl) (by decide) (by decide)
  moment := by
    rintro t text ⟨⟩
    exact tableParse_tableText momentCode momentOfCode []
      (fun t => by rw [momentOfCode, momentCode, Encodable.encodek, Option.map_some]) (by decide) (by decide) t
  decimal := tableParse_tableText quantityCode quantityOfCode sampleQuantities
    (fun d => by rw [quantityOfCode, quantityCode, Encodable.encodek, Option.bind_some, Dec.exact_eq_some]) (by decide)
    (by decide)

/-- An event as the journal holds it, under a hash that was made. -/
def recorded (kind : EventKind) (legs : List Leg) : Event :=
  let event := eventWith ⟨1⟩ ⟨1⟩ ⟨10⟩ 1 kind legs
  { event with provenance := { event.provenance with rawHash := String.ofList (List.replicate 64 'a') } }

theorem recorded_typed {kind : EventKind} (legs : List Leg) (h : kind.Typed) : (recorded kind legs).Typed where
  sequence := show 1 < 2 ^ 32 by decide
  taxPeriod := by
    rintro year ⟨⟩
  rawHash := by
    refine ⟨String.ofList (List.replicate 64 'a'), ?_⟩
    show RawHash.parse (String.ofList (List.replicate 64 'a')) = some (String.ofList (List.replicate 64 'a'))
    decide
  document := by
    rintro row ⟨⟩
  ruleSettlement := by
    rintro settlement ⟨⟩
  kind := h

/-- Five bonds are redeemed; and two rows of a document were refused. -/
def redeemed : Event :=
  recorded
    (.corporateAction (.redemption ⟨⟨1⟩, ⟨1⟩, .ofInt64 5, ⟨.ofInt64 5, .rub⟩, ⟨.new 2500, .rub⟩, ⟨10⟩, none, none⟩))
    [.principal ⟨1⟩ ⟨1⟩ ⟨.new 2500, .rub⟩, .security ⟨1⟩ ⟨1⟩ ⟨1⟩ (.ofInt64 (-5))]

def refusedRows : Event :=
  recorded
    (.importCoverageGap ⟨⟨10⟩, ⟨10⟩⟩ {.cash, .income} 2
      [⟨⟨⟨1⟩, .given "1"⟩, {.cash}⟩, ⟨⟨⟨1⟩, .given "2"⟩, {.cash, .income}⟩])
    []

theorem reversed_rows_read_back :
    (∃ header legs detail, toRows sampleTexts redeemed = .ok (header, legs, detail) ∧
      fromRows sampleTexts header legs.reverse detail = .ok redeemed) ∧
    ∃ header legs gap, toRows sampleTexts refusedRows = .ok (header, legs, .coverageGap gap) ∧
      fromRows sampleTexts header legs (.coverageGap ⟨gap.header, gap.sources.reverse, gap.dimensions.reverse⟩) =
        .ok refusedRows := by
  constructor
  · refine ⟨_, _, _, rfl, fromRows_toRows sampleTexts_readBack ?_ (recorded_typed _ trivial) rfl ?_ rfl⟩
    · decide +kernel
    · exact (List.reverse_perm _).symm
  · refine ⟨_, _, _, rfl, fromRows_toRows sampleTexts_readBack ?_ (recorded_typed _ ?_) rfl (List.Perm.refl _) ?_⟩
    · decide
    · show 2 < 2 ^ 32
      decide
    · exact ⟨_, _, (List.reverse_perm _).symm, (List.reverse_perm _).symm, rfl⟩

end Rows
end Iaam
