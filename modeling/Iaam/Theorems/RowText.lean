import Iaam.Journal.Text
import Iaam.Lib.Outcome

/-! Every scalar is read back from the column it was written to. -/

namespace Iaam
open Outcome

/-- The libraries parse what they print. -/
structure TextCodecs.ReadBack (c : TextCodecs) : Prop where
  uuid : ∀ u, c.parseUuid (c.uuidText u) = some u
  date : ∀ d, c.parseDate (c.dateText d) = some d
  time : ∀ t, c.parseTime ((c.formatTime t).getD (c.timeText t)) = some t
  moment : ∀ t text, c.formatMoment t = some text → c.parseMoment text = some t
  decimal : ∀ d, c.parseDecimal (c.decimalText d) = some d

namespace Rows

/-! ### Enumerations -/

@[simp] theorem orInvalid_ok {α : Type} {field : String} {value : Refused} {o : Option α} {a : α} :
    orInvalid field value o = .ok a ↔ o = some a := by
  cases o <;> simp [orInvalid]

theorem parseRowName_parts (name : RowName) : parseRowName (rowNameToParts name).1 (rowNameToParts name).2 = .ok name := by
  cases name <;> rfl

@[simp] theorem parseDimension_code (d : Dimension) : parseDimension d.code = .ok d := by
  cases d <;> rfl

@[simp] theorem parseAllocationGap_code (gap : AllocationGap) : parseAllocationGap gap.code = .ok gap := by
  cases gap <;> rfl

@[simp] theorem parseBalancePoint_code (point : BalancePoint) : parseBalancePoint (balancePointCode point) = .ok point := by
  cases point <;> rfl

@[simp] theorem parseConfidence_code (confidence : Confidence) :
    parseConfidence (confidenceCode confidence) = .ok confidence := by
  cases confidence <;> rfl

@[simp] theorem parseLegKind_code (kind : LegKind) : parseLegKind (legKindCode kind) = .ok kind := by
  cases kind <;> rfl

@[simp] theorem parseTradeSide_code (side : TradeSide) : parseTradeSide (tradeSideCode side) = .ok side := by
  cases side <;> rfl

@[simp] theorem parseIncomeKind_code (kind : IncomeKind) : parseIncomeKind (incomeKindCode kind) = .ok kind := by
  cases kind <;> rfl

@[simp] theorem parseFeeOrigin_code (origin : FeeOrigin) : parseFeeOrigin (feeOriginCode origin) = .ok origin := by
  cases origin <;> rfl

@[simp] theorem parseTaxOrigin_code (origin : TaxOrigin) : parseTaxOrigin (taxOriginCode origin) = .ok origin := by
  cases origin <;> rfl

@[simp] theorem parseCertainty_code (certainty : Certainty) : parseCertainty (certaintyCode certainty) = .ok certainty := by
  cases certainty <;> rfl

@[simp] theorem parseDateCertainty_code (certainty : DateCertainty) :
    parseDateCertainty (dateCertaintyCode certainty) = .ok certainty := by
  cases certainty <;> rfl

@[simp] theorem parseBasisCertainty_code (certainty : BasisCertainty) :
    parseBasisCertainty (basisCertaintyCode certainty) = .ok certainty := by
  cases certainty <;> rfl

@[simp] theorem parseTristate_code (value : Tristate) : parseTristate (tristateCode value) = .ok value := by
  cases value <;> rfl

@[simp] theorem parseKnowledge_code (value : Knowledge) : parseKnowledge (knowledgeCode value) = .ok value := by
  cases value <;> rfl

@[simp] theorem parsePriceQuality_code (quality : PriceQuality) :
    parsePriceQuality (priceQualityCode quality) = .ok quality := by
  cases quality <;> rfl

@[simp] theorem parseFractional_code (fractional : FractionalTreatment) :
    parseFractional (fractionalCode fractional) = .ok fractional := by
  cases fractional <;> rfl

@[simp] theorem parseBasisTransfer_code (rule : BasisTransferRule) :
    parseBasisTransfer (basisTransferCode rule) = .ok rule := by
  cases rule <;> rfl

@[simp] theorem parseCurrency_code (field : String) (currency : CurrencyCode) :
    parseCurrency field currency.code = .ok currency := by
  cases currency <;> rfl

/-! ### Texts -/

section
variable {c : TextCodecs} (hc : c.ReadBack)
include hc

theorem parseUuid_idText {kind : IdKind} (field : String) (id : Ident kind) :
    parseUuid c field (idText c id) = .ok id := by
  rw [parseUuid, orInvalid_ok, idText, hc.uuid]
  rfl

theorem decFromText_decToText (field : String) (value : Dec) : decFromText c field (decToText c value) = .ok value :=
  orInvalid_ok.mpr (hc.decimal value)

theorem dateFromText_dateToText (field : String) (value : Date) : dateFromText c field (dateToText c value) = .ok value :=
  orInvalid_ok.mpr (hc.date value)

theorem sourceTimeFromText_sourceTimeToText (field : String) (value : Time) :
    sourceTimeFromText c field (sourceTimeToText c value) = .ok value :=
  orInvalid_ok.mpr (hc.time value)

theorem offsetDateTimeFromText_of_text {field field' text : String} {value : OffsetDateTime}
    (h : offsetDateTimeToText c field value = .ok text) : offsetDateTimeFromText c field' text = .ok value :=
  orInvalid_ok.mpr (hc.moment value text (orInvalid_ok.mp h))

end

/-- An optional column is read back where its value is. -/
theorem mapM_map {α β : Type} {write : α → β} {read : β → Except RowError α} (h : ∀ a, read (write a) = .ok a)
    (o : Option α) : (o.map write).mapM read = .ok o := by
  cases o with
  | none => rfl
  | some a => simp [h a, Functor.map, Except.map]

/-! ### Columns -/

@[simp] theorem require_some {α : Type} (field : String) (a : α) : require field (some a) = .ok a := rfl

@[simp] theorem requireStr_some (field text : String) : requireStr field (some text) = .ok text := rfl

@[simp] theorem new_rawColumn (amount : PostedMinor) : PostedMinor.new (rawColumn amount) = amount :=
  PostedMinor.ext_raw (Int64.toInt_ofInt_of_le amount.fits.1 amount.fits.2)

@[simp] theorem requireMoney_columns (field : String) (m : Money) :
    requireMoney field (some (rawColumn m.amount)) (some m.currency.code) = .ok m := by
  simp [requireMoney]

@[simp] theorem optionalMoney_columns (field : String) (m : Option Money) :
    optionalMoney field (m.map fun m => rawColumn m.amount) (m.map fun m => m.currency.code) = .ok m := by
  cases m with
  | none => rfl
  | some m => simp [optionalMoney]

theorem withinBounds_ok {low high n : Int} (field : String) (hlow : low ≤ n) (hhigh : n < high) (hfits : FitsI64 n) :
    withinBounds low high field (.ofInt n) = .ok n := by
  unfold withinBounds
  rw [Int64.toInt_ofInt_of_le hfits.1 hfits.2, if_pos ⟨hlow, hhigh⟩]

theorem withinBounds_ofNat {high n : Nat} (field : String) (hhigh : n < high) (hfits : n < 2 ^ 63) :
    withinBounds 0 high field (.ofNat n) = .ok n := by
  have hn : Int64.ofNat n = .ofInt n := rfl
  rw [hn, withinBounds_ok field (by omega) (by omega) ⟨by omega, by omega⟩]

theorem u64FromI64_ofNat (field : String) {n : Nat} (h : n < 2 ^ 63) : u64FromI64 field (.ofNat n) = .ok n :=
  congrArg (Except.map Int.toNat) (withinBounds_ofNat field (h.trans (by decide)) h)

theorem u32FromI64_ofNat (field : String) {n : Nat} (h : n < 2 ^ 32) : u32FromI64 field (.ofNat n) = .ok n :=
  congrArg (Except.map Int.toNat) (withinBounds_ofNat field h (h.trans (by decide)))

theorem u16FromI64_ofNat (field : String) {n : Nat} (h : n < 2 ^ 16) : u16FromI64 field (.ofNat n) = .ok n :=
  congrArg (Except.map Int.toNat) (withinBounds_ofNat field h (h.trans (by decide)))

theorem i32FromI64_ofInt (field : String) {n : Int} (hlow : -2 ^ 31 ≤ n) (hhigh : n < 2 ^ 31) :
    i32FromI64 field (.ofInt n) = .ok n :=
  withinBounds_ok field hlow hhigh ⟨by omega, by omega⟩

/-! ### Checked texts -/

theorem toLower_hexDigit {digit : Char} (h : digit ∈ hexDigits) :
    digit.toLower ∈ hexDigits ∧ digit.toLower.toLower = digit.toLower := by
  have hall : hexDigits.all (fun digit => digit.toLower ∈ hexDigits ∧ digit.toLower.toLower = digit.toLower) = true := by
    decide
  exact of_decide_eq_true (List.all_eq_true.mp hall digit h)

/-- A hash that the constructor made is one that the constructor accepts, and leaves as it is. -/
theorem parse_rawHash {hash : String} (h : RawHash.IsMade hash) : RawHash.parse hash = some hash := by
  obtain ⟨hex, h⟩ := h
  unfold RawHash.parse at h
  split at h
  · next hhex =>
    cases h
    simp only [isSha256Hex, Bool.and_eq_true, decide_eq_true_eq, List.all_eq_true] at hhex
    obtain ⟨hlength, hdigits⟩ := hhex
    have hlower : isSha256Hex (String.ofList (hex.toList.map Char.toLower)) = true := by
      simp only [isSha256Hex, String.toList_ofList, List.length_map, hlength, decide_true, Bool.true_and,
        List.all_map, List.all_eq_true, Function.comp_apply, decide_eq_true_eq]
      exact fun digit hdigit => (toLower_hexDigit (hdigits digit hdigit)).1
    have htwice : (hex.toList.map Char.toLower).map Char.toLower = hex.toList.map Char.toLower := by
      rw [List.map_map]
      exact List.map_congr_left fun digit hdigit => (toLower_hexDigit (hdigits digit hdigit)).2
    rw [RawHash.parse, if_pos hlower, String.toList_ofList, htwice]
  · cases h

theorem inputsHash_new {value hash : String} (h : AllocationInputsHash.new value = .ok hash) :
    AllocationInputsHash.new hash = .ok hash := by
  unfold AllocationInputsHash.new at h
  split at h
  · next hhex =>
    cases h
    exact if_pos hhex
  · cases h

theorem returnedShare_new (share : ReturnedShare) : ReturnedShare.new share.inner = .ok share :=
  ReturnedShare.new_ok.mpr rfl

end Rows
end Iaam
