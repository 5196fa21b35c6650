import Iaam.Journal.Codes
import Iaam.Journal.Rows

/-! Scalars as columns hold them (`journal/kind.rs`): the codes of the enumerations and their parsers, and the
texts of identifiers, dates and numbers. -/

namespace Iaam

/-- The texts of the libraries `uuid`, `time` and `rust_decimal`. A parser gives nothing where the library fails. -/
structure TextCodecs where
  uuidText : Nat → String
  parseUuid : String → Option Nat
  dateText : Date → String
  parseDate : String → Option Date
  /-- `[hour]:[minute]:[second].[subsecond digits:9]` -/
  formatTime : Time → Option String
  timeText : Time → String
  parseTime : String → Option Time
  /-- RFC 3339, which not every moment has. -/
  formatMoment : OffsetDateTime → Option String
  parseMoment : String → Option OffsetDateTime
  decimalText : Dec → String
  parseDecimal : String → Option Dec

namespace Rows

/-- A missing result is a refused value. -/
def orInvalid {α : Type} (field : String) (value : Refused) : Option α → Except RowError α
  | some a => .ok a
  | none => .error (.invalidValue field value)

/-! ### Enumerations -/

/-- A parser of an enumeration, by its table of codes. -/
def parseCode {α : Type} (field : String) (table : List (String × α)) (text : String) : Except RowError α :=
  orInvalid field (.text text) ((table.find? fun entry => entry.1 = text).map Prod.snd)

/-- A parser that searches the values for the one with the code. -/
def findCode {α : Type} (field : String) (all : List α) (code : α → String) (text : String) : Except RowError α :=
  orInvalid field (.text text) (all.find? fun value => code value = text)

def rowNameToParts : RowName → String × String
  | .given value => ("given", value)
  | .fingerprint value => ("fingerprint", value)

def parseRowName (kind value : String) : Except RowError RowName :=
  parseCode "row_name_kind" [("given", .given value), ("fingerprint", .fingerprint value)] kind

def parseDimension : String → Except RowError Dimension := findCode "dimension" Dimension.all Dimension.code

def parseAllocationGap : String → Except RowError AllocationGap :=
  findCode "allocation_gap" AllocationGap.all AllocationGap.code

def balancePointCode : BalancePoint → String := BalancePoint.code

def parseBalancePoint : String → Except RowError BalancePoint :=
  parseCode "balance_point" [("opening", .opening), ("closing", .closing)]

def confidenceCode : Confidence → String
  | .known => "known"
  | .estimated => "estimated"
  | .unknown => "unknown"

def parseConfidence : String → Except RowError Confidence :=
  parseCode "confidence" [("known", .known), ("estimated", .estimated), ("unknown", .unknown)]

def legKindCode : LegKind → String
  | .cash => "cash"
  | .securityQuantity => "security_quantity"
  | .principal => "principal"
  | .fee => "fee"
  | .tax => "tax"

def parseLegKind : String → Except RowError LegKind :=
  parseCode "event_legs.kind" [("cash", .cash), ("security_quantity", .securityQuantity), ("principal", .principal),
    ("fee", .fee), ("tax", .tax)]

def tradeSideCode : TradeSide → String
  | .buy => "buy"
  | .sell => "sell"

def parseTradeSide : String → Except RowError TradeSide := parseCode "side" [("buy", .buy), ("sell", .sell)]

def incomeKindCode : IncomeKind → String
  | .coupon => "coupon"
  | .dividend => "dividend"
  | .depositInterest => "deposit_interest"

def parseIncomeKind : String → Except RowError IncomeKind :=
  parseCode "income_kind" [("coupon", .coupon), ("dividend", .dividend), ("deposit_interest", .depositInterest)]

def feeOriginCode : FeeOrigin → String
  | .brokerage => "brokerage"
  | .depositary => "depositary"
  | .accountMaintenance => "account_maintenance"
  | .marginInterest => "margin_interest"
  | .other => "other"

def parseFeeOrigin : String → Except RowError FeeOrigin :=
  parseCode "origin" [("brokerage", .brokerage), ("depositary", .depositary),
    ("account_maintenance", .accountMaintenance), ("margin_interest", .marginInterest), ("other", .other)]

def taxOriginCode : TaxOrigin → String
  | .withheldAtSource => "withheld_at_source"
  | .selfPaid => "self_paid"

def parseTaxOrigin : String → Except RowError TaxOrigin :=
  parseCode "origin" [("withheld_at_source", .withheldAtSource), ("self_paid", .selfPaid)]

def certaintyCode : Certainty → String
  | .known => "known"
  | .estimated => "estimated"

def parseCertainty : String → Except RowError Certainty :=
  parseCode "quantity_certainty" [("known", .known), ("estimated", .estimated)]

def dateCertaintyCode : DateCertainty → String
  | .known => "known"
  | .estimated => "estimated"
  | .unknown => "unknown"

def parseDateCertainty : String → Except RowError DateCertainty :=
  parseCode "acquisition_date_certainty" [("known", .known), ("estimated", .estimated), ("unknown", .unknown)]

def basisCertaintyCode : BasisCertainty → String
  | .documented => "documented"
  | .estimated => "estimated"
  | .unknown => "unknown"

def parseBasisCertainty : String → Except RowError BasisCertainty :=
  parseCode "tax_basis_certainty" [("documented", .documented), ("estimated", .estimated), ("unknown", .unknown)]

def tristateCode : Tristate → String
  | .yes => "yes"
  | .no => "no"
  | .unknown => "unknown"

def parseTristate : String → Except RowError Tristate :=
  parseCode "fees_included" [("yes", .yes), ("no", .no), ("unknown", .unknown)]

def knowledgeCode : Knowledge → String
  | .known => "known"
  | .unknown => "unknown"

def parseKnowledge : String → Except RowError Knowledge :=
  parseCode "knowledge" [("known", .known), ("unknown", .unknown)]

def priceQualityCode : PriceQuality → String := PriceQuality.code

def parsePriceQuality : String → Except RowError PriceQuality :=
  parseCode "quality" [("executable", .executable), ("previous_close", .previousClose),
    ("carried_forward", .carriedForward), ("stale", .stale), ("owner_estimate", .ownerEstimate)]

def fractionalCode : FractionalTreatment → String
  | .cashCompensated => "cash_compensated"
  | .roundedDown => "rounded_down"
  | .notApplicable => "not_applicable"

def parseFractional : String → Except RowError FractionalTreatment :=
  parseCode "fractional" [("cash_compensated", .cashCompensated), ("rounded_down", .roundedDown),
    ("not_applicable", .notApplicable)]

def basisTransferCode : BasisTransferRule → String
  | .carryOver => "carry_over"
  | .restart => "restart"

def parseBasisTransfer : String → Except RowError BasisTransferRule :=
  parseCode "basis_transfer" [("carry_over", .carryOver), ("restart", .restart)]

/-! ### Texts -/

section
variable (c : TextCodecs)

def idText {kind : IdKind} (id : Ident kind) : String := c.uuidText id.uuid

def parseUuid {kind : IdKind} (field text : String) : Except RowError (Ident kind) :=
  orInvalid field (.text text) ((c.parseUuid text).map Ident.mk)

def decToText (value : Dec) : String := c.decimalText value

def decFromText (field text : String) : Except RowError Dec := orInvalid field (.text text) (c.parseDecimal text)

def dateToText (value : Date) : String := c.dateText value

def dateFromText (field text : String) : Except RowError Date := orInvalid field (.text text) (c.parseDate text)

def sourceTimeToText (value : Time) : String := (c.formatTime value).getD (c.timeText value)

def sourceTimeFromText (field text : String) : Except RowError Time := orInvalid field (.text text) (c.parseTime text)

def offsetDateTimeToText (field : String) (value : OffsetDateTime) : Except RowError String :=
  orInvalid field (.moment value) (c.formatMoment value)

def offsetDateTimeFromText (field text : String) : Except RowError OffsetDateTime :=
  orInvalid field (.text text) (c.parseMoment text)

end

def parseCurrency (field code : String) : Except RowError CurrencyCode :=
  orInvalid field (.text code) (CurrencyCode.fromCode code)

/-! ### Columns -/

def require {α : Type} (field : String) (value : Option α) : Except RowError α := orInvalid field (.text "missing") value

def requireStr (field : String) (value : Option String) : Except RowError String := require field value

/-- The raw value of an amount, as the 64-bit column holds it. -/
def rawColumn (amount : PostedMinor) : Int64 := .ofInt amount.raw

def requireMoney (field : String) : Option Int64 → Option String → Except RowError Money
  | some amount, some currency => do return ⟨.new amount, ← parseCurrency field currency⟩
  | _, _ => .error (.invalidValue field (.text "missing amount/currency"))

def optionalMoney (field : String) : Option Int64 → Option String → Except RowError (Option Money)
  | none, none => .ok none
  | some amount, some currency => do return some ⟨.new amount, ← parseCurrency field currency⟩
  | _, _ => .error (.invalidValue field (.text "amount/currency mismatch"))

/-- A row number above the largest 64-bit signed integer is refused. -/
def encodeRowNumber (row : Nat) : Except RowError Int64 :=
  if row < 2 ^ 63 then .ok (.ofNat row) else .error (.rowNumberOutOfRange row)

/-- The conversions to a narrower or an unsigned type, by the bounds of the type. -/
def withinBounds (low high : Int) (field : String) (value : Int64) : Except RowError Int :=
  if low ≤ value.toInt ∧ value.toInt < high then .ok value.toInt else .error (.invalidValue field (.integer value))

def u64FromI64 (field : String) (value : Int64) : Except RowError Nat :=
  do return (← withinBounds 0 (2 ^ 64) field value).toNat

def u32FromI64 (field : String) (value : Int64) : Except RowError Nat :=
  do return (← withinBounds 0 (2 ^ 32) field value).toNat

def u16FromI64 (field : String) (value : Int64) : Except RowError Nat :=
  do return (← withinBounds 0 (2 ^ 16) field value).toNat

def i32FromI64 : String → Int64 → Except RowError Int := withinBounds (-2 ^ 31) (2 ^ 31)

/-! ### Legs by kind and role -/

/-- The only leg of a kind, and its money. -/
def singleLegMoney (legs : List Leg) (kind : LegKind) : Except RowError Money :=
  match legs.filter fun leg => leg.kind = kind with
  | [leg] => orInvalid "event_legs.amount" (.legWithoutMoney kind none) leg.money
  | other => .error (.invalidValue "event_legs.kind" (.legCount "exactly one" kind none other.length))

/-- At most one leg of a kind. -/
def optionalLegMoney (legs : List Leg) (kind : LegKind) : Except RowError (Option Money) :=
  match legs.filter fun leg => leg.kind = kind with
  | [] => .ok none
  | [leg] => do return some (← orInvalid "event_legs.amount" (.legWithoutMoney kind none) leg.money)
  | other => .error (.invalidValue "event_legs.kind" (.legCount "at most one" kind none other.length))

/-- The leg of a kind on a named account. -/
def legMoneyForAccount (legs : List Leg) (kind : LegKind) (account : AccountId) : Except RowError Money :=
  match legs.filter fun leg => leg.kind = kind ∧ leg.account = account with
  | [leg] => orInvalid "event_legs.amount" (.legWithoutMoney kind (some account)) leg.money
  | other => .error (.invalidValue "event_legs.account" (.legCount "exactly one" kind (some account) other.length))

end Rows
end Iaam
