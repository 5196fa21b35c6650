import Iaam.Event.Envelope
import Iaam.Reconciliation.Ledger

/-! Texts that the core gives its values, and the constructors that check theirs (`money.rs`, `valuation.rs`,
`event/provenance.rs`, `event/allocation.rs`, `rules/returned_share.rs`, `reconciliation/claim.rs`). -/

namespace Iaam

namespace CurrencyCode

def all : List CurrencyCode := [rub, usd, eur, cny, xau]

/-- An ISO code, without a default currency. -/
def fromCode (code : String) : Option CurrencyCode := all.find? fun currency => currency.code = code

end CurrencyCode

def Dimension.code : Dimension → String
  | cash => "cash"
  | positions => "positions"
  | taxBasis => "tax_basis"
  | income => "income"

def BalancePoint.code : BalancePoint → String
  | opening => "opening"
  | closing => "closing"

def ControlClaim.discriminant : ControlClaim → String
  | cashBalance .. => "cash_balance"
  | positionQuantity .. => "position_quantity"
  | cashTurnover .. => "cash_turnover"
  | feesTotal .. => "fees_total"
  | incomeTotal .. => "income_total"
  | taxWithheldTotal .. => "tax_withheld_total"

def PriceQuality.code : PriceQuality → String
  | executable => "executable"
  | previousClose => "previous_close"
  | carriedForward => "carried_forward"
  | stale => "stale"
  | ownerEstimate => "owner_estimate"

namespace AllocationGap

def all : List AllocationGap :=
  [notComputed, scheduleMissing, scheduleNotValidated, noRepaymentOnDate, amountMismatch, currencyMismatch,
    ambiguousSameDateRepayments, invalidPrefix]

def code : AllocationGap → String
  | notComputed => "not_computed"
  | scheduleMissing => "schedule_missing"
  | scheduleNotValidated => "schedule_not_validated"
  | noRepaymentOnDate => "no_repayment_on_date"
  | amountMismatch => "amount_mismatch"
  | currencyMismatch => "currency_mismatch"
  | ambiguousSameDateRepayments => "ambiguous_same_date_repayments"
  | invalidPrefix => "invalid_prefix"

end AllocationGap

/-- An interval whose start is later than its end is not made. -/
def AssertionPeriod.between («from» «to» : Date) : Option AssertionPeriod :=
  if «from» ≤ «to» then some ⟨«from», «to»⟩ else none

/-! ### Checked texts -/

/-- The ASCII hexadecimal digits, of either case. -/
def hexDigits : List Char := "0123456789abcdefABCDEF".toList

/-- Sixty-four hexadecimal digits. A text of sixty-four bytes that all are such digits has as many characters. -/
def isSha256Hex (text : String) : Bool := text.toList.length = 64 && text.toList.all (· ∈ hexDigits)

/-- The hash of a raw record is kept in lower case. -/
def RawHash.parse (hex : String) : Option String :=
  if isSha256Hex hex then some (String.ofList (hex.toList.map Char.toLower)) else none

/-- The fingerprint of the inputs of an allocation is kept as it was written. -/
def AllocationInputsHash.new (value : String) : Except String String :=
  if isSha256Hex value then .ok value else .error "input fingerprint is not 64 hexadecimal characters"

def ReturnedShare.new (value : Dec) : Except String ReturnedShare :=
  if hpos : 0 < value.val then
    if hone : value.val ≤ 1 then .ok ⟨value, hpos, hone⟩
    else .error "return share exceeds one: more than the remainder cannot be returned"
  else .error "return share is not positive: the event returned nothing"

theorem ReturnedShare.new_ok {value : Dec} {share : ReturnedShare} :
    ReturnedShare.new value = .ok share ↔ share.inner = value := by
  constructor
  · intro h
    unfold ReturnedShare.new at h
    split at h
    · split at h
      · cases h
        rfl
      · cases h
    · cases h
  · rintro rfl
    rw [ReturnedShare.new, dif_pos share.pos, dif_pos share.leOne]

/-! ### What the field types of the source hold -/

/-- The hash is one that the constructor made. -/
def RawHash.IsMade (hash : String) : Prop := ∃ hex, RawHash.parse hex = some hash

def RuleSettlement.Typed : RuleSettlement → Prop
  | noRule => True
  | rule _ version | answeredMintingRule _ version => version < 2 ^ 32

def AllocationEvidence.Typed (evidence : AllocationEvidence) : Prop :=
  (∃ value, AllocationInputsHash.new value = .ok evidence.inputsHash) ∧ evidence.algorithmVersion < 2 ^ 16

def EventKind.Typed : EventKind → Prop
  | importCoverageGap _ _ refused _ => refused < 2 ^ 32
  | corporateAction (.partialRedemption _ (.known _ evidence)) => evidence.Typed
  | _ => True

/-- Every number is one of its machine type, and every hash came from its constructor. -/
structure Event.Typed (e : Event) : Prop where
  sequence : e.order.sequence < 2 ^ 32
  taxPeriod : ∀ year ∈ e.dates.taxPeriodOverride, -2 ^ 31 ≤ year ∧ year < 2 ^ 31
  rawHash : RawHash.IsMade e.provenance.rawHash
  document : ∀ row ∈ e.provenance.row, RawHash.IsMade row.document
  ruleSettlement : ∀ settlement ∈ e.provenance.ruleSettlement, settlement.Typed
  kind : e.kind.Typed

end Iaam
