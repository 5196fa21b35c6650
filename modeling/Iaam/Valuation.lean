import Iaam.Projection.State

/-! Valuation of a position: the candidates, the selection policy and the conversion (`valuation.rs`,
`valuation/candidate.rs`, `valuation/selection.rs`, `rules/valuation.rs`). -/

namespace Iaam

/-! ### The board of the journal -/

namespace PriceBoard

/-- The observations of an instrument no later than a date, by date. -/
def upTo (board : PriceBoard) (instrument : InstrumentId) (asOf : Date) : List InstrumentPrice :=
  ((board.prices[instrument]?.getD ∅).toList.filter fun entry => entry.1 ≤ asOf).map (·.2)

/-- The price on the date, or the latest one before it. -/
def priceAtOrBefore (board : PriceBoard) (instrument : InstrumentId) (asOf : Date) : Option InstrumentPrice :=
  (board.upTo instrument asOf).getLast?

/-- The newest comes first. -/
def observationsAtOrBefore (board : PriceBoard) (instrument : InstrumentId) (asOf : Date) : List InstrumentPrice :=
  (board.upTo instrument asOf).reverse

end PriceBoard

/-! ### Candidates -/

/-- Board and session of a market observation. -/
structure Venue where
  board : String
  session : Int
  deriving DecidableEq, Repr

inductive PriceKind where
  | close | legalClose | weightedAverage | marketPrice2 | marketPrice3 | admittedQuote
  deriving DecidableEq, Repr

def PriceKind.asStr : PriceKind → String
  | close => "close"
  | legalClose => "legal_close"
  | weightedAverage => "weighted_average"
  | marketPrice2 => "market_price_2"
  | marketPrice3 => "market_price_3"
  | admittedQuote => "admitted_quote"

inductive PriceOrigin where
  | market (venue : Venue) (kind : PriceKind)
  | reportParsed (source : SourceId)
  | ownerAsserted
  deriving DecidableEq, Repr

/-- What the source says of the price: one may leave at it, it is the close of a session, or nothing. -/
inductive SourceExecutability where
  | executable | indicativePreviousClose | unknown
  deriving DecidableEq, Repr

/-- The unit of a quotation. -/
inductive QuotationBasis where
  | moneyPerUnit | percentOfRemainingFace | unknown
  deriving DecidableEq, Repr

def QuotationBasis.code : QuotationBasis → String
  | moneyPerUnit => "money_per_unit"
  | percentOfRemainingFace => "percent_of_remaining_face"
  | unknown => "unknown"

inductive PriceSelection where
  | asObserved
  | carriedForward (observedOn : Date) (days : Nat)
  | legacyDerived (quality : PriceQuality)
  deriving DecidableEq, Repr

inductive PriceFreshness where
  | fresh
  | stale (days : Nat)
  deriving DecidableEq, Repr

/-- Why a position has no price (`candidate.rs`). -/
inductive UncoveredReason where
  | noObservation | tooOld | ambiguousVenue | ambiguousCandidate
  deriving DecidableEq, Repr

structure PriceCandidate where
  instrument : InstrumentId
  price : Dec
  currency : CurrencyCode
  basis : QuotationBasis
  basisEvidence : String
  basisEvidenceContradicts : Bool
  tradeDate : Date
  observedAt : Option OffsetDateTime
  origin : PriceOrigin
  executability : SourceExecutability
  deriving DecidableEq, Repr

/-- What a decision of the policy rests on. -/
structure PriceProvenance where
  priceKind : Option String
  origin : PriceOrigin
  venue : Option String
  quotationBasis : QuotationBasis
  basisEvidence : String
  observedAt : Option OffsetDateTime
  valuationPolicyVersion : Nat
  sourcePriorityVersion : Nat
  carryForwardLimit : Nat
  priceMaxAge : Nat
  deriving DecidableEq, Repr

structure SelectedPrice where
  candidate : PriceCandidate
  selection : PriceSelection
  freshness : PriceFreshness
  provenance : PriceProvenance
  deriving DecidableEq, Repr

structure PriceQuery where
  instrument : InstrumentId
  asOf : Date
  knowledgeAsOf : OffsetDateTime
  deriving DecidableEq, Repr

inductive LegacyValuationOutcome where
  | candidate (candidate : PriceCandidate)
  | legacyDerived (quality : PriceQuality)
  deriving DecidableEq, Repr

/-- A price the old rule carried forward or found stale is not a candidate again. -/
def candidateFromLegacyValuation (quality : PriceQuality) (candidate : PriceCandidate) : LegacyValuationOutcome :=
  match quality with
  | .executable => .candidate { candidate with executability := .executable }
  | .previousClose => .candidate { candidate with executability := .indicativePreviousClose }
  | .ownerEstimate => .candidate { candidate with origin := .ownerAsserted, executability := .unknown }
  | .carriedForward | .stale => .legacyDerived quality

/-! ### The selection policy -/

structure ValuationPolicyV1 where
  carryForwardLimit : Nat := 10
  priceMaxAge : Nat := 30
  sourcePriorityVersion : Nat := 1
  deriving DecidableEq, Repr

namespace ValuationPolicyV1

def version : Nat := 1

def originRank : PriceOrigin → Nat
  | .market .. => 0
  | .reportParsed _ => 1
  | .ownerAsserted => 2

/-- The weighted average and the third market price are kept by the source and never selected. -/
def priceKindRank : PriceOrigin → Option Nat
  | .market _ .legalClose => some 0
  | .market _ .marketPrice2 => some 1
  | .market _ .admittedQuote => some 2
  | .market _ .close => some 3
  | .market _ .weightedAverage | .market _ .marketPrice3 | .reportParsed _ | .ownerAsserted => none

def venueOf : PriceOrigin → Option Venue
  | .market venue _ => some venue
  | .reportParsed _ | .ownerAsserted => none

/-- What one candidate is for a query: not in question, too old, or a match of some age in days. -/
inductive Screened where
  | skipped | tooOld
  | matching (age : Nat)
  deriving DecidableEq, Repr

def screen (policy : ValuationPolicyV1) (query : PriceQuery) (candidate : PriceCandidate) : Screened :=
  if candidate.instrument ≠ query.instrument then .skipped
  else if query.asOf < candidate.tradeDate then .skipped
  else if candidate.observedAt.any (query.knowledgeAsOf < ·) then .skipped
  else
    -- the age is not negative here; it must also fit in 16 bits
    let age := (query.asOf.day - candidate.tradeDate.day).toNat
    if 2 ^ 16 ≤ age then .tooOld
    else if policy.priceMaxAge < age then .tooOld
    else if (venueOf candidate.origin).isSome && (priceKindRank candidate.origin).isNone then .skipped
    else .matching age

/-- Keeps the entries whose key is the least one. -/
def retainMin {α : Type} (key : α → Nat) (entries : List α) : List α :=
  match (entries.map key).min? with
  | some least => entries.filter fun entry => key entry = least
  | none => entries

/-- Keeps the entries of the best kind, when any has a rank. -/
def retainKind (entries : List (Nat × PriceCandidate)) : List (Nat × PriceCandidate) :=
  match (entries.filterMap fun entry => priceKindRank entry.2.origin).min? with
  | some least => entries.filter fun entry => priceKindRank entry.2.origin = some least
  | none => entries

/-- Keeps the entries learned of last, when any has a moment of knowledge. -/
def retainLatest (entries : List (Nat × PriceCandidate)) : List (Nat × PriceCandidate) :=
  match (entries.filterMap fun entry => entry.2.observedAt).max? with
  | some latest => entries.filter fun entry => entry.2.observedAt = some latest
  | none => entries

def selectionFor (candidate : PriceCandidate) (age : Nat) : PriceSelection :=
  if age = 0 then .asObserved else .carriedForward candidate.tradeDate age

def freshnessFor (policy : ValuationPolicyV1) (age : Nat) : PriceFreshness :=
  if age ≤ policy.carryForwardLimit then .fresh else .stale age

def provenance (policy : ValuationPolicyV1) (candidate : PriceCandidate) : PriceProvenance where
  priceKind := match candidate.origin with
    | .market _ kind => some kind.asStr
    | .reportParsed _ | .ownerAsserted => none
  origin := candidate.origin
  venue := (venueOf candidate.origin).map Venue.board
  quotationBasis := candidate.basis
  basisEvidence := candidate.basisEvidence
  observedAt := candidate.observedAt
  valuationPolicyVersion := version
  sourcePriorityVersion := policy.sourcePriorityVersion
  carryForwardLimit := policy.carryForwardLimit
  priceMaxAge := policy.priceMaxAge

/-- The matches of the least age and, among them, of the first origin. -/
def nearest (policy : ValuationPolicyV1) (query : PriceQuery) (candidates : List PriceCandidate) :
    List (Nat × PriceCandidate) :=
  let matching := candidates.filterMap fun candidate =>
    match policy.screen query candidate with
    | .matching age => some (age, candidate)
    | .skipped | .tooOld => none
  retainMin (fun entry => originRank entry.2.origin) (retainMin Prod.fst matching)

/-- All the matches are of the market, on more than one venue. -/
def ambiguousVenue (entries : List (Nat × PriceCandidate)) : Bool :=
  (entries.all fun entry => (venueOf entry.2.origin).isSome) &&
    1 < (entries.filterMap fun entry => venueOf entry.2.origin).dedup.length

def select (policy : ValuationPolicyV1) (query : PriceQuery) (candidates : List PriceCandidate) :
    Except UncoveredReason SelectedPrice :=
  let matching := policy.nearest query candidates
  if matching = [] then
    .error (if candidates.any fun candidate => policy.screen query candidate = .tooOld then .tooOld else .noObservation)
  else if ambiguousVenue matching then .error .ambiguousVenue
  else
    match retainLatest (retainKind matching) with
    | [(age, candidate)] =>
      .ok ⟨candidate, selectionFor candidate age, policy.freshnessFor age, policy.provenance candidate⟩
    | _ => .error .ambiguousCandidate

end ValuationPolicyV1

/-! ### The decision -/

/-- The price channels of one instrument. -/
structure PriceInputs where
  board : PriceBoard
  market : List PriceCandidate
  sourcePriority : Nat

inductive PriceDecision where
  | selected (price : SelectedPrice)
  | legacyDerived (quality : PriceQuality) (price : Option InstrumentPrice)
  | uncovered (reason : UncoveredReason)
  deriving DecidableEq, Repr

/-- The source a journal price is attributed to. -/
def journalSource : SourceId := ⟨0⟩

/-- A price of the journal as a candidate: money for a unit by definition. -/
def journalCandidate (price : InstrumentPrice) : LegacyValuationOutcome :=
  candidateFromLegacyValuation price.quality {
    instrument := price.instrument
    price := price.price
    currency := price.currency
    basis := .moneyPerUnit
    basisEvidence := "journal:valuation"
    basisEvidenceContradicts := false
    tradeDate := price.asOf
    observedAt := none
    origin := .reportParsed journalSource
    executability := .unknown }

def LegacyValuationOutcome.candidate? : LegacyValuationOutcome → Option PriceCandidate
  | candidate c => some c
  | legacyDerived _ => none

def LegacyValuationOutcome.legacy? : LegacyValuationOutcome → Option PriceQuality
  | candidate _ => none
  | legacyDerived quality => some quality

/-- The price of one instrument on one date. The board and the market are one set of candidates. -/
def decidePrice (inputs : PriceInputs) (query : PriceQuery) : PriceDecision :=
  let policy : ValuationPolicyV1 := { sourcePriorityVersion := inputs.sourcePriority }
  let observations := inputs.board.observationsAtOrBefore query.instrument query.asOf
  let outcomes := observations.map journalCandidate
  let candidates := outcomes.filterMap LegacyValuationOutcome.candidate? ++
    inputs.market.filter fun c => c.instrument = query.instrument ∧ c.tradeDate ≤ query.asOf
  if candidates = [] then
    match (outcomes.filterMap LegacyValuationOutcome.legacy?).head? with
    | some quality => .legacyDerived quality observations.head?
    | none => .uncovered .noObservation
  else
    match policy.select query candidates with
    | .ok price => .selected price
    | .error reason => .uncovered reason

/-! ### Rates of exchange -/

inductive FxSource where
  | cbrOfficial | ownerSupplied
  deriving DecidableEq, Repr

/-- The pair of currencies and the day of a rate. -/
structure FxKey where
  source : CurrencyCode
  target : CurrencyCode
  date : Date
  deriving DecidableEq, Repr

instance : LinearOrder FxKey :=
  LinearOrder.lift' (fun k => toLex (k.source, toLex (k.target, k.date))) fun a b h => by
    cases a
    cases b
    simpa using h

structure FxTable where
  source : FxSource
  rates : Tree.Map FxKey Dec

namespace FxTable

def new (source : FxSource) : FxTable := ⟨source, ∅⟩

def withRate (fx : FxTable) (source target : CurrencyCode) (date : Date) (rate : Dec) : FxTable :=
  { fx with rates := fx.rates.insert ⟨source, target, date⟩ rate }

/-- The rate of the day; a currency is worth one of itself. -/
def rate (fx : FxTable) (source target : CurrencyCode) (date : Date) : Option Dec :=
  if source = target then some .one else fx.rates[(⟨source, target, date⟩ : FxKey)]?

end FxTable

inductive ValuationError where
  | missingFxRate (source target : CurrencyCode) (date : Date)
  | numeric (e : NumericError)
  deriving DecidableEq, Repr

/-- A posted amount in another currency: a calculated value, which went through no account. -/
def convertMoney (amount : Money) (target : CurrencyCode) (date : Date) (fx : FxTable) : Except ValuationError Dec :=
  match fx.rate amount.currency target date with
  | none => .error (.missingFxRate amount.currency target date)
  | some rate => (amount.toCalcDec.checkedMul rate).mapError .numeric

/-- The coordinate of knowledge of a report (`returns/mod.rs`). -/
structure KnowledgeCoordinate where
  knowledgeAsOf : OffsetDateTime
  sourcePriorityVersion : Nat
  valuationPolicyVersion : Nat
  deriving DecidableEq, Repr

end Iaam
