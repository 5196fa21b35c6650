import Iaam.App.SessionStamp
import Iaam.Theorems.Normalization
import Iaam.Theorems.SessionCommit

/-! What the stamp of a plan pins of the facts that a commit writes. A planned fact shows the cash on the account of its row; the
far account of a transfer, the instrument, the other dates and more of an operation are not in it. -/

namespace Iaam
open Outcome

/-! ### The content of a fact -/

/-- A fact but for the identifiers that are drawn for it, its place in the journal and its provenance. -/
structure FactContent where
  account : AccountId
  kind : EventKind
  legs : List Leg
  dates : EventDates
  deriving DecidableEq

def Event.content (e : Event) : FactContent := ⟨e.account, e.kind.undrawn, e.legs, e.dates⟩

/-- What a planned fact does not show of the kind of an operation. `whole` is the kind itself, where none of it is pinned. -/
inductive UnshownKind where
  | shown
  | farSide (account : AccountId)
  | income (instrument : Option InstrumentId) (kind : Option IncomeKind)
  | fee (origin : FeeOrigin)
  | tax (origin : TaxOrigin)
  | whole (kind : OperationKind)
  deriving DecidableEq

structure Unshown where
  trade : Option Date
  settled : Option Date
  paid : Option Date
  kind : UnshownKind
  deriving DecidableEq

/-- The basis fee as the terms of a trade keep it. -/
def unsigned (fee : CalcMoney) : CalcMoney := ⟨fee.value.abs, fee.currency⟩

/-- What a fact on the account `near` of its row does not show of an operation on `account`. -/
def OperationKind.unshown (account near : AccountId) : OperationKind → UnshownKind
  | .deposit .. | .withdrawal .. | .refund .. | .openingCash .. | .ownAccountMovement (some _) .. => .shown
  | .transfer target _ _ => .farSide (if target = near then account else target)
  | .income instrument _ _ kind => .income instrument kind
  | .fee _ _ origin => .fee origin
  | .tax _ _ origin => .tax origin
  | .buy instrument custody quantity gross feeMinor basisFee accrued currency =>
    .whole (.buy instrument custody quantity gross feeMinor (basisFee.map unsigned) accrued currency)
  | .sell instrument custody quantity gross feeMinor basisFee accrued currency =>
    .whole (.sell instrument custody quantity gross feeMinor (basisFee.map unsigned) accrued currency)
  | .openingPosition instrument custody quantity costBasis currency assertions =>
    .whole (.openingPosition instrument custody quantity costBasis (if costBasis.isSome then currency else .rub)
      (some (assertions.getD {})))
  | kind@(.ownAccountMovement none ..) | kind@(.statedSecuritiesValue ..) | kind@(.valuation ..) => .whole kind

def SubmittedOperation.unshown (near : AccountId) (operation : SubmittedOperation) : Unshown :=
  ⟨operation.dates.trade, operation.dates.settled, operation.dates.paid, operation.kind.unshown operation.account near⟩

namespace SessionPlan
open SessionReading Operation

/-- What a planned fact shows of an event. -/
structure Shown where
  recordsAs : String
  money : Money
  date : Option Date
  deriving DecidableEq

def PlannedFact.shown (fact : PlannedFact) : Shown := ⟨fact.recordsAs, ⟨fact.amountMinor, fact.currency⟩, fact.date⟩

/-! ### A fact from what is shown and what is not -/

/-- The cash that legs move on an account; roubles where they move none. -/
def shownMoney (near : AccountId) (legs : List Leg) : Money :=
  match (legs.filter fun leg => leg.account = near).filterMap Leg.cashEffect with
  | [] => .zero .rub
  | first :: rest => (Money.sum (first :: rest) first.currency).toOption.getD (.zero .rub)

/-- What a fact on the account `near` shows of an event. -/
def shownOn (near : AccountId) (e : Event) : Shown := ⟨e.kind.discriminant, shownMoney near e.legs, e.dates.cashPosted⟩

def negated (m : Money) : Money := ⟨(m.amount.checkedNeg).getD .zero, m.currency⟩

/-- The account, the kind and the legs of a fact on the account `near`, from both parts. -/
def restoreKind (near : AccountId) (recordsAs : String) (m : Money) : UnshownKind → AccountId × EventKind × List Leg
  | .shown =>
    let kind : EventKind :=
      if recordsAs = "cash_in" then .cashIn m
      else if recordsAs = "cash_out" then .cashOut m
      else if recordsAs = "refund" then .refund m
      else if recordsAs = "opening_cash" then .openingCash m
      else .ownAccountMovement m
    (near, kind, [.cash near m])
  | .farSide far =>
    if m.amount.raw < 0 then (near, .cashTransfer ⟨0⟩ near far (negated m), [.cash near m, .cash far (negated m)])
    else (far, .cashTransfer ⟨0⟩ far near m, [.cash far (negated m), .cash near m])
  | .income instrument kind => (near, .income instrument m kind, [.cash near m])
  | .fee origin => (near, .fee m origin, [.fee near m])
  | .tax origin => (near, .tax m origin, [.tax near m])
  | .whole kind =>
    match build ⟨0⟩ near kind with
    | .ok (kind, legs) => (near, kind.undrawn, legs)
    | .error _ => (near, .cashIn m, [])

def restore (near : AccountId) (shown : Shown) (unshown : Unshown) : FactContent :=
  let (account, kind, legs) := restoreKind near shown.recordsAs shown.money unshown.kind
  ⟨account, kind, legs, ⟨unshown.trade, unshown.settled, shown.date, none, unshown.paid, none⟩⟩

/-- What a fact on the account `near` does not show of a kind and its legs. -/
def unshownKindOf (near : AccountId) (legs : List Leg) : EventKind → UnshownKind
  | .cashTransfer _ source target _ => .farSide (if target = near then source else target)
  | .income instrument _ kind => .income instrument kind
  | .fee _ origin => .fee origin
  | .tax _ origin => .tax origin
  | .trade terms =>
    let custody := legs[1]?.bind Leg.custody
    let fee := terms.fee.map Money.amount
    let accrued := terms.accruedInterest.map Money.amount
    match terms.side with
    | .buy => .whole (.buy terms.instrument custody terms.quantity terms.gross.amount fee terms.basisFeeExact accrued
        terms.gross.currency)
    | .sell => .whole (.sell terms.instrument custody terms.quantity terms.gross.amount fee terms.basisFeeExact accrued
        terms.gross.currency)
  | .unresolvedOwnAccountMovement amount => .whole (.ownAccountMovement none amount.amount amount.currency)
  | .statedSecuritiesValue amount => .whole (.statedSecuritiesValue amount.amount amount.currency)
  | .openingPosition instrument quantity costBasis assertions =>
    .whole (.openingPosition instrument (legs[0]?.bind Leg.custody) quantity (costBasis.map Money.amount)
      ((costBasis.map Money.currency).getD .rub) (some assertions))
  | .valuation instrument price currency quality => .whole (.valuation instrument price currency quality)
  | _ => .shown

def unshownOf (near : AccountId) (c : FactContent) : Unshown :=
  ⟨c.dates.trade, c.dates.settled, c.dates.paid, unshownKindOf near c.legs c.kind⟩

/-- An operation is on the account of its row, or it is a transfer to that account. -/
def OnRow (near account : AccountId) (kind : OperationKind) : Prop :=
  account = near ∨ ∃ amount currency, kind = .transfer near amount currency

/-- Both parts of what is built are those of its operation, and together they are what is built. -/
structure Parts (near account : AccountId) (operation : OperationKind) (kind : EventKind) (legs : List Leg) : Prop where
  restored : restoreKind near kind.discriminant (shownMoney near legs) (operation.unshown account near) =
    (account, kind.undrawn, legs)
  unshown : unshownKindOf near legs kind.undrawn = operation.unshown account near

section
variable {near account target : AccountId} {operation : OperationKind} {kind : EventKind} {legs : List Leg} {m n : Money}

theorem sum_singleton (m : Money) : Money.sum [m] m.currency = .ok m := by
  have hadd : (Money.zero m.currency).tryAdd m = .ok m := Money.tryAdd_ok.mpr ⟨rfl, by simp, rfl⟩
  change (Money.zero m.currency).tryAdd m >>= pure = .ok m
  rw [hadd]
  rfl

theorem shownMoney_one (h : (legs.filter fun leg => leg.account = near).filterMap Leg.cashEffect = [m]) :
    shownMoney near legs = m := by
  unfold shownMoney
  rw [h]
  dsimp only
  rw [sum_singleton]
  rfl

/-- A fact that is one cash movement on its own account. -/
theorem parts_of_cash (hunshown : operation.unshown near near = .shown)
    (hkind : kind = .cashIn m ∨ kind = .cashOut m ∨ kind = .refund m ∨ kind = .openingCash m ∨ kind = .ownAccountMovement m) :
    Parts near near operation kind [.cash near m] := by
  have hmoney : shownMoney near [.cash near m] = m := shownMoney_one (by simp [Leg.cash, Leg.cashEffect])
  constructor
  · rw [hunshown, hmoney]
    rcases hkind with rfl | rfl | rfl | rfl | rfl <;> rfl
  · rw [hunshown]
    rcases hkind with rfl | rfl | rfl | rfl | rfl <;> rfl

/-- A transfer, on the account of either side. -/
theorem parts_of_transfer {id : TransferId} {minor out : PostedMinor} {currency : CurrencyCode} (hne : target ≠ account)
    (hpos : 0 < minor.raw) (hraw : out.raw = -minor.raw) (hrow : near = account ∨ near = target) :
    Parts near account (.transfer target minor currency) (.cashTransfer id account target ⟨minor, currency⟩)
      [.cash account ⟨out, currency⟩, .cash target ⟨minor, currency⟩] := by
  have hout : minor.checkedNeg = some out := PostedMinor.ofInt_eq_some.mpr hraw
  have hback : out.checkedNeg = some minor := PostedMinor.ofInt_eq_some.mpr (by omega)
  refine ⟨?_, rfl⟩
  rcases hrow with rfl | rfl
  · have hmoney : shownMoney near [.cash near ⟨out, currency⟩, .cash target ⟨minor, currency⟩] = ⟨out, currency⟩ :=
      shownMoney_one (by simp [Leg.cash, Leg.cashEffect, hne])
    have hnegative : out.raw < 0 := by omega
    simp only [hmoney, OperationKind.unshown, if_neg hne, restoreKind, if_pos hnegative, negated, hback, Option.getD_some,
      EventKind.undrawn]
  · have hmoney : shownMoney near [.cash account ⟨out, currency⟩, .cash near ⟨minor, currency⟩] = ⟨minor, currency⟩ :=
      shownMoney_one (by simp [Leg.cash, Leg.cashEffect, hne.symm])
    have hpositive : ¬ minor.raw < 0 := by omega
    simp only [hmoney, OperationKind.unshown, if_true, restoreKind, if_neg hpositive, negated, hout, Option.getD_some,
      EventKind.undrawn]

/-- A fact of whose kind nothing is shown. -/
theorem parts_of_whole {whole : OperationKind} (hunshown : operation.unshown near near = .whole whole)
    (hbuild : build ⟨0⟩ near whole = .ok (kind, legs)) (hkind : unshownKindOf near legs kind.undrawn = .whole whole) :
    Parts near near operation kind legs := by
  refine ⟨?_, hkind.trans hunshown.symm⟩
  rw [hunshown]
  simp only [restoreKind, hbuild]

theorem unsigned_unsigned (fee : CalcMoney) : unsigned (unsigned fee) = unsigned fee := by
  simp only [unsigned, Dec.abs, abs_abs]

/-- The terms of a trade keep the magnitude of its basis fee. -/
theorem tradeTerms_unsigned (side : TradeSide) (instrument : InstrumentId) (quantity : Dec) (gross : PostedMinor)
    (fee : Option PostedMinor) (basisFee : Option CalcMoney) (accrued : Option PostedMinor) (currency : CurrencyCode) :
    tradeTerms side instrument quantity gross fee (basisFee.map unsigned) accrued currency =
      tradeTerms side instrument quantity gross fee basisFee accrued currency := by
  have hexact : (basisFee.map unsigned).map (fun value => (⟨value.value.abs, value.currency⟩ : CalcMoney)) =
      basisFee.map fun value => (⟨value.value.abs, value.currency⟩ : CalcMoney) := by
    rw [Option.map_map]
    congr 1
    exact funext unsigned_unsigned
  unfold tradeTerms
  rw [hexact]

theorem custody_securityLeg (custody : Option CustodyId) (instrument : InstrumentId) (quantity : Quantity) :
    (Operation.securityLeg account custody instrument quantity).custody = custody := by
  cases custody <;> rfl

theorem parts_of_trade {side : TradeSide} {instrument : InstrumentId} {custody : Option CustodyId} {quantity : Dec}
    {gross : PostedMinor} {fee : Option PostedMinor} {basisFee : Option CalcMoney} {accrued : Option PostedMinor}
    {currency : CurrencyCode} {id : TransferId}
    (hoperation : operation = match side with
      | .buy => .buy instrument custody quantity gross fee basisFee accrued currency
      | .sell => .sell instrument custody quantity gross fee basisFee accrued currency)
    (hbuild : build id near operation = .ok (kind, legs)) : Parts near near operation kind legs := by
  have hterms := tradeTerms_unsigned side instrument quantity gross fee basisFee accrued currency
  cases side with
  | buy =>
    subst hoperation
    refine parts_of_whole rfl ?_ ?_
    · simp only [build, hterms]
      exact hbuild
    · obtain ⟨⟨terms, settlement⟩, hok, hrest⟩ := bind_ok.mp hbuild
      obtain ⟨paid, -, hrest⟩ := bind_ok.mp hrest
      cases hrest
      obtain ⟨-, hside, hinstrument, hquantity, hgross, hfee, haccrued, hexact, -⟩ := tradeTerms_ok hok
      have hfeeExact : terms.basisFeeExact = basisFee.map unsigned := hexact
      simp [EventKind.undrawn, unshownKindOf, hside, hinstrument, hquantity, hgross, hfee, haccrued, hfeeExact,
        custody_securityLeg, Function.comp_def]
  | sell =>
    subst hoperation
    refine parts_of_whole rfl ?_ ?_
    · simp only [build, hterms]
      exact hbuild
    · obtain ⟨⟨terms, settlement⟩, hok, hrest⟩ := bind_ok.mp hbuild
      obtain ⟨-, hside, hinstrument, hquantity, hgross, hfee, haccrued, hexact, -⟩ := tradeTerms_ok hok
      obtain ⟨sold, hsold⟩ := quantity.checkedNeg_total
      rw [hsold] at hrest
      cases hrest
      have hfeeExact : terms.basisFeeExact = basisFee.map unsigned := hexact
      simp [EventKind.undrawn, unshownKindOf, hside, hinstrument, hquantity, hgross, hfee, haccrued, hfeeExact,
        custody_securityLeg, Function.comp_def]

theorem parts_of_builtTransfer {id : TransferId} {minor : PostedMinor} {currency : CurrencyCode}
    (hrow : near = account ∨ near = target) (hbuild : build id account (.transfer target minor currency) = .ok (kind, legs)) :
    Parts near account (.transfer target minor currency) kind legs := by
  simp only [build] at hbuild
  split at hbuild
  · cases hbuild
  · next hne =>
    obtain ⟨amount, hamount, hrest⟩ := bind_ok.mp hbuild
    obtain ⟨rfl, hpos⟩ := positiveMoney_ok hamount
    obtain ⟨out, hout, hraw⟩ := exists_negated hpos
    have hnegate : (⟨minor, currency⟩ : Money).checkedNegate = .ok ⟨out, currency⟩ := by simp [Money.checkedNegate, hout]
    rw [hnegate] at hrest
    cases hrest
    exact parts_of_transfer hne hpos hraw hrow

/-- Every operation that is built, on its own account. -/
theorem parts_of_own {id : TransferId} (hbuild : build id account operation = .ok (kind, legs)) :
    Parts account account operation kind legs := by
  cases operation with
  | transfer target minor currency => exact parts_of_builtTransfer (.inl rfl) hbuild
  | ownAccountMovement movement minor currency =>
    obtain ⟨magnitude, hmagnitude, hrest⟩ := bind_ok.mp hbuild
    obtain ⟨rfl, -⟩ := positive_ok hmagnitude
    rcases movement with _ | (_ | _)
    · cases hrest
      exact parts_of_whole rfl hbuild rfl
    · cases hrest
      exact parts_of_cash rfl (by simp)
    · obtain ⟨out, -, hrest⟩ := bind_ok.mp hrest
      cases hrest
      exact parts_of_cash rfl (by simp)
  | deposit minor currency =>
    obtain ⟨amount, -, hrest⟩ := bind_ok.mp hbuild
    cases hrest
    exact parts_of_cash rfl (by simp)
  | withdrawal minor currency =>
    obtain ⟨amount, -, hrest⟩ := bind_ok.mp hbuild
    cases hrest
    exact parts_of_cash rfl (by simp)
  | refund minor currency =>
    obtain ⟨amount, -, hrest⟩ := bind_ok.mp hbuild
    cases hrest
    exact parts_of_cash rfl (by simp)
  | openingCash minor currency =>
    cases hbuild
    exact parts_of_cash rfl (by simp)
  | buy instrument custody quantity gross fee basisFee accrued currency =>
    exact @parts_of_trade _ _ _ _ .buy _ _ _ _ _ _ _ _ _ rfl hbuild
  | sell instrument custody quantity gross fee basisFee accrued currency =>
    exact @parts_of_trade _ _ _ _ .sell _ _ _ _ _ _ _ _ _ rfl hbuild
  | income instrument gross currency kind =>
    obtain ⟨amount, -, hrest⟩ := bind_ok.mp hbuild
    cases hrest
    have hmoney : shownMoney account [.cash account amount] = amount := shownMoney_one (by simp [Leg.cash, Leg.cashEffect])
    refine ⟨?_, rfl⟩
    rw [hmoney]
    rfl
  | fee minor currency origin =>
    obtain ⟨amount, -, hrest⟩ := bind_ok.mp hbuild
    cases hrest
    have hmoney : shownMoney account [.fee account amount] = amount := shownMoney_one (by simp [Leg.fee, Leg.cashEffect])
    refine ⟨?_, rfl⟩
    rw [hmoney]
    rfl
  | tax minor currency origin =>
    obtain ⟨amount, -, hrest⟩ := bind_ok.mp hbuild
    cases hrest
    have hmoney : shownMoney account [.tax account amount] = amount := shownMoney_one (by simp [Leg.tax, Leg.cashEffect])
    refine ⟨?_, rfl⟩
    rw [hmoney]
    rfl
  | statedSecuritiesValue minor currency =>
    obtain ⟨amount, hamount, hrest⟩ := bind_ok.mp hbuild
    obtain ⟨rfl, -⟩ := positiveMoney_ok hamount
    cases hrest
    exact parts_of_whole rfl hbuild rfl
  | openingPosition instrument custody quantity costBasis currency assertions =>
    obtain ⟨cost, hcost, hrest⟩ := bind_ok.mp hbuild
    obtain ⟨-, rfl⟩ := optionalMoney_iff.mp hcost
    cases hrest
    refine parts_of_whole rfl ?_ ?_
    · cases costBasis with
      | none => rfl
      | some minor => exact hbuild
    · cases costBasis <;> simp [EventKind.undrawn, unshownKindOf, custody_securityLeg]
  | valuation instrument price currency quality =>
    cases hbuild
    exact parts_of_whole rfl rfl rfl

theorem parts_of_build {id : TransferId} (hrow : OnRow near account operation)
    (hbuild : build id account operation = .ok (kind, legs)) : Parts near account operation kind legs := by
  rcases hrow with rfl | ⟨minor, currency, rfl⟩
  · exact parts_of_own hbuild
  · exact parts_of_builtTransfer (.inr rfl) hbuild

end

/-! ### A row and its operation -/

/-- What a row of a session reads as. -/
def ReadsAs (env : Environment) (resolver : Resolver) (contents : SessionContents) (row : Nat) (operation : SubmittedOperation) :
    Prop :=
  ∃ observation ∈ contents.observations, observation.row = row ∧
    ∃ basis, resolutionOf env resolver observation = .ok (.fact operation basis)

section
variable {env : Environment} {fresh : Nat → Operation.Fresh} {owner : OwnerId} {session : SessionView} {resolver : Resolver}
  {contents : SessionContents} {observation : ImportObservationView} {read : ReadRow} {e : Event} {near : AccountId}
  {operation : SubmittedOperation} {basis : FactBasis}

/-- A transfer that was received is on the account it was received on. -/
theorem onRow_of_resolve {row : ObservedRow} {classification : Classification} {movement : Option Classification.Movement}
    (h : row.resolve classification movement = .ok operation) : OnRow row.account operation.account operation.kind := by
  obtain ⟨amount, -, h⟩ := bind_ok.mp h
  split at h
  · split at h
    · cases h
      exact .inl rfl
    · cases h
  · split at h
    · cases h
      exact .inl rfl
    · split at h
      · cases h
      · cases h
        exact .inl rfl
    · split at h
      · cases h
      · cases h
        exact .inr ⟨_, _, rfl⟩
    all_goals
      cases h
    all_goals
      exact .inl rfl

theorem onRow_of_resolution (h : resolutionOf env resolver observation = .ok (.fact operation basis)) :
    ∃ intake, env.parseIntake observation.payload = .ok intake ∧ OnRow intake.account operation.account operation.kind := by
  unfold resolutionOf at h
  split at h
  · cases h
  · next hparsed =>
    cases h
    exact ⟨_, hparsed, .inl rfl⟩
  · next row reader hparsed =>
    refine ⟨_, hparsed, ?_⟩
    split at h
    · split at h
      · cases h
      · obtain ⟨resolved, hresolved, h⟩ := bind_ok.mp h
        cases h
        exact onRow_of_resolve hresolved
    · split at h
      · obtain ⟨resolved, hresolved, h⟩ := bind_ok.mp h
        cases h
        exact onRow_of_resolve hresolved
      · cases h
      · cases h

theorem built_of_candidate {drawn : Operation.Fresh} {reader : String}
    (h : candidateOf env drawn owner session reader basis operation = .ok e) :
    build drawn.transfer operation.account operation.kind = .ok (e.kind, e.legs) ∧ e.account = operation.account ∧
      e.dates = operation.dates.toEventDates := by
  obtain ⟨normalized, hnormalized, h⟩ := bind_ok.mp h
  cases h
  unfold Operation.normalize at hnormalized
  dsimp only at hnormalized
  split at hnormalized
  · cases hnormalized
  · obtain ⟨⟨kind, legs⟩, hbuild, hnormalized⟩ := bind_ok.mp hnormalized
    cases hnormalized
    exact ⟨hbuild, rfl, rfl⟩

theorem shown_plannedFact (haccount : read.account = some near) :
    (plannedFact read e).shown = ⟨e.kind.discriminant, shownMoney near e.legs, e.dates.cashPosted⟩ := by
  unfold plannedFact PlannedFact.shown shownMoney Event.cashEffectOn
  rw [haccount, Option.getD_some]
  dsimp only
  cases (e.legs.filter fun leg => leg.account = near).filterMap Leg.cashEffect with
  | nil => rfl
  | cons first rest =>
    dsimp only
    cases Money.sum (first :: rest) first.currency with
    | error error => rfl
    | ok effect => rfl

/-- The operation behind the event of a row, and the two parts of the event. -/
theorem parts_of_readRow (h : readRow env fresh owner session resolver observation = .ok read)
    (he : candidateEvent read = some e) :
    ∃ operation basis, resolutionOf env resolver observation = .ok (.fact operation basis) ∧
      restore (plannedFact read e).account (plannedFact read e).shown (operation.unshown (plannedFact read e).account) =
        e.content ∧
      unshownOf (plannedFact read e).account e.content = operation.unshown (plannedFact read e).account := by
  obtain ⟨-, hcandidate⟩ := candidateEvent_iff.mp he
  unfold readRow at h
  dsimp only at h
  split at h
  · cases h
    cases hcandidate
  · cases h
    cases hcandidate
  · next operation basis hresolution =>
    obtain ⟨candidate, hattempt, h⟩ := bind_ok.mp h
    cases h
    cases hcandidate
    obtain ⟨intake, hintake, hrow⟩ := onRow_of_resolution hresolution
    obtain ⟨hbuild, haccount, hdates⟩ := built_of_candidate (attempt_ok hattempt)
    obtain ⟨hrestored, hunshown⟩ := parts_of_build hrow hbuild
    refine ⟨operation, basis, hresolution, ?_⟩
    generalize hread : (⟨observation.row, (env.parseIntake observation.payload).toOption, some (.ok e), none, some basis⟩ : ReadRow) =
      read
    have hnear : read.account = some intake.account := by rw [← hread, hintake]; rfl
    have hfact : (plannedFact read e).account = intake.account := by
      unfold plannedFact
      rw [hnear]
      rfl
    rw [shown_plannedFact hnear, hfact]
    constructor
    · simp only [restore, SubmittedOperation.unshown, hrestored, Event.content, haccount, hdates, OperationDates.toEventDates]
    · simp only [unshownOf, SubmittedOperation.unshown, hunshown, Event.content, hdates, OperationDates.toEventDates]

/-- The event of a row of a reading is that of the row as it was read. -/
theorem read_of_reading {reading : Reading} (h : SessionReading.read env fresh owner resolver contents = .ok reading)
    (hmem : read ∈ reading.rows) (he : candidateEvent read = some e) :
    ∃ observation ∈ contents.observations, readRow env fresh owner contents.session resolver observation = .ok read := by
  obtain ⟨rows, hrows, h⟩ := bind_ok.mp h
  cases h
  obtain ⟨before, hbefore, rfl⟩ := List.mem_map.mp hmem
  obtain ⟨observation, hin, hof⟩ := Runs.exists_left (Runs.mapM_ok.mp hrows) hbefore
  refine ⟨observation, hin, ?_⟩
  have hsettled := (candidateEvent_iff.mp he).1
  unfold settleMirrored at hsettled ⊢
  split at hsettled
  · exact hof
  · cases hsettled

end

/-! ### The facts that are written -/

/-- A fact is written when its event has the structure of its kind and shares no identity with one written before it. -/
def keepFact (kept : List (PlannedFact × Event)) (next : PlannedFact × Event) : List (PlannedFact × Event) :=
  if next.2.validateStructure = .ok () ∧ ∀ earlier ∈ kept, ¬ JournalStore.Shares earlier.2 next.2 then kept ++ [next] else kept

/-- The facts of a plan that can be written one after another, with their events. -/
def PlannedSession.keptFacts (plan : PlannedSession) : List (PlannedFact × Event) :=
  (plan.delta.accounting.facts.zip plan.delta.accounting.appended).foldl keepFact []

/-- They are known by the facts that the plan shows. -/
def PlannedSession.writable (plan : PlannedSession) : List PlannedFact := plan.keptFacts.map Prod.fst

section
variable {rows : List ReadRow} {recorded : RecordedIdentities} {«open» : List OpenQuestion}

/-- The facts among the rows, with their events. -/
def factsOf (recorded : RecordedIdentities) (rows : List ReadRow) : List (PlannedFact × Event) :=
  rows.filterMap fun read => (newEvent recorded read).map fun e => (plannedFact read e, e)

theorem factsOf_cons (recorded : RecordedIdentities) (read : ReadRow) (rows : List ReadRow) :
    factsOf recorded (read :: rows) =
      ((newEvent recorded read).map fun e => (plannedFact read e, e)).toList ++ factsOf recorded rows := by
  unfold factsOf
  rw [List.filterMap_cons]
  cases newEvent recorded read <;> rfl

theorem facts_eq (hdecided : ∀ read ∈ rows, Decided read) :
    (rows.foldl (Accounting.add recorded «open») .empty).facts = (factsOf recorded rows).map Prod.fst := by
  have hlist : ∀ (a : Accounting) read, (a.add recorded «open» read).facts = a.facts ++ (one recorded «open» read).facts :=
    fun a read => by rw [add_append]
  rw [foldl_add Accounting.facts hlist]
  change [] ++ _ = _
  rw [List.nil_append]
  induction rows with
  | nil => rfl
  | cons read rows ih =>
    have hone : (one recorded «open» read).facts = ((newEvent recorded read).map (plannedFact read)).toList := by
      cases hcandidate : candidateEvent read with
      | none =>
        unfold newEvent
        rw [hcandidate, (one_of_none recorded «open» (hdecided read List.mem_cons_self) hcandidate).1]
        rfl
      | some e =>
        by_cases hheld : recorded.holds e = true
        · have hnone : newEvent recorded read = none := by
            unfold newEvent
            rw [hcandidate, Option.filter_some, hheld]
            rfl
          rw [one_of_held (candidateEvent_iff.mp hcandidate).2 hheld, hnone]
          rfl
        · rw [one_of_new (candidateEvent_iff.mp hcandidate).2 hheld, newEvent_iff.mpr ⟨hcandidate, hheld⟩]
          rfl
    rw [List.flatMap_cons, factsOf_cons, List.map_append, hone, ih fun read hread => hdecided read (List.mem_cons_of_mem _ hread)]
    cases newEvent recorded read <;> rfl

theorem zip_facts (hdecided : ∀ read ∈ rows, Decided read) :
    (rows.foldl (Accounting.add recorded «open») .empty).facts.zip (rows.foldl (Accounting.add recorded «open») .empty).appended =
      factsOf recorded rows := by
  have happended : rows.filterMap (newEvent recorded) = (factsOf recorded rows).map Prod.snd := by
    unfold factsOf
    rw [List.map_filterMap]
    refine List.filterMap_congr fun read _ => ?_
    cases newEvent recorded read <;> rfl
  rw [facts_eq hdecided, appended_eq hdecided, happended]
  exact (List.zip_of_prod rfl rfl).symm

end

end SessionPlan

namespace SessionCommit
open SessionReading SessionPlan JournalStore Calls

/-! ### What a commit leaves of them in the journal -/

/-- The record of a fact. -/
def RecordOf (session : ImportSessionId) (declaredBy : PrincipalId) (fact : PlannedFact × Event) (e : Event) : Prop :=
  ∃ journal, e = JournalStore.stamp journal (stamped session declaredBy fact.2)

section
variable {context : Context} {session : ImportSessionId} {declaredBy : PrincipalId} {base journal journal' : List Event}
  {inputs : List (ReadRow × Verdict)} {recorded : RecordedIdentities} {kept : List (PlannedFact × Event)}

/-- One row writes its fact, when it has one that can be kept, and nothing else. -/
theorem record_of_row {read : ReadRow} {verdict : Verdict} {records : List Event}
    (h : RowStep context session declaredBy (base ++ records) (read, verdict) journal')
    (hheld : ∀ e, candidateEvent read = some e → (recorded.holds e = true ↔ ∃ old ∈ base, Shares old e))
    (hunused : ∀ e, candidateEvent read = some e → (∀ old ∈ base, old.id ≠ e.id) ∧ ∀ earlier ∈ kept, earlier.2.id ≠ e.id)
    (hrecords : List.Forall₂ (RecordOf session declaredBy) kept records) :
    ∃ records', journal' = base ++ records' ∧ List.Forall₂ (RecordOf session declaredBy)
      ((((newEvent recorded read).map fun e => (plannedFact read e, e)).toList).foldl keepFact kept) records' := by
  have hnone : newEvent recorded read = none → journal' = base ++ records → ∃ records', journal' = base ++ records' ∧
      List.Forall₂ (RecordOf session declaredBy)
        ((((newEvent recorded read).map fun e => (plannedFact read e, e)).toList).foldl keepFact kept) records' := by
    intro hnew hsame
    rw [hnew]
    exact ⟨records, hsame, hrecords⟩
  cases h with
  | settled hsettled =>
    refine hnone (Option.eq_none_iff_forall_ne_some.mpr fun e he => ?_) rfl
    rw [(candidateEvent_iff.mp (newEvent_iff.mp he).1).1] at hsettled
    cases hsettled
  | refused hcandidate =>
    refine hnone (Option.eq_none_iff_forall_ne_some.mpr fun e he => ?_) rfl
    rw [(newEvent_iff.mp he).1] at hcandidate
    cases hcandidate
  | @candidate _ _ e _ hcandidate hwritten =>
    obtain ⟨hbase, hearlier⟩ := hunused e hcandidate
    by_cases hholds : recorded.holds e = true
    · obtain ⟨old, hold, hshares⟩ := (hheld e hcandidate).mp hholds
      refine hnone (Option.eq_none_iff_forall_ne_some.mpr fun e' he' => ?_) ?_
      · obtain ⟨hsame, hnot⟩ := newEvent_iff.mp he'
        rw [hcandidate] at hsame
        cases hsame
        exact hnot hholds
      · cases hwritten with
        | invalid => rfl
        | duplicate => rfl
        | inserted _ hfound => exact absurd hfound (findDuplicate_of_shares (List.mem_append_left _ hold) hshares)
    · rw [newEvent_iff.mpr ⟨hcandidate, hholds⟩]
      simp only [Option.map_some, Option.toList_some, List.foldl_cons, List.foldl_nil, keepFact]
      cases hwritten with
      | invalid rejection hinvalid =>
        rw [if_neg fun hkeeps => hinvalid hkeeps.1]
        exact ⟨records, rfl, hrecords⟩
      | duplicate existing _ hfound =>
        rw [if_neg ?_]
        · exact ⟨records, rfl, hrecords⟩
        · rintro ⟨-, hapart⟩
          have hfree : findDuplicate .source (base ++ records) (stamped session declaredBy e) = none := by
            refine findDuplicate_of_free fun old hold => ?_
            rcases List.mem_append.mp hold with hold | hold
            · exact ⟨fun hshares => hholds ((hheld e hcandidate).mpr ⟨old, hold, hshares⟩), hbase old hold⟩
            · obtain ⟨fact, hfact, _, rfl⟩ := Runs.exists_left hrecords hold
              exact ⟨hapart fact hfact, hearlier fact hfact⟩
          rw [hfree] at hfound
          cases hfound
      | inserted hvalid hfound =>
        have hfree := held_none.mp (held_of_findDuplicate_none hfound)
        have hapart : ∀ earlier ∈ kept, ¬ Shares earlier.2 e := fun fact hfact hshares => by
          obtain ⟨old, hold, _, rfl⟩ := Runs.exists_right hrecords hfact
          exact hfree _ (List.mem_append_right _ hold) hshares
        rw [if_pos ⟨hvalid, hapart⟩]
        exact ⟨records ++ [_], List.append_assoc _ _ _, List.rel_append hrecords (.cons ⟨_, rfl⟩ .nil)⟩

theorem mem_keepFact {next fact : PlannedFact × Event} (h : fact ∈ keepFact kept next) : fact ∈ kept ∨ fact = next := by
  unfold keepFact at h
  split at h
  · simpa using h
  · exact .inl h

/-- The rows write the facts that can be kept, one after another, and nothing else. -/
theorem records_of_rows (h : Runs.Run (RowStep context session declaredBy) journal inputs journal')
    (hheld : ∀ input ∈ inputs, ∀ e, candidateEvent input.1 = some e →
      (recorded.holds e = true ↔ ∃ old ∈ base, Shares old e))
    (hunused : ∀ input ∈ inputs, ∀ e, candidateEvent input.1 = some e →
      (∀ old ∈ base, old.id ≠ e.id) ∧ ∀ earlier ∈ kept, earlier.2.id ≠ e.id)
    (hids : (inputs.map Prod.fst).Pairwise fun read read' => ∀ e, candidateEvent read = some e →
      ∀ e', candidateEvent read' = some e' → e.id ≠ e'.id)
    (hjournal : ∃ records, journal = base ++ records ∧ List.Forall₂ (RecordOf session declaredBy) kept records) :
    ∃ records, journal' = base ++ records ∧
      List.Forall₂ (RecordOf session declaredBy) ((factsOf recorded (inputs.map Prod.fst)).foldl keepFact kept) records := by
  induction h generalizing kept with
  | nil journal => exact hjournal
  | @cons journal middle last input inputs hstep hrest ih =>
    obtain ⟨records, rfl, hrecords⟩ := hjournal
    obtain ⟨hidsHead, hidsTail⟩ := List.pairwise_cons.mp hids
    rw [List.map_cons, factsOf_cons, List.foldl_append]
    refine ih (fun input' hinput' => hheld input' (List.mem_cons_of_mem _ hinput')) (fun input' hinput' e he => ?_) hidsTail
      (record_of_row hstep (hheld input List.mem_cons_self) (hunused input List.mem_cons_self) hrecords)
    obtain ⟨hbase, hearlier⟩ := hunused input' (List.mem_cons_of_mem _ hinput') e he
    refine ⟨hbase, fun fact hfact => ?_⟩
    cases hnew : newEvent recorded input.1 with
    | none =>
      rw [hnew] at hfact
      exact hearlier fact hfact
    | some first =>
      rw [hnew] at hfact
      rcases mem_keepFact hfact with hold | rfl
      · exact hearlier fact hold
      · exact hidsHead input'.1 (List.mem_map_of_mem hinput') first (newEvent_iff.mp hnew).1 e he

end
/-! ### Two commits under one revision -/

/-- An event of the row, with this content, is in the journal. -/
def FactAt (request : Request) (journal : List Event) (row : Nat) (content : FactContent) : Prop :=
  ∃ e ∈ journal, e.id = (request.drawn row).1 ∧ e.content = content

/-- Two commits left the same facts of the same rows. -/
def SameFacts (request request' : Request) (journal journal' : List Event) : Prop :=
  ∀ row content, FactAt request journal row content ↔ FactAt request' journal' row content

section
variable {context : Context} {env : Environment} {resolver : Resolver} {request : Request} {store store' : Store}
  {plan : PlannedSession} {outcome : CommitOutcome} {refuses : Event → Option String} {fresh : Nat → Operation.Fresh}
  {owner : OwnerId} {contents : SessionContents} {journal : List Event} {fact fact' : PlannedFact × Event}

theorem mem_foldl_keepFact {facts kept : List (PlannedFact × Event)} (h : fact ∈ facts.foldl keepFact kept) :
    fact ∈ kept ∨ fact ∈ facts := by
  induction facts generalizing kept with
  | nil => exact .inl h
  | cons next facts ih =>
    rcases ih h with hkept | hlater
    · rcases mem_keepFact hkept with hold | rfl
      · exact .inl hold
      · exact .inr List.mem_cons_self
    · exact .inr (List.mem_cons_of_mem _ hlater)

theorem keptFacts_eq (hplan : planSession env fresh owner resolver contents journal = .ok plan) :
    plan.keptFacts = (factsOf (.of journal) plan.rows).foldl keepFact [] ∧
      plan.delta.accounting.facts = (factsOf (.of journal) plan.rows).map Prod.fst := by
  obtain ⟨_, -, -, haccounting⟩ := planSession_ok hplan
  have hdecided : ∀ read ∈ plan.rows, Decided read := fun read hmem => ((rows_of_plan hplan).2 read hmem).1
  unfold PlannedSession.keptFacts
  rw [haccounting, zip_facts hdecided]
  exact ⟨rfl, facts_eq hdecided⟩

/-- The facts that are kept are among those that the plan shows. -/
theorem shown_of_kept (hplan : planSession env fresh owner resolver contents journal = .ok plan)
    (h : fact ∈ plan.keptFacts) : fact.1 ∈ plan.delta.accounting.facts := by
  obtain ⟨hkept, hall⟩ := keptFacts_eq hplan
  rw [hkept] at h
  rw [hall]
  exact List.mem_map_of_mem ((mem_foldl_keepFact h).resolve_left List.not_mem_nil)

/-- A fact that is kept is a row that the journal does not hold. -/
theorem exists_read (hplan : planSession env fresh owner resolver contents journal = .ok plan) (h : fact ∈ plan.keptFacts) :
    ∃ read ∈ plan.rows, newEvent (.of journal) read = some fact.2 ∧ fact.1 = plannedFact read fact.2 := by
  rw [(keptFacts_eq hplan).1] at h
  have hmem := (mem_foldl_keepFact h).resolve_left List.not_mem_nil
  obtain ⟨read, hread, hsome⟩ := List.mem_filterMap.mp hmem
  obtain ⟨e, he, rfl⟩ := Option.map_eq_some_iff.mp hsome
  exact ⟨read, hread, he, rfl⟩
/-- A fact of a plan is known by its row. -/
theorem fact_of_row (hrows : (contents.observations.map ImportObservationView.row).Nodup)
    (hplan : planSession env fresh owner resolver contents journal = .ok plan) {fact fact' : PlannedFact}
    (hfact : fact ∈ plan.delta.accounting.facts) (hfact' : fact' ∈ plan.delta.accounting.facts) (h : fact.row = fact'.row) :
    fact = fact' := by
  obtain ⟨-, hfacts⟩ := keptFacts_eq hplan
  rw [hfacts] at hfact hfact'
  have hread : ∀ {fact}, fact ∈ (factsOf (.of journal) plan.rows).map Prod.fst →
      ∃ read ∈ plan.rows, ∃ e, newEvent (.of journal) read = some e ∧ fact = plannedFact read e := by
    rintro fact hmem
    obtain ⟨⟨_, e⟩, hpair, rfl⟩ := List.mem_map.mp hmem
    obtain ⟨read, hread, hsome⟩ := List.mem_filterMap.mp hpair
    obtain ⟨e', he, hsame⟩ := Option.map_eq_some_iff.mp hsome
    cases hsame
    exact ⟨read, hread, e, he, rfl⟩
  obtain ⟨read, hmem, e, he, rfl⟩ := hread hfact
  obtain ⟨read', hmem', e', he', rfl⟩ := hread hfact'
  have hnodup : (plan.rows.map ReadRow.row).Nodup := by rwa [(rows_of_plan hplan).1]
  cases List.inj_on_of_nodup_map hnodup hmem hmem' h
  rw [he] at he'
  cases he'
  rfl

/-- What a row reads as is one operation, and the event of a kept fact has its two parts from what is shown and from that. -/
theorem parts_of_kept (hrows : (contents.observations.map ImportObservationView.row).Nodup)
    (hplan : planSession env fresh owner resolver contents journal = .ok plan) (h : fact ∈ plan.keptFacts) :
    ∃ operation, (∀ operation', ReadsAs env resolver contents fact.1.row operation' ↔ operation' = operation) ∧
      restore fact.1.account fact.1.shown (operation.unshown fact.1.account) = fact.2.content ∧
      unshownOf fact.1.account fact.2.content = operation.unshown fact.1.account := by
  obtain ⟨read, hread, hnew, hfact⟩ := exists_read hplan h
  have hcandidate := (newEvent_iff.mp hnew).1
  obtain ⟨reading, hreading, hplanRows⟩ := planSession_reading hplan
  rw [hplanRows] at hread
  obtain ⟨observation, hin, hof⟩ := read_of_reading hreading hread hcandidate
  obtain ⟨operation, basis, hresolution, hrestored, hunshown⟩ := parts_of_readRow hof hcandidate
  have hrow : observation.row = fact.1.row := by
    rw [hfact]
    exact (readRow_cases hof).1.symm
  rw [← hfact] at hrestored hunshown
  refine ⟨operation, fun operation' => ⟨?_, ?_⟩, hrestored, hunshown⟩
  · rintro ⟨observation', hin', hrow', basis', hresolution'⟩
    cases List.inj_on_of_nodup_map hrows hin' hin (hrow'.trans hrow.symm)
    rw [hresolution] at hresolution'
    cases hresolution'
    rfl
  · rintro rfl
    exact ⟨observation, hin, hrow, basis, hresolution⟩

/-- The rows of a commit leave the facts that can be kept, and no other event of theirs. -/
theorem factAt_iff (hrows : (store.contents.observations.map ImportObservationView.row).Nodup)
    (hfresh : request.Fresh store.journal)
    (hplan : planSession context.env (context.fresh request) request.principal.owner resolver store.contents
      (loadEvents store.journal request.principal.owner) = .ok plan)
    (hwrite : run (serve refuses) (writePlan context request plan) store = (.ok outcome, store')) {row : Nat}
    {content : FactContent} :
    FactAt request store'.journal row content ↔ ∃ fact ∈ plan.keptFacts, fact.1.row = row ∧ fact.2.content = content := by
  obtain ⟨written, middle, hsubmit, hplaced, hgrows, hfrom⟩ := run_writePlan hwrite
  obtain ⟨-, hdispositions, hcandidates⟩ := planSession_parts hplan
  obtain ⟨hnumbers, hread⟩ := rows_of_plan hplan
  rw [hcandidates] at hsubmit
  obtain ⟨-, hlength, hrun⟩ := run_submitCandidates hdispositions hsubmit hplaced
  have hnodup : (plan.rows.map ReadRow.row).Nodup := by rwa [hnumbers]
  have hid : ∀ read ∈ plan.rows, ∀ e, candidateEvent read = some e → e.id = (request.drawn read.row).1 :=
    fun read hmem e he => ((hread read hmem).2 e he).1
  have hof : ∀ input ∈ plan.rows.zip outcome.verdicts, input.1 ∈ plan.rows := fun input hin => by
    have hmem := List.mem_map_of_mem (f := Prod.fst) hin
    rwa [fst_zip hlength] at hmem
  have hids : plan.rows.Pairwise fun read read' => ∀ e, candidateEvent read = some e →
      ∀ e', candidateEvent read' = some e' → e.id ≠ e'.id := by
    have hpairs : plan.rows.Pairwise fun read read' => read.row ≠ read'.row := List.pairwise_map.mp hnodup
    refine hpairs.imp_of_mem fun {read read'} hmem hmem' hne e he e' he' hsame => ?_
    rw [hid read hmem e he, hid read' hmem' e' he'] at hsame
    exact hne (hfresh.apart read.row read'.row hsame)
  have hheld : ∀ input ∈ plan.rows.zip outcome.verdicts, ∀ e, candidateEvent input.1 = some e →
      ((RecordedIdentities.of (loadEvents store.journal request.principal.owner)).holds e = true ↔
        ∃ old ∈ store.journal, Shares old e) := fun input hin e he => holds_iff ((hread input.1 (hof input hin)).2 e he).2
  have hunused : ∀ input ∈ plan.rows.zip outcome.verdicts, ∀ e, candidateEvent input.1 = some e →
      (∀ old ∈ store.journal, old.id ≠ e.id) ∧ ∀ earlier ∈ ([] : List (PlannedFact × Event)), earlier.2.id ≠ e.id := by
    intro input hin e he
    rw [hid input.1 (hof input hin) e he]
    exact ⟨hfresh.unused input.1.row, fun _ hnone => absurd hnone List.not_mem_nil⟩
  obtain ⟨records, hmiddle, hrecords⟩ := records_of_rows hrun hheld hunused (by rw [fst_zip hlength]; exact hids)
    ⟨[], (List.append_nil _).symm, .nil⟩
  rw [fst_zip hlength, ← (keptFacts_eq hplan).1] at hrecords
  have hdrawn : ∀ fact ∈ plan.keptFacts, fact.2.id = (request.drawn fact.1.row).1 := fun fact hfact => by
    obtain ⟨read, hmem, hnew, hshows⟩ := exists_read hplan hfact
    rw [hid read hmem fact.2 (newEvent_iff.mp hnew).1, hshows]
    rfl
  constructor
  · rintro ⟨e, he, hrow, hcontent⟩
    rcases hfrom e he with hin | ⟨i, hstated⟩
    · rw [hmiddle] at hin
      rcases List.mem_append.mp hin with hold | hnew
      · exact absurd hrow (hfresh.unused row e hold)
      · obtain ⟨fact, hfact, _, rfl⟩ := Runs.exists_left hrecords hnew
        exact ⟨fact, hfact, hfresh.apart _ _ ((hdrawn fact hfact).symm.trans hrow), hcontent⟩
    · exact absurd (hrow.symm.trans hstated) (hfresh.stated row i)
  · rintro ⟨fact, hfact, rfl, hcontent⟩
    obtain ⟨e, he, _, rfl⟩ := Runs.exists_right hrecords hfact
    have hin := List.mem_append_right store.journal he
    rw [← hmiddle] at hin
    exact ⟨_, hgrows.subset hin, hdrawn fact hfact, hcontent⟩

/-- The facts of a plan can be read off its text. -/
theorem facts_of_stampLines {around around' : Surroundings} {owner' : OwnerId} {plan' : PlannedSession}
    (h : stampLines env owner around plan = stampLines env owner' around' plan') :
    plan.delta.accounting.facts = plan'.delta.accounting.facts := by
  have hread : ∀ (owner : OwnerId) (around : Surroundings) (plan : PlannedSession),
      (stampLines env owner around plan).filterMap (fun line => match line with
        | .fact fact => some fact
        | _ => none) = plan.delta.accounting.facts := by
    intro owner around plan
    simp only [stampLines, List.filterMap_append, List.filterMap_cons, List.filterMap_nil, List.filterMap_map,
      Function.comp_def]
    split_ifs <;> simp [List.filterMap_map]
  rw [← hread owner around plan, ← hread owner' around' plan', h]
/-- A commit that went through under a revision had a plan of that revision. -/
theorem revision_of_commit {revision : String} (hrevision : request.revision = some revision)
    (hplan : planSession context.env (context.fresh request) request.principal.owner resolver store.contents
      (loadEvents store.journal request.principal.owner) = .ok plan)
    (hcommit : run (serve refuses) (commitSession context resolver request) store = (.ok outcome, store')) :
    context.stamp plan = revision ∧ run (serve refuses) (writePlan context request plan) store = (.ok outcome, store') := by
  obtain ⟨plan', hplan', hrefusal, hwrite⟩ := run_commitSession hcommit
  rw [hplan] at hplan'
  cases hplan'
  refine ⟨?_, hwrite⟩
  unfold refusal at hrefusal
  rw [hrevision, Option.filter_some] at hrefusal
  split at hrefusal
  · cases hrefusal
  · by_contra hne
    rw [if_pos (decide_eq_true (Ne.symm hne))] at hrefusal
    cases hrefusal

end

/-- Two states of one session whose plans have one revision, and the commits that are made under it. They write the same facts
    exactly when the same facts of the plan can be written in both, and each of these reads, in both, as operations that
    agree in what the plan does not show of them. -/
theorem same_facts_iff {context : Context} {digest : List StampLine → String} {request request' : Request}
    {around around' : Surroundings} {store store' last last' : Store} {plan plan' : PlannedSession}
    {outcome outcome' : CommitOutcome} {refuses refuses' : Event → Option String} {revision : String}
    (hrows : (store.contents.observations.map ImportObservationView.row).Nodup)
    (hrows' : (store'.contents.observations.map ImportObservationView.row).Nodup)
    (hfresh : request.Fresh store.journal) (hfresh' : request'.Fresh store'.journal)
    (hplan : planSession context.env (context.fresh request) request.principal.owner around.resolver store.contents
      (loadEvents store.journal request.principal.owner) = .ok plan)
    (hplan' : planSession context.env (context.fresh request') request'.principal.owner around'.resolver store'.contents
      (loadEvents store'.journal request'.principal.owner) = .ok plan')
    (hdigest : fingerprint digest context.env request.principal.owner around plan =
        fingerprint digest context.env request'.principal.owner around' plan' →
      stampLines context.env request.principal.owner around plan =
        stampLines context.env request'.principal.owner around' plan')
    (hrevision : request.revision = some revision) (hrevision' : request'.revision = some revision)
    (hcommit : run (serve refuses) (commitSession (context.withFingerprint digest request.principal.owner around)
      around.resolver request) store = (.ok outcome, last))
    (hcommit' : run (serve refuses') (commitSession (context.withFingerprint digest request'.principal.owner around')
      around'.resolver request') store' = (.ok outcome', last')) :
    SameFacts request request' last.journal last'.journal ↔
      (∀ fact, fact ∈ plan.writable ↔ fact ∈ plan'.writable) ∧
        ∀ fact ∈ plan.writable, ∀ operation operation',
          ReadsAs context.env around.resolver store.contents fact.row operation →
            ReadsAs context.env around'.resolver store'.contents fact.row operation' →
              operation.unshown fact.account = operation'.unshown fact.account := by
  have hplanned : planSession (context.withFingerprint digest request.principal.owner around).env
      ((context.withFingerprint digest request.principal.owner around).fresh request) request.principal.owner around.resolver
      store.contents (loadEvents store.journal request.principal.owner) = .ok plan := hplan
  have hplanned' : planSession (context.withFingerprint digest request'.principal.owner around').env
      ((context.withFingerprint digest request'.principal.owner around').fresh request') request'.principal.owner
      around'.resolver store'.contents (loadEvents store'.journal request'.principal.owner) = .ok plan' := hplan'
  obtain ⟨hstamp, hwrite⟩ := revision_of_commit hrevision hplanned hcommit
  obtain ⟨hstamp', hwrite'⟩ := revision_of_commit hrevision' hplanned' hcommit'
  have hfacts := facts_of_stampLines (hdigest (hstamp.trans hstamp'.symm))
  have hat := @factAt_iff _ _ _ _ _ _ _ _ hrows hfresh hplanned hwrite
  have hat' := @factAt_iff _ _ _ _ _ _ _ _ hrows' hfresh' hplanned' hwrite'
  have hshown : ∀ fact ∈ plan.keptFacts, fact.1 ∈ plan.delta.accounting.facts := fun _ => shown_of_kept hplan
  have hshown' : ∀ fact ∈ plan'.keptFacts, fact.1 ∈ plan.delta.accounting.facts := fun _ hfact =>
    hfacts ▸ shown_of_kept hplan' hfact
  constructor
  · intro hsame
    -- The fact of a row in one state is, by its number, the fact of that row in the other.
    have hpaired : ∀ fact ∈ plan.keptFacts, ∃ fact' ∈ plan'.keptFacts, fact'.1 = fact.1 ∧ fact'.2.content = fact.2.content := by
      intro fact hfact
      obtain ⟨fact', hfact', hrow, hcontent⟩ := hat'.mp ((hsame _ _).mp (hat.mpr ⟨fact, hfact, rfl, rfl⟩))
      exact ⟨fact', hfact', fact_of_row hrows hplan (hshown' fact' hfact') (hshown fact hfact) hrow, hcontent⟩
    have hpaired' : ∀ fact' ∈ plan'.keptFacts, ∃ fact ∈ plan.keptFacts, fact.1 = fact'.1 := by
      intro fact' hfact'
      obtain ⟨fact, hfact, hrow, -⟩ := hat.mp ((hsame _ _).mpr (hat'.mpr ⟨fact', hfact', rfl, rfl⟩))
      exact ⟨fact, hfact, fact_of_row hrows hplan (hshown fact hfact) (hshown' fact' hfact') hrow⟩
    refine ⟨fun fact => ⟨fun hmem => ?_, fun hmem => ?_⟩, fun fact hmem operation operation' hreads hreads' => ?_⟩
    · obtain ⟨pair, hpair, rfl⟩ := List.mem_map.mp hmem
      obtain ⟨pair', hpair', hfact, -⟩ := hpaired pair hpair
      exact List.mem_map.mpr ⟨pair', hpair', hfact⟩
    · obtain ⟨pair', hpair', rfl⟩ := List.mem_map.mp hmem
      obtain ⟨pair, hpair, hfact⟩ := hpaired' pair' hpair'
      exact List.mem_map.mpr ⟨pair, hpair, hfact⟩
    · obtain ⟨pair, hpair, rfl⟩ := List.mem_map.mp hmem
      obtain ⟨pair', hpair', hfact, hcontent⟩ := hpaired pair hpair
      obtain ⟨own, hown, -, hunshown⟩ := parts_of_kept hrows hplan hpair
      obtain ⟨own', hown', -, hunshown'⟩ := parts_of_kept hrows' hplan' hpair'
      rw [hfact] at hown' hunshown'
      rw [(hown operation).mp hreads, (hown' operation').mp hreads', ← hunshown, ← hunshown', hcontent]
  · rintro ⟨hwritable, hagree⟩
    have hpaired : ∀ pair ∈ plan.keptFacts, ∀ pair' ∈ plan'.keptFacts, pair.1 = pair'.1 → pair.2.content = pair'.2.content := by
      intro pair hpair pair' hpair' hfact
      obtain ⟨own, hown, hrestored, -⟩ := parts_of_kept hrows hplan hpair
      obtain ⟨own', hown', hrestored', -⟩ := parts_of_kept hrows' hplan' hpair'
      rw [← hfact] at hown' hrestored'
      rw [← hrestored, ← hrestored', hagree pair.1 (List.mem_map_of_mem hpair) own own' ((hown own).mpr rfl)
        ((hown' own').mpr rfl)]
    intro row content
    rw [hat, hat']
    constructor
    · rintro ⟨pair, hpair, hrow, hcontent⟩
      obtain ⟨pair', hpair', hfact⟩ := List.mem_map.mp ((hwritable pair.1).mp (List.mem_map_of_mem hpair))
      exact ⟨pair', hpair', by rw [hfact]; exact hrow, (hpaired pair hpair pair' hpair' hfact.symm).symm.trans hcontent⟩
    · rintro ⟨pair', hpair', hrow, hcontent⟩
      obtain ⟨pair, hpair, hfact⟩ := List.mem_map.mp ((hwritable pair'.1).mpr (List.mem_map_of_mem hpair'))
      exact ⟨pair, hpair, by rw [hfact]; exact hrow, (hpaired pair hpair pair' hpair' hfact).trans hcontent⟩

/-! An identifier that a source prints, moved from one account to another between the plan and the commit. -/

/-- Money that left the card for what the source calls savings. -/
def savingsRow : ObservedRow where
  account := ⟨1⟩
  direction := .out
  amountMinor := .new 500
  currency := .rub
  counterparty := .named "savings"
  farSide := .unstated
  sourceKind := none
  sourceCategory := none
  ownerCategory := none
  sourceCode := none
  description := none
  dates := sampleDates 20635
  sourceTime := none
  identity := ⟨none, none, some "k"⟩

def savingsContext : Context :=
  { depositContext "a" "b" with env := { pairEnvironment with parseIntake _ := .ok (.observed savingsRow none) } }

def savingsSession : SessionContents where
  session := ⟨⟨1⟩, .open, none, none⟩
  observations := [⟨1, "row", none, none⟩]
  questions := []
  controlFigures := []

def savingsStore : Store := ⟨savingsSession, []⟩

/-- The card and two more accounts, of which `holder` answers to the printed name. -/
def savingsAround (holder : AccountId) (title : String) : Surroundings where
  resolver :=
    { accounts := [⟨⟨1⟩, title, none, []⟩, ⟨⟨2⟩, "first", if holder = ⟨2⟩ then some "savings" else none, []⟩,
        ⟨⟨3⟩, "second", if holder = ⟨3⟩ then some "savings" else none, []⟩]
      statements := []
      rules := [] }
  unresolved := []
  contours := []
  exclusions := []
  offers _ := []

/-- The number of lines stands for the digest. -/
def countLines (lines : List StampLine) : String := toString lines.length

def savingsRequest (call : Nat) : Request := { depositRequest call with revision := some "11" }

def savingsPlan (call : Nat) (around : Surroundings) : Result PlanError PlannedSession :=
  planSession savingsContext.env (savingsContext.fresh (savingsRequest call)) (savingsRequest call).principal.owner around.resolver
    savingsStore.contents (loadEvents savingsStore.journal (savingsRequest call).principal.owner)

def savingsCommit (call : Nat) (around : Surroundings) : Result CommitError CommitOutcome × Store :=
  run (serve fun _ => none)
    (commitSession (savingsContext.withFingerprint countLines (savingsRequest call).principal.owner around) around.resolver
      (savingsRequest call)) savingsStore

def savingsLines (call : Nat) (around : Surroundings) : Result PlanError (List StampLine) :=
  (savingsPlan call around).map (stampLines savingsContext.env (savingsRequest call).principal.owner around)

theorem fresh_savingsRequest (call : Nat) : (savingsRequest call).Fresh [] := by
  obtain ⟨hunused, hapart, hstated⟩ := fresh_depositRequest call
  exact ⟨hunused, hapart, hstated⟩

/-- What the row reads as when the directory gives the name to an account. -/
def savingsOperation (holder : AccountId) : SubmittedOperation :=
  savingsRow.envelope ⟨1⟩ (.transfer holder (.new 500) .rub)

theorem reads_savings {title : String} {row : Nat} {operation : SubmittedOperation}
    (hresolution : resolutionOf savingsContext.env (savingsAround ⟨2⟩ title).resolver ⟨1, "row", none, none⟩ =
      .ok (.fact (savingsOperation ⟨2⟩) .directory))
    (h : ReadsAs savingsContext.env (savingsAround ⟨2⟩ title).resolver savingsStore.contents row operation) :
    operation = savingsOperation ⟨2⟩ := by
  obtain ⟨observation, hin, -, basis, hreads⟩ := h
  rw [List.mem_singleton.mp hin, hresolution] at hreads
  cases hreads
  rfl

/-- The owner renames his card between the plan and the commit: the facts are the same. -/
theorem renamed_card_same_facts : ∃ outcome outcome' last last',
    savingsCommit 0 (savingsAround ⟨2⟩ "card") = (.ok outcome, last) ∧
    savingsCommit 1 (savingsAround ⟨2⟩ "main card") = (.ok outcome', last') ∧
      SameFacts (savingsRequest 0) (savingsRequest 1) last.journal last'.journal := by
  obtain ⟨plan, hplan⟩ := exists_ok (show (savingsPlan 0 (savingsAround ⟨2⟩ "card")).isOk = true by decide +kernel)
  obtain ⟨plan', hplan'⟩ := exists_ok (show (savingsPlan 1 (savingsAround ⟨2⟩ "main card")).isOk = true by decide +kernel)
  obtain ⟨outcome, houtcome⟩ := exists_ok (show (savingsCommit 0 (savingsAround ⟨2⟩ "card")).1.isOk = true by decide +kernel)
  obtain ⟨outcome', houtcome'⟩ :=
    exists_ok (show (savingsCommit 1 (savingsAround ⟨2⟩ "main card")).1.isOk = true by decide +kernel)
  obtain ⟨last, hcommit⟩ : ∃ last, savingsCommit 0 (savingsAround ⟨2⟩ "card") = (.ok outcome, last) :=
    ⟨_, by rw [← houtcome]⟩
  obtain ⟨last', hcommit'⟩ : ∃ last', savingsCommit 1 (savingsAround ⟨2⟩ "main card") = (.ok outcome', last') :=
    ⟨_, by rw [← houtcome']⟩
  have hlines : (savingsLines 0 (savingsAround ⟨2⟩ "card")).toOption =
      (savingsLines 1 (savingsAround ⟨2⟩ "main card")).toOption := by decide +kernel
  have hwritable : ((savingsPlan 0 (savingsAround ⟨2⟩ "card")).map PlannedSession.writable).toOption =
      ((savingsPlan 1 (savingsAround ⟨2⟩ "main card")).map PlannedSession.writable).toOption := by decide +kernel
  have hcard : resolutionOf savingsContext.env (savingsAround ⟨2⟩ "card").resolver ⟨1, "row", none, none⟩ =
      .ok (.fact (savingsOperation ⟨2⟩) .directory) := by decide +kernel
  have hmainCard : resolutionOf savingsContext.env (savingsAround ⟨2⟩ "main card").resolver ⟨1, "row", none, none⟩ =
      .ok (.fact (savingsOperation ⟨2⟩) .directory) := by decide +kernel
  unfold savingsLines at hlines
  rw [hplan] at hlines hwritable
  rw [hplan'] at hlines hwritable
  refine ⟨outcome, outcome', last, last', hcommit, hcommit', ?_⟩
  unfold savingsPlan at hplan hplan'
  unfold savingsCommit at hcommit hcommit'
  have hrows : (savingsStore.contents.observations.map ImportObservationView.row).Nodup := by decide
  have hdigest : fingerprint countLines savingsContext.env (savingsRequest 0).principal.owner (savingsAround ⟨2⟩ "card") plan =
        fingerprint countLines savingsContext.env (savingsRequest 1).principal.owner (savingsAround ⟨2⟩ "main card") plan' →
      stampLines savingsContext.env (savingsRequest 0).principal.owner (savingsAround ⟨2⟩ "card") plan =
        stampLines savingsContext.env (savingsRequest 1).principal.owner (savingsAround ⟨2⟩ "main card") plan' :=
    fun _ => Option.some.inj hlines
  have hrevision : (savingsRequest 0).revision = some "11" := rfl
  have hrevision' : (savingsRequest 1).revision = some "11" := rfl
  have hfresh : (savingsRequest 0).Fresh savingsStore.journal := fresh_savingsRequest 0
  have hfresh' : (savingsRequest 1).Fresh savingsStore.journal := fresh_savingsRequest 1
  refine (same_facts_iff hrows hrows hfresh hfresh' hplan hplan' hdigest hrevision hrevision' hcommit hcommit').mpr
    ⟨fun fact => ?_, ?_⟩
  · rw [Option.some.inj hwritable]
  · intro fact _ operation operation' hreads hreads'
    rw [reads_savings hcard hreads, reads_savings hmainCard hreads']

/-- The name moves from one account to the other between the plan and the commit: the stamp is the same, whatever the digest,
    and the money goes to another account. -/
theorem moved_name_other_facts :
    (savingsLines 0 (savingsAround ⟨2⟩ "card")).toOption = (savingsLines 1 (savingsAround ⟨3⟩ "card")).toOption ∧
    (savingsLines 0 (savingsAround ⟨2⟩ "card")).isOk = true ∧
    (savingsCommit 0 (savingsAround ⟨2⟩ "card")).1.isOk = true ∧ (savingsCommit 1 (savingsAround ⟨3⟩ "card")).1.isOk = true ∧
    (savingsCommit 0 (savingsAround ⟨2⟩ "card")).2.journal.map Event.kind =
      [.cashTransfer ⟨1⟩ ⟨1⟩ ⟨2⟩ ⟨.new 500, .rub⟩] ∧
    (savingsCommit 1 (savingsAround ⟨3⟩ "card")).2.journal.map Event.kind =
      [.cashTransfer ⟨1⟩ ⟨1⟩ ⟨3⟩ ⟨.new 500, .rub⟩] ∧
    ¬ SameFacts (savingsRequest 0) (savingsRequest 1) (savingsCommit 0 (savingsAround ⟨2⟩ "card")).2.journal
      (savingsCommit 1 (savingsAround ⟨3⟩ "card")).2.journal := by
  have hkinds : (savingsCommit 0 (savingsAround ⟨2⟩ "card")).2.journal.map Event.kind =
      [.cashTransfer ⟨1⟩ ⟨1⟩ ⟨2⟩ ⟨.new 500, .rub⟩] := by decide +kernel
  have hkinds' : (savingsCommit 1 (savingsAround ⟨3⟩ "card")).2.journal.map Event.kind =
      [.cashTransfer ⟨1⟩ ⟨1⟩ ⟨3⟩ ⟨.new 500, .rub⟩] := by decide +kernel
  have hids : (savingsCommit 0 (savingsAround ⟨2⟩ "card")).2.journal.map Event.id = [((savingsRequest 0).drawn 1).1] := by
    decide +kernel
  refine ⟨by decide +kernel, by decide +kernel, by decide +kernel, by decide +kernel, hkinds, hkinds', fun hsame => ?_⟩
  obtain ⟨e, hjournal, hid⟩ := List.map_eq_singleton_iff.mp hids
  have hkind : e.kind = .cashTransfer ⟨1⟩ ⟨1⟩ ⟨2⟩ ⟨.new 500, .rub⟩ := by
    rw [hjournal] at hkinds
    exact (List.singleton_inj.mp hkinds)
  obtain ⟨e', he', -, hcontent⟩ := (hsame 1 e.content).mp ⟨e, by rw [hjournal]; exact List.mem_singleton_self e, hid, rfl⟩
  have hkind' : e'.kind = .cashTransfer ⟨1⟩ ⟨1⟩ ⟨3⟩ ⟨.new 500, .rub⟩ := by
    have hmem := List.mem_map_of_mem (f := Event.kind) he'
    rw [hkinds'] at hmem
    exact List.mem_singleton.mp hmem
  have hsameKind : e'.kind.undrawn = e.kind.undrawn := congrArg FactContent.kind hcontent
  rw [hkind, hkind'] at hsameKind
  cases hsameKind

end SessionCommit
end Iaam
