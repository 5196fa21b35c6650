import Iaam.DataQuality
import Iaam.Lib.Search
import Iaam.Projection.Project
import Iaam.Theorems.Defects
import Iaam.Theorems.ExternalMoney
import Iaam.Theorems.Incremental

/-! Accounts outside the contour and the returns report. Every reader of the journal works on the account of the event,
so events outside the contour leave the part of the state that the report reads as it is. The status is the exception:
it counts defects of all accounts. -/

namespace Iaam
namespace OutsideAccounts
open Outcome Runs
open Outcome.Mut (local_pure local_lift local_modify local_get local_zoom)

/-! ### The lot book works on the account of the event -/

/-- Books that are alike on an account. -/
structure AlikeAt (account : AccountId) (b c : LotBook) : Prop where
  entries : ∀ key : LotKey, key.account = account → b.entries[key]? = c.entries[key]?
  ruleVersion : b.ruleVersion = c.ruleVersion
  amortisationVersion : b.amortisationVersion = c.amortisationVersion
  settlementPolicy : b.settlementPolicy = c.settlementPolicy

/-- Nothing changed beside an account. -/
structure RestOf (account : AccountId) (b c : LotBook) : Prop where
  entries : ∀ key : LotKey, key.account ≠ account → c.entries[key]? = b.entries[key]?
  ruleVersion : c.ruleVersion = b.ruleVersion
  amortisationVersion : c.amortisationVersion = b.amortisationVersion
  settlementPolicy : c.settlementPolicy = b.settlementPolicy

instance (account : AccountId) : Std.Refl (RestOf account) := ⟨fun _ => ⟨fun _ _ => rfl, rfl, rfl, rfl⟩⟩

instance (account : AccountId) : IsTrans LotBook (RestOf account) where
  trans _ _ _ h h' := ⟨fun key hkey => (h'.entries key hkey).trans (h.entries key hkey), h'.ruleVersion.trans h.ruleVersion,
    h'.amortisationVersion.trans h.amortisationVersion, h'.settlementPolicy.trans h.settlementPolicy⟩

/-- A step of the book that works on one account. -/
abbrev LocalAt {α : Type} (account : AccountId) (x : LotBook.Step α) : Prop :=
  Mut.Local (AlikeAt account) (RestOf account) x

section
variable {account : AccountId} {instrument : InstrumentId} {b c : LotBook} {e : Event}

theorem AlikeAt.putLots (h : AlikeAt account b c) (key : LotKey) (l : InstrumentLots) :
    AlikeAt account (b.putLots key l) (c.putLots key l) := by
  refine ⟨fun k hk => ?_, h.ruleVersion, h.amortisationVersion, h.settlementPolicy⟩
  rw [LotBook.putLots, LotBook.putLots, Tree.get_insert, Tree.get_insert, h.entries k hk]

theorem restOf_putLots (l : InstrumentLots) (b : LotBook) : RestOf account b (b.putLots ⟨account, instrument⟩ l) := by
  refine ⟨fun k hk => Tree.get_insert_of_ne fun h => hk ?_, rfl, rfl, rfl⟩
  rw [← h]

theorem local_putLots (l : InstrumentLots) : LocalAt account (Mut.modify (LotBook.putLots ⟨account, instrument⟩ l)) :=
  local_modify (fun h => h.putLots _ l) (restOf_putLots l)

theorem local_onEntry {α : Type} (x : InstrumentLots.Step α) :
    LocalAt account (LotBook.onEntry ⟨account, instrument⟩ x) := by
  refine local_zoom (fun h => ?_) (fun l h => h.putLots _ l) (fun l b => restOf_putLots l b) x
  rw [LotBook.lotsAt, LotBook.lotsAt, h.entries _ rfl]

theorem local_requireEntry : LocalAt account (LotBook.requireEntry e ⟨account, instrument⟩) := by
  refine local_get (fun h => ?_) fun b => local_lift _
  rw [h.entries _ rfl]

theorem local_requireWholePosition (declared : Quantity) :
    LocalAt account (LotBook.requireWholePosition e ⟨account, instrument⟩ declared) := by
  refine local_requireEntry.bind fun l => (local_lift _).bind fun held => ?_
  split
  · exact local_pure ()
  · exact local_lift _

theorem local_dispose (quantity : Quantity) (proceeds : Money) (rules : RuleRegistry) (settlement : SettlementKnowledge) :
    LocalAt account (LotBook.dispose e ⟨account, instrument⟩ quantity proceeds rules settlement) := by
  refine (local_lift _).bind fun delta => local_get (fun h => ?_) fun b => ?_
  · rw [h.ruleVersion]
  · refine (local_lift _).bind fun rule => local_requireEntry.bind fun _ => (local_onEntry _).bind fun left => ?_
    split
    · exact local_onEntry _
    · refine (local_onEntry _).bind fun result => Mut.Local.bind ?_ fun _ => (local_onEntry _).bind fun _ => local_onEntry _
      -- The rule that was applied is no part of any account.
      exact local_modify (fun h => ⟨h.entries, h.ruleVersion, h.amortisationVersion, h.settlementPolicy⟩)
        fun b => ⟨fun _ _ => rfl, rfl, rfl, rfl⟩

theorem local_applyAmortisation (terms : PrincipalReturn) (allocation : BasisAllocation) (rules : RuleRegistry) :
    LocalAt e.account (LotBook.applyAmortisation e terms allocation rules) := by
  refine (local_requireWholePosition _).bind fun _ => local_get (fun h => ?_) fun b => ?_
  · rw [h.amortisationVersion]
  · exact (local_lift _).bind fun rule => local_requireEntry.bind fun l => (local_lift _).bind fun next =>
      local_putLots next

theorem local_applyConversion (terms : Conversion) (settlement : SettlementKnowledge) :
    LocalAt e.account (LotBook.applyConversion e terms settlement) := by
  refine (local_requireWholePosition _).bind fun _ => (local_lift _).bind fun delta =>
    local_requireEntry.bind fun l => (local_lift _).bind fun moved => ?_
  split
  · exact local_pure ()
  · exact (local_lift _).bind fun carried => (local_lift _).bind fun emptied => (local_putLots emptied).bind fun _ =>
      local_onEntry _

theorem local_applyTrade (terms : Trade) (settlement : SettlementKnowledge) (rules : RuleRegistry) :
    LocalAt e.account (LotBook.applyTrade e terms settlement rules) := by
  simp only [LotBook.applyTrade]
  split
  · exact (local_lift _).bind fun basis => (local_lift _).bind fun basis => local_onEntry _
  · exact (local_lift _).bind fun proceeds => (local_lift _).bind fun proceeds => local_dispose _ _ _ _

theorem local_applyCorporateAction (action : CorporateAction) (settlement : SettlementKnowledge) (rules : RuleRegistry) :
    LocalAt e.account (LotBook.applyCorporateAction e action settlement rules) := by
  cases action with
  | partialRedemption terms allocation => exact local_applyAmortisation terms allocation rules
  | redemption terms => exact (local_requireWholePosition _).bind fun _ => local_dispose _ _ _ _
  | conversion terms => exact local_applyConversion terms settlement

theorem local_applyOfferExercise (action : OfferExerciseAction) (settlement : SettlementKnowledge)
    (rules : RuleRegistry) : LocalAt e.account (LotBook.applyOfferExercise e action settlement rules) := by
  cases action with
  | submitted | cancelled => exact local_pure ()
  | settled terms => exact (local_lift _).bind fun proceeds => (local_lift _).bind fun proceeds => local_dispose _ _ _ _

theorem local_apply (e : Event) (rules : RuleRegistry) : LocalAt e.account (LotBook.apply e rules) := by
  refine local_get (fun h => ?_) fun b => ?_
  · rw [h.settlementPolicy]
  · dsimp only
    split
    · exact local_applyTrade _ _ _
    · exact local_onEntry _
    · exact local_onEntry _
    · exact local_pure ()
    · exact local_applyCorporateAction _ _ _
    · exact local_applyOfferExercise _ _ _
    all_goals exact local_pure ()

end

/-! ### What the report reads of a state -/

section
variable (inside : AccountId → Bool)

structure BalancesAgree (b c : Balances) : Prop where
  cash : ∀ key : CashKey, inside key.account = true → b.cash[key]? = c.cash[key]?
  positions : ∀ key : PositionKey, inside key.account = true → b.positions[key]? = c.positions[key]?

def IncomeAgrees (l m : IncomeLedger) : Prop :=
  ∀ key : LotKey, inside key.account = true → l.entries[key]? = m.entries[key]?

structure CoverageAgrees (c d : Coverage) : Prop where
  firstEvents : ∀ account, inside account = true → c.firstEventByAccount[account]? = d.firstEventByAccount[account]?
  restored : ∀ account, inside account = true → (account ∈ c.restoredAccounts ↔ account ∈ d.restoredAccounts)

/-- States with the same flows and prices that are alike on the accounts inside. -/
structure Agrees (s t : LedgerState) : Prop where
  balances : BalancesAgree inside s.balances t.balances
  book : ∀ account, inside account = true → AlikeAt account s.book t.book
  external : s.flows.external = t.flows.external
  income : IncomeAgrees inside s.income t.income
  prices : s.prices = t.prices
  coverage : CoverageAgrees inside s.coverage t.coverage

end

/-! ### Balances -/

section
variable {inside : AccountId → Bool} {b b' c c' : Balances} {leg : Leg} {id : EventId}

/-- What a leg makes of the balance under a key. -/
def cashAfter (leg : Leg) (key : CashKey) (old : Option PostedMinor) : Option PostedMinor :=
  match leg.cashEffect with
  | some money =>
    if (⟨leg.account, money.currency⟩ : CashKey) = key then (old.getD .zero).checkedAdd money.amount else old
  | none => old

/-- What a leg makes of the position under a key. -/
def positionAfter (leg : Leg) (key : PositionKey) (old : Option Quantity) : Option Quantity :=
  match leg.quantity, leg.instrument with
  | some quantity, some instrument =>
    if (⟨leg.account, instrument⟩ : PositionKey) = key then ((old.getD .zero).checkedAdd quantity).toOption else old
  | _, _ => old

theorem cashAfter_of_ne {key : CashKey} (h : leg.account ≠ key.account) (old : Option PostedMinor) :
    cashAfter leg key old = old := by
  simp only [cashAfter]
  split
  · exact if_neg fun heq => h (congrArg CashKey.account heq)
  · rfl

theorem positionAfter_of_ne {key : PositionKey} (h : leg.account ≠ key.account) (old : Option Quantity) :
    positionAfter leg key old = old := by
  simp only [positionAfter]
  split
  · exact if_neg fun heq => h (congrArg PositionKey.account heq)
  · rfl

theorem get_applyCash (h : b.applyCash leg = .ok b') :
    b'.positions = b.positions ∧ ∀ key, b'.cash[key]? = cashAfter leg key b.cash[key]? := by
  simp only [Balances.applyCash] at h
  simp only [cashAfter]
  cases hm : leg.cashEffect with
  | none =>
    rw [hm] at h
    cases h
    exact ⟨rfl, fun key => rfl⟩
  | some money =>
    rw [hm] at h
    dsimp only at h
    split at h
    · cases h
    · next sum hsum =>
      cases h
      refine ⟨rfl, fun key => ?_⟩
      dsimp only
      rw [Tree.get_insert]
      split
      · next hkey => rw [← hkey, ← hsum, Balances.cashAt]
      · rfl

theorem get_applyQuantity (h : b.applyQuantity id leg = .ok b') :
    b'.cash = b.cash ∧ ∀ key, b'.positions[key]? = positionAfter leg key b.positions[key]? := by
  simp only [Balances.applyQuantity] at h
  simp only [positionAfter]
  cases hq : leg.quantity with
  | none =>
    rw [hq] at h
    cases h
    exact ⟨rfl, fun key => rfl⟩
  | some quantity =>
    rw [hq] at h
    cases hi : leg.instrument with
    | none =>
      rw [hi] at h
      cases h
    | some instrument =>
      rw [hi] at h
      obtain ⟨sum, hsum, h⟩ := bind_ok.mp h
      cases h
      refine ⟨rfl, fun key => ?_⟩
      dsimp only
      rw [Tree.get_insert]
      split
      · next hkey =>
        have hsum := mapError_ok.mp hsum
        rw [Balances.positionAt, hkey] at hsum
        rw [hsum]
        rfl
      · rfl

/-- Every balance and position goes its own way. -/
theorem get_applyLeg (h : b.applyLeg id leg = .ok b') :
    (∀ key, b'.cash[key]? = cashAfter leg key b.cash[key]?) ∧
      ∀ key, b'.positions[key]? = positionAfter leg key b.positions[key]? := by
  obtain ⟨d, hcash, hquantity⟩ := bind_ok.mp h
  refine ⟨fun key => ?_, fun key => ?_⟩
  · rw [(get_applyQuantity hquantity).1, (get_applyCash hcash).2]
  · rw [(get_applyQuantity hquantity).2, (get_applyCash hcash).1]

theorem BalancesAgree.applyLeg (h : BalancesAgree inside b c) (hb : b.applyLeg id leg = .ok b')
    (hc : c.applyLeg id leg = .ok c') : BalancesAgree inside b' c' := by
  refine ⟨fun key hkey => ?_, fun key hkey => ?_⟩
  · rw [(get_applyLeg hb).1, (get_applyLeg hc).1, h.cash key hkey]
  · rw [(get_applyLeg hb).2, (get_applyLeg hc).2, h.positions key hkey]

theorem BalancesAgree.outsideLeg (h : BalancesAgree inside b c) (hleg : inside leg.account = false)
    (hc : c.applyLeg id leg = .ok c') : BalancesAgree inside b c' := by
  have hne : ∀ {account : AccountId}, inside account = true → leg.account ≠ account := by
    rintro account hin rfl
    cases hleg.symm.trans hin
  refine ⟨fun key hkey => ?_, fun key hkey => ?_⟩
  · rw [(get_applyLeg hc).1, cashAfter_of_ne (hne hkey), h.cash key hkey]
  · rw [(get_applyLeg hc).2, positionAfter_of_ne (hne hkey), h.positions key hkey]

theorem BalancesAgree.legs {legs : List Leg} (h : BalancesAgree inside b c)
    (hb : legs.foldlM (Balances.applyLeg id) b = .ok b') (hc : legs.foldlM (Balances.applyLeg id) c = .ok c') :
    BalancesAgree inside b' c' := by
  induction legs generalizing b c with
  | nil =>
    cases hb
    cases hc
    exact h
  | cons leg legs ih =>
    obtain ⟨d, hleg, hb⟩ := bind_ok.mp hb
    obtain ⟨d', hleg', hc⟩ := bind_ok.mp hc
    exact ih (h.applyLeg hleg hleg') hb hc

theorem BalancesAgree.outsideLegs {legs : List Leg} (h : BalancesAgree inside b c)
    (hlegs : ∀ leg ∈ legs, inside leg.account = false) (hc : legs.foldlM (Balances.applyLeg id) c = .ok c') :
    BalancesAgree inside b c' := by
  induction legs generalizing c with
  | nil =>
    cases hc
    exact h
  | cons leg legs ih =>
    obtain ⟨d, hleg, hc⟩ := bind_ok.mp hc
    exact ih (h.outsideLeg (hlegs leg List.mem_cons_self) hleg) (fun l hl => hlegs l (List.mem_cons_of_mem _ hl)) hc

end

/-! ### The other readers -/

section
variable {inside : AccountId → Bool} {e : Event}

theorem alike_apply {rules : RuleRegistry} {b b' c c' : LotBook} (h : ∀ a, inside a = true → AlikeAt a b c)
    (hb : LotBook.apply e rules b = (.ok (), b')) (hc : LotBook.apply e rules c = (.ok (), c')) :
    ∀ a, inside a = true → AlikeAt a b' c' := by
  intro a ha
  have hlocal := local_apply e rules
  by_cases hown : a = e.account
  · subst hown
    have halike := hlocal.alike (h e.account ha)
    rwa [hb, hc] at halike
  · have hrest := hlocal.rest.of_run hb
    have hrest' := hlocal.rest.of_run hc
    have hold := h a ha
    refine ⟨fun key hkey => ?_, ?_, ?_, ?_⟩
    · rw [hrest.entries key (hkey ▸ hown), hrest'.entries key (hkey ▸ hown), hold.entries key hkey]
    · rw [hrest.ruleVersion, hrest'.ruleVersion, hold.ruleVersion]
    · rw [hrest.amortisationVersion, hrest'.amortisationVersion, hold.amortisationVersion]
    · rw [hrest.settlementPolicy, hrest'.settlementPolicy, hold.settlementPolicy]

theorem alike_outside {rules : RuleRegistry} {b c c' : LotBook} (h : ∀ a, inside a = true → AlikeAt a b c)
    (he : inside e.account = false) (hc : LotBook.apply e rules c = (.ok (), c')) :
    ∀ a, inside a = true → AlikeAt a b c' := by
  intro a ha
  have hown : a ≠ e.account := by
    rintro rfl
    cases he.symm.trans ha
  have hrest := (local_apply e rules).rest.of_run hc
  have hold := h a ha
  refine ⟨fun key hkey => ?_, ?_, ?_, ?_⟩
  · rw [hrest.entries key (hkey ▸ hown), hold.entries key hkey]
  · rw [hrest.ruleVersion, hold.ruleVersion]
  · rw [hrest.amortisationVersion, hold.amortisationVersion]
  · rw [hrest.settlementPolicy, hold.settlementPolicy]

/-- The flows of an event do not depend on those before it. -/
theorem external_apply {contour : ContourDefinition} {l l' m m' : FlowLog} (h : l.external = m.external)
    (hl : l.apply e contour = .ok l') (hm : m.apply e contour = .ok m') : l'.external = m'.external := by
  have hrecord : ∀ {direction id version}, l.record e contour direction id version = .ok l' →
      m.record e contour direction id version = .ok m' → l'.external = m'.external := by
    intro direction id version hl hm
    obtain ⟨date, effects, hdate, heffects, hl⟩ := MoneyFlow.record_ok hl
    obtain ⟨date', effects', hdate', heffects', hm⟩ := MoneyFlow.record_ok hm
    cases hdate.symm.trans hdate'
    cases heffects.symm.trans heffects'
    rw [hl, hm, h]
  simp only [FlowLog.apply] at hl hm
  cases hc : classify contour e with
  | externalIn id version =>
    rw [hc] at hl hm
    exact hrecord hl hm
  | externalOut id version =>
    rw [hc] at hl hm
    exact hrecord hl hm
  | internal | indeterminate | irrelevant =>
    rw [hc] at hl hm
    cases hl
    cases hm
    cases movesMoney e <;> exact h

theorem external_outside {contour : ContourDefinition} {l l' : FlowLog} (hclass : classify contour e = .irrelevant)
    (hl : l.apply e contour = .ok l') : l'.external = l.external := by
  simp only [FlowLog.apply, hclass] at hl
  cases hl
  cases movesMoney e <;> rfl

/-- A change of one entry of an account, or none. -/
abbrev IncomeChange := Option (InstrumentId × (IncomeEntry → IncomeEntry))

def touchIncome (account : AccountId) (l : IncomeLedger) : IncomeChange → IncomeLedger
  | none => l
  | some (instrument, change) =>
    ⟨l.entries.insert ⟨account, instrument⟩ (change (l.entries[(⟨account, instrument⟩ : LotKey)]?.getD {}))⟩

def marked (instrument : InstrumentId) (gap : IncomeGap) : IncomeChange :=
  some (instrument, fun entry => { entry with gap := entry.gap.or (some gap) })

def recorded (instrument : InstrumentId) (posting : ReceivedPosting) : IncomeChange :=
  some (instrument, fun entry => { entry with postings := entry.postings ++ [posting] })

theorem receive_eq (e : Event) (instrument : InstrumentId) (amount : Money) (kind : PostingKind) :
    ∃ change, ∀ l : IncomeLedger, l.receive e ⟨e.account, instrument⟩ amount kind = touchIncome e.account l change := by
  simp only [IncomeLedger.receive]
  cases IncomeLedger.paymentDate e with
  | none => exact ⟨marked instrument .paymentDateUnknown, fun l => rfl⟩
  | some date => exact ⟨recorded instrument ⟨e.id, date, amount, kind⟩, fun l => rfl⟩

/-- What an event does to the income ledger is the same change of its account whatever the ledger. -/
theorem income_apply_eq (e : Event) : ∃ r : Except MoneyError IncomeChange,
    ∀ l : IncomeLedger, l.apply e = r.map (touchIncome e.account l) := by
  have hnone : ∃ r : Except MoneyError IncomeChange, ∀ l : IncomeLedger, .ok l = r.map (touchIncome e.account l) :=
    ⟨.ok none, fun _ => rfl⟩
  have hreceive : ∀ instrument amount kind, ∃ r : Except MoneyError IncomeChange,
      ∀ l : IncomeLedger, .ok (l.receive e ⟨e.account, instrument⟩ amount kind) = r.map (touchIncome e.account l) := by
    intro instrument amount kind
    obtain ⟨change, hchange⟩ := receive_eq e instrument amount kind
    exact ⟨.ok change, fun l => congrArg Except.ok (hchange l)⟩
  simp only [IncomeLedger.apply]
  split
  · exact hreceive _ _ _
  · next instrument _ _ => exact ⟨.ok (marked instrument .incomeKindUnknown), fun l => rfl⟩
  · exact hreceive _ _ _
  · exact hreceive _ _ _
  · next action _ =>
    cases action with
    | submitted | cancelled => exact hnone
    | settled terms =>
      simp only [IncomeLedger.applyOfferExercise]
      cases IncomeLedger.paymentDate e with
      | none => exact ⟨.ok (marked terms.instrument .paymentDateUnknown), fun l => rfl⟩
      | some date =>
        cases IncomeLedger.settlementAmount terms with
        | error reason => exact ⟨.error reason, fun l => rfl⟩
        | ok amount => exact ⟨.ok (recorded terms.instrument ⟨e.id, date, amount, .offerSettlement⟩), fun l => rfl⟩
  · exact hnone

theorem get_touchIncome {account : AccountId} {l : IncomeLedger} {change : IncomeChange} (key : LotKey) :
    (touchIncome account l change).entries[key]? = match change with
      | none => l.entries[key]?
      | some (instrument, change) =>
        if (⟨account, instrument⟩ : LotKey) = key then some (change (l.entries[key]?.getD {})) else l.entries[key]? := by
  cases change with
  | none => rfl
  | some change =>
    simp only [touchIncome, Tree.get_insert]
    split
    · next hkey => rw [hkey]
    · rfl

theorem IncomeAgrees.apply {l l' m m' : IncomeLedger} (h : IncomeAgrees inside l m) (hl : l.apply e = .ok l')
    (hm : m.apply e = .ok m') : IncomeAgrees inside l' m' := by
  obtain ⟨r, hr⟩ := income_apply_eq e
  rw [hr] at hl hm
  cases r with
  | error reason => cases hl
  | ok change =>
    cases hl
    cases hm
    intro key hkey
    rw [get_touchIncome, get_touchIncome, h key hkey]

theorem IncomeAgrees.outside {l m m' : IncomeLedger} (h : IncomeAgrees inside l m) (he : inside e.account = false)
    (hm : m.apply e = .ok m') : IncomeAgrees inside l m' := by
  obtain ⟨r, hr⟩ := income_apply_eq e
  rw [hr] at hm
  cases r with
  | error reason => cases hm
  | ok change =>
    cases hm
    intro key hkey
    rw [get_touchIncome, h key hkey]
    cases change with
    | none => rfl
    | some change =>
      dsimp only
      rw [if_neg]
      rintro rfl
      cases he.symm.trans hkey

theorem prices_outside {board : PriceBoard} (h : ∀ i p c q, e.kind ≠ .valuation i p c q) : board.observe e = board := by
  simp only [PriceBoard.observe]
  split
  · next hk _ => exact absurd hk (h _ _ _ _)
  · rfl

end

/-! ### Coverage -/

section
variable {inside : AccountId → Bool} {e : Event} {c d : Coverage}

/-- The part of an observation that comes from the date. -/
def dateStep (e : Event) (c : Coverage) : Coverage :=
  match e.dates.effectiveDate with
  | some date => c.observeDate e.account date
  | none => c

/-- The rest of an observation. -/
def restStep (e : Event) (c : Coverage) : Coverage :=
  let c := match e.confidence with
    | .known => c
    | .estimated | .unknown => { c with estimatedEvents := c.estimatedEvents + 1 }
  match e.kind with
  | .openingCash _ | .openingPosition .. => { c with restoredAccounts := c.restoredAccounts.insert e.account }
  | _ => c

theorem observe_eq (c : Coverage) (e : Event) :
    c.observe e = restStep e (dateStep e { c with eventsApplied := c.eventsApplied + 1 }) := rfl

theorem restStep_dates (e : Event) (c : Coverage) : (restStep e c).firstEventByAccount = c.firstEventByAccount ∧
    (restStep e c).firstEvent = c.firstEvent ∧ (restStep e c).lastEvent = c.lastEvent := by
  simp only [restStep]
  split <;> split <;> exact ⟨rfl, rfl, rfl⟩

theorem mem_restStep {account : AccountId} : account ∈ (restStep e c).restoredAccounts ↔
    account ∈ c.restoredAccounts ∨ (e.account = account ∧
      ((∃ amount, e.kind = .openingCash amount) ∨ ∃ i q b a, e.kind = .openingPosition i q b a)) := by
  have hconfidence : (match e.confidence with
      | .known => c
      | .estimated | .unknown => { c with estimatedEvents := c.estimatedEvents + 1 }).restoredAccounts =
      c.restoredAccounts := by
    split <;> rfl
  simp only [restStep]
  split
  · next amount hk => simp [hconfidence, or_comm, hk]
  · next hk => simp [hconfidence, or_comm, hk]
  · next hcash hposition =>
    rw [hconfidence, or_iff_left]
    rintro ⟨-, ⟨amount, hk⟩ | ⟨i, q, b, a, hk⟩⟩
    · exact hcash _ hk
    · exact hposition _ _ _ _ hk

theorem get_dateStep (e : Event) (c : Coverage) (account : AccountId) :
    (dateStep e c).firstEventByAccount[account]? =
      (e.dates.effectiveDate.bind fun date => if e.account = account then
        some (Coverage.earlier c.firstEventByAccount[account]? date) else none).or c.firstEventByAccount[account]? := by
  simp only [dateStep]
  cases e.dates.effectiveDate with
  | none => rfl
  | some date =>
    simp only [Coverage.observeDate, Tree.get_insert, Option.bind_some]
    by_cases hown : e.account = account
    · simp [hown]
    · simp [hown]

theorem restored_dateStep (e : Event) (c : Coverage) : (dateStep e c).restoredAccounts = c.restoredAccounts := by
  simp only [dateStep]
  split <;> rfl

theorem CoverageAgrees.observe (h : CoverageAgrees inside c d) : CoverageAgrees inside (c.observe e) (d.observe e) := by
  refine ⟨fun account hin => ?_, fun account hin => ?_⟩
  · rw [observe_eq, observe_eq, (restStep_dates _ _).1, (restStep_dates _ _).1, get_dateStep, get_dateStep]
    rw [h.firstEvents account hin]
  · rw [observe_eq, observe_eq, mem_restStep, mem_restStep, restored_dateStep, restored_dateStep]
    exact or_congr_left (h.restored account hin)

theorem CoverageAgrees.outside (h : CoverageAgrees inside c d) (he : inside e.account = false) :
    CoverageAgrees inside c (d.observe e) := by
  have hne : ∀ {account : AccountId}, inside account = true → e.account ≠ account := by
    rintro account hin rfl
    cases he.symm.trans hin
  refine ⟨fun account hin => ?_, fun account hin => ?_⟩
  · rw [observe_eq, (restStep_dates _ _).1, get_dateStep, h.firstEvents account hin]
    cases e.dates.effectiveDate with
    | none => rfl
    | some date => simp [hne hin]
  · rw [observe_eq, mem_restStep, restored_dateStep, or_iff_left fun hown => hne hin hown.1]
    exact h.restored account hin

/-- The last day of a coverage is the last one among these. -/
def LastOf (dates : List Date) (c : Coverage) : Prop :=
  (∀ date ∈ dates, ∃ last, c.lastEvent = some last ∧ date ≤ last) ∧ ∀ last, c.lastEvent = some last → last ∈ dates

theorem LastOf.observe {dates : List Date} (h : LastOf dates c) :
    LastOf (dates ++ e.dates.effectiveDate.toList) (c.observe e) := by
  have hlast : (c.observe e).lastEvent = (dateStep e { c with eventsApplied := c.eventsApplied + 1 }).lastEvent := by
    rw [observe_eq, (restStep_dates _ _).2.2]
  simp only [LastOf, hlast, dateStep]
  cases hdate : e.dates.effectiveDate with
  | none => simpa [LastOf] using h
  | some date =>
    simp only [Coverage.observeDate, Coverage.later, Option.toList_some, Option.some.injEq, exists_eq_left',
      List.mem_append, List.mem_singleton, forall_eq']
    cases hold : c.lastEvent with
    | none =>
      refine ⟨?_, .inr rfl⟩
      rintro d (hd | rfl)
      · obtain ⟨last, hlast, -⟩ := h.1 d hd
        cases hold.symm.trans hlast
      · exact le_rfl
    | some last =>
      refine ⟨?_, ?_⟩
      · rintro d (hd | rfl)
        · obtain ⟨last', hlast, hle⟩ := h.1 d hd
          cases hold.symm.trans hlast
          exact hle.trans (le_max_left _ _)
        · exact le_max_right _ _
      · rcases max_choice last date with hmax | hmax
        · exact .inl (by rw [Option.map_some, Option.getD_some, hmax]; exact h.2 last hold)
        · exact .inr (by rw [Option.map_some, Option.getD_some, hmax])

/-- Days that are not after the last one leave it the last one. -/
theorem LastOf.unique {dates dates' : List Date} (h : LastOf dates c) (h' : LastOf dates' d)
    (hsub : ∀ date ∈ dates, date ∈ dates')
    (hadded : ∀ date ∈ dates', date ∈ dates ∨ ∃ last, c.lastEvent = some last ∧ date ≤ last) :
    d.lastEvent = c.lastEvent := by
  have hforth : ∀ last, d.lastEvent = some last → c.lastEvent = some last := by
    intro last hlast
    obtain ⟨known, hknown, hle⟩ : ∃ known, c.lastEvent = some known ∧ last ≤ known := by
      rcases hadded last (h'.2 last hlast) with hin | hin
      · exact h.1 last hin
      · exact hin
    obtain ⟨last', hlast', hle'⟩ := h'.1 known (hsub known (h.2 known hknown))
    cases hlast.symm.trans hlast'
    rw [hknown, le_antisymm hle hle']
  cases hc : c.lastEvent with
  | none =>
    cases hd : d.lastEvent with
    | none => rfl
    | some last => cases hc.symm.trans (hforth last hd)
  | some last =>
    obtain ⟨last', hlast', -⟩ := h'.1 last (hsub last (h.2 last hc))
    rw [hlast', ← hforth last' hlast', hc]

end

/-! ### Steps and runs of the projection -/

/-- The accounts that an event names. -/
def touchedAccounts (e : Event) : List AccountId :=
  e.account :: e.legs.map Leg.account ++
    match e.kind.flowEndpoints with
    | .betweenAccounts source target => [source, target]
    | _ => []

/-- An event that names no account of either contour and states no price. -/
structure Outside (contour contour' : ContourDefinition) (e : Event) : Prop where
  accounts : ∀ account ∈ touchedAccounts e, contour.contains account = false ∧ contour'.contains account = false
  no_price : ∀ i p c q, e.kind ≠ .valuation i p c q

section
variable {H : Hashing} {ctx : ProjectionContext} {contour : ContourDefinition} {s s' t t' : LedgerState} {e : Event}
  {es es' : List Event}

theorem applyEvent_parts (h : applyEvent H ctx s e = .ok s') :
    s.balances.apply e = .ok s'.balances ∧ LotBook.apply e ctx.rules s.book = (.ok (), s'.book) ∧
      s.flows.apply e ctx.contour = .ok s'.flows ∧ s.income.apply e = .ok s'.income ∧
      s'.prices = s.prices.observe e ∧ s'.coverage = s.coverage.observe e := by
  obtain ⟨balances, hbalances, h⟩ := bind_ok.mp h
  obtain ⟨book, hbook, h⟩ := bind_ok.mp h
  obtain ⟨flows, hflows, h⟩ := bind_ok.mp h
  obtain ⟨income, hincome, h⟩ := bind_ok.mp h
  cases h
  exact ⟨convert_ok.mp hbalances, Mut.onCopy_ok.mp (reraise_ok.mp hbook), convert_ok.mp hflows, convert_ok.mp hincome,
    rfl, rfl⟩

theorem classify_outside (h : Outside ctx.contour contour e) : classify ctx.contour e = .irrelevant := by
  have hown := (h.accounts e.account (by simp [touchedAccounts])).1
  simp only [classify]
  split
  · simp [hown]
  · simp [hown]
  · next source target hends =>
    have hsource := (h.accounts source (by simp [touchedAccounts, hends])).1
    have htarget := (h.accounts target (by simp [touchedAccounts, hends])).1
    rw [hsource, htarget]
  · simp [hown]
  · simp [hown]

/-- The same event keeps two states alike. -/
theorem Agrees.both {inside : AccountId → Bool} (h : Agrees inside s t) (hs : applyEvent H ctx s e = .ok s')
    (ht : applyEvent H ctx t e = .ok t') : Agrees inside s' t' := by
  obtain ⟨hbalances, hbook, hflows, hincome, hprices, hcoverage⟩ := applyEvent_parts hs
  obtain ⟨hbalances', hbook', hflows', hincome', hprices', hcoverage'⟩ := applyEvent_parts ht
  refine ⟨h.balances.legs hbalances hbalances', alike_apply h.book hbook hbook', external_apply h.external hflows hflows',
    h.income.apply hincome hincome', ?_, ?_⟩
  · rw [hprices, hprices', h.prices]
  · rw [hcoverage, hcoverage']
    exact h.coverage.observe

/-- An event outside, on one side only, keeps them alike. -/
theorem Agrees.outside (h : Agrees contour.contains s t) (he : Outside ctx.contour contour e)
    (ht : applyEvent H ctx t e = .ok t') : Agrees contour.contains s t' := by
  obtain ⟨hbalances, hbook, hflows, hincome, hprices, hcoverage⟩ := applyEvent_parts ht
  have hown := (he.accounts e.account (by simp [touchedAccounts])).2
  have hlegs : ∀ leg ∈ e.legs, contour.contains leg.account = false := fun leg hleg =>
    (he.accounts leg.account (by simp [touchedAccounts, List.mem_map_of_mem hleg])).2
  refine ⟨h.balances.outsideLegs hlegs hbalances, alike_outside h.book hown hbook, ?_, h.income.outside hown hincome, ?_, ?_⟩
  · rw [external_outside (classify_outside he) hflows, h.external]
  · rw [hprices, prices_outside he.no_price, h.prices]
  · rw [hcoverage]
    exact h.coverage.outside hown

/-- Events outside change nothing that the report reads, wherever they are put in. -/
theorem Agrees.run (hadds : Search.Adds (Outside ctx.contour contour) es es') (h : Agrees contour.contains s t)
    (hs : es.foldlM (applyEvent H ctx) s = .ok s') (ht : es'.foldlM (applyEvent H ctx) t = .ok t') :
    Agrees contour.contains s' t' := by
  induction hadds generalizing s t with
  | nil =>
    cases hs
    cases ht
    exact h
  | keep e _ ih =>
    obtain ⟨u, hu, hs⟩ := bind_ok.mp hs
    obtain ⟨v, hv, ht⟩ := bind_ok.mp ht
    exact ih (h.both hu hv) hs ht
  | add he _ ih =>
    obtain ⟨v, hv, ht⟩ := bind_ok.mp ht
    exact ih (h.outside he hv) hs ht

theorem lastOf_run {dates : List Date} (h : LastOf dates s.coverage) (hs : es.foldlM (applyEvent H ctx) s = .ok s') :
    LastOf (dates ++ es.filterMap fun e => e.dates.effectiveDate) s'.coverage := by
  induction es generalizing s dates with
  | nil =>
    cases hs
    simpa using h
  | cons e es ih =>
    obtain ⟨u, hu, hs⟩ := bind_ok.mp hs
    have hstep : LastOf (dates ++ e.dates.effectiveDate.toList) u.coverage := by
      rw [(applyEvent_parts hu).2.2.2.2.2]
      exact h.observe
    have hrest := ih hstep hs
    rw [List.append_assoc] at hrest
    cases hdate : e.dates.effectiveDate <;> simpa [hdate, List.filterMap_cons] using hrest

end

/-! ### The report -/

/-- A defect that the state itself shows for an account. -/
def DefectAt (s : LedgerState) (account : AccountId) : Prop :=
  account ∈ s.coverage.restoredAccounts ∨
  (∃ (instrument : InstrumentId) (l : InstrumentLots), s.book.entries[(⟨account, instrument⟩ : LotKey)]? = some l ∧
    l.gap = some .amortisationAllocationUnknown) ∨
  ∃ (currency : CurrencyCode) (amount : PostedMinor), s.balances.cash[(⟨account, currency⟩ : CashKey)]? = some amount ∧
    amount.raw < 0

open Returns

section
variable {Rate Metrics : Type} (rules : ReportRules Rate Metrics) (request : ReportRequest)

/-- A defect of the accounts of the contour or of the request. -/
def OwnDefect (s : LedgerState) : Prop :=
  (∃ account, request.contour.contains account = true ∧ DefectAt s account) ∨
  (positionCoverage (positionValues s request.toReturnsRequest)).uncovered ≠ [] ∨
  ((rules.accruedMismatch (positionValues s request.toReturnsRequest) request).any BondIssue.isDefect ||
    (weighedValues s request).any (fun entry => (accountIssues request entry.1 entry.2).any MaterialIssue.isDefect) ||
    (rules.unresolvedOffers request).any BondIssue.isDefect ||
    (historicalReconciliationIssues rules s request).any BondIssue.isDefect) = true

/-- A defect of an account that is not in the contour. -/
def OutsideDefect (s : LedgerState) : Prop := ∃ account, request.contour.contains account = false ∧ DefectAt s account

/-- What the claim is about: the figures and the status. -/
structure Unchanged (s t : LedgerState) : Prop where
  contributed : (returnsReportWithBondInputs rules t request).contributed = (returnsReportWithBondInputs rules s request).contributed
  withdrawn : (returnsReportWithBondInputs rules t request).withdrawn = (returnsReportWithBondInputs rules s request).withdrawn
  terminalValue : (returnsReportWithBondInputs rules t request).terminalValue =
    (returnsReportWithBondInputs rules s request).terminalValue
  xirr : (returnsReportWithBondInputs rules t request).xirr = (returnsReportWithBondInputs rules s request).xirr
  bondMetrics : (returnsReportWithBondInputs rules t request).bondMetrics =
    (returnsReportWithBondInputs rules s request).bondMetrics
  status : (returnsReportWithBondInputs rules t request).dataQuality.status =
    (returnsReportWithBondInputs rules s request).dataQuality.status

end

section
variable {Rate Metrics : Type} {rules : ReportRules Rate Metrics} {request : ReportRequest} {s t : LedgerState}

theorem stateIssues_any : (stateIssues s).any MaterialIssue.isDefect = true ↔ ∃ account, DefectAt s account := by
  simp only [stateIssues, List.any_append, List.any_map, Bool.or_eq_true, List.any_eq_true, Function.comp_apply,
    Std.ExtTreeSet.mem_toList, List.mem_filter, Option.mem_toList, MaterialIssue.isDefect, and_true, Balances.iterCash,
    List.mem_map, Bool.false_eq_true, and_false, exists_false, or_false, decide_eq_true_eq]
  constructor
  · rintro ((⟨account, hrestored⟩ | ⟨⟨key, l⟩, hentry, hgap⟩) | ⟨_, ⟨⟨key, amount⟩, hentry, rfl⟩, hnegative⟩)
    · exact ⟨account, .inl hrestored⟩
    · exact ⟨key.account, .inr (.inl ⟨key.instrument, l, Std.ExtTreeMap.mem_toList_iff_getElem?_eq_some.mp hentry, hgap⟩)⟩
    · exact ⟨key.account, .inr (.inr
        ⟨key.currency, amount, Std.ExtTreeMap.mem_toList_iff_getElem?_eq_some.mp hentry, hnegative⟩)⟩
  · rintro ⟨account, hrestored | ⟨instrument, l, hentry, hgap⟩ | ⟨currency, amount, hentry, hnegative⟩⟩
    · exact .inl (.inl ⟨account, hrestored⟩)
    · exact .inl (.inr ⟨(_, l), Std.ExtTreeMap.mem_toList_iff_getElem?_eq_some.mpr hentry, hgap⟩)
    · exact .inr ⟨_, ⟨(_, amount), Std.ExtTreeMap.mem_toList_iff_getElem?_eq_some.mpr hentry, rfl⟩, hnegative⟩

variable (request) in
/-- Every defect of the state is one of the contour or one outside. -/
theorem exists_defectAt : (∃ account, DefectAt s account) ↔
    (∃ account, request.contour.contains account = true ∧ DefectAt s account) ∨ OutsideDefect request s := by
  constructor
  · rintro ⟨account, hdefect⟩
    cases hin : request.contour.contains account with
    | true => exact .inl ⟨account, hin, hdefect⟩
    | false => exact .inr ⟨account, hin, hdefect⟩
  · rintro (⟨account, -, hdefect⟩ | ⟨account, -, hdefect⟩)
    · exact ⟨account, hdefect⟩
    · exact ⟨account, hdefect⟩

theorem not_outsideDefect (h : (stateIssues s).any MaterialIssue.isDefect = false) : ¬ OutsideDefect request s := by
  intro hdefect
  cases h.symm.trans (stateIssues_any.mpr ((exists_defectAt request).mpr (.inr hdefect)))

/-- The status of data without a defect. -/
def weightStatus (s : LedgerState) (request : ReportRequest) : DataQualityStatus :=
  let nav := ((weighedValues s request).foldl (addShares request) {}).finish
  if nav.provisional = 0 ∧ nav.discrepant = 0 then .clean else .mixed

/-- The defects that the report counts, with the positions that have no value. -/
theorem counted_iff : ((positionCoverage (positionValues s request.toReturnsRequest)).uncovered ≠ [] ∨
    (reportedQuality rules s request).materialIssues.any MaterialIssue.isDefect = true) ↔
      OwnDefect rules request s ∨ OutsideDefect request s := by
  have hbond : ∀ issues : List BondIssue, (issues.map MaterialIssue.bond).any MaterialIssue.isDefect =
      issues.any BondIssue.isDefect := fun issues => List.any_map
  simp only [reportedQuality, dataQuality, List.any_append, hbond, List.any_flatMap, Bool.or_eq_true, stateIssues_any,
    exists_defectAt request, OwnDefect]
  exact iff_of_eq (by ac_rfl)

theorem status_of_defect (h : OwnDefect rules request s ∨ OutsideDefect request s) :
    (reportedQuality rules s request).status = .incomplete := by
  rcases counted_iff.mpr h with hcovered | hissue
  · have hquality : (dataQuality rules s request).status = .incomplete := if_pos (.inl hcovered)
    simp only [reportedQuality, hquality, ite_self]
  · exact if_pos hissue

theorem status_of_no_defect (h : ¬ (OwnDefect rules request s ∨ OutsideDefect request s)) :
    (reportedQuality rules s request).status = weightStatus s request := by
  obtain ⟨hcovered, hissue⟩ := not_or.mp (mt counted_iff.mp h)
  have hissues : ¬ (dataQuality rules s request).materialIssues.any MaterialIssue.isDefect = true := by
    intro hany
    refine hissue ?_
    simp only [reportedQuality, List.any_append, hany, Bool.true_or]
  calc (reportedQuality rules s request).status = (dataQuality rules s request).status := if_neg hissue
    _ = weightStatus s request := if_neg (not_or.mpr ⟨hcovered, hissues⟩)

theorem weightStatus_ne_incomplete : weightStatus s request ≠ .incomplete := by
  simp only [weightStatus]
  split <;> simp

theorem positionValues_eq (h : Agrees request.contour.contains s t) :
    positionValues t request.toReturnsRequest = positionValues s request.toReturnsRequest := by
  have hentries : ∀ u : LedgerState, (u.balances.iterPositions.filter fun entry =>
      request.contour.contains entry.1.account && !entry.2.isZero) =
      (u.balances.positions.toList.filter fun entry => request.contour.contains entry.1.account).filter
        fun entry => !entry.2.isZero := by
    intro u
    rw [List.filter_filter]
    simp only [Balances.iterPositions, Bool.and_comm]
  have hassess : assess t request.toReturnsRequest = assess s request.toReturnsRequest := by
    funext entry
    simp only [assess, decisionOf, h.prices]
  have hpositions := Tree.filter_toList_congr (fun key : PositionKey => request.contour.contains key.account) h.balances.positions
  simp only [positionValues, positionAssessments, hentries, hassess]
  rw [hpositions]

theorem contourCash_eq (h : Agrees request.contour.contains s t) :
    contourCash t request.toReturnsRequest = contourCash s request.toReturnsRequest := by
  have hcash := Tree.filter_toList_congr (fun key : CashKey => request.contour.contains key.account) h.balances.cash
  simp only [contourCash, Balances.iterCash, List.filter_map, Function.comp_def]
  rw [hcash]

theorem flowSeries_eq (h : Agrees request.contour.contains s t) (hlast : t.coverage.lastEvent = s.coverage.lastEvent) :
    flowSeries t request.toReturnsRequest = flowSeries s request.toReturnsRequest := by
  simp only [flowSeries, guardStateNotNewer, flowsUpTo, hlast, h.external]

theorem accountValues_eq (h : Agrees request.contour.contains s t) (hlast : t.coverage.lastEvent = s.coverage.lastEvent) :
    accountValues t request.toReturnsRequest = accountValues s request.toReturnsRequest := by
  simp only [accountValues, guardStateNotNewer, hlast, contourCash_eq h, positionValues_eq h]

theorem terminalValue_eq (h : Agrees request.contour.contains s t) (hlast : t.coverage.lastEvent = s.coverage.lastEvent) :
    terminalValue t request.toReturnsRequest = terminalValue s request.toReturnsRequest := by
  simp only [terminalValue, accountValues_eq h hlast]

theorem weighedValues_eq (h : Agrees request.contour.contains s t) (hlast : t.coverage.lastEvent = s.coverage.lastEvent) :
    weighedValues t request = weighedValues s request := by
  simp only [weighedValues, accountValues_eq h hlast]

theorem bondPositionMetrics_eq (h : Agrees request.contour.contains s t) :
    bondPositionMetrics rules t request = bondPositionMetrics rules s request := by
  simp only [bondPositionMetrics, positionValues_eq h]
  refine congrArg (fun f => (positionValues s request.toReturnsRequest).filterMap f) (funext fun position => ?_)
  cases hin : request.contour.contains position.assessment.account with
  | false => rfl
  | true => rw [(h.book _ hin).entries _ rfl]

theorem historical_eq (h : Agrees request.contour.contains s t) :
    historicalReconciliationIssues rules t request = historicalReconciliationIssues rules s request := by
  have hentries := Tree.filter_toList_congr (fun key : LotKey => request.contour.contains key.account)
    fun key hkey => (h.book key.account hkey).entries key rfl
  simp only [historicalReconciliationIssues]
  rw [← hentries]
  refine congrArg rules.collapse (List.flatMap_congr fun entry hentry => ?_)
  have hin : request.contour.contains entry.1.account = true := (List.mem_filter.mp hentry).2
  rw [h.income _ hin, h.coverage.firstEvents _ hin]

theorem defectAt_iff (h : Agrees request.contour.contains s t) {account : AccountId}
    (hin : request.contour.contains account = true) : DefectAt t account ↔ DefectAt s account := by
  have hentries : ∀ instrument : InstrumentId, t.book.entries[(⟨account, instrument⟩ : LotKey)]? =
      s.book.entries[(⟨account, instrument⟩ : LotKey)]? := fun instrument => ((h.book account hin).entries _ rfl).symm
  have hcash : ∀ currency : CurrencyCode, t.balances.cash[(⟨account, currency⟩ : CashKey)]? =
      s.balances.cash[(⟨account, currency⟩ : CashKey)]? := fun currency => (h.balances.cash _ hin).symm
  simp only [DefectAt, hentries, hcash, h.coverage.restored account hin]

/-- The defects of the contour are those that it had. -/
theorem ownDefect_iff (h : Agrees request.contour.contains s t) (hlast : t.coverage.lastEvent = s.coverage.lastEvent) :
    OwnDefect rules request t ↔ OwnDefect rules request s := by
  have hstate : (∃ account, request.contour.contains account = true ∧ DefectAt t account) ↔
      ∃ account, request.contour.contains account = true ∧ DefectAt s account :=
    exists_congr fun account => and_congr_right fun hin => defectAt_iff h hin
  simp only [OwnDefect, hstate, positionValues_eq h, historical_eq h, weighedValues_eq h hlast]

theorem weightStatus_eq (h : Agrees request.contour.contains s t) (hlast : t.coverage.lastEvent = s.coverage.lastEvent) :
    weightStatus t request = weightStatus s request := by
  rw [weightStatus, weightStatus, weighedValues_eq h hlast]

/-- The status stays exactly when it was incomplete anyway, or there is a defect outside both before and after, or
    neither before nor after. -/
theorem status_eq_iff (h : Agrees request.contour.contains s t) (hlast : t.coverage.lastEvent = s.coverage.lastEvent) :
    (reportedQuality rules t request).status = (reportedQuality rules s request).status ↔
      OwnDefect rules request s ∨ (OutsideDefect request s ↔ OutsideDefect request t) := by
  by_cases hown : OwnDefect rules request s
  · have hown' : OwnDefect rules request t := (ownDefect_iff h hlast).mpr hown
    rw [status_of_defect (.inl hown), status_of_defect (.inl hown')]
    exact iff_of_true rfl (.inl hown)
  · have hown' : ¬ OwnDefect rules request t := mt (ownDefect_iff h hlast).mp hown
    rw [or_iff_right hown]
    by_cases hs : OutsideDefect request s <;> by_cases ht : OutsideDefect request t
    · rw [status_of_defect (.inr hs), status_of_defect (.inr ht)]
      exact iff_of_true rfl (iff_of_true hs ht)
    · rw [status_of_defect (.inr hs), status_of_no_defect (not_or.mpr ⟨hown', ht⟩)]
      exact iff_of_false weightStatus_ne_incomplete fun hiff => ht (hiff.mp hs)
    · rw [status_of_no_defect (not_or.mpr ⟨hown, hs⟩), status_of_defect (.inr ht)]
      exact iff_of_false (Ne.symm weightStatus_ne_incomplete) fun hiff => hs (hiff.mpr ht)
    · rw [status_of_no_defect (not_or.mpr ⟨hown, hs⟩), status_of_no_defect (not_or.mpr ⟨hown', ht⟩)]
      exact iff_of_true (weightStatus_eq h hlast) (iff_of_false hs ht)

variable {H : Hashing} {ctx : ProjectionContext} {events events' effective effective' : List Event}
  {p p' : Projection H}

/-- An event outside both contours, of a day within the history. -/
structure Added (contour contour' : ContourDefinition) (history : Coverage) (e : Event) : Prop where
  outside : Outside contour contour' e
  within : ∃ date first last, e.dates.effectiveDate = some date ∧ history.firstEvent = some first ∧
    history.lastEvent = some last ∧ first ≤ date ∧ date ≤ last

theorem agrees_refl (inside : AccountId → Bool) (s : LedgerState) : Agrees inside s s :=
  ⟨⟨fun _ _ => rfl, fun _ _ => rfl⟩, fun _ _ => ⟨fun _ _ => rfl, rfl, rfl, rfl⟩, rfl, fun _ _ => rfl, rfl,
    ⟨fun _ _ => rfl, fun _ _ => Iff.rfl⟩⟩

theorem lastOf_project (hres : resolve events = .ok effective) (hp : project H ctx events = .ok p) :
    LastOf (effective.filterMap fun e => e.dates.effectiveDate) p.snapshot.state.coverage := by
  rw [Incremental.project_of_resolve hres] at hp
  have hstart : LastOf [] (Incremental.start ctx).coverage :=
    ⟨fun date hdate => absurd hdate List.not_mem_nil, fun last hlast => nomatch hlast⟩
  simpa using lastOf_run hstart (Incremental.fold_ok hp).1

/-- Days within the history do not move its last day. -/
theorem lastEvent_eq (hres : resolve events = .ok effective) (hres' : resolve events' = .ok effective')
    (hadds : Search.Adds (Added ctx.contour request.contour p.snapshot.state.coverage) effective effective')
    (hp : project H ctx events = .ok p) (hp' : project H ctx events' = .ok p') :
    p'.snapshot.state.coverage.lastEvent = p.snapshot.state.coverage.lastEvent := by
  refine (lastOf_project hres hp).unique (lastOf_project hres' hp') ?_ ?_
  · exact fun date hdate => (hadds.sublist.filterMap _).subset hdate
  · intro date hdate
    obtain ⟨e, he, hedate⟩ := List.mem_filterMap.mp hdate
    rcases hadds.mem he with hold | hadded
    · exact .inl (List.mem_filterMap.mpr ⟨e, hold, hedate⟩)
    · obtain ⟨date', first, last, hdate', -, hlast, -, hle⟩ := hadded.within
      cases hedate.symm.trans hdate'
      exact .inr ⟨last, hlast, hle⟩

end

/-! ### A second account beside the one of the report -/

def insideDeposits : List Event := [Incremental.depositOn ⟨1⟩ ⟨0⟩, Incremental.depositOn ⟨2⟩ ⟨2⟩]

/-- Money of the second account on the day between: a deposit, or what it opened with. -/
def outsideEvent (opening : Bool) : Event :=
  eventWith ⟨3⟩ ⟨2⟩ ⟨1⟩ 0 (if opening then .openingCash ⟨.new 700, .rub⟩ else .cashIn ⟨.new 700, .rub⟩)
    [.cash ⟨2⟩ ⟨.new 700, .rub⟩]

def withOutside (opening : Bool) : List Event := insideDeposits ++ [outsideEvent opening]

/-- The effective events: those of the day between stand between. -/
def effectiveWith (opening : Bool) : List Event :=
  [Incremental.depositOn ⟨1⟩ ⟨0⟩, outsideEvent opening, Incremental.depositOn ⟨2⟩ ⟨2⟩]

def oneAccountReport : ReportRequest where
  contour := oneAccount.contour
  asOf := ⟨3⟩
  reportCurrency := .rub
  fx := .new .cbrOfficial
  coordinate := ⟨⟨0⟩, 1, 1⟩
  marketPrices := []
  bondSchedules := ∅
  ledger := ⟨[], []⟩
  financing := ∅

theorem outside_outsideEvent (opening : Bool) : Outside oneAccount.contour oneAccountReport.contour (outsideEvent opening) := by
  have hcontour : oneAccount.contour.contains ⟨2⟩ = false := by decide
  refine ⟨fun account haccount => ?_, fun i p c q hkind => ?_⟩
  · have htwo : account = ⟨2⟩ := by
      cases opening <;> simpa [touchedAccounts, outsideEvent, eventWith, EventKind.flowEndpoints, Leg.cash] using haccount
    rw [htwo]
    exact ⟨hcontour, hcontour⟩
  · cases opening <;> cases hkind

/-- Both journals are projected, and what the second adds is outside. -/
theorem exists_projections (opening : Bool) : ∃ p p' : Projection .transparent,
    resolve insideDeposits = .ok insideDeposits ∧ resolve (withOutside opening) = .ok (effectiveWith opening) ∧
    Search.Adds (Added oneAccount.contour oneAccountReport.contour p.snapshot.state.coverage) insideDeposits
      (effectiveWith opening) ∧
    project .transparent oneAccount insideDeposits = .ok p ∧
    project .transparent oneAccount (withOutside opening) = .ok p' := by
  obtain ⟨p, hp⟩ := exists_ok (x := project .transparent oneAccount insideDeposits) (by decide)
  obtain ⟨p', hp'⟩ := exists_ok (x := project .transparent oneAccount (withOutside opening))
    (by cases opening <;> decide)
  have hfirst : p.snapshot.state.coverage.firstEvent = some ⟨0⟩ :=
    read_of_ok hp (fun p => p.snapshot.state.coverage.firstEvent) (by decide)
  have hlast : p.snapshot.state.coverage.lastEvent = some ⟨2⟩ :=
    read_of_ok hp (fun p => p.snapshot.state.coverage.lastEvent) (by decide)
  have hadded : Added oneAccount.contour oneAccountReport.contour p.snapshot.state.coverage (outsideEvent opening) :=
    ⟨outside_outsideEvent opening, ⟨1⟩, ⟨0⟩, ⟨2⟩, rfl, hfirst, hlast, by decide, by decide⟩
  refine ⟨p, p', by decide, by cases opening <;> decide, ?_, hp, hp'⟩
  exact .keep _ (.add hadded (.keep _ .nil))

end OutsideAccounts
end Iaam
