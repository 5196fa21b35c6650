import Iaam.Theorems.MoneyFlowIdentity

/-! Two readings of the money that crosses the boundary: the report takes it from the kinds of the events, the
flow log from the legs on the accounts of the contour. For events with the legs of their kind they agree. -/

namespace Iaam

/-! ### The flow log -/

/-- The signed external amounts that are recorded in a currency, with dates in the window. -/
def FlowLog.externalIn (log : FlowLog) (window : DateWindow) (c : CurrencyCode) : Int :=
  ((log.external.filter fun flow => flow.amount.currency = c && window.covers flow.date).map
    fun flow => flow.amount.amount.raw).sum

def FlowClass.isExternal : FlowClass → Bool
  | externalIn .. | externalOut .. => true
  | internal | indeterminate .. | irrelevant => false

namespace MoneyFlow
open Outcome

variable {contour : ContourDefinition} {window : DateWindow} {categories : CategoryIndex} {events : List Event}
  {flow : MoneyFlow}

/-- What an event moves on the accounts of the contour, in a currency. -/
def movedInside (contour : ContourDefinition) (c : CurrencyCode) (e : Event) : Int :=
  (e.movements.map fun m => if contour.contains m.key.account ∧ m.key.currency = c then m.minor else 0).sum

/-- What an event moves across the boundary. -/
def crossing (contour : ContourDefinition) (window : DateWindow) (c : CurrencyCode) (e : Event) : Int :=
  if (classify contour e).isExternal && e.dates.effectiveDate.any window.covers then movedInside contour c e else 0

theorem contourCashEffect_ok {e : Event} {effects : List (CurrencyCode × PostedMinor)} (c : CurrencyCode)
    (h : contourCashEffect e contour = .ok effects) :
    ((effects.filter fun effect => effect.1 = c).map fun effect => effect.2.raw).sum = movedInside contour c e := by
  obtain ⟨totals, htotals, h⟩ := bind_ok.mp h
  cases h
  have hrun := (Runs.foldlM_ok.mp htotals).adds (fun totals => sumOver totals (· = c))
    (fun leg => (leg.movement.map fun m => if contour.contains m.key.account ∧ m.key.currency = c then m.minor else 0).getD 0)
    fun {s leg t} _ hstep => by
      unfold Leg.movement
      cases hin : contour.contains leg.account <;> cases hm : leg.cashEffect <;> rw [hin, hm] at hstep
      · cases hstep
        simp
      · cases hstep
        simp [hin]
      · cases hstep
        simp
      · next money =>
        dsimp only at hstep
        cases hsum : (s[money.currency]?.getD .zero).checkedAdd money.amount with
        | none =>
          rw [hsum] at hstep
          cases hstep
        | some sum =>
          rw [hsum] at hstep
          cases hstep
          have hadd : Added s (s.insert money.currency sum) money.currency money.amount.raw :=
            ⟨sum, PostedMinor.ofInt_eq_some.mp hsum, rfl⟩
          rw [hadd.sumOver (· = c)]
          simp [hin]
  have hmoved : movedInside contour c e = (e.legs.map fun leg => (leg.movement.map fun m =>
      if contour.contains m.key.account ∧ m.key.currency = c then m.minor else 0).getD 0).sum := by
    unfold movedInside Event.movements
    induction e.legs with
    | nil => rfl
    | cons leg legs ih =>
      rw [List.filterMap_cons]
      cases hm : leg.movement with
      | none => simp [hm, ih]
      | some m => simp [hm, ih]
  have hentries := sum_filter_entries totals fun currency amount => currency = c && amount.raw ≠ 0
  have hzero : (Tree.total totals fun currency amount => if (currency = c && amount.raw ≠ 0) then amount.raw else 0) =
      sumOver totals (· = c) := by
    unfold sumOver
    congr 1
    funext currency amount
    by_cases hz : amount.raw = 0 <;> simp [hz]
  rw [hmoved, List.filter_filter, hentries, hzero, hrun]
  simp [sumOver]

theorem recordEach_ok {log log' : FlowLog} {id : EventId} {date : Date} {direction : FlowDirection}
    {contourId : ContourId} {version : Nat} {effects : List (CurrencyCode × PostedMinor)}
    (h : effects.foldlM (fun (log : FlowLog) (currency, amount) => do
      let money : Money := ⟨amount, currency⟩
      requireSignMatches id direction money
      let flow : ExternalFlow := ⟨id, date, money, direction, contourId, version⟩
      return { log with external := log.external ++ [flow] }) log = .ok log') :
    log'.external = log.external ++ effects.map fun effect =>
      ⟨id, date, ⟨effect.2, effect.1⟩, direction, contourId, version⟩ := by
  induction effects generalizing log with
  | nil =>
    cases h
    simp
  | cons effect effects ih =>
    obtain ⟨next, hnext, h⟩ := bind_ok.mp h
    obtain ⟨_, -, hnext⟩ := bind_ok.mp hnext
    cases hnext
    rw [ih h]
    simp

/-- The flows an event records, one for each currency. -/
theorem record_ok {log log' : FlowLog} {e : Event} {direction : FlowDirection} {id : ContourId} {version : Nat}
    (h : log.record e contour direction id version = .ok log') :
    ∃ date effects, e.dates.effectiveDate = some date ∧ contourCashEffect e contour = .ok effects ∧
      log'.external = log.external ++ effects.map fun effect =>
        ⟨e.id, date, ⟨effect.2, effect.1⟩, direction, id, version⟩ := by
  unfold FlowLog.record at h
  cases hd : e.dates.effectiveDate with
  | none =>
    rw [hd] at h
    cases h
  | some date =>
    rw [hd] at h
    obtain ⟨_, hdate, h⟩ := bind_ok.mp h
    cases hdate
    obtain ⟨effects, heffects, h⟩ := bind_ok.mp h
    exact ⟨date, effects, rfl, heffects, recordEach_ok h⟩

theorem externalIn_record {log log' : FlowLog} {e : Event} {direction : FlowDirection} {id : ContourId} {version : Nat}
    (c : CurrencyCode) (h : log.record e contour direction id version = .ok log') :
    log'.externalIn window c = log.externalIn window c +
      if e.dates.effectiveDate.any window.covers then movedInside contour c e else 0 := by
  obtain ⟨date, effects, hdate, heffects, hexternal⟩ := record_ok h
  unfold FlowLog.externalIn
  rw [hexternal, List.filter_append, List.map_append, List.sum_append, hdate, ← contourCashEffect_ok c heffects,
    List.filter_map, List.map_map]
  cases hcovers : window.covers date with
  | false => simp [Function.comp_def, hcovers]
  | true => simp [Function.comp_def, hcovers]

theorem externalIn_apply {log log' : FlowLog} {e : Event} (c : CurrencyCode) (h : log.apply e contour = .ok log') :
    log'.externalIn window c = log.externalIn window c + crossing contour window c e := by
  unfold FlowLog.apply at h
  unfold crossing
  cases hc : classify contour e <;> rw [hc] at h
  case externalIn id version =>
    rw [externalIn_record c h]
    simp [FlowClass.isExternal]
  case externalOut id version =>
    rw [externalIn_record c h]
    simp [FlowClass.isExternal]
  all_goals
    cases h
    split <;> simp [FlowClass.isExternal, FlowLog.externalIn]

/-! ### The two agree -/

/-- Only deposits, withdrawals, refunds and transfers cross the boundary. -/
theorem crossing_kind {e : Event} (h : (classify contour e).isExternal = true) :
    (∃ amount, e.kind = .cashIn amount ∨ e.kind = .cashOut amount ∨ e.kind = .refund amount) ∨
      ∃ id source target amount, e.kind = .cashTransfer id source target amount := by
  unfold classify at h
  cases hk : e.kind <;> rw [hk] at h <;> simp only [EventKind.flowEndpoints] at h
  case cashIn amount => exact Or.inl ⟨amount, Or.inl rfl⟩
  case cashOut amount => exact Or.inl ⟨amount, Or.inr (Or.inl rfl)⟩
  case refund amount => exact Or.inl ⟨amount, Or.inr (Or.inr rfl)⟩
  case cashTransfer id source target amount => exact Or.inr ⟨id, source, target, amount, rfl⟩
  all_goals split at h <;> cases h

/-- What comes in or goes out of what a movement brings, in a currency. -/
def externalOn (c : CurrencyCode) (quantity : Option Quantity) (key : CashKey) (minor : Int) : Int :=
  if (quantity = some .cameIn ∨ quantity = some .wentOut) ∧ key.currency = c then minor else 0

theorem reading_external (c : CurrencyCode) :
    Reading (fun flow => sumOver flow.cameIn (·.currency = c) - sumOver flow.wentOut (·.currency = c))
      (externalOn c) where
  unstated := fun _ _ => rfl
  moved := fun {flow flow' quantity key minor} h => by
    have hin := h.sumOver_ledger .cameIn (·.currency = c)
    have hout := h.sumOver_ledger .wentOut (·.currency = c)
    simp only [ledgerOf, Quantity.signed] at hin hout
    unfold externalOn
    rw [hin, hout]
    by_cases hc : key.currency = c
    · rcases quantity with _ | _ | _ <;> simp [hc] <;> ring
    · simp [hc]

/-- An event that crosses the boundary with the legs of its kind has all of them counted as in or out. -/
theorem external_crossing {e : Event} (he : e.CarriesItsLegs) (hext : (classify contour e).isExternal = true)
    (c : CurrencyCode) :
    (e.legs.map (legShare (externalOn c) contour e)).sum = movedInside contour c e := by
  obtain ⟨charges, hcharges, hperm⟩ := he
  have hcash : ∀ m ∈ e.movements, m.kind = .cash := fun m hm => by
    rcases List.mem_append.mp (hperm.mem_iff.mp hm) with hm | hm
    · rcases crossing_kind hext with ⟨amount, hk | hk | hk⟩ | ⟨id, source, target, amount, hk⟩ <;>
        simp only [Event.kindMovements, hk, List.mem_cons, List.not_mem_nil, or_false] at hm
      · rw [hm]
      · rw [hm]
      · rw [hm]
      · rcases hm with hm | hm <;> rw [hm]
    · have hcharge := (hcharges m hm).2.2
      rcases crossing_kind hext with ⟨amount, hk | hk | hk⟩ | ⟨id, source, target, amount, hk⟩ <;>
        rw [hk] at hcharge <;> cases hcharge
  have hquantity : quantityOf e.kind (classify contour e) .cash = some .cameIn ∨
      quantityOf e.kind (classify contour e) .cash = some .wentOut := by
    rcases crossing_kind hext with ⟨amount, hk | hk | hk⟩ | ⟨id, source, target, amount, hk⟩ <;> rw [hk]
    · exact Or.inl rfl
    · exact Or.inr rfl
    · exact Or.inr rfl
    · cases hc : classify contour e <;> rw [hc] at hext <;> try cases hext
      · exact Or.inl rfl
      · exact Or.inr rfl
  rw [legShares_eq]
  unfold movedInside
  refine congrArg List.sum (List.map_congr_left fun m hm => ?_)
  unfold movementShare externalOn
  rw [hcash m hm]
  by_cases hin : contour.contains m.key.account = true <;> simp [hin, hquantity]

/-- Within the contour no leg comes in or goes out. -/
theorem external_within {e : Event} (hext : (classify contour e).isExternal = false)
    (hclass : classify contour e ≠ .irrelevant) (kind : LegKind) :
    quantityOf e.kind (classify contour e) kind ≠ some .cameIn ∧
      quantityOf e.kind (classify contour e) kind ≠ some .wentOut := by
  unfold classify at hext hclass ⊢
  cases hk : e.kind <;> rw [hk] at hext hclass <;> simp only [EventKind.flowEndpoints] at hext hclass ⊢
  case cashIn => split_ifs at hext hclass <;> simp_all [FlowClass.isExternal]
  case cashOut => split_ifs at hext hclass <;> simp_all [FlowClass.isExternal]
  case refund => split_ifs at hext hclass <;> simp_all [FlowClass.isExternal]
  case cashTransfer id source target amount =>
    cases hs : contour.contains source <;> cases ht : contour.contains target <;>
      simp [hs, ht, FlowClass.isExternal] at hext hclass ⊢
    cases kind <;> simp [quantityOf]
  all_goals cases kind <;> simp [quantityOf]

theorem external_event {e : Event} (he : e.CarriesItsLegs) (c : CurrencyCode) :
    eventShare (externalOn c) contour window e = crossing contour window c e := by
  unfold eventShare crossing
  by_cases hclass : classify contour e = .irrelevant
  · simp [counts, hclass, FlowClass.isExternal]
  · cases hext : (classify contour e).isExternal with
    | true =>
      rw [external_crossing he hext]
      simp [counts, hclass]
    | false =>
      have hshare : ∀ m ∈ e.movements, movementShare (externalOn c) contour e m = 0 := fun m _ => by
        unfold movementShare externalOn
        simp [external_within hext hclass]
      rw [legShares_eq, List.sum_eq_zero fun n hn => by
        obtain ⟨m, hm, rfl⟩ := List.mem_map.mp hn
        exact hshare m hm]
      simp

/-- What came in less what went out is what the flow log records in the window, in every currency. -/
theorem external_agrees (hlegs : ∀ e ∈ events, e.CarriesItsLegs)
    (h : events.foldlM (apply contour window categories) new = .ok flow) {log : FlowLog}
    (hlog : events.foldlM (fun log e => log.apply e contour) FlowLog.empty = .ok log) {c : CurrencyCode}
    {cameIn wentOut : Money} (hin : flow.cameInTotal c = .ok cameIn) (hout : flow.wentOutTotal c = .ok wentOut) :
    cameIn.amount.raw - wentOut.amount.raw = log.externalIn window c := by
  have hflow := run_adds (reading_external c) h
  have hcross := (Runs.foldlM_ok.mp hlog).adds (fun log => log.externalIn window c) (crossing contour window c)
    fun _ hstep => externalIn_apply c hstep
  have hshares : events.map (eventShare (externalOn c) contour window) = events.map (crossing contour window c) :=
    List.map_congr_left fun e he => external_event (hlegs e he) c
  rw [total_ok hin, total_ok hout, hflow, hcross, hshares]
  simp [new, sumOver, FlowLog.empty, FlowLog.externalIn]

theorem external_sampleMonth :
    ∃ flow log cameIn wentOut, sampleMonth.foldlM (apply household august noCategories) new = .ok flow ∧
      sampleMonth.foldlM (fun (log : FlowLog) e => log.apply e household) FlowLog.empty = .ok log ∧
        flow.cameInTotal .rub = .ok cameIn ∧ flow.wentOutTotal .rub = .ok wentOut ∧
          cameIn.amount.raw - wentOut.amount.raw = log.externalIn august .rub := by
  have hrun : (sampleMonth.foldlM (apply household august noCategories) new >>= fun flow => do
      let cameIn ← flow.cameInTotal .rub
      let wentOut ← flow.wentOutTotal .rub
      return (cameIn, wentOut)).isOk = true := by decide
  obtain ⟨_, hrun⟩ := exists_ok hrun
  obtain ⟨flow, h, hrun⟩ := bind_ok.mp hrun
  obtain ⟨cameIn, hin, hrun⟩ := bind_ok.mp hrun
  obtain ⟨wentOut, hout, hrun⟩ := bind_ok.mp hrun
  obtain ⟨log, hlog⟩ := exists_ok
    (show (sampleMonth.foldlM (fun (log : FlowLog) e => log.apply e household) FlowLog.empty).isOk = true by decide)
  exact ⟨flow, log, cameIn, wentOut, h, hlog, hin, hout, external_agrees sampleMonth_legs h hlog hin hout⟩

end MoneyFlow
end Iaam
