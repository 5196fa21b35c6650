import Iaam.Lib.Search
import Iaam.Valuation

/-! What candidates of the market that cannot be used do to the decision of a price. The policy passes over them, but
the old rule is asked only when there are no candidates at all. -/

namespace Iaam
namespace PriceChannels
open Search ValuationPolicyV1

/-- The policy of a decision. -/
def policyOf (inputs : PriceInputs) : ValuationPolicyV1 := { sourcePriorityVersion := inputs.sourcePriority }

/-- The market candidates that are put before the policy. -/
def InQuestion (query : PriceQuery) (c : PriceCandidate) : Prop :=
  c.instrument = query.instrument ∧ c.tradeDate ≤ query.asOf

/-- Learned of after the moment of knowledge, or traded after the date. -/
def Unknown (query : PriceQuery) (c : PriceCandidate) : Prop :=
  c.instrument = query.instrument ∧ (c.observedAt.any (query.knowledgeAsOf < ·) = true ∨ query.asOf < c.tradeDate)

/-- Traded longer ago than the maximum age. -/
def Outdated (inputs : PriceInputs) (query : PriceQuery) (c : PriceCandidate) : Prop :=
  c.instrument = query.instrument ∧ ((policyOf inputs).priceMaxAge : Int) < query.asOf.day - c.tradeDate.day

/-- The decision yields a figure. -/
def HasFigure : PriceDecision → Prop
  | .selected _ | .legacyDerived _ _ => True
  | .uncovered _ => False

/-- The journal has only determinations of the old rule, and the market has nothing to put beside them. -/
def OnlyLegacy (inputs : PriceInputs) (query : PriceQuery) : Prop :=
  inputs.board.observationsAtOrBefore query.instrument query.asOf ≠ [] ∧
    (∀ price ∈ inputs.board.observationsAtOrBefore query.instrument query.asOf,
      price.quality = .carriedForward ∨ price.quality = .stale) ∧
    ∀ c ∈ inputs.market, ¬InQuestion query c

section
variable {policy : ValuationPolicyV1} {query : PriceQuery} {c : PriceCandidate} {p : PriceCandidate → Prop}
  {l l' : List PriceCandidate}

theorem screen_unknown (h : Unknown query c) : policy.screen query c = .skipped := by
  obtain ⟨hinstrument, hlate | hfuture⟩ := h
  · unfold screen
    rw [if_neg (not_not.mpr hinstrument), if_pos hlate]
    split <;> rfl
  · unfold screen
    rw [if_neg (not_not.mpr hinstrument), if_pos hfuture]

theorem screen_outdated {inputs : PriceInputs} (h : Outdated inputs query c) (age : Nat) :
    (policyOf inputs).screen query c ≠ .matching age := by
  obtain ⟨-, hage⟩ := h
  have hold : (policyOf inputs).priceMaxAge < (query.asOf.day - c.tradeDate.day).toNat := by omega
  simp only [screen, if_pos hold]
  split_ifs <;> simp

/-- What the policy passes over changes no selection. -/
theorem nearest_adds (h : Adds p l l') (hp : ∀ c, p c → ∀ age, policy.screen query c ≠ .matching age) :
    policy.nearest query l' = policy.nearest query l := by
  unfold nearest
  rw [h.filterMap]
  intro c hc
  cases hscreen : policy.screen query c with
  | matching age => exact absurd hscreen (hp c hc age)
  | skipped => rfl
  | tooOld => rfl

theorem select_adds (h : Adds p l l') (hp : ∀ c, p c → policy.screen query c = .skipped) :
    policy.select query l' = policy.select query l := by
  have hnearest := nearest_adds h fun c hc age => by rw [hp c hc]; simp
  have hany : l'.any (fun c => policy.screen query c = .tooOld) = l.any fun c => policy.screen query c = .tooOld :=
    h.any fun c hc => by rw [hp c hc]; rfl
  unfold select
  rw [hnearest, hany]

/-- Whether a price is selected depends only on the candidates that match. -/
theorem isOk_select_adds (h : Adds p l l') (hp : ∀ c, p c → ∀ age, policy.screen query c ≠ .matching age) :
    (policy.select query l').isOk = (policy.select query l).isOk := by
  unfold select
  rw [nearest_adds h hp]
  dsimp only
  split <;> rfl

end

/-! ### The decision -/

section
variable (inputs : PriceInputs) (query : PriceQuery)

/-- The candidates of the journal. -/
def journalCandidates : List PriceCandidate :=
  (inputs.board.observationsAtOrBefore query.instrument query.asOf).filterMap fun price =>
    (journalCandidate price).candidate?

/-- The determination of the old rule. -/
def legacyQuality : Option PriceQuality :=
  ((inputs.board.observationsAtOrBefore query.instrument query.asOf).filterMap fun price =>
    (journalCandidate price).legacy?).head?

/-- All that is put before the policy. -/
def candidatesOf (market : List PriceCandidate) : List PriceCandidate :=
  journalCandidates inputs query ++ market.filter fun c => c.instrument = query.instrument ∧ c.tradeDate ≤ query.asOf

theorem decidePrice_eq (market : List PriceCandidate) :
    decidePrice { inputs with market } query =
      if candidatesOf inputs query market = [] then
        match legacyQuality inputs query with
        | some quality => .legacyDerived quality (inputs.board.observationsAtOrBefore query.instrument query.asOf).head?
        | none => .uncovered .noObservation
      else
        match (policyOf inputs).select query (candidatesOf inputs query market) with
        | .ok price => .selected price
        | .error reason => .uncovered reason := by
  simp only [decidePrice, List.filterMap_map]
  rfl

variable {inputs query}

theorem candidatesOf_eq_nil {market : List PriceCandidate} :
    candidatesOf inputs query market = [] ↔
      (∀ price ∈ inputs.board.observationsAtOrBefore query.instrument query.asOf,
        price.quality = .carriedForward ∨ price.quality = .stale) ∧ ∀ c ∈ market, ¬InQuestion query c := by
  have hlegacy : ∀ price : InstrumentPrice, (journalCandidate price).candidate? = none ↔
      price.quality = .carriedForward ∨ price.quality = .stale := by
    intro price
    cases hq : price.quality <;>
      simp [journalCandidate, candidateFromLegacyValuation, LegacyValuationOutcome.candidate?, hq]
  simp [candidatesOf, journalCandidates, InQuestion, hlegacy]

/-- With nothing to put before the policy, the old rule has determined a price wherever the journal has one. -/
theorem legacyQuality_isSome (h : candidatesOf inputs query inputs.market = []) :
    (∃ quality, legacyQuality inputs query = some quality) ↔ OnlyLegacy inputs query := by
  obtain ⟨hold, hmarket⟩ := candidatesOf_eq_nil.mp h
  cases hobs : inputs.board.observationsAtOrBefore query.instrument query.asOf with
  | nil => simp [legacyQuality, OnlyLegacy, hobs]
  | cons price rest =>
    refine iff_of_true ?_ ⟨by simp [hobs], hold, hmarket⟩
    refine ⟨price.quality, ?_⟩
    rcases hold price (by simp [hobs]) with hq | hq <;>
      simp [legacyQuality, hobs, journalCandidate, candidateFromLegacyValuation, LegacyValuationOutcome.legacy?, hq]

/-- The candidates put before the policy are those from before and the added ones that are in question. -/
theorem candidatesOf_adds (query : PriceQuery) {p : PriceCandidate → Prop} {market' : List PriceCandidate}
    (h : Adds p inputs.market market') :
    Adds p (candidatesOf inputs query inputs.market) (candidatesOf inputs query market') := by
  refine Adds.append_left _ ((h.filter _).mono fun c hc => hc.1)

theorem exists_inQuestion {market' : List PriceCandidate} (hnone : candidatesOf inputs query inputs.market = []) :
    candidatesOf inputs query market' ≠ [] ↔ ∃ c ∈ market', InQuestion query c := by
  have hold := (candidatesOf_eq_nil.mp hnone).1
  rw [ne_eq, candidatesOf_eq_nil, and_iff_right hold]
  push Not
  rfl

variable {p : PriceCandidate → Prop} {market' : List PriceCandidate}

/-- With candidates from before, what the policy skips changes nothing. -/
theorem decidePrice_adds (h : Adds p inputs.market market') (hsome : candidatesOf inputs query inputs.market ≠ [])
    (hp : ∀ c, p c → (policyOf inputs).screen query c = .skipped) :
    decidePrice { inputs with market := market' } query = decidePrice inputs query := by
  have hadds := candidatesOf_adds query h
  have hsome' : candidatesOf inputs query market' ≠ [] := by
    intro hnil
    have hsub := hadds.sublist
    rw [hnil, List.sublist_nil] at hsub
    exact hsome hsub
  rw [decidePrice_eq, decidePrice_eq inputs query inputs.market, if_neg hsome, if_neg hsome', select_adds hadds hp]

/-- With none from before, the decision is that of the old rule. -/
theorem decidePrice_none (hnone : candidatesOf inputs query inputs.market = []) :
    decidePrice inputs query =
      match legacyQuality inputs query with
      | some quality => .legacyDerived quality (inputs.board.observationsAtOrBefore query.instrument query.asOf).head?
      | none => .uncovered .noObservation := by
  rw [decidePrice_eq inputs query inputs.market, if_pos hnone]

/-- Candidates that do not match leave the position without a price, whatever the old rule has. -/
theorem uncovered_of_unmatched (hsome : candidatesOf inputs query market' ≠ [])
    (hp : ∀ c ∈ candidatesOf inputs query market', ∀ age, (policyOf inputs).screen query c ≠ .matching age) :
    ∃ reason, decidePrice { inputs with market := market' } query = .uncovered reason := by
  have hnearest : (policyOf inputs).nearest query (candidatesOf inputs query market') = [] := by
    have hadds : Adds (· ∈ candidatesOf inputs query market') [] (candidatesOf inputs query market') := Adds.all _
    rw [nearest_adds hadds hp]
    rfl
  rw [decidePrice_eq, if_neg hsome]
  unfold select
  rw [hnearest, if_pos rfl]
  exact ⟨_, rfl⟩

theorem candidatesOf_of_onlyLegacy (h : OnlyLegacy inputs query) : candidatesOf inputs query inputs.market = [] :=
  candidatesOf_eq_nil.mpr h.2

theorem decidePrice_of_onlyLegacy (h : OnlyLegacy inputs query) : ∃ quality price,
    decidePrice inputs query = .legacyDerived quality price := by
  have hnone := candidatesOf_of_onlyLegacy h
  obtain ⟨quality, hquality⟩ := (legacyQuality_isSome hnone).mpr h
  exact ⟨quality, _, by rw [decidePrice_none hnone, hquality]⟩

/-- The old rule has nothing to say, and there are no candidates. -/
theorem decidePrice_of_nothing (hnone : candidatesOf inputs query inputs.market = []) (h : ¬OnlyLegacy inputs query) :
    decidePrice inputs query = .uncovered .noObservation := by
  have hlegacy : legacyQuality inputs query = none := by
    rw [Option.eq_none_iff_forall_ne_some]
    intro quality hquality
    exact h ((legacyQuality_isSome hnone).mp ⟨quality, hquality⟩)
  rw [decidePrice_none hnone, hlegacy]

/-- Without a candidate in question the decision is the one from before. -/
theorem decidePrice_unasked (hnone : candidatesOf inputs query inputs.market = [])
    (h : ¬∃ c ∈ market', InQuestion query c) :
    decidePrice { inputs with market := market' } query = decidePrice inputs query := by
  have hnone' : candidatesOf inputs query market' = [] := not_ne_iff.mp (mt (exists_inQuestion hnone).mp h)
  rw [decidePrice_eq, decidePrice_eq inputs query inputs.market, if_pos hnone, if_pos hnone']

/-- Candidates that do not match cost the price exactly where only the old rule had one. -/
theorem hasFigure_adds_iff (h : Adds p inputs.market market')
    (hp : ∀ c, p c → ∀ age, (policyOf inputs).screen query c ≠ .matching age) :
    (HasFigure (decidePrice inputs query) → HasFigure (decidePrice { inputs with market := market' } query)) ↔
      ¬(OnlyLegacy inputs query ∧ ∃ c ∈ market', InQuestion query c) := by
  have hadds := candidatesOf_adds query h
  by_cases hnone : candidatesOf inputs query inputs.market = []
  · by_cases hasked : ∃ c ∈ market', InQuestion query c
    · rw [hnone] at hadds
      obtain ⟨reason, huncovered⟩ := uncovered_of_unmatched ((exists_inQuestion hnone).mpr hasked)
        fun c hc => hp c ((hadds.mem hc).resolve_left List.not_mem_nil)
      rw [huncovered]
      by_cases hlegacy : OnlyLegacy inputs query
      · obtain ⟨quality, price, hdecision⟩ := decidePrice_of_onlyLegacy hlegacy
        rw [hdecision]
        exact iff_of_false (fun himp => himp trivial) (not_not.mpr ⟨hlegacy, hasked⟩)
      · rw [decidePrice_of_nothing hnone hlegacy]
        exact iff_of_true id fun hboth => hlegacy hboth.1
    · rw [decidePrice_unasked hnone hasked]
      exact iff_of_true id fun hboth => hasked hboth.2
  · refine iff_of_true (fun hfigure => ?_) fun hboth => hnone (candidatesOf_of_onlyLegacy hboth.1)
    have hsome' : candidatesOf inputs query market' ≠ [] := by
      intro hnil
      have hsub := hadds.sublist
      rw [hnil, List.sublist_nil] at hsub
      exact hnone hsub
    have hok := isOk_select_adds hadds hp
    rw [decidePrice_eq inputs query inputs.market, if_neg hnone] at hfigure
    rw [decidePrice_eq, if_neg hsome']
    cases hbefore : (policyOf inputs).select query (candidatesOf inputs query inputs.market) with
    | error reason =>
      rw [hbefore] at hfigure
      exact hfigure.elim
    | ok price =>
      rw [hbefore] at hok
      obtain ⟨price', hafter⟩ := Outcome.exists_ok hok
      rw [hafter]
      trivial

/-- What the policy skips changes the decision exactly there. -/
theorem decidePrice_adds_iff (h : Adds p inputs.market market')
    (hp : ∀ c, p c → (policyOf inputs).screen query c = .skipped) :
    decidePrice { inputs with market := market' } query = decidePrice inputs query ↔
      ¬(OnlyLegacy inputs query ∧ ∃ c ∈ market', InQuestion query c) := by
  constructor
  · intro hsame
    refine (hasFigure_adds_iff h fun c hc age => by rw [hp c hc]; simp).mp ?_
    rw [hsame]
    exact id
  · intro hspared
    by_cases hnone : candidatesOf inputs query inputs.market = []
    · by_cases hasked : ∃ c ∈ market', InQuestion query c
      · have hlegacy : ¬OnlyLegacy inputs query := fun hlegacy => hspared ⟨hlegacy, hasked⟩
        have hadds := candidatesOf_adds query h
        rw [hnone] at hadds
        rw [decidePrice_of_nothing hnone hlegacy, decidePrice_eq, if_neg ((exists_inQuestion hnone).mpr hasked),
          select_adds hadds hp]
        rfl
      · exact decidePrice_unasked hnone hasked
    · exact decidePrice_adds h hnone hp

end

/-- A candidate that was not known yet, or not traded yet, leaves the decision as it is, and one that is too old takes no
    figure away, exactly when the price did not come from the old rule alone or none of them is traded by the date. -/
theorem unusable_candidates_iff (inputs : PriceInputs) (query : PriceQuery) (market' : List PriceCandidate) :
    (Adds (Unknown query) inputs.market market' →
      (decidePrice { inputs with market := market' } query = decidePrice inputs query ↔
        ¬(OnlyLegacy inputs query ∧ ∃ c ∈ market', InQuestion query c))) ∧
    (Adds (Outdated inputs query) inputs.market market' →
      ((HasFigure (decidePrice inputs query) → HasFigure (decidePrice { inputs with market := market' } query)) ↔
        ¬(OnlyLegacy inputs query ∧ ∃ c ∈ market', InQuestion query c))) := by
  constructor
  · intro h
    exact decidePrice_adds_iff h fun c hc => screen_unknown hc
  · intro h
    exact hasFigure_adds_iff h fun c hc => screen_outdated hc

/-! ### A price that was carried forward -/

/-- The journal has a price that the old rule carried forward to the date of the report. -/
def carriedBoard : PriceBoard := PriceBoard.empty.record ⟨⟨1⟩, .ofInt64 100, .rub, .carriedForward, ⟨100⟩⟩

def noMarket : PriceInputs := ⟨carriedBoard, [], 1⟩
def reportQuery : PriceQuery := ⟨⟨1⟩, ⟨100⟩, ⟨1000⟩⟩

/-- A close of the market. -/
def closeOn (day : Date) (observed : Option OffsetDateTime) : PriceCandidate :=
  ⟨⟨1⟩, .ofInt64 281, .rub, .moneyPerUnit, "moex:share", false, day, observed, .market ⟨"TQBR", 3⟩ .close,
    .indicativePreviousClose⟩

/-- A close learned of after the report, and one of eighty days before it, take the price away. -/
theorem unusable_close_costs_price :
    (∃ quality price, decidePrice noMarket reportQuery = .legacyDerived quality price) ∧
      Adds (Unknown reportQuery) noMarket.market [closeOn ⟨100⟩ (some ⟨2000⟩)] ∧
      decidePrice { noMarket with market := [closeOn ⟨100⟩ (some ⟨2000⟩)] } reportQuery = .uncovered .noObservation ∧
      Adds (Outdated noMarket reportQuery) noMarket.market [closeOn ⟨20⟩ none] ∧
      decidePrice { noMarket with market := [closeOn ⟨20⟩ none] } reportQuery = .uncovered .tooOld := by
  refine ⟨⟨.carriedForward, some ⟨⟨1⟩, .ofInt64 100, .rub, .carriedForward, ⟨100⟩⟩, by decide⟩,
    .add ⟨rfl, .inl (by decide)⟩ .nil, by decide, .add ⟨rfl, by decide⟩ .nil, by decide⟩

/-- A close of the day after the report changes nothing. -/
theorem future_close_changes_nothing :
    decidePrice { noMarket with market := [closeOn ⟨101⟩ none] } reportQuery = decidePrice noMarket reportQuery := by
  refine ((unusable_candidates_iff noMarket reportQuery [closeOn ⟨101⟩ none]).1
    (.add ⟨rfl, .inr (by decide)⟩ .nil)).mpr ?_
  rintro ⟨-, c, hc, -, htraded⟩
  cases List.mem_singleton.mp hc
  exact absurd htraded (by decide)

end PriceChannels
end Iaam
