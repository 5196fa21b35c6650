import Iaam.App.Retraction
import Iaam.Theorems.Amendments
import Iaam.Theorems.Comparison

/-! What the retraction of an import does to the reconciliation of the assertions outside it. The guard keeps the
rows of the import out of the asserted interval; a balance is folded from everything before it as well. -/

namespace Iaam
namespace Retraction
open Outcome Amendments Figures Observed Comparison TransferPairing

/-! ### What stays -/

/-- The rows of the import, and the rows that stay when it is retracted. -/
def taken (target : ImportTarget) (events : List Event) : List Event := events.filter target.covers
def kept (target : ImportTarget) (events : List Event) : List Event := events.filter fun e => !target.covers e

section
variable {target : ImportTarget} {events : List Event} {account : AccountId} {period : AssertionPeriod}

theorem rows_perm (target : ImportTarget) (events : List Event) (p : Event → Bool) :
    (events.filter p).Perm ((kept target events).filter p ++ (taken target events).filter p) := by
  rw [← List.filter_append]
  exact (List.perm_append_comm.trans (List.filter_append_perm target.covers events)).symm.filter p

theorem cashMoved_split (target : ImportTarget) (events : List Event) (p : Event → Bool) (key : CashKey) :
    cashMoved (events.filter p) key =
      cashMoved ((kept target events).filter p) key + cashMoved ((taken target events).filter p) key := by
  rw [cashMoved_perm (rows_perm target events p), cashMoved_append]

theorem quantityMoved_split (target : ImportTarget) (events : List Event) (p : Event → Bool) (key : PositionKey) :
    quantityMoved (events.filter p) key =
      quantityMoved ((kept target events).filter p) key + quantityMoved ((taken target events).filter p) key := by
  unfold quantityMoved
  rw [((rows_perm target events p).map _).sum_eq, List.map_append, List.sum_append]

/-- The import moves nothing on the account on these dates. -/
def Spares (target : ImportTarget) (events : List Event) (account : AccountId) (dates : Date → Bool) : Prop :=
  ∀ e ∈ events, target.covers e = true → e.touches account = true → dated dates e = false

theorem movesCash_touches {e : Event} {c : CurrencyCode} (h : e.movesCash ⟨account, c⟩ = true) :
    e.touches account = true := by
  simp only [Event.movesCash, Leg.movesCash, List.any_eq_true, Option.any_eq_true, decide_eq_true_eq,
    CashKey.mk.injEq] at h
  obtain ⟨leg, hleg, -, -, haccount, -⟩ := h
  exact List.any_eq_true.mpr ⟨leg, hleg, decide_eq_true haccount⟩

theorem movesPosition_touches {e : Event} {i : InstrumentId} (h : e.movesPosition ⟨account, i⟩ = true) :
    e.touches account = true := by
  simp only [Event.movesPosition, Leg.movesPosition, List.any_eq_true, Bool.and_eq_true, Option.any_eq_true,
    decide_eq_true_eq, PositionKey.mk.injEq] at h
  obtain ⟨leg, hleg, -, -, -, haccount, -⟩ := h
  exact List.any_eq_true.mpr ⟨leg, hleg, decide_eq_true haccount⟩

theorem any_rows_split (target : ImportTarget) (events : List Event) (p q : Event → Bool) :
    (events.filter p).any q = (((kept target events).filter p).any q || ((taken target events).filter p).any q) := by
  rw [← List.any_append]
  exact (rows_perm target events p).any_eq

theorem Spares.any_taken {dates : Date → Bool} (h : Spares target events account dates) {q : Event → Bool}
    (hq : ∀ e, q e = true → e.touches account = true) : ((taken target events).filter (dated dates)).any q = false := by
  rw [List.any_eq_false]
  intro e he hqe
  obtain ⟨he, hdated⟩ := List.mem_filter.mp he
  obtain ⟨he, hcovers⟩ := List.mem_filter.mp he
  rw [h e he hcovers (hq e hqe)] at hdated
  cases hdated

theorem Spares.cashFigure {dates : Date → Bool} (h : Spares target events account dates) (c : CurrencyCode) :
    cashFigure (kept target events) dates ⟨account, c⟩ = cashFigure events dates ⟨account, c⟩ := by
  have hnone := h.any_taken (q := (·.movesCash ⟨account, c⟩)) fun e he => movesCash_touches he
  unfold Observed.cashFigure
  rw [any_rows_split target events (dated dates), cashMoved_split target events (dated dates), hnone,
    cashMoved_eq_zero hnone, Bool.or_false, add_zero]

theorem Spares.positionFigure {dates : Date → Bool} (h : Spares target events account dates) (i : InstrumentId) :
    positionFigure (kept target events) dates ⟨account, i⟩ = positionFigure events dates ⟨account, i⟩ := by
  have hnone := h.any_taken (q := (·.movesPosition ⟨account, i⟩)) fun e he => movesPosition_touches he
  unfold Observed.positionFigure
  rw [any_rows_split target events (dated dates), quantityMoved_split target events (dated dates), hnone,
    quantityMoved_eq_zero hnone, Bool.or_false, add_zero]

/-- The events of the account within the interval stay. -/
theorem Spares.inside (h : Spares target events account period.contains) :
    (kept target events).filter (inside account period) = events.filter (inside account period) := by
  unfold kept
  rw [List.filter_filter]
  refine List.filter_congr fun e he => ?_
  cases hin : Observed.inside account period e with
  | false => rfl
  | true =>
    obtain ⟨hdate, htouches⟩ := Bool.and_eq_true_iff.mp hin
    cases hcovers : target.covers e with
    | false => rfl
    | true =>
      have hout := h e he hcovers htouches
      unfold dated at hdate hout
      cases hd : e.dates.effectiveDate with
      | none => simp [hd] at hdate
      | some date => simp_all

end

/-! ### The guard -/

theorem accepted {principal : Principal} {target : ImportTarget} {journal effective effectiveCovered : List Event}
    (h : undoesOnlyItsOwnDeclaration principal target journal effective effectiveCovered = .ok ()) :
    ∀ e ∈ effective, reconciledAgainst (journal.filter target.covers) e = none := by
  unfold undoesOnlyItsOwnDeclaration at h
  split at h
  · cases h
  · dsimp only at h
    split at h
    · cases h
    · split at h
      · cases h
      · split at h
        · cases h
        · next hnone =>
          intro e he
          have := List.findSome?_eq_none_iff.mp hnone e he
          simpa using this

/-- An accepted retraction takes no row of an asserted account out of the asserted interval, as long as the rows
    of the import are ordered by their effective dates. -/
theorem spares_of_accepted {principal : Principal} {target : ImportTarget}
    {journal effective effectiveCovered : List Event} (hresolve : resolve journal = .ok effective)
    (haccept : undoesOnlyItsOwnDeclaration principal target journal effective effectiveCovered = .ok ())
    (hordered : ∀ e ∈ effective, target.covers e = true → e.dates.effectiveDate = some e.order.date)
    {a : Event} {period : AssertionPeriod} {claim : ControlClaim} (ha : a ∈ effective)
    (hkind : a.kind = .controlAssertion period claim) (hoff : target.covers a = false) :
    Spares target effective a.account period.contains := by
  intro e he hcovers htouches
  have hmem := fun {e : Event} (he : e ∈ effective) => ((mem_effective hresolve).mp he).1
  have hcovered : e ∈ journal.filter target.covers := List.mem_filter.mpr ⟨hmem he, hcovers⟩
  have hnot : a.id ∉ (journal.filter target.covers).map Event.id := by
    intro hid
    obtain ⟨row, hrow, hid⟩ := List.mem_map.mp hid
    obtain ⟨hrow, hrowCovers⟩ := List.mem_filter.mp hrow
    rw [List.inj_on_of_nodup_map (resolvable_of_ok hresolve).nodup hrow (hmem ha) hid, hoff] at hrowCovers
    cases hrowCovers
  have haccount : a.account ∈ (journal.filter target.covers).flatMap touched := by
    obtain ⟨leg, hleg, haccount⟩ := List.any_eq_true.mp htouches
    refine List.mem_flatMap.mpr ⟨e, hcovered, List.mem_cons_of_mem _ (List.mem_map.mpr ⟨leg, hleg, ?_⟩)⟩
    exact of_decide_eq_true haccount
  have hclear := accepted haccept a ha
  rw [reconciledAgainst, hkind] at hclear
  simp only [hnot, haccount, not_true_eq_false, or_self, if_false] at hclear
  rw [dated_eq (hordered e he hcovers)]
  cases hcontains : period.contains e.order.date with
  | false => rfl
  | true =>
    rw [if_pos (List.any_eq_true.mpr ⟨e, hcovered, hcontains⟩)] at hclear
    cases hclear

/-! ### The retracted journal -/

section
variable {hashes : Hashes} {fresh : Event → EventId} {principal : Principal} {target : ImportTarget}
  {journal effective : List Event}

theorem amends_reversals
    (hfresh : ((journal ++ reversals hashes fresh principal target effective).map Event.id).Nodup) :
    Amends journal effective (reversals hashes fresh principal target effective) where
  fresh := hfresh
  corrects n hn := by
    obtain ⟨e, he, rfl⟩ := List.mem_map.mp hn
    exact ⟨e, List.mem_of_mem_filter he, rfl⟩
  single := by
    have hnone : replacedTargets (reversals hashes fresh principal target effective) = [] := by
      rw [List.eq_nil_iff_forall_not_mem]
      intro id hid
      obtain ⟨n, hn, hrel⟩ := mem_replacedTargets.mp hid
      obtain ⟨e, -, rfl⟩ := List.mem_map.mp hn
      cases hrel
    rw [hnone]
    exact List.nodup_nil

/-- Retracting an import leaves exactly the events outside it. -/
theorem resolve_retracted (hresolve : resolve journal = .ok effective)
    (hfresh : ((journal ++ reversals hashes fresh principal target effective).map Event.id).Nodup) :
    resolve (journal ++ reversals hashes fresh principal target effective) = .ok (kept target effective) := by
  obtain ⟨remaining, hremaining, hperm⟩ := (amends_reversals hfresh).resolve_ok hresolve (.refl _)
  have hreversals : (reversals hashes fresh principal target effective).filter
      (fun n => !n.relation.isReversal) = [] := by
    rw [List.filter_eq_nil_iff]
    intro n hn
    obtain ⟨e, -, rfl⟩ := List.mem_map.mp hn
    simp [reversalFor, reversalForWith, Relation.isReversal]
  have hkept : effective.filter (fun e => !targeted (reversals hashes fresh principal target effective) e.id) =
      kept target effective := by
    refine List.filter_congr fun e he => ?_
    rw [Bool.not_inj_iff, Bool.eq_iff_iff, targeted_iff]
    constructor
    · rintro ⟨n, hn, htarget⟩
      obtain ⟨e', he', rfl⟩ := List.mem_map.mp hn
      obtain ⟨he', hcovers⟩ := List.mem_filter.mp he'
      have hid : e'.id = e.id := Option.some.inj htarget
      rw [← List.inj_on_of_nodup_map (nodup_effective hresolve) he' he hid]
      exact hcovers
    · intro hcovers
      exact ⟨_, List.mem_map_of_mem (List.mem_filter.mpr ⟨he, hcovers⟩), rfl⟩
  rw [hreversals, List.append_nil, hkept] at hperm
  rw [hremaining, effective_eq_of_perm hremaining hperm ((sorted_effective hresolve).filter _)]

end

/-! ### When the outcomes stay -/

/-- The two comparisons give one outcome. Two levels are one when the rows of the import move nothing in all. -/
def SameCash (amount : PostedMinor) (takenAway : Int) : CashComparison → CashComparison → Prop
  | .unstated, .unstated => True
  | .level _, .level _ => takenAway = 0
  | .change stated moved, .change stated' moved' =>
    (amount.saturatingSub stated = .saturate moved ∧ amount.saturatingSub stated' = .saturate moved') ∨
      (amount.saturatingSub stated = amount.saturatingSub stated' ∧
        PostedMinor.saturate moved = .saturate moved')
  | .level held, .change stated moved | .change stated moved, .level held =>
    amount.raw = held ∧ amount.saturatingSub stated = .saturate moved
  | .unstated, _ | _, .unstated => False

def SamePosition (takenAway : ℚ) : Option ℚ → Option ℚ → Prop
  | none, none => True
  | some _, some _ => takenAway = 0
  | none, some _ | some _, none => False

/-- The retraction of the import leaves the claim what it is compared with. -/
structure Undisturbed (target : ImportTarget) (effective : List Event) (account : AccountId) (period : AssertionPeriod)
    (claim : ControlClaim) : Prop where
  /-- Something of the account stays up to the end of the interval, if there was anything. -/
  covered : (∃ e ∈ effective, dated (upTo period .closing) e = true ∧ e.touches account = true) →
    ∃ e ∈ effective, target.covers e = false ∧ dated (upTo period .closing) e = true ∧ e.touches account = true
  cash : ∀ currency amount point, claim = .cashBalance currency amount point →
    SameCash amount (cashMoved ((taken target effective).filter (dated (upTo period point))) ⟨account, currency⟩)
      (cashComparison effective account period currency point)
      (cashComparison (kept target effective) account period currency point)
  position : ∀ instrument quantity point, claim = .positionQuantity instrument quantity point →
    SamePosition (quantityMoved ((taken target effective).filter (dated (upTo period point))) ⟨account, instrument⟩)
      (positionComparison effective account period instrument point)
      (positionComparison (kept target effective) account period instrument point)

section
variable {events effective : List Event} {account : AccountId} {period : AssertionPeriod} {t t' : ObservedTotals}
  {target : ImportTarget}

theorem Spares.firstDay (h : Spares target events account period.contains) :
    Spares target events account (firstDay period) := by
  intro e he hcovers htouches
  have hout := h e he hcovers htouches
  unfold dated at hout ⊢
  cases hd : e.dates.effectiveDate with
  | none => rfl
  | some date =>
    have hout : period.contains date = false := by simpa [hd] using hout
    simp [Observed.firstDay, hout]

theorem checkCash_stays_iff (hbefore : Observes effective account period t)
    (hafter : Observes (kept target effective) account period t') (hspares : Spares target effective account period.contains)
    (currency : CurrencyCode) (amount : PostedMinor) (point : BalancePoint) :
    checkCash currency amount point t = checkCash currency amount point t' ↔
      SameCash amount (cashMoved ((taken target effective).filter (dated (upTo period point))) ⟨account, currency⟩)
        (cashComparison effective account period currency point)
        (cashComparison (kept target effective) account period currency point) := by
  have hexcluded : t.cashExcludedFromOpening[currency]? = t'.cashExcludedFromOpening[currency]? := by
    refine Option.map_injective (fun _ _ => PostedMinor.ext_raw) ?_
    rw [hbefore.cashExcluded, hafter.cashExcluded, hspares.firstDay.cashFigure]
  rw [checkCash_eq hbefore, checkCash_eq hafter, hexcluded]
  obtain ⟨a, ha⟩ := exists_held hbefore point currency
  obtain ⟨a', ha'⟩ := exists_held hafter point currency
  have hsplit := cashMoved_split target effective (dated (upTo period point)) ⟨account, currency⟩
  cases hc : cashComparison effective account period currency point with
  | unstated =>
    cases hc' : cashComparison (kept target effective) account period currency point with
    | unstated => simp [SameCash]
    | level held => exact iff_of_false ((decided_money _ _ _ _).named _ _).ne' id
    | change stated moved => exact iff_of_false (decided_money _ _ _ _).ne' id
  | level held =>
    rw [held_of_level hc, ← ha]
    cases hc' : cashComparison (kept target effective) account period currency point with
    | unstated => exact iff_of_false (((decided_money _ _ _ _).named _ _).ne _) id
    | level held' =>
      rw [held_of_level hc', ← ha']
      simp only [CashComparison.outcome, saturate_raw, level_eq_iff, SameCash]
      rw [← ha, ← ha'] at hsplit
      constructor
      · rintro rfl
        omega
      · intro hzero
        exact PostedMinor.ext_raw (by omega)
    | change stated moved =>
      simp only [CashComparison.outcome, saturate_raw, level_eq_change_iff, SameCash]
      exact and_congr_left fun _ => ⟨fun h => by rw [h], PostedMinor.ext_raw⟩
  | change stated moved =>
    cases hc' : cashComparison (kept target effective) account period currency point with
    | unstated => exact iff_of_false ((decided_money _ _ _ _).ne _) id
    | level held' =>
      rw [held_of_level hc', ← ha']
      simp only [CashComparison.outcome, saturate_raw, SameCash]
      rw [eq_comm, level_eq_change_iff]
      exact and_congr_left fun _ => ⟨fun h => by rw [h], PostedMinor.ext_raw⟩
    | change stated' moved' => simp only [CashComparison.outcome, change_eq_iff, SameCash]

theorem checkPosition_stays_iff (hbefore : Observes effective account period t)
    (hafter : Observes (kept target effective) account period t') (hspares : Spares target effective account period.contains)
    (instrument : InstrumentId) (quantity : Quantity) (point : BalancePoint) :
    checkPosition instrument quantity point t = checkPosition instrument quantity point t' ↔
      SamePosition
        (quantityMoved ((taken target effective).filter (dated (upTo period point))) ⟨account, instrument⟩)
        (positionComparison effective account period instrument point)
        (positionComparison (kept target effective) account period instrument point) := by
  have hexcluded : t.positionExcludedFromOpening[instrument]? = t'.positionExcludedFromOpening[instrument]? := by
    refine Option.map_injective (fun _ _ => Dec.ext_val) ?_
    rw [hbefore.positionExcluded, hafter.positionExcluded, hspares.firstDay.positionFigure]
  have hsplit := quantityMoved_split target effective (dated (upTo period point)) ⟨account, instrument⟩
  have heq := checkPosition_eq hbefore instrument quantity point
  have heq' := checkPosition_eq hafter instrument quantity point
  cases hc : positionComparison effective account period instrument point with
  | none =>
    rw [hc] at heq
    cases hc' : positionComparison (kept target effective) account period instrument point with
    | none =>
      rw [hc'] at heq'
      exact iff_of_true (heq.trans heq'.symm) trivial
    | some held' =>
      rw [hc'] at heq'
      obtain ⟨seen', -, heq'⟩ := heq'
      rw [heq, heq']
      exact iff_of_false ((decided_quantity _ _).named _ _).ne' id
  | some held =>
    rw [hc] at heq
    obtain ⟨seen, hseen, heq⟩ := heq
    cases hc' : positionComparison (kept target effective) account period instrument point with
    | none =>
      rw [hc'] at heq'
      rw [heq, heq']
      exact iff_of_false (((decided_quantity _ _).named _ _).ne _) id
    | some held' =>
      rw [hc'] at heq'
      obtain ⟨seen', hseen', heq'⟩ := heq'
      rw [heq, heq', hexcluded, quantity_eq_iff]
      rw [← quantity_of_position hc, ← quantity_of_position hc', ← hseen, ← hseen'] at hsplit
      constructor
      · rintro rfl
        exact left_eq_add.mp hsplit
      · intro hzero
        rw [hzero, add_zero] at hsplit
        exact Dec.ext_val hsplit

theorem dated_closing_of_upTo {e : Event} {point : BalancePoint} (h : dated (upTo period point) e = true) :
    dated (upTo period .closing) e = true := by
  cases point with
  | closing => exact h
  | opening =>
    unfold dated at h ⊢
    cases hd : e.dates.effectiveDate with
    | none => simp [hd] at h
    | some date =>
      have hbefore : date < period.from := by simpa [hd, upTo] using h
      simp [upTo, hbefore]

/-- Where nothing of the account was seen, there is nothing to disturb. -/
theorem undisturbed_of_unseen {claim : ControlClaim}
    (h : ¬∃ e ∈ effective, dated (upTo period .closing) e = true ∧ e.touches account = true) :
    Undisturbed target effective account period claim := by
  have hnone : ∀ {rows : List Event} {q : Event → Bool} {point : BalancePoint}, rows ⊆ effective →
      (∀ e, q e = true → e.touches account = true) → (rows.filter (dated (upTo period point))).any q = false := by
    intro rows q point hsub hq
    rw [List.any_eq_false]
    intro e he hqe
    obtain ⟨he, hdated⟩ := List.mem_filter.mp he
    exact h ⟨e, hsub he, dated_closing_of_upTo hdated, hq e hqe⟩
  have hkept : kept target effective ⊆ effective := List.filter_subset_self _
  have htaken : taken target effective ⊆ effective := List.filter_subset_self _
  refine ⟨fun hseen => absurd hseen h, fun currency amount point _ => ?_, fun instrument quantity point _ => ?_⟩
  · have hq := fun (e : Event) (he : e.movesCash ⟨account, currency⟩ = true) => movesCash_touches he
    simp only [cashComparison, hnone (List.Subset.refl effective) hq, hnone hkept hq, Bool.false_eq_true, false_and,
      if_false, SameCash]
    exact cashMoved_eq_zero (hnone htaken hq)
  · have hq := fun (e : Event) (he : e.movesPosition ⟨account, instrument⟩ = true) => movesPosition_touches he
    simp only [positionComparison, hnone (List.Subset.refl effective) hq, hnone hkept hq, Bool.false_eq_true, false_and,
      if_false, SamePosition]
    exact quantityMoved_eq_zero (hnone htaken hq)

/-- The outcome of a claim stays exactly when the retraction leaves it what it is compared with. -/
theorem checkClaim_stays_iff (hbefore : Observes effective account period t)
    (hafter : Observes (kept target effective) account period t') (hspares : Spares target effective account period.contains)
    (claim : ControlClaim) :
    checkClaim claim t = checkClaim claim t' ↔ Undisturbed target effective account period claim := by
  have hkept : t'.eventsSeen ≠ 0 ↔ ∃ e ∈ effective, target.covers e = false ∧
      dated (upTo period .closing) e = true ∧ e.touches account = true := by
    rw [hafter.seen]
    simp [kept, and_assoc]
  have hinterval : t.toIntervalTotals = t'.toIntervalTotals := by
    have hrun := hafter.interval
    rw [hspares.inside, hbefore.interval] at hrun
    exact Except.ok.inj hrun
  by_cases hseen : t.eventsSeen = 0
  · have hnothing := fun h => hbefore.seen.mpr h hseen
    have hseen' : t'.eventsSeen = 0 := by
      by_contra hne
      obtain ⟨e, he, -, hrow⟩ := hkept.mp hne
      exact hnothing ⟨e, he, hrow⟩
    refine iff_of_true ?_ (undisturbed_of_unseen hnothing)
    exact (if_pos hseen).trans (if_pos hseen').symm
  · by_cases hseen' : t'.eventsSeen = 0
    · refine iff_of_false (fun h => checkClaim_covered hbefore hseen (h.trans (if_pos hseen'))) fun h => ?_
      exact hkept.mpr (h.covered (hbefore.seen.mp hseen)) hseen'
    · have hcovered : (∃ e ∈ effective, dated (upTo period .closing) e = true ∧ e.touches account = true) →
          ∃ e ∈ effective, target.covers e = false ∧ dated (upTo period .closing) e = true ∧
            e.touches account = true := fun _ => hkept.mp hseen'
      unfold checkClaim
      rw [if_neg hseen, if_neg hseen']
      cases claim with
      | cashBalance currency amount point =>
        refine (checkCash_stays_iff hbefore hafter hspares currency amount point).trans
          ⟨fun h => ⟨hcovered, ?_, fun _ _ _ heq => (nomatch heq)⟩, fun h => h.cash _ _ _ rfl⟩
        rintro _ _ _ ⟨⟩
        exact h
      | positionQuantity instrument quantity point =>
        refine (checkPosition_stays_iff hbefore hafter hspares instrument quantity point).trans
          ⟨fun h => ⟨hcovered, fun _ _ _ heq => (nomatch heq), ?_⟩, fun h => h.position _ _ _ rfl⟩
        rintro _ _ _ ⟨⟩
        exact h
      | cashTurnover _ _ _ | feesTotal _ _ | incomeTotal _ _ | taxWithheldTotal _ _ =>
        simp only [hinterval, true_iff]
        exact ⟨hcovered, fun _ _ _ heq => (nomatch heq), fun _ _ _ heq => (nomatch heq)⟩

end

/-! ### The retraction of an agent -/

section
variable (hashes : Hashes) (fresh : Event → EventId) (principal : Principal) {target : ImportTarget}
  {journal effective remaining : List Event} {a : Event} {period : AssertionPeriod} {claim : ControlClaim}
  {totals totals' : ObservedTotals}

/-- An accepted retraction keeps the outcome of an assertion outside the import exactly when it leaves the claim
    what it is compared with. -/
theorem outcome_stays_iff (hresolve : resolve journal = .ok effective)
    (haccept : undoesOnlyItsOwnDeclaration principal target journal effective (effective.filter target.covers) = .ok ())
    (hordered : ∀ e ∈ effective, target.covers e = true → e.dates.effectiveDate = some e.order.date)
    (hfresh : ((journal ++ reversals hashes fresh principal target effective).map Event.id).Nodup)
    (hretracted : resolve (journal ++ reversals hashes fresh principal target effective) = .ok remaining)
    (ha : a ∈ effective) (hkind : a.kind = .controlAssertion period claim) (hoff : target.covers a = false)
    (hbefore : observe effective a.account period = .ok totals)
    (hafter : observe remaining a.account period = .ok totals') :
    checkClaim claim totals' = checkClaim claim totals ↔ Undisturbed target effective a.account period claim := by
  have hremaining : kept target effective = remaining :=
    Except.ok.inj ((resolve_retracted hresolve hfresh).symm.trans hretracted)
  subst hremaining
  have hspares := spares_of_accepted hresolve haccept hordered ha hkind hoff
  rw [eq_comm]
  exact checkClaim_stays_iff (observes_of_ok hbefore) (observes_of_ok hafter) hspares claim

end

/-- A deposit that an agent declared in an import. -/
def importedDeposit (day : Date) : Event :=
  { eventWith ⟨1⟩ ⟨1⟩ day 1 (.cashIn ⟨.new 500, .rub⟩) [.cash ⟨1⟩ ⟨.new 500, .rub⟩] with
    provenance := { source := ⟨1⟩, rawHash := "d", parserVersion := "test/1", «import» := some ⟨1⟩, declaredBy := some ⟨7⟩ } }

def otherDeposit : Event := eventWith ⟨2⟩ ⟨1⟩ ⟨12⟩ 2 (.cashIn ⟨.new 300, .rub⟩) [.cash ⟨1⟩ ⟨.new 300, .rub⟩]

/-- A balance that a source stated. -/
def statedBalance (id : EventId) (period : AssertionPeriod) (amount : Int64) (point : BalancePoint) : Event :=
  eventWith id ⟨1⟩ period.to 1 (.controlAssertion period (.cashBalance .rub (.new amount) point)) []

/-- The account is known to have been empty, and its balance is stated at the end of an interval. -/
def emptyAtFirst : Event := statedBalance ⟨3⟩ ⟨⟨1⟩, ⟨4⟩⟩ 0 .opening
def closingBalance (amount : Int64) : Event := statedBalance ⟨4⟩ ⟨⟨10⟩, ⟨20⟩⟩ amount .closing

def agent : Principal := ⟨7, ⟨0⟩⟩
def declared : ImportTarget := .named ⟨1⟩ ⟨1⟩
def drawn (e : Event) : EventId := ⟨100 + e.id.uuid⟩

/-- A row dated after the interval is taken back, and the stated balance stays matched. -/
theorem later_deposit_undisturbed :
    Undisturbed declared [emptyAtFirst, otherDeposit, closingBalance 300, importedDeposit ⟨25⟩] ⟨1⟩ ⟨⟨10⟩, ⟨20⟩⟩
      (.cashBalance .rub (.new 300) .closing) := by
  have hresolve : resolve [importedDeposit ⟨25⟩, otherDeposit, emptyAtFirst, closingBalance 300] =
      .ok [emptyAtFirst, otherDeposit, closingBalance 300, importedDeposit ⟨25⟩] := by decide
  obtain ⟨totals, hbefore⟩ := exists_ok (show (observe [emptyAtFirst, otherDeposit, closingBalance 300,
    importedDeposit ⟨25⟩] ⟨1⟩ ⟨⟨10⟩, ⟨20⟩⟩).isOk = true by decide)
  obtain ⟨totals', hafter⟩ := exists_ok (show (observe [emptyAtFirst, otherDeposit, closingBalance 300] ⟨1⟩
    ⟨⟨10⟩, ⟨20⟩⟩).isOk = true by decide)
  have houtcome := read_of_ok hbefore (checkClaim (.cashBalance .rub (.new 300) .closing)) (b := .matched)
    (by decide)
  have houtcome' := read_of_ok hafter (checkClaim (.cashBalance .rub (.new 300) .closing)) (b := .matched)
    (by decide)
  refine (outcome_stays_iff sampleHashes drawn agent (a := closingBalance 300) hresolve (by decide) ?_
    (by decide) (by decide) (by decide) rfl (by decide) hbefore hafter).mp
    (houtcome'.trans houtcome.symm)
  decide

/-- A row dated before the interval is taken back, and the balance that was matched no longer is. -/
theorem earlier_deposit_disturbs :
    (∀ e ∈ [importedDeposit ⟨5⟩, otherDeposit, emptyAtFirst, closingBalance 800], e.validateStructure = .ok ()) ∧
      resolve [importedDeposit ⟨5⟩, otherDeposit, emptyAtFirst, closingBalance 800] =
        .ok [emptyAtFirst, importedDeposit ⟨5⟩, otherDeposit, closingBalance 800] ∧
      undoesOnlyItsOwnDeclaration agent declared [importedDeposit ⟨5⟩, otherDeposit, emptyAtFirst, closingBalance 800]
        [emptyAtFirst, importedDeposit ⟨5⟩, otherDeposit, closingBalance 800] [importedDeposit ⟨5⟩] = .ok () ∧
      resolve ([importedDeposit ⟨5⟩, otherDeposit, emptyAtFirst, closingBalance 800] ++
          reversals sampleHashes drawn agent declared
            [emptyAtFirst, importedDeposit ⟨5⟩, otherDeposit, closingBalance 800]) =
        .ok [emptyAtFirst, otherDeposit, closingBalance 800] ∧
      declared.covers (closingBalance 800) = false ∧
      ∃ totals totals',
        observe [emptyAtFirst, importedDeposit ⟨5⟩, otherDeposit, closingBalance 800] ⟨1⟩ ⟨⟨10⟩, ⟨20⟩⟩ = .ok totals ∧
          observe [emptyAtFirst, otherDeposit, closingBalance 800] ⟨1⟩ ⟨⟨10⟩, ⟨20⟩⟩ = .ok totals' ∧
          checkClaim (.cashBalance .rub (.new 800) .closing) totals = .matched ∧
          (checkClaim (.cashBalance .rub (.new 800) .closing) totals').isDiscrepant = true := by
  obtain ⟨totals, hbefore⟩ := exists_ok (show (observe [emptyAtFirst, importedDeposit ⟨5⟩, otherDeposit,
    closingBalance 800] ⟨1⟩ ⟨⟨10⟩, ⟨20⟩⟩).isOk = true by decide)
  obtain ⟨totals', hafter⟩ := exists_ok (show (observe [emptyAtFirst, otherDeposit, closingBalance 800] ⟨1⟩
    ⟨⟨10⟩, ⟨20⟩⟩).isOk = true by decide)
  refine ⟨by decide, by decide, by decide, by decide, by decide, totals, totals',
    hbefore, hafter, ?_, ?_⟩
  · exact read_of_ok hbefore (checkClaim (.cashBalance .rub (.new 800) .closing)) (by decide)
  · exact read_of_ok hafter (fun t => (checkClaim (.cashBalance .rub (.new 800) .closing) t).isDiscrepant)
      (by decide)

end Retraction
end Iaam
