import Iaam.Theorems.PriceChannels

/-! The selection of a price. The order of the candidates is never read, what lies outside the query or after its
moment is never seen, and what is selected is the one candidate that comes first in the order of the policy. -/

namespace Iaam
namespace PriceSelection
open Outcome Search ValuationPolicyV1

/-- Of another instrument, traded after the date, or learned of after the moment of knowledge. -/
def OutOfSight (query : PriceQuery) (c : PriceCandidate) : Prop :=
  c.instrument ≠ query.instrument ∨ query.asOf < c.tradeDate ∨ c.observedAt.any (query.knowledgeAsOf < ·) = true

/-- The age of a candidate in days. -/
def ageOf (query : PriceQuery) (c : PriceCandidate) : Nat := (query.asOf.day - c.tradeDate.day).toNat

/-- What the policy may select. -/
structure Eligible (policy : ValuationPolicyV1) (query : PriceQuery) (c : PriceCandidate) : Prop where
  instrument : c.instrument = query.instrument
  traded : c.tradeDate ≤ query.asOf
  known : ∀ moment, c.observedAt = some moment → moment ≤ query.knowledgeAsOf
  fits : ageOf query c < 2 ^ 16
  recent : ageOf query c ≤ policy.priceMaxAge
  ranked : (venueOf c.origin).isSome = true → (priceKindRank c.origin).isSome = true

/-- The order of the policy: the youngest, then by origin, then by kind, then what was learned of last. Candidates
    without a kind or without a moment of knowledge come last. -/
def rank (query : PriceQuery) (c : PriceCandidate) : ℕ ×ₗ ℕ ×ₗ WithTop ℕ ×ₗ WithTop OffsetDateTimeᵒᵈ :=
  toLex (ageOf query c, toLex (originRank c.origin, toLex (orLast (priceKindRank c.origin),
    orLast (c.observedAt.map OrderDual.toDual))))

section
variable {policy : ValuationPolicyV1} {query : PriceQuery} {c : PriceCandidate}

theorem screen_outOfSight (h : OutOfSight query c) : policy.screen query c = .skipped := by
  unfold screen
  rcases h with hother | hfuture | hlate
  · rw [if_pos hother]
  · rw [if_pos hfuture, ite_self]
  · rw [if_pos hlate, ite_self, ite_self]

/-- A candidate matches when it may be selected, and its age is its own. -/
theorem screen_eq_matching {age : Nat} :
    policy.screen query c = .matching age ↔ Eligible policy query c ∧ age = ageOf query c := by
  constructor
  · intro h
    simp only [screen] at h
    split_ifs at h with hother hfuture hlate hwide hold hranked
    refine ⟨⟨not_not.mp hother, not_lt.mp hfuture, fun moment hmoment => ?_, not_le.mp hwide, not_lt.mp hold, ?_⟩, ?_⟩
    · simpa [hmoment] using hlate
    · intro hvenue
      rw [hvenue, Bool.true_and, Bool.not_eq_true, Option.isNone_eq_false_iff] at hranked
      exact hranked
    · exact (Screened.matching.inj h).symm
  · rintro ⟨h, rfl⟩
    have hknown : ¬c.observedAt.any (query.knowledgeAsOf < ·) = true := by
      cases hmoment : c.observedAt with
      | none => simp
      | some moment => simpa using h.known moment hmoment
    have hranked : ¬((venueOf c.origin).isSome && (priceKindRank c.origin).isNone) = true := by
      rw [Bool.and_eq_true, Option.isNone_iff_eq_none]
      rintro ⟨hvenue, hnone⟩
      simpa [hnone] using h.ranked hvenue
    have hfits := not_le.mpr h.fits
    have hrecent := not_lt.mpr h.recent
    unfold ageOf at hfits hrecent
    simp only [screen, if_neg (not_not.mpr h.instrument), if_neg (not_lt.mpr h.traded), if_neg hknown, if_neg hfits,
      if_neg hrecent, if_neg hranked, ageOf]

end

/-! ### What is kept -/

section
variable {policy : ValuationPolicyV1} {query : PriceQuery} {candidates candidates' : List PriceCandidate}
  {entries entries' : List (Nat × PriceCandidate)}

theorem narrows_retainMin {α : Type} (key : α → Nat) (l : List α) : Narrows key l (retainMin key l) := by
  unfold retainMin
  cases hmin : (l.map key).min? with
  | none =>
    obtain rfl : l = [] := List.map_eq_nil_iff.mp (List.min?_eq_none_iff.mp hmin)
    exact narrows_self nofun
  | some least =>
    obtain ⟨-, hle⟩ := List.min?_eq_some_iff.mp hmin
    exact narrows_filter (fun b hb => hle _ (List.mem_map_of_mem hb)) fun a _ => decide_eq_true_iff

theorem narrows_retainKind (entries : List (Nat × PriceCandidate)) :
    Narrows (fun entry => orLast (priceKindRank entry.2.origin)) entries (retainKind entries) := by
  unfold retainKind
  cases hmin : (entries.filterMap fun entry => priceKindRank entry.2.origin).min? with
  | none =>
    exact narrows_none (List.filterMap_eq_nil_iff.mp (List.min?_eq_none_iff.mp hmin))
  | some least =>
    obtain ⟨-, hle⟩ := List.min?_eq_some_iff.mp hmin
    refine narrows_some (fun b hb k hk => hle k ?_) fun a _ => decide_eq_true_iff
    exact List.mem_filterMap.mpr ⟨b, hb, hk⟩

theorem narrows_retainLatest (entries : List (Nat × PriceCandidate)) :
    Narrows (fun entry => orLast (entry.2.observedAt.map OrderDual.toDual)) entries (retainLatest entries) := by
  unfold retainLatest
  cases hmax : (entries.filterMap fun entry => entry.2.observedAt).max? with
  | none =>
    have hnone := List.filterMap_eq_nil_iff.mp (List.max?_eq_none_iff.mp hmax)
    exact narrows_none fun b hb => by rw [hnone b hb, Option.map_none]
  | some latest =>
    obtain ⟨-, hle⟩ := List.max?_eq_some_iff.mp hmax
    refine narrows_some (m := OrderDual.toDual latest) (fun b hb k hk => ?_) fun a _ => ?_
    · obtain ⟨moment, hmoment, rfl⟩ := Option.map_eq_some_iff.mp hk
      exact OrderDual.toDual_le_toDual.mpr (hle moment (List.mem_filterMap.mpr ⟨b, hb, hmoment⟩))
    · rw [decide_eq_true_iff, Option.map_eq_some_iff]
      constructor
      · intro h
        exact ⟨latest, h, rfl⟩
      · rintro ⟨moment, hmoment, hdual⟩
        rwa [← OrderDual.toDual.injective hdual]

theorem perm_retainMin {α : Type} (key : α → Nat) {l l' : List α} (h : l'.Perm l) :
    (retainMin key l').Perm (retainMin key l) := by
  unfold retainMin
  rw [min_congr fun k => (h.map key).mem_iff]
  cases (l.map key).min? with
  | none => exact h
  | some least => exact h.filter _

theorem perm_retainKind (h : entries'.Perm entries) : (retainKind entries').Perm (retainKind entries) := by
  unfold retainKind
  rw [min_congr fun k => (h.filterMap _).mem_iff]
  cases (entries.filterMap fun entry => priceKindRank entry.2.origin).min? with
  | none => exact h
  | some least => exact h.filter _

theorem perm_retainLatest (h : entries'.Perm entries) : (retainLatest entries').Perm (retainLatest entries) := by
  unfold retainLatest
  rw [max_congr fun k => (h.filterMap _).mem_iff]
  cases (entries.filterMap fun entry => entry.2.observedAt).max? with
  | none => exact h
  | some latest => exact h.filter _

theorem perm_nearest (h : candidates'.Perm candidates) :
    (policy.nearest query candidates').Perm (policy.nearest query candidates) :=
  perm_retainMin _ (perm_retainMin _ (h.filterMap _))

theorem ambiguousVenue_perm (h : entries'.Perm entries) : ambiguousVenue entries' = ambiguousVenue entries := by
  unfold ambiguousVenue
  rw [h.all_eq, (h.filterMap _).dedup.length_eq]

/-! ### The selection -/

/-- Only a list of one element is told apart from the others. -/
theorem match_perm {α : Type} {entries entries' : List (Nat × PriceCandidate)} (one : Nat → PriceCandidate → α)
    (other : α) : entries'.Perm entries →
      (match entries' with | [(age, c)] => one age c | _ => other) =
        (match entries with | [(age, c)] => one age c | _ => other) := by
  intro h
  rcases entries with _ | ⟨first, _ | ⟨second, rest⟩⟩
  · rw [List.perm_nil.mp h]
  · rw [List.perm_singleton.mp h]
  · have hlength := h.length_eq
    rcases entries' with _ | ⟨first', _ | ⟨second', rest'⟩⟩
    · simp at hlength
    · simp at hlength
    · rfl

/-- The order of the candidates is not read. -/
theorem select_perm (h : candidates'.Perm candidates) :
    policy.select query candidates' = policy.select query candidates := by
  have hnearest : (policy.nearest query candidates').Perm (policy.nearest query candidates) := perm_nearest h
  have hempty : policy.nearest query candidates' = [] ↔ policy.nearest query candidates = [] := by
    rw [← List.length_eq_zero_iff, hnearest.length_eq, List.length_eq_zero_iff]
  unfold select
  simp only [hempty, ambiguousVenue_perm hnearest, h.any_eq]
  refine if_congr Iff.rfl rfl (if_congr Iff.rfl rfl ?_)
  have hkept := perm_retainLatest (perm_retainKind hnearest)
  exact match_perm (α := Except UncoveredReason SelectedPrice) (fun age c => .ok ⟨c, selectionFor c age,
    policy.freshnessFor age, policy.provenance c⟩) (.error .ambiguousCandidate) hkept

/-- A candidate of the list that the policy may select, with its age. -/
theorem mem_matching {entry : Nat × PriceCandidate} :
    entry ∈ candidates.filterMap (fun c => match policy.screen query c with
      | .matching age => some (age, c)
      | .skipped | .tooOld => none) ↔
      entry.2 ∈ candidates ∧ Eligible policy query entry.2 ∧ entry.1 = ageOf query entry.2 := by
  rw [List.mem_filterMap]
  constructor
  · rintro ⟨c, hc, hentry⟩
    cases hscreen : policy.screen query c with
    | skipped => simp [hscreen] at hentry
    | tooOld => simp [hscreen] at hentry
    | matching age =>
      obtain rfl : (age, c) = entry := by simpa [hscreen] using hentry
      exact ⟨hc, screen_eq_matching.mp hscreen⟩
  · rintro ⟨hc, heligible⟩
    exact ⟨entry.2, hc, by rw [screen_eq_matching.mpr heligible]⟩

/-- What is selected comes first of all that may be selected, and no other candidate comes as early. -/
theorem select_least {price : SelectedPrice} (h : policy.select query candidates = .ok price) :
    price.candidate ∈ candidates ∧ Eligible policy query price.candidate ∧
      ∀ c ∈ candidates, Eligible policy query c →
        rank query price.candidate ≤ rank query c ∧
          (rank query c = rank query price.candidate → c = price.candidate) := by
  unfold select at h
  dsimp only at h
  split_ifs at h
  split at h
  · next age candidate hkept =>
    cases h
    have hlatest := (narrows_retainKind _).comp (narrows_retainLatest (retainKind (policy.nearest query candidates)))
    have horigin := (narrows_retainMin (fun entry : Nat × PriceCandidate => originRank entry.2.origin) _).comp hlatest
    have hnarrows := (narrows_retainMin Prod.fst _).comp horigin
    rw [hkept] at hnarrows
    obtain ⟨hmem, heligible, hage⟩ := mem_matching.mp (hnarrows.sub _ (List.mem_singleton_self _))
    refine ⟨hmem, heligible, fun c hc hceligible => ?_⟩
    have hcmem := (@mem_matching policy query candidates (ageOf query c, c)).mpr ⟨hc, hceligible, rfl⟩
    obtain rfl : age = ageOf query candidate := hage
    refine ⟨hnarrows.least _ (List.mem_singleton_self _) _ hcmem, fun hrank => ?_⟩
    exact (Prod.mk.inj (List.mem_singleton.mp (hnarrows.all _ (List.mem_singleton_self _) _ hcmem hrank))).2
  · cases h

variable (policy query candidates)

/-- The selection of a price reads no order of the candidates and sees none out of sight, and what it selects comes
    first in the order of the policy among the candidates that may be selected. -/
theorem selection_orderless :
    (∀ candidates', candidates'.Perm candidates → policy.select query candidates' = policy.select query candidates) ∧
    (∀ candidates', Adds (OutOfSight query) candidates candidates' →
      policy.select query candidates' = policy.select query candidates) ∧
    ∀ price, policy.select query candidates = .ok price →
      price.candidate ∈ candidates ∧ Eligible policy query price.candidate ∧
        ∀ c ∈ candidates, Eligible policy query c →
          rank query price.candidate ≤ rank query c ∧
            (rank query c = rank query price.candidate → c = price.candidate) :=
  ⟨fun _ h => select_perm h, fun _ h => PriceChannels.select_adds h fun _ hc => screen_outOfSight hc,
    fun _ h => select_least h⟩

end

/-- The close of the day before the report, and the close of the day itself, learned of by the report or after it. -/
def dayBefore : PriceCandidate := PriceChannels.closeOn ⟨99⟩ none
def sameDay : PriceCandidate := PriceChannels.closeOn ⟨100⟩ (some ⟨900⟩)
def sameDayLate : PriceCandidate := PriceChannels.closeOn ⟨100⟩ (some ⟨2000⟩)

/-- The close of the day is selected in either order, and beside one not known yet. -/
theorem same_day_selected :
    ∃ price, ({} : ValuationPolicyV1).select PriceChannels.reportQuery [dayBefore, sameDay] = .ok price ∧
      ({} : ValuationPolicyV1).select PriceChannels.reportQuery [sameDay, dayBefore] = .ok price ∧
      ({} : ValuationPolicyV1).select PriceChannels.reportQuery [sameDayLate, dayBefore, sameDay] = .ok price ∧
      price.candidate ∈ [dayBefore, sameDay] ∧
      rank PriceChannels.reportQuery price.candidate ≤ rank PriceChannels.reportQuery dayBefore := by
  have horderless := selection_orderless {} PriceChannels.reportQuery [dayBefore, sameDay]
  obtain ⟨price, hprice⟩ := exists_ok (show (({} : ValuationPolicyV1).select PriceChannels.reportQuery
    [dayBefore, sameDay]).isOk = true by decide)
  have heligible : Eligible {} PriceChannels.reportQuery dayBefore :=
    (screen_eq_matching.mp (show ({} : ValuationPolicyV1).screen PriceChannels.reportQuery dayBefore = .matching 1
      by decide)).1
  obtain ⟨hperm, hadds, hleast⟩ := horderless
  obtain ⟨hmem, -, hrank⟩ := hleast price hprice
  refine ⟨price, hprice, (hperm _ (.swap _ _ _)).trans hprice, (hadds _ (.add ?_ ?_)).trans hprice, hmem, ?_⟩
  · exact .inr (.inr (by decide))
  · exact .keep _ (.keep _ .nil)
  · exact (hrank dayBefore List.mem_cons_self heligible).1

end PriceSelection
end Iaam
