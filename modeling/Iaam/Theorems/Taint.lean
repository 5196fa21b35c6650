import Iaam.Theorems.GroupOrder

/-! What a gap of an import leaves unconfirmed. The evidence that the groups of a journal raise for one another
reaches no dimension that a gap correlated with one of those groups has tainted. -/

namespace Iaam
namespace Reconciliation
open Outcome ReconciliationLedger

/-- The statement before another one of its account, as `max_by_key` picks it. -/
def priorOf (checked : List CheckedGroup) (c : CheckedGroup) : Option CheckedGroup :=
  Search.maxByKey (fun other : CheckedGroup => other.group.period.to)
    (checked.filter fun other => other.group.account = c.group.account ∧ other.group.period.to < c.group.period.from)

/-- The item of evidence rests on the group: the one document whose sections agree, the statement that opens and
    the one before it, the two statements that continue each other, the two channels that agree. -/
inductive RestsOn (checked : List CheckedGroup) : EvidenceItem → CheckedGroup → Prop
  | sections {c : CheckedGroup} {evidence : Evidence} (hc : c ∈ checked) (h : groundFive c = some evidence) :
      RestsOn checked ⟨c.group.account, c.group.period, evidence⟩ c
  | opening {c : CheckedGroup} {item : EvidenceItem} (hc : c ∈ checked) (h : groundOne checked c = some item) :
      RestsOn checked item c
  | prior {c prior : CheckedGroup} {item : EvidenceItem} (hc : c ∈ checked) (h : groundOne checked c = some item)
      (hprior : priorOf checked c = some prior) : RestsOn checked item prior
  | earlier {earlier later : CheckedGroup} {item : EvidenceItem} (he : earlier ∈ checked) (hl : later ∈ checked)
      (h : continuity earlier later = some item) : RestsOn checked item earlier
  | later {earlier later : CheckedGroup} {item : EvidenceItem} (he : earlier ∈ checked) (hl : later ∈ checked)
      (h : continuity earlier later = some item) : RestsOn checked item later
  | left {left right : CheckedGroup} {item : EvidenceItem} (hpair : [left, right].Sublist checked)
      (h : agreement left right = some item) : RestsOn checked item left
  | right {left right : CheckedGroup} {item : EvidenceItem} (hpair : [left, right].Sublist checked)
      (h : agreement left right = some item) : RestsOn checked item right

section
variable {checked : List CheckedGroup} {c prior earlier later left right : CheckedGroup} {item : EvidenceItem}
  {d : Dimension}

theorem mem_dimensionsFromTaints {taints : List Taint} :
    d ∈ dimensionsFromTaints taints ↔ ∃ taint ∈ taints, d ∈ taint.dimensions := by
  have hfold : ∀ acc : Finset Dimension, d ∈ taints.foldl (fun acc taint => acc ∪ taint.dimensions) acc ↔
      d ∈ acc ∨ ∃ taint ∈ taints, d ∈ taint.dimensions := by
    induction taints with
    | nil => simp
    | cons taint taints ih =>
      intro acc
      simp only [List.foldl_cons, ih, Finset.mem_union, List.exists_mem_cons_iff, or_assoc]
  simpa [dimensionsFromTaints] using hfold ∅

theorem mem_of_fromMatch {ground : Ground} {confirming confirmed : SourceChannel} {matched : Finset Dimension}
    {evidence : Evidence} (h : Evidence.fromMatch ground confirming confirmed matched = some evidence)
    (hd : d ∈ evidence.dimensions) : d ∈ matched := by
  rw [(fromMatch_eq_some h).2.2.2] at hd
  exact (Finset.mem_inter.mp hd).2

/-! ### The four grounds -/

theorem groundFive_untainted {evidence : Evidence} (h : groundFive c = some evidence) (hd : d ∈ evidence.dimensions) :
    d ∉ c.tainted := by
  simp only [groundFive] at h
  split at h
  · cases h
  · split at h
    · cases h
    · exact (Finset.mem_sdiff.mp (mem_of_fromMatch h hd)).2

/-- What an opening balance confirms is tainted for neither of the two statements. -/
theorem groundOne_untainted (h : groundOne checked c = some item) (hd : d ∈ item.evidence.dimensions) :
    d ∉ c.tainted ∧ ∀ prior, priorOf checked c = some prior → d ∉ prior.tainted := by
  simp only [groundOne] at h
  split at h
  · cases h
  · obtain ⟨prior, hprior, h⟩ := Option.bind_eq_some_iff.mp h
    obtain ⟨evidence, hevidence, h⟩ := Option.bind_eq_some_iff.mp h
    cases h
    have hmatched := mem_of_fromMatch hevidence hd
    simp only [Finset.mem_sdiff] at hmatched
    refine ⟨hmatched.1.2, fun prior' hprior' => ?_⟩
    cases hprior.symm.trans hprior'
    exact hmatched.2

theorem continuity_untainted (h : continuity earlier later = some item) (hd : d ∈ item.evidence.dimensions) :
    d ∉ earlier.tainted ∧ d ∉ later.tainted := by
  simp only [continuity] at h
  split at h
  · cases h
  · obtain ⟨evidence, hevidence, rfl⟩ := Option.map_eq_some_iff.mp h
    have hmatched := mem_of_fromMatch hevidence hd
    simp only [Finset.mem_sdiff] at hmatched
    exact ⟨hmatched.1.2, hmatched.2⟩

theorem agreement_untainted (h : agreement left right = some item) (hd : d ∈ item.evidence.dimensions) :
    d ∉ left.tainted ∧ d ∉ right.tainted := by
  simp only [agreement] at h
  split at h
  · cases h
  · obtain ⟨evidence, hevidence, rfl⟩ := Option.map_eq_some_iff.mp h
    have hmatched := mem_of_fromMatch hevidence hd
    simp only [confirmedDimensions, Finset.mem_inter, Finset.mem_sdiff] at hmatched
    exact ⟨hmatched.1.2, hmatched.2.2⟩

theorem RestsOn.untainted (h : RestsOn checked item c) (hd : d ∈ item.evidence.dimensions) : d ∉ c.tainted := by
  cases h with
  | sections _ h => exact groundFive_untainted h hd
  | opening _ h => exact (groundOne_untainted h hd).1
  | prior _ h hprior => exact (groundOne_untainted h hd).2 _ hprior
  | earlier _ _ h => exact (continuity_untainted h hd).1
  | later _ _ h => exact (continuity_untainted h hd).2
  | left _ h => exact (agreement_untainted h hd).1
  | right _ h => exact (agreement_untainted h hd).2

theorem RestsOn.mem (h : RestsOn checked item c) : c ∈ checked := by
  cases h with
  | sections hc _ | opening hc _ => exact hc
  | prior _ _ hprior => exact (latest_of_maxByKey hprior).1
  | earlier he _ _ => exact he
  | later _ hl _ => exact hl
  | left hpair _ => exact hpair.subset List.mem_cons_self
  | right hpair _ => exact hpair.subset (List.mem_cons_of_mem _ List.mem_cons_self)

/-- Every item of evidence that the journal generates rests on a group. -/
theorem exists_restsOn (h : item ∈ generatedEvidence checked) : ∃ c, RestsOn checked item c := by
  simp only [generatedEvidence, List.mem_append, List.mem_flatMap, Option.mem_toList, Option.map_eq_some_iff] at h
  rcases h with (⟨c, hc, ⟨evidence, hfive, rfl⟩ | hone⟩ | htwo) | hthree
  · exact ⟨c, .sections hc hfive⟩
  · exact ⟨c, .opening hc hone⟩
  · obtain ⟨earlier, hearlier, later, hlater, h⟩ := mem_groundTwo.mp htwo
    exact ⟨earlier, .earlier hearlier hlater h⟩
  · obtain ⟨left, right, hpair, h⟩ := mem_groundThree.mp hthree
    exact ⟨left, .left hpair h⟩

end

/-! ### All groups and gaps -/

/-- Groups with their outcomes, each with the gaps correlated with it. -/
def withGaps (gaps : List Taint) (groups : List (StatementGroup × List ClaimCheck)) : List CheckedGroup :=
  groups.map fun (group, outcomes) => (group, outcomes, correlatedTaints group gaps)

/-- The steps of `build_with` check its groups in this form. -/
theorem withGaps_of_checked {effective : List Event} {exceptions : PerimeterExceptions} {gaps : List Taint}
    {groups : List StatementGroup} {checked : List CheckedGroup}
    (h : groups.mapM (checkGroup effective exceptions gaps) = .ok checked) :
    checked = withGaps gaps (checked.map fun c => (c.group, c.outcomes)) := by
  have hchecked := Runs.mapM_ok.mp h
  clear h
  induction hchecked with
  | nil => rfl
  | cons hcheck _ ih =>
    obtain ⟨observed, -, rfl⟩ := checkGroup_ok hcheck
    simp only [withGaps, List.map_cons]
    exact congrArg _ ih

/-- No evidence that the groups raise reaches a dimension tainted by a gap correlated with a group it rests on. -/
theorem tainted_never_confirmed (gaps : List Taint) (groups : List (StatementGroup × List ClaimCheck)) :
    ∀ item ∈ generatedEvidence (withGaps gaps groups), (∃ c, RestsOn (withGaps gaps groups) item c) ∧
      ∀ c, RestsOn (withGaps gaps groups) item c → ∀ gap ∈ correlatedTaints c.group gaps,
        Disjoint item.evidence.dimensions gap.dimensions := by
  intro item hitem
  refine ⟨exists_restsOn hitem, fun c hrests gap hgap => Finset.disjoint_left.mpr fun d hd hgapd => ?_⟩
  refine hrests.untainted hd (mem_dimensionsFromTaints.mpr ⟨gap, ?_, hgapd⟩)
  obtain ⟨⟨group, outcomes⟩, -, rfl⟩ := List.mem_map.mp hrests.mem
  exact hgap

/-- A document states a balance and its income, and both agree with the journal. -/
def balanceAndIncome : StatementGroup × List ClaimCheck :=
  let claims : List ControlClaim := [.cashBalance .rub (.new 500) .closing, .incomeTotal .rub .zero]
  (⟨⟨1⟩, ⟨⟨1⟩, ⟨10⟩⟩, ⟨⟨0⟩, "test/1", some "x"⟩, claims⟩,
    claims.map fun claim => ⟨claim, .matched, ⟨.empty, .notABalance, .level⟩⟩)

/-- The import of the document refused a row of its income. -/
def refusedIncome : Taint := ⟨⟨1⟩, ⟨⟨1⟩, ⟨10⟩⟩, ⟨0⟩, "test/1", {.income}, 1, []⟩

/-- The sections of the document are evidence, of something else than its income. -/
theorem refused_income_unconfirmed :
    ∃ item ∈ generatedEvidence (withGaps [refusedIncome] [balanceAndIncome]), .income ∉ item.evidence.dimensions := by
  obtain ⟨item, hitem⟩ := List.exists_mem_of_ne_nil (generatedEvidence (withGaps [refusedIncome] [balanceAndIncome]))
    (by decide)
  obtain ⟨⟨c, hrests⟩, hdisjoint⟩ := tainted_never_confirmed [refusedIncome] [balanceAndIncome] item hitem
  have hgap : refusedIncome ∈ correlatedTaints c.group [refusedIncome] := by
    rw [List.mem_singleton.mp hrests.mem]
    decide
  refine ⟨item, hitem, fun hincome => ?_⟩
  exact Finset.disjoint_left.mp (hdisjoint c hrests refusedIncome hgap) hincome (by decide)

end Reconciliation
end Iaam
