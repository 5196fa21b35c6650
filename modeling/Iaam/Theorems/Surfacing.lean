import Iaam.Lib.Runs
import Iaam.Reconciliation.Build
import Iaam.Theorems.Discrepancy
import Iaam.Theorems.ImportOrder

/-! A failed claim surfaces. A discrepancy is set after the evidence of its own group was raised, it absorbs every
merge, and over the intervals that cover a date it is the worst status. -/

namespace Iaam
namespace Reconciliation
open Outcome DimensionStatus ReconciliationLedger

/-! ### The status of one group -/

theorem status_raised {evidence : List EvidenceItem} {m : Dimensions} {d : Dimension} (h : m.status d ≠ discrepant) :
    (evidence.foldl (fun m item => raise m item.evidence.dimensions (.fromLevel item.evidence.level)) m).status d ≠
      discrepant := by
  induction evidence generalizing m with
  | nil => exact h
  | cons item evidence ih =>
    refine ih ?_
    rw [status_raise]
    split
    · exact ((discrepant_lt_level item.evidence).trans_le (le_max_right _ _)).ne'
    · exact h

theorem status_failed {outcomes : List ClaimCheck} {m : Dimensions} {d : Dimension} :
    (outcomes.foldl (fun (m : Dimensions) check =>
      if check.outcome.isDiscrepant then m.insert check.claim.dimension .discrepant else m) m).status d = discrepant ↔
      m.status d = discrepant ∨
        ∃ check ∈ outcomes, check.outcome.isDiscrepant = true ∧ check.claim.dimension = d := by
  induction outcomes generalizing m with
  | nil => simp
  | cons check outcomes ih =>
    rw [List.foldl_cons, ih, List.exists_mem_cons_iff]
    by_cases hfailed : check.outcome.isDiscrepant = true
    · by_cases hd : check.claim.dimension = d
      · simp [hfailed, hd, Dimensions.status_insert]
      · simp [hfailed, hd, Dimensions.status_insert]
    · simp [hfailed]

/-- The status of a group is a discrepancy exactly where one of its claims failed. -/
theorem buildStatus_discrepant (c : CheckedGroup) (evidence : List EvidenceItem) (d : Dimension) :
    (buildStatus c.1 c.2.1 evidence c.2.2).dimensions.status d = discrepant ↔
      ∃ check ∈ c.outcomes, check.outcome.isDiscrepant = true ∧ check.claim.dimension = d := by
  unfold buildStatus
  dsimp only
  rw [status_failed, or_iff_right]
  · rfl
  · exact status_raised (by simp [Dimensions.status_empty])

/-! ### Merging -/

theorem status_mergeDimension {m : Dimensions} {d d' : Dimension} {value : DimensionStatus} :
    (mergeDimension m d value).status d' = discrepant ↔
      m.status d' = discrepant ∨ (d = d' ∧ value = discrepant) := by
  unfold mergeDimension
  rw [Dimensions.status_insert]
  by_cases hd : d = d'
  · subst hd
    rw [if_pos rfl]
    split
    · next h => simpa using h.symm
    · next h =>
      obtain ⟨hvalue, hslot⟩ := not_or.mp h
      have hmax : max (m.status d) value ≠ discrepant := by
        rcases max_choice (m.status d) value with hm | hm <;> rw [hm] <;> assumption
      simp [hmax, hvalue, hslot]
  · simp [hd]

theorem status_merged {l : List (Dimension × DimensionStatus)} {m : Dimensions} {d : Dimension} :
    (l.foldl (fun m (entry : Dimension × DimensionStatus) => mergeDimension m entry.1 entry.2) m).status d = discrepant ↔
      m.status d = discrepant ∨ (d, discrepant) ∈ l := by
  induction l generalizing m with
  | nil => simp
  | cons entry l ih =>
    rw [List.foldl_cons, ih, status_mergeDimension, List.mem_cons, or_assoc]
    have hentry : (entry.1 = d ∧ entry.2 = discrepant) ↔ (d, discrepant) = entry :=
      ⟨fun ⟨h, h'⟩ => by rw [← h, ← h'], fun h => by rw [← h]; exact ⟨rfl, rfl⟩⟩
    rw [hentry]

theorem mem_toList_discrepant {m : Dimensions} {d : Dimension} :
    (d, discrepant) ∈ m.toList ↔ m.status d = discrepant := by
  rw [Std.ExtTreeMap.mem_toList_iff_getElem?_eq_some]
  unfold Dimensions.status
  cases m[d]? <;> simp

theorem mergeInto_discrepant {existing status : ReconciliationStatus} {d : Dimension} :
    (mergeInto existing status).dimensions.status d = discrepant ↔
      existing.dimensions.status d = discrepant ∨ status.dimensions.status d = discrepant := by
  unfold mergeInto
  exact status_merged.trans (or_congr_right mem_toList_discrepant)

section
variable {account : AccountId} {period : AssertionPeriod} {d : Dimension}

theorem statusOver_mergeStatus {into : List ReconciliationStatus} {status : ReconciliationStatus} {gaps : List Taint} :
    (ReconciliationLedger.mk (mergeStatus into status) gaps).statusOver account period d = discrepant ↔
      (ReconciliationLedger.mk into gaps).statusOver account period d = discrepant ∨
        (status.account = account ∧ status.period = period ∧ status.dimensions.status d = discrepant) := by
  unfold ReconciliationLedger.statusOver mergeStatus
  dsimp only
  rw [find_updateStatus ?keeps ?named]
  case keeps => exact fun _ => ⟨rfl, rfl⟩
  case named => exact ⟨rfl, rfl⟩
  by_cases hkey : status.account = account ∧ status.period = period
  · rw [if_pos hkey]
    obtain ⟨rfl, rfl⟩ := hkey
    cases into.find? fun s => decide (s.account = status.account ∧ s.period = status.period) with
    | none => simp
    | some existing => simp [mergeInto_discrepant]
  · rw [if_neg hkey, or_iff_left fun h => hkey ⟨h.1, h.2.1⟩]

theorem statusOver_merged {statuses into : List ReconciliationStatus} {gaps : List Taint} :
    (ReconciliationLedger.mk (statuses.foldl mergeStatus into) gaps).statusOver account period d = discrepant ↔
      (ReconciliationLedger.mk into gaps).statusOver account period d = discrepant ∨ ∃ status ∈ statuses,
        status.account = account ∧ status.period = period ∧ status.dimensions.status d = discrepant := by
  induction statuses generalizing into with
  | nil => simp
  | cons status statuses ih => rw [List.foldl_cons, ih, statusOver_mergeStatus, List.exists_mem_cons_iff, or_assoc]

theorem ofChecked_eq (checked : List CheckedGroup) (evidence : List EvidenceItem) (gaps : List Taint) :
    ReconciliationLedger.ofChecked checked evidence gaps =
      ⟨(checked.map fun c => buildStatus c.1 c.2.1 evidence c.2.2).foldl mergeStatus [], gaps⟩ := by
  rw [List.foldl_map]
  rfl

/-- A group of this account and interval has a failed claim in the dimension. -/
def Failed (checked : List CheckedGroup) (account : AccountId) (period : AssertionPeriod) (d : Dimension) : Prop :=
  ∃ c ∈ checked, c.group.account = account ∧ c.group.period = period ∧
    ∃ check ∈ c.outcomes, check.outcome.isDiscrepant = true ∧ check.claim.dimension = d

/-- The merged status is a discrepancy exactly where a claim failed. -/
theorem statusOver_ofChecked (checked : List CheckedGroup) (evidence : List EvidenceItem) (gaps : List Taint) :
    (ReconciliationLedger.ofChecked checked evidence gaps).statusOver account period d = discrepant ↔
      Failed checked account period d := by
  rw [ofChecked_eq, statusOver_merged, or_iff_right (by simp [ReconciliationLedger.statusOver]), Failed]
  constructor
  · rintro ⟨status, hstatus, haccount, hperiod, hd⟩
    obtain ⟨c, hc, rfl⟩ := List.mem_map.mp hstatus
    exact ⟨c, hc, haccount, hperiod, (buildStatus_discrepant c evidence d).mp hd⟩
  · rintro ⟨c, hc, haccount, hperiod, hfailed⟩
    exact ⟨_, List.mem_map_of_mem hc, haccount, hperiod, (buildStatus_discrepant c evidence d).mpr hfailed⟩

/-! ### The worst status of a date -/

theorem worst_eq_min {l : List ReconciliationStatus} {worst : DimensionStatus} :
    l.foldl (fun (worst : Option DimensionStatus) status =>
      some ((worst.map (min · (status.dimensions.status d))).getD (status.dimensions.status d))) (some worst) =
        some ((l.map fun status => status.dimensions.status d).foldl min worst) := by
  induction l generalizing worst with
  | nil => rfl
  | cons status l ih =>
    rw [List.foldl_cons, List.map_cons, List.foldl_cons]
    exact ih

/-- The statuses of a dimension over the intervals that cover a date. -/
def coveringDate (l : ReconciliationLedger) (account : AccountId) (date : Date) (d : Dimension) : List DimensionStatus :=
  (l.statuses.filter fun status => status.account = account ∧ status.period.contains date).map
    fun status => status.dimensions.status d

theorem statusFor_eq_min (l : ReconciliationLedger) (account : AccountId) (date : Date) (d : Dimension) :
    l.statusFor account date d = (coveringDate l account date d).min?.getD provisional := by
  unfold ReconciliationLedger.statusFor coveringDate
  dsimp only
  cases l.statuses.filter fun status => decide (status.account = account ∧ status.period.contains date = true) with
  | nil => rfl
  | cons status statuses =>
    rw [List.foldl_cons, List.map_cons, List.min?_cons']
    exact congrArg (fun worst => Option.getD worst provisional) worst_eq_min

/-- A date is discrepant exactly where one of the intervals that cover it is. -/
theorem statusFor_eq_discrepant {l : ReconciliationLedger} {date : Date} :
    l.statusFor account date d = discrepant ↔ discrepant ∈ coveringDate l account date d := by
  have hleast : ∀ s : DimensionStatus, discrepant ≤ s := fun s => by cases s <;> decide
  rw [statusFor_eq_min]
  constructor
  · intro h
    cases hmin : (coveringDate l account date d).min? with
    | none =>
      rw [hmin] at h
      cases h
    | some worst =>
      rw [hmin] at h
      cases h
      exact List.min?_mem hmin
  · intro h
    rw [List.min?_eq_some_iff.mpr ⟨h, fun s _ => hleast s⟩]
    rfl

/-- What is a discrepancy over an interval is one on every date the interval covers. -/
theorem statusFor_discrepant {l : ReconciliationLedger} {date : Date} (h : l.statusOver account period d = discrepant)
    (hdate : period.contains date = true) : l.statusFor account date d = discrepant := by
  unfold ReconciliationLedger.statusOver at h
  cases hfind : l.statuses.find? fun status => decide (status.account = account ∧ status.period = period) with
  | none =>
    rw [hfind] at h
    cases h
  | some status =>
    rw [hfind] at h
    have hkey : status.account = account ∧ status.period = period := by simpa using List.find?_some hfind
    have hmem : status ∈ l.statuses.filter fun status => status.account = account ∧ status.period.contains date :=
      List.mem_filter.mpr ⟨List.mem_of_find?_eq_some hfind, by simp [hkey.1, hkey.2, hdate]⟩
    exact statusFor_eq_discrepant.mpr (List.mem_map.mpr ⟨status, hmem, h⟩)

end

/-! ### The claims of the groups -/

/-- A group of the account and the interval holds the claim. -/
def Holds (groups : List StatementGroup) (account : AccountId) (period : AssertionPeriod) (claim : ControlClaim) : Prop :=
  ∃ group ∈ groups, group.account = account ∧ group.period = period ∧ claim ∈ group.claims

theorem holds_addClaim (account : AccountId) (period : AssertionPeriod) (channel : SourceChannel) (claim : ControlClaim)
    (groups : List StatementGroup) : Holds (addClaim account period channel claim groups) account period claim := by
  induction groups with
  | nil => exact ⟨_, List.mem_singleton_self _, rfl, rfl, List.mem_singleton_self _⟩
  | cons group groups ih =>
    unfold addClaim
    split
    · next hkey => exact ⟨_, List.mem_cons_self, hkey.1, hkey.2.1, List.mem_append_right _ (List.mem_singleton_self _)⟩
    · obtain ⟨other, hother, h⟩ := ih
      exact ⟨other, List.mem_cons_of_mem _ hother, h⟩

theorem Holds.addClaim {groups : List StatementGroup} {account account' : AccountId} {period period' : AssertionPeriod}
    {claim claim' : ControlClaim} (h : Holds groups account period claim) (channel : SourceChannel) :
    Holds (addClaim account' period' channel claim' groups) account period claim := by
  obtain ⟨group, hgroup, haccount, hperiod, hclaim⟩ := h
  induction groups with
  | nil => cases hgroup
  | cons first groups ih =>
    unfold Iaam.addClaim
    rcases List.mem_cons.mp hgroup with rfl | hgroup
    · split
      · exact ⟨_, List.mem_cons_self, haccount, hperiod, List.mem_append_left _ hclaim⟩
      · exact ⟨_, List.mem_cons_self, haccount, hperiod, hclaim⟩
    · split
      · exact ⟨group, List.mem_cons_of_mem _ hgroup, haccount, hperiod, hclaim⟩
      · obtain ⟨other, hother, h⟩ := ih hgroup
        exact ⟨other, List.mem_cons_of_mem _ hother, h⟩

theorem Holds.collected {events : List Event} {groups : List StatementGroup} {account : AccountId}
    {period : AssertionPeriod} {claim : ControlClaim} (h : Holds groups account period claim) :
    Holds (events.foldl collectGroup groups) account period claim := by
  induction events generalizing groups with
  | nil => exact h
  | cons e events ih =>
    refine ih ?_
    unfold collectGroup
    split
    · exact h.addClaim _
    · exact h

/-- Every assertion is a claim of a group of its account and interval. -/
theorem holds_collectGroups {events : List Event} {e : Event} {period : AssertionPeriod} {claim : ControlClaim}
    (he : e ∈ events) (hkind : e.kind = .controlAssertion period claim) :
    Holds (collectGroups events) e.account period claim := by
  obtain ⟨front, back, rfl⟩ := List.append_of_mem he
  unfold collectGroups
  rw [List.foldl_append, List.foldl_cons]
  refine Holds.collected ?_
  rw [collectGroup, hkind]
  exact holds_addClaim _ _ _ _ _

/-! ### The built ledger -/

section
variable {effective : List Event} {exceptions : PerimeterExceptions} {gaps : List Taint} {groups : List StatementGroup}

theorem checkGroup_ok {group : StatementGroup} {c : CheckedGroup}
    (h : checkGroup effective exceptions gaps group = .ok c) : ∃ observed,
      observe effective group.account group.period = .ok observed ∧
        c = (group, group.claims.map (checkOf exceptions group.account observed), correlatedTaints group gaps) := by
  obtain ⟨observed, hobserved, h⟩ := bind_ok.mp h
  cases h
  exact ⟨observed, hobserved, rfl⟩

theorem buildGroups_ok {ledger : ReconciliationLedger} (h : buildGroups effective exceptions gaps groups = .ok ledger) :
    ∃ checked, groups.mapM (checkGroup effective exceptions gaps) = .ok checked ∧
      ledger = .ofChecked checked (generatedEvidence checked) gaps := by
  obtain ⟨checked, hchecked, h⟩ := bind_ok.mp h
  cases h
  exact ⟨checked, hchecked, rfl⟩

/-- A failed claim of a group is a discrepancy of its account and interval. -/
theorem statusOver_of_failed {ledger : ReconciliationLedger} {account : AccountId} {period : AssertionPeriod}
    {claim : ControlClaim} {observed : ObservedTotals}
    (h : buildGroups effective exceptions gaps groups = .ok ledger) (hholds : Holds groups account period claim)
    (hobserved : observe effective account period = .ok observed)
    (hfailed : (applyExceptions (checkClaim claim observed) account claim.dimension exceptions).isDiscrepant = true) :
    ledger.statusOver account period claim.dimension = discrepant := by
  obtain ⟨checked, hchecked, rfl⟩ := buildGroups_ok h
  rw [statusOver_ofChecked]
  obtain ⟨group, hgroup, rfl, rfl, hclaim⟩ := hholds
  obtain ⟨c, hc, hcheck⟩ := Runs.mem_of_mapM hchecked hgroup
  obtain ⟨observed', hobserved', rfl⟩ := checkGroup_ok hcheck
  cases hobserved.symm.trans hobserved'
  exact ⟨_, hc, rfl, rfl, _, List.mem_map_of_mem hclaim, hfailed, rfl⟩

end

end Reconciliation
end Iaam
