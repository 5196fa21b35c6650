import Mathlib.Data.List.Permutation
import Iaam.Lib.Search
import Iaam.Theorems.Surfacing

/-! What the order of the groups does to the ledger. The discrepancies do not depend on it. The other statuses are
maxima over the evidence, and the evidence depends on the order only where two statements of an account tie as the
latest one before a third. -/

namespace Iaam
namespace Reconciliation
open Outcome DimensionStatus ReconciliationLedger

/-! ### The status of an account and an interval -/

/-- What the evidence raises a dimension to. -/
def raisedTo (evidence : List EvidenceItem) (account : AccountId) (period : AssertionPeriod) (d : Dimension) :
    DimensionStatus :=
  evidence.foldl (fun status item => lift item account period d status) .provisional

section
variable {account : AccountId} {period : AssertionPeriod} {d : Dimension}

theorem le_foldl_lift {evidence : List EvidenceItem} {status v : DimensionStatus} :
    v ≤ evidence.foldl (fun status item => lift item account period d status) status ↔
      v ≤ status ∨ ∃ item ∈ evidence, Covers item account period d ∧ v ≤ .fromLevel item.evidence.level := by
  induction evidence generalizing status with
  | nil => simp
  | cons item evidence ih =>
    rw [List.foldl_cons, ih, List.exists_mem_cons_iff, ← or_assoc]
    refine or_congr_left ?_
    unfold lift
    split
    · next hcovers => simp [hcovers]
    · next hcovers => simp [hcovers]

theorem raisedTo_ne_discrepant (evidence : List EvidenceItem) : raisedTo evidence account period d ≠ discrepant := by
  intro h
  have hle : provisional ≤ raisedTo evidence account period d := le_foldl_lift.mpr (Or.inl le_rfl)
  rw [h] at hle
  exact absurd hle (by decide)

theorem status_own {evidence : List EvidenceItem} {m : Dimensions} :
    ((evidence.filter fun item => item.account = account ∧ item.period = period).foldl
      (fun m item => raise m item.evidence.dimensions (.fromLevel item.evidence.level)) m).status d =
        evidence.foldl (fun status item => lift item account period d status) (m.status d) := by
  induction evidence generalizing m with
  | nil => rfl
  | cons item evidence ih =>
    rw [List.foldl_cons]
    by_cases hkey : item.account = account ∧ item.period = period
    · rw [List.filter_cons_of_pos (by simpa using hkey), List.foldl_cons, ih, status_raise]
      congr 1
      have hcovers : Covers item account period d ↔ d ∈ item.evidence.dimensions :=
        ⟨fun h => h.2.2, fun h => ⟨hkey.1, hkey.2, h⟩⟩
      simp only [lift, hcovers]
    · have hno : ¬Covers item account period d := fun h => hkey ⟨h.1, h.2.1⟩
      rw [List.filter_cons_of_neg (by simpa using hkey), ih]
      simp only [lift, if_neg hno]

theorem status_unfailed {outcomes : List ClaimCheck} {m : Dimensions}
    (h : ¬∃ check ∈ outcomes, check.outcome.isDiscrepant = true ∧ check.claim.dimension = d) :
    (outcomes.foldl (fun (m : Dimensions) check =>
      if check.outcome.isDiscrepant then m.insert check.claim.dimension .discrepant else m) m).status d = m.status d := by
  induction outcomes generalizing m with
  | nil => rfl
  | cons check outcomes ih =>
    rw [List.exists_mem_cons_iff, not_or] at h
    rw [List.foldl_cons, ih h.2]
    split
    · next hfailed =>
      have hne : check.claim.dimension ≠ d := fun hd => h.1 ⟨hfailed, hd⟩
      simp [Dimensions.status_insert, hne]
    · rfl

/-- Where no claim of a group failed, its status is what the evidence raises it to. -/
theorem buildStatus_raised {c : CheckedGroup} {evidence : List EvidenceItem} (haccount : c.group.account = account)
    (hperiod : c.group.period = period)
    (h : ¬∃ check ∈ c.outcomes, check.outcome.isDiscrepant = true ∧ check.claim.dimension = d) :
    (buildStatus c.1 c.2.1 evidence c.2.2).dimensions.status d = raisedTo evidence account period d := by
  subst haccount
  subst hperiod
  refine (status_unfailed h).trans (status_own.trans ?_)
  rw [Dimensions.status_empty]
  rfl

theorem mergeInto_same {existing status : ReconciliationStatus} {r : DimensionStatus} (hr : r ≠ discrepant)
    (hexisting : existing.dimensions.status d = r) (hstatus : status.dimensions.status d = r) :
    (mergeInto existing status).dimensions.status d = r := by
  have hentries : ∀ entry ∈ status.dimensions.toList, entry.1 = d → entry.2 = r := by
    rintro ⟨k, v⟩ hentry rfl
    rw [Dimensions.status, Std.ExtTreeMap.mem_toList_iff_getElem?_eq_some.mp hentry] at hstatus
    exact hstatus
  unfold mergeInto
  dsimp only
  generalize status.dimensions.toList = l at hentries
  generalize existing.dimensions = m at hexisting
  induction l generalizing m with
  | nil => exact hexisting
  | cons entry l ih =>
    refine ih (fun entry' hentry' => hentries entry' (List.mem_cons_of_mem _ hentry')) _ ?_
    show (mergeDimension m entry.1 entry.2).status d = r
    unfold mergeDimension
    rw [Dimensions.status_insert]
    by_cases hd : entry.1 = d
    · simp [hd, hentries entry List.mem_cons_self hd, hexisting, hr]
    · simp [hd, hexisting]

/-- Statuses that agree on a dimension merge into one that agrees with them. -/
theorem statusOver_same {statuses into : List ReconciliationStatus} {gaps : List Taint} {r : DimensionStatus}
    (hr : r ≠ discrepant)
    (hinto : ∀ found, into.find? (fun s => s.account = account ∧ s.period = period) = some found →
      found.dimensions.status d = r)
    (hstatuses : ∀ status ∈ statuses, status.account = account → status.period = period →
      status.dimensions.status d = r)
    (hsome : (into.find? fun s => s.account = account ∧ s.period = period).isSome = true ∨
      ∃ status ∈ statuses, status.account = account ∧ status.period = period) :
    (ReconciliationLedger.mk (statuses.foldl mergeStatus into) gaps).statusOver account period d = r := by
  induction statuses generalizing into with
  | nil =>
    obtain ⟨found, hfound⟩ := Option.isSome_iff_exists.mp (hsome.resolve_right (by simp))
    unfold ReconciliationLedger.statusOver
    rw [List.foldl_nil, hfound]
    exact hinto found hfound
  | cons status statuses ih =>
    have hfind : (mergeStatus into status).find? (fun s => s.account = account ∧ s.period = period) =
        if status.account = account ∧ status.period = period then
          some (((into.find? fun s => s.account = account ∧ s.period = period).map (mergeInto · status)).getD status)
        else into.find? fun s => s.account = account ∧ s.period = period := by
      unfold mergeStatus
      rw [find_updateStatus ?keeps ?named]
      case keeps => exact fun _ => ⟨rfl, rfl⟩
      case named => exact ⟨rfl, rfl⟩
    rw [List.foldl_cons]
    refine ih ?_ (fun status' h => hstatuses status' (List.mem_cons_of_mem _ h)) ?_
    · intro found hfound
      rw [hfind] at hfound
      split at hfound
      · next hkey =>
        have hstatus := hstatuses status List.mem_cons_self hkey.1 hkey.2
        cases hold : into.find? fun s => decide (s.account = account ∧ s.period = period) with
        | none =>
          rw [hold] at hfound
          cases hfound
          exact hstatus
        | some existing =>
          rw [hold] at hfound
          cases hfound
          exact mergeInto_same hr (hinto existing hold) hstatus
      · exact hinto found hfound
    · rw [hfind]
      split
      · exact Or.inl rfl
      · next hkey =>
        refine hsome.imp_right ?_
        rw [List.exists_mem_cons_iff]
        exact fun h => h.resolve_left hkey

/-- Where no claim failed, the merged status is what the evidence raises it to. -/
theorem statusOver_raised {checked : List CheckedGroup} {evidence : List EvidenceItem} {gaps : List Taint}
    (hclean : ¬Failed checked account period d)
    (hany : ∃ c ∈ checked, c.group.account = account ∧ c.group.period = period) :
    (ReconciliationLedger.ofChecked checked evidence gaps).statusOver account period d =
      raisedTo evidence account period d := by
  rw [ofChecked_eq]
  refine statusOver_same (raisedTo_ne_discrepant evidence) (fun found h => (nomatch h)) ?_ (Or.inr ?_)
  · intro status hstatus haccount hperiod
    obtain ⟨c, hc, rfl⟩ := List.mem_map.mp hstatus
    exact buildStatus_raised haccount hperiod fun hfailed => hclean ⟨c, hc, haccount, hperiod, hfailed⟩
  · obtain ⟨c, hc, hkey⟩ := hany
    exact ⟨_, List.mem_map_of_mem hc, hkey⟩

end

/-! ### The evidence of another order -/

/-- The items raise the same dimensions of the same account and interval to the same level. -/
def Alike (item item' : EvidenceItem) : Prop :=
  item'.account = item.account ∧ item'.period = item.period ∧ item'.evidence.dimensions = item.evidence.dimensions ∧
    item'.evidence.level = item.evidence.level

theorem Alike.refl (item : EvidenceItem) : Alike item item := ⟨rfl, rfl, rfl, rfl⟩

theorem raisedTo_le {evidence evidence' : List EvidenceItem}
    (h : ∀ item ∈ evidence, ∃ item' ∈ evidence', Alike item item') (account : AccountId) (period : AssertionPeriod)
    (d : Dimension) : raisedTo evidence account period d ≤ raisedTo evidence' account period d := by
  refine le_foldl_lift.mpr ?_
  refine (le_foldl_lift.mp (le_refl (raisedTo evidence account period d))).imp_right ?_
  rintro ⟨item, hitem, hcovers, hlevel⟩
  obtain ⟨item', hitem', haccount, hperiod, hdimensions, hlevel'⟩ := h item hitem
  refine ⟨item', hitem', ⟨haccount.trans hcovers.1, hperiod.trans hcovers.2.1, hdimensions ▸ hcovers.2.2⟩, ?_⟩
  rwa [hlevel']

theorem fromMatch_eq_some {ground : Ground} {confirming confirmed : SourceChannel} {matched : Finset Dimension}
    {evidence : Evidence} (h : Evidence.fromMatch ground confirming confirmed matched = some evidence) :
    evidence.ground = ground ∧ evidence.confirming = confirming ∧ evidence.confirmed = confirmed ∧
      evidence.dimensions = ground.dimensions ∩ matched := by
  unfold Evidence.fromMatch at h
  split at h
  · cases h
    exact ⟨rfl, rfl, rfl, rfl⟩
  · cases h

/-- Another pair of channels confirms the same dimensions. -/
theorem exists_fromMatch {ground : Ground} {confirming confirmed : SourceChannel} {matched : Finset Dimension}
    {evidence : Evidence} (h : Evidence.fromMatch ground confirming confirmed matched = some evidence)
    (confirming' confirmed' : SourceChannel) :
    ∃ evidence', Evidence.fromMatch ground confirming' confirmed' matched = some evidence' := by
  unfold Evidence.fromMatch at h ⊢
  split at h
  · next hreached => exact ⟨_, dif_pos hreached⟩
  · cases h

/-- `prior` is a latest statement of the account among those that end before `group` starts. -/
def Latest (groups : List StatementGroup) (group prior : StatementGroup) : Prop :=
  (prior ∈ groups ∧ prior.account = group.account ∧ prior.period.to < group.period.from) ∧
    ∀ other ∈ groups, other.account = group.account → other.period.to < group.period.from →
      other.period.to ≤ prior.period.to

/-- Statements that tie as the latest before another one are of one interval and have the same gaps. -/
def Untied (groups : List StatementGroup) (gaps : List Taint) : Prop :=
  ∀ group ∈ groups, ∀ prior prior', Latest groups group prior → Latest groups group prior' →
    prior.period = prior'.period ∧
      dimensionsFromTaints (correlatedTaints prior gaps) = dimensionsFromTaints (correlatedTaints prior' gaps)

/-- The gaps of each group are the ones correlated with it. -/
def Correlated (checked : List CheckedGroup) (gaps : List Taint) : Prop :=
  ∀ c ∈ checked, c.2.2 = correlatedTaints c.group gaps

section
variable {checked checked' : List CheckedGroup} {gaps : List Taint} {c : CheckedGroup} {item : EvidenceItem}

theorem latest_of_maxByKey {prior : CheckedGroup}
    (h : Search.maxByKey (fun other : CheckedGroup => other.group.period.to) (checked.filter fun other =>
      other.group.account = c.group.account ∧ other.group.period.to < c.group.period.from) = some prior) :
    prior ∈ checked ∧ Latest (checked.map CheckedGroup.group) c.group prior.group := by
  have hmem := List.mem_filter.mp (Search.mem_of_maxByKey h)
  have hbefore : prior.group.account = c.group.account ∧ prior.group.period.to < c.group.period.from := by
    simpa using hmem.2
  refine ⟨hmem.1, ⟨List.mem_map_of_mem hmem.1, hbefore⟩, ?_⟩
  intro other hother haccount hends
  obtain ⟨c', hc', rfl⟩ := List.mem_map.mp hother
  exact Search.le_of_maxByKey h (List.mem_filter.mpr ⟨hc', by simp [haccount, hends]⟩)

theorem Latest.perm {groups groups' : List StatementGroup} (hp : groups.Perm groups') {group prior : StatementGroup}
    (h : Latest groups group prior) : Latest groups' group prior := by
  refine ⟨⟨hp.mem_iff.mp h.1.1, h.1.2⟩, fun other hother => h.2 other (hp.mem_iff.mpr hother)⟩

/-- What a statement says about the latest one before it, it says in every order in which that one is determined. -/
theorem groundOne_alike (hp : checked.Perm checked') (huntied : Untied (checked.map CheckedGroup.group) gaps)
    (hgaps : Correlated checked gaps) (hc : c ∈ checked) (h : groundOne checked c = some item) :
    ∃ item', groundOne checked' c = some item' ∧ Alike item item' := by
  unfold groundOne at h ⊢
  dsimp only at h ⊢
  split at h
  · cases h
  · next hopenings =>
    rw [if_neg hopenings]
    obtain ⟨prior, hprior, h⟩ := Option.bind_eq_some_iff.mp h
    obtain ⟨evidence, hevidence, h⟩ := Option.bind_eq_some_iff.mp h
    cases h
    have hfilter : (checked'.filter fun other => decide (other.group.account = c.group.account ∧
        other.group.period.to < c.group.period.from)) ≠ [] :=
      List.ne_nil_of_mem ((hp.filter _).mem_iff.mp (Search.mem_of_maxByKey hprior))
    obtain ⟨prior', hprior'⟩ := Search.exists_maxByKey (fun other : CheckedGroup => other.group.period.to) hfilter
    obtain ⟨hmem, hlatest⟩ := latest_of_maxByKey hprior
    obtain ⟨hmem', hlatest'⟩ := latest_of_maxByKey hprior'
    obtain ⟨hperiod, htaints⟩ := huntied c.group (List.mem_map_of_mem hc) prior.group prior'.group hlatest
      (hlatest'.perm (hp.symm.map _))
    have htainted : prior'.tainted = prior.tainted := by
      unfold CheckedGroup.tainted
      rw [hgaps prior hmem, hgaps prior' (hp.mem_iff.mpr hmem'), htaints]
    obtain ⟨evidence', hevidence'⟩ := exists_fromMatch hevidence c.group.channel prior'.group.channel
    rw [← htainted] at hevidence'
    refine ⟨_, Option.bind_eq_some_iff.mpr ⟨prior', hprior', Option.bind_eq_some_iff.mpr ⟨evidence', hevidence', rfl⟩⟩,
      rfl, hperiod.symm, ?_, ?_⟩
    · rw [(fromMatch_eq_some hevidence).2.2.2, (fromMatch_eq_some hevidence').2.2.2, htainted]
    · unfold Evidence.level
      rw [(fromMatch_eq_some hevidence).1, (fromMatch_eq_some hevidence').1]
      rfl

theorem isIndependentOf_comm (l r : SourceChannel) : l.isIndependentOf r = r.isIndependentOf l := by
  simp only [SourceChannel.isIndependentOf, ne_comm]

/-- Two channels agree about the same things whichever is named first. -/
theorem agreement_alike {left right : CheckedGroup} (h : agreement left right = some item) :
    ∃ item', agreement right left = some item' ∧ Alike item item' := by
  unfold agreement at h ⊢
  split at h
  · cases h
  · next hpair =>
    obtain ⟨haccount, hperiod, hindependent⟩ : left.group.account = right.group.account ∧
        left.group.period = right.group.period ∧ left.group.channel.isIndependentOf right.group.channel = true := by
      simpa using hpair
    rw [if_neg (by simp [haccount, hperiod, ← isIndependentOf_comm left.group.channel, hindependent])]
    obtain ⟨evidence, hevidence, rfl⟩ := Option.map_eq_some_iff.mp h
    obtain ⟨evidence', hevidence'⟩ := exists_fromMatch hevidence left.group.channel right.group.channel
    rw [Finset.inter_comm] at hevidence'
    have hspec := fromMatch_eq_some hevidence
    have hspec' := fromMatch_eq_some hevidence'
    refine ⟨_, Option.map_eq_some_iff.mpr ⟨evidence', hevidence', rfl⟩, haccount.symm, hperiod.symm, ?_, ?_⟩
    · rw [hspec.2.2.2, hspec'.2.2.2, Finset.inter_comm (confirmedDimensions right)]
    · unfold Evidence.level
      rw [hspec.1, hspec.2.1, hspec.2.2.1, hspec'.1, hspec'.2.1, hspec'.2.2.1, isIndependentOf_comm]

theorem mem_groundThree : item ∈ groundThree checked ↔
    ∃ left right, [left, right].Sublist checked ∧ agreement left right = some item := by
  induction checked with
  | nil => simp [groundThree]
  | cons first rest ih =>
    rw [groundThree, List.mem_append, List.mem_filterMap, ih]
    constructor
    · rintro (⟨right, hright, h⟩ | ⟨left, right, hpair, h⟩)
      · exact ⟨first, right, (List.singleton_sublist.mpr hright).cons_cons first, h⟩
      · exact ⟨left, right, hpair.cons first, h⟩
    · rintro ⟨left, right, hpair, h⟩
      cases hpair with
      | cons _ hpair => exact Or.inr ⟨left, right, hpair, h⟩
      | cons_cons _ hpair => exact Or.inl ⟨right, List.singleton_sublist.mp hpair, h⟩

theorem groundThree_alike (hp : checked.Perm checked') (h : item ∈ groundThree checked) :
    ∃ item' ∈ groundThree checked', Alike item item' := by
  obtain ⟨left, right, hpair, hagree⟩ := mem_groundThree.mp h
  obtain ⟨pair, hperm, hpair'⟩ := hpair.subperm.trans hp.subperm
  rcases List.perm_pair.mp hperm with rfl | rfl
  · exact ⟨item, mem_groundThree.mpr ⟨left, right, hpair', hagree⟩, .refl item⟩
  · obtain ⟨item', hagree', halike⟩ := agreement_alike hagree
    exact ⟨item', mem_groundThree.mpr ⟨right, left, hpair', hagree'⟩, halike⟩

theorem mem_groundTwo : item ∈ groundTwo checked ↔
    ∃ earlier ∈ checked, ∃ later ∈ checked, continuity earlier later = some item := by
  simp [groundTwo]

theorem generatedEvidence_alike (hp : checked.Perm checked') (huntied : Untied (checked.map CheckedGroup.group) gaps)
    (hgaps : Correlated checked gaps) (h : item ∈ generatedEvidence checked) :
    ∃ item' ∈ generatedEvidence checked', Alike item item' := by
  unfold generatedEvidence at h ⊢
  simp only [List.mem_append, List.mem_flatMap, Option.mem_toList] at h ⊢
  rcases h with (⟨c, hc, hfive | hone⟩ | htwo) | hthree
  · exact ⟨item, .inl (.inl ⟨c, hp.mem_iff.mp hc, .inl hfive⟩), .refl item⟩
  · obtain ⟨item', hone', halike⟩ := groundOne_alike hp huntied hgaps hc hone
    exact ⟨item', .inl (.inl ⟨c, hp.mem_iff.mp hc, .inr hone'⟩), halike⟩
  · obtain ⟨earlier, hearlier, later, hlater, hitem⟩ := mem_groundTwo.mp htwo
    have htwo' := mem_groundTwo.mpr ⟨earlier, hp.mem_iff.mp hearlier, later, hp.mem_iff.mp hlater, hitem⟩
    exact ⟨item, .inl (.inr htwo'), .refl item⟩
  · obtain ⟨item', hthree', halike⟩ := groundThree_alike hp hthree
    exact ⟨item', .inr hthree', halike⟩

theorem Untied.perm {groups groups' : List StatementGroup} (hp : groups.Perm groups') (h : Untied groups gaps) :
    Untied groups' gaps := fun group hgroup prior prior' hprior hprior' =>
  h group (hp.mem_iff.mpr hgroup) prior prior' (hprior.perm hp.symm) (hprior'.perm hp.symm)

theorem raisedTo_perm (hp : checked.Perm checked') (huntied : Untied (checked.map CheckedGroup.group) gaps)
    (hgaps : Correlated checked gaps) (account : AccountId) (period : AssertionPeriod) (d : Dimension) :
    raisedTo (generatedEvidence checked') account period d = raisedTo (generatedEvidence checked) account period d := by
  refine le_antisymm (raisedTo_le (fun item hitem => ?_) account period d)
    (raisedTo_le (fun item hitem => ?_) account period d)
  · exact generatedEvidence_alike hp.symm (huntied.perm (hp.map _)) (fun c hc => hgaps c (hp.mem_iff.mpr hc)) hitem
  · exact generatedEvidence_alike hp huntied hgaps hitem

end

/-! ### The worst status of a date -/

section
variable {account : AccountId} {period : AssertionPeriod} {d : Dimension} {l l' : ReconciliationLedger}

/-- What a status is found by. -/
def keyOf (status : ReconciliationStatus) : AccountId × AssertionPeriod := (status.account, status.period)

theorem keys_mergeStatus {into : List ReconciliationStatus} {status : ReconciliationStatus} :
    (mergeStatus into status).map keyOf =
      if keyOf status ∈ into.map keyOf then into.map keyOf else into.map keyOf ++ [keyOf status] := by
  unfold mergeStatus
  induction into with
  | nil => simp [updateStatus]
  | cons first rest ih =>
    unfold updateStatus
    by_cases hkey : first.account = status.account ∧ first.period = status.period
    · have hfirst : keyOf first = keyOf status := Prod.ext hkey.1 hkey.2
      have hmerged : keyOf (mergeInto first status) = keyOf first := rfl
      simp [hkey, hfirst, hmerged]
    · have hfirst : keyOf status ≠ keyOf first := fun h => hkey ⟨(congrArg Prod.fst h).symm, (congrArg Prod.snd h).symm⟩
      rw [if_neg hkey, List.map_cons, ih, List.map_cons]
      by_cases hrest : keyOf status ∈ rest.map keyOf
      · rw [if_pos hrest, if_pos (List.mem_cons_of_mem _ hrest)]
      · rw [if_neg hrest, if_neg (List.not_mem_cons_of_ne_of_not_mem hfirst hrest), List.cons_append]

theorem nodup_keys {statuses into : List ReconciliationStatus} (h : (into.map keyOf).Nodup) :
    ((statuses.foldl mergeStatus into).map keyOf).Nodup := by
  induction statuses generalizing into with
  | nil => exact h
  | cons status statuses ih =>
    refine ih ?_
    rw [keys_mergeStatus]
    split
    · exact h
    · next hnew => exact h.append (List.nodup_singleton _) (by simpa using hnew)

theorem mem_keys {statuses into : List ReconciliationStatus} {key : AccountId × AssertionPeriod} :
    key ∈ (statuses.foldl mergeStatus into).map keyOf ↔ key ∈ into.map keyOf ∨ key ∈ statuses.map keyOf := by
  induction statuses generalizing into with
  | nil => simp
  | cons status statuses ih =>
    rw [List.foldl_cons, ih, keys_mergeStatus, List.map_cons, List.mem_cons]
    split
    · next hold =>
      constructor
      · exact fun h => h.imp_right .inr
      · rintro (h | rfl | h)
        · exact .inl h
        · exact .inl hold
        · exact .inr h
    · rw [List.mem_append, List.mem_singleton, or_assoc]

/-- One status for each account and interval of the groups. -/
structure Keyed (l : ReconciliationLedger) (checked : List CheckedGroup) : Prop where
  nodup : (l.statuses.map keyOf).Nodup
  keys : ∀ key, key ∈ l.statuses.map keyOf ↔ key ∈ checked.map fun c => (c.group.account, c.group.period)

theorem keyed_ofChecked (checked : List CheckedGroup) (evidence : List EvidenceItem) (gaps : List Taint) :
    Keyed (.ofChecked checked evidence gaps) checked := by
  rw [ofChecked_eq]
  refine ⟨nodup_keys List.nodup_nil, fun key => ?_⟩
  rw [mem_keys, List.map_map]
  exact or_iff_right (by simp)

theorem statusOver_of_mem (hnodup : (l.statuses.map keyOf).Nodup) {status : ReconciliationStatus}
    (h : status ∈ l.statuses) : l.statusOver status.account status.period d = status.dimensions.status d := by
  have hfind : l.statuses.find? (fun s => s.account = status.account ∧ s.period = status.period) = some status := by
    refine (Search.find_eq_some fun x hx y hy hkx hky => ?_).mpr ⟨h, by simp⟩
    rw [decide_eq_true_eq] at hkx hky
    exact List.inj_on_of_nodup_map hnodup hx hy
      (Prod.ext (hkx.1.trans hky.1.symm) (hkx.2.trans hky.2.symm))
  unfold ReconciliationLedger.statusOver
  rw [hfind]

theorem statusOver_absent {checked : List CheckedGroup} (hl : Keyed l checked)
    (h : ¬∃ c ∈ checked, c.group.account = account ∧ c.group.period = period) :
    l.statusOver account period d = provisional := by
  unfold ReconciliationLedger.statusOver
  cases hfind : l.statuses.find? fun status => decide (status.account = account ∧ status.period = period) with
  | none => rfl
  | some status =>
    have hkey : status.account = account ∧ status.period = period := by simpa using List.find?_some hfind
    obtain ⟨c, hc, hkey'⟩ := List.mem_map.mp ((hl.keys (keyOf status)).mp
      (List.mem_map_of_mem (List.mem_of_find?_eq_some hfind)))
    obtain ⟨hca, hcp⟩ := Prod.mk.inj hkey'
    exact absurd ⟨c, hc, hca.trans hkey.1, hcp.trans hkey.2⟩ h

/-- A date collects what the ledger answers over the intervals that cover it. -/
theorem mem_coveringDate {checked : List CheckedGroup} (hl : Keyed l checked) {date : Date} {v : DimensionStatus} :
    v ∈ coveringDate l account date d ↔ ∃ c ∈ checked, c.group.account = account ∧
      c.group.period.contains date = true ∧ l.statusOver account c.group.period d = v := by
  constructor
  · intro h
    obtain ⟨status, hstatus, rfl⟩ := List.mem_map.mp h
    obtain ⟨hmem, hcovers⟩ := List.mem_filter.mp hstatus
    obtain ⟨haccount, hdate⟩ : status.account = account ∧ status.period.contains date = true := by simpa using hcovers
    obtain ⟨c, hc, hkey⟩ := List.mem_map.mp ((hl.keys (keyOf status)).mp (List.mem_map_of_mem hmem))
    obtain ⟨hca, hcp⟩ := Prod.mk.inj hkey
    refine ⟨c, hc, hca.trans haccount, by rwa [hcp], ?_⟩
    rw [hcp, ← haccount]
    exact statusOver_of_mem hl.nodup hmem
  · rintro ⟨c, hc, rfl, hdate, rfl⟩
    obtain ⟨status, hmem, hkey⟩ := List.mem_map.mp ((hl.keys (c.group.account, c.group.period)).mpr
      (List.mem_map.mpr ⟨c, hc, rfl⟩))
    obtain ⟨hca, hcp⟩ := Prod.mk.inj hkey
    refine List.mem_map.mpr ⟨status, List.mem_filter.mpr ⟨hmem, by simp [hca, hcp, hdate]⟩, ?_⟩
    rw [← hca, ← hcp]
    exact (statusOver_of_mem hl.nodup hmem).symm

end

/-! ### The ledger of another order -/

section
variable {checked checked' : List CheckedGroup} {gaps : List Taint}

theorem failed_perm (hp : checked.Perm checked') {account : AccountId} {period : AssertionPeriod} {d : Dimension} :
    Failed checked' account period d ↔ Failed checked account period d := by
  simp only [Failed, hp.mem_iff]

/-- Ledgers of the same intervals that answer a question alike over every interval answer it alike on every date. -/
theorem mem_coveringDate_congr {l l' : ReconciliationLedger} (hl : Keyed l checked) (hl' : Keyed l' checked')
    (hp : checked.Perm checked') {account : AccountId} {d : Dimension} {v : DimensionStatus} {date : Date}
    (h : ∀ period, l'.statusOver account period d = v ↔ l.statusOver account period d = v) :
    v ∈ coveringDate l' account date d ↔ v ∈ coveringDate l account date d := by
  simp only [mem_coveringDate hl, mem_coveringDate hl', hp.mem_iff, h]

theorem statusOver_regrouped (hp : checked.Perm checked') (huntied : Untied (checked.map CheckedGroup.group) gaps)
    (hgaps : Correlated checked gaps) (account : AccountId) (period : AssertionPeriod) (d : Dimension) :
    (ReconciliationLedger.ofChecked checked' (generatedEvidence checked') gaps).statusOver account period d =
      (ReconciliationLedger.ofChecked checked (generatedEvidence checked) gaps).statusOver account period d := by
  by_cases hfailed : Failed checked account period d
  · rw [(statusOver_ofChecked _ _ _).mpr hfailed, (statusOver_ofChecked _ _ _).mpr ((failed_perm hp).mpr hfailed)]
  · by_cases hany : ∃ c ∈ checked, c.group.account = account ∧ c.group.period = period
    · have hany' : ∃ c ∈ checked', c.group.account = account ∧ c.group.period = period := by
        simpa only [hp.mem_iff] using hany
      rw [statusOver_raised hfailed hany, statusOver_raised (mt (failed_perm hp).mp hfailed) hany',
        raisedTo_perm hp huntied hgaps]
    · have hany' : ¬∃ c ∈ checked', c.group.account = account ∧ c.group.period = period := by
        simpa only [hp.mem_iff] using hany
      rw [statusOver_absent (keyed_ofChecked _ _ _) hany, statusOver_absent (keyed_ofChecked _ _ _) hany']

end

section
variable {events effective : List Event} {exceptions : PerimeterExceptions} {ledger : ReconciliationLedger}

theorem checked_of_mapM {gaps : List Taint} {groups : List StatementGroup} {checked : List CheckedGroup}
    (h : groups.mapM (checkGroup effective exceptions gaps) = .ok checked) :
    checked.map CheckedGroup.group = groups ∧ Correlated checked gaps := by
  have hpairs := Runs.mapM_ok.mp h
  clear h
  induction hpairs with
  | nil => exact ⟨rfl, fun c hc => (nomatch hc)⟩
  | cons hcheck _ ih =>
    obtain ⟨observed, -, rfl⟩ := checkGroup_ok hcheck
    refine ⟨congrArg _ ih.1, ?_⟩
    rintro c (_ | ⟨_, hc⟩)
    · rfl
    · exact ih.2 c hc

theorem buildWith_ok (hresolve : resolve events = .ok effective) : buildWith events exceptions =
    buildGroups effective exceptions (collectCoverageGaps effective) (collectGroups effective) := by
  unfold buildWith
  rw [hresolve]
  rfl

/-- What the ledger answers does not depend on the order of the groups: not the discrepancies, and where no two
    statements tie as the latest before another, nothing else. -/
theorem buildGroups_perm {gaps : List Taint} {groups groups' : List StatementGroup} (hp : groups.Perm groups')
    (h : buildGroups effective exceptions gaps groups = .ok ledger) :
    ∃ ledger', buildGroups effective exceptions gaps groups' = .ok ledger' ∧
      (∀ account d,
        (∀ period, ledger'.statusOver account period d = discrepant ↔ ledger.statusOver account period d = discrepant) ∧
        ∀ date, ledger'.statusFor account date d = discrepant ↔ ledger.statusFor account date d = discrepant) ∧
      (Untied groups gaps → ∀ account d,
        (∀ period, ledger'.statusOver account period d = ledger.statusOver account period d) ∧
        ∀ date, ledger'.statusFor account date d = ledger.statusFor account date d) := by
  obtain ⟨checked, hchecked, rfl⟩ := buildGroups_ok h
  obtain ⟨checked', hchecked', hperm⟩ := Runs.mapM_perm hp hchecked
  have hkeyed := keyed_ofChecked checked (generatedEvidence checked) gaps
  have hkeyed' := keyed_ofChecked checked' (generatedEvidence checked') gaps
  obtain ⟨hgroups, hgaps⟩ := checked_of_mapM hchecked
  refine ⟨_, bind_ok.mpr ⟨checked', hchecked', rfl⟩, fun account d => ?_, fun huntied account d => ?_⟩
  · have hover : ∀ period,
        (ReconciliationLedger.ofChecked checked' (generatedEvidence checked') gaps).statusOver account period d =
          discrepant ↔
        (ReconciliationLedger.ofChecked checked (generatedEvidence checked) gaps).statusOver account period d =
          discrepant := by
      intro period
      rw [statusOver_ofChecked, statusOver_ofChecked, failed_perm hperm.symm]
    refine ⟨hover, fun date => ?_⟩
    rw [statusFor_eq_discrepant, statusFor_eq_discrepant]
    exact mem_coveringDate_congr hkeyed hkeyed' hperm.symm hover
  · have hover := fun period => statusOver_regrouped hperm.symm (hgroups.symm ▸ huntied) hgaps account period d
    refine ⟨hover, fun date => ?_⟩
    rw [statusFor_eq_min, statusFor_eq_min, Search.min_congr fun v => ?_]
    exact mem_coveringDate_congr hkeyed hkeyed' hperm.symm fun period => by rw [hover]

/-- A failed claim is a discrepancy of its account and interval and of every date of the interval, whatever else
    was recorded and whatever the order it is read in. -/
theorem failed_claim_surfaces (hresolve : resolve events = .ok effective)
    (h : buildWith events exceptions = .ok ledger) :
    (∀ e ∈ effective, ∀ period claim, e.kind = .controlAssertion period claim →
      Holds (collectGroups effective) e.account period claim) ∧
    (∀ account period claim observed, Holds (collectGroups effective) account period claim →
      observe effective account period = .ok observed →
      (checkOf exceptions account observed claim).outcome.isDiscrepant = true →
        ledger.statusOver account period claim.dimension = discrepant ∧
        ∀ date, period.contains date = true → ledger.statusFor account date claim.dimension = discrepant) ∧
    (∀ events', events.Perm events' → buildWith events' exceptions = .ok ledger) ∧
    ∀ groups, (collectGroups effective).Perm groups →
      ∃ ledger', buildGroups effective exceptions (collectCoverageGaps effective) groups = .ok ledger' ∧
        (∀ account d,
          (∀ period, ledger'.statusOver account period d = discrepant ↔ ledger.statusOver account period d = discrepant) ∧
          ∀ date, ledger'.statusFor account date d = discrepant ↔ ledger.statusFor account date d = discrepant) ∧
        (Untied (collectGroups effective) (collectCoverageGaps effective) → ∀ account d,
          (∀ period, ledger'.statusOver account period d = ledger.statusOver account period d) ∧
          ∀ date, ledger'.statusFor account date d = ledger.statusFor account date d) := by
  have hbuilt := (buildWith_ok hresolve).symm.trans h
  refine ⟨fun e he period claim hkind => holds_collectGroups he hkind, ?_, ?_, fun groups hp => buildGroups_perm hp hbuilt⟩
  · intro account period claim observed hholds hobserved hfailed
    have hover := statusOver_of_failed hbuilt hholds hobserved hfailed
    exact ⟨hover, fun date hdate => statusFor_discrepant hover hdate⟩
  · intro events' hp
    exact (buildWith_ok (ImportOrder.resolve_perm hp hresolve)).trans hbuilt

end

/-- An account that the owner opened with five roubles, and what a document states about it. -/
def openedWithFive : Event := eventWith ⟨1⟩ ⟨1⟩ ⟨2⟩ 1 (.openingCash ⟨.new 500, .rub⟩) [.cash ⟨1⟩ ⟨.new 500, .rub⟩]
def stated (id : Nat) (sequence : Nat) (document : String) (period : AssertionPeriod) (claim : ControlClaim) : Event :=
  let event := eventWith ⟨id⟩ ⟨1⟩ period.to sequence (.controlAssertion period claim) []
  { event with provenance := { event.provenance with rawHash := document } }

/-- A stated balance that the journal does not give is a discrepancy on the days of its interval. -/
theorem stated_balance_surfaces : ∃ ledger,
    buildWith [openedWithFive, stated 2 1 "x" ⟨⟨1⟩, ⟨10⟩⟩ (.cashBalance .rub (.new 700) .closing)] .default = .ok ledger ∧
      ledger.statusFor ⟨1⟩ ⟨5⟩ .cash = discrepant := by
  have hresolve : resolve [openedWithFive, stated 2 1 "x" ⟨⟨1⟩, ⟨10⟩⟩ (.cashBalance .rub (.new 700) .closing)] =
      .ok [openedWithFive, stated 2 1 "x" ⟨⟨1⟩, ⟨10⟩⟩ (.cashBalance .rub (.new 700) .closing)] := by decide
  obtain ⟨ledger, h⟩ := exists_ok (show (buildWith [openedWithFive,
    stated 2 1 "x" ⟨⟨1⟩, ⟨10⟩⟩ (.cashBalance .rub (.new 700) .closing)] .default).isOk = true by decide)
  obtain ⟨observed, hobserved⟩ := exists_ok (show (observe [openedWithFive,
    stated 2 1 "x" ⟨⟨1⟩, ⟨10⟩⟩ (.cashBalance .rub (.new 700) .closing)] ⟨1⟩ ⟨⟨1⟩, ⟨10⟩⟩).isOk = true by decide)
  have hfailed := read_of_ok hobserved (fun observed =>
    (checkOf .default ⟨1⟩ observed (.cashBalance .rub (.new 700) .closing)).outcome.isDiscrepant) (b := true)
    (by decide)
  obtain ⟨hholds, hsurfaces, -, -⟩ := failed_claim_surfaces hresolve h
  have hheld := hholds _ (List.mem_cons_of_mem _ (List.mem_singleton_self _)) _ _ rfl
  exact ⟨ledger, h, (hsurfaces _ _ _ observed hheld hobserved hfailed).2 ⟨5⟩ (by decide)⟩

/-- Two statements that end on one day, and the one that follows. -/
def longerStatement (sequence : Nat) : Event := stated 2 sequence "x" ⟨⟨1⟩, ⟨10⟩⟩ (.feesTotal .rub .zero)
def shorterStatement (sequence : Nat) : Event := stated 3 sequence "y" ⟨⟨5⟩, ⟨10⟩⟩ (.feesTotal .rub .zero)
def nextStatement : Event := stated 4 1 "z" ⟨⟨11⟩, ⟨20⟩⟩ (.cashBalance .rub (.new 500) .opening)

/-- The same statements recorded in two orders: the balance that the third opens with confirms the interval of the
    one that was recorded second. -/
theorem tied_statements_depend_on_order :
    (∀ e ∈ [openedWithFive, longerStatement 1, shorterStatement 2, nextStatement, shorterStatement 1, longerStatement 2],
      e.validateStructure = .ok ()) ∧
    resolve [openedWithFive, longerStatement 1, shorterStatement 2, nextStatement] =
      .ok [openedWithFive, longerStatement 1, shorterStatement 2, nextStatement] ∧
    resolve [openedWithFive, shorterStatement 1, longerStatement 2, nextStatement] =
      .ok [openedWithFive, shorterStatement 1, longerStatement 2, nextStatement] ∧
    (collectGroups [openedWithFive, longerStatement 1, shorterStatement 2, nextStatement]).Perm
      (collectGroups [openedWithFive, shorterStatement 1, longerStatement 2, nextStatement]) ∧
    ∃ ledger ledger',
      build [openedWithFive, longerStatement 1, shorterStatement 2, nextStatement] = .ok ledger ∧
      build [openedWithFive, shorterStatement 1, longerStatement 2, nextStatement] = .ok ledger' ∧
      ledger.statusOver ⟨1⟩ ⟨⟨1⟩, ⟨10⟩⟩ .cash = provisional ∧
      ledger'.statusOver ⟨1⟩ ⟨⟨1⟩, ⟨10⟩⟩ .cash = acceptedInternal := by
  obtain ⟨ledger, h⟩ := exists_ok (show (build [openedWithFive, longerStatement 1, shorterStatement 2,
    nextStatement]).isOk = true by decide)
  obtain ⟨ledger', h'⟩ := exists_ok (show (build [openedWithFive, shorterStatement 1, longerStatement 2,
    nextStatement]).isOk = true by decide)
  refine ⟨by decide, by decide, by decide, by decide, ledger, ledger', h, h', ?_, ?_⟩
  · exact read_of_ok h (fun l => l.statusOver ⟨1⟩ ⟨⟨1⟩, ⟨10⟩⟩ .cash) (by decide)
  · exact read_of_ok h' (fun l => l.statusOver ⟨1⟩ ⟨⟨1⟩, ⟨10⟩⟩ .cash) (by decide)

end Reconciliation
end Iaam
