import Iaam.Theorems.Amendments
import Iaam.Theorems.Reclassification

/-! Recomputing history twice. The facts that a plan appends are read again by the rules, each as the row refiled:
where the row was filed as a transfer or as a movement between own accounts it has lost its counterparty, and a
received transfer has changed its account and its direction, so that the rules may decide it anew. -/

namespace Iaam
namespace Recompute
open Outcome Amendments Reclassification

/-! ### What the rules decide -/

section
variable {toLowercase : String → String} {rules : List ClassificationRule} {s : ClassificationSubject}

/-- The rule decides the row: it matches, and nothing of a higher version does. -/
def Decides (toLowercase : String → String) (rules : List ClassificationRule) (s : ClassificationSubject)
    (rule : ClassificationRule) : Prop :=
  (rule ∈ rules ∧ rule.matcher.matches toLowercase s = true) ∧
    ∀ rule' ∈ rules, rule'.matcher.matches toLowercase s = true → rule'.version ≤ rule.version

theorem chosenRule_eq_some (hversions : (rules.map ClassificationRule.version).Nodup) {rule : ClassificationRule} :
    Classification.chosenRule toLowercase s rules = some rule ↔ Decides toLowercase rules s rule := by
  have hinj : ∀ a ∈ rules.filter (fun rule => rule.matcher.matches toLowercase s),
      ∀ b ∈ rules.filter (fun rule => rule.matcher.matches toLowercase s), a.version = b.version → a = b :=
    fun a ha b hb => List.inj_on_of_nodup_map hversions (List.mem_of_mem_filter ha) (List.mem_of_mem_filter hb)
  unfold Classification.chosenRule Decides
  rw [Search.maxByKey_eq_some hinj, List.mem_filter]
  simp only [List.mem_filter, and_imp]

/-- The classification of a row whose counterparty is no own account. -/
theorem classify_eq (hparty : ∀ account, s.counterparty ≠ .ownAccount account) :
    Classification.classify toLowercase s rules =
      match Classification.chosenRule toLowercase s rules with
      | some rule => .resolved rule.outcome (.rule rule.id rule.version)
      | none =>
        if s.farSide.isOwnAccount then .resolved .ownAccountMovement .asserted
        else .ambiguous (Classification.questionFor s) := by
  unfold Classification.classify
  cases hc : s.counterparty with
  | ownAccount account => exact absurd hc (hparty account)
  | named name => rfl
  | unknown => rfl

/-- The rules read a row filed as a transfer or as a movement between own accounts as what it expresses, or they
    do not decide it. -/
def Settled (toLowercase : String → String) (rules : List ClassificationRule) (s : ClassificationSubject)
    (c : Classification) : Prop :=
  match c with
  | .internalTransfer _ | .ownAccountMovement =>
    ∀ rule, Decides toLowercase rules (refiled s c) rule → rule.outcome = expressed s c
  | .externalFlow | .fee _ | .refund | .income _ => True

theorem refiled_counterparty {c : Classification} (hparty : ∀ account, s.counterparty ≠ .ownAccount account)
    (account : AccountId) : (refiled s c).counterparty ≠ .ownAccount account := by
  unfold refiled
  cases c <;> (try split_ifs) <;> first | exact hparty account | simp

theorem expressed_of_asserted {c : Classification} (h : (refiled s c).farSide.isOwnAccount = true) :
    expressed s c = .ownAccountMovement := by
  cases c with
  | ownAccountMovement => rfl
  | internalTransfer target =>
    unfold refiled at h
    split_ifs at h <;> cases h
  | _ => cases h

/-- The refiled row is read as something else than it expresses exactly when it is not settled. -/
theorem reread_iff (hversions : (rules.map ClassificationRule.version).Nodup)
    (hparty : ∀ account, s.counterparty ≠ .ownAccount account) {c : Classification} {basis : Basis}
    (hc : Classification.classify toLowercase s rules = .resolved c basis) :
    (∃ c' basis', Classification.classify toLowercase (refiled s c) rules = .resolved c' basis' ∧ c' ≠ expressed s c) ↔
      ¬Settled toLowercase rules s c := by
  rw [classify_eq (refiled_counterparty hparty)]
  have hdecided : (∃ c' basis', (match Classification.chosenRule toLowercase (refiled s c) rules with
      | some rule => ClassificationResult.resolved rule.outcome (.rule rule.id rule.version)
      | none =>
        if (refiled s c).farSide.isOwnAccount then .resolved .ownAccountMovement .asserted
        else .ambiguous (Classification.questionFor (refiled s c))) = .resolved c' basis' ∧ c' ≠ expressed s c) ↔
      ∃ rule, Decides toLowercase rules (refiled s c) rule ∧ rule.outcome ≠ expressed s c := by
    simp only [← chosenRule_eq_some hversions]
    cases Classification.chosenRule toLowercase (refiled s c) rules with
    | some rule => simp
    | none =>
      cases hfar : (refiled s c).farSide.isOwnAccount with
      | false => simp
      | true => simp [expressed_of_asserted hfar]
  rw [hdecided]
  -- A row filed as anything else keeps all that the rules ask, and the same rule decides it again.
  have hkept (hsame : ∀ rule, Decides toLowercase rules (refiled s c) rule ↔ Decides toLowercase rules s rule)
      (hexpressed : expressed s c = c) :
      ¬∃ rule, Decides toLowercase rules (refiled s c) rule ∧ rule.outcome ≠ expressed s c := by
    rintro ⟨rule, hdecides, hne⟩
    rw [hsame, ← chosenRule_eq_some hversions] at hdecides
    rw [classify_eq hparty, hdecides] at hc
    cases hc
    exact hne hexpressed.symm
  cases c with
  | internalTransfer target =>
    unfold Settled
    push Not
    rfl
  | ownAccountMovement =>
    unfold Settled
    push Not
    rfl
  | externalFlow => simpa [Settled] using hkept (fun _ => Iff.rfl) rfl
  | fee origin => simpa [Settled] using hkept (fun _ => Iff.rfl) rfl
  | refund => simpa [Settled] using hkept (fun _ => Iff.rfl) rfl
  | income kind => simpa [Settled] using hkept (fun _ => Iff.rfl) rfl

end

/-! ### The corrections of a journal -/

theorem subjectsOf_get {events : List Event} (hnodup : (events.map Event.id).Nodup) {e : Event} (he : e ∈ events) :
    (subjectsOf events)[e.id]? = subject e := by
  unfold subjectsOf
  cases hs : subject e with
  | none =>
    refine Std.ExtTreeMap.getElem?_ofList_of_contains_eq_false ?_
    rw [List.contains_eq_mem, decide_eq_false_iff_not, List.mem_map]
    rintro ⟨⟨id, s⟩, hmem, rfl⟩
    obtain ⟨e', he', hpair⟩ := List.mem_filterMap.mp hmem
    obtain ⟨s', hs', hpair⟩ := Option.map_eq_some_iff.mp hpair
    have heq := List.inj_on_of_nodup_map hnodup he' he (Prod.mk.inj hpair).1
    rw [heq, hs] at hs'
    cases hs'
  | some s =>
    refine Std.ExtTreeMap.getElem?_ofList_of_mem (compare_eq_iff_eq.mpr rfl) ?_
      (List.mem_filterMap.mpr ⟨e, he, by rw [hs]; rfl⟩)
    refine List.Pairwise.filterMap _ (fun a a' hne b hb b' hb' heq => ?_) (List.pairwise_map.mp hnodup)
    obtain ⟨_, -, rfl⟩ := Option.map_eq_some_iff.mp (Option.mem_def.mp hb)
    obtain ⟨_, -, rfl⟩ := Option.map_eq_some_iff.mp (Option.mem_def.mp hb')
    exact hne (compare_eq_iff_eq.mp heq)

/-- The correction of an effective event, when the rules read its row as something else than it expresses. -/
theorem recomputeEvent_eq_some {toLowercase : String → String} {rules : List ClassificationRule} {events : List Event}
    (hnodup : (events.map Event.id).Nodup) {e : Event} (he : e ∈ events) {correction : Correction} :
    recomputeEvent toLowercase (subjectsOf events) rules e = some correction ↔
      correction.target = e.id ∧ classificationOf e = some correction.was ∧ correction.becomes ≠ correction.was ∧
        ∃ s basis, subject e = some s ∧
          Classification.classify toLowercase s rules = .resolved correction.becomes basis := by
  unfold recomputeEvent
  rw [subjectsOf_get hnodup he]
  constructor
  · intro h
    split at h
    · next s was hs hwas =>
      split at h
      · next becomes basis hclassify =>
        split_ifs at h with hne
        cases h
        exact ⟨rfl, hwas, hne, s, basis, hs, hclassify⟩
      · cases h
    · cases h
  · rintro ⟨htarget, hwas, hne, s, basis, hs, hclassify⟩
    rw [hs, hwas]
    dsimp only
    rw [hclassify]
    dsimp only
    rw [if_neg hne, ← htarget]

section
variable {toLowercase : String → String} {rules : List ClassificationRule} {events effective : List Event}
  {plan : List Correction}

theorem recomputePlan_ok (h : resolve events = .ok effective) :
    recomputePlan toLowercase events (subjectsOf events) rules =
      .ok (effective.filterMap (recomputeEvent toLowercase (subjectsOf events) rules)) :=
  bind_ok.mpr ⟨effective, h, rfl⟩

/-- The targets of a plan are the identifiers of effective events, each at most once. -/
theorem targets_sublist (h : resolve events = .ok effective) :
    ((effective.filterMap (recomputeEvent toLowercase (subjectsOf events) rules)).map Correction.target).Sublist
      (effective.map Event.id) := by
  have hjournal : ∀ e ∈ effective, e ∈ events := fun e he => ((mem_effective h).mp he).1
  have hnodup := (resolvable_of_ok h).nodup
  clear h
  induction effective with
  | nil => exact List.Sublist.refl _
  | cons e effective ih =>
    have ih := ih fun e' he' => hjournal e' (List.mem_cons_of_mem _ he')
    cases hr : recomputeEvent toLowercase (subjectsOf events) rules e with
    | none =>
      rw [List.filterMap_cons_none hr]
      exact ih.cons _
    | some correction =>
      rw [List.filterMap_cons_some hr, List.map_cons, List.map_cons,
        ((recomputeEvent_eq_some hnodup (hjournal e List.mem_cons_self)).mp hr).1]
      exact ih.cons_cons _

end

/-- What a rule can be tested against expresses a classification. -/
theorem classified_of_subject {e : Event} {s : ClassificationSubject} (h : subject e = some s) :
    ∃ was, classificationOf e = some was := by
  obtain ⟨parts, hparts, -⟩ := Option.map_eq_some_iff.mp h
  unfold subjectParts at hparts
  unfold classificationOf
  cases hk : e.kind <;> rw [hk] at hparts <;> first | exact ⟨_, rfl⟩ | cases hparts

/-! ### The facts of a plan -/

section
variable {hashes : Hashes} {debug : EventKind → String} {draws : Nat → Draw} {owner : OwnerId}
  {declaredBy : Option PrincipalId} {events effective : List Event} {plan : List Correction}

theorem eventById_eq_some (hnodup : (events.map Event.id).Nodup) {id : EventId} {e : Event} :
    eventById events id = some e ↔ e ∈ events ∧ e.id = id := by
  rw [eventById, Search.find_key_eq_some hnodup]

/-- A correction yields a reversal and a replacement of its target, or nothing. -/
theorem correctionFacts_cases (hashes : Hashes) (debug : EventKind → String) (draws : Nat → Draw) (owner : OwnerId)
    (declaredBy : Option PrincipalId) (hnodup : (events.map Event.id).Nodup) (correction : Correction) (index : Nat) :
    (∃ target ∈ events, target.id = correction.target ∧ ∃ r,
      reclassificationFor hashes debug (draws index).fresh owner target correction.becomes declaredBy index = .ok r ∧
        correctionFacts hashes debug draws owner declaredBy events (correction, index) =
          [reversalForWith hashes (draws index).reversal target declaredBy, r]) ∨
    ((∀ target ∈ events, target.id = correction.target → ¬Refilable target correction.becomes) ∧
      correctionFacts hashes debug draws owner declaredBy events (correction, index) = []) := by
  cases htarget : eventById events correction.target with
  | none =>
    refine Or.inr ⟨fun target hmem hid => ?_, by simp only [correctionFacts, htarget]⟩
    rw [(eventById_eq_some hnodup).mpr ⟨hmem, hid⟩] at htarget
    cases htarget
  | some target =>
    obtain ⟨hmem, hid⟩ := (eventById_eq_some hnodup).mp htarget
    cases hr : reclassificationFor hashes debug (draws index).fresh owner target correction.becomes declaredBy index with
    | ok r =>
      refine Or.inl ⟨target, hmem, hid, r, hr, ?_⟩
      simp only [correctionFacts, htarget, reclassificationCandidates, hr]
      rfl
    | error e =>
      refine Or.inr ⟨fun target' hmem' hid' hrefilable => ?_, ?_⟩
      · cases List.inj_on_of_nodup_map hnodup hmem' hmem (hid'.trans hid.symm)
        obtain ⟨r, hok⟩ := exists_reclassification_iff.mpr hrefilable
        rw [hr] at hok
        cases hok
      · simp only [correctionFacts, htarget, reclassificationCandidates, hr]
        rfl

theorem relation_of_reclassified {fresh : Operation.Fresh} {original r : Event} {c : Classification} {index : Nat}
    (h : reclassificationFor hashes debug fresh owner original c declaredBy index = .ok r) :
    r.relation = .replacement original.id := by
  obtain ⟨_, _, -, -, hrecords⟩ := reclassificationFor_ok h
  exact hrecords.relation

/-- Each target of a plan is replaced once at most. -/
theorem replacedTargets_sublist (hnodup : (events.map Event.id).Nodup) (stamp : Event → Nat)
    (planned : List (Correction × Nat)) :
    (replacedTargets ((planned.flatMap (correctionFacts hashes debug draws owner declaredBy events)).map
      fun n => n.stamped (stamp n))).Sublist (planned.map fun p => p.1.target) := by
  induction planned with
  | nil => exact List.Sublist.refl _
  | cons p planned ih =>
    obtain ⟨correction, index⟩ := p
    rw [List.flatMap_cons, List.map_append, replacedTargets_append, List.map_cons]
    rcases correctionFacts_cases hashes debug draws owner declaredBy hnodup correction index with
      ⟨target, -, hid, r, hr, hfacts⟩ | ⟨-, hfacts⟩
    · have htargets : replacedTargets ([reversalForWith hashes (draws index).reversal target declaredBy, r].map
          fun n => n.stamped (stamp n)) = [correction.target] := by
        simp [replacedTargets, relationsOf, List.filterMap, ImportOrder.replaces, Event.stamped,
          relation_of_reclassified hr, reversalForWith, hid]
      rw [hfacts, htargets]
      exact ih.cons_cons _
    · rw [hfacts]
      exact ih.cons _

/-- The facts of a plan amend the journal the plan was made over. -/
theorem planCandidates_amend {toLowercase : String → String} {rules : List ClassificationRule}
    (h : resolve events = .ok effective)
    (hplan : effective.filterMap (recomputeEvent toLowercase (subjectsOf events) rules) = plan) (stamp : Event → Nat)
    (hfresh : ((events ++ planCandidates hashes debug draws owner declaredBy events plan).map Event.id).Nodup) :
    Amends events effective
      ((planCandidates hashes debug draws owner declaredBy events plan).map fun n => n.stamped (stamp n)) := by
  have hnodup := (resolvable_of_ok h).nodup
  have htargets : (plan.map Correction.target).Sublist (effective.map Event.id) := hplan ▸ targets_sublist h
  refine ⟨?_, ?_, ?_⟩
  · rw [List.map_append, List.map_map] at *
    exact hfresh
  · intro stamped hstamped
    obtain ⟨n, hn, rfl⟩ := List.mem_map.mp hstamped
    obtain ⟨⟨correction, index⟩, hmem, hn⟩ := List.mem_flatMap.mp hn
    have hcorrection : correction.target ∈ effective.map Event.id :=
      htargets.subset (List.mem_map_of_mem (List.fst_mem_of_mem_zipIdx hmem))
    obtain ⟨e, he, hid⟩ := List.mem_map.mp hcorrection
    rcases correctionFacts_cases hashes debug draws owner declaredBy hnodup correction index with
      ⟨target, -, htarget, r, hr, hfacts⟩ | ⟨-, hfacts⟩
    · rw [hfacts] at hn
      refine ⟨e, he, ?_⟩
      rcases List.mem_cons.mp hn with rfl | hn
      · rw [hid, ← htarget]
        rfl
      · cases List.mem_singleton.mp hn
        rw [Event.stamped, relation_of_reclassified hr, hid, ← htarget]
        rfl
    · rw [hfacts] at hn
      cases hn
  · have hsub : (replacedTargets ((planCandidates hashes debug draws owner declaredBy events plan).map
        fun n => n.stamped (stamp n))).Sublist (plan.zipIdx.map fun p => p.1.target) :=
      replacedTargets_sublist hnodup stamp plan.zipIdx
    have hzip : plan.zipIdx.map (fun p => p.1.target) = plan.map Correction.target := by
      conv_rhs => rw [← List.zipIdx_map_fst 0 plan, List.map_map]
      rfl
    rw [hzip] at hsub
    exact ((nodup_effective h).sublist htargets).sublist hsub

/-- The replacement of a correction is corrected again exactly when its row is not settled. -/
theorem corrected_again_iff {toLowercase : String → String} {rules : List ClassificationRule}
    (hversions : (rules.map ClassificationRule.version).Nodup) {journal : List Event}
    (hnodup : (journal.map Event.id).Nodup) {fresh : Operation.Fresh} {original r : Event} {s : ClassificationSubject}
    {c : Classification} {basis : Basis} {index sequence : Nat} (hs : subject original = some s)
    (hc : Classification.classify toLowercase s rules = .resolved c basis)
    (hr : reclassificationFor hashes debug fresh owner original c declaredBy index = .ok r)
    (hmem : r.stamped sequence ∈ journal) :
    (∃ correction, recomputeEvent toLowercase (subjectsOf journal) rules (r.stamped sequence) = some correction) ↔
      ¬Settled toLowercase rules s c := by
  obtain ⟨-, -, hsubject, hexpressed⟩ := subject_reclassified hs hr
  rw [← reread_iff hversions (subject_counterparty hs) hc]
  constructor
  · rintro ⟨correction, hcorrection⟩
    obtain ⟨-, hwas, hne, s', basis', hs', hclassify⟩ := (recomputeEvent_eq_some hnodup hmem).mp hcorrection
    cases hsubject.symm.trans hs'
    have hwas : expressed s c = correction.was := Option.some.inj (hexpressed.symm.trans hwas)
    exact ⟨correction.becomes, basis', hclassify, hwas ▸ hne⟩
  · rintro ⟨c', basis', hclassify, hne⟩
    exact ⟨⟨r.id, expressed s c, c'⟩, (recomputeEvent_eq_some hnodup hmem).mpr
      ⟨rfl, hexpressed, hne, refiled s c, basis', hsubject, hclassify⟩⟩

end

section
variable {toLowercase : String → String} {rules : List ClassificationRule} {events effective journal : List Event}
  {plan : List Correction}

/-- No replacement that a plan appends is corrected by the next plan, exactly when the rules leave every row that the
    plan files as a transfer or as a movement between own accounts as it is filed. -/
theorem recompute_settles_iff (hashes : Hashes) (debug : EventKind → String) (draws : Nat → Draw) (owner : OwnerId)
    (declaredBy : Option PrincipalId) (stamp : Event → Nat)
    (hversions : (rules.map ClassificationRule.version).Nodup) (heffective : resolve events = .ok effective)
    (hplan : recomputePlan toLowercase events (subjectsOf events) rules = .ok plan)
    (hfresh : ((events ++ planCandidates hashes debug draws owner declaredBy events plan).map Event.id).Nodup)
    (hp : journal.Perm (events ++
      (planCandidates hashes debug draws owner declaredBy events plan).map fun n => n.stamped (stamp n))) :
    ∃ plan', recomputePlan toLowercase journal (subjectsOf journal) rules = .ok plan' ∧
      ((∀ correction ∈ plan', ∀ n ∈ planCandidates hashes debug draws owner declaredBy events plan,
          n.relation.isReversal = false → correction.target ≠ n.id) ↔
        ∀ e ∈ effective, ∀ s c basis, subject e = some s →
          Classification.classify toLowercase s rules = .resolved c basis → classificationOf e ≠ some c →
            Refilable e c → Settled toLowercase rules s c) := by
  have hplan' := Except.ok.inj ((recomputePlan_ok heffective).symm.trans hplan)
  have hnodup := (resolvable_of_ok heffective).nodup
  obtain ⟨effective', heffective', hperm⟩ :=
    (planCandidates_amend heffective hplan' stamp hfresh).resolve_ok heffective hp
  have hnodup' := (resolvable_of_ok heffective').nodup
  -- A correction of the plan comes from an effective event, whose row the rules read as something else.
  have hplanned : ∀ correction ∈ plan, ∃ e ∈ effective, correction.target = e.id ∧
      classificationOf e ≠ some correction.becomes ∧ ∃ s basis, subject e = some s ∧
        Classification.classify toLowercase s rules = .resolved correction.becomes basis := by
    intro correction hcorrection
    rw [← hplan'] at hcorrection
    obtain ⟨e, he, hr⟩ := List.mem_filterMap.mp hcorrection
    obtain ⟨htarget, hwas, hne, s, basis, hs, hclassify⟩ :=
      (recomputeEvent_eq_some hnodup ((mem_effective heffective).mp he).1).mp hr
    exact ⟨e, he, htarget, by rw [hwas]; exact fun h => hne (Option.some.inj h).symm, s, basis, hs, hclassify⟩
  have hreplaces : ∀ n ∈ planCandidates hashes debug draws owner declaredBy events plan, n.relation.isReversal = false →
      n.stamped (stamp n) ∈ effective' := by
    intro n hn hkind
    refine hperm.mem_iff.mpr (List.mem_append_right _ (List.mem_filter.mpr ⟨List.mem_map_of_mem hn, ?_⟩))
    simp [Event.stamped, hkind]
  refine ⟨_, recomputePlan_ok heffective', ?_, ?_⟩
  · intro hnone e he s c basis hs hc hne hrefilable
    by_contra hunsettled
    have hevent := ((mem_effective heffective).mp he).1
    obtain ⟨was, hwas⟩ : ∃ was, classificationOf e = some was := classified_of_subject hs
    have hcorrection : (⟨e.id, was, c⟩ : Correction) ∈ plan := by
      rw [← hplan']
      refine List.mem_filterMap.mpr ⟨e, he, (recomputeEvent_eq_some hnodup hevent).mpr
        ⟨rfl, hwas, fun h => hne (hwas.trans (congrArg some h.symm)), s, basis, hs, hc⟩⟩
    obtain ⟨index, hindex⟩ := List.getElem?_of_mem hcorrection
    have hzip := List.mk_mem_zipIdx_iff_getElem?.mpr hindex
    rcases correctionFacts_cases hashes debug draws owner declaredBy hnodup ⟨e.id, was, c⟩ index with
      ⟨original, horiginal, hid, r, hr, hfacts⟩ | ⟨hnot, -⟩
    · cases List.inj_on_of_nodup_map hnodup horiginal hevent hid
      have hn : r ∈ planCandidates hashes debug draws owner declaredBy events plan :=
        List.mem_flatMap.mpr ⟨_, hzip, by simp [hfacts]⟩
      have hstands := hreplaces r hn (by rw [relation_of_reclassified hr]; rfl)
      have hjournal := ((mem_effective heffective').mp hstands).1
      obtain ⟨correction, hagain⟩ := (corrected_again_iff hversions hnodup' hs hc hr hjournal).mpr hunsettled
      refine hnone correction (List.mem_filterMap.mpr ⟨_, hstands, hagain⟩) r hn
        (by rw [relation_of_reclassified hr]; rfl) ?_
      exact ((recomputeEvent_eq_some hnodup' hjournal).mp hagain).1
    · exact hnot e hevent rfl hrefilable
  · intro hsettled correction hcorrection n hn hkind htarget
    obtain ⟨⟨planned, index⟩, hplannedMem, hn⟩ := List.mem_flatMap.mp hn
    rcases correctionFacts_cases hashes debug draws owner declaredBy hnodup planned index with
      ⟨original, horiginal, hid, r, hr, hfacts⟩ | ⟨-, hfacts⟩
    · have hmem := hn
      rw [hfacts] at hmem
      have hcandidate : n ∈ planCandidates hashes debug draws owner declaredBy events plan :=
        List.mem_flatMap.mpr ⟨_, hplannedMem, hn⟩
      have hstands := hreplaces n hcandidate hkind
      have hjournal := ((mem_effective heffective').mp hstands).1
      -- The plan has one effective event with the identifier of the replacement: the replacement itself.
      obtain ⟨e', he', hagain⟩ := List.mem_filterMap.mp hcorrection
      have hjournal' := ((mem_effective heffective').mp he').1
      have hsame : e'.id = (n.stamped (stamp n)).id :=
        ((recomputeEvent_eq_some hnodup' hjournal').mp hagain).1.symm.trans htarget
      cases List.inj_on_of_nodup_map hnodup' hjournal' hjournal hsame
      rcases List.mem_cons.mp hmem with rfl | hmem
      · cases hkind
      · cases List.mem_singleton.mp hmem
        obtain ⟨e, he, htarget, hne, s, basis, hs, hclassify⟩ :=
          hplanned planned (List.fst_mem_of_mem_zipIdx hplannedMem)
        have hevent := ((mem_effective heffective).mp he).1
        cases List.inj_on_of_nodup_map hnodup horiginal hevent (hid.trans htarget)
        exact (corrected_again_iff hversions hnodup' hs hclassify hr hjournal).mp ⟨correction, hagain⟩
          (hsettled original he s planned.becomes basis hs hclassify hne (exists_reclassification_iff.mp ⟨n, hr⟩))
    · rw [hfacts] at hn
      cases hn

end

/-! ### A fee, and a transfer that was received -/

/-- A row of a statement with the word of its source. -/
def statementRow (kind : EventKind) (legs : List Leg) (word : String) : Event :=
  let e := eventWith ⟨1⟩ ⟨1⟩ ⟨10⟩ 1 kind legs
  { e with provenance := { e.provenance with sourceKind := some word } }

/-- Money that went out, which the bank calls a commission. -/
def commissionRow : Event :=
  statementRow (.cashOut ⟨.new (-500), .rub⟩) [.cash ⟨1⟩ ⟨.new (-500), .rub⟩] "commission"

/-- Money that came in, which the bank calls a transfer. -/
def transferRow : Event := statementRow (.cashIn ⟨.new 500, .rub⟩) [.cash ⟨1⟩ ⟨.new 500, .rub⟩] "transfer"

/-- The rule for a word of the source. -/
def wordRule (word : String) (outcome : Classification) : ClassificationRule :=
  ⟨⟨1⟩, 1, ⟨none, none, some word, none, none, none, none⟩, outcome⟩

def sampleHashes : Hashes := ⟨fun owner account _ => ⟨owner.uuid + account.uuid⟩, fun key => key⟩
def sampleDraws (index : Nat) : Draw := ⟨⟨2 * index + 10⟩, ⟨⟨2 * index + 11⟩, ⟨index⟩, fun _ => "f"⟩⟩

/-- The facts of a plan over a journal of one row. -/
def sampleFacts (row : Event) (plan : List Correction) : List Event :=
  planCandidates sampleHashes EventKind.discriminant sampleDraws ⟨0⟩ none [row] plan

/-- A commission filed as a fee stays a fee. -/
theorem commission_settles : ∃ plan, recomputePlan String.toLower [commissionRow] (subjectsOf [commissionRow])
      [wordRule "commission" (.fee .brokerage)] = .ok plan ∧ plan.length = 1 ∧
    ∃ plan', recomputePlan String.toLower ([commissionRow] ++ (sampleFacts commissionRow plan).map fun n => n.stamped 2)
        (subjectsOf ([commissionRow] ++ (sampleFacts commissionRow plan).map fun n => n.stamped 2))
        [wordRule "commission" (.fee .brokerage)] = .ok plan' ∧
      ∀ correction ∈ plan', ∀ n ∈ sampleFacts commissionRow plan,
        n.relation.isReversal = false → correction.target ≠ n.id := by
  obtain ⟨plan, hplan⟩ := exists_ok (show (recomputePlan String.toLower [commissionRow] (subjectsOf [commissionRow])
      [wordRule "commission" (.fee .brokerage)]).isOk = true by decide)
  obtain ⟨effective, heffective⟩ := exists_ok (show (resolve [commissionRow]).isOk = true by decide)
  have hsame : effective = [commissionRow] := read_of_ok heffective id (by decide)
  have hplanned : plan = [⟨⟨1⟩, .externalFlow, .fee .brokerage⟩] := read_of_ok hplan id (by decide)
  obtain ⟨plan', hplan', hiff⟩ := recompute_settles_iff sampleHashes EventKind.discriminant sampleDraws ⟨0⟩ none
    (fun _ => 2) (by decide) heffective hplan (by rw [hplanned]; decide) (List.Perm.refl _)
  refine ⟨plan, hplan, by rw [hplanned]; rfl, plan', hplan', hiff.mpr fun e he s c basis hs hc _ _ => ?_⟩
  rw [hsame] at he
  cases List.mem_singleton.mp he
  have hfee : (subject commissionRow).map (fun s => Classification.classify String.toLower s
      [wordRule "commission" (.fee .brokerage)]) = some (.resolved (.fee .brokerage) (.rule ⟨1⟩ 1)) := by decide
  rw [hs, Option.map_some, hc] at hfee
  cases hfee
  exact trivial

/-- A received transfer is filed from its sending account, and the rule that filed it then names that account as the
    one the money went to: the new fact is corrected again. -/
theorem received_transfer_corrected_again : ∃ plan, recomputePlan String.toLower [transferRow] (subjectsOf [transferRow])
      [wordRule "transfer" (.internalTransfer ⟨2⟩)] = .ok plan ∧
    ∃ plan', recomputePlan String.toLower ([transferRow] ++ (sampleFacts transferRow plan).map fun n => n.stamped 2)
        (subjectsOf ([transferRow] ++ (sampleFacts transferRow plan).map fun n => n.stamped 2))
        [wordRule "transfer" (.internalTransfer ⟨2⟩)] = .ok plan' ∧
      ∃ correction ∈ plan', ∃ n ∈ sampleFacts transferRow plan,
        n.relation.isReversal = false ∧ correction.target = n.id := by
  obtain ⟨plan, hplan⟩ := exists_ok (show (recomputePlan String.toLower [transferRow] (subjectsOf [transferRow])
      [wordRule "transfer" (.internalTransfer ⟨2⟩)]).isOk = true by decide)
  have hplanned : plan = [⟨⟨1⟩, .externalFlow, .internalTransfer ⟨2⟩⟩] := read_of_ok hplan id (by decide)
  refine ⟨plan, hplan, ?_⟩
  rw [hplanned]
  obtain ⟨plan', hplan'⟩ := exists_ok (show (recomputePlan String.toLower
      ([transferRow] ++ (sampleFacts transferRow [⟨⟨1⟩, .externalFlow, .internalTransfer ⟨2⟩⟩]).map fun n => n.stamped 2)
      (subjectsOf ([transferRow] ++
        (sampleFacts transferRow [⟨⟨1⟩, .externalFlow, .internalTransfer ⟨2⟩⟩]).map fun n => n.stamped 2))
      [wordRule "transfer" (.internalTransfer ⟨2⟩)]).isOk = true by decide)
  have hplanned' : plan' = [⟨⟨11⟩, .internalTransfer ⟨1⟩, .internalTransfer ⟨2⟩⟩] :=
    read_of_ok hplan' id (by decide)
  refine ⟨plan', hplan', ⟨⟨11⟩, .internalTransfer ⟨1⟩, .internalTransfer ⟨2⟩⟩, by simp [hplanned'], ?_⟩
  have hfact : ∃ n ∈ sampleFacts transferRow [⟨⟨1⟩, .externalFlow, .internalTransfer ⟨2⟩⟩],
      n.relation.isReversal = false ∧ (⟨11⟩ : EventId) = n.id := by decide
  exact hfact

end Recompute
end Iaam
