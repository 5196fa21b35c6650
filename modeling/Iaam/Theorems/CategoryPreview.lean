import Iaam.Theorems.CategoryRules

/-! What a preview of a category rule shows against what saving the rule does.

A saved rule has the highest version, so it wins against every rule of its kind whose text is not longer. Two rules
for the row, or for the category of the source, that apply to one subject have the same text. Two rules for the
description need not, and the preview does not look at the text. -/

namespace Iaam.Category
variable {toLowercase : String → String} {subject : CategorySubject} {rules : List CategoryRule}
  {proposed : CategoryRuleProposal} {id : CategoryRuleId} {version : Nat} {kind : CategoryMatcher → Bool}

/-- Whether a proposal has something to say of a row on its day. -/
def Applies (toLowercase : String → String) (subject : CategorySubject) (proposed : CategoryRuleProposal) : Prop :=
  proposed.interval.covers subject.on = true ∧ proposed.matcher.matches toLowercase subject = true

theorem saved_applies :
    (proposed.saved id version).applies toLowercase subject = true ↔ Applies toLowercase subject proposed := by
  simp only [CategoryRule.applies, CategoryRuleProposal.saved, Applies, Bool.and_eq_true]

theorem rulePriority_lt {a b : CategoryRule} (h : b.version < a.version) :
    rulePriority a < rulePriority b ↔ a.matcher.textLen < b.matcher.textLen := by
  simp only [rulePriority, Prod.Lex.toLex_lt_toLex]
  omega

/-! ### The rule that decides once the proposal is saved -/

theorem applicable_concat (rule : CategoryRule) :
    applicable toLowercase subject kind (rules ++ [rule]) =
      if kind rule.matcher = true ∧ rule.applies toLowercase subject = true then
        applicable toLowercase subject kind rules ++ [rule]
      else applicable toLowercase subject kind rules := by
  by_cases h : kind rule.matcher = true ∧ rule.applies toLowercase subject = true
  · simp [applicable, h]
  · rcases not_and_or.mp h with h | h <;> simp [applicable, h]

theorem decidingRule_other (h : ¬(kind proposed.matcher = true ∧ Applies toLowercase subject proposed)) :
    decidingRule toLowercase subject kind (rules ++ [proposed.saved id version]) =
      decidingRule toLowercase subject kind rules := by
  rw [decidingRule, applicable_concat, if_neg (by rw [saved_applies]; exact h), decidingRule]

theorem decidingRule_saved (hnew : ∀ r ∈ rules, r.version < version) (hkind : kind proposed.matcher = true)
    (h : Applies toLowercase subject proposed) :
    decidingRule toLowercase subject kind (rules ++ [proposed.saved id version]) =
      match decidingRule toLowercase subject kind rules with
      | some r => if proposed.matcher.textLen < r.matcher.textLen then some r else some (proposed.saved id version)
      | none => some (proposed.saved id version) := by
  rw [decidingRule, applicable_concat, if_pos ⟨hkind, saved_applies.mpr h⟩, Search.maxByKey_concat, decidingRule]
  cases hr : Search.maxByKey rulePriority (applicable toLowercase subject kind rules) with
  | none => rfl
  | some r =>
    have hmem := (List.mem_filter.mp (Search.mem_of_maxByKey hr)).1
    have hprio := rulePriority_lt (a := proposed.saved id version) (hnew r hmem)
    simp only [hprio]
    rfl

/-- Where all rules of the kind that apply have the text of the proposal, the proposal decides once saved. -/
theorem decidingRule_saved_of_textLen (hnew : ∀ r ∈ rules, r.version < version) (hkind : kind proposed.matcher = true)
    (h : Applies toLowercase subject proposed)
    (hlen : ∀ m : CategoryMatcher, kind m = true → m.matches toLowercase subject = true →
      m.textLen = proposed.matcher.textLen) :
    decidingRule toLowercase subject kind (rules ++ [proposed.saved id version]) =
      some (proposed.saved id version) := by
  rw [decidingRule_saved hnew hkind h]
  cases hr : decidingRule toLowercase subject kind rules with
  | none => rfl
  | some r =>
    obtain ⟨-, hk, happ⟩ := decidingRule_mem hr
    have hl := hlen r.matcher hk (Bool.and_eq_true_iff.mp happ).2
    simp only [hl, lt_irrefl, if_false]

/-- Rules for one row name one key. -/
theorem textLen_of_isRow {m m' : CategoryMatcher} (hm : m.isRow = true) (hm' : m'.isRow = true)
    (h : m.matches toLowercase subject = true) (h' : m'.matches toLowercase subject = true) :
    m.textLen = m'.textLen := by
  cases m with
  | row key =>
    cases m' with
    | row key' =>
      simp only [CategoryMatcher.matches, Bool.and_eq_true, decide_eq_true_eq] at h h'
      cases h.2.symm.trans h'.2
      rfl
    | sourceCategory _ | descriptionContains _ | description _ _ => cases hm'
  | sourceCategory _ | descriptionContains _ | description _ _ => cases hm

/-- Rules for the category of one row name one category. -/
theorem textLen_of_isSourceCategory {m m' : CategoryMatcher} (hm : m.isSourceCategory = true)
    (hm' : m'.isSourceCategory = true) (h : m.matches toLowercase subject = true)
    (h' : m'.matches toLowercase subject = true) : m.textLen = m'.textLen := by
  cases m with
  | sourceCategory value =>
    cases m' with
    | sourceCategory value' =>
      simp only [CategoryMatcher.matches, Bool.and_eq_true, decide_eq_true_eq] at h h'
      cases h.2.symm.trans h'.2
      rfl
    | row _ | descriptionContains _ | description _ _ => cases hm'
  | row _ | descriptionContains _ | description _ _ => cases hm

/-! ### The preview against the saved rule -/

/-- Only description rules apply to the subject, and the one that decides it is longer than the proposal and of
    another category. -/
def Overridden (toLowercase : String → String) (subject : CategorySubject) (rules : List CategoryRule)
    (proposed : CategoryRuleProposal) : Prop :=
  proposed.matcher.isDescription = true ∧ Applies toLowercase subject proposed ∧
    (∀ r ∈ rules, r.applies toLowercase subject = true → r.matcher.isDescription = true) ∧
    ∃ r, decidingRule toLowercase subject CategoryMatcher.isDescription rules = some r ∧
      proposed.matcher.textLen < r.matcher.textLen ∧ r.category ≠ proposed.category

theorem assign_saved_other (h : ¬Applies toLowercase subject proposed) :
    assign toLowercase subject (rules ++ [proposed.saved id version]) = assign toLowercase subject rules := by
  have hother : ∀ kind : CategoryMatcher → Bool,
      ¬(kind proposed.matcher = true ∧ Applies toLowercase subject proposed) := fun kind hboth => h hboth.2
  rw [assign, decidingRule_other (hother _), decidingRule_other (hother _), decidingRule_other (hother _), assign]

theorem assignWithProposed_other (h : ¬Applies toLowercase subject proposed) :
    assignWithProposed toLowercase subject rules proposed = assign toLowercase subject rules := by
  rw [Applies, not_and_or] at h
  rw [assignWithProposed, if_pos]
  simpa only [Bool.or_eq_true, Bool.not_eq_true', Bool.not_eq_true] using h

/-- What the preview of a rule for the description does with the current assignment. -/
theorem assignWithProposed_of_isDescription (happ : Applies toLowercase subject proposed)
    (hm : proposed.matcher.isDescription = true) :
    assignWithProposed toLowercase subject rules proposed =
      match assign toLowercase subject rules with
      | .assigned category (.row rule) => .assigned category (.row rule)
      | .assigned category (.sourceCategory rule) => .assigned category (.sourceCategory rule)
      | _ => proposalAssignment proposed := by
  rw [assignWithProposed, if_neg (by simp [happ.1, happ.2])]
  cases hmatcher : proposed.matcher with
  | row _ | sourceCategory _ =>
    rw [hmatcher] at hm
    cases hm
  | descriptionContains _ | description _ _ =>
    rcases assign_cases toLowercase subject rules with
      ⟨r, -, ha⟩ | ⟨-, ⟨r, -, ha⟩ | ⟨-, ⟨r, -, ha⟩ | ⟨-, ha⟩⟩⟩ <;> simp only [ha]

section Applies
variable (happ : Applies toLowercase subject proposed) (hnew : ∀ r ∈ rules, r.version < version)
include happ hnew

/-- A rule for the row itself wins in the preview and once saved. -/
theorem agrees_of_isRow (hm : proposed.matcher.isRow = true) :
    (assignWithProposed toLowercase subject rules proposed).category? =
      (assign toLowercase subject (rules ++ [proposed.saved id version])).category? := by
  have hsaved : decidingRule toLowercase subject CategoryMatcher.isRow (rules ++ [proposed.saved id version]) =
      some (proposed.saved id version) :=
    decidingRule_saved_of_textLen hnew hm happ fun m hk hmatches => textLen_of_isRow hk hm hmatches happ.2
  rw [assignWithProposed, if_neg (by simp [happ.1, happ.2]), assign.eq_def _ _ (rules ++ _), hsaved]
  cases hmatcher : proposed.matcher with
  | row key => rfl
  | sourceCategory _ | descriptionContains _ | description _ _ =>
    rw [hmatcher] at hm
    cases hm

/-- A rule for the category of the source gives way to a rule for the row, in the preview and once saved. -/
theorem agrees_of_isSourceCategory (hm : proposed.matcher.isSourceCategory = true) :
    (assignWithProposed toLowercase subject rules proposed).category? =
      (assign toLowercase subject (rules ++ [proposed.saved id version])).category? := by
  have hsaved : decidingRule toLowercase subject CategoryMatcher.isSourceCategory
      (rules ++ [proposed.saved id version]) = some (proposed.saved id version) :=
    decidingRule_saved_of_textLen hnew hm happ fun m hk hmatches => textLen_of_isSourceCategory hk hm hmatches happ.2
  rw [assignWithProposed, if_neg (by simp [happ.1, happ.2])]
  cases hmatcher : proposed.matcher with
  | row _ | descriptionContains _ | description _ _ =>
    rw [hmatcher] at hm
    cases hm
  | sourceCategory value =>
    have hrow : decidingRule toLowercase subject CategoryMatcher.isRow (rules ++ [proposed.saved id version]) =
        decidingRule toLowercase subject CategoryMatcher.isRow rules :=
      decidingRule_other (by rw [hmatcher]; rintro ⟨⟨⟩, _⟩)
    rw [assign.eq_def _ _ (rules ++ _), hrow, hsaved]
    rcases assign_cases toLowercase subject rules with
      ⟨r, hr, ha⟩ | ⟨hr, ⟨r, -, ha⟩ | ⟨-, ⟨r, -, ha⟩ | ⟨-, ha⟩⟩⟩
    · rw [ha, hr]
      rfl
    · rw [ha, hr]
      rfl
    · rw [ha, hr]
      rfl
    · rw [ha, hr]
      rfl

/-- A rule for the description gives way to the other kinds. Among its own kind it gives way to a longer text, which
    the preview does not see. -/
theorem agrees_of_isDescription_iff (hm : proposed.matcher.isDescription = true) :
    (assignWithProposed toLowercase subject rules proposed).category? =
        (assign toLowercase subject (rules ++ [proposed.saved id version])).category? ↔
      ¬Overridden toLowercase subject rules proposed := by
  obtain ⟨hnorow, hnosource⟩ := other_kinds_of_isDescription hm
  have hrow : decidingRule toLowercase subject CategoryMatcher.isRow (rules ++ [proposed.saved id version]) =
      decidingRule toLowercase subject CategoryMatcher.isRow rules := decidingRule_other fun h => absurd h.1 hnorow
  have hsource : decidingRule toLowercase subject CategoryMatcher.isSourceCategory
      (rules ++ [proposed.saved id version]) = decidingRule toLowercase subject CategoryMatcher.isSourceCategory rules :=
    decidingRule_other fun h => absurd h.1 hnosource
  rw [assignWithProposed_of_isDescription happ hm, assign.eq_def _ _ (rules ++ _), hrow, hsource,
    decidingRule_saved hnew hm happ]
  rcases assign_cases toLowercase subject rules with
    ⟨r, hr, ha⟩ | ⟨hr, ⟨r, hs, ha⟩ | ⟨hs, ⟨r, hd, ha⟩ | ⟨hd, ha⟩⟩⟩
  · rw [ha, hr]
    refine iff_of_true rfl fun ⟨_, _, honly, _⟩ => ?_
    obtain ⟨hmem, hk, happlies⟩ := decidingRule_mem hr
    exact (other_kinds_of_isDescription (honly r hmem happlies)).1 hk
  · rw [ha, hr, hs]
    refine iff_of_true rfl fun ⟨_, _, honly, _⟩ => ?_
    obtain ⟨hmem, hk, happlies⟩ := decidingRule_mem hs
    exact (other_kinds_of_isDescription (honly r hmem happlies)).2 hk
  · have honly : ∀ r ∈ rules, r.applies toLowercase subject = true → r.matcher.isDescription = true := by
      intro r' hr' happlies
      rcases kind_cases r'.matcher with hk | hk | hk
      · exact absurd happlies (decidingRule_eq_none.mp hr r' hr' hk)
      · exact absurd happlies (decidingRule_eq_none.mp hs r' hr' hk)
      · exact hk
    rw [ha, hr, hs, hd]
    by_cases hlt : proposed.matcher.textLen < r.matcher.textLen
    · simp only [if_pos hlt]
      have hoverridden : Overridden toLowercase subject rules proposed ↔ r.category ≠ proposed.category := by
        constructor
        · rintro ⟨-, -, -, r', hd', -, hne⟩
          cases hd.symm.trans hd'
          exact hne
        · intro hne
          exact ⟨hm, happ, honly, r, hd, hlt, hne⟩
      rw [hoverridden, not_not]
      exact ⟨fun h => (Option.some.inj h).symm, fun h => congrArg some h.symm⟩
    · simp only [if_neg hlt]
      refine iff_of_true rfl fun ⟨_, _, _, r', hd', hlt', _⟩ => ?_
      cases hd.symm.trans hd'
      exact hlt hlt'
  · rw [ha, hr, hs, hd]
    refine iff_of_true rfl fun ⟨_, _, _, r', hd', _⟩ => ?_
    cases hd.symm.trans hd'

end Applies

/-- The preview shows the category that saving the rule leads to, exactly when the proposal is not overridden: when
    no longer description rule of another category decides the subject. -/
theorem preview_eq_saved_iff (toLowercase : String → String) (subject : CategorySubject) (rules : List CategoryRule)
    (proposed : CategoryRuleProposal) (id : CategoryRuleId) (version : Nat)
    (hnew : ∀ r ∈ rules, r.version < version) :
    (assignWithProposed toLowercase subject rules proposed).category? =
        (assign toLowercase subject (rules ++ [proposed.saved id version])).category? ↔
      ¬Overridden toLowercase subject rules proposed := by
  by_cases happ : Applies toLowercase subject proposed
  · rcases kind_cases proposed.matcher with hm | hm | hm
    · refine iff_of_true (agrees_of_isRow happ hnew hm) fun hover => ?_
      exact (other_kinds_of_isDescription hover.1).1 hm
    · refine iff_of_true (agrees_of_isSourceCategory happ hnew hm) fun hover => ?_
      exact (other_kinds_of_isDescription hover.1).2 hm
    · exact agrees_of_isDescription_iff happ hnew hm
  · rw [assignWithProposed_other happ, assign_saved_other happ]
    exact iff_of_true rfl fun hover => happ hover.2.1

/-- A purchase whose text is in lower case. -/
def sampleSubject : CategorySubject := ⟨none, none, some "corner shop", some "corner shop", ⟨20000⟩⟩

/-- One rule files the purchase by its whole text. -/
def sampleRules : List CategoryRule := [⟨⟨1⟩, 1, ⟨none, none⟩, .description "corner shop" .contains, ⟨10⟩⟩]

/-- A proposal to file what has the text under another category. -/
def sampleProposal (text : String) : CategoryRuleProposal := ⟨⟨2⟩, ⟨none, none⟩, .description text .contains, ⟨11⟩⟩

theorem sampleProposal_agrees :
    (assignWithProposed String.toLower sampleSubject sampleRules (sampleProposal "corner shop")).category? =
      (assign String.toLower sampleSubject (sampleRules ++ [(sampleProposal "corner shop").saved ⟨3⟩ 2])).category? := by
  have hnew : ∀ r ∈ sampleRules, r.version < 2 := by simp [sampleRules]
  refine (preview_eq_saved_iff String.toLower sampleSubject sampleRules (sampleProposal "corner shop") ⟨3⟩ 2 hnew).mpr ?_
  rintro ⟨-, -, -, r, hr, hlt, -⟩
  obtain ⟨hmem, -, -⟩ := decidingRule_mem hr
  cases List.mem_singleton.mp hmem
  exact lt_irrefl _ hlt

/-- The preview of a rule for a shorter text moves the purchase, and saving the rule leaves it where it is. -/
theorem shorter_proposal_disagrees :
    (∀ r ∈ sampleRules, r.version < 2) ∧
      (assignWithProposed String.toLower sampleSubject sampleRules (sampleProposal "shop")).category? ≠
        (assign String.toLower sampleSubject (sampleRules ++ [(sampleProposal "shop").saved ⟨3⟩ 2])).category? := by
  decide +kernel

end Iaam.Category
