import Iaam.Category

/-! What the category rules make of a row: which rule decides, and how the decision changes with the rules. -/

namespace Iaam.Category
variable {toLowercase : String → String} {subject : CategorySubject} {rules : List CategoryRule}
  {kind : CategoryMatcher → Bool}

/-! ### The rule that decides -/

theorem decidingRule_mem {r : CategoryRule} (h : decidingRule toLowercase subject kind rules = some r) :
    r ∈ rules ∧ kind r.matcher = true ∧ r.applies toLowercase subject = true := by
  obtain ⟨hr, hkept⟩ := List.mem_filter.mp (Search.mem_of_maxByKey h)
  exact ⟨hr, Bool.and_eq_true_iff.mp hkept⟩

theorem decidingRule_eq_none :
    decidingRule toLowercase subject kind rules = none ↔
      ∀ r ∈ rules, kind r.matcher = true → ¬r.applies toLowercase subject = true := by
  rw [decidingRule, Search.maxByKey_eq_none, applicable, List.filter_eq_nil_iff]
  simp only [Bool.and_eq_true, not_and]

/-! ### What an assignment rests on -/

theorem kind_cases (m : CategoryMatcher) : m.isRow = true ∨ m.isSourceCategory = true ∨ m.isDescription = true := by
  cases m with
  | row _ => exact Or.inl rfl
  | sourceCategory _ => exact Or.inr (Or.inl rfl)
  | descriptionContains _ | description _ _ => exact Or.inr (Or.inr rfl)

theorem other_kinds_of_isDescription {m : CategoryMatcher} (h : m.isDescription = true) :
    ¬m.isRow = true ∧ ¬m.isSourceCategory = true := by
  cases m with
  | descriptionContains _ | description _ _ => exact ⟨Bool.false_ne_true, Bool.false_ne_true⟩
  | row _ | sourceCategory _ => cases h

theorem basis_of_isRow {m : CategoryMatcher} (h : m.isRow = true) (rule : CategoryRuleId) :
    m.basis rule = .row rule := by
  cases m with
  | row _ => rfl
  | sourceCategory _ | descriptionContains _ | description _ _ => cases h

theorem basis_of_isSourceCategory {m : CategoryMatcher} (h : m.isSourceCategory = true) (rule : CategoryRuleId) :
    m.basis rule = .sourceCategory rule := by
  cases m with
  | sourceCategory _ => rfl
  | row _ | descriptionContains _ | description _ _ => cases h

theorem basis_of_isDescription {m : CategoryMatcher} (h : m.isDescription = true) (rule : CategoryRuleId) :
    m.basis rule = .description rule := by
  cases m with
  | descriptionContains _ | description _ _ => rfl
  | row _ | sourceCategory _ => cases h

/-- The ladder of an assignment, with the rule it stopped at. -/
theorem assign_cases (toLowercase : String → String) (subject : CategorySubject) (rules : List CategoryRule) :
    (∃ r, decidingRule toLowercase subject CategoryMatcher.isRow rules = some r ∧
      assign toLowercase subject rules = .assigned r.category (.row r.id)) ∨
    decidingRule toLowercase subject CategoryMatcher.isRow rules = none ∧
      ((∃ r, decidingRule toLowercase subject CategoryMatcher.isSourceCategory rules = some r ∧
        assign toLowercase subject rules = .assigned r.category (.sourceCategory r.id)) ∨
      decidingRule toLowercase subject CategoryMatcher.isSourceCategory rules = none ∧
        ((∃ r, decidingRule toLowercase subject CategoryMatcher.isDescription rules = some r ∧
          assign toLowercase subject rules = .assigned r.category (.description r.id)) ∨
        decidingRule toLowercase subject CategoryMatcher.isDescription rules = none ∧
          assign toLowercase subject rules = .notDecomposed)) := by
  rw [assign]
  cases hrow : decidingRule toLowercase subject CategoryMatcher.isRow rules with
  | some r =>
    refine Or.inl ⟨r, rfl, ?_⟩
    rw [← basis_of_isRow (decidingRule_mem hrow).2.1]
    rfl
  | none =>
    refine Or.inr ⟨rfl, ?_⟩
    cases hsource : decidingRule toLowercase subject CategoryMatcher.isSourceCategory rules with
    | some r =>
      refine Or.inl ⟨r, rfl, ?_⟩
      rw [← basis_of_isSourceCategory (decidingRule_mem hsource).2.1]
      rfl
    | none =>
      refine Or.inr ⟨rfl, ?_⟩
      cases hdesc : decidingRule toLowercase subject CategoryMatcher.isDescription rules with
      | some r =>
        refine Or.inl ⟨r, rfl, ?_⟩
        rw [← basis_of_isDescription (decidingRule_mem hdesc).2.1]
        rfl
      | none => exact Or.inr ⟨rfl, rfl⟩

/-- A row is not decomposed exactly when no rule applies to it. -/
theorem assign_eq_notDecomposed :
    assign toLowercase subject rules = .notDecomposed ↔ ∀ r ∈ rules, ¬r.applies toLowercase subject = true := by
  rcases assign_cases toLowercase subject rules with
    ⟨r, hr, ha⟩ | ⟨hrow, ⟨r, hr, ha⟩ | ⟨hsource, ⟨r, hr, ha⟩ | ⟨hdesc, ha⟩⟩⟩
  · obtain ⟨hmem, -, happ⟩ := decidingRule_mem hr
    exact iff_of_false (by rw [ha]; nofun) fun h => h r hmem happ
  · obtain ⟨hmem, -, happ⟩ := decidingRule_mem hr
    exact iff_of_false (by rw [ha]; nofun) fun h => h r hmem happ
  · obtain ⟨hmem, -, happ⟩ := decidingRule_mem hr
    exact iff_of_false (by rw [ha]; nofun) fun h => h r hmem happ
  · refine iff_of_true ha fun r hr => ?_
    rcases kind_cases r.matcher with hk | hk | hk
    · exact decidingRule_eq_none.mp hrow r hr hk
    · exact decidingRule_eq_none.mp hsource r hr hk
    · exact decidingRule_eq_none.mp hdesc r hr hk

/-- The rule an assignment names is one of the rules. -/
theorem mem_of_assign {category : CategoryId} {basis : CategoryBasis}
    (h : assign toLowercase subject rules = .assigned category basis) : ∃ r ∈ rules, r.id = basis.rule := by
  rcases assign_cases toLowercase subject rules with
    ⟨r, hr, ha⟩ | ⟨-, ⟨r, hr, ha⟩ | ⟨-, ⟨r, hr, ha⟩ | ⟨-, ha⟩⟩⟩
  · cases ha.symm.trans h
    exact ⟨r, (decidingRule_mem hr).1, rfl⟩
  · cases ha.symm.trans h
    exact ⟨r, (decidingRule_mem hr).1, rfl⟩
  · cases ha.symm.trans h
    exact ⟨r, (decidingRule_mem hr).1, rfl⟩
  · cases ha.symm.trans h

/-! ### Rules taken away -/

theorem decidingRule_filter_none {p : CategoryRule → Bool}
    (h : decidingRule toLowercase subject kind rules = none) :
    decidingRule toLowercase subject kind (rules.filter p) = none := by
  rw [decidingRule_eq_none] at h ⊢
  intro r hr
  exact h r (List.mem_filter.mp hr).1

/-- The rule that decides goes on deciding when others are taken away. -/
theorem decidingRule_filter_some {p : CategoryRule → Bool} {m : CategoryRule}
    (hids : ∀ a ∈ rules, ∀ b ∈ rules, a.id = b.id → a = b)
    (h : decidingRule toLowercase subject kind rules = some m) (hm : p m = true) :
    decidingRule toLowercase subject kind (rules.filter p) = some m := by
  have hsub : ∀ a ∈ applicable toLowercase subject kind (rules.filter p),
      a ∈ applicable toLowercase subject kind rules := by
    intro a ha
    obtain ⟨hmem, happ⟩ := List.mem_filter.mp ha
    exact List.mem_filter.mpr ⟨(List.mem_filter.mp hmem).1, happ⟩
  have hinj : ∀ a ∈ applicable toLowercase subject kind (rules.filter p),
      ∀ b ∈ applicable toLowercase subject kind (rules.filter p), rulePriority a = rulePriority b → a = b := by
    intro a ha b hb heq
    simp only [rulePriority, toLex_inj, Prod.mk.injEq] at heq
    exact hids a (List.mem_filter.mp (hsub a ha)).1 b (List.mem_filter.mp (hsub b hb)).1 heq.2.2
  obtain ⟨hmem, happ⟩ := List.mem_filter.mp (Search.mem_of_maxByKey h)
  refine (Search.maxByKey_eq_some hinj).mpr ⟨?_, fun a ha => Search.le_of_maxByKey h (hsub a ha)⟩
  exact List.mem_filter.mpr ⟨List.mem_filter.mpr ⟨hmem, hm⟩, happ⟩

/-- A row keeps its assignment when rules other than the one it names are taken away. -/
theorem assign_filter {p : CategoryRule → Bool} (hids : ∀ a ∈ rules, ∀ b ∈ rules, a.id = b.id → a = b)
    (hkept : ∀ category basis, assign toLowercase subject rules = .assigned category basis →
      ∀ r ∈ rules, r.id = basis.rule → p r = true) :
    assign toLowercase subject (rules.filter p) = assign toLowercase subject rules := by
  rcases assign_cases toLowercase subject rules with
    ⟨r, hr, ha⟩ | ⟨hrow, ⟨r, hr, ha⟩ | ⟨hsource, ⟨r, hr, ha⟩ | ⟨hdesc, ha⟩⟩⟩
  · have hp := hkept _ _ ha r (decidingRule_mem hr).1 rfl
    simp only [assign, decidingRule_filter_some hids hr hp, hr]
  · have hp := hkept _ _ ha r (decidingRule_mem hr).1 rfl
    simp only [assign, decidingRule_filter_none hrow, hrow, decidingRule_filter_some hids hr hp, hr]
  · have hp := hkept _ _ ha r (decidingRule_mem hr).1 rfl
    simp only [assign, decidingRule_filter_none hrow, hrow, decidingRule_filter_none hsource, hsource,
      decidingRule_filter_some hids hr hp, hr]
  · rw [ha, assign_eq_notDecomposed]
    intro r hr
    exact assign_eq_notDecomposed.mp ha r (List.mem_filter.mp hr).1

end Iaam.Category
