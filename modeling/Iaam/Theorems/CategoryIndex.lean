import Iaam.Journal.CategoryIndex
import Iaam.Lib.Runs
import Iaam.Theorems.CategoryRules

/-! The stored category assignments and the test that says whether they are stale.

The test compares one number, the version of the newest active rule, with the revision of the stored rows. Rules are
numbered upward, so a rule that is written is always noticed. The retirement of the newest rule uncovers the rules
below it, so what has to hold of the index is more than the test asks: for every version, the index agrees with the
active rules up to that version as soon as the test would pass for them. -/

namespace Iaam.StoredCategories
open CategoryStore

/-! ### The highest version of a list of rules -/

section Versions
variable {rules : List CategoryRule} {r : CategoryRule}

theorem le_highestVersion (h : r ∈ rules) : r.version ≤ highestVersion rules := by
  have hmem : r.version ∈ rules.map CategoryRule.version := List.mem_map_of_mem h
  rw [highestVersion]
  cases hmax : (rules.map CategoryRule.version).max? with
  | none =>
    rw [List.max?_eq_none_iff] at hmax
    rw [hmax] at hmem
    cases hmem
  | some m => exact (List.max?_eq_some_iff.mp hmax).2 _ hmem

theorem exists_highestVersion (h : rules ≠ []) : ∃ r ∈ rules, r.version = highestVersion rules := by
  rw [highestVersion]
  cases hmax : (rules.map CategoryRule.version).max? with
  | none =>
    rw [List.max?_eq_none_iff, List.map_eq_nil_iff] at hmax
    exact absurd hmax h
  | some m =>
    obtain ⟨r, hr, rfl⟩ := List.mem_map.mp (List.max?_eq_some_iff.mp hmax).1
    exact ⟨r, hr, rfl⟩

theorem highestVersion_eq (h : r ∈ rules) (hle : ∀ r' ∈ rules, r'.version ≤ r.version) :
    highestVersion rules = r.version := by
  obtain ⟨m, hm, heq⟩ := exists_highestVersion (List.ne_nil_of_mem h)
  exact Nat.le_antisymm (heq ▸ hle m hm) (le_highestVersion h)

/-- The rules up to a version. -/
def upTo (v : Nat) (rules : List CategoryRule) : List CategoryRule := rules.filter fun r => r.version ≤ v

theorem mem_upTo {v : Nat} : r ∈ upTo v rules ↔ r ∈ rules ∧ r.version ≤ v := by
  rw [upTo, List.mem_filter, decide_eq_true_eq]

theorem upTo_eq_self {v : Nat} (h : ∀ r ∈ rules, r.version ≤ v) : upTo v rules = rules := by
  rw [upTo, List.filter_eq_self]
  intro r hr
  exact decide_eq_true (h r hr)

end Versions

/-! ### What the index should hold, and what the test sees of it -/

section Agreement
variable (toLowercase : String → String) (owner : OwnerId)

/-- The rows that rules give for the events of an owner. -/
def Given (events : List Event) (rules : List CategoryRule) (row : AssignmentRow) : Prop :=
  ∃ e ∈ events, e.owner = owner ∧ ∃ category basis,
    Category.assign toLowercase (.of e) rules = .assigned category basis ∧
      row = ⟨owner, e.id, category, basis, highestVersion rules⟩

/-- The stored rows of the owner are those that the rules give. -/
def Agrees (events : List Event) (rows : List AssignmentRow) (rules : List CategoryRule) : Prop :=
  ∀ row, row.owner = owner → (row ∈ rows ↔ Given toLowercase owner events rules row)

/-- The test would find nothing if these were the active rules: every row is of their highest version, and there is
    a row unless there is no rule. -/
def Unnoticed (rows : List AssignmentRow) (rules : List CategoryRule) : Prop :=
  (∀ row ∈ rows, row.owner = owner → row.rulesRevision = highestVersion rules) ∧
    (rules ≠ [] → ∃ row ∈ rows, row.owner = owner)

/-- For every version, the index agrees with the rules up to it once the test would pass for them. -/
def Guarded (events : List Event) (rows : List AssignmentRow) (rules : List CategoryRule) : Prop :=
  ∀ v, Unnoticed owner rows (upTo v rules) → Agrees toLowercase owner events rows (upTo v rules)

end Agreement

section Guarded
variable {toLowercase : String → String} {owner : OwnerId} {events : List Event} {rows : List AssignmentRow}
  {rules : List CategoryRule}

theorem Guarded.agrees (h : Guarded toLowercase owner events rows rules) (hrows : Unnoticed owner rows rules) :
    Agrees toLowercase owner events rows rules := by
  have hall : upTo (highestVersion rules) rules = rules := upTo_eq_self fun r hr => le_highestVersion hr
  have hguard := h (highestVersion rules)
  rw [hall] at hguard
  exact hguard hrows

/-- Without rules no row is given. -/
theorem not_given_nil {row : AssignmentRow} : ¬Given toLowercase owner events [] row := by
  rintro ⟨e, -, -, category, basis, ha, -⟩
  obtain ⟨r, hr, -⟩ := Category.mem_of_assign ha
  cases hr

/-- A rule written above all others, and above the revision of every row, is always noticed. -/
theorem Guarded.concat (h : Guarded toLowercase owner events rows rules) {new : CategoryRule}
    (hnew : ∀ r ∈ rules, r.version < new.version)
    (hrows : ∀ row ∈ rows, row.owner = owner → row.rulesRevision < new.version) :
    Guarded toLowercase owner events rows (rules ++ [new]) := by
  intro v hv
  by_cases hle : new.version ≤ v
  · exfalso
    have hmem : new ∈ upTo v (rules ++ [new]) := mem_upTo.mpr ⟨List.mem_append_right _ List.mem_cons_self, hle⟩
    have hhigh : highestVersion (upTo v (rules ++ [new])) = new.version := by
      refine highestVersion_eq hmem fun r hr => ?_
      rcases List.mem_append.mp (mem_upTo.mp hr).1 with hr | hr
      · exact Nat.le_of_lt (hnew r hr)
      · exact Nat.le_of_eq (congrArg _ (List.mem_singleton.mp hr))
    obtain ⟨row, hrow, howner⟩ := hv.2 (List.ne_nil_of_mem hmem)
    have hlt := hrows row hrow howner
    rw [hv.1 row hrow howner, hhigh] at hlt
    exact lt_irrefl _ hlt
  · have hsame : upTo v (rules ++ [new]) = upTo v rules := by
      simp only [upTo, List.filter_append, List.filter_cons, List.filter_nil, decide_eq_true_eq, hle, if_false,
        List.append_nil]
    rw [hsame] at hv ⊢
    exact h v hv

/-- Whether retiring a rule can leave the index unnoticed and wrong: all rows are of the version of one other active
    rule, and a row names the retired one. -/
def Uncovers (owner : OwnerId) (rows : List AssignmentRow) (rules : List CategoryRule) (id : CategoryRuleId) : Prop :=
  (∃ r ∈ rules, r.id ≠ id ∧ ∀ row ∈ rows, row.owner = owner → row.rulesRevision = r.version) ∧
    ∃ row ∈ rows, row.owner = owner ∧ row.basis.rule = id

/-- Rules that give the same rows for every event agree with the same index. -/
theorem Agrees.congr {rules' : List CategoryRule} (h : Agrees toLowercase owner events rows rules)
    (hassign : ∀ e ∈ events, e.owner = owner →
      Category.assign toLowercase (.of e) rules' = Category.assign toLowercase (.of e) rules)
    (hhigh : highestVersion rules' = highestVersion rules) : Agrees toLowercase owner events rows rules' := by
  intro row howner
  rw [h row howner]
  constructor
  · rintro ⟨e, he, heo, category, basis, ha, rfl⟩
    exact ⟨e, he, heo, category, basis, (hassign e he heo).trans ha, by rw [hhigh]⟩
  · rintro ⟨e, he, heo, category, basis, ha, rfl⟩
    exact ⟨e, he, heo, category, basis, (hassign e he heo).symm.trans ha, by rw [hhigh]⟩

/-- A rule that is retired without uncovering anything leaves the index guarded. -/
theorem Guarded.remove (h : Guarded toLowercase owner events rows rules) {id : CategoryRuleId}
    (hids : ∀ a ∈ rules, ∀ b ∈ rules, a.id = b.id → a = b) (hpos : ∀ r ∈ rules, 0 < r.version)
    (hsafe : ¬Uncovers owner rows rules id) :
    Guarded toLowercase owner events rows (rules.filter fun r => r.id ≠ id) := by
  intro v hv
  by_cases hempty : upTo v (rules.filter fun r => r.id ≠ id) = []
  · -- Nothing is left, as there is nothing below the first version.
    have hzero : upTo 0 rules = [] := List.filter_eq_nil_iff.mpr fun r hr => by
      simpa using Nat.ne_of_gt (hpos r hr)
    rw [hempty, ← hzero] at hv ⊢
    exact h 0 hv
  -- Otherwise the newest of those that are left stands for the version up to which the index is guarded.
  obtain ⟨top, htop, hhigh⟩ := exists_highestVersion hempty
  obtain ⟨hkept, hle⟩ := mem_upTo.mp htop
  obtain ⟨hmem, hid⟩ := List.mem_filter.mp hkept
  have hleft : upTo v (rules.filter fun r => r.id ≠ id) = (upTo top.version rules).filter fun r => r.id ≠ id := by
    simp only [upTo, List.filter_filter]
    refine List.filter_congr fun r hr => ?_
    by_cases hrid : r.id = id
    · simp [hrid]
    · have hiff : r.version ≤ v ↔ r.version ≤ top.version := by
        refine ⟨fun hrv => hhigh ▸ le_highestVersion (mem_upTo.mpr ⟨?_, hrv⟩), fun hrv => hrv.trans hle⟩
        exact List.mem_filter.mpr ⟨hr, decide_eq_true hrid⟩
      simp [hrid, hiff]
  have htopHigh : highestVersion (upTo top.version rules) = top.version :=
    highestVersion_eq (mem_upTo.mpr ⟨hmem, le_refl _⟩) fun r hr => (mem_upTo.mp hr).2
  have hrows : ∀ row ∈ rows, row.owner = owner → row.rulesRevision = top.version := fun row hrow howner =>
    (hv.1 row hrow howner).trans hhigh.symm
  have hagrees : Agrees toLowercase owner events rows (upTo top.version rules) :=
    h top.version ⟨fun row hrow howner => (hrows row hrow howner).trans htopHigh.symm, fun _ => hv.2 hempty⟩
  have hnames : ∀ row ∈ rows, row.owner = owner → row.basis.rule ≠ id := fun row hrow howner hrule =>
    hsafe ⟨⟨top, hmem, of_decide_eq_true hid, hrows⟩, row, hrow, howner, hrule⟩
  refine hagrees.congr (fun e he heo => ?_) (hhigh.symm.trans htopHigh.symm)
  rw [hleft]
  refine Category.assign_filter (fun a ha b hb => hids a (mem_upTo.mp ha).1 b (mem_upTo.mp hb).1) ?_
  intro category basis ha r hr hrid
  refine decide_eq_true fun hrule => ?_
  exact hnames _ ((hagrees _ rfl).mpr ⟨e, he, heo, category, basis, ha, rfl⟩) rfl (hrid.symm.trans hrule)

/-- The highest version tells how far up a list of rules reaches. -/
theorem upTo_eq_of_highestVersion {v : Nat} (hpos : ∀ r ∈ rules, 0 < r.version) (hne : rules ≠ [])
    (heq : highestVersion rules = highestVersion (upTo v rules)) : upTo v rules = rules := by
  obtain ⟨top, htop, hhigh⟩ := exists_highestVersion hne
  have hsome : upTo v rules ≠ [] := by
    intro hnil
    have hzero : highestVersion rules = 0 := by rw [heq, hnil]; rfl
    exact Nat.ne_of_gt (hpos top htop) (hhigh.trans hzero)
  obtain ⟨top', htop', hhigh'⟩ := exists_highestVersion hsome
  refine upTo_eq_self fun r hr => (le_highestVersion hr).trans ?_
  rw [heq, ← hhigh']
  exact (mem_upTo.mp htop').2

/-- A row that rules give is of their highest version, which is that of one of them. -/
theorem Given.rules_ne_nil {row : AssignmentRow} (h : Given toLowercase owner events rules row) : rules ≠ [] := by
  rintro rfl
  exact not_given_nil h

theorem Given.revision {row : AssignmentRow} (h : Given toLowercase owner events rules row) :
    row.rulesRevision = highestVersion rules := by
  obtain ⟨e, -, -, category, basis, -, rfl⟩ := h
  rfl

/-- Only the owner's rows and events matter. -/
theorem Guarded.congr {events' : List Event} {rows' : List AssignmentRow}
    (h : Guarded toLowercase owner events rows rules)
    (hrows : ∀ row : AssignmentRow, row.owner = owner → (row ∈ rows' ↔ row ∈ rows))
    (hevents : ∀ e : Event, e.owner = owner → (e ∈ events' ↔ e ∈ events)) :
    Guarded toLowercase owner events' rows' rules := by
  intro v hv row howner
  have hgiven : Given toLowercase owner events' (upTo v rules) row ↔ Given toLowercase owner events (upTo v rules) row := by
    constructor
    · rintro ⟨e, he, heo, hrow⟩
      exact ⟨e, (hevents e heo).mp he, heo, hrow⟩
    · rintro ⟨e, he, heo, hrow⟩
      exact ⟨e, (hevents e heo).mpr he, heo, hrow⟩
  rw [hrows row howner, hgiven]
  refine h v ⟨fun row hrow ho => hv.1 row ((hrows row ho).mpr hrow) ho, fun hne => ?_⟩ row howner
  obtain ⟨row', hrow', ho'⟩ := hv.2 hne
  exact ⟨row', (hrows row' ho').mp hrow', ho'⟩

/-- Rows that are those of all the rules are guarded. -/
theorem guarded_of_agrees (hpos : ∀ r ∈ rules, 0 < r.version) (h : Agrees toLowercase owner events rows rules) :
    Guarded toLowercase owner events rows rules := by
  intro v hv
  by_cases hall : upTo v rules = rules
  · rw [hall]
    exact h
  -- With fewer rules the highest version differs, so the test would find any row there is.
  have hnone : ∀ row : AssignmentRow, row.owner = owner → row ∉ rows := by
    intro row ho hrow
    have hgiven := (h row ho).mp hrow
    exact hall (upTo_eq_of_highestVersion hpos hgiven.rules_ne_nil (hgiven.revision.symm.trans (hv.1 row hrow ho)))
  have hnil : upTo v rules = [] := by
    by_contra hne
    obtain ⟨row, hrow, ho⟩ := hv.2 hne
    exact hnone row ho hrow
  rw [hnil]
  intro row ho
  exact iff_of_false (hnone row ho) not_given_nil

theorem given_concat {e : Event} {row : AssignmentRow} :
    Given toLowercase owner (events ++ [e]) rules row ↔
      Given toLowercase owner events rules row ∨ Given toLowercase owner [e] rules row := by
  simp only [Given, List.mem_append, or_and_right, exists_or]

/-- A row put for a new event leaves the index guarded, unless it is the first and comes before an earlier event has
    the row it should have. -/
theorem Guarded.insert {e : Event} {rows' : List AssignmentRow} (h : Guarded toLowercase owner events rows rules)
    (hpos : ∀ r ∈ rules, 0 < r.version)
    (hrows : ∀ row : AssignmentRow, row.owner = owner →
      (row ∈ rows' ↔ row ∈ rows ∨ Given toLowercase owner [e] rules row))
    (hsafe : (∀ row ∈ rows, row.owner ≠ owner) → (∃ row, Given toLowercase owner [e] rules row) →
      ∀ row, ¬Given toLowercase owner events rules row) :
    Guarded toLowercase owner (events ++ [e]) rows' rules := by
  intro v hv
  by_cases hnew : ∃ row, Given toLowercase owner [e] rules row
  · -- The new row is of the version of all the rules, so the test can pass for no fewer.
    obtain ⟨new, hgiven⟩ := hnew
    have hnewo : new.owner = owner := by
      obtain ⟨e', -, -, category, basis, -, rfl⟩ := hgiven
      rfl
    have hall : upTo v rules = rules := by
      refine upTo_eq_of_highestVersion hpos hgiven.rules_ne_nil (hgiven.revision.symm.trans ?_)
      exact hv.1 new ((hrows new hnewo).mpr (Or.inr hgiven)) hnewo
    rw [hall] at hv ⊢
    have hbefore : Agrees toLowercase owner events rows rules := by
      by_cases hempty : ∀ row ∈ rows, row.owner ≠ owner
      · intro row ho
        exact iff_of_false (fun hrow => hempty row hrow ho) (hsafe hempty ⟨new, hgiven⟩ row)
      · simp only [not_forall, not_not] at hempty
        obtain ⟨row₀, hrow₀, ho₀⟩ := hempty
        refine h.agrees ⟨fun row hrow ho => ?_, fun _ => ⟨row₀, hrow₀, ho₀⟩⟩
        exact hv.1 row ((hrows row ho).mpr (Or.inl hrow)) ho
    intro row ho
    rw [hrows row ho, hbefore row ho, given_concat]
  · -- Nothing is put, and fewer rules give the event no row either.
    have hsame : ∀ row : AssignmentRow, row.owner = owner → (row ∈ rows' ↔ row ∈ rows) := by
      intro row ho
      rw [hrows row ho]
      exact or_iff_left fun hgiven => hnew ⟨row, hgiven⟩
    have hfewer : ∀ row, ¬Given toLowercase owner [e] (upTo v rules) row := by
      rintro row ⟨e', he', heo, category, basis, ha, -⟩
      cases hfull : Category.assign toLowercase (.of e') rules with
      | assigned category' basis' => exact hnew ⟨_, e', he', heo, category', basis', hfull, rfl⟩
      | notDecomposed =>
        have hnone : Category.assign toLowercase (.of e') (upTo v rules) = .notDecomposed :=
          Category.assign_eq_notDecomposed.mpr fun r hr =>
            Category.assign_eq_notDecomposed.mp hfull r (mem_upTo.mp hr).1
        cases ha.symm.trans hnone
    have hbefore := (h.congr hsame fun e _ => Iff.rfl) v hv
    intro row ho
    rw [hbefore row ho, given_concat]
    exact (or_iff_left (hfewer row)).symm

end Guarded

/-! ### What is written -/

section Writing
variable {toLowercase : String → String} {s : CategoryStore} {owner : OwnerId} {e : Event} {rules : List CategoryRule}
  {rev : Nat}

theorem mem_storeAssignment {row : AssignmentRow} :
    row ∈ (storeAssignment toLowercase s owner e rules rev).1.assignments ↔
      row ∈ s.assignments ∧ ¬(row.owner = owner ∧ row.event = e.id) ∨
        ∃ category basis, Category.assign toLowercase (.of e) rules = .assigned category basis ∧
          row = ⟨owner, e.id, category, basis, rev⟩ := by
  rw [storeAssignment]
  cases Category.assign toLowercase (.of e) rules with
  | notDecomposed => simp [imp_iff_not_or]
  | assigned category basis => simp [imp_iff_not_or]

theorem storeAssignment_frame :
    (storeAssignment toLowercase s owner e rules rev).1.rules = s.rules ∧
      (storeAssignment toLowercase s owner e rules rev).1.events = s.events := by
  rw [storeAssignment]
  cases Category.assign toLowercase (.of e) rules <;> exact ⟨rfl, rfl⟩

/-- The rows after some events of an owner are stored one after another. -/
theorem mem_foldl_storeAssignment {es : List Event} (hids : es.Pairwise fun a b => a.id ≠ b.id)
    {acc : CategoryStore × Nat} {row : AssignmentRow} {f : CategoryStore × Nat → Event → CategoryStore × Nat}
    (hf : ∀ acc e, (f acc e).1 = (storeAssignment toLowercase acc.1 owner e rules rev).1) :
    row ∈ (es.foldl f acc).1.assignments ↔
      row ∈ acc.1.assignments ∧ ¬(row.owner = owner ∧ ∃ e ∈ es, row.event = e.id) ∨
        ∃ e ∈ es, ∃ category basis, Category.assign toLowercase (.of e) rules = .assigned category basis ∧
          row = ⟨owner, e.id, category, basis, rev⟩ := by
  induction es generalizing acc with
  | nil => simp
  | cons e es ih =>
    obtain ⟨hhead, htail⟩ := List.pairwise_cons.mp hids
    rw [List.foldl_cons, ih htail, hf, mem_storeAssignment]
    simp only [List.exists_mem_cons_iff]
    constructor
    · rintro (⟨⟨hmem, hne⟩ | hrow, hrest⟩ | hrow)
      · exact Or.inl ⟨hmem, fun ⟨ho, h⟩ => h.elim (fun h => hne ⟨ho, h⟩) fun h => hrest ⟨ho, h⟩⟩
      · exact Or.inr (Or.inl hrow)
      · exact Or.inr (Or.inr hrow)
    · rintro (⟨hmem, hne⟩ | ⟨category, basis, ha, rfl⟩ | hrow)
      · exact Or.inl ⟨Or.inl ⟨hmem, fun ⟨ho, h⟩ => hne ⟨ho, Or.inl h⟩⟩, fun ⟨ho, h⟩ => hne ⟨ho, Or.inr h⟩⟩
      · refine Or.inl ⟨Or.inr ⟨category, basis, ha, rfl⟩, ?_⟩
        rintro ⟨-, e', he', heq⟩
        exact hhead e' he' heq
      · exact Or.inr hrow

theorem foldl_storeAssignment_frame {es : List Event} {acc : CategoryStore × Nat}
    {f : CategoryStore × Nat → Event → CategoryStore × Nat}
    (hf : ∀ acc e, (f acc e).1 = (storeAssignment toLowercase acc.1 owner e rules rev).1) :
    (es.foldl f acc).1.rules = acc.1.rules ∧ (es.foldl f acc).1.events = acc.1.events := by
  induction es generalizing acc with
  | nil => exact ⟨rfl, rfl⟩
  | cons e es ih =>
    obtain ⟨hr, he⟩ := @ih (f acc e)
    rw [List.foldl_cons, hr, he, hf]
    exact storeAssignment_frame

theorem mem_rebuild (hids : s.events.Pairwise fun a b => a.id ≠ b.id) {row : AssignmentRow} :
    row ∈ (s.rebuild toLowercase owner).1.assignments ↔
      row ∈ s.assignments ∧ row.owner ≠ owner ∨ Given toLowercase owner s.events (s.activeRules owner) row := by
  have hids' : (s.events.filter fun e => e.owner = owner).Pairwise fun a b => a.id ≠ b.id := hids.filter _
  rw [rebuild, mem_foldl_storeAssignment hids' fun acc e => rfl]
  refine or_congr ?_ ?_
  · simp only [List.mem_filter, decide_eq_true_eq]
    exact ⟨fun h => h.1, fun h => ⟨h, fun hrow => h.2 hrow.1⟩⟩
  · simp only [Given, List.mem_filter, decide_eq_true_eq, and_assoc]

theorem rebuild_frame (toLowercase : String → String) (s : CategoryStore) (owner : OwnerId) :
    (s.rebuild toLowercase owner).1.rules = s.rules ∧ (s.rebuild toLowercase owner).1.events = s.events :=
  foldl_storeAssignment_frame fun _ _ => rfl

end Writing

/-! ### The invariant -/

/-- What holds of every store that is reached without uncovering anything. -/
structure Sound (toLowercase : String → String) (s : CategoryStore) : Prop where
  /-- An event is known by its identifier. -/
  eventIds : s.events.Pairwise fun a b => a.id ≠ b.id
  /-- A rule is known by its identifier, and by its owner and version. -/
  ruleKeys : ∀ a ∈ s.rules, ∀ b ∈ s.rules, a.id = b.id ∨ a.owner = b.owner ∧ a.version = b.version → a = b
  versions : ∀ r ∈ s.rules, 0 < r.version ∧ r.version ≤ maxVersion
  rowEvents : ∀ row ∈ s.assignments, ∃ e ∈ s.events, e.id = row.event
  rowRevisions : ∀ row ∈ s.assignments, ∃ r ∈ s.rules, r.owner = row.owner ∧ r.version = row.rulesRevision
  guarded : ∀ owner, Guarded toLowercase owner s.events s.assignments (s.activeRules owner)

section Steps
variable {toLowercase : String → String} {s t : CategoryStore} {owner : OwnerId}

theorem mem_activeRules {rule : CategoryRule} :
    rule ∈ s.activeRules owner ↔ ∃ r ∈ s.rules, r.owner = owner ∧ r.retiredAt = none ∧ r.toRule = rule := by
  simp only [activeRules, List.mem_map, List.mem_filter, decide_eq_true_eq, and_assoc]

theorem Sound.activeIds (h : Sound toLowercase s) :
    ∀ a ∈ s.activeRules owner, ∀ b ∈ s.activeRules owner, a.id = b.id → a = b := by
  intro a ha b hb heq
  obtain ⟨a', ha', -, -, rfl⟩ := mem_activeRules.mp ha
  obtain ⟨b', hb', -, -, rfl⟩ := mem_activeRules.mp hb
  rw [h.ruleKeys a' ha' b' hb' (Or.inl heq)]

theorem Sound.activeVersions (h : Sound toLowercase s) : ∀ r ∈ s.activeRules owner, 0 < r.version := by
  intro r hr
  obtain ⟨r', hr', -, -, rfl⟩ := mem_activeRules.mp hr
  exact (h.versions r' hr').1

theorem sound_empty (categories : List (OwnerId × CategoryId)) : Sound toLowercase (.empty categories) where
  eventIds := List.Pairwise.nil
  ruleKeys _ ha := absurd ha List.not_mem_nil
  versions _ hr := absurd hr List.not_mem_nil
  rowEvents _ hrow := absurd hrow List.not_mem_nil
  rowRevisions _ hrow := absurd hrow List.not_mem_nil
  guarded _ _ _ _ _ := iff_of_false nofun not_given_nil

/-! ### A rule is written -/

theorem writeCategoryRule_ok {id : CategoryRuleId} {rule : NewCategoryRule} {replaces : Option CategoryRuleId}
    (h : s.writeCategoryRule owner id rule replaces = .ok t) :
    ∃ new : CategoryRuleRow, new.owner = owner ∧ new.retiredAt = none ∧ new.version = s.nextVersion owner ∧
      (∀ r ∈ s.rules, ¬(r.id = new.id ∨ r.owner = owner ∧ r.version = new.version)) ∧
      t = { s with rules := s.rules ++ [new] } := by
  simp only [writeCategoryRule] at h
  split at h
  · cases h
  · split at h
    · cases h
    · next hfresh =>
      cases h
      refine ⟨_, rfl, rfl, rfl, ?_, rfl⟩
      intro r hr hsame
      exact hfresh (List.any_eq_true.mpr ⟨r, hr, decide_eq_true hsame⟩)

theorem nextVersion_bounds : 0 < s.nextVersion owner ∧ s.nextVersion owner ≤ maxVersion := by
  have hmax : 0 < maxVersion := by decide
  rw [nextVersion]
  split <;> omega

/-- The next number is above the owner's others: it stops at the greatest number there is only where it is taken. -/
theorem lt_nextVersion (hbound : ∀ r ∈ s.rules, r.version ≤ maxVersion)
    (hfresh : ∀ r ∈ s.rules, ¬(r.owner = owner ∧ r.version = s.nextVersion owner)) {r : CategoryRuleRow}
    (hr : r ∈ s.rules) (howner : r.owner = owner) : r.version < s.nextVersion owner := by
  have hmem : r.version ∈ (s.rules.filter fun r => r.owner = owner).map CategoryRuleRow.version :=
    List.mem_map_of_mem (List.mem_filter.mpr ⟨hr, decide_eq_true howner⟩)
  rw [nextVersion] at hfresh ⊢
  cases hmax : ((s.rules.filter fun r => r.owner = owner).map CategoryRuleRow.version).max? with
  | none =>
    rw [List.max?_eq_none_iff] at hmax
    rw [hmax] at hmem
    cases hmem
  | some used =>
    rw [hmax] at hfresh
    obtain ⟨hused, hle⟩ := List.max?_eq_some_iff.mp hmax
    obtain ⟨u, hu, rfl⟩ := List.mem_map.mp hused
    obtain ⟨humem, huowner⟩ := List.mem_filter.mp hu
    have hubound := hbound u humem
    have hutaken : u.version ≠ min (u.version + 1) maxVersion := fun heq =>
      hfresh u humem ⟨of_decide_eq_true huowner, heq⟩
    have hrle := hle r.version hmem
    simp only
    omega

theorem activeRules_concat {new : CategoryRuleRow} (hactive : new.retiredAt = none) (o : OwnerId) :
    CategoryStore.activeRules { s with rules := s.rules ++ [new] } o =
      s.activeRules o ++ if new.owner = o then [new.toRule] else [] := by
  by_cases ho : new.owner = o <;> simp [activeRules, List.filter_append, hactive, ho]

theorem sound_writeCategoryRule {id : CategoryRuleId} {rule : NewCategoryRule} {replaces : Option CategoryRuleId}
    (hs : Sound toLowercase s) (h : s.writeCategoryRule owner id rule replaces = .ok t) : Sound toLowercase t := by
  obtain ⟨new, howner, hactive, hversion, hfresh, rfl⟩ := writeCategoryRule_ok h
  have hlt : ∀ r ∈ s.rules, r.owner = owner → r.version < new.version := by
    intro r hr hro
    rw [hversion]
    refine lt_nextVersion (fun r hr => (hs.versions r hr).2) (fun r hr hsame => ?_) hr hro
    exact hfresh r hr (Or.inr (hversion ▸ hsame))
  refine ⟨hs.eventIds, ?_, ?_, hs.rowEvents, ?_, ?_⟩
  · intro a ha b hb hkey
    rcases List.mem_append.mp ha with ha | ha <;> rcases List.mem_append.mp hb with hb | hb
    · exact hs.ruleKeys a ha b hb hkey
    · cases List.mem_singleton.mp hb
      exact absurd (hkey.imp (fun hid => hid) fun hk => ⟨hk.1.trans howner, hk.2⟩) (hfresh a ha)
    · cases List.mem_singleton.mp ha
      exact absurd (hkey.imp Eq.symm fun hk => ⟨hk.1.symm.trans howner, hk.2.symm⟩) (hfresh b hb)
    · exact (List.mem_singleton.mp ha).trans (List.mem_singleton.mp hb).symm
  · intro r hr
    rcases List.mem_append.mp hr with hr | hr
    · exact hs.versions r hr
    · cases List.mem_singleton.mp hr
      exact hversion ▸ nextVersion_bounds
  · intro row hrow
    obtain ⟨r, hr, hkey⟩ := hs.rowRevisions row hrow
    exact ⟨r, List.mem_append_left _ hr, hkey⟩
  · intro o
    rw [activeRules_concat hactive]
    split
    · next ho =>
      refine (hs.guarded o).concat (fun r hr => ?_) fun row hrow hrowo => ?_
      · obtain ⟨r', hr', hr'o, -, rfl⟩ := mem_activeRules.mp hr
        exact hlt r' hr' (hr'o.trans (ho.symm.trans howner))
      · obtain ⟨r, hr, hro, hrev⟩ := hs.rowRevisions row hrow
        rw [← hrev]
        exact hlt r hr (hro.trans (hrowo.trans (ho.symm.trans howner)))
    · rw [List.append_nil]
      exact hs.guarded o

/-! ### A rule is retired -/

/-- A row after the update of a retirement. -/
def retired (owner : OwnerId) (id : CategoryRuleId) (now : String) (r : CategoryRuleRow) : CategoryRuleRow :=
  if isActiveRule owner id r then { r with retiredAt := some now } else r

theorem retireCategoryRuleRow_ok {id : CategoryRuleId} {now : String}
    (h : s.retireCategoryRuleRow owner id now = .ok t) :
    t = { s with rules := s.rules.map (retired owner id now) } := by
  rw [retireCategoryRuleRow] at h
  split at h
  · exact (Except.ok.inj h).symm
  · cases h

theorem retired_keys (owner : OwnerId) (id : CategoryRuleId) (now : String) (r : CategoryRuleRow) :
    (retired owner id now r).id = r.id ∧ (retired owner id now r).owner = r.owner ∧
      (retired owner id now r).version = r.version := by
  rw [retired]
  split <;> exact ⟨rfl, rfl, rfl⟩

theorem activeRules_retire (id : CategoryRuleId) (now : String) (o : OwnerId) :
    CategoryStore.activeRules { s with rules := s.rules.map (retired owner id now) } o =
      if o = owner then (s.activeRules o).filter fun r => r.id ≠ id else s.activeRules o := by
  simp only [activeRules]
  induction s.rules with
  | nil => simp
  | cons r rules ih =>
    by_cases hactive : isActiveRule owner id r = true
    · obtain ⟨rfl, rfl, hnone⟩ := of_decide_eq_true hactive
      have hout : (retired r.owner r.id now r).retiredAt = some now := by rw [retired, if_pos hactive]
      by_cases ho : o = r.owner
      · subst ho
        simpa [hout, hnone, CategoryRuleRow.toRule] using ih
      · simpa [hout, hnone, Ne.symm ho, ho] using ih
    · have hsame : retired owner id now r = r := by rw [retired, if_neg hactive]
      by_cases hkept : r.owner = o ∧ r.retiredAt = none
      · by_cases ho : o = owner
        · have hid : r.toRule.id ≠ id := fun hid =>
            hactive (decide_eq_true ⟨hkept.1.trans ho, hid, hkept.2⟩)
          simpa [hsame, hkept, ho, hid] using ih
        · simpa [hsame, hkept, ho] using ih
      · simpa [hsame, hkept] using ih

theorem sound_retire {id : CategoryRuleId} {now : String} (hs : Sound toLowercase s)
    (hsafe : ¬Uncovers owner s.assignments (s.activeRules owner) id)
    (h : s.retireCategoryRuleRow owner id now = .ok t) : Sound toLowercase t := by
  cases retireCategoryRuleRow_ok h
  refine ⟨hs.eventIds, ?_, ?_, hs.rowEvents, ?_, ?_⟩
  · intro a ha b hb hkey
    obtain ⟨a', ha', rfl⟩ := List.mem_map.mp ha
    obtain ⟨b', hb', rfl⟩ := List.mem_map.mp hb
    obtain ⟨haid, hao, hav⟩ := retired_keys owner id now a'
    obtain ⟨hbid, hbo, hbv⟩ := retired_keys owner id now b'
    rw [haid, hao, hav, hbid, hbo, hbv] at hkey
    rw [hs.ruleKeys a' ha' b' hb' hkey]
  · intro r hr
    obtain ⟨r', hr', rfl⟩ := List.mem_map.mp hr
    rw [(retired_keys owner id now r').2.2]
    exact hs.versions r' hr'
  · intro row hrow
    obtain ⟨r, hr, ho, hv⟩ := hs.rowRevisions row hrow
    obtain ⟨-, hro, hrv⟩ := retired_keys owner id now r
    exact ⟨_, List.mem_map_of_mem hr, hro.trans ho, hrv.trans hv⟩
  · intro o
    rw [activeRules_retire]
    split
    · next ho =>
      subst ho
      exact (hs.guarded o).remove hs.activeIds hs.activeVersions hsafe
    · exact hs.guarded o

theorem sound_amend {previous id : CategoryRuleId} {rule : NewCategoryRule} {now : String} (hs : Sound toLowercase s)
    (hsafe : ¬Uncovers owner s.assignments (s.activeRules owner) previous)
    (h : s.amendCategoryRule owner previous id rule now = .ok t) : Sound toLowercase t := by
  rw [amendCategoryRule, Outcome.bind_ok] at h
  obtain ⟨u, hretire, hwrite⟩ := h
  exact sound_writeCategoryRule (sound_retire hs hsafe hretire) hwrite

/-! ### The index is rebuilt -/

theorem Given.rule {events : List Event} {row : AssignmentRow}
    (h : Given toLowercase owner events (s.activeRules owner) row) :
    ∃ r ∈ s.rules, r.owner = row.owner ∧ r.version = row.rulesRevision := by
  obtain ⟨rule, hrule, hhigh⟩ := exists_highestVersion h.rules_ne_nil
  obtain ⟨r, hr, ho, -, rfl⟩ := mem_activeRules.mp hrule
  have hrowo : row.owner = owner := by
    obtain ⟨e, -, -, category, basis, -, rfl⟩ := h
    rfl
  exact ⟨r, hr, ho.trans hrowo.symm, hhigh.trans h.revision.symm⟩

theorem activeRules_congr (h : t.rules = s.rules) (o : OwnerId) : t.activeRules o = s.activeRules o := by
  rw [activeRules, h, activeRules]

theorem sound_rebuild (hs : Sound toLowercase s) : Sound toLowercase (s.rebuild toLowercase owner).1 := by
  obtain ⟨hrules, hevents⟩ := rebuild_frame toLowercase s owner
  refine ⟨hevents ▸ hs.eventIds, hrules ▸ hs.ruleKeys, hrules ▸ hs.versions, ?_, ?_, ?_⟩
  · intro row hrow
    rw [hevents]
    rcases (mem_rebuild hs.eventIds).mp hrow with ⟨hold, -⟩ | ⟨e, he, -, category, basis, -, rfl⟩
    · exact hs.rowEvents row hold
    · exact ⟨e, he, rfl⟩
  · intro row hrow
    rw [hrules]
    rcases (mem_rebuild hs.eventIds).mp hrow with ⟨hold, -⟩ | hgiven
    · exact hs.rowRevisions row hold
    · exact hgiven.rule
  · intro o
    rw [activeRules_congr hrules, hevents]
    by_cases ho : o = owner
    · subst ho
      refine guarded_of_agrees hs.activeVersions fun row hrowo => ?_
      rw [mem_rebuild hs.eventIds]
      exact or_iff_right fun h => h.2 hrowo
    · refine (hs.guarded o).congr (fun row hrowo => ?_) fun e _ => Iff.rfl
      rw [mem_rebuild hs.eventIds]
      constructor
      · rintro (⟨hold, -⟩ | ⟨e, -, -, category, basis, -, rfl⟩)
        · exact hold
        · exact absurd hrowo.symm ho
      · intro hold
        exact Or.inl ⟨hold, fun heq => ho (hrowo.symm.trans heq)⟩

/-! ### An event is inserted -/

/-- Whether inserting an event can leave the index unnoticed and wrong: its row would be the owner's only one, though
    the rules decompose an earlier event too. -/
def Conceals (toLowercase : String → String) (s : CategoryStore) (e : Event) : Prop :=
  (∀ row ∈ s.assignments, row.owner ≠ e.owner) ∧
    Category.assign toLowercase (.of e) (s.activeRules e.owner) ≠ .notDecomposed ∧
    ∃ e' ∈ s.events, e'.owner = e.owner ∧
      Category.assign toLowercase (.of e') (s.activeRules e.owner) ≠ .notDecomposed

theorem insertEvent_ok {e : Event} (h : s.insertEvent toLowercase e = .ok t) :
    (∀ e' ∈ s.events, e'.id ≠ e.id) ∧ t.rules = s.rules ∧ t.events = s.events ++ [e] ∧
      ∀ row, row ∈ t.assignments ↔ row ∈ s.assignments ∧ ¬(row.owner = e.owner ∧ row.event = e.id) ∨
        ∃ category basis,
          Category.assign toLowercase (.of e) (s.activeRules e.owner) = .assigned category basis ∧
            row = ⟨e.owner, e.id, category, basis, highestVersion (s.activeRules e.owner)⟩ := by
  rw [insertEvent] at h
  split at h
  · cases h
  · next hfresh =>
    cases h
    refine ⟨fun e' he' heq => hfresh (List.any_eq_true.mpr ⟨e', he', decide_eq_true heq⟩), ?_, ?_, fun row => ?_⟩
    · exact storeAssignment_frame.1
    · exact storeAssignment_frame.2
    · exact mem_storeAssignment

theorem sound_insertEvent {e : Event} (hs : Sound toLowercase s) (hsafe : ¬Conceals toLowercase s e)
    (h : s.insertEvent toLowercase e = .ok t) : Sound toLowercase t := by
  obtain ⟨hfresh, hrules, hevents, hmem⟩ := insertEvent_ok h
  have hgiven {row : AssignmentRow} : Given toLowercase e.owner [e] (s.activeRules e.owner) row ↔
      ∃ category basis, Category.assign toLowercase (.of e) (s.activeRules e.owner) = .assigned category basis ∧
        row = ⟨e.owner, e.id, category, basis, highestVersion (s.activeRules e.owner)⟩ := by
    simp [Given]
  have hrows : ∀ row, row ∈ t.assignments ↔
      row ∈ s.assignments ∨ Given toLowercase e.owner [e] (s.activeRules e.owner) row := by
    intro row
    rw [hmem, hgiven]
    refine or_congr_left (and_iff_left_of_imp fun hrow hsame => ?_)
    obtain ⟨e', he', heq⟩ := hs.rowEvents row hrow
    exact hfresh e' he' (heq.trans hsame.2)
  refine ⟨?_, hrules ▸ hs.ruleKeys, hrules ▸ hs.versions, ?_, ?_, ?_⟩
  · rw [hevents, List.pairwise_append]
    refine ⟨hs.eventIds, List.pairwise_singleton _ _, fun a ha b hb => ?_⟩
    cases List.mem_singleton.mp hb
    exact hfresh a ha
  · intro row hrow
    rw [hevents]
    rcases (hrows row).mp hrow with hold | ⟨e', he', -, category, basis, -, rfl⟩
    · obtain ⟨e', he', heq⟩ := hs.rowEvents row hold
      exact ⟨e', List.mem_append_left _ he', heq⟩
    · exact ⟨e', List.mem_append_right _ he', rfl⟩
  · intro row hrow
    rw [hrules]
    rcases (hrows row).mp hrow with hold | hnew
    · exact hs.rowRevisions row hold
    · exact hnew.rule
  · intro o
    rw [activeRules_congr hrules, hevents]
    by_cases ho : o = e.owner
    · subst ho
      refine (hs.guarded e.owner).insert hs.activeVersions (fun row _ => hrows row) ?_
      rintro hempty ⟨new, e', he', -, category, basis, ha, -⟩ row ⟨e'', he'', ho'', category', basis', ha', -⟩
      cases List.mem_singleton.mp he'
      exact hsafe ⟨hempty, by rw [ha]; nofun, e'', he'', ho'', by rw [ha']; nofun⟩
    · refine (hs.guarded o).congr (fun row hrowo => ?_) fun e' heo' => ?_
      · rw [hrows row]
        refine or_iff_left fun hnew => ?_
        obtain ⟨e', -, -, category, basis, -, rfl⟩ := hnew
        exact ho hrowo.symm
      · rw [List.mem_append]
        refine or_iff_left fun he' => ?_
        cases List.mem_singleton.mp he'
        exact ho heo'.symm

end Steps

/-! ### Runs -/

/-- The transactions after which the test still tells the truth: no event is inserted before the rows of earlier ones
    are computed, and no rule is retired whose rows would look current without it. -/
def Careful (toLowercase : String → String) (s : CategoryStore) : CategoryOperation → Prop
  | .insertEvent e => ¬Conceals toLowercase s e
  | .amendRule owner id .. | .retireRule owner id _ => ¬Uncovers owner s.assignments (s.activeRules owner) id
  | .insertRule .. | .rebuild _ => True

section Runs
variable {toLowercase : String → String} {s t : CategoryStore} {owner : OwnerId}

theorem sound_after {op : CategoryOperation} (hs : Sound toLowercase s) (hcareful : Careful toLowercase s op) :
    Sound toLowercase (s.after toLowercase op) := by
  rw [after]
  cases h : s.transact toLowercase op with
  | error e => exact hs
  | ok t =>
    cases op with
    | insertEvent e => exact sound_insertEvent hs hcareful h
    | insertRule owner id rule replaces => exact sound_writeCategoryRule hs h
    | amendRule owner previous id rule now => exact sound_amend hs hcareful h
    | retireRule owner id now => exact sound_retire hs hcareful h
    | rebuild owner =>
      cases h
      exact sound_rebuild hs

theorem revision_eq : s.revision owner = highestVersion (s.activeRules owner) := by
  rw [revision, highestVersion, activeRules, List.map_map]
  rfl

theorem Sound.unnoticed (hs : Sound toLowercase s) (h : s.isStale owner = false) :
    Unnoticed owner s.assignments (s.activeRules owner) := by
  simp only [isStale, revision_eq] at h
  split at h
  · cases h
  · next hrevision =>
    simp only [List.any_eq_true, decide_eq_true_eq, not_exists, not_and, not_not] at hrevision
    refine ⟨fun row hrow ho => hrevision row hrow ho, fun hne => ?_⟩
    obtain ⟨r, hr, hhigh⟩ := exists_highestVersion hne
    rw [if_neg (hhigh ▸ Nat.ne_of_gt (hs.activeVersions r hr)), Bool.not_eq_false', List.any_eq_true] at h
    obtain ⟨row, hrow, ho⟩ := h
    exact ⟨row, hrow, of_decide_eq_true ho⟩

/-- What the index says of an event. The absence of a row says that it is not decomposed. -/
def stored (s : CategoryStore) (owner : OwnerId) (event : EventId) : CategoryAssignment :=
  match s.assignments.find? fun row => row.owner = owner ∧ row.event = event with
  | some row => .assigned row.category row.basis
  | none => .notDecomposed

theorem Agrees.stored (hids : s.events.Pairwise fun a b => a.id ≠ b.id) {rules : List CategoryRule}
    (h : Agrees toLowercase owner s.events s.assignments rules) {e : Event} (he : e ∈ s.events)
    (heo : e.owner = owner) : stored s owner e.id = Category.assign toLowercase (.of e) rules := by
  rw [StoredCategories.stored]
  cases hfind : s.assignments.find? fun row => row.owner = owner ∧ row.event = e.id with
  | some row =>
    have hkey := List.find?_some hfind
    simp only [decide_eq_true_eq] at hkey
    obtain ⟨ho, hevent⟩ := hkey
    obtain ⟨e', he', -, category, basis, ha, rfl⟩ := (h row ho).mp (List.mem_of_find?_eq_some hfind)
    have hsame : e' = e := by
      have : Std.Symm fun a b : Event => a.id ≠ b.id := ⟨fun _ _ => Ne.symm⟩
      by_contra hne
      exact hids.forall he' he hne hevent
    rw [← hsame, ha]
  | none =>
    cases ha : Category.assign toLowercase (.of e) rules with
    | notDecomposed => rfl
    | assigned category basis =>
      have hrow := (h ⟨owner, e.id, category, basis, highestVersion rules⟩ rfl).mpr ⟨e, he, heo, category, basis, ha, rfl⟩
      exact absurd (decide_eq_true ⟨rfl, rfl⟩) (List.find?_eq_none.mp hfind _ hrow)

/-- In every run of careful transactions, an index that is not called stale is the one a rebuild would write: the
    assignment by the active rules of every event of the owner. -/
theorem not_stale_is_current {categories : List (OwnerId × CategoryId)} {ops : List CategoryOperation}
    (h : Runs.Run (fun s op t => Careful toLowercase s op ∧ t = s.after toLowercase op) (.empty categories) ops s)
    (hfresh : s.isStale owner = false) :
    (∀ row, row.owner = owner → (row ∈ s.assignments ↔ row ∈ (s.rebuild toLowercase owner).1.assignments)) ∧
      ∀ e ∈ s.events, e.owner = owner →
        stored s owner e.id = Category.assign toLowercase (.of e) (s.activeRules owner) := by
  have hs : Sound toLowercase s := by
    refine h.keeps (fun hs hstep => ?_) (sound_empty categories)
    obtain ⟨hcareful, rfl⟩ := hstep
    exact sound_after hs hcareful
  have hagrees := (hs.guarded owner).agrees (hs.unnoticed hfresh)
  refine ⟨fun row ho => ?_, fun e he heo => hagrees.stored hs.eventIds he heo⟩
  rw [mem_rebuild hs.eventIds, hagrees row ho]
  exact (or_iff_right fun hold => hold.2 ho).symm

end Runs

/-- An owner with two categories, and a rule for each. -/
def sampleOwner : OwnerId := ⟨0⟩

def sampleStore : CategoryStore := .empty [(sampleOwner, ⟨10⟩), (sampleOwner, ⟨11⟩)]

def sampleRule (text : String) (category : CategoryId) : NewCategoryRule :=
  ⟨.description text .contains, category, none, none⟩

/-- A payment with a text. -/
def samplePayment (id : EventId) (text : String) : Event :=
  { eventWith id ⟨1⟩ ⟨20000⟩ 0 (.cashOut ⟨.new (-500), .rub⟩) [.cash ⟨1⟩ ⟨.new (-500), .rub⟩] with
    provenance := ⟨⟨0⟩, "d", "test/1", none, none, none, none, none, none, some text, none, none, none, none, none,
      none⟩ }

/-- A rule is written, a payment is recorded under it, and the index is rebuilt. -/
def sampleOps : List CategoryOperation :=
  [.insertRule sampleOwner ⟨1⟩ (sampleRule "bakery" ⟨10⟩) none, .insertEvent (samplePayment ⟨7⟩ "bakery"),
    .rebuild sampleOwner]

theorem sampleOps_is_current :
    (sampleOps.foldl (after String.toLower) sampleStore).isStale sampleOwner = false ∧
      stored (sampleOps.foldl (after String.toLower) sampleStore) sampleOwner ⟨7⟩ =
        Category.assign String.toLower (.of (samplePayment ⟨7⟩ "bakery"))
          ((sampleOps.foldl (after String.toLower) sampleStore).activeRules sampleOwner) := by
  have hrun : Runs.Run (fun s op t => Careful String.toLower s op ∧ t = s.after String.toLower op) sampleStore sampleOps
      (sampleOps.foldl (after String.toLower) sampleStore) := by
    refine .cons ⟨trivial, rfl⟩ (.cons ⟨?_, rfl⟩ (.cons ⟨trivial, rfl⟩ (.nil _)))
    rintro ⟨-, -, e, he, -⟩
    cases he
  have hfresh : (sampleOps.foldl (after String.toLower) sampleStore).isStale sampleOwner = false := by decide +kernel
  have hin : samplePayment ⟨7⟩ "bakery" ∈ (sampleOps.foldl (after String.toLower) sampleStore).events := by
    decide +kernel
  exact ⟨hfresh, (not_stale_is_current hrun hfresh).2 _ hin rfl⟩

/-- Two rules are written, a payment is recorded under the older, and the older is retired. -/
def retiredOps : List CategoryOperation :=
  [.insertRule sampleOwner ⟨1⟩ (sampleRule "bakery" ⟨10⟩) none, .insertRule sampleOwner ⟨2⟩ (sampleRule "tram" ⟨11⟩) none,
    .insertEvent (samplePayment ⟨7⟩ "bakery"), .retireRule sampleOwner ⟨1⟩ "2026-01-01T00:00:00Z"]

/-- The index is not called stale, and still files the payment by the rule that is retired. -/
theorem retiredOps_silently_stale :
    (retiredOps.foldl (after String.toLower) sampleStore).isStale sampleOwner = false ∧
      stored (retiredOps.foldl (after String.toLower) sampleStore) sampleOwner ⟨7⟩ = .assigned ⟨10⟩ (.description ⟨1⟩) ∧
      ¬∀ row : AssignmentRow, row ∈ (retiredOps.foldl (after String.toLower) sampleStore).assignments →
        row ∈ ((retiredOps.foldl (after String.toLower) sampleStore).rebuild String.toLower sampleOwner).1.assignments := by
  decide +kernel

end Iaam.StoredCategories
