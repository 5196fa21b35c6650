import Mathlib.Data.Finset.Basic
import Mathlib.Order.WellFoundedSet

/-! Chains of links, where each element has at most one next. Two linked elements have a common end, and on
finitely many elements without a cycle every chain ends. -/

namespace Chains
variable {α : Type}

/-- `b` is the next of `a`. -/
def Link (next : α → Option α) (a b : α) : Prop := next a = some b

/-- Following links, any number of them, leads from `a` to `b`. -/
abbrev Reaches (next : α → Option α) : α → α → Prop := Relation.ReflTransGen (Link next)

/-- Following links never leads back. -/
def Acyclic (next : α → Option α) : Prop := ∀ a, ¬Relation.TransGen (Link next) a a

variable {next : α → Option α} {a b c : α}

theorem Link.unique (h : Link next a b) (h' : Link next a c) : b = c := Option.some.inj (h.symm.trans h')

/-- From an end nothing else is reached. -/
theorem Reaches.eq_of_end (h : Reaches next a b) (hend : next a = none) : b = a := by
  rcases Relation.ReflTransGen.cases_head h with rfl | ⟨d, hd, -⟩
  · rfl
  · rw [Link, hend] at hd
    cases hd

/-- What is reached from one element lies on one line. -/
theorem Reaches.total (h : Reaches next a b) (h' : Reaches next a c) : Reaches next b c ∨ Reaches next c b := by
  induction h with
  | refl => exact Or.inl h'
  | tail hab hlink ih =>
    rcases ih with hbc | hcb
    · rcases Relation.ReflTransGen.cases_head hbc with rfl | ⟨d, hd, hdc⟩
      · exact Or.inr (.single hlink)
      · rw [hlink.unique hd]
        exact Or.inl hdc
    · exact Or.inr (hcb.tail hlink)

/-- Elements linked in any direction reach a common element. -/
theorem joins (h : Relation.EqvGen (Link next) a b) : ∃ c, Reaches next a c ∧ Reaches next b c := by
  induction h with
  | rel a b h => exact ⟨b, .single h, .refl⟩
  | refl a => exact ⟨a, .refl, .refl⟩
  | symm a b _ ih =>
    obtain ⟨c, ha, hb⟩ := ih
    exact ⟨c, hb, ha⟩
  | trans a b d _ _ ih₁ ih₂ =>
    obtain ⟨c₁, ha, hb⟩ := ih₁
    obtain ⟨c₂, hb', hd⟩ := ih₂
    rcases hb.total hb' with h | h
    · exact ⟨c₂, ha.trans h, hd⟩
    · exact ⟨c₁, ha, hd.trans h⟩

/-- What is reached from a cycle lies on it. -/
theorem Reaches.back (h : Reaches next a b) (hcycle : Relation.TransGen (Link next) a a) : Reaches next b a := by
  induction h with
  | refl => exact .refl
  | @tail b c _ hlink ih =>
    rcases Relation.ReflTransGen.cases_head ih with rfl | ⟨d, hd, hda⟩
    · obtain ⟨d, hd, hdb⟩ := Relation.TransGen.head'_iff.mp hcycle
      rw [hlink.unique hd]
      exact hdb
    · rw [hlink.unique hd]
      exact hda

/-- A chain that ends meets no cycle. -/
theorem Reaches.not_cyclic (h : Reaches next a b) (hend : next b = none) : ¬Relation.TransGen (Link next) a a := by
  intro hcycle
  cases (h.back hcycle).eq_of_end hend
  obtain ⟨d, hd, -⟩ := Relation.TransGen.head'_iff.mp hcycle
  rw [Link, hend] at hd
  cases hd

/-- Elements linked in any direction end at the same element. -/
theorem Reaches.of_linked (h : Reaches next a c) (hend : next c = none) (hlinked : Relation.EqvGen (Link next) a b) :
    Reaches next b c := by
  obtain ⟨d, had, hbd⟩ := joins hlinked
  rcases had.total h with hdc | hcd
  · exact hbd.trans hdc
  · cases hcd.eq_of_end hend
    exact hbd

/-- What is reached is linked. -/
theorem Reaches.linked (h : Reaches next a b) : Relation.EqvGen (Link next) a b := by
  induction h with
  | refl => exact .refl a
  | tail _ hlink ih => exact ih.trans _ _ _ (.rel _ _ hlink)

/-- Links that go down in a measure form no cycle. -/
theorem acyclic_of_decreasing (measure : α → Nat) (h : ∀ a b, next a = some b → measure b < measure a) :
    Acyclic next := by
  have hdown : ∀ {a b}, Relation.TransGen (Link next) a b → measure b < measure a := fun hab => by
    induction hab with
    | single hlink => exact h _ _ hlink
    | tail _ hlink ih => exact (h _ _ hlink).trans ih
  exact fun a ha => lt_irrefl _ (hdown ha)

/-- Without a cycle, every chain within finitely many elements ends. -/
theorem ends (hacyclic : Acyclic next) {s : Set α} (hs : s.Finite) (hclosed : ∀ a ∈ s, ∀ b, next a = some b → b ∈ s)
    (ha : a ∈ s) : ∃ z ∈ s, Reaches next a z ∧ next z = none := by
  let after : α → α → Prop := fun b a => Relation.TransGen (Link next) a b
  have : IsStrictOrder α after := { irrefl := hacyclic, trans := fun a b c hab hbc => hbc.trans hab }
  have hwf : s.WellFoundedOn after := hs.wellFoundedOn
  refine hwf.induction (P := fun a => ∃ z ∈ s, Reaches next a z ∧ next z = none) ha fun a ha ih => ?_
  cases hnext : next a with
  | none => exact ⟨a, ha, .refl, hnext⟩
  | some b =>
    obtain ⟨z, hz, hreach, hend⟩ := ih b (hclosed a ha b hnext) (.single hnext)
    exact ⟨z, hz, hreach.head hnext, hend⟩

/-- Finitely many elements of which each has a next one among them are on a cycle, or lead to one. -/
theorem not_acyclic_of_next {s : Set α} (hs : s.Finite) (hne : s.Nonempty) (hnext : ∀ a ∈ s, ∃ b ∈ s, next a = some b) :
    ¬Acyclic next := by
  intro hacyclic
  obtain ⟨a, ha⟩ := hne
  have hclosed : ∀ a ∈ s, ∀ b, next a = some b → b ∈ s := fun a ha b hab => by
    obtain ⟨c, hc, hac⟩ := hnext a ha
    rw [hac] at hab
    exact Option.some.inj hab ▸ hc
  obtain ⟨z, hz, -, hend⟩ := ends hacyclic hs hclosed ha
  obtain ⟨b, -, hzb⟩ := hnext z hz
  rw [hend] at hzb
  cases hzb

end Chains
