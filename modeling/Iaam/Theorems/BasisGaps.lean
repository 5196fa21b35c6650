import Iaam.Theorems.LotSteps

/-! Basis gaps over runs of the book.

A gap is never cleared, but it is not always written with all that follows from it: a quantity restored without
cost leaves the realised result, an amortisation that is not allocated overwrites the other reason, and a
conversion takes the lots and not the gap. -/

namespace Iaam
namespace BasisGaps
open Outcome Disposal LotSteps Runs

/-! ### What a step does to the marks of an entry -/

/-- The marks of an entry after a step: as they were, or one of the two gaps is written. -/
inductive Marked (e : Event) (key : LotKey) (l l' : InstrumentLots) : Prop
  | kept : l'.gap = l.gap → l'.unpriced = l.unpriced →
      (l.incomeKindUnknown = true → l'.incomeKindUnknown = true) → (l.gap ≠ none → l'.realized = l.realized) →
      Marked e key l l'
  | taken : l'.gap = some .restoredWithoutBasis → l'.realized = none → Marked e key l l'
  | restored {instrument : InstrumentId} {quantity : Quantity} {assertions : OpeningAssertions} :
      e.kind = .openingPosition instrument quantity none assertions → key = ⟨e.account, instrument⟩ →
      l'.gap = some .restoredWithoutBasis → l'.realized = l.realized → Marked e key l l'
  | unallocated {terms : PrincipalReturn} {why : AllocationGap} :
      e.kind = .corporateAction (.partialRedemption terms (.unknown why)) → key = ⟨e.account, terms.instrument⟩ →
      l'.gap = some .amortisationAllocationUnknown → l'.realized = none → l'.unpriced = l.unpriced →
      l'.incomeKindUnknown = l.incomeKindUnknown → Marked e key l l'

section
variable {e : Event} {key : LotKey} {l l' : InstrumentLots}

theorem marked_of_same (h : Same l l') : Marked e key l l' :=
  .kept h.gap h.unpriced (fun hk => h.incomeKindUnknown.trans hk) fun _ => h.realized

theorem marked_disposed {quantity : Quantity} (h : Disposed l quantity l') : Marked e key l l' := by
  cases h with
  | unpriced htaken _ hsame =>
    cases htaken with
    | nothing => exact marked_of_same hsame
    | part => exact .taken hsame.gap hsame.realized
  | lots htaken _ _ hrealized hsame =>
    cases htaken with
    | nothing =>
      exact .kept hsame.gap hsame.unpriced (fun hk => hsame.incomeKindUnknown.trans hk)
        fun hgap => hsame.realized.trans (hrealized hgap)
    | part => exact .taken hsame.gap (hsame.realized.trans (hrealized (Option.some_ne_none _)))

theorem marked_touched {q : ℚ} (h : Touched e key l l' q) : Marked e key l l' := by
  cases h with
  | paid hsame => exact marked_of_same hsame
  | kindUnknown hsame => exact .kept hsame.gap hsame.unpriced (fun _ => hsame.incomeKindUnknown) fun _ => hsame.realized
  | acquired hacquired =>
    obtain ⟨-, sum, lots, -, -, hsame⟩ := hacquired
    exact .kept hsame.gap hsame.unpriced (fun hk => hsame.incomeKindUnknown.trans hk) fun _ => hsame.realized
  | restored hk hkey hrestored =>
    obtain ⟨-, unpriced, -, hsame⟩ := hrestored
    exact .restored hk hkey hsame.gap hsame.realized
  | disposed _ hdisposed => exact marked_disposed hdisposed
  | amortised hamortised =>
    exact .kept hamortised.entry.gap hamortised.entry.unpriced (fun hk => hamortised.entry.incomeKindUnknown.trans hk)
      fun hgap => hamortised.entry.realized.trans (hamortised.result hgap)
  | unallocated hk hkey hsame =>
    exact .unallocated hk hkey hsame.gap hsame.realized hsame.unpriced hsame.incomeKindUnknown

end

theorem marked_refl (e : Event) (key : LotKey) (l : InstrumentLots) : Marked e key l l :=
  .kept rfl rfl id fun _ => rfl

/-- A conversion leaves the marks of both entries as they were. -/
theorem kept_handedOver {terms : Conversion} {source target : LotKey} {before after : LotKey → InstrumentLots}
    (h : HandedOver terms source target before after) (key : LotKey) :
    (after key).gap = (before key).gap ∧ (after key).unpriced = (before key).unpriced ∧
      (after key).incomeKindUnknown = (before key).incomeKindUnknown ∧
      (after key).realized = (before key).realized := by
  obtain ⟨-, -, hsource, -, htarget, rfl⟩ := h
  rename_i l l'
  have hmid : (Function.update before source l key).gap = (before key).gap ∧
      (Function.update before source l key).unpriced = (before key).unpriced ∧
      (Function.update before source l key).incomeKindUnknown = (before key).incomeKindUnknown ∧
      (Function.update before source l key).realized = (before key).realized := by
    by_cases hk : key = source
    · subst hk
      rw [Function.update_self]
      exact ⟨hsource.gap, hsource.unpriced, hsource.incomeKindUnknown, hsource.realized⟩
    · rw [Function.update_of_ne hk]
      exact ⟨rfl, rfl, rfl, rfl⟩
  by_cases hk : key = target
  · subst hk
    rw [Function.update_self, htarget.gap, htarget.unpriced, htarget.incomeKindUnknown, htarget.realized]
    exact hmid
  · rw [Function.update_of_ne hk]
    exact hmid

theorem marked_of_accepts {rules : RuleRegistry} {b b' : LotBook} {e : Event} (h : Accepts rules b e b')
    (key : LotKey) : Marked e key (b.lotsAt key) (b'.lotsAt key) := by
  rcases h.applied with ⟨-, hlots⟩ | @⟨k, q, l', -, htouched, hlots⟩ | ⟨-, -, ⟨-, hlots⟩ | hover⟩
  · rw [hlots]
    exact marked_refl e key _
  · rw [hlots]
    by_cases hk : key = k
    · subst hk
      rw [Function.update_self]
      exact marked_touched htouched
    · rw [Function.update_of_ne hk]
      exact marked_refl e key _
  · rw [hlots]
    exact marked_refl e key _
  · obtain ⟨hgap, hunpriced, hkind, hrealized⟩ := kept_handedOver hover key
    exact .kept hgap hunpriced (fun hk => hkind.trans hk) fun _ => hrealized

/-! ### Steps that keep the gaps -/

/-- There is no gap, or the other entry has it, or has the one that says more. -/
def Covered (gap other : Option BasisGap) : Prop :=
  gap = none ∨ other = some .restoredWithoutBasis ∨ other = gap

/-- The step writes no gap over a realised result or over the other reason, and it converts no gap away: a
    quantity without cost comes to an entry with no result, an amortisation that is not allocated comes to an entry
    whose cohorts are barred by more than its gap, and the successor of a conversion has the gap already. -/
structure KeepsGaps (e : Event) (b : LotBook) : Prop where
  restored : ∀ instrument quantity assertions, e.kind = .openingPosition instrument quantity none assertions →
    (b.lotsAt ⟨e.account, instrument⟩).realized = none
  unallocated : ∀ terms why, e.kind = .corporateAction (.partialRedemption terms (.unknown why)) →
    (b.lotsAt ⟨e.account, terms.instrument⟩).gap = some .restoredWithoutBasis →
    (b.lotsAt ⟨e.account, terms.instrument⟩).unpriced.val ≠ 0 ∨
      (b.lotsAt ⟨e.account, terms.instrument⟩).incomeKindUnknown = true
  converted : ∀ terms, e.kind = .corporateAction (.conversion terms) →
    Covered (b.lotsAt ⟨e.account, terms.predecessor⟩).gap (b.lotsAt ⟨e.account, terms.successor⟩).gap

/-- With a gap, the realised result is unknown. -/
def Unknown (l : InstrumentLots) : Prop := l.gap ≠ none → l.realized = none

/-- Something stands against the cohorts of the entry. -/
def Barred (l : InstrumentLots) : Prop :=
  l.gap = some .restoredWithoutBasis ∨ l.unpriced.val ≠ 0 ∨ l.incomeKindUnknown = true

theorem cohorts_of_barred {l : InstrumentLots} (h : Barred l) (cohorts : List Cohort) : l.cohorts ≠ .ok cohorts := by
  intro hok
  unfold InstrumentLots.cohorts at hok
  split_ifs at hok with hunpriced hkind hgap
  rcases h with h | h | h
  · exact hgap h
  · exact hunpriced (by simp [Dec.isZero, h])
  · exact hkind h

section Entry
variable {e : Event} {b : LotBook} {key : LotKey} {l' : InstrumentLots}

theorem gap_of_marked (h : Marked e key (b.lotsAt key) l') (hgap : (b.lotsAt key).gap ≠ none) : l'.gap ≠ none := by
  rcases h with ⟨hg, -, -, -⟩ | ⟨hg, -⟩ | ⟨-, -, hg, -⟩ | ⟨-, -, hg, -, -, -⟩
  · exact hg ▸ hgap
  all_goals
    rw [hg]
    exact Option.some_ne_none _

theorem unknown_of_marked (h : Marked e key (b.lotsAt key) l') (hkeeps : KeepsGaps e b) (hu : Unknown (b.lotsAt key)) :
    Unknown l' := by
  intro hgap
  rcases h with ⟨hg, -, -, hr⟩ | ⟨-, hr⟩ | ⟨hk, rfl, -, hr⟩ | ⟨-, -, -, hr, -, -⟩
  · rw [hr (hg ▸ hgap)]
    exact hu (hg ▸ hgap)
  · exact hr
  · rw [hr]
    exact hkeeps.restored _ _ _ hk
  · exact hr

theorem barred_of_marked (h : Marked e key (b.lotsAt key) l') (hkeeps : KeepsGaps e b) (hb : Barred (b.lotsAt key)) :
    Barred l' := by
  rcases h with ⟨hg, hu, hi, -⟩ | ⟨hg, -⟩ | ⟨-, -, hg, -⟩ | ⟨hk, rfl, -, -, hu, hi⟩
  · rcases hb with hb | hb | hb
    · exact Or.inl (hg.trans hb)
    · exact Or.inr (Or.inl (hu ▸ hb))
    · exact Or.inr (Or.inr (hi hb))
  · exact Or.inl hg
  · exact Or.inl hg
  · -- The reason is overwritten, so one of the other two bars has to stand.
    have hrest : (b.lotsAt ⟨e.account, _⟩).unpriced.val ≠ 0 ∨ (b.lotsAt ⟨e.account, _⟩).incomeKindUnknown = true :=
      hb.elim (hkeeps.unallocated _ _ hk) id
    exact Or.inr (hrest.imp (fun h => hu ▸ h) fun h => hi.trans h)

end Entry

/-! ### Runs -/

/-- A step of a run that keeps the gaps. -/
def Keeping (rules : RuleRegistry) (b : LotBook) (e : Event) (b' : LotBook) : Prop :=
  Accepts rules b e b' ∧ KeepsGaps e b

section
variable {rules : RuleRegistry} {version : Nat} {es es' : List Event} {b₁ b₂ : LotBook}

theorem unknown_of_run (h : Run (Keeping rules) (.new version) es b₁) (key : LotKey) : Unknown (b₁.lotsAt key) := by
  refine h.keeps (P := fun b => Unknown (b.lotsAt key))
    (fun hu hstep => unknown_of_marked (marked_of_accepts hstep.1 key) hstep.2 hu) ?_
  rw [lotsAt_new]
  exact fun _ => rfl

/-- A gap that is set in a run stays set to its end, with the realised result unknown; a key that ever had the gap
    of a restored quantity never gives cohorts again; and a conversion leaves the successor with the gap. -/
theorem gaps_of_run (h₁ : Run (Keeping rules) (.new version) es b₁) (h₂ : Run (Keeping rules) b₁ es' b₂) :
    (∀ key, (b₁.lotsAt key).gap ≠ none → (b₂.lotsAt key).gap ≠ none ∧ (b₂.lotsAt key).realized = none) ∧
      (∀ key, (b₁.lotsAt key).gap = some .restoredWithoutBasis → ∀ cohorts, (b₂.lotsAt key).cohorts ≠ .ok cohorts) ∧
      ∀ e b₃ terms, Keeping rules b₂ e b₃ → e.kind = .corporateAction (.conversion terms) →
        Covered (b₂.lotsAt ⟨e.account, terms.predecessor⟩).gap (b₃.lotsAt ⟨e.account, terms.successor⟩).gap := by
  refine ⟨fun key hgap => ?_, fun key hgap => cohorts_of_barred ?_, fun e b₃ terms hstep hk => ?_⟩
  · have hset : (b₂.lotsAt key).gap ≠ none := h₂.keeps (P := fun b => (b.lotsAt key).gap ≠ none)
      (fun hg hstep => gap_of_marked (marked_of_accepts hstep.1 key) hg) hgap
    exact ⟨hset, unknown_of_run (h₁.trans h₂) key hset⟩
  · exact h₂.keeps (P := fun b => Barred (b.lotsAt key))
      (fun hb hstep => barred_of_marked (marked_of_accepts hstep.1 key) hstep.2 hb) (Or.inl hgap)
  · have hcovered := hstep.2.converted terms hk
    rcases (hstep.1.converts hk).outcome with ⟨-, hlots⟩ | hover
    · rw [hlots]
      exact hcovered
    · rw [(kept_handedOver hover _).1]
      exact hcovered

end

/-- Ten units without cost, of which four are sold. -/
theorem gaps_of_unpriced_sale : ∃ b₁ b₂,
    Run (Keeping .withDefaults) (.new 1) [openingOf ⟨1⟩ ⟨1⟩ (.ofInt64 10) none] b₁ ∧
      Run (Keeping .withDefaults) b₁
        [saleOf ⟨2⟩ ⟨1⟩ (.ofInt64 4) (.ofInt64 (-4)) ⟨.new 500, .rub⟩] b₂ ∧
      (b₁.lotsAt ⟨⟨1⟩, ⟨1⟩⟩).gap = some .restoredWithoutBasis ∧ (b₂.lotsAt ⟨⟨1⟩, ⟨1⟩⟩).realized = none ∧
      ∀ cohorts, (b₂.lotsAt ⟨⟨1⟩, ⟨1⟩⟩).cohorts ≠ .ok cohorts := by
  have hruns : ∃ b₁ b₂,
      Run (Keeping .withDefaults) (.new 1) [openingOf ⟨1⟩ ⟨1⟩ (.ofInt64 10) none] b₁ ∧
        Run (Keeping .withDefaults) b₁
          [saleOf ⟨2⟩ ⟨1⟩ (.ofInt64 4) (.ofInt64 (-4)) ⟨.new 500, .rub⟩] b₂ ∧
        (b₁.lotsAt ⟨⟨1⟩, ⟨1⟩⟩).gap = some .restoredWithoutBasis := by
    refine ⟨_, _, .cons ⟨accepts_of_ok ?_ ?_, ?_, ?_, ?_⟩ (.nil _),
      .cons ⟨accepts_of_ok ?_ ?_, ?_, ?_, ?_⟩ (.nil _), ?_⟩
    · decide
    · decide +kernel
    · rintro _ _ _ ⟨⟩
      rw [lotsAt_new]
      rfl
    · rintro _ _ ⟨⟩
    · rintro _ ⟨⟩
    · decide +kernel
    · decide +kernel
    · rintro _ _ _ ⟨⟩
    · rintro _ _ ⟨⟩
    · rintro _ ⟨⟩
    · decide +kernel
  obtain ⟨b₁, b₂, h₁, h₂, hgap⟩ := hruns
  obtain ⟨hkept, hcohorts, -⟩ := gaps_of_run h₁ h₂
  exact ⟨b₁, b₂, h₁, h₂, hgap, (hkept _ (by rw [hgap]; exact Option.some_ne_none _)).2, hcohorts _ hgap⟩

/-! ### Gaps that are lost -/

/-- Ten units with their cost, four of them sold, and more units without cost. -/
def restoredAfterSale : List Event :=
  [openingOf ⟨1⟩ ⟨1⟩ (.ofInt64 10) (some ⟨.new 1000, .rub⟩),
    saleOf ⟨2⟩ ⟨1⟩ (.ofInt64 4) (.ofInt64 (-4)) ⟨.new 500, .rub⟩,
    openingOf ⟨3⟩ ⟨1⟩ (.ofInt64 10) none]

/-- Ten units without cost, which are sold, and ten of a known day with their cost. -/
def unpricedSold : List Event :=
  [openingOf ⟨1⟩ ⟨1⟩ (.ofInt64 10) none,
    eventWith ⟨2⟩ ⟨1⟩ ⟨0⟩ 2
      (.openingPosition ⟨1⟩ (.ofInt64 10) (some ⟨.new 1000, .rub⟩)
        { acquisitionDate := some ⟨0⟩, acquisitionDateCertainty := .known })
      [.security ⟨1⟩ ⟨1⟩ ⟨1⟩ (.ofInt64 10)],
    saleOf ⟨3⟩ ⟨1⟩ (.ofInt64 10) (.ofInt64 (-10)) ⟨.new 500, .rub⟩]

/-- Ten units without cost and ten with. -/
def partlyPriced : List Event :=
  [openingOf ⟨1⟩ ⟨1⟩ (.ofInt64 10) none,
    openingOf ⟨2⟩ ⟨1⟩ (.ofInt64 10) (some ⟨.new 1000, .rub⟩)]

/-- The realised result stays beside the gap; an amortisation that is not allocated opens the cohorts of a key that
    had a restored quantity; a conversion leaves the gap behind. -/
theorem gaps_lost :
    (∃ b, Run (Accepts .withDefaults) (.new 1) restoredAfterSale b ∧
      ((b.lotsAt ⟨⟨1⟩, ⟨1⟩⟩).gap, (b.lotsAt ⟨⟨1⟩, ⟨1⟩⟩).realized) =
        (some .restoredWithoutBasis, some ⟨.new 100, .rub⟩)) ∧
    (∃ b₁ b₂, Run (Accepts .withDefaults) (.new 1) unpricedSold b₁ ∧
      Run (Accepts .withDefaults) b₁
        [amortisationOf ⟨4⟩ ⟨1⟩ (.ofInt64 10) ⟨.new 100, .rub⟩ (.unknown .notComputed)] b₂ ∧
      (b₁.lotsAt ⟨⟨1⟩, ⟨1⟩⟩).gap = some .restoredWithoutBasis ∧ (b₂.lotsAt ⟨⟨1⟩, ⟨1⟩⟩).cohorts.isOk = true) ∧
    ∃ b₁ b₂, Run (Accepts .withDefaults) (.new 1) partlyPriced b₁ ∧
      Run (Accepts .withDefaults) b₁
        [conversionOf ⟨3⟩ Dec.one (.ofInt64 20) (.ofInt64 (-20)) (.ofInt64 20) .notApplicable]
        b₂ ∧
      (b₁.lotsAt ⟨⟨1⟩, ⟨1⟩⟩).gap = some .restoredWithoutBasis ∧ (b₂.lotsAt ⟨⟨1⟩, ⟨2⟩⟩).gap = none := by
  refine ⟨?_, ?_, ?_⟩
  · exact exists_run .withDefaults (.new 1) restoredAfterSale
      (fun b => ((b.lotsAt ⟨⟨1⟩, ⟨1⟩⟩).gap, (b.lotsAt ⟨⟨1⟩, ⟨1⟩⟩).realized)) (by decide +kernel) (by decide +kernel)
  · exact exists_runs .withDefaults (.new 1) unpricedSold _ (fun b => (b.lotsAt ⟨⟨1⟩, ⟨1⟩⟩).gap)
      (fun b => (b.lotsAt ⟨⟨1⟩, ⟨1⟩⟩).cohorts.isOk) (by decide +kernel) (by decide +kernel) (by decide +kernel)
  · exact exists_runs .withDefaults (.new 1) partlyPriced _ (fun b => (b.lotsAt ⟨⟨1⟩, ⟨1⟩⟩).gap)
      (fun b => (b.lotsAt ⟨⟨1⟩, ⟨2⟩⟩).gap) (by decide +kernel) (by decide +kernel) (by decide +kernel)

end BasisGaps
end Iaam
