import Iaam.Lib.Chains
import Iaam.Lib.Search
import Iaam.Store.Bundle

/-! The order in which the instruments of an archive are inserted.

What is pending after a pass without progress names parents that are pending as well, and finitely many instruments
that all have a parent among them are on a cycle. An order in which every parent comes first admits none. -/

namespace Iaam
namespace Bundle

/-- The parent of an instrument, when it is one of the archive. -/
def parentIn (instruments : List InstrumentSection) (instrument : InstrumentSection) : Option InstrumentSection :=
  instrument.lineageParent.bind fun parent => instruments.find? fun candidate => candidate.id = parent

/-- Every instrument comes after its parent. -/
def ParentsFirst (instruments inserted : List InstrumentSection) : Prop :=
  ∀ earlier instrument later, inserted = earlier ++ instrument :: later →
    ∀ parent, parentIn instruments instrument = some parent → parent ∈ earlier

section
variable {instruments inserted pending rest : List InstrumentSection} {placed : Tree.Set InstrumentId}
  {instrument parent : InstrumentSection}

theorem parentIn_some (h : parentIn instruments instrument = some parent) :
    parent ∈ instruments ∧ instrument.lineageParent = some parent.id := by
  obtain ⟨id, hid, hfind⟩ := Option.bind_eq_some_iff.mp h
  have hmatch := List.find?_some hfind
  rw [of_decide_eq_true hmatch]
  exact ⟨List.mem_of_find?_eq_some hfind, hid⟩

theorem parentIn_of_mem (hids : (instruments.map InstrumentSection.id).Nodup) (hparent : parent ∈ instruments)
    (h : instrument.lineageParent = some parent.id) : parentIn instruments instrument = some parent := by
  unfold parentIn
  rw [h, Option.bind_some]
  exact (Search.find_key_eq_some hids).mpr ⟨hparent, rfl⟩

/-- An instrument waits exactly when its parent is one of the archive and not placed. -/
theorem parentStillPending_iff : parentStillPending instruments placed instrument = true ↔
    ∃ parent, parentIn instruments instrument = some parent ∧ parent.id ∉ placed := by
  unfold parentStillPending parentIn
  cases instrument.lineageParent with
  | none => exact ⟨fun h => (nomatch h), fun ⟨_, h, _⟩ => (nomatch h)⟩
  | some id =>
    rw [Option.bind_some]
    dsimp only
    rw [Bool.and_eq_true, Bool.not_eq_true', List.any_eq_true]
    constructor
    · rintro ⟨⟨candidate, hmem, hid⟩, hplaced⟩
      cases hfind : instruments.find? fun candidate => candidate.id = id with
      | none => exact absurd hid (List.find?_eq_none.mp hfind candidate hmem)
      | some parent =>
        have hparent : parent.id = id := by simpa using List.find?_some hfind
        refine ⟨parent, rfl, fun hmem => ?_⟩
        rw [hparent, ← Std.ExtTreeSet.contains_iff_mem, hplaced] at hmem
        cases hmem
    · rintro ⟨parent, hfind, hplaced⟩
      have hparent : parent.id = id := by simpa using List.find?_some hfind
      refine ⟨⟨parent, List.mem_of_find?_eq_some hfind, decide_eq_true hparent⟩, ?_⟩
      rw [← hparent, ← Bool.not_eq_true, Std.ExtTreeSet.contains_iff_mem]
      exact hplaced

/-! ### A pass -/

/-- Between the visits of a pass: every instrument is inserted or pending, after its parent when it is inserted. -/
structure Between (instruments rest : List InstrumentSection) (p : Pass) : Prop where
  all : (p.inserted ++ (p.stillPending ++ rest)).Perm instruments
  placed : ∀ id, id ∈ p.placed ↔ ∃ instrument ∈ p.inserted, instrument.id = id
  order : ParentsFirst instruments p.inserted

/-- As long as nothing is inserted, what is still pending waits for a parent. -/
def Waits (instruments : List InstrumentSection) (p : Pass) : Prop :=
  p.progressed = false → ∀ instrument ∈ p.stillPending, parentStillPending instruments p.placed instrument = true

theorem parentsFirst_concat (h : ParentsFirst instruments inserted)
    (hparent : ∀ parent, parentIn instruments instrument = some parent → parent ∈ inserted) :
    ParentsFirst instruments (inserted ++ [instrument]) := by
  intro earlier x later heq parent hx
  rcases List.eq_nil_or_concat later with rfl | ⟨later, last, rfl⟩
  · obtain ⟨rfl, hlast⟩ := List.append_inj' heq rfl
    cases hlast
    exact hparent parent hx
  · rw [List.concat_eq_append, ← List.cons_append, ← List.append_assoc] at heq
    exact h earlier x later (List.append_inj' heq rfl).1 parent hx

theorem visit_between (hids : (instruments.map InstrumentSection.id).Nodup) {p : Pass}
    (h : Between instruments (instrument :: rest) p) : Between instruments rest (visit instruments p instrument) := by
  unfold visit
  split
  · exact { h with all := by simpa using h.all }
  · next hready =>
    refine ⟨?_, fun id => ?_, parentsFirst_concat h.order fun parent hparent => ?_⟩
    · -- the visited instrument moves before what is still pending
      refine List.Perm.trans ?_ h.all
      change ((p.inserted ++ [instrument]) ++ (p.stillPending ++ rest)).Perm _
      rw [List.append_assoc, List.singleton_append]
      exact List.Perm.append_left _ List.perm_middle.symm
    · rw [Tree.mem_insert_set, h.placed]
      simp only [List.mem_append, List.mem_singleton, or_and_right, exists_or, exists_eq_left]
      exact or_comm
    · have hplaced : parent.id ∈ p.placed := by
        by_contra hnot
        exact hready (parentStillPending_iff.mpr ⟨parent, hparent, hnot⟩)
      obtain ⟨other, hother, hid⟩ := (h.placed _).mp hplaced
      have hmem : other ∈ instruments := h.all.subset (List.mem_append_left _ hother)
      rwa [List.inj_on_of_nodup_map hids hmem (parentIn_some hparent).1 hid] at hother

theorem visit_waits {p : Pass} (h : Waits instruments p) : Waits instruments (visit instruments p instrument) := by
  unfold visit
  split
  · next hwaits =>
    exact fun hstuck => List.forall_mem_append.mpr ⟨h hstuck, List.forall_mem_singleton.mpr hwaits⟩
  · exact fun hstuck => (nomatch hstuck)

theorem pass_between (hids : (instruments.map InstrumentSection.id).Nodup)
    (h : Between instruments pending ⟨placed, inserted, [], false⟩) :
    Between instruments [] (pass instruments placed inserted pending) ∧
      Waits instruments (pass instruments placed inserted pending) := by
  suffices hvisits : ∀ p, Between instruments pending p → Waits instruments p →
      Between instruments [] (pending.foldl (visit instruments) p) ∧
        Waits instruments (pending.foldl (visit instruments) p) from
    hvisits _ h fun _ _ hx => (nomatch hx)
  clear h
  induction pending with
  | nil => exact fun p h hwaits => ⟨h, hwaits⟩
  | cons instrument pending ih => exact fun p h hwaits => ih _ (visit_between hids h) (visit_waits hwaits)

/-- A pass without progress leaves everything pending. -/
theorem pass_stuck (h : (pass instruments placed inserted pending).progressed = false) :
    (pass instruments placed inserted pending).stillPending = pending := by
  suffices hvisits : ∀ p, (pending.foldl (visit instruments) p).progressed = false → p.progressed = false ∧
      (pending.foldl (visit instruments) p).stillPending = p.stillPending ++ pending from
    (hvisits _ h).2
  clear h
  induction pending with
  | nil => exact fun p h => ⟨h, (List.append_nil _).symm⟩
  | cons instrument pending ih =>
    intro p h
    obtain ⟨hvisit, hpending⟩ := ih (visit instruments p instrument) h
    rw [List.foldl_cons, hpending]
    unfold visit at hvisit ⊢
    split at hvisit
    · next hwaits => exact ⟨hvisit, by rw [if_pos hwaits, List.append_assoc]; rfl⟩
    · cases hvisit

/-! ### The passes -/

/-- Where nothing is inserted any more, the lineage has a cycle. -/
theorem not_acyclic_of_stuck {p : Pass} (h : Between instruments [] p) (hwaits : Waits instruments p)
    (hstuck : p.progressed = false) (hne : p.stillPending ≠ []) : ¬Chains.Acyclic (parentIn instruments) := by
  refine Chains.not_acyclic_of_next (s := {x | x ∈ p.stillPending}) (List.finite_toSet _)
    (List.exists_mem_of_ne_nil _ hne) fun instrument hinstrument => ?_
  obtain ⟨parent, hparent, hplaced⟩ := parentStillPending_iff.mp (hwaits hstuck instrument hinstrument)
  refine ⟨parent, ?_, hparent⟩
  have hall : parent ∈ p.inserted ++ (p.stillPending ++ []) := h.all.mem_iff.mpr (parentIn_some hparent).1
  rw [List.append_nil] at hall
  rcases List.mem_append.mp hall with hinserted | hpending
  · exact absurd ((h.placed _).mpr ⟨parent, hinserted, rfl⟩) hplaced
  · exact hpending

/-- An order with the parents first admits no cycle. -/
theorem acyclic_of_parentsFirst (hperm : inserted.Perm instruments) (h : ParentsFirst instruments inserted) :
    Chains.Acyclic (parentIn instruments) := by
  refine Chains.acyclic_of_decreasing (fun x => inserted.idxOf x) fun instrument parent hparent => ?_
  have hmem : parent ∈ inserted := hperm.mem_iff.mpr (parentIn_some hparent).1
  by_cases hin : instrument ∈ inserted
  · obtain ⟨earlier, later, rfl, hfirst⟩ := List.eq_append_cons_of_mem hin
    have hearlier := h earlier instrument later rfl parent hparent
    rw [List.idxOf_append_of_mem hearlier, List.idxOf_append_of_notMem hfirst, List.idxOf_cons_self, add_zero]
    exact List.idxOf_lt_length_of_mem hearlier
  · rw [List.idxOf_eq_length hin]
    exact List.idxOf_lt_length_of_mem hmem

/-- The passes insert everything, parents first, or end at a cycle. -/
theorem place_cases (hids : (instruments.map InstrumentSection.id).Nodup)
    (h : Between instruments pending ⟨placed, inserted, [], false⟩) :
    (∃ result, place instruments placed inserted pending = .ok result ∧ result.Perm instruments ∧
      ParentsFirst instruments result) ∨
    (place instruments placed inserted pending = .error lineageCycle ∧ ¬Chains.Acyclic (parentIn instruments)) := by
  fun_induction place instruments placed inserted pending with
  | case1 placed inserted pending hempty =>
    have hall := h.all
    rw [List.isEmpty_iff.mp hempty] at hall
    exact Or.inl ⟨inserted, rfl, by simpa using hall, h.order⟩
  | case2 placed inserted pending hempty hprogress ih =>
    obtain ⟨hbetween, -⟩ := pass_between hids h
    exact ih ⟨by simpa using hbetween.all, hbetween.placed, hbetween.order⟩
  | case3 placed inserted pending hempty hstuck =>
    obtain ⟨hbetween, hwaits⟩ := pass_between hids h
    have hstuck := Bool.eq_false_iff.mpr hstuck
    refine Or.inr ⟨rfl, not_acyclic_of_stuck hbetween hwaits hstuck ?_⟩
    rw [pass_stuck hstuck]
    exact fun hnil => hempty (List.isEmpty_iff.mpr hnil)

end

/-- The instruments of an archive are refused exactly when their lineage has a cycle among them. Otherwise each is
    inserted once, after its parent. -/
theorem importInstruments_ordered {instruments : List InstrumentSection}
    (hids : (instruments.map InstrumentSection.id).Nodup) :
    (importInstruments instruments = .error lineageCycle ↔ ¬Chains.Acyclic (parentIn instruments)) ∧
    (Chains.Acyclic (parentIn instruments) → ∃ inserted, importInstruments instruments = .ok inserted ∧
      inserted.Nodup ∧ (∀ instrument, instrument ∈ inserted ↔ instrument ∈ instruments) ∧
      ∀ earlier instrument later, inserted = earlier ++ instrument :: later →
        ∀ parent ∈ instruments, instrument.lineageParent = some parent.id → parent ∈ earlier) := by
  have hstart : Between instruments instruments ⟨∅, [], [], false⟩ := by
    refine ⟨List.Perm.refl _, fun id => ⟨fun h => absurd h Std.ExtTreeSet.not_mem_empty, ?_⟩, ?_⟩
    · rintro ⟨_, h, -⟩
      cases h
    · intro earlier instrument later h
      exact absurd h.symm (List.append_ne_nil_of_right_ne_nil _ (List.cons_ne_nil _ _))
  unfold importInstruments
  rcases place_cases hids hstart with ⟨inserted, hok, hperm, hfirst⟩ | ⟨herror, hcycle⟩
  · have hacyclic := acyclic_of_parentsFirst hperm hfirst
    refine ⟨⟨fun h => ?_, fun h => absurd hacyclic h⟩, fun _ => ⟨inserted, hok, ?_, fun _ => hperm.mem_iff, ?_⟩⟩
    · rw [hok] at h
      cases h
    · exact hperm.nodup_iff.mpr (hids.of_map _)
    · intro earlier instrument later heq parent hparent hlineage
      exact hfirst earlier instrument later heq parent (parentIn_of_mem hids hparent hlineage)
  · exact ⟨⟨fun _ => hcycle, fun _ => herror⟩, fun h => absurd h hcycle⟩

/-- A share whose parent stands behind it, and a parent outside the archive. -/
def grandchildFirst : List InstrumentSection :=
  let instrument (id : Nat) (parent : Option InstrumentId) : InstrumentSection :=
    ⟨⟨id⟩, none, "S", "T", "RUB", "RUB", "RUB", parent, parent.map fun _ => "spin_off"⟩
  [instrument 1 (some ⟨2⟩), instrument 2 (some ⟨3⟩), instrument 3 (some ⟨9⟩)]

theorem grandchildFirst_ordered : (importInstruments grandchildFirst = .error lineageCycle ↔
      ¬Chains.Acyclic (parentIn grandchildFirst)) ∧
    importInstruments grandchildFirst = .ok grandchildFirst.reverse := by
  refine ⟨(importInstruments_ordered (by decide +kernel)).1, by decide +kernel⟩

end Bundle
end Iaam
