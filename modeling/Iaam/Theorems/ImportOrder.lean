import Iaam.Projection.Project
import Iaam.Theorems.ReplayOrder

/-! The effective journal does not depend on the order of import. What the relations say is a set of facts
about the events, each step over them succeeds or not whatever their order, and the order of replay leaves
one arrangement of what stands. -/

namespace Iaam
namespace ImportOrder
open Outcome

/-! ### The index of identifiers -/

theorem indexIds_from {relations : List (EventId × Relation)} {acc ids : Tree.Set EventId} :
    relations.foldlM indexId acc = .ok ids ↔
      (relations.map Prod.fst).Nodup ∧ (∀ r ∈ relations, r.1 ∉ acc) ∧
        ∀ id, id ∈ ids ↔ id ∈ acc ∨ id ∈ relations.map Prod.fst := by
  induction relations generalizing acc with
  | nil =>
    constructor
    · rintro ⟨⟩
      simp
    · rintro ⟨-, -, h⟩
      have hids : ids = acc := Std.ExtTreeSet.ext_mem fun id => by simpa using h id
      rw [hids]
      rfl
  | cons r relations ih =>
    rw [List.foldlM_cons, bind_ok]
    by_cases hr : r.1 ∈ acc
    · have hstep : indexId acc r = .error (.duplicateEvent r.1) := if_pos hr
      constructor
      · rintro ⟨_, h, -⟩
        rw [hstep] at h
        cases h
      · rintro ⟨-, h, -⟩
        exact absurd hr (h r List.mem_cons_self)
    · have hstep : indexId acc r = .ok (acc.insert r.1) := if_neg hr
      simp only [hstep, Except.ok.injEq, exists_eq_left', ih, List.map_cons, List.nodup_cons, List.mem_cons,
        forall_eq_or_imp, Tree.mem_insert_set]
      constructor
      · rintro ⟨hnd, hacc, hids⟩
        refine ⟨⟨fun hm => ?_, hnd⟩, ⟨hr, fun r' hr' hin => hacc r' hr' (Or.inr hin)⟩, fun id => ?_⟩
        · obtain ⟨r', hr', he⟩ := List.mem_map.mp hm
          exact hacc r' hr' (Or.inl he.symm)
        · rw [hids]
          tauto
      · rintro ⟨⟨hm, hnd⟩, ⟨-, hacc⟩, hids⟩
        refine ⟨hnd, fun r' hr' hin => ?_, fun id => ?_⟩
        · rcases hin with he | hin
          · exact hm (List.mem_map.mpr ⟨r', hr', he.symm⟩)
          · exact hacc r' hr' hin
        · rw [hids]
          tauto

theorem indexIds_ok {relations : List (EventId × Relation)} {ids : Tree.Set EventId} :
    indexIds relations = .ok ids ↔
      (relations.map Prod.fst).Nodup ∧ ∀ id, id ∈ ids ↔ id ∈ relations.map Prod.fst := by
  unfold indexIds
  rw [indexIds_from]
  simp

/-! ### What the relations say -/

/-- The target an event replaces. -/
def replaces (r : EventId × Relation) : Option EventId :=
  match r.2 with
  | .replacement target => some target
  | .none | .reversal _ => none

/-- Every target is held. -/
def Held (held : EventId → EventId → Bool) (relations : List (EventId × Relation)) : Prop :=
  ∀ r ∈ relations, ∀ target, r.2 = .reversal target ∨ r.2 = .replacement target → held r.1 target = true

/-- What collecting the relations gives, on top of what was there. -/
structure Collected (relations : List (EventId × Relation))
    (acc acc' : Tree.Set EventId × Tree.Map EventId EventId) : Prop where
  single : (relations.filterMap replaces).Nodup
  fresh : ∀ target ∈ relations.filterMap replaces, acc.2[target]? = none
  reversed : ∀ target, target ∈ acc'.1 ↔ target ∈ acc.1 ∨ ∃ r ∈ relations, r.2 = .reversal target
  replaced : ∀ target id, acc'.2[target]? = some id ↔ acc.2[target]? = some id ∨ (id, .replacement target) ∈ relations

theorem collected_perm {relations relations' : List (EventId × Relation)}
    {acc acc' : Tree.Set EventId × Tree.Map EventId EventId} (hp : relations.Perm relations')
    (h : Collected relations acc acc') : Collected relations' acc acc' where
  single := (hp.filterMap replaces).nodup_iff.mp h.single
  fresh target ht := h.fresh target ((hp.filterMap replaces).mem_iff.mpr ht)
  reversed target := by
    rw [h.reversed]
    simp only [hp.mem_iff]
  replaced target id := by rw [h.replaced, hp.mem_iff]

theorem collected_nil {acc acc' : Tree.Set EventId × Tree.Map EventId EventId} :
    Collected [] acc acc' ↔ acc' = acc := by
  constructor
  · intro h
    refine Prod.ext ?_ ?_
    · exact Std.ExtTreeSet.ext_mem fun target => by simpa using h.reversed target
    · refine Std.ExtTreeMap.ext_getElem? fun target => Option.ext fun id => ?_
      simpa using h.replaced target id
  · rintro rfl
    exact ⟨by simp, by simp, by simp, by simp⟩

/-- Peels off the event collected first. -/
theorem collected_cons {r : EventId × Relation} {relations : List (EventId × Relation)}
    {acc acc' : Tree.Set EventId × Tree.Map EventId EventId} :
    Collected (r :: relations) acc acc' ↔
      match r.2 with
      | .none => Collected relations acc acc'
      | .reversal target => Collected relations (acc.1.insert target, acc.2) acc'
      | .replacement target => acc.2[target]? = none ∧ Collected relations (acc.1, acc.2.insert target r.1) acc' := by
  obtain ⟨id, relation⟩ := r
  cases relation with
  | none =>
    constructor
    · rintro ⟨h1, h2, h3, h4⟩
      exact ⟨h1, h2, by simpa using h3, by simpa using h4⟩
    · rintro ⟨h1, h2, h3, h4⟩
      exact ⟨h1, h2, by simpa using h3, by simpa using h4⟩
  | reversal t =>
    have hmem (target : EventId) : (target ∈ acc.1 ∨ ∃ r ∈ (id, Relation.reversal t) :: relations, r.2 = .reversal target) ↔
        target ∈ acc.1.insert t ∨ ∃ r ∈ relations, r.2 = .reversal target := by
      simp only [List.mem_cons, exists_eq_or_imp, Relation.reversal.injEq, Tree.mem_insert_set]
      tauto
    constructor
    · rintro ⟨h1, h2, h3, h4⟩
      exact ⟨h1, h2, fun target => (h3 target).trans (hmem target), by simpa using h4⟩
    · rintro ⟨h1, h2, h3, h4⟩
      exact ⟨h1, h2, fun target => (h3 target).trans (hmem target).symm, by simpa using h4⟩
  | replacement t =>
    have hreplaces : (((id, Relation.replacement t) :: relations).filterMap replaces) = t :: relations.filterMap replaces := by
      simp [replaces]
    constructor
    · rintro ⟨h1, h2, h3, h4⟩
      rw [hreplaces] at h1 h2
      obtain ⟨hnot, hnd⟩ := List.nodup_cons.mp h1
      have hfree := h2 t List.mem_cons_self
      refine ⟨hfree, hnd, fun target ht => ?_, by simpa using h3, fun target id' => ?_⟩
      · have hne : t ≠ target := fun he => hnot (he ▸ ht)
        rw [Tree.get_insert_of_ne hne]
        exact h2 target (List.mem_cons_of_mem _ ht)
      · rw [h4, Tree.get_insert]
        by_cases he : t = target
        · subst he
          simp [hfree, eq_comm]
        · have he' : target ≠ t := fun h => he h.symm
          simp [he, he']
    · rintro ⟨hfree, h1, h2, h3, h4⟩
      have hnot : t ∉ relations.filterMap replaces := fun ht => by
        have := h2 t ht
        simp at this
      refine ⟨hreplaces ▸ List.nodup_cons.mpr ⟨hnot, h1⟩, fun target ht => ?_, by simpa using h3, fun target id' => ?_⟩
      · rw [hreplaces] at ht
        rcases List.mem_cons.mp ht with rfl | ht
        · exact hfree
        · have hne : t ≠ target := fun he => hnot (he ▸ ht)
          rw [← Tree.get_insert_of_ne hne]
          exact h2 target ht
      · rw [h4, Tree.get_insert]
        by_cases he : t = target
        · subst he
          simp [hfree, eq_comm]
        · have he' : target ≠ t := fun h => he h.symm
          simp [he, he']

/-- Collecting succeeds exactly when the targets are held and none is replaced twice. -/
theorem collect_ok {held : EventId → EventId → Bool} {relations : List (EventId × Relation)}
    {acc acc' : Tree.Set EventId × Tree.Map EventId EventId} :
    relations.foldlM (collectRelation held) acc = .ok acc' ↔ Held held relations ∧ Collected relations acc acc' := by
  induction relations generalizing acc with
  | nil =>
    rw [collected_nil]
    constructor
    · rintro ⟨⟩
      exact ⟨by simp [Held], rfl⟩
    · rintro ⟨-, rfl⟩
      rfl
  | cons r relations ih =>
    rw [List.foldlM_cons, bind_ok, collected_cons]
    have hcons : Held held (r :: relations) ↔
        (∀ target, r.2 = .reversal target ∨ r.2 = .replacement target → held r.1 target = true) ∧
          Held held relations := by
      simp [Held]
    rw [hcons]
    obtain ⟨id, relation⟩ := r
    cases relation with
    | none => simp [collectRelation, ih]
    | reversal t =>
      cases hh : held id t <;> simp [collectRelation, hh, ih]
    | replacement t =>
      cases hh : held id t
      · simp [collectRelation, hh]
      · cases ht : acc.2[t]? <;> simp [collectRelation, hh, ht, ih]

/-! ### Resolution -/

theorem resolveSupersession_perm {relations relations' : List (EventId × Relation)} (hp : relations.Perm relations')
    {s : Supersession} (h : resolveSupersession relations = .ok s) : resolveSupersession relations' = .ok s := by
  unfold resolveSupersession resolveSupersessionInner at h ⊢
  obtain ⟨ids, hids, h⟩ := bind_ok.mp h
  obtain ⟨⟨reversed, replacedBy⟩, hcollect, h⟩ := bind_ok.mp h
  rw [indexIds_ok] at hids
  have hids' : indexIds relations' = .ok ids := by
    rw [indexIds_ok]
    refine ⟨(hp.map Prod.fst).nodup_iff.mp hids.1, fun id => ?_⟩
    rw [hids.2, (hp.map Prod.fst).mem_iff]
  obtain ⟨hheld, hcollected⟩ := collect_ok.mp hcollect
  refine bind_ok.mpr ⟨ids, hids', bind_ok.mpr ⟨(reversed, replacedBy), collect_ok.mpr ⟨?_, ?_⟩, ?_⟩⟩
  · exact fun r hr => hheld r (hp.mem_iff.mpr hr)
  · exact collected_perm hp hcollected
  · rw [← h]
    refine congrArg (fun stands => Except.ok (Supersession.mk reversed replacedBy stands))
      (Std.ExtTreeSet.ext_mem fun id => ?_)
    simp only [Std.ExtTreeSet.mem_ofList, List.contains_iff_mem, List.mem_map, List.mem_filter, hp.mem_iff]

theorem resolve_perm {events events' effective : List Event} (hp : events.Perm events')
    (h : resolve events = .ok effective) : resolve events' = .ok effective := by
  unfold resolve resolveWithSupersession at h ⊢
  obtain ⟨resolution, hres, heff⟩ := bind_ok.mp h
  obtain ⟨s, hs, hres⟩ := bind_ok.mp hres
  have hs' : resolveSupersession (relationsOf events') = .ok s := resolveSupersession_perm (hp.map _) hs
  -- The identifiers are distinct, or the index would have failed.
  have hids : (events.map Event.id).Nodup := by
    unfold resolveSupersession resolveSupersessionInner at hs
    obtain ⟨ids, hidx, -⟩ := bind_ok.mp hs
    have hnd := (indexIds_ok.mp hidx).1
    rwa [relationsOf, List.map_map] at hnd
  refine bind_ok.mpr ⟨resolutionFromEvents events' s, bind_ok.mpr ⟨s, hs', rfl⟩, ?_⟩
  cases hres
  rw [← heff]
  have hstand : (events.filter fun e => e.id ∈ s.stands).Perm (events'.filter fun e => e.id ∈ s.stands) :=
    hp.filter _
  have hnd : ((events.filter fun e => e.id ∈ s.stands).map Event.id).Nodup :=
    hids.sublist (List.filter_sublist.map Event.id)
  exact congrArg Except.ok (ReplayOrder.sortForReplay_eq_of_perm hstand hnd).symm

/-- One resolution and one projection for every order of import. -/
theorem project_of_perm (H : Hashing) (ctx : ProjectionContext) {events events' : List Event}
    (hp : events.Perm events') {effective : List Event} (h : resolve events = .ok effective) :
    resolve events' = .ok effective ∧ project H ctx events' = project H ctx events := by
  have h' := resolve_perm hp h
  refine ⟨h', ?_⟩
  unfold project
  rw [h, h']

/-- A deposit and its correction, imported in either order. -/
def deposit : Event :=
  eventWith ⟨1⟩ ⟨1⟩ ⟨0⟩ 0 (.cashIn ⟨.new 500, .rub⟩) [.cash ⟨1⟩ ⟨.new 500, .rub⟩]

def correctedDeposit : Event :=
  { eventWith ⟨2⟩ ⟨1⟩ ⟨0⟩ 0 (.cashIn ⟨.new 700, .rub⟩) [.cash ⟨1⟩ ⟨.new 700, .rub⟩] with
    relation := .replacement ⟨1⟩ }

theorem project_corrected_deposit :
    resolve [correctedDeposit, deposit] = .ok [correctedDeposit] ∧
      project .transparent ⟨⟨⟨1⟩, 1, ∅⟩, .withDefaults, 1⟩ [correctedDeposit, deposit] =
        project .transparent ⟨⟨⟨1⟩, 1, ∅⟩, .withDefaults, 1⟩ [deposit, correctedDeposit] :=
  project_of_perm .transparent ⟨⟨⟨1⟩, 1, ∅⟩, .withDefaults, 1⟩ (.swap correctedDeposit deposit []) (by decide)

end ImportOrder
end Iaam
