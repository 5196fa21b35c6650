import Iaam.Journal.Chain
import Iaam.Lib.Chains
import Iaam.Theorems.ImportOrder

/-! What becomes of the facts a journal corrects. Where the relations form no cycle, whatever does not count
has been superseded by a chain of replacements that ends; a cycle takes all its facts out of the effective
list, and the resolution does not refuse it. -/

namespace Iaam
namespace Corrections
open Outcome Chains

/-! ### What a resolution says -/

/-- The supersession of a journal, read off its events. -/
structure Resolved (events : List Event) (s : Supersession) : Prop where
  nodup : (events.map Event.id).Nodup
  held : ∀ e ∈ events, ∀ target, e.relation.target? = some target → ∃ e' ∈ events, e'.id = target
  reversed : ∀ target, target ∈ s.reversed ↔ ∃ e ∈ events, e.relation = .reversal target
  replaced : ∀ target id, s.replacedBy[target]? = some id ↔ ∃ e ∈ events, e.id = id ∧ e.relation = .replacement target
  stands : ∀ id, id ∈ s.stands ↔
    ∃ e ∈ events, e.id = id ∧ id ∉ s.reversed ∧ s.replacedBy[id]? = none ∧ e.relation.isReversal = false

theorem target?_eq_some {relation : Relation} {target : EventId} :
    relation.target? = some target ↔ relation = .reversal target ∨ relation = .replacement target := by
  cases relation <;> simp [Relation.target?]

theorem resolved_of_ok {events : List Event} {s : Supersession} (h : resolveSupersession (relationsOf events) = .ok s) :
    Resolved events s := by
  unfold resolveSupersession resolveSupersessionInner at h
  obtain ⟨ids, hids, h⟩ := bind_ok.mp h
  obtain ⟨⟨reversed, replacedBy⟩, hcollect, h⟩ := bind_ok.mp h
  cases h
  obtain ⟨hnd, hids⟩ := ImportOrder.indexIds_ok.mp hids
  obtain ⟨hheld, hcollected⟩ := ImportOrder.collect_ok.mp hcollect
  have hmem : ∀ r, r ∈ relationsOf events ↔ ∃ e ∈ events, (e.id, e.relation) = r := fun r => List.mem_map
  refine ⟨?_, ?_, ?_, ?_, ?_⟩
  · rwa [relationsOf, List.map_map] at hnd
  · intro e he target htarget
    have hin := hheld (e.id, e.relation) ((hmem _).mpr ⟨e, he, rfl⟩) target (target?_eq_some.mp htarget)
    simp only [Bool.false_and, Bool.or_false, decide_eq_true_eq] at hin
    obtain ⟨r, hr, hid⟩ := List.mem_map.mp ((hids target).mp hin)
    obtain ⟨e', he', rfl⟩ := (hmem r).mp hr
    exact ⟨e', he', hid⟩
  · intro target
    have hrev := hcollected.reversed target
    simp only [Std.ExtTreeSet.not_mem_empty, false_or] at hrev
    refine hrev.trans ⟨?_, ?_⟩
    · rintro ⟨r, hr, hrel⟩
      obtain ⟨e, he, rfl⟩ := (hmem r).mp hr
      exact ⟨e, he, hrel⟩
    · rintro ⟨e, he, hrel⟩
      exact ⟨(e.id, e.relation), (hmem _).mpr ⟨e, he, rfl⟩, hrel⟩
  · intro target id
    have hrep := hcollected.replaced target id
    simp only [Std.ExtTreeMap.getElem?_empty, reduceCtorEq, false_or] at hrep
    refine hrep.trans ((hmem _).trans ?_)
    simp
  · intro id
    simp only [supersession, Std.ExtTreeSet.mem_ofList, List.contains_iff_mem, List.mem_map, List.mem_filter]
    constructor
    · rintro ⟨r, ⟨hr, hstands⟩, rfl⟩
      obtain ⟨e, he, rfl⟩ := (hmem r).mp hr
      simp only [Bool.and_eq_true, decide_eq_true_eq, Bool.not_eq_true', Std.ExtTreeMap.mem_iff_isSome_getElem?] at hstands
      exact ⟨e, he, rfl, hstands.1.1, by simpa using hstands.1.2, hstands.2⟩
    · rintro ⟨e, he, rfl, hrev, hrep, hkind⟩
      refine ⟨(e.id, e.relation), ⟨(hmem _).mpr ⟨e, he, rfl⟩, ?_⟩, rfl⟩
      simp [hrev, hkind, Std.ExtTreeMap.mem_iff_isSome_getElem?, hrep]

theorem resolveWithSupersession_ok {events : List Event} {r : Resolution} (h : resolveWithSupersession events = .ok r) :
    Resolved events r.supersession ∧ ∀ e, e ∈ r.effective ↔ e ∈ events ∧ e.id ∈ r.supersession.stands := by
  obtain ⟨s, hs, h⟩ := bind_ok.mp h
  cases h
  refine ⟨resolved_of_ok hs, fun e => ?_⟩
  simp only [resolutionFromEvents, sortForReplay, List.mem_insertionSort, List.mem_filter, decide_eq_true_eq]

/-! ### Chains -/

/-- The replacement that `superseded_by` names, if it names one. -/
def replacementOf (s : Supersession) (id : EventId) : Option EventId :=
  match s.supersededBy id with
  | some (.replacement by_) => some by_
  | some .reversal | none => none

/-- The event that an event of the journal names in its relation. -/
def named (events : List Event) (id : EventId) : Option EventId :=
  (events.find? fun e => e.id = id).bind fun e => e.relation.target?

theorem replacementOf_eq (s : Supersession) (id : EventId) : replacementOf s id = s.replacedBy[id]? := by
  unfold replacementOf Supersession.supersededBy
  cases s.replacedBy[id]? with
  | none => by_cases h : id ∈ s.reversed <;> simp [h]
  | some by_ => rfl

theorem named_eq_some {events : List Event} (hnd : (events.map Event.id).Nodup) {id target : EventId} :
    named events id = some target ↔ ∃ e ∈ events, e.id = id ∧ e.relation.target? = some target := by
  rw [named, Option.bind_eq_some_iff]
  simp only [Search.find_key_eq_some hnd, and_assoc]

/-- A replacement names what it replaces. -/
theorem Resolved.link_named {events : List Event} {s : Supersession} (h : Resolved events s) {a b : EventId}
    (hlink : Link (replacementOf s) a b) : Link (named events) b a := by
  rw [Link, replacementOf_eq, h.replaced] at hlink
  obtain ⟨e, he, hid, hrel⟩ := hlink
  exact (named_eq_some h.nodup).mpr ⟨e, he, hid, by rw [hrel]; rfl⟩

/-- What is named does not stand. -/
theorem Resolved.not_stands_of_named {events : List Event} {s : Supersession} (h : Resolved events s) {a b : EventId}
    (hlink : Link (named events) a b) : b ∉ s.stands := by
  obtain ⟨e, he, -, htarget⟩ := (named_eq_some h.nodup).mp hlink
  intro hstands
  obtain ⟨-, -, -, hrev, hrep, -⟩ := (h.stands b).mp hstands
  rcases target?_eq_some.mp htarget with hrel | hrel
  · exact hrev ((h.reversed b).mpr ⟨e, he, hrel⟩)
  · rw [(h.replaced b e.id).mpr ⟨e, he, rfl, hrel⟩] at hrep
    cases hrep

theorem Resolved.end_of_stands {events : List Event} {s : Supersession} (h : Resolved events s) {a : EventId}
    (hstands : a ∈ s.stands) : replacementOf s a = none := by
  obtain ⟨-, -, -, -, hrep, -⟩ := (h.stands a).mp hstands
  rw [replacementOf_eq, hrep]

/-- No fact vanishes: the chain of what does not count ends, a chain contributes one standing event at most,
    what a reversed event replaced is absent, and no cycle is missing as a whole. -/
structure NothingVanishes (events : List Event) (r : Resolution) : Prop where
  ends : ∀ e ∈ events, e.id ∉ r.supersession.stands → e.relation.isReversal = false →
    ∃ z, Reaches (replacementOf r.supersession) e.id z ∧
      (z ∈ r.supersession.stands ∨ r.supersession.supersededBy z = some .reversal)
  single : ∀ a b, Relation.EqvGen (Link (replacementOf r.supersession)) a b →
    a ∈ r.supersession.stands → b ∈ r.supersession.stands → a = b
  absent : ∀ e ∈ events, ∀ z, Relation.TransGen (Link (replacementOf r.supersession)) e.id z →
    z ∈ r.supersession.reversed → e ∉ r.effective
  cycles : ∀ a, Relation.TransGen (Link (named events)) a a →
    ∃ e ∈ r.effective, Reaches (named events) a e.id ∧ Reaches (named events) e.id a

variable {events : List Event} {r : Resolution}

theorem single_of_resolved (h : Resolved events r.supersession) {a b : EventId}
    (hab : Relation.EqvGen (Link (replacementOf r.supersession)) a b) (ha : a ∈ r.supersession.stands)
    (hb : b ∈ r.supersession.stands) : a = b := by
  obtain ⟨c, hac, hbc⟩ := joins hab
  exact (hac.eq_of_end (h.end_of_stands ha)).symm.trans (hbc.eq_of_end (h.end_of_stands hb))

theorem absent_of_resolved (h : resolveWithSupersession events = .ok r) {e : Event} {z : EventId}
    (hreach : Relation.TransGen (Link (replacementOf r.supersession)) e.id z) : e ∉ r.effective := by
  obtain ⟨hres, heff⟩ := resolveWithSupersession_ok h
  obtain ⟨b, hlink, -⟩ := Relation.TransGen.head'_iff.mp hreach
  intro he
  have hend := hres.end_of_stands ((heff e).mp he).2
  rw [Link, hend] at hlink
  cases hlink

/-- The events of the journal hold every chain of replacements, and without a cycle it ends. -/
theorem ends_of_acyclic (hres : Resolved events r.supersession) (hacyclic : Acyclic (named events)) {e : Event}
    (he : e ∈ events) (hkind : e.relation.isReversal = false) :
    ∃ z, Reaches (replacementOf r.supersession) e.id z ∧
      (z ∈ r.supersession.stands ∨ r.supersession.supersededBy z = some .reversal) := by
  -- Every event on the way is a replacement, so that it is not a reversal either.
  let facts : Set EventId := { id | ∃ e ∈ events, e.id = id ∧ e.relation.isReversal = false }
  have hfinite : facts.Finite := Set.Finite.subset (events.map Event.id).toFinset.finite_toSet fun id hid => by
    obtain ⟨e, he, rfl, -⟩ := hid
    simpa using ⟨e, he, rfl⟩
  have hup : Acyclic (replacementOf r.supersession) := fun a ha => by
    have hback : Relation.TransGen (Link (named events)) a a :=
      Relation.transGen_swap.mp (Relation.TransGen.mono (fun _ _ hlink => hres.link_named hlink) a a ha)
    exact hacyclic a hback
  have hclosed : ∀ a ∈ facts, ∀ b, replacementOf r.supersession a = some b → b ∈ facts := fun a _ b hb => by
    rw [replacementOf_eq, hres.replaced] at hb
    obtain ⟨e, he, hid, hrel⟩ := hb
    exact ⟨e, he, hid, by rw [hrel]; rfl⟩
  obtain ⟨z, ⟨e', he', hid, hkind'⟩, hreach, hend⟩ := ends hup hfinite hclosed ⟨e, he, rfl, hkind⟩
  refine ⟨z, hreach, ?_⟩
  by_cases hrev : z ∈ r.supersession.reversed
  · rw [replacementOf_eq] at hend
    refine Or.inr ?_
    unfold Supersession.supersededBy
    rw [hend]
    simp [hrev]
  · rw [replacementOf_eq] at hend
    exact Or.inl ((hres.stands z).mpr ⟨e', he', hid, hrev, hend, hkind'⟩)

/-- A resolution loses no fact exactly when no event of the journal corrects itself through its relations. -/
theorem nothing_vanishes_iff (h : resolveWithSupersession events = .ok r) :
    NothingVanishes events r ↔ Acyclic (named events) := by
  obtain ⟨hres, heff⟩ := resolveWithSupersession_ok h
  constructor
  · intro hnothing a hcycle
    obtain ⟨e, he, hto, hfrom⟩ := hnothing.cycles a hcycle
    -- The standing event lies on the cycle, so that an event of the cycle names it.
    have hround : Relation.TransGen (Link (named events)) e.id e.id :=
      Relation.TransGen.trans_right hfrom (Relation.TransGen.trans_left hcycle hto)
    obtain ⟨b, -, hlink⟩ := Relation.TransGen.tail'_iff.mp hround
    exact hres.not_stands_of_named hlink ((heff e).mp he).2
  · intro hacyclic
    exact {
      ends := fun e he _ hkind => ends_of_acyclic hres hacyclic he hkind
      single := fun a b hab ha hb => single_of_resolved hres hab ha hb
      absent := fun e _ z hz _ => absent_of_resolved h hz
      cycles := fun a ha => absurd ha (hacyclic a) }

/-- A deposit corrected once: the chain of the deposit ends at its replacement. -/
theorem corrected_deposit_keeps :
    ∃ r, resolveWithSupersession [ImportOrder.deposit, ImportOrder.correctedDeposit] = .ok r ∧
      NothingVanishes [ImportOrder.deposit, ImportOrder.correctedDeposit] r := by
  obtain ⟨r, h⟩ := exists_ok
    (show (resolveWithSupersession [ImportOrder.deposit, ImportOrder.correctedDeposit]).isOk = true by decide)
  refine ⟨r, h, (nothing_vanishes_iff h).mpr (acyclic_of_decreasing (fun id => id.uuid) fun a b hab => ?_)⟩
  obtain ⟨e, he, rfl, htarget⟩ := (named_eq_some (by decide)).mp hab
  simp only [List.mem_cons, List.not_mem_nil, or_false] at he
  rcases he with rfl | rfl
  · cases htarget
  · cases htarget
    decide

/-- Two deposits that replace each other. -/
def replacing (id target : EventId) : Event :=
  { eventWith id ⟨1⟩ ⟨0⟩ 0 (.cashIn ⟨.new 500, .rub⟩) [.cash ⟨1⟩ ⟨.new 500, .rub⟩] with relation := .replacement target }

/-- The journal of the two resolves to nothing, while the walk along the chain refuses it. -/
theorem cycle_vanishes :
    ∃ r, resolveWithSupersession [replacing ⟨1⟩ ⟨2⟩, replacing ⟨2⟩ ⟨1⟩] = .ok r ∧ r.effective = [] ∧
      ¬NothingVanishes [replacing ⟨1⟩ ⟨2⟩, replacing ⟨2⟩ ⟨1⟩] r ∧
        Chain.eventChain [⟨replacing ⟨1⟩ ⟨2⟩, "t1"⟩, ⟨replacing ⟨2⟩ ⟨1⟩, "t2"⟩] ⟨0⟩ ⟨1⟩ =
          some (.error (.correctionChainCycle ⟨1⟩)) := by
  obtain ⟨r, h⟩ := exists_ok
    (show (resolveWithSupersession [replacing ⟨1⟩ ⟨2⟩, replacing ⟨2⟩ ⟨1⟩]).isOk = true by decide)
  have heffective : r.effective = [] := read_of_ok h Resolution.effective (by decide)
  refine ⟨r, h, heffective, fun hnothing => ?_, by decide⟩
  have hcycle : Relation.TransGen (Link (named [replacing ⟨1⟩ ⟨2⟩, replacing ⟨2⟩ ⟨1⟩])) ⟨1⟩ ⟨1⟩ :=
    .tail (.single (show named _ ⟨1⟩ = some ⟨2⟩ by decide)) (show named _ ⟨2⟩ = some ⟨1⟩ by decide)
  obtain ⟨e, he, -⟩ := hnothing.cycles ⟨1⟩ hcycle
  rw [heffective] at he
  cases he

end Corrections
end Iaam
