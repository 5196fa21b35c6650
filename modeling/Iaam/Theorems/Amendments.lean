import Iaam.Theorems.Corrections

/-! What an amendment does to a journal: new facts that reverse or replace effective events are accepted, take
their targets out of the effective list and put the replacements in. -/

namespace Iaam
namespace Amendments
open Outcome Corrections

/-! ### When a journal resolves -/

/-- The targets that the events replace. -/
def replacedTargets (events : List Event) : List EventId := (relationsOf events).filterMap ImportOrder.replaces

theorem replacedTargets_append (events events' : List Event) :
    replacedTargets (events ++ events') = replacedTargets events ++ replacedTargets events' := by
  simp [replacedTargets, relationsOf]

/-- What a journal must be for `resolve` to succeed. -/
structure Resolvable (events : List Event) : Prop where
  nodup : (events.map Event.id).Nodup
  held : ∀ e ∈ events, ∀ target, e.relation.target? = some target → ∃ e' ∈ events, e'.id = target
  single : (replacedTargets events).Nodup

theorem collect_total {held : EventId → EventId → Bool} {relations : List (EventId × Relation)}
    (hheld : ImportOrder.Held held relations) (hsingle : (relations.filterMap ImportOrder.replaces).Nodup)
    (acc : Tree.Set EventId × Tree.Map EventId EventId)
    (hfree : ∀ target ∈ relations.filterMap ImportOrder.replaces, acc.2[target]? = none) :
    ∃ acc', relations.foldlM (collectRelation held) acc = .ok acc' := by
  induction relations generalizing acc with
  | nil => exact ⟨acc, rfl⟩
  | cons r relations ih =>
    obtain ⟨id, relation⟩ := r
    have hrest : ImportOrder.Held held relations := fun r hr => hheld r (List.mem_cons_of_mem _ hr)
    have hfirst := hheld (id, relation) List.mem_cons_self
    rw [List.foldlM_cons]
    cases relation with
    | none => exact ih hrest hsingle acc hfree
    | reversal target =>
      have hstep : collectRelation held acc (id, .reversal target) = .ok (acc.1.insert target, acc.2) := by
        simp [collectRelation, hfirst target (Or.inl rfl)]
      rw [hstep]
      exact ih hrest hsingle _ hfree
    | replacement target =>
      have hcons : ((id, Relation.replacement target) :: relations).filterMap ImportOrder.replaces =
          target :: relations.filterMap ImportOrder.replaces := by simp [ImportOrder.replaces]
      rw [hcons] at hsingle hfree
      obtain ⟨hnot, hsingle⟩ := List.nodup_cons.mp hsingle
      have hstep : collectRelation held acc (id, .replacement target) = .ok (acc.1, acc.2.insert target id) := by
        simp [collectRelation, hfirst target (Or.inr rfl), hfree target List.mem_cons_self]
      rw [hstep]
      refine ih hrest hsingle _ fun other hother => ?_
      have hne : target ≠ other := fun he => hnot (he ▸ hother)
      rw [Tree.get_insert_of_ne hne]
      exact hfree other (List.mem_cons_of_mem _ hother)

theorem exists_resolve {events : List Event} (h : Resolvable events) : ∃ effective, resolve events = .ok effective := by
  have hnodup : ((relationsOf events).map Prod.fst).Nodup := by
    rw [relationsOf, List.map_map]
    exact h.nodup
  obtain ⟨ids, hids⟩ : ∃ ids, indexIds (relationsOf events) = .ok ids :=
    ⟨Std.ExtTreeSet.ofList ((relationsOf events).map Prod.fst) compare,
      ImportOrder.indexIds_ok.mpr ⟨hnodup, fun id => by simp [Std.ExtTreeSet.mem_ofList]⟩⟩
  have hmem := (ImportOrder.indexIds_ok.mp hids).2
  have hheld : ImportOrder.Held (fun id target => decide (target ∈ ids) || (false && none == some id))
      (relationsOf events) := by
    intro r hr target htarget
    obtain ⟨e, he, rfl⟩ := List.mem_map.mp hr
    obtain ⟨e', he', rfl⟩ := h.held e he target (target?_eq_some.mpr htarget)
    have hin : e'.id ∈ ids := (hmem e'.id).mpr (by simpa [relationsOf] using ⟨e', he', rfl⟩)
    simp [hin]
  obtain ⟨acc, hacc⟩ := collect_total hheld h.single (∅, ∅) fun target _ => by simp
  exact ⟨_, bind_ok.mpr ⟨_, bind_ok.mpr ⟨_, bind_ok.mpr ⟨ids, hids, bind_ok.mpr ⟨acc, hacc, rfl⟩⟩, rfl⟩, rfl⟩⟩

theorem resolvable_of_ok {events effective : List Event} (h : resolve events = .ok effective) : Resolvable events := by
  obtain ⟨r, hr, h⟩ := bind_ok.mp h
  obtain ⟨s, hs, hr⟩ := bind_ok.mp hr
  have hres := resolved_of_ok hs
  refine ⟨hres.nodup, hres.held, ?_⟩
  unfold resolveSupersession resolveSupersessionInner at hs
  obtain ⟨ids, -, hs⟩ := bind_ok.mp hs
  obtain ⟨acc, hcollect, -⟩ := bind_ok.mp hs
  exact (ImportOrder.collect_ok.mp hcollect).2.single

theorem Resolvable.perm {events events' : List Event} (hp : events.Perm events') (h : Resolvable events) :
    Resolvable events' where
  nodup := (hp.map Event.id).nodup_iff.mp h.nodup
  held e he target htarget := by
    obtain ⟨e', he', hid⟩ := h.held e (hp.mem_iff.mpr he) target htarget
    exact ⟨e', hp.mem_iff.mp he', hid⟩
  single := ((hp.map fun e : Event => (e.id, e.relation)).filterMap ImportOrder.replaces).nodup_iff.mp h.single

/-! ### What stands -/

/-- Some event reverses or replaces the one of this identifier. -/
def targeted (events : List Event) (id : EventId) : Bool := events.any fun c => c.relation.target? = some id

theorem targeted_iff {events : List Event} {id : EventId} :
    targeted events id = true ↔ ∃ c ∈ events, c.relation.target? = some id := by simp [targeted]

/-- An event stands when nothing names it and it is itself no reversal. -/
def standing (events : List Event) (e : Event) : Bool := !targeted events e.id && !e.relation.isReversal

theorem mem_stands_iff {events : List Event} {s : Supersession} (h : Resolved events s) {e : Event} (he : e ∈ events) :
    e.id ∈ s.stands ↔ standing events e = true := by
  have htargeted : targeted events e.id = true ↔ e.id ∈ s.reversed ∨ s.replacedBy[e.id]? ≠ none := by
    rw [targeted_iff, h.reversed, Option.ne_none_iff_exists']
    simp only [h.replaced, target?_eq_some]
    constructor
    · rintro ⟨c, hc, hrel | hrel⟩
      · exact Or.inl ⟨c, hc, hrel⟩
      · exact Or.inr ⟨c.id, c, hc, rfl, hrel⟩
    · rintro (⟨c, hc, hrel⟩ | ⟨_, c, hc, -, hrel⟩)
      · exact ⟨c, hc, Or.inl hrel⟩
      · exact ⟨c, hc, Or.inr hrel⟩
  rw [h.stands, standing, Bool.and_eq_true, Bool.not_eq_true', Bool.not_eq_true', ← Bool.not_eq_true, htargeted, not_or,
    not_not]
  constructor
  · rintro ⟨e', he', hid, hrev, hrep, hkind⟩
    cases List.inj_on_of_nodup_map h.nodup he' he hid
    exact ⟨⟨hrev, hrep⟩, hkind⟩
  · rintro ⟨⟨hrev, hrep⟩, hkind⟩
    exact ⟨e, he, rfl, hrev, hrep, hkind⟩

/-- The effective list is a rearrangement of what stands. -/
theorem effective_perm {events effective : List Event} (h : resolve events = .ok effective) :
    effective.Perm (events.filter (standing events)) := by
  obtain ⟨r, hr, h⟩ := bind_ok.mp h
  obtain ⟨s, hs, hr⟩ := bind_ok.mp hr
  cases hr
  cases h
  have hres := resolved_of_ok hs
  have hfilter : (events.filter fun e => decide (e.id ∈ s.stands)) = events.filter (standing events) :=
    List.filter_congr fun e he => by
      rw [Bool.eq_iff_iff, decide_eq_true_eq]
      exact mem_stands_iff hres he
  rw [← hfilter]
  exact List.perm_insertionSort _ _

theorem sorted_effective {events effective : List Event} (h : resolve events = .ok effective) :
    effective.Pairwise fun a b => ReplayOrder.key a ≤ ReplayOrder.key b := by
  obtain ⟨r, hr, h⟩ := bind_ok.mp h
  obtain ⟨s, -, hr⟩ := bind_ok.mp hr
  cases hr
  cases h
  exact ReplayOrder.sortForReplay_sorted _

theorem mem_effective {events effective : List Event} (h : resolve events = .ok effective) {e : Event} :
    e ∈ effective ↔ e ∈ events ∧ standing events e = true := by
  rw [(effective_perm h).mem_iff, List.mem_filter]

theorem nodup_effective {events effective : List Event} (h : resolve events = .ok effective) :
    (effective.map Event.id).Nodup :=
  ((effective_perm h).map _).nodup_iff.mpr ((List.filter_sublist.map _).nodup (resolvable_of_ok h).nodup)

/-- Two resolutions of the same events are the same list. -/
theorem effective_eq_of_perm {events effective rows : List Event} (h : resolve events = .ok effective)
    (hp : effective.Perm rows) (hsorted : rows.Pairwise fun a b => ReplayOrder.key a ≤ ReplayOrder.key b) :
    effective = rows := by
  have hnodup := nodup_effective h
  refine hp.eq_of_pairwise (fun a b ha hb hab hba => ?_) (sorted_effective h) hsorted
  exact List.inj_on_of_nodup_map hnodup ha (hp.mem_iff.mpr hb) (ReplayOrder.id_eq_of_key_eq (le_antisymm hab hba))

/-- What an event of the journal names is never effective. -/
theorem not_effective_of_targeted {events effective : List Event} (h : resolve events = .ok effective) {c e : Event}
    (hc : c ∈ events) (htarget : c.relation.target? = some e.id) : e ∉ effective := by
  intro he
  have hstands := ((mem_effective h).mp he).2
  rw [standing, targeted_iff.mpr ⟨c, hc, htarget⟩] at hstands
  cases hstands

/-! ### Appending corrections -/

/-- New facts with identifiers of their own, each of which corrects an effective event; none is replaced twice. -/
structure Amends (events effective new : List Event) : Prop where
  fresh : ((events ++ new).map Event.id).Nodup
  corrects : ∀ n ∈ new, ∃ e ∈ effective, n.relation.target? = some e.id
  single : (replacedTargets new).Nodup

section
variable {events effective new : List Event}

theorem mem_replacedTargets {events : List Event} {target : EventId} :
    target ∈ replacedTargets events ↔ ∃ e ∈ events, e.relation = .replacement target := by
  unfold replacedTargets relationsOf
  rw [List.mem_filterMap]
  constructor
  · rintro ⟨r, hr, hreplaces⟩
    obtain ⟨e, he, rfl⟩ := List.mem_map.mp hr
    refine ⟨e, he, ?_⟩
    unfold ImportOrder.replaces at hreplaces
    split at hreplaces
    · next hrel =>
      cases hreplaces
      exact hrel
    all_goals cases hreplaces
  · rintro ⟨e, he, hrel⟩
    exact ⟨(e.id, e.relation), List.mem_map_of_mem he, by simp [ImportOrder.replaces, hrel]⟩

theorem Amends.resolvable (h : resolve events = .ok effective) (ha : Amends events effective new) :
    Resolvable (events ++ new) where
  nodup := ha.fresh
  held e he target htarget := by
    rcases List.mem_append.mp he with he | he
    · obtain ⟨e', he', hid⟩ := (resolvable_of_ok h).held e he target htarget
      exact ⟨e', List.mem_append_left _ he', hid⟩
    · obtain ⟨e', he', hid⟩ := ha.corrects e he
      rw [htarget] at hid
      cases hid
      exact ⟨e', List.mem_append_left _ ((mem_effective h).mp he').1, rfl⟩
  single := by
    rw [replacedTargets_append, List.nodup_append']
    refine ⟨(resolvable_of_ok h).single, ha.single, fun target hold hnew => ?_⟩
    obtain ⟨e, he, hrel⟩ := mem_replacedTargets.mp hold
    obtain ⟨n, hn, hrel'⟩ := mem_replacedTargets.mp hnew
    obtain ⟨e', he', hid⟩ := ha.corrects n hn
    rw [target?_eq_some.mpr (Or.inr hrel')] at hid
    cases hid
    exact not_effective_of_targeted h he (target?_eq_some.mpr (Or.inr hrel)) he'

/-- What names a new fact: nothing. -/
theorem Amends.not_targeted (h : resolve events = .ok effective) (ha : Amends events effective new) {n : Event}
    (hn : n ∈ new) : targeted (events ++ new) n.id = false := by
  rw [Bool.eq_false_iff, Ne, targeted_iff]
  rintro ⟨c, hc, htarget⟩
  obtain ⟨e, he, hid⟩ : ∃ e ∈ events, e.id = n.id := by
    rcases List.mem_append.mp hc with hc | hc
    · exact (resolvable_of_ok h).held c hc n.id htarget
    · obtain ⟨e, he, hid⟩ := ha.corrects c hc
      rw [htarget] at hid
      exact ⟨e, ((mem_effective h).mp he).1, (Option.some.inj hid).symm⟩
  have hnodup := ha.fresh
  rw [List.map_append, List.nodup_append'] at hnodup
  exact hnodup.2.2 (List.mem_map_of_mem he) (hid ▸ List.mem_map_of_mem hn)

/-- The amended journal resolves: the targets of the new facts leave the effective list, and the new facts that
    are no reversals enter it. -/
theorem Amends.resolve_ok (h : resolve events = .ok effective) (ha : Amends events effective new) {journal : List Event}
    (hp : journal.Perm (events ++ new)) :
    ∃ effective', resolve journal = .ok effective' ∧
      effective'.Perm (effective.filter (fun e => !targeted new e.id) ++ new.filter fun n => !n.relation.isReversal) := by
  obtain ⟨effective', h'⟩ := exists_resolve ((ha.resolvable h).perm hp.symm)
  refine ⟨effective', h', (effective_perm h').trans ?_⟩
  have htargeted : ∀ id, targeted journal id = targeted (events ++ new) id := fun id => by
    rw [Bool.eq_iff_iff, targeted_iff, targeted_iff]
    simp only [hp.mem_iff]
  have hold : (events.filter (standing journal)).Perm (effective.filter fun e => !targeted new e.id) := by
    refine List.Perm.trans (.of_eq ?_) ((effective_perm h).filter _).symm
    rw [List.filter_filter]
    refine List.filter_congr fun e _ => ?_
    have happend : targeted (events ++ new) e.id = (targeted events e.id || targeted new e.id) := by simp [targeted]
    unfold standing
    rw [htargeted, happend]
    cases targeted events e.id <;> cases targeted new e.id <;> simp
  have hnew : new.filter (standing journal) = new.filter fun n => !n.relation.isReversal :=
    List.filter_congr fun n hn => by
      unfold standing
      rw [htargeted, ha.not_targeted h hn]
      rfl
  refine (hp.filter _).trans ?_
  rw [List.filter_append, hnew]
  exact hold.append_right _

end

end Amendments
end Iaam
