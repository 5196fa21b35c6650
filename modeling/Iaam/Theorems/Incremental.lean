import Iaam.Projection.Project

/-! Advancing a snapshot against projecting the whole journal. Folding is a homomorphism over a split of the
effective list, so a snapshot is taken up rightly exactly when the split falls behind the events folded into
it. The digest of the prefix makes sure of that; but the split is found by the order of the events, and the
list is sorted by the order of replay, which reads more. -/

namespace Iaam
namespace Incremental
open Outcome

variable {H : Hashing} {ctx : ProjectionContext}

/-! ### Folding -/

/-- The state of an empty journal. -/
def start (ctx : ProjectionContext) : LedgerState := .new (.new ctx.lotRule)

theorem fold_ok {state : LedgerState} {applied effective : List Event} {p : Projection H}
    (h : fold H ctx state applied effective = .ok p) :
    effective.foldlM (applyEvent H ctx) state = .ok p.snapshot.state ∧
      p.snapshot.prefixDigest = H.prefixDigest (applied ++ effective) ∧
      p.snapshot.through = (applied ++ effective).getLast?.map Event.order ∧
      acceptSnapshot H ctx p.snapshot = .ok () := by
  unfold fold at h
  obtain ⟨state', hstate, h⟩ := bind_ok.mp h
  obtain ⟨report, -, h⟩ := bind_ok.mp h
  cases h
  refine ⟨hstate, rfl, rfl, ?_⟩
  simp [acceptSnapshot]

/-- Folding on from the state after a prefix is folding the whole. -/
theorem fold_append {applied effective : List Event} {state : LedgerState}
    (h : applied.foldlM (applyEvent H ctx) (start ctx) = .ok state) :
    fold H ctx state applied effective = fold H ctx (start ctx) [] (applied ++ effective) := by
  unfold fold
  rw [List.foldlM_append, h]
  rfl

theorem project_of_resolve {events effective : List Event} (h : resolve events = .ok effective) :
    project H ctx events = fold H ctx (start ctx) [] effective := by
  unfold project
  rw [h]
  rfl

theorem project_ok {events : List Event} {p : Projection H} (h : project H ctx events = .ok p) :
    ∃ effective, resolve events = .ok effective ∧ fold H ctx (start ctx) [] effective = .ok p := by
  unfold project at h
  obtain ⟨effective, hres, h⟩ := bind_ok.mp h
  exact ⟨effective, convert_ok.mp hres, h⟩

/-! ### Snapshots -/

/-- The snapshot stands for a list of events: folding them gives its state, and its digest is theirs. -/
def StandsFor (ctx : ProjectionContext) (s : Snapshot H) (applied : List Event) : Prop :=
  applied.foldlM (applyEvent H ctx) (start ctx) = .ok s.state ∧ s.prefixDigest = H.prefixDigest applied

/-- The snapshots of any sequence of projections and advances with one context. -/
inductive Reached (ctx : ProjectionContext) : Snapshot H → Prop
  | project {events : List Event} {p : Projection H} : project H ctx events = .ok p → Reached ctx p.snapshot
  | advance {s : Snapshot H} {search : (Event → Bool) → List Event → Nat} {events : List Event} {p : Projection H} :
      Reached ctx s → advance H search ctx s events = .ok p → Reached ctx p.snapshot

theorem advance_ok {search : (Event → Bool) → List Event → Nat} {s : Snapshot H} {events : List Event}
    {p : Projection H} (h : advance H search ctx s events = .ok p) :
    ∃ effective, resolve events = .ok effective ∧
      H.prefixDigest (effective.take (splitPoint search s.through effective)) = s.prefixDigest ∧
      fold H ctx s.state (effective.take (splitPoint search s.through effective))
        (effective.drop (splitPoint search s.through effective)) = .ok p := by
  unfold advance at h
  obtain ⟨-, -, h⟩ := bind_ok.mp h
  obtain ⟨effective, hres, h⟩ := bind_ok.mp h
  refine ⟨effective, convert_ok.mp hres, ?_⟩
  dsimp only at h
  split at h
  · cases h
  · next hd => exact ⟨not_not.mp hd, h⟩

/-- An advance that succeeds is the projection of the whole journal. -/
theorem advance_of_standsFor (hinj : Function.Injective H.prefixDigest)
    {search : (Event → Bool) → List Event → Nat} {s : Snapshot H} {applied events : List Event} {p : Projection H}
    (hs : StandsFor ctx s applied) (h : advance H search ctx s events = .ok p) :
    project H ctx events = .ok p := by
  obtain ⟨effective, hres, hdigest, hfold⟩ := advance_ok h
  have happlied : effective.take (splitPoint search s.through effective) = applied :=
    hinj (hdigest.trans hs.2)
  have hstate := hs.1
  rw [← happlied] at hstate
  rw [fold_append hstate, List.take_append_drop] at hfold
  rw [project_of_resolve hres, hfold]

theorem reached_standsFor (hinj : Function.Injective H.prefixDigest) {s : Snapshot H} (h : Reached ctx s) :
    ∃ applied, StandsFor ctx s applied := by
  have hproject : ∀ {events : List Event} {p : Projection H}, project H ctx events = .ok p →
      ∃ applied, StandsFor ctx p.snapshot applied := by
    intro events p hp
    obtain ⟨effective, -, hfold⟩ := project_ok hp
    exact ⟨effective, (fold_ok hfold).1, (fold_ok hfold).2.1⟩
  induction h with
  | project hp => exact hproject hp
  | advance _ hadv ih =>
    obtain ⟨applied, hs⟩ := ih
    exact hproject (advance_of_standsFor hinj hs hadv)

/-- Whatever the search finds, an advance that succeeds gives the projection of the whole journal. -/
theorem advance_sound (hinj : Function.Injective H.prefixDigest) {s : Snapshot H} (hs : Reached ctx s)
    {search : (Event → Bool) → List Event → Nat} {events : List Event} {p : Projection H}
    (h : advance H search ctx s events = .ok p) : project H ctx events = .ok p := by
  obtain ⟨applied, hstands⟩ := reached_standsFor hinj hs
  exact advance_of_standsFor hinj hstands h

/-! ### A journal of two deposits -/

/-- A deposit on a day. -/
def depositOn (id : EventId) (day : Date) : Event :=
  eventWith id ⟨1⟩ day 0 (.cashIn ⟨.new 500, .rub⟩) [.cash ⟨1⟩ ⟨.new 500, .rub⟩]

theorem project_first : ∃ p, project .transparent oneAccount [depositOn ⟨1⟩ ⟨0⟩] = .ok p :=
  exists_ok (by decide)

theorem advance_sound_next_day : ∃ s p, Reached (H := .transparent) oneAccount s ∧
    advance .transparent Search.partitionPoint oneAccount s [depositOn ⟨1⟩ ⟨0⟩, depositOn ⟨2⟩ ⟨1⟩] = .ok p ∧
    project .transparent oneAccount [depositOn ⟨1⟩ ⟨0⟩, depositOn ⟨2⟩ ⟨1⟩] = .ok p := by
  have hrun : (do
      let p ← project .transparent oneAccount [depositOn ⟨1⟩ ⟨0⟩]
      advance .transparent Search.partitionPoint oneAccount p.snapshot
        [depositOn ⟨1⟩ ⟨0⟩, depositOn ⟨2⟩ ⟨1⟩]).isOk = true := by decide
  obtain ⟨p', hrun⟩ := exists_ok hrun
  obtain ⟨p, hp, hadvance⟩ := bind_ok.mp hrun
  exact ⟨p.snapshot, p', .project hp, hadvance, advance_sound Function.injective_id (.project hp) hadvance⟩

/-! ### Where the split falls -/

/-- The orders split the list: the last event of the prefix has the greatest order in it, and what comes
    behind has a greater one. -/
def OrdersSplit (applied added : List Event) : Prop :=
  ∀ last, applied.getLast? = some last →
    (∀ e ∈ applied, e.order.le last.order = true) ∧ ∀ e ∈ added, e.order.le last.order = false

theorem advance_of_split {search : (Event → Bool) → List Event → Nat} {events events' applied added : List Event}
    {p : Projection H} (hE : resolve events = .ok applied) (hE' : resolve events' = .ok (applied ++ added))
    (hp : project H ctx events = .ok p) (hinj : Function.Injective H.prefixDigest) :
    advance H search ctx p.snapshot events' =
      if (applied ++ added).take (splitPoint search (applied.getLast?.map Event.order) (applied ++ added)) = applied
      then project H ctx events'
      else .error (.error (.prefixChanged (H.prefixDigest applied)
        (H.prefixDigest ((applied ++ added).take
          (splitPoint search (applied.getLast?.map Event.order) (applied ++ added)))))) := by
  rw [project_of_resolve hE] at hp
  obtain ⟨hstate, hdigest, hthrough, haccept⟩ := fold_ok hp
  rw [List.nil_append] at hdigest hthrough
  unfold advance
  rw [haccept, hE', hthrough, hdigest]
  -- What is left is the comparison of the digests, which decides on the prefixes themselves.
  change (if H.prefixDigest _ ≠ H.prefixDigest applied then _ else _) = _
  generalize hk : splitPoint search (applied.getLast?.map Event.order) (applied ++ added) = k
  by_cases htake : (applied ++ added).take k = applied
  · have hdrop : (applied ++ added).drop k = added := by
      have h := List.take_append_drop k (applied ++ added)
      rw [htake] at h
      exact List.append_cancel_left h
    rw [if_neg (not_not.mpr (congrArg H.prefixDigest htake)), if_pos htake, htake, hdrop, fold_append hstate,
      project_of_resolve hE']
  · rw [if_pos (fun h => htake (hinj h)), if_neg htake]

theorem take_of_ordersSplit {search : (Event → Bool) → List Event → Nat} (hsearch : Search.IsPartitionPoint search)
    {applied added : List Event} (h : OrdersSplit applied added) :
    (applied ++ added).take (splitPoint search (applied.getLast?.map Event.order) (applied ++ added)) = applied := by
  unfold splitPoint
  cases hl : applied.getLast? with
  | none =>
    rw [List.getLast?_eq_none_iff] at hl
    subst hl
    rfl
  | some last =>
    obtain ⟨hbefore, hafter⟩ := h last hl
    simp only [Option.map_some]
    rw [hsearch _ applied added hbefore hafter, List.take_left]

/-- A search that keeps its promise on a split list, and stops at once on any other. -/
noncomputable def hesitant (p : Event → Bool) (l : List Event) : Nat :=
  open Classical in
  if ∃ a b, l = a ++ b ∧ (∀ x ∈ a, p x = true) ∧ ∀ x ∈ b, p x = false then Search.partitionPoint p l else 0

theorem isPartitionPoint_hesitant : Search.IsPartitionPoint hesitant := by
  intro p a b ha hb
  unfold hesitant
  rw [if_pos ⟨a, b, rfl, ha, hb⟩]
  exact Search.isPartitionPoint_partitionPoint p a b ha hb

/-- Where the orders do not split the list, a search may put the split elsewhere. -/
theorem ordersSplit_of_take {applied added : List Event}
    (h : (applied ++ added).take (splitPoint hesitant (applied.getLast?.map Event.order) (applied ++ added)) = applied) :
    OrdersSplit applied added := by
  intro last hl
  have hne : applied ≠ [] := by
    rintro rfl
    cases hl
  rw [hl] at h
  simp only [splitPoint, Option.map_some] at h
  by_cases hsplit : ∃ a b, applied ++ added = a ++ b ∧ (∀ x ∈ a, x.order.le last.order = true) ∧
      ∀ x ∈ b, x.order.le last.order = false
  · obtain ⟨a, b, hab, ha, hb⟩ := hsplit
    rw [hab, isPartitionPoint_hesitant _ a b ha hb, List.take_left] at h
    subst h
    have hbs : added = b := List.append_cancel_left hab
    subst hbs
    exact ⟨ha, hb⟩
  · unfold hesitant at h
    rw [if_neg hsplit, List.take_zero] at h
    exact absurd h.symm hne

/-- Every search that keeps the promise of a partition point advances the snapshot to the projection of the
    longer journal exactly when the orders split its effective list. -/
theorem advance_complete_iff (hinj : Function.Injective H.prefixDigest) {events events' applied added : List Event}
    {p p' : Projection H} (hE : resolve events = .ok applied) (hE' : resolve events' = .ok (applied ++ added))
    (hp : project H ctx events = .ok p) (hp' : project H ctx events' = .ok p') :
    (∀ search, Search.IsPartitionPoint search → advance H search ctx p.snapshot events' = .ok p') ↔
      OrdersSplit applied added := by
  constructor
  · intro hall
    have h := hall hesitant isPartitionPoint_hesitant
    rw [advance_of_split hE hE' hp hinj] at h
    split at h
    · next htake => exact ordersSplit_of_take htake
    · cases h
  · intro hsplit search hsearch
    rw [advance_of_split hE hE' hp hinj, if_pos (take_of_ordersSplit hsearch hsplit), hp']

theorem advance_complete_next_day : ∃ p p',
    project .transparent oneAccount [depositOn ⟨1⟩ ⟨0⟩] = .ok p ∧
      project .transparent oneAccount [depositOn ⟨1⟩ ⟨0⟩, depositOn ⟨2⟩ ⟨1⟩] = .ok p' ∧
      ∀ search, Search.IsPartitionPoint search →
        advance .transparent search oneAccount p.snapshot [depositOn ⟨1⟩ ⟨0⟩, depositOn ⟨2⟩ ⟨1⟩] = .ok p' := by
  obtain ⟨p, hp⟩ := project_first
  obtain ⟨p', hp'⟩ : ∃ p', project .transparent oneAccount [depositOn ⟨1⟩ ⟨0⟩, depositOn ⟨2⟩ ⟨1⟩] = .ok p' :=
    exists_ok (by decide)
  have hE : resolve [depositOn ⟨1⟩ ⟨0⟩] = .ok [depositOn ⟨1⟩ ⟨0⟩] := by decide
  have hE' : resolve [depositOn ⟨1⟩ ⟨0⟩, depositOn ⟨2⟩ ⟨1⟩] =
      .ok ([depositOn ⟨1⟩ ⟨0⟩] ++ [depositOn ⟨2⟩ ⟨1⟩]) := by decide
  refine ⟨p, p', hp, hp', (advance_complete_iff Function.injective_id hE hE' hp hp').mpr ?_⟩
  rintro last ⟨⟩
  decide

/-- Two deposits of one day and one sequence number. The second comes behind the first in the order of
    replay, by its identifier, and both are within the order of the first. -/
theorem advance_refuses_tie :
    resolve [depositOn ⟨1⟩ ⟨0⟩] = .ok [depositOn ⟨1⟩ ⟨0⟩] ∧
      resolve [depositOn ⟨1⟩ ⟨0⟩, depositOn ⟨2⟩ ⟨0⟩] = .ok ([depositOn ⟨1⟩ ⟨0⟩] ++ [depositOn ⟨2⟩ ⟨0⟩]) ∧
      compareForReplay (depositOn ⟨1⟩ ⟨0⟩) (depositOn ⟨2⟩ ⟨0⟩) = .lt ∧
      ∃ p p', project .transparent oneAccount [depositOn ⟨1⟩ ⟨0⟩] = .ok p ∧
        project .transparent oneAccount [depositOn ⟨1⟩ ⟨0⟩, depositOn ⟨2⟩ ⟨0⟩] = .ok p' ∧
        ∀ search, Search.IsPartitionPoint search →
          advance .transparent search oneAccount p.snapshot [depositOn ⟨1⟩ ⟨0⟩, depositOn ⟨2⟩ ⟨0⟩] =
            .error (.error (.prefixChanged [depositOn ⟨1⟩ ⟨0⟩] [depositOn ⟨1⟩ ⟨0⟩, depositOn ⟨2⟩ ⟨0⟩])) := by
  have hE : resolve [depositOn ⟨1⟩ ⟨0⟩] = .ok [depositOn ⟨1⟩ ⟨0⟩] := by decide
  have hE' : resolve [depositOn ⟨1⟩ ⟨0⟩, depositOn ⟨2⟩ ⟨0⟩] =
      .ok ([depositOn ⟨1⟩ ⟨0⟩] ++ [depositOn ⟨2⟩ ⟨0⟩]) := by decide
  obtain ⟨p, hp⟩ := project_first
  obtain ⟨p', hp'⟩ : ∃ p', project .transparent oneAccount [depositOn ⟨1⟩ ⟨0⟩, depositOn ⟨2⟩ ⟨0⟩] = .ok p' :=
    exists_ok (by decide)
  refine ⟨hE, hE', by decide, p, p', hp, hp', fun search hsearch => ?_⟩
  have hpoint : splitPoint search (some (depositOn ⟨1⟩ ⟨0⟩).order) [depositOn ⟨1⟩ ⟨0⟩, depositOn ⟨2⟩ ⟨0⟩] = 2 :=
    hsearch _ [depositOn ⟨1⟩ ⟨0⟩, depositOn ⟨2⟩ ⟨0⟩] [] (by decide) (by simp)
  rw [advance_of_split hE hE' hp Function.injective_id]
  simp only [List.getLast?_singleton, Option.map_some, List.singleton_append, hpoint]
  rfl

end Incremental
end Iaam
