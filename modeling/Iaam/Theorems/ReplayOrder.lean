import Iaam.Event.Correction

/-! The order of replay is the order of a key: day, source time with the unknown behind the known, raw hash
of a timed event, sequence, identifier. It is total, and it tells events of different identifiers apart. -/

namespace Iaam
namespace ReplayOrder

/-! ### Keys -/

/-- A known time, before the time that is not known. -/
def timeKey (t : Option Time) : Bool ×ₗ Time := toLex (t.isNone, t.getD ⟨0⟩)

/-- The hash counts between timed events only. -/
def hashKey (e : Event) : String := if e.order.sourceTime.isSome then e.provenance.rawHash else ""

def key (e : Event) : Date ×ₗ (Bool ×ₗ Time) ×ₗ String ×ₗ Nat ×ₗ EventId :=
  toLex (e.order.date, toLex (timeKey e.order.sourceTime, toLex (hashKey e, toLex (e.order.sequence, e.id))))

def orderKey (o : EffectiveOrder) : Date ×ₗ (Bool ×ₗ Time) ×ₗ Nat :=
  toLex (o.date, toLex (timeKey o.sourceTime, o.sequence))

theorem compare_toLex {α β : Type} [LinearOrder α] [LinearOrder β] (a a' : α) (b b' : β) :
    compare (toLex (a, b)) (toLex (a', b')) = (compare a a').then (compare b b') := rfl

theorem compareSourceTime_eq (s t : Option Time) : compareSourceTime s t = compare (timeKey s) (timeKey t) := by
  unfold timeKey
  rw [compare_toLex]
  cases s with
  | none =>
    cases t with
    | none => simp [compareSourceTime]
    | some t => rfl
  | some s =>
    cases t with
    | none => rfl
    | some t => simp [compareSourceTime]

theorem compareForReplay_eq (l r : Event) : compareForReplay l r = compare (key l) (key r) := by
  unfold compareForReplay key
  simp only [compare_toLex, compareSourceTime_eq]
  -- The hash is read only behind equal times: both events are timed, or neither is.
  by_cases ht : timeKey l.order.sourceTime = timeKey r.order.sourceTime
  · have hnone : l.order.sourceTime.isNone = r.order.sourceTime.isNone := congrArg (fun k => (ofLex k).1) ht
    unfold hashKey
    cases hl : l.order.sourceTime <;> cases hr : r.order.sourceTime <;> simp_all
  · have hne : compare (timeKey l.order.sourceTime) (timeKey r.order.sourceTime) ≠ .eq := fun h =>
      ht (compare_eq_iff_eq.mp h)
    cases hc : compare (timeKey l.order.sourceTime) (timeKey r.order.sourceTime) with
    | eq => exact absurd hc hne
    | lt => rfl
    | gt => rfl

theorem not_gt_iff_key_le (l r : Event) : compareForReplay l r ≠ .gt ↔ key l ≤ key r := by
  rw [compareForReplay_eq]
  exact compare_le_iff_le

theorem id_eq_of_key_eq {l r : Event} (h : key l = key r) : l.id = r.id :=
  congrArg (fun k => (ofLex (ofLex (ofLex (ofLex k).2).2).2).2) h

/-! ### Sorting -/

theorem sortForReplay_perm_self (l : List Event) : (sortForReplay l).Perm l :=
  List.perm_insertionSort _ l

theorem mem_sortForReplay {l : List Event} {e : Event} : e ∈ sortForReplay l ↔ e ∈ l :=
  (sortForReplay_perm_self l).mem_iff

theorem sortForReplay_sorted (l : List Event) : (sortForReplay l).Pairwise fun a b => key a ≤ key b := by
  have total : Std.Total fun a b : Event => compareForReplay a b ≠ .gt :=
    ⟨fun a b => by simp only [not_gt_iff_key_le]; exact le_total _ _⟩
  have trans : IsTrans Event fun a b => compareForReplay a b ≠ .gt :=
    ⟨fun a b c => by simp only [not_gt_iff_key_le]; exact le_trans⟩
  have hs := List.pairwise_insertionSort (fun a b : Event => compareForReplay a b ≠ .gt) l
  exact hs.imp fun h => (not_gt_iff_key_le _ _).mp h

/-- Events of distinct identifiers have one sorted arrangement. -/
theorem sortForReplay_eq_of_perm {l l' : List Event} (h : l.Perm l') (hids : (l.map Event.id).Nodup) :
    sortForReplay l = sortForReplay l' := by
  have hperm : (sortForReplay l).Perm (sortForReplay l') :=
    (sortForReplay_perm_self l).trans (h.trans (sortForReplay_perm_self l').symm)
  refine hperm.eq_of_pairwise (fun a b ha hb hab hba => ?_) (sortForReplay_sorted l) (sortForReplay_sorted l')
  have hid : a.id = b.id := id_eq_of_key_eq (le_antisymm hab hba)
  exact List.inj_on_of_nodup_map hids (mem_sortForReplay.mp ha) (h.mem_iff.mpr (mem_sortForReplay.mp hb)) hid

end ReplayOrder
end Iaam
