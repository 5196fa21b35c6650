import Mathlib.Data.List.Basic
import Mathlib.Order.Nat

/-! How many events fall into any window of time, when each was let through on what the records of the earlier ones said.
A record may be later than its event, and it may be given up once the event is old enough. Histories and records stand
newest first. -/

namespace Sliding

/-- The records of a history at a time. Every event has a record that is no earlier, or lies a whole `keep` back. Records
    with no event behind them only count against what may follow. -/
inductive Recorded (keep time : Nat) : List Nat → List Nat → Prop
  | nil (rs : List Nat) : Recorded keep time [] rs
  | record {d r : Nat} {ds rs : List Nat} : d ≤ r → Recorded keep time ds rs → Recorded keep time (d :: ds) (r :: rs)
  | gone {d : Nat} {ds rs : List Nat} : d + keep ≤ time → Recorded keep time ds rs → Recorded keep time (d :: ds) rs

/-- Of any `limit + 1` events in a row, the last is at least a window after the first. -/
def Spread (limit window : Nat) (ds : List Nat) : Prop :=
  ∀ i d e, ds[i]? = some d → ds[i + limit]? = some e → e + window ≤ d

variable {keep time time' : Nat} {ds rs rs' : List Nat}

/-! ### What happens to the records -/

theorem Recorded.later (htime : time ≤ time') (h : Recorded keep time ds rs) : Recorded keep time' ds rs := by
  induction h with
  | nil rs => exact .nil rs
  | record hle _ ih => exact .record hle ih
  | gone hold _ ih => exact .gone (hold.trans htime) ih

theorem Recorded.of_gone (h : ∀ d ∈ ds, d + keep ≤ time) : Recorded keep time ds rs := by
  induction ds with
  | nil => exact .nil rs
  | cons d ds ih => exact .gone (h d List.mem_cons_self) (ih fun e he => h e (List.mem_cons_of_mem _ he))

/-- Records that are no earlier than any event serve as well as others. -/
theorem Recorded.replaced (h : Recorded keep time ds rs) (hlength : rs'.length = rs.length)
    (hlate : ∀ d ∈ ds, ∀ r ∈ rs', d ≤ r) : Recorded keep time ds rs' := by
  induction h generalizing rs' with
  | nil => exact .nil rs'
  | record _ _ ih =>
    rcases rs' with _ | ⟨r', rs'⟩
    · cases hlength
    · exact .record (hlate _ List.mem_cons_self _ List.mem_cons_self) (ih (Nat.succ.inj hlength) fun d hd r hr =>
        hlate d (List.mem_cons_of_mem _ hd) r (List.mem_cons_of_mem _ hr))
  | gone hold _ ih => exact .gone hold (ih hlength fun d hd => hlate d (List.mem_cons_of_mem _ hd))

/-- Records that are old enough may be given up. -/
theorem Recorded.pruned (h : Recorded keep time ds rs) {p : Nat → Bool} (hold : ∀ r ∈ rs, p r = false → r + keep ≤ time) :
    Recorded keep time ds (rs.filter p) := by
  induction h with
  | nil => exact .nil _
  | @record d r ds rs hle _ ih =>
    have ih := ih fun r hr => hold r (List.mem_cons_of_mem _ hr)
    cases hp : p r with
    | true =>
      rw [List.filter_cons_of_pos hp]
      exact .record hle ih
    | false =>
      rw [List.filter_cons_of_neg (by simp [hp])]
      exact .gone ((Nat.add_le_add_right hle keep).trans (hold r List.mem_cons_self hp)) ih
  | gone hgone _ ih => exact .gone hgone (ih hold)

/-- Once the record at some place lies a window back, or there is none there, so does the event at that place. -/
theorem Recorded.nth (h : Recorded keep time ds rs) (hsorted : ds.Pairwise fun d e => e ≤ d) {window n : Nat}
    (hwindow : window ≤ keep) (hfree : ∀ r, rs[n]? = some r → r + window ≤ time) :
    ∀ d, ds[n]? = some d → d + window ≤ time := by
  induction h generalizing n with
  | nil => intro d hd; simp at hd
  | record hle _ ih =>
    intro d hd
    rcases n with _ | n
    · simp only [List.getElem?_cons_zero, Option.some.injEq] at hd hfree
      have := hfree _ rfl
      omega
    · simp only [List.getElem?_cons_succ] at hd hfree
      exact ih hsorted.of_cons hfree d hd
  | @gone d' ds rs hgone _ ih =>
    intro d hd
    have hle : d ≤ d' := by
      rcases List.mem_cons.mp (List.mem_of_getElem? hd) with rfl | hmem
      · exact le_rfl
      · exact List.rel_of_pairwise_cons hsorted hmem
    omega

/-! ### Windows -/

theorem Spread.tail {limit window d : Nat} (h : Spread limit window (d :: ds)) : Spread limit window ds := by
  intro i e f he hf
  exact h (i + 1) e f he (by rw [Nat.add_right_comm]; exact hf)

/-- An event may follow once the `limit`-th before it lies a window back. -/
theorem Spread.cons {limit window d : Nat} (h : Spread limit window ds) (hlimit : 0 < limit)
    (hfree : ∀ e, ds[limit - 1]? = some e → e + window ≤ d) : Spread limit window (d :: ds) := by
  intro i e f he hf
  rcases i with _ | i
  · obtain ⟨n, rfl⟩ := Nat.exists_eq_succ_of_ne_zero hlimit.ne'
    simp only [List.getElem?_cons_zero, Option.some.injEq] at he
    subst he
    refine hfree f ?_
    rw [Nat.zero_add, List.getElem?_cons_succ] at hf
    exact hf
  · rw [Nat.add_right_comm, List.getElem?_cons_succ] at hf
    exact h i e f he hf

/-- No window holds more than `limit` events. -/
theorem Spread.count_le {limit window : Nat} (h : Spread limit window ds) (hlimit : 0 < limit)
    (hsorted : ds.Pairwise fun d e => e ≤ d) (start : Nat) :
    (ds.countP fun d => start ≤ d ∧ d < start + window) ≤ limit := by
  induction ds with
  | nil => exact Nat.zero_le _
  | cons d ds ih =>
    have ih := ih h.tail hsorted.of_cons
    by_cases hd : start ≤ d ∧ d < start + window
    · have hlast : ((ds.drop (limit - 1)).countP fun d => start ≤ d ∧ d < start + window) = 0 := by
        refine List.countP_eq_zero.mpr fun e he => ?_
        rw [decide_eq_true_eq]
        rintro ⟨hstart, -⟩
        obtain ⟨f, hf⟩ : ∃ f, ds[limit - 1]? = some f := by
          have hlt : limit - 1 < ds.length := Nat.lt_of_not_le fun hle => by
            rw [List.drop_of_length_le hle] at he
            cases he
          exact ⟨_, List.getElem?_eq_getElem hlt⟩
        have hspread := h 0 d f rfl (by
          rw [Nat.zero_add, ← Nat.sub_add_cancel hlimit, List.getElem?_cons_succ]
          exact hf)
        have hle : e ≤ f := by
          have hdrop : ds.drop (limit - 1) = f :: ds.drop (limit - 1 + 1) := by
            obtain ⟨hlt, rfl⟩ := List.getElem?_eq_some_iff.mp hf
            exact List.drop_eq_getElem_cons hlt
          rw [hdrop] at he
          rcases List.mem_cons.mp he with rfl | he
          · exact le_rfl
          · have hpair := hsorted.of_cons.sublist (List.drop_sublist (limit - 1) ds)
            rw [hdrop] at hpair
            exact List.rel_of_pairwise_cons hpair he
        omega
      have hfirst := (ds.take (limit - 1)).countP_le_length (p := fun d => start ≤ d ∧ d < start + window)
      have htotal : (ds.countP fun d => start ≤ d ∧ d < start + window) =
          ((ds.take (limit - 1)).countP fun d => start ≤ d ∧ d < start + window) +
            (ds.drop (limit - 1)).countP fun d => start ≤ d ∧ d < start + window := by
        rw [← List.countP_append, List.take_append_drop]
      rw [List.countP_cons_of_pos (by simpa using hd), htotal, hlast]
      have hlength := List.length_take_le (limit - 1) ds
      omega
    · rw [List.countP_cons_of_neg (by simpa using hd)]
      exact ih

end Sliding
