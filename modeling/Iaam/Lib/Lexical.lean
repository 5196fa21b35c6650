import Mathlib.Algebra.Order.BigOperators.Group.List
import Mathlib.Data.List.Infix
import Mathlib.Data.List.Lex
import Mathlib.Order.Monotone.Basic
import Mathlib.Tactic.Ring

/-! Texts in lexicographic order.

Parts of a fixed width are compared one after another. Parts of any width with an end mark above every character are
compared by their characters, but a text that goes on comes before one that ends: the order of such texts is that of the
parts exactly where neither begins the other. Numbers of a fixed number of digits are in the order of their digits, also
when the zeros at the end are left out. -/

namespace Lexical

section
variable {α : Type} [LinearOrder α] {a b x y : List α} {z : α}

theorem append_lt_append (h : a.length = b.length) : a ++ x < b ++ y ↔ a < b ∨ a = b ∧ x < y := by
  induction a generalizing b with
  | nil =>
    cases List.length_eq_zero_iff.mp h.symm
    simp
  | cons c a ih =>
    cases b with
    | nil => cases h
    | cons d b =>
      simp only [List.cons_append, List.cons_lt_cons_iff, ih (Nat.succ.inj h), List.cons.injEq]
      tauto

/-- A part that goes on where another ends comes before it, for the end mark is above what follows. -/
theorem ended_lt_ended (ha : ∀ c ∈ a, c < z) (hb : ∀ c ∈ b, c < z) :
    a ++ [z] < b ++ [z] ↔ (a < b ∧ ¬ a <+: b) ∨ (b <+: a ∧ a ≠ b) := by
  induction a generalizing b with
  | nil =>
    cases b with
    | nil => simp
    | cons d b =>
      have hd : d < z := hb d List.mem_cons_self
      simp [List.cons_lt_cons_iff, hd.not_gt, hd.ne']
  | cons c a ih =>
    have hc : c < z := ha c List.mem_cons_self
    cases b with
    | nil => simp [List.cons_lt_cons_iff, hc]
    | cons d b =>
      have hih := ih (fun e he => ha e (List.mem_cons_of_mem _ he)) fun e he => hb e (List.mem_cons_of_mem _ he)
      simp only [List.cons_append, List.cons_lt_cons_iff, hih, List.cons_prefix_cons, ne_eq, List.cons.injEq]
      rcases lt_trichotomy c d with hlt | rfl | hgt
      · simp [hlt, hlt.ne, hlt.ne']
      · simp
      · simp [hgt.not_gt, hgt.ne, hgt.ne']

/-- Characters in the order of what they stand for give texts in that order. -/
theorem map_lt_map {β : Type} [LinearOrder β] {f : β → α} {p : Set β} (hf : StrictMonoOn f p) {a b : List β}
    (ha : ∀ c ∈ a, c ∈ p) (hb : ∀ c ∈ b, c ∈ p) : a.map f < b.map f ↔ a < b := by
  induction a generalizing b with
  | nil => cases b <;> simp
  | cons c a ih =>
    cases b with
    | nil => simp
    | cons d b =>
      have hc := ha c List.mem_cons_self
      have hd := hb d List.mem_cons_self
      rw [List.map_cons, List.map_cons, List.cons_lt_cons_iff, List.cons_lt_cons_iff, hf.lt_iff_lt hc hd,
        hf.injOn.eq_iff hc hd, ih (fun e he => ha e (List.mem_cons_of_mem _ he)) fun e he => hb e (List.mem_cons_of_mem _ he)]

theorem map_prefix_map {β : Type} [LinearOrder β] {f : β → α} {p : Set β} (hf : StrictMonoOn f p) {a b : List β}
    (ha : ∀ c ∈ a, c ∈ p) (hb : ∀ c ∈ b, c ∈ p) : a.map f <+: b.map f ↔ a <+: b := by
  constructor
  · intro h
    obtain ⟨l, hl, heq⟩ := List.prefix_map_iff.mp h
    have hin : ∀ c ∈ l, c ∈ p := fun c hc => hb c (hl.subset hc)
    have hal : a = l := by
      refine le_antisymm (not_lt.mp fun hlt => ?_) (not_lt.mp fun hlt => ?_)
      · exact ((map_lt_map hf hin ha).mpr hlt).ne heq.symm
      · exact ((map_lt_map hf ha hin).mpr hlt).ne heq
    rwa [hal]
  · exact fun h => h.map f

end

/-- There are texts beside any given ones: longer ones. -/
theorem exists_fresh {α : Type} (c : α) (texts : List (List α)) :
    ∃ fresh : Nat → List α, Function.Injective fresh ∧ ∀ n, fresh n ∉ texts := by
  refine ⟨fun n => List.replicate ((texts.map List.length).sum + 1 + n) c, fun m n h => ?_, fun n hin => ?_⟩
  · have hlength := congrArg List.length h
    simpa using hlength
  · have hle := List.le_sum_of_mem (List.mem_map_of_mem (f := List.length) hin)
    rw [List.length_replicate] at hle
    omega

/-! ### Digits -/

/-- The digits of a number, the highest first. -/
def digits (base : Nat) : Nat → Nat → List Nat
  | 0, _ => []
  | width + 1, n => n / base ^ width :: digits base width (n % base ^ width)

/-- Without the zeros at the end. -/
def significant : List Nat → List Nat
  | [] => []
  | d :: ds => if d = 0 ∧ significant ds = [] then [] else d :: significant ds

section
variable {base width m n : Nat} {a b : List Nat}

@[simp] theorem length_digits (base width n : Nat) : (digits base width n).length = width := by
  induction width generalizing n with
  | zero => rfl
  | succ width ih => rw [digits, List.length_cons, ih]

theorem lt_of_mem_digits (h : n < base ^ width) {d : Nat} (hd : d ∈ digits base width n) : d < base := by
  induction width generalizing n with
  | zero => cases hd
  | succ width ih =>
    have hpos : 0 < base ^ width := Nat.pos_of_ne_zero fun h0 => by simp [pow_succ, h0] at h
    rcases List.mem_cons.mp hd with rfl | hd
    · rw [Nat.div_lt_iff_lt_mul hpos, mul_comm, ← pow_succ]
      exact h
    · exact ih (Nat.mod_lt _ hpos) hd

theorem lt_iff_div_mod (k : Nat) : m < n ↔ m / k < n / k ∨ m / k = n / k ∧ m % k < n % k := by
  have hm := Nat.div_add_mod m k
  have hn := Nat.div_add_mod n k
  constructor
  · intro h
    rcases (Nat.div_le_div_right (c := k) h.le).lt_or_eq with hlt | heq
    · exact .inl hlt
    · refine .inr ⟨heq, ?_⟩
      rw [heq] at hm
      omega
  · rintro (hlt | ⟨heq, hlt⟩)
    · exact Nat.lt_of_div_lt_div hlt
    · rw [heq] at hm
      omega

theorem digits_lt_digits (hm : m < base ^ width) (hn : n < base ^ width) :
    digits base width m < digits base width n ↔ m < n := by
  induction width generalizing m n with
  | zero =>
    rw [pow_zero, Nat.lt_one_iff] at hm hn
    simp [digits, hm, hn]
  | succ width ih =>
    have hpos : 0 < base ^ width := Nat.pos_of_ne_zero fun h0 => by simp [pow_succ, h0] at hm
    rw [digits, digits, List.cons_lt_cons_iff, ih (Nat.mod_lt _ hpos) (Nat.mod_lt _ hpos),
      lt_iff_div_mod (m := m) (n := n) (base ^ width)]

theorem digits_inj (hm : m < base ^ width) (hn : n < base ^ width) (h : digits base width m = digits base width n) :
    m = n := by
  refine le_antisymm (not_lt.mp fun hlt => ?_) (not_lt.mp fun hlt => ?_)
  · exact ((digits_lt_digits hn hm).mpr hlt).ne h.symm
  · exact ((digits_lt_digits hm hn).mpr hlt).ne h

theorem mem_significant {d : Nat} (hd : d ∈ significant a) : d ∈ a := by
  induction a with
  | nil => cases hd
  | cons c a ih =>
    simp only [significant] at hd
    split at hd
    · cases hd
    · rcases List.mem_cons.mp hd with rfl | hd
      · exact List.mem_cons_self
      · exact List.mem_cons_of_mem _ (ih hd)

/-- Zeros at the end say nothing about the order. -/
theorem significant_lt_significant (h : a.length = b.length) : significant a < significant b ↔ a < b := by
  induction a generalizing b with
  | nil =>
    cases List.length_eq_zero_iff.mp h.symm
    simp
  | cons c a ih =>
    cases b with
    | nil => cases h
    | cons d b =>
      have hih := ih (Nat.succ.inj h)
      rw [List.cons_lt_cons_iff, ← hih]
      simp only [significant]
      split
      · next hc =>
        rw [hc.1, hc.2]
        split
        · next hd => simp [hd.1, hd.2]
        · next hd =>
          have : 0 < d ∨ 0 = d ∧ [] < significant b := by
            rcases Nat.eq_zero_or_pos d with rfl | hpos
            · obtain ⟨e, rest, hrest⟩ := List.exists_cons_of_ne_nil fun hnil => hd ⟨rfl, hnil⟩
              exact .inr ⟨rfl, by rw [hrest]; exact List.nil_lt_cons _ _⟩
            · exact .inl hpos
          exact iff_of_true (List.nil_lt_cons _ _) this
      · split
        · next hc hd =>
          rw [hd.1, hd.2]
          simp
        · exact List.cons_lt_cons_iff

theorem significant_inj (h : a.length = b.length) (heq : significant a = significant b) : a = b := by
  refine le_antisymm (not_lt.mp fun hlt => ?_) (not_lt.mp fun hlt => ?_)
  · exact ((significant_lt_significant h.symm).mpr hlt).ne heq.symm
  · exact ((significant_lt_significant h).mpr hlt).ne heq

end

end Lexical
