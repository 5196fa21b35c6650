import Iaam.Lib.Outcome
import Mathlib.Algebra.BigOperators.Group.List.Basic
import Mathlib.Data.List.Perm.Basic

/-! Runs of a system that takes one input after another, and the rules to reason about them: what every
step keeps, a run keeps, and a fallible fold is a run, as are the calls that succeed where the others change nothing. -/

namespace Runs
variable {σ ι ε : Type}

/-- The steps `R` lead from one state to another over a list of inputs. -/
inductive Run (R : σ → ι → σ → Prop) : σ → List ι → σ → Prop
  | nil (s : σ) : Run R s [] s
  | cons {s t u : σ} {i : ι} {is : List ι} : R s i t → Run R t is u → Run R s (i :: is) u

variable {R : σ → ι → σ → Prop} {s t u : σ} {is js : List ι}

/-- The invariant rule: a property that every step keeps holds after every run from a state with it. -/
theorem Run.keeps {P : σ → Prop} (hstep : ∀ {s i t}, P s → R s i t → P t) (h : Run R s is t) (hs : P s) : P t := by
  induction h with
  | nil s => exact hs
  | cons hr _ ih => exact ih (hstep hs hr)

/-- A run seen through a function of its states, when each step is seen as a step. -/
theorem Run.map {τ : Type} {R' : τ → ι → τ → Prop} (f : σ → τ)
    (hstep : ∀ {s i t}, i ∈ is → R s i t → R' (f s) i (f t)) (h : Run R s is t) : Run R' (f s) is (f t) := by
  induction h with
  | nil s => exact .nil _
  | cons hr _ ih => exact .cons (hstep List.mem_cons_self hr) (ih fun hi => hstep (List.mem_cons_of_mem _ hi))

/-- A run over inputs that stand for others. -/
theorem Run.inputs {κ : Type} {R' : σ → κ → σ → Prop} (g : ι → κ) (hstep : ∀ {s i t}, R s i t → R' s (g i) t)
    (h : Run R s is t) : Run R' s (is.map g) t := by
  induction h with
  | nil s => exact .nil s
  | cons hr _ ih => exact .cons (hstep hr) ih

theorem Run.trans (h₁ : Run R s is t) (h₂ : Run R t js u) : Run R s (is ++ js) u := by
  induction h₁ with
  | nil s => exact h₂
  | cons hr _ ih => exact .cons hr (ih h₂)

/-- A run over two lists of inputs is one over the first and one over the second. -/
theorem Run.split (h : Run R s (is ++ js) u) : ∃ t, Run R s is t ∧ Run R t js u := by
  induction is generalizing s with
  | nil => exact ⟨s, .nil s, h⟩
  | cons i is ih =>
    rcases h with _ | ⟨hr, h⟩
    obtain ⟨t, hfirst, hsecond⟩ := ih h
    exact ⟨t, .cons hr hfirst, hsecond⟩

/-- Every input of a run was taken by some step. -/
theorem Run.exists_step (h : Run R s is t) {i : ι} (hi : i ∈ is) : ∃ u v, R u i v := by
  induction h with
  | nil s => cases hi
  | cons hr _ ih =>
    rcases List.mem_cons.mp hi with rfl | hi
    · exact ⟨_, _, hr⟩
    · exact ih hi

/-- Every input of a run was taken between two states of it, as far as its steps lead forward. -/
theorem Run.exists_step_between {Forward : σ → σ → Prop} (hrefl : ∀ s, Forward s s)
    (htrans : ∀ {s t u}, Forward s t → Forward t u → Forward s u) (hstep : ∀ {s i t}, R s i t → Forward s t)
    (h : Run R s is t) {i : ι} (hi : i ∈ is) : Forward s t ∧ ∃ u v, Forward s u ∧ R u i v ∧ Forward v t := by
  have hforward : ∀ {s t is}, Run R s is t → Forward s t := fun h => h.keeps (fun hs hr => htrans hs (hstep hr)) (hrefl _)
  induction h with
  | nil s => cases hi
  | cons hr hrest ih =>
    refine ⟨htrans (hstep hr) (hforward hrest), ?_⟩
    rcases List.mem_cons.mp hi with rfl | hi
    · exact ⟨_, _, hrefl _, hr, hforward hrest⟩
    · obtain ⟨-, u, v, hsu, hr', hvt⟩ := ih hi
      exact ⟨u, v, htrans (hstep hr) hsu, hr', hvt⟩

/-- A quantity to which every step adds the share of its input grows by the sum of the shares. -/
theorem Run.adds {M : Type} [AddMonoid M] (g : σ → M) (share : ι → M)
    (hstep : ∀ {s i t}, i ∈ is → R s i t → g t = g s + share i) (h : Run R s is t) :
    g t = g s + (is.map share).sum := by
  induction h with
  | nil s => simp
  | cons hr _ ih =>
    rw [ih fun hi => hstep (List.mem_cons_of_mem _ hi), hstep List.mem_cons_self hr, List.map_cons, List.sum_cons,
      add_assoc]

/-- A property that is never lost, and that a step establishes exactly at the marked inputs, holds after a run if
    it held before or an input was marked. -/
theorem Run.marks {P : σ → Prop} {marked : ι → Prop} (hstep : ∀ {s i t}, R s i t → (P t ↔ P s ∨ marked i))
    (h : Run R s is t) : P t ↔ P s ∨ ∃ i ∈ is, marked i := by
  induction h with
  | nil s => simp
  | cons hr _ ih =>
    rw [ih, hstep hr, List.exists_mem_cons_iff]
    exact or_assoc

/-- A part of the state that only the chosen inputs move makes a run of its own over them. -/
theorem Run.view {τ : Type} {R' : τ → ι → τ → Prop} (f : σ → τ) (p : ι → Bool)
    (hin : ∀ {s i t}, R s i t → p i = true → R' (f s) i (f t)) (hout : ∀ {s i t}, R s i t → p i = false → f t = f s)
    (h : Run R s is t) : Run R' (f s) (is.filter p) (f t) := by
  induction h with
  | nil s => exact .nil _
  | @cons s t u i is hr _ ih =>
    cases hp : p i with
    | true =>
      rw [List.filter_cons_of_pos hp]
      exact .cons (hin hr hp) ih
    | false =>
      rw [List.filter_cons_of_neg (by simp [hp]), ← hout hr hp]
      exact ih

/-- A fallible fold over a list is a run of its step. -/
theorem foldlM_ok {step : σ → ι → Except ε σ} :
    is.foldlM step s = .ok t ↔ Run (fun s i t => step s i = .ok t) s is t := by
  induction is generalizing s with
  | nil =>
    constructor
    · rintro ⟨⟩
      exact .nil _
    · rintro ⟨⟩
      rfl
  | cons i is ih =>
    rw [List.foldlM_cons, Outcome.bind_ok]
    constructor
    · rintro ⟨u, hu, h⟩
      exact .cons hu (ih.mp h)
    · rintro (_ | ⟨hu, h⟩)
      exact ⟨_, hu, ih.mpr h⟩

/-- Where a state is good by an invariant, and a step keeps the invariant if it is allowed and spoils the state if it is
    not, the good runs are those of allowed steps. -/
theorem forall_states_iff {step : σ → ι → σ} {Inv Good : σ → Prop} {Allowed : σ → ι → Prop} (hgood : ∀ s, Inv s → Good s)
    (hkeeps : ∀ s i, Inv s → Allowed s i → Inv (step s i)) (hspoils : ∀ s i, Inv s → ¬ Allowed s i → ¬ Good (step s i))
    (hs : Inv s) :
    (∀ n, Good ((is.take n).foldl step s)) ↔ ∀ n i, is[n]? = some i → Allowed ((is.take n).foldl step s) i := by
  induction is generalizing s with
  | nil => exact iff_of_true (fun n => by rw [List.take_nil]; exact hgood s hs) (fun n i hi => by cases hi)
  | cons j is ih =>
    constructor
    · intro h
      have hallowed : Allowed s j := Classical.byContradiction fun hnot => hspoils s j hs hnot (h 1)
      intro n i hi
      cases n with
      | zero =>
        cases hi
        exact hallowed
      | succ n => exact (ih (hkeeps s j hs hallowed)).mp (fun n => h (n + 1)) n i hi
    · intro h n
      cases n with
      | zero => exact hgood s hs
      | succ n => exact (ih (hkeeps s j hs (h 0 j rfl))).mpr (fun n i hi => h (n + 1) i hi) n

/-- A fold over the inputs of each element in turn is a fold over all of them. -/
theorem foldlM_flatMap {ι' : Type} {step : σ → ι → Except ε σ} (f : ι' → List ι) (l : List ι') (s : σ) :
    (l.flatMap f).foldlM step s = l.foldlM (fun s i => (f i).foldlM step s) s := by
  induction l generalizing s with
  | nil => rfl
  | cons i l ih =>
    rw [List.flatMap_cons, List.foldlM_append, List.foldlM_cons]
    exact bind_congr ih

/-- Inputs that leave every state alone can be left out. -/
theorem foldlM_filter {step : σ → ι → Except ε σ} (p : ι → Bool) (h : ∀ s, ∀ i ∈ is, p i = false → step s i = .ok s)
    (s : σ) : is.foldlM step s = (is.filter p).foldlM step s := by
  induction is generalizing s with
  | nil => rfl
  | cons i is ih =>
    obtain ⟨hrest, hhead⟩ : (∀ s, ∀ j ∈ is, p j = false → step s j = .ok s) ∧ (p i = false → ∀ s, step s i = .ok s) :=
      ⟨fun s j hj => h s j (List.mem_cons_of_mem _ hj), fun hp s => h s i List.mem_cons_self hp⟩
    cases hp : p i with
    | true =>
      rw [List.filter_cons_of_pos hp, List.foldlM_cons, List.foldlM_cons]
      exact congrArg (step s i >>= ·) (funext fun t => ih hrest t)
    | false =>
      rw [List.filter_cons_of_neg (by rw [hp]; exact Bool.false_ne_true), List.foldlM_cons, hhead hp s]
      exact ih hrest s

/-- Steps that agree on the inputs fold alike. -/
theorem foldlM_congr {step step' : σ → ι → Except ε σ} (h : ∀ s, ∀ i ∈ is, step s i = step' s i) (s : σ) :
    is.foldlM step s = is.foldlM step' s := by
  induction is generalizing s with
  | nil => rfl
  | cons i is ih =>
    rw [List.foldlM_cons, List.foldlM_cons, h s i List.mem_cons_self]
    exact bind_congr fun t => ih (fun s i hi => h s i (List.mem_cons_of_mem _ hi)) t

/-- A fold whose steps are refused only where a running sum leaves a range succeeds exactly when no running sum does. -/
theorem exists_foldlM_iff {κ M : Type} [AddMonoid M] {step : σ → ι → Except ε σ} (sum : σ → κ → M) (share : ι → κ → M)
    (InRange : M → Prop) (hstart : ∀ s k, InRange (sum s k))
    (hadds : ∀ {s i t}, step s i = .ok t → ∀ k, sum t k = sum s k + share i k)
    (htotal : ∀ {s i}, (∀ k, InRange (sum s k + share i k)) → ∃ t, step s i = .ok t) :
    (∃ t, is.foldlM step s = .ok t) ↔ ∀ k n, InRange (sum s k + ((is.take n).map fun i => share i k).sum) := by
  induction is generalizing s with
  | nil =>
    refine iff_of_true ⟨s, rfl⟩ fun k n => ?_
    rw [List.take_nil, List.map_nil, List.sum_nil, add_zero]
    exact hstart s k
  | cons i is ih =>
    constructor
    · rintro ⟨t, h⟩ k n
      obtain ⟨u, hu, h⟩ := Outcome.bind_ok.mp h
      cases n with
      | zero =>
        rw [List.take_zero, List.map_nil, List.sum_nil, add_zero]
        exact hstart s k
      | succ n =>
        have hrest := ih.mp ⟨t, h⟩ k n
        rw [hadds hu, add_assoc] at hrest
        exact hrest
    · intro h
      obtain ⟨u, hu⟩ := htotal (s := s) (i := i) fun k => by simpa using h k 1
      obtain ⟨t, ht⟩ := ih.mpr fun k n => by
        have hn := h k (n + 1)
        rw [hadds hu, add_assoc]
        exact hn
      exact ⟨t, Outcome.bind_ok.mpr ⟨u, hu, ht⟩⟩

/-- A fold that fails fails at one of its inputs. -/
theorem foldlM_error {step : σ → ι → Except ε σ} {e : ε} (h : is.foldlM step s = .error e) :
    ∃ i ∈ is, ∃ t, step t i = .error e := by
  induction is generalizing s with
  | nil => cases h
  | cons i is ih =>
    rw [List.foldlM_cons] at h
    cases hstep : step s i with
    | error e' =>
      rw [hstep] at h
      cases h
      exact ⟨i, List.mem_cons_self, s, hstep⟩
    | ok t =>
      rw [hstep] at h
      obtain ⟨j, hj, u, hu⟩ := ih h
      exact ⟨j, List.mem_cons_of_mem _ hj, u, hu⟩

/-- A map that can fail succeeds exactly when it does so at each input. -/
theorem mapM_ok {ο : Type} {f : ι → Except ε ο} {os : List ο} :
    is.mapM f = .ok os ↔ List.Forall₂ (fun i o => f i = .ok o) is os := by
  induction is generalizing os with
  | nil =>
    rw [List.forall₂_nil_left_iff, List.mapM_nil]
    exact ⟨fun h => (Except.ok.inj h).symm, fun h => h ▸ rfl⟩
  | cons i is ih =>
    rw [List.mapM_cons, Outcome.bind_ok, List.forall₂_cons_left_iff]
    constructor
    · rintro ⟨o, ho, h⟩
      obtain ⟨os', hos, h⟩ := Outcome.bind_ok.mp h
      cases h
      exact ⟨o, os', ho, ih.mp hos, rfl⟩
    · rintro ⟨o, os', ho, hos, rfl⟩
      exact ⟨o, ho, Outcome.bind_ok.mpr ⟨os', ih.mpr hos, rfl⟩⟩

/-- A map that fails fails at one of its inputs. -/
theorem mapM_error {ο : Type} {f : ι → Except ε ο} {e : ε} (h : is.mapM f = .error e) : ∃ i ∈ is, f i = .error e := by
  induction is with
  | nil => cases h
  | cons i is ih =>
    rw [List.mapM_cons] at h
    rcases Outcome.bind_error.mp h with h | ⟨o, -, h⟩
    · exact ⟨i, List.mem_cons_self, h⟩
    rcases Outcome.bind_error.mp h with h | ⟨os, -, h⟩
    · obtain ⟨j, hj, hf⟩ := ih h
      exact ⟨j, List.mem_cons_of_mem _ hj, hf⟩
    · cases h

/-- What is related to an element of one of two lists related one by one. -/
theorem exists_right {ο : Type} {P : ι → ο → Prop} {os : List ο} (h : List.Forall₂ P is os) {i : ι} (hi : i ∈ is) :
    ∃ o ∈ os, P i o := by
  induction h with
  | nil => cases hi
  | cons hf _ ih =>
    rcases List.mem_cons.mp hi with rfl | hi
    · exact ⟨_, List.mem_cons_self, hf⟩
    · obtain ⟨o, ho, hf⟩ := ih hi
      exact ⟨o, List.mem_cons_of_mem _ ho, hf⟩

theorem exists_left {ο : Type} {P : ι → ο → Prop} {os : List ο} (h : List.Forall₂ P is os) {o : ο} (ho : o ∈ os) :
    ∃ i ∈ is, P i o := exists_right h.flip ho

/-- What related elements agree on is the same list of both. -/
theorem map_eq_of_forall₂ {ο γ : Type} {f : ι → γ} {g : ο → γ} {os : List ο}
    (h : List.Forall₂ (fun i o => f i = g o) is os) : is.map f = os.map g := by
  rw [← List.forall₂_eq_eq_eq, List.forall₂_map_left_iff, List.forall₂_map_right_iff]
  exact h

theorem mem_of_mapM {ο : Type} {f : ι → Except ε ο} {os : List ο} (h : is.mapM f = .ok os) {i : ι} (hi : i ∈ is) :
    ∃ o ∈ os, f i = .ok o := exists_right (mapM_ok.mp h) hi

/-- The inputs of a map in another order give the outputs in another order. -/
theorem mapM_perm {ο : Type} {f : ι → Except ε ο} {os : List ο} (hp : is.Perm js) (h : is.mapM f = .ok os) :
    ∃ os', js.mapM f = .ok os' ∧ os'.Perm os := by
  obtain ⟨os', hos, hperm⟩ := List.perm_comp_forall₂ hp.symm (mapM_ok.mp h)
  exact ⟨os', mapM_ok.mpr hos, hperm⟩

/-- A traversal that fails fails at one of its inputs. -/
theorem forM_error {visit : ι → Except ε Unit} {e : ε} (h : is.forM visit = .error e) :
    ∃ i ∈ is, visit i = .error e := by
  induction is with
  | nil => cases h
  | cons i is ih =>
    rcases Outcome.bind_error.mp h with h | ⟨_, -, h⟩
    · exact ⟨i, List.mem_cons_self, h⟩
    · obtain ⟨j, hj, hvisit⟩ := ih h
      exact ⟨j, List.mem_cons_of_mem _ hj, hvisit⟩

/-! ### What a fold writes -/

section
variable {ν : Type} (get : σ → Option ν) {step : σ → ι → σ} {one : ι → Option ν} {v : ν}

/-- What is read off a fold was there at its start, or was written by an input. -/
theorem exists_of_foldl_or (hstep : ∀ s i, get (step s i) = (one i).or (get s)) (h : get (is.foldl step s) = some v) :
    get s = some v ∨ ∃ i ∈ is, one i = some v := by
  induction is generalizing s with
  | nil => exact .inl h
  | cons i is ih =>
    rcases ih h with h | ⟨j, hj, hv⟩
    · rw [hstep] at h
      rcases Option.or_eq_some_iff.mp h with hv | ⟨-, hs⟩
      · exact .inr ⟨i, List.mem_cons_self, hv⟩
      · exact .inl hs
    · exact .inr ⟨j, List.mem_cons_of_mem _ hj, hv⟩

/-- Inputs that write the same leave it written. -/
theorem foldl_or_of_same (hstep : ∀ s i, get (step s i) = (one i).or (get s)) (hsame : ∀ i ∈ is, ∀ w, one i = some w → w = v)
    (h : get s = some v ∨ ∃ i ∈ is, one i = some v) : get (is.foldl step s) = some v := by
  induction is generalizing s with
  | nil =>
    rcases h with h | ⟨i, hi, -⟩
    · exact h
    · cases hi
  | cons i is ih =>
    refine ih (fun j hj => hsame j (List.mem_cons_of_mem _ hj)) ?_
    rw [hstep]
    cases hone : one i with
    | some w =>
      rw [hsame i List.mem_cons_self w hone]
      exact .inl rfl
    | none =>
      rcases h with h | ⟨j, hj, hv⟩
      · exact .inl h
      · rcases List.mem_cons.mp hj with rfl | hj
        · rw [hone] at hv
          cases hv
        · exact .inr ⟨j, hj, hv⟩

/-- What a fold from nothing writes, when no two inputs write differently. -/
theorem foldl_or_iff (hstep : ∀ s i, get (step s i) = (one i).or (get s)) (hs : get s = none)
    (hone : ∀ i ∈ is, ∀ j ∈ is, ∀ u w, one i = some u → one j = some w → u = w) :
    get (is.foldl step s) = some v ↔ ∃ i ∈ is, one i = some v := by
  constructor
  · intro h
    refine (exists_of_foldl_or get hstep h).resolve_left fun h => ?_
    rw [hs] at h
    cases h
  · rintro ⟨i, hi, hv⟩
    exact foldl_or_of_same get hstep (fun j hj w hw => hone j hj i hi w v hw hv) (.inr ⟨i, hi, hv⟩)

end

/-! ### Calls that may fail -/

section Calls
open Outcome
variable {call : ι → Mut σ ε Unit}

/-- The calls of a sequence that are accepted. -/
def acceptedCalls (call : ι → Mut σ ε Unit) : List ι → σ → List ι
  | [], _ => []
  | i :: is, s =>
    match call i s with
    | (.ok _, t) => i :: acceptedCalls call is t
    | (.error _, t) => acceptedCalls call is t

/-- Where a failing call leaves the state alone, the accepted calls lead where all of them do. -/
theorem run_acceptedCalls (hfail : ∀ i s e t, call i s = (.error e, t) → t = s) (is : List ι) (s : σ) :
    Run (fun s i t => call i s = (.ok (), t)) s (acceptedCalls call is s)
      (is.foldl (fun s i => (call i s).2) s) := by
  induction is generalizing s with
  | nil => exact .nil s
  | cons i is ih =>
    rw [acceptedCalls, List.foldl_cons]
    rcases h : call i s with ⟨e | _, t⟩
    · obtain rfl := hfail i s e t h
      exact ih t
    · exact .cons h (ih t)

end Calls

end Runs
