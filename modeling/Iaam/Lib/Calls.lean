import Iaam.Lib.Outcome
import Mathlib.Logic.Function.Basic

/-! Programs that call a store. Alone, a program is a computation on the store; beside others, any of them makes the next call.

What a program does beside others is stated against what the others may do meanwhile, its `Rely`: each of its own calls moves the
store as its `Guar` allows, and what it ends with is so from then on. One course of a program amid others is an `Amid`. -/

namespace Calls
open Outcome

/-- A program: it ends with a value, stops with an error, or makes a call and goes on with the answer. -/
inductive Program (Op : Type) (Ans : Op → Type) (ε α : Type) where
  | done (a : α)
  | stop (e : Fail ε)
  | call (op : Op) (next : Ans op → Program Op Ans ε α)

namespace Program
variable {Op : Type} {Ans : Op → Type} {ε α β : Type}

def andThen (p : Program Op Ans ε α) (f : α → Program Op Ans ε β) : Program Op Ans ε β :=
  match p with
  | done a => f a
  | stop e => stop e
  | call op next => call op fun answer => (next answer).andThen f

instance : Monad (Program Op Ans ε) where
  pure := done
  bind := andThen

/-- One call, for its answer. -/
def ask (op : Op) : Program Op Ans ε (Ans op) := call op done

/-- A computation by value, which calls nothing. -/
def ofResult : Result ε α → Program Op Ans ε α
  | .ok a => done a
  | .error e => stop e

/-- A fold over a list, with the place of each input. -/
def foldIdx {ι : Type} (step : Nat → ι → α → Program Op Ans ε α) : Nat → List ι → α → Program Op Ans ε α
  | _, [], a => done a
  | i, x :: xs, a => (step i x a).andThen fun a => foldIdx step (i + 1) xs a

/-- A program that makes one more call however it ends. -/
def releasing (op : Op) : Program Op Ans ε α → Program Op Ans ε α
  | done a => call op fun _ => done a
  | stop e => call op fun _ => stop e
  | call op' next => call op' fun answer => (next answer).releasing op

/-- What a program that has ended has ended with. -/
def ended : Program Op Ans ε α → Option α
  | done a => some a
  | _ => none

theorem ended_iff {p : Program Op Ans ε α} {a : α} : p.ended = some a ↔ p = done a := by
  unfold ended
  cases p with
  | done b => simp
  | stop e => exact ⟨fun h => (nomatch h), fun h => (nomatch h)⟩
  | call op next => exact ⟨fun h => (nomatch h), fun h => (nomatch h)⟩

/-- Every call of a program is allowed, whatever it is answered. -/
def Makes (allowed : Op → Prop) : Program Op Ans ε α → Prop
  | done _ => True
  | stop _ => True
  | call op next => allowed op ∧ ∀ answer, (next answer).Makes allowed

theorem Makes.bind {allowed : Op → Prop} {p : Program Op Ans ε α} {f : α → Program Op Ans ε β} (hp : p.Makes allowed)
    (hf : ∀ a, (f a).Makes allowed) : (p >>= f).Makes allowed := by
  induction p with
  | done a => exact hf a
  | stop e => trivial
  | call op next ih => exact ⟨hp.1, fun answer => ih answer (hp.2 answer)⟩

theorem Makes.mono {allowed allowed' : Op → Prop} (h : ∀ op, allowed op → allowed' op) {p : Program Op Ans ε α}
    (hp : p.Makes allowed) : p.Makes allowed' := by
  induction p with
  | done a => trivial
  | stop e => trivial
  | call op next ih => exact ⟨h op hp.1, fun answer => ih answer (hp.2 answer)⟩

theorem Makes.ofResult (allowed : Op → Prop) (x : Result ε α) :
    (ofResult x : Program Op Ans ε α).Makes allowed := by
  cases x <;> trivial

theorem Makes.foldIdx {allowed : Op → Prop} {ι : Type} {step : Nat → ι → α → Program Op Ans ε α}
    (hstep : ∀ i x a, (step i x a).Makes allowed) (i : Nat) (xs : List ι) (a : α) : (Program.foldIdx step i xs a).Makes allowed := by
  induction xs generalizing i a with
  | nil => trivial
  | cons x xs ih => exact (hstep i x a).bind fun a => ih (i + 1) a

theorem done_bind (a : α) (f : α → Program Op Ans ε β) : (done a >>= f) = f a := rfl

end Program

section
variable {Op : Type} {Ans : Op → Type} {ε α β σ ι : Type} (serve : (op : Op) → σ → Ans op × σ)

/-! ### Alone -/

/-- A program that nobody disturbs. -/
def run : Program Op Ans ε α → Mut σ ε α
  | .done a => fun s => (.ok a, s)
  | .stop e => fun s => (.error e, s)
  | .call op next => fun s => run (next (serve op s).1) (serve op s).2

/-- What its calls find and leave. -/
def course : Program Op Ans ε α → σ → List (σ × σ)
  | .done _ => fun _ => []
  | .stop _ => fun _ => []
  | .call op next => fun s => (s, (serve op s).2) :: course (next (serve op s).1) (serve op s).2

theorem run_bind (p : Program Op Ans ε α) (f : α → Program Op Ans ε β) (s : σ) :
    run serve (p >>= f) s = (run serve p >>= fun a => run serve (f a)) s := by
  induction p generalizing s with
  | done a => rfl
  | stop e => rfl
  | call op next ih => exact ih (serve op s).1 (serve op s).2

theorem run_bind_ok {p : Program Op Ans ε α} {f : α → Program Op Ans ε β} {s t : σ} {b : β} :
    run serve (p >>= f) s = (.ok b, t) ↔ ∃ a u, run serve p s = (.ok a, u) ∧ run serve (f a) u = (.ok b, t) := by
  rw [run_bind, Mut.bind_ok]

theorem run_ofResult_ok {x : Result ε α} {s t : σ} {a : α} :
    run serve (Program.ofResult x : Program Op Ans ε α) s = (.ok a, t) ↔ x = .ok a ∧ t = s := by
  cases x with
  | error e => exact ⟨fun h => (nomatch h), fun h => (nomatch h.1)⟩
  | ok b =>
    constructor
    · intro h
      cases h
      exact ⟨rfl, rfl⟩
    · rintro ⟨h, rfl⟩
      cases h
      rfl

/-! ### Beside each other -/

/-- A program makes its next call. -/
def advance : Program Op Ans ε α → σ → Program Op Ans ε α × σ
  | .done a, s => (.done a, s)
  | .stop e, s => (.stop e, s)
  | .call op next, s => (next (serve op s).1, (serve op s).2)

/-- A store, and the programs that call it. One that is never chosen again has failed where it stands. -/
structure Pool (Op : Type) (Ans : Op → Type) (ε α σ ι : Type) where
  store : σ
  programs : ι → Program Op Ans ε α

variable [DecidableEq ι]

def Pool.step (pool : Pool Op Ans ε α σ ι) (i : ι) : Pool Op Ans ε α σ ι :=
  let next := advance serve (pool.programs i) pool.store
  ⟨next.2, Function.update pool.programs i next.1⟩

/-- The programs in the order in which they are chosen. -/
def Pool.run (pool : Pool Op Ans ε α σ ι) (schedule : List ι) : Pool Op Ans ε α σ ι := schedule.foldl (Pool.step serve) pool

end

/-! ### What is relied on, and what is guaranteed -/

section
variable {Op : Type} {Ans : Op → Type} {ε α β σ ι : Type} (serve : (op : Op) → σ → Ans op × σ) (Inv : σ → Prop)

/-- What a program that begins at `s` does while the others move the store by `Rely`. -/
def Safe (Rely Guar : σ → σ → Prop) (Post : α → σ → Prop) : Program Op Ans ε α → σ → Prop
  | .done a, s => ∀ t, Inv t → Rely s t → Post a t
  | .stop _, _ => True
  | .call op next, s => ∀ t, Inv t → Rely s t →
      Inv (serve op t).2 ∧ Guar t (serve op t).2 ∧ Safe Rely Guar Post (next (serve op t).1) (serve op t).2

variable {serve Inv} {Rely Guar : σ → σ → Prop} {Post : α → σ → Prop} {Post' : β → σ → Prop} {s t : σ}

/-- What is relied on may have happened. -/
theorem Safe.mono (htrans : ∀ s t u, Rely s t → Rely t u → Rely s u) {p : Program Op Ans ε α}
    (h : Safe serve Inv Rely Guar Post p s) (hst : Rely s t) : Safe serve Inv Rely Guar Post p t := by
  cases p with
  | done a => exact fun u hu htu => h u hu (htrans _ _ _ hst htu)
  | stop e => trivial
  | call op next => exact fun u hu htu => h u hu (htrans _ _ _ hst htu)

/-- A program goes on from what its first part ends with. -/
theorem Safe.bind (hrefl : ∀ s, Rely s s) {p : Program Op Ans ε α} {f : α → Program Op Ans ε β} (hs : Inv s)
    (h : Safe serve Inv Rely Guar Post p s)
    (hf : ∀ a t, Inv t → Post a t → Safe serve Inv Rely Guar Post' (f a) t) :
    Safe serve Inv Rely Guar Post' (p >>= f) s := by
  induction p generalizing s with
  | done a => exact hf a s hs (h s hs (hrefl s))
  | stop e => trivial
  | call op next ih =>
    intro t ht hst
    obtain ⟨hinv, hguar, hrest⟩ := h t ht hst
    exact ⟨hinv, hguar, ih _ hinv hrest⟩

/-- What neither the program nor the others undo still holds at its end. -/
theorem Safe.frame {Kept : σ → Prop} (hrely : ∀ s t, Rely s t → Kept s → Kept t) (hguar : ∀ s t, Guar s t → Kept s → Kept t)
    {p : Program Op Ans ε α} (hs : Kept s) (h : Safe serve Inv Rely Guar Post p s) :
    Safe serve Inv Rely Guar (fun a t => Post a t ∧ Kept t) p s := by
  induction p generalizing s with
  | done a => exact fun t ht hst => ⟨h t ht hst, hrely s t hst hs⟩
  | stop e => trivial
  | call op next ih =>
    intro t ht hst
    obtain ⟨hinv, hguarantee, hrest⟩ := h t ht hst
    exact ⟨hinv, hguarantee, ih _ (hguar _ _ hguarantee (hrely s t hst hs)) hrest⟩

/-- Programs that each do what the others rely on are safe after every call. -/
theorem safe_step [DecidableEq ι] {Rely Guar : ι → σ → σ → Prop} {Post : ι → α → σ → Prop}
    (hrefl : ∀ i s, Rely i s s) (htrans : ∀ i s t u, Rely i s t → Rely i t u → Rely i s u)
    (hguar : ∀ i j, i ≠ j → ∀ s t, Inv s → Guar i s t → Rely j s t) {pool : Pool Op Ans ε α σ ι}
    (hinv : Inv pool.store) (hsafe : ∀ i, Safe serve Inv (Rely i) (Guar i) (Post i) (pool.programs i) pool.store) (i : ι) :
    Inv (pool.step serve i).store ∧
      ∀ j, Safe serve Inv (Rely j) (Guar j) (Post j) ((pool.step serve i).programs j) (pool.step serve i).store := by
  unfold Pool.step
  have hi := hsafe i
  cases hp : pool.programs i with
  | done a =>
    refine ⟨hinv, fun j => ?_⟩
    dsimp only [advance]
    rw [← hp, Function.update_eq_self]
    exact hsafe j
  | stop e =>
    refine ⟨hinv, fun j => ?_⟩
    dsimp only [advance]
    rw [← hp, Function.update_eq_self]
    exact hsafe j
  | call op next =>
    rw [hp] at hi
    obtain ⟨hinv', hguar', hrest⟩ := hi pool.store hinv (hrefl i pool.store)
    refine ⟨hinv', fun j => ?_⟩
    dsimp only [advance]
    by_cases hij : j = i
    · subst hij
      rw [Function.update_self]
      exact hrest
    · rw [Function.update_of_ne hij]
      exact (hsafe j).mono (htrans j) (hguar i j (Ne.symm hij) _ _ hinv hguar')

theorem safe_run [DecidableEq ι] {Rely Guar : ι → σ → σ → Prop} {Post : ι → α → σ → Prop}
    (hrefl : ∀ i s, Rely i s s) (htrans : ∀ i s t u, Rely i s t → Rely i t u → Rely i s u)
    (hguar : ∀ i j, i ≠ j → ∀ s t, Inv s → Guar i s t → Rely j s t) (schedule : List ι) {pool : Pool Op Ans ε α σ ι}
    (hinv : Inv pool.store) (hsafe : ∀ i, Safe serve Inv (Rely i) (Guar i) (Post i) (pool.programs i) pool.store) :
    Inv (pool.run serve schedule).store ∧
      ∀ i a, (pool.run serve schedule).programs i = .done a → Post i a (pool.run serve schedule).store := by
  induction schedule generalizing pool with
  | nil =>
    refine ⟨hinv, fun i a hdone => ?_⟩
    have hi := hsafe i
    rw [show pool.programs i = .done a from hdone] at hi
    exact hi pool.store hinv (hrefl i pool.store)
  | cons i schedule ih =>
    obtain ⟨hinv', hsafe'⟩ := safe_step hrefl htrans hguar hinv hsafe i
    exact ih hinv' hsafe'

end

/-! ### Amid others -/

section
variable {Op : Type} {Ans : Op → Type} {ε α β σ : Type}

/-- A course of a program amid others, who move the store as `Rely` allows before each of its calls and after the last one:
    what its own calls found and left, how it ends, and the store then. -/
inductive Amid (serve : (op : Op) → σ → Ans op × σ) (Rely : σ → σ → Prop) :
    Program Op Ans ε α → σ → List (σ × σ) → Result ε α → σ → Prop
  | done {a : α} {s t : σ} : Rely s t → Amid serve Rely (.done a) s [] (.ok a) t
  | stop {e : Fail ε} {s t : σ} : Rely s t → Amid serve Rely (.stop e) s [] (.error e) t
  | call {op : Op} {next : Ans op → Program Op Ans ε α} {s t u : σ} {own : List (σ × σ)} {r : Result ε α} : Rely s t →
      Amid serve Rely (next (serve op t).1) (serve op t).2 own r u →
      Amid serve Rely (.call op next) s ((t, (serve op t).2) :: own) r u

variable {serve : (op : Op) → σ → Ans op × σ} {Rely : σ → σ → Prop} {s t u : σ} {own : List (σ × σ)} {p : Program Op Ans ε α}
  {f : α → Program Op Ans ε β} {r : Result ε α}

theorem Amid.of_done {a : α} (h : Amid serve Rely (.done a) s own r t) : r = .ok a ∧ own = [] ∧ Rely s t := by
  cases h with
  | done hrely => exact ⟨rfl, rfl, hrely⟩

theorem Amid.of_stop {e : Fail ε} (h : Amid serve Rely (.stop e) s own r t) : r = .error e ∧ own = [] ∧ Rely s t := by
  cases h with
  | stop hrely => exact ⟨rfl, rfl, hrely⟩

/-- Amid others who do nothing. -/
theorem Amid.of_run (hrefl : ∀ s, Rely s s) (p : Program Op Ans ε α) (s : σ) :
    Amid serve Rely p s (course serve p s) (run serve p s).1 (run serve p s).2 := by
  induction p generalizing s with
  | done a => exact .done (hrefl s)
  | stop e => exact .stop (hrefl s)
  | call op next ih => exact .call (hrefl s) (ih _ _)

/-- Others who may do more. -/
theorem Amid.mono {Rely' : σ → σ → Prop} (hmono : ∀ s t, Rely s t → Rely' s t) (h : Amid serve Rely p s own r u) :
    Amid serve Rely' p s own r u := by
  induction h with
  | done hrely => exact .done (hmono _ _ hrely)
  | stop hrely => exact .stop (hmono _ _ hrely)
  | call hrely _ ih => exact .call (hmono _ _ hrely) ih

/-- What the others did before a course they may have done within it. -/
theorem Amid.since (htrans : ∀ s t u, Rely s t → Rely t u → Rely s u) (hst : Rely s t) (h : Amid serve Rely p t own r u) :
    Amid serve Rely p s own r u := by
  cases h with
  | done hrely => exact .done (htrans _ _ _ hst hrely)
  | stop hrely => exact .stop (htrans _ _ _ hst hrely)
  | call hrely hrest => exact .call (htrans _ _ _ hst hrely) hrest

/-- A program goes on from what its first part ends with, or stops with it. -/
theorem Amid.bind_cases (hrefl : ∀ s, Rely s s) {r : Result ε β} (h : Amid serve Rely (p >>= f) s own r u) :
    (∃ e, r = .error e ∧ Amid serve Rely p s own (.error e) u) ∨
      ∃ a first rest t, own = first ++ rest ∧ Amid serve Rely p s first (.ok a) t ∧ Amid serve Rely (f a) t rest r u := by
  induction p generalizing s own with
  | done a => exact .inr ⟨a, [], own, s, rfl, .done (hrefl s), h⟩
  | stop e =>
    cases h with
    | stop hrely => exact .inl ⟨e, rfl, .stop hrely⟩
  | call op next ih =>
    cases h with
    | call hrely h =>
      rcases ih _ h with ⟨e, rfl, hstop⟩ | ⟨a, first, rest, t', rfl, hfirst, hrest⟩
      · exact .inl ⟨e, rfl, .call hrely hstop⟩
      · exact .inr ⟨a, _ :: first, rest, t', rfl, .call hrely hfirst, hrest⟩

theorem Amid.bind_ok (hrefl : ∀ s, Rely s s) {b : β} (h : Amid serve Rely (p >>= f) s own (.ok b) u) :
    ∃ a first rest t, own = first ++ rest ∧ Amid serve Rely p s first (.ok a) t ∧ Amid serve Rely (f a) t rest (.ok b) u := by
  rcases h.bind_cases hrefl with ⟨e, he, -⟩ | h
  · cases he
  · exact h

theorem Amid.ask {op : Op} {r : Result ε (Ans op)} (h : Amid serve Rely (Program.ask op) s own r u) :
    ∃ t, Rely s t ∧ own = [(t, (serve op t).2)] ∧ r = .ok (serve op t).1 ∧ Rely (serve op t).2 u := by
  cases h with
  | @call _ _ _ t _ _ _ hrely h =>
    cases h with
    | done hlast => exact ⟨t, hrely, rfl, rfl, hlast⟩

theorem Amid.ofResult {x : Result ε α} (h : Amid serve Rely (Program.ofResult x) s own r u) :
    r = x ∧ own = [] ∧ Rely s u := by
  cases x with
  | error e =>
    cases h with
    | stop hrely => exact ⟨rfl, rfl, hrely⟩
  | ok a =>
    cases h with
    | done hrely => exact ⟨rfl, rfl, hrely⟩

/-- What every step of a fold does to its inputs, its calls and its value, the fold does: `P` speaks of the inputs taken, of the
    calls made, of the store and the value, and `Allowed` of each call. -/
theorem Amid.foldIdx (hrefl : ∀ s, Rely s s) {ι : Type} {step : Nat → ι → α → Program Op Ans ε α} {xs : List ι} {a : α}
    (P : List ι → List (σ × σ) → σ → α → Prop) (Allowed : σ × σ → Prop) (taken : List ι) (before : List (σ × σ))
    (hkeeps : ∀ {taken before s t a}, P taken before s a → Rely s t → P taken before t a)
    (hstep : ∀ {taken before s x a own r u}, x ∈ xs → P taken before s a → Amid serve Rely (step taken.length x a) s own r u →
      (∀ m ∈ own, Allowed m) ∧ ∀ b, r = .ok b → P (taken ++ [x]) (before ++ own) u b)
    (hs : P taken before s a) (h : Amid serve Rely (Program.foldIdx step taken.length xs a) s own r u) :
    (∀ m ∈ own, Allowed m) ∧ ∀ b, r = .ok b → P (taken ++ xs) (before ++ own) u b := by
  induction xs generalizing taken before s own a with
  | nil =>
    obtain ⟨rfl, rfl, hrely⟩ := h.of_done
    refine ⟨fun m hm => (nomatch hm), fun b hb => ?_⟩
    cases hb
    rw [List.append_nil, List.append_nil]
    exact hkeeps hs hrely
  | cons x xs ih =>
    rcases Amid.bind_cases hrefl h with ⟨e, rfl, hstop⟩ | ⟨b, first, rest, t, rfl, hfirst, hrest⟩
    · exact ⟨(hstep List.mem_cons_self hs hstop).1, fun b hb => by cases hb⟩
    · obtain ⟨hallowed, hnext⟩ := hstep List.mem_cons_self hs hfirst
      have hlength : taken.length + 1 = (taken ++ [x]).length := by simp
      rw [hlength] at hrest
      obtain ⟨hallowed', hend⟩ := ih (taken ++ [x]) (before ++ first) (fun hin => hstep (List.mem_cons_of_mem x hin)) (hnext b rfl) hrest
      rw [List.append_assoc, List.append_assoc] at hend
      exact ⟨fun m hm => (List.mem_append.mp hm).elim (hallowed m) (hallowed' m), hend⟩

/-- The last call does not depend on how the program ends. -/
theorem Amid.releasing (hrefl : ∀ s, Rely s s) {op : Op} (h : Amid serve Rely (p.releasing op) s own r u) :
    ∃ first t v, own = first ++ [(v, (serve op v).2)] ∧ Amid serve Rely p s first r t ∧ Rely t v ∧ Rely (serve op v).2 u := by
  induction p generalizing s own with
  | done a =>
    cases h with
    | @call _ _ _ t _ _ _ hrely h =>
      cases h with
      | done hlast => exact ⟨[], s, t, rfl, .done (hrefl s), hrely, hlast⟩
  | stop e =>
    cases h with
    | @call _ _ _ t _ _ _ hrely h =>
      cases h with
      | stop hlast => exact ⟨[], s, t, rfl, .stop (hrefl s), hrely, hlast⟩
  | call op' next ih =>
    cases h with
    | call hrely h =>
      obtain ⟨first, t', v, rfl, hfirst, hmeanwhile, hlast⟩ := ih _ h
      exact ⟨_ :: first, t', v, rfl, .call hrely hfirst, hmeanwhile, hlast⟩

/-- The calls of a course are among those that the program makes. -/
theorem Amid.makes {allowed : Op → Prop} (h : Amid serve Rely p s own r u) (hp : p.Makes allowed) :
    ∀ m ∈ own, ∃ op, allowed op ∧ m.2 = (serve op m.1).2 := by
  induction h with
  | done => exact fun m hm => (nomatch hm)
  | stop => exact fun m hm => (nomatch hm)
  | @call op _ _ _ _ _ _ _ _ ih =>
    intro m hm
    rcases List.mem_cons.mp hm with rfl | hm
    · exact ⟨op, hp.1, rfl⟩
    · exact ih (hp.2 _) m hm

/-- How the others and the calls that a program makes move the store, a course moves it. -/
theorem Amid.moves {allowed : Op → Prop} (Forward : σ → σ → Prop)
    (htrans : ∀ s t u, Forward s t → Forward t u → Forward s u) (hrely : ∀ s t, Rely s t → Forward s t)
    (hserve : ∀ op s, allowed op → Forward s (serve op s).2) (h : Amid serve Rely p s own r u) (hp : p.Makes allowed) :
    Forward s u := by
  induction h with
  | done h => exact hrely _ _ h
  | stop h => exact hrely _ _ h
  | call h _ ih => exact htrans _ _ _ (htrans _ _ _ (hrely _ _ h) (hserve _ _ hp.1)) (ih (hp.2 _))

end

end Calls
