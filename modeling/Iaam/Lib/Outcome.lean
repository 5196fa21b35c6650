import Mathlib.Order.Basic

/-! Computations that fail, and computations that have already written when they fail.

A fallible step that returns its result by value is an `Except`; a step that works in place is a `Mut`:
it gives back the state it leaves behind together with its outcome, so that what an error leaves behind
can be stated. The rules below peel a computation apart at its binds, once for each way it can end. -/

namespace Outcome

/-- Why a computation stopped: it returned an error, or an unchecked operation in it panicked. -/
inductive Fail (ε : Type) where
  | error (e : ε)
  | panic
  deriving DecidableEq, Repr

/-- A fallible computation by value. -/
abbrev Result (ε α : Type) := Except (Fail ε) α

section Result
variable {ε ε' α β : Type}

/-- An unchecked operation: a missing result is a panic. -/
def orPanic : Option α → Result ε α
  | some a => .ok a
  | none => .error .panic

/-- A missing value is the given error. -/
def okOr (e : ε) : Option α → Result ε α
  | some a => .ok a
  | none => .error (.error e)

/-- The outcome of a computation that cannot panic, its error converted. -/
def convert (f : ε → ε') : Except ε α → Result ε' α
  | .ok a => .ok a
  | .error e => .error (.error (f e))

/-- The outcome of a computation that may panic, its error converted. -/
def reraise (f : ε → ε') : Result ε α → Result ε' α
  | .ok a => .ok a
  | .error (.error e) => .error (.error (f e))
  | .error .panic => .error .panic

theorem bind_ok {x : Except ε α} {f : α → Except ε β} {b : β} :
    (x >>= f) = .ok b ↔ ∃ a, x = .ok a ∧ f a = .ok b := by
  cases x with
  | error e => exact ⟨fun h => (nomatch h), fun ⟨_, h, _⟩ => (nomatch h)⟩
  | ok a => exact ⟨fun h => ⟨a, rfl, h⟩, fun ⟨_, h, hb⟩ => by cases h; exact hb⟩

theorem bind_error {x : Except ε α} {f : α → Except ε β} {e : ε} :
    (x >>= f) = .error e ↔ x = .error e ∨ ∃ a, x = .ok a ∧ f a = .error e := by
  cases x with
  | error e' => exact ⟨fun h => Or.inl (by cases h; rfl), fun h => by
      rcases h with h | ⟨_, h, _⟩
      · cases h; rfl
      · cases h⟩
  | ok a => exact ⟨fun h => Or.inr ⟨a, rfl, h⟩, fun h => by
      rcases h with h | ⟨_, h, hf⟩
      · cases h
      · cases h; exact hf⟩

@[simp] theorem ok_bind (a : α) (f : α → Except ε β) : (Except.ok a >>= f) = f a := rfl

@[simp] theorem pure_eq_ok (a : α) : (pure a : Except ε α) = .ok a := rfl

theorem seq_ok {x : Except ε Unit} {f : Unit → Except ε β} {b : β} :
    (x >>= f) = .ok b ↔ x = .ok () ∧ f () = .ok b := by
  rw [bind_ok]
  exact ⟨fun ⟨_, hx, hf⟩ => ⟨hx, hf⟩, fun ⟨hx, hf⟩ => ⟨(), hx, hf⟩⟩

/-- Computations that agree under a view go on alike, when they go on by what is seen. -/
theorem map_bind_congr {γ δ : Type} {x y : Except ε α} {view : α → γ} {f g : α → Except ε β} {view' : β → δ}
    (h : x.map view = y.map view) (hfg : ∀ a b, view a = view b → (f a).map view' = (g b).map view') :
    (x >>= f).map view' = (y >>= g).map view' := by
  cases x with
  | error e =>
    cases y with
    | error e' =>
      cases h
      rfl
    | ok b => cases h
  | ok a =>
    cases y with
    | error e => cases h
    | ok b => exact hfg a b (Except.ok.inj h)

theorem map_bind_congr_right {δ : Type} {x : Except ε α} {f g : α → Except ε β} {view : β → δ}
    (h : ∀ a, (f a).map view = (g a).map view) : (x >>= f).map view = (x >>= g).map view := by
  cases x with
  | error e => rfl
  | ok a => exact h a

/-- A map over a list agrees with another one where each of its steps does. -/
theorem map_mapM_congr {γ : Type} {view : β → γ} {f g : α → Except ε β} (l : List α)
    (h : ∀ a, (f a).map view = (g a).map view) : (l.mapM f).map (List.map view) = (l.mapM g).map (List.map view) := by
  induction l with
  | nil => rfl
  | cons a l ih =>
    rw [List.mapM_cons, List.mapM_cons]
    refine map_bind_congr (h a) fun b b' hb => map_bind_congr ih fun bs bs' hbs => ?_
    change Except.ok _ = Except.ok _
    rw [List.map_cons, List.map_cons, hb, hbs]

theorem exists_ok {x : Except ε α} (h : x.isOk = true) : ∃ a, x = .ok a := by
  cases x with
  | error e => cases h
  | ok a => exact ⟨a, rfl⟩

/-- What is read off the result of a computation that is evaluated. -/
theorem read_of_ok {x : Except ε α} {a : α} (h : x = .ok a) (read : α → β) {b : β}
    (hread : x.toOption.map read = some b) : read a = b := by
  rw [h] at hread
  exact Option.some.inj hread

@[simp] theorem mapError_ok {f : ε → ε'} {x : Except ε α} {a : α} : x.mapError f = .ok a ↔ x = .ok a := by
  cases x <;> simp [Except.mapError]

@[simp] theorem orPanic_ok {x : Option α} {a : α} : (orPanic x : Result ε α) = .ok a ↔ x = some a := by
  cases x <;> simp [orPanic]

@[simp] theorem orPanic_ne_error {x : Option α} {e : ε} : (orPanic x : Result ε α) ≠ .error (.error e) := by
  cases x <;> simp [orPanic]

@[simp] theorem orPanic_panic {x : Option α} : (orPanic x : Result ε α) = .error .panic ↔ x = none := by
  cases x <;> simp [orPanic]

/-- A panic after a step that does not panic. -/
theorem bind_panic {x : Result ε α} {f : α → Result ε β} (hx : x ≠ .error .panic) :
    (x >>= f) = .error .panic ↔ ∃ a, x = .ok a ∧ f a = .error .panic := by
  rw [bind_error]
  exact ⟨fun h => h.resolve_left hx, .inr⟩

theorem bind_ne_panic {x : Result ε α} {f : α → Result ε β} (hx : x ≠ .error .panic)
    (hf : ∀ a, x = .ok a → f a ≠ .error .panic) : (x >>= f) ≠ .error .panic := by
  intro h
  obtain ⟨a, ha, h⟩ := (bind_panic hx).mp h
  exact hf a ha h

@[simp] theorem okOr_ok {e : ε} {x : Option α} {a : α} : okOr e x = .ok a ↔ x = some a := by
  cases x <;> simp [okOr]

@[simp] theorem convert_ok {f : ε → ε'} {x : Except ε α} {a : α} : convert f x = .ok a ↔ x = .ok a := by
  cases x <;> simp [convert]

theorem convert_error {f : ε → ε'} {x : Except ε α} {e : Fail ε'} :
    convert f x = .error e ↔ ∃ e', x = .error e' ∧ e = .error (f e') := by
  cases x <;> simp [convert, eq_comm]

@[simp] theorem okOr_ne_panic {e : ε} {x : Option α} : okOr e x ≠ .error .panic := by
  cases x <;> simp [okOr]

@[simp] theorem convert_ne_panic {f : ε → ε'} {x : Except ε α} : convert f x ≠ .error .panic := by
  cases x <;> simp [convert]

@[simp] theorem reraise_panic {f : ε → ε'} {x : Result ε α} : reraise f x = .error .panic ↔ x = .error .panic := by
  rcases x with (_ | _) | _ <;> simp [reraise]

@[simp] theorem reraise_ok {f : ε → ε'} {x : Result ε α} {a : α} : reraise f x = .ok a ↔ x = .ok a := by
  rcases x with (_ | _) | _ <;> simp [reraise]

end Result

/-- A computation in place: its outcome, and the state it leaves behind whatever the outcome. -/
def Mut (σ ε α : Type) : Type := σ → Result ε α × σ

namespace Mut
variable {σ τ ε α β : Type}

instance : Monad (Mut σ ε) where
  pure a := fun s => (.ok a, s)
  bind x f := fun s =>
    match x s with
    | (.ok a, t) => f a t
    | (.error e, t) => (.error e, t)

/-- The state as it is now. -/
def get : Mut σ ε σ := fun s => (.ok s, s)

/-- Writes the state. -/
def modify (f : σ → σ) : Mut σ ε Unit := fun s => (.ok (), f s)

/-- A computation by value, which writes nothing. -/
def lift (x : Result ε α) : Mut σ ε α := fun s => (x, s)

/-- A computation on a part of the state. What it wrote to the part is kept when it fails. -/
def zoom (part : σ → τ) (put : τ → σ → σ) (x : Mut τ ε α) : Mut σ ε α := fun s =>
  ((x (part s)).1, put (x (part s)).2 s)

/-- The outcome of a computation on a copy, with the copy it leaves; a failure leaves nothing. -/
def onCopy (x : Mut σ ε α) (s : σ) : Result ε σ :=
  match x s with
  | (.ok _, t) => .ok t
  | (.error e, _) => .error e

theorem bind_run (x : Mut σ ε α) (f : α → Mut σ ε β) (s : σ) :
    (x >>= f) s = match x s with
      | (.ok a, t) => f a t
      | (.error e, t) => (.error e, t) := rfl

theorem bind_ok {x : Mut σ ε α} {f : α → Mut σ ε β} {s t : σ} {b : β} :
    (x >>= f) s = (.ok b, t) ↔ ∃ a u, x s = (.ok a, u) ∧ f a u = (.ok b, t) := by
  rw [bind_run]
  rcases x s with ⟨_ | a, u⟩
  · exact ⟨fun h => (nomatch h), fun ⟨_, _, h, _⟩ => (nomatch h)⟩
  · exact ⟨fun h => ⟨a, u, rfl, h⟩, fun ⟨_, _, h, hb⟩ => by cases h; exact hb⟩

theorem bind_error {x : Mut σ ε α} {f : α → Mut σ ε β} {s t : σ} {e : Fail ε} :
    (x >>= f) s = (.error e, t) ↔
      x s = (.error e, t) ∨ ∃ a u, x s = (.ok a, u) ∧ f a u = (.error e, t) := by
  rw [bind_run]
  rcases x s with ⟨_ | a, u⟩
  · exact ⟨fun h => .inl (by cases h; rfl), fun h => by
      rcases h with h | ⟨_, _, h, _⟩
      · cases h; rfl
      · cases h⟩
  · exact ⟨fun h => .inr ⟨a, u, rfl, h⟩, fun h => by
      rcases h with h | ⟨_, _, h, hb⟩
      · cases h
      · cases h; exact hb⟩

@[simp] theorem lift_ok {x : Result ε α} {s t : σ} {a : α} : lift x s = (.ok a, t) ↔ x = .ok a ∧ t = s := by
  simp [lift, eq_comm]

@[simp] theorem lift_error {x : Result ε α} {s t : σ} {e : Fail ε} :
    lift x s = (.error e, t) ↔ x = .error e ∧ t = s := by
  simp [lift, eq_comm]

@[simp] theorem modify_ok {f : σ → σ} {s t : σ} {a : Unit} :
    (modify f : Mut σ ε Unit) s = (.ok a, t) ↔ t = f s := by
  simp [modify, eq_comm]

@[simp] theorem modify_error {f : σ → σ} {s t : σ} {e : Fail ε} :
    (modify f : Mut σ ε Unit) s ≠ (.error e, t) := by
  simp [modify]

@[simp] theorem pure_ok {s t : σ} {a b : α} : (pure a : Mut σ ε α) s = (.ok b, t) ↔ b = a ∧ t = s := by
  simp [pure, eq_comm]

@[simp] theorem pure_error {s t : σ} {a : α} {e : Fail ε} : (pure a : Mut σ ε α) s ≠ (.error e, t) := by
  simp [pure]

/-! Binds whose first step cannot fail are run; the others are peeled. -/

theorem get_bind (f : σ → Mut σ ε β) (s : σ) : (get >>= f) s = f s s := rfl
theorem modify_bind (g : σ → σ) (f : Unit → Mut σ ε β) (s : σ) : (modify g >>= f) s = f () (g s) := rfl

theorem lift_bind_of_ok {x : Result ε α} {a : α} (h : x = .ok a) (f : α → Mut σ ε β) (s : σ) :
    (lift x >>= f) s = f a s := by
  rw [h]
  rfl

theorem lift_bind_of_error {x : Result ε α} {e : Fail ε} (h : x = .error e) (f : α → Mut σ ε β) (s : σ) :
    (lift x >>= f) s = (.error e, s) := by
  rw [h]
  rfl

theorem bind_of_ok {x : Mut σ ε α} {s t : σ} {a : α} (h : x s = (.ok a, t)) (f : α → Mut σ ε β) :
    (x >>= f) s = f a t := by
  rw [bind_run, h]

theorem bind_of_error {x : Mut σ ε α} {s t : σ} {e : Fail ε} (h : x s = (.error e, t)) (f : α → Mut σ ε β) :
    (x >>= f) s = (.error e, t) := by
  rw [bind_run, h]

theorem seq_ok {x : Mut σ ε Unit} {f : Unit → Mut σ ε β} {s t : σ} {b : β} :
    (x >>= f) s = (.ok b, t) ↔ ∃ u, x s = (.ok (), u) ∧ f () u = (.ok b, t) := by
  rw [bind_ok]
  exact ⟨fun ⟨_, u, hx, hf⟩ => ⟨u, hx, hf⟩, fun ⟨u, hx, hf⟩ => ⟨(), u, hx, hf⟩⟩

theorem lift_bind_ok {x : Result ε α} {f : α → Mut σ ε β} {s t : σ} {b : β} :
    (lift x >>= f) s = (.ok b, t) ↔ ∃ a, x = .ok a ∧ f a s = (.ok b, t) := by
  rw [bind_ok]
  constructor
  · rintro ⟨a, _, hlift, hf⟩
    obtain ⟨hx, rfl⟩ := lift_ok.mp hlift
    exact ⟨a, hx, hf⟩
  · rintro ⟨a, hx, hf⟩
    exact ⟨a, s, lift_ok.mpr ⟨hx, rfl⟩, hf⟩

theorem zoom_ok {part : σ → τ} {put : τ → σ → σ} {x : Mut τ ε α} {s t : σ} {a : α} :
    zoom part put x s = (.ok a, t) ↔ ∃ p, x (part s) = (.ok a, p) ∧ t = put p s := by
  constructor
  · intro h
    simp only [zoom, Prod.mk.injEq] at h
    exact ⟨(x (part s)).2, Prod.ext h.1 rfl, h.2.symm⟩
  · rintro ⟨p, h, rfl⟩
    simp [zoom, h]

theorem zoom_bind_ok {part : σ → τ} {put : τ → σ → σ} {x : Mut τ ε α} {f : α → Mut σ ε β} {s t : σ} {b : β} :
    (zoom part put x >>= f) s = (.ok b, t) ↔ ∃ a p, x (part s) = (.ok a, p) ∧ f a (put p s) = (.ok b, t) := by
  rw [bind_ok]
  constructor
  · rintro ⟨a, _, hzoom, hf⟩
    obtain ⟨p, hx, rfl⟩ := zoom_ok.mp hzoom
    exact ⟨a, p, hx, hf⟩
  · rintro ⟨a, p, hx, hf⟩
    exact ⟨a, _, zoom_ok.mpr ⟨p, hx, rfl⟩, hf⟩

theorem zoom_error {part : σ → τ} {put : τ → σ → σ} {x : Mut τ ε α} {s t : σ} {e : Fail ε} :
    zoom part put x s = (.error e, t) ↔ ∃ p, x (part s) = (.error e, p) ∧ t = put p s := by
  constructor
  · intro h
    simp only [zoom, Prod.mk.injEq] at h
    exact ⟨(x (part s)).2, Prod.ext h.1 rfl, h.2.symm⟩
  · rintro ⟨p, h, rfl⟩
    simp [zoom, h]

@[simp] theorem onCopy_ok {x : Mut σ ε Unit} {s t : σ} : onCopy x s = .ok t ↔ x s = (.ok (), t) := by
  unfold onCopy
  rcases x s with ⟨_ | _, u⟩ <;> simp

/-- Whatever the outcome, the state left behind is related to the state before. -/
def Keeps (R : σ → σ → Prop) (x : Mut σ ε α) : Prop := ∀ s, R s (x s).2

section Keeps
variable {R : σ → σ → Prop}

theorem Keeps.of_run {x : Mut σ ε α} {s t : σ} {r : Result ε α} (h : Keeps R x) (hx : x s = (r, t)) : R s t := by
  have ht := h s
  rw [hx] at ht
  exact ht

variable [Std.Refl R]

theorem keeps_get : Keeps R (get : Mut σ ε σ) := fun s => refl_of R s
theorem keeps_pure (a : α) : Keeps R (pure a : Mut σ ε α) := fun s => refl_of R s
theorem keeps_lift (x : Result ε α) : Keeps R (lift x : Mut σ ε α) := fun s => refl_of R s

omit [Std.Refl R] in
theorem keeps_modify {f : σ → σ} (hf : ∀ s, R s (f s)) : Keeps R (modify f : Mut σ ε Unit) := hf

omit [Std.Refl R] in
theorem Keeps.bind [IsTrans σ R] {x : Mut σ ε α} {f : α → Mut σ ε β} (hx : Keeps R x) (hf : ∀ a, Keeps R (f a)) :
    Keeps R (x >>= f) := by
  intro s
  rw [bind_run]
  have hs := hx s
  rcases h : x s with ⟨_ | a, t⟩
  · rw [h] at hs
    exact hs
  · rw [h] at hs
    exact trans_of R hs (hf a t)

end Keeps

/-! ### Computations on a part of the state -/

/-- A computation that works on a part of the state: from states that are alike there it has the same outcome and
    leaves states that are alike there, and it leaves the rest of the state alone. -/
structure Local (Alike Rest : σ → σ → Prop) (x : Mut σ ε α) : Prop where
  outcome : ∀ {s t}, Alike s t → (x s).1 = (x t).1
  alike : ∀ {s t}, Alike s t → Alike (x s).2 (x t).2
  rest : Keeps Rest x

section Local
variable {Alike Rest : σ → σ → Prop}

theorem local_pure [Std.Refl Rest] (a : α) : Local Alike Rest (pure a : Mut σ ε α) :=
  ⟨fun _ => rfl, fun h => h, keeps_pure a⟩

theorem local_lift [Std.Refl Rest] (x : Result ε α) : Local Alike Rest (lift x : Mut σ ε α) :=
  ⟨fun _ => rfl, fun h => h, keeps_lift x⟩

theorem local_modify {f : σ → σ} (halike : ∀ {s t}, Alike s t → Alike (f s) (f t)) (hrest : ∀ s, Rest s (f s)) :
    Local Alike Rest (modify f : Mut σ ε Unit) :=
  ⟨fun _ => rfl, fun h => halike h, keeps_modify hrest⟩

/-- What is read of the state is read off the part. -/
theorem local_get {f : σ → Mut σ ε α} (hread : ∀ {s t}, Alike s t → f s = f t) (hf : ∀ s, Local Alike Rest (f s)) :
    Local Alike Rest (get >>= f) := by
  refine ⟨fun {s t} h => ?_, fun {s t} h => ?_, fun s => (hf s).rest s⟩
  · change (f s s).1 = (f t t).1
    rw [hread h]
    exact (hf t).outcome h
  · change Alike (f s s).2 (f t t).2
    rw [hread h]
    exact (hf t).alike h

theorem Local.bind [IsTrans σ Rest] {x : Mut σ ε α} {f : α → Mut σ ε β} (hx : Local Alike Rest x)
    (hf : ∀ a, Local Alike Rest (f a)) : Local Alike Rest (x >>= f) := by
  refine ⟨fun {s t} h => ?_, fun {s t} h => ?_, hx.rest.bind fun a => (hf a).rest⟩
  · have houtcome := hx.outcome h
    have halike := hx.alike h
    rw [bind_run, bind_run]
    rcases hs : x s with ⟨_ | a, s'⟩ <;> rcases ht : x t with ⟨_ | b, t'⟩ <;> rw [hs, ht] at houtcome halike <;>
      cases houtcome
    · rfl
    · exact (hf a).outcome halike
  · have houtcome := hx.outcome h
    have halike := hx.alike h
    rw [bind_run, bind_run]
    rcases hs : x s with ⟨_ | a, s'⟩ <;> rcases ht : x t with ⟨_ | b, t'⟩ <;> rw [hs, ht] at houtcome halike <;>
      cases houtcome
    · exact halike
    · exact (hf a).alike halike

theorem local_zoom {part : σ → τ} {put : τ → σ → σ} (hpart : ∀ {s t}, Alike s t → part s = part t)
    (hput : ∀ {s t} v, Alike s t → Alike (put v s) (put v t)) (hrest : ∀ v s, Rest s (put v s)) (x : Mut τ ε α) :
    Local Alike Rest (zoom part put x) := by
  refine ⟨fun {s t} h => ?_, fun {s t} h => ?_, fun s => hrest _ s⟩
  · change (x (part s)).1 = (x (part t)).1
    rw [hpart h]
  · change Alike (put (x (part s)).2 s) (put (x (part t)).2 t)
    rw [hpart h]
    exact hput _ h

end Local

/-! ### Panics -/

/-- The computation does not panic from the state. -/
def NoPanicAt (x : Mut σ ε α) (s : σ) : Prop := (x s).1 ≠ .error .panic

section NoPanicAt
variable {s : σ}

theorem noPanicAt_pure (a : α) : NoPanicAt (pure a : Mut σ ε α) s := fun h => (nomatch h)

theorem noPanicAt_modify (f : σ → σ) : NoPanicAt (modify f : Mut σ ε Unit) s := fun h => (nomatch h)

theorem noPanicAt_lift {x : Result ε α} (h : x ≠ .error .panic) : NoPanicAt (lift x : Mut σ ε α) s := h

theorem noPanicAt_zoom {part : σ → τ} {put : τ → σ → σ} {x : Mut τ ε α} :
    NoPanicAt (zoom part put x) s ↔ NoPanicAt x (part s) := Iff.rfl

theorem NoPanicAt.bind {x : Mut σ ε α} {f : α → Mut σ ε β} (hx : NoPanicAt x s)
    (hf : ∀ a t, x s = (.ok a, t) → NoPanicAt (f a) t) : NoPanicAt (x >>= f) s := by
  unfold NoPanicAt at hx ⊢
  rw [bind_run]
  rcases h : x s with ⟨e | a, t⟩
  · rw [h] at hx
    exact fun hpanic => hx (by cases hpanic; rfl)
  · exact hf a t h

/-- A step by value that does not panic. -/
theorem noPanicAt_lift_bind {x : Result ε α} {f : α → Mut σ ε β} (hx : x ≠ .error .panic)
    (hf : ∀ a, x = .ok a → NoPanicAt (f a) s) : NoPanicAt (lift x >>= f) s := by
  refine (noPanicAt_lift hx).bind fun a t h => ?_
  obtain ⟨ha, rfl⟩ := lift_ok.mp h
  exact hf a ha

theorem onCopy_ne_panic {x : Mut σ ε Unit} (h : NoPanicAt x s) : onCopy x s ≠ .error .panic := by
  unfold NoPanicAt at h
  unfold onCopy
  rcases hx : x s with ⟨e | a, t⟩
  · rw [hx] at h
    exact fun hpanic => h (by cases hpanic; rfl)
  · exact fun hpanic => (nomatch hpanic)

end NoPanicAt

/-- A returned error leaves the state as it was before the call. -/
def AtomicAt (x : Mut σ ε α) (s : σ) : Prop :=
  ∀ e t, x s = (.error (.error e), t) → t = s

theorem atomicAt_iff {x : Mut σ ε α} {s : σ} :
    AtomicAt x s ↔ ¬∃ e t, x s = (.error (.error e), t) ∧ t ≠ s := by
  constructor
  · rintro h ⟨e, t, hx, hne⟩
    exact hne (h e t hx)
  · intro h e t hx
    by_contra hne
    exact h ⟨e, t, hx, hne⟩

theorem atomicAt_of_keeps {x : Mut σ ε α} (h : Keeps Eq x) (s : σ) : AtomicAt x s :=
  fun _ _ hx => (h.of_run hx).symm

theorem atomicAt_get_bind {f : σ → Mut σ ε β} {s : σ} : AtomicAt (get >>= f) s ↔ AtomicAt (f s) s := Iff.rfl

/-- A step that only reads can be peeled off. -/
theorem atomicAt_bind {x : Mut σ ε α} (h : Keeps Eq x) {f : α → Mut σ ε β} {s : σ} :
    AtomicAt (x >>= f) s ↔ ∀ a, (x s).1 = .ok a → AtomicAt (f a) s := by
  have hs : (x s).2 = s := (h s).symm
  unfold AtomicAt
  rw [bind_run]
  rcases hx : x s with ⟨_ | a, t⟩
  · rw [hx] at hs
    cases hs
    refine ⟨fun _ a ha => (nomatch ha), fun _ e t ht => ?_⟩
    cases ht
    rfl
  · rw [hx] at hs
    cases hs
    exact ⟨fun hf _ ha => by cases ha; exact hf, fun hf => hf a rfl⟩

end Mut
end Outcome
