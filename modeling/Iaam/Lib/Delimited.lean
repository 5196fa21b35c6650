import Mathlib.Data.List.Basic

/-! Parts of a text written one after another.

A part delimits itself when its end shows whatever follows, and it is delimited by what comes next when its end shows
there. Items that begin with a part of the first kind and go on with one of the second can be told apart, as many as there
are; where they end cannot, when any text may follow the last part. -/

namespace Delimited
variable {γ δ ι : Type}

/-- The first mark ends what comes before it. -/
theorem append_mark_inj {p : γ → Prop} {a b x y : List γ} {z w : γ} (ha : ∀ c ∈ a, p c) (hb : ∀ c ∈ b, p c) (hz : ¬p z)
    (hw : ¬p w) (h : a ++ z :: x = b ++ w :: y) : a = b ∧ z :: x = w :: y := by
  induction a generalizing b with
  | nil =>
    cases b with
    | nil => exact ⟨rfl, h⟩
    | cons d b =>
      obtain ⟨rfl, -⟩ := List.cons.inj h
      exact absurd (hb z List.mem_cons_self) hz
  | cons c a ih =>
    cases b with
    | nil =>
      obtain ⟨rfl, -⟩ := List.cons.inj h
      exact absurd (ha c List.mem_cons_self) hw
    | cons d b =>
      obtain ⟨rfl, htail⟩ := List.cons.inj h
      obtain ⟨rfl, hrest⟩ :=
        ih (fun e he => ha e (List.mem_cons_of_mem _ he)) (fun e he => hb e (List.mem_cons_of_mem _ he)) htail
      exact ⟨rfl, hrest⟩

/-- The end of a part shows, whatever follows. -/
def SelfDelimiting (start : δ → List γ) : Prop := ∀ d d' x x', start d ++ x = start d' ++ x' → start d = start d' ∧ x = x'

/-- The end of a part shows where a part of the other kind follows. -/
def DelimitedBy (body : ι → List γ) (start : δ → List γ) : Prop :=
  ∀ i i' d d' x x', body i ++ (start d ++ x) = body i' ++ (start d' ++ x') →
    body i = body i' ∧ start d ++ x = start d' ++ x'

section
variable (start : δ → List γ) (day : ι → δ) (body : ι → List γ)

/-- The items one after another. -/
def items (l : List ι) : List γ := l.flatMap fun i => start (day i) ++ body i

/-- The two parts of an item. -/
def shown (i : ι) : List γ × List γ := (start (day i), body i)

/-- The items, a last part and any text. -/
def record (l : List ι) (d : δ) (x : List γ) : List γ := items start day body l ++ (start d ++ x)

/-- The second list goes on with an item that begins as the last part of the first record, and the text at the end of that
    record spells out what is left of the second one. -/
def Spells (l : List ι) (d : δ) (x : List γ) (l' : List ι) (d' : δ) (x' : List γ) : Prop :=
  ∃ init next rest, l' = init ++ next :: rest ∧ init.map (shown start day body) = l.map (shown start day body) ∧
    start d = start (day next) ∧ x = body next ++ record start day body rest d' x'

end

variable {start : δ → List γ} {day : ι → δ} {body : ι → List γ} {l l' : List ι} {d d' : δ} {x x' : List γ}

theorem record_cons (i : ι) (l : List ι) (d : δ) (x : List γ) :
    record start day body (i :: l) d x = start (day i) ++ (body i ++ record start day body l d x) := by
  simp [record, items]

/-- A record begins with a part of the first kind. -/
theorem record_starts (l : List ι) (d : δ) (x : List γ) : ∃ e y, record start day body l d x = start e ++ y := by
  cases l with
  | nil => exact ⟨d, x, rfl⟩
  | cons i l => exact ⟨day i, _, record_cons i l d x⟩

theorem items_congr (h : l.map (shown start day body) = l'.map (shown start day body)) :
    items start day body l = items start day body l' := by
  have hitems : ∀ l : List ι, items start day body l = (l.map (shown start day body)).flatMap fun p => p.1 ++ p.2 := by
    intro l
    rw [List.flatMap_map]
    rfl
  rw [hitems, hitems, h]

/-- What is spelled out reads the same. -/
theorem Spells.record_eq (h : Spells start day body l d x l' d' x') :
    record start day body l d x = record start day body l' d' x' := by
  obtain ⟨init, next, rest, rfl, hinit, hday, rfl⟩ := h
  rw [record, ← items_congr hinit, hday]
  simp [record, items]

/-- Records that read the same are the same part by part, unless one of them spells out the rest of the other. -/
theorem record_cases (hstart : SelfDelimiting start) (hbody : DelimitedBy body start)
    (h : record start day body l d x = record start day body l' d' x') :
    (l.map (shown start day body) = l'.map (shown start day body) ∧ start d = start d' ∧ x = x') ∨
      Spells start day body l d x l' d' x' ∨ Spells start day body l' d' x' l d x := by
  induction l generalizing l' with
  | nil =>
    cases l' with
    | nil =>
      obtain ⟨hd, hx⟩ := hstart _ _ _ _ h
      exact .inl ⟨rfl, hd, hx⟩
    | cons i l' =>
      rw [record_cons] at h
      obtain ⟨hd, hx⟩ := hstart _ _ _ _ h
      exact .inr (.inl ⟨[], i, l', rfl, rfl, hd, hx⟩)
  | cons i l ih =>
    cases l' with
    | nil =>
      rw [record_cons] at h
      obtain ⟨hd, hx⟩ := hstart _ _ _ _ h
      exact .inr (.inr ⟨[], i, l, rfl, rfl, hd.symm, hx.symm⟩)
    | cons i' l' =>
      rw [record_cons, record_cons] at h
      obtain ⟨hday, h⟩ := hstart _ _ _ _ h
      obtain ⟨e, y, hy⟩ := @record_starts γ δ ι start day body l d x
      obtain ⟨e', y', hy'⟩ := @record_starts γ δ ι start day body l' d' x'
      rw [hy, hy'] at h
      obtain ⟨hbodies, h⟩ := hbody _ _ _ _ _ _ h
      rw [← hy, ← hy'] at h
      have hshown : shown start day body i = shown start day body i' := Prod.ext hday hbodies
      rcases ih h with ⟨hl, hd, hx⟩ | ⟨init, next, rest, rfl, hinit, hd, hx⟩ | ⟨init, next, rest, rfl, hinit, hd, hx⟩
      · exact .inl ⟨by rw [List.map_cons, List.map_cons, hl, hshown], hd, hx⟩
      · exact .inr (.inl ⟨i' :: init, next, rest, rfl, by rw [List.map_cons, List.map_cons, hinit, hshown], hd, hx⟩)
      · exact .inr (.inr ⟨i :: init, next, rest, rfl, by rw [List.map_cons, List.map_cons, hinit, hshown], hd, hx⟩)

/-- Of two records, one that spells out the rest of the other has fewer items. -/
theorem Spells.length_lt (h : Spells start day body l d x l' d' x') : l.length < l'.length := by
  obtain ⟨init, next, rest, rfl, hinit, -⟩ := h
  have hlength := congrArg List.length hinit
  rw [List.length_map, List.length_map] at hlength
  rw [List.length_append, List.length_cons]
  omega

end Delimited
