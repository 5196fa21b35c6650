import Mathlib.Algebra.BigOperators.Group.List.Basic
import Mathlib.Data.List.Induction
import Mathlib.Data.List.Nodup
import Mathlib.Data.List.Pairwise
import Mathlib.Data.List.Perm.Basic
import Mathlib.Order.Lattice

/-! Spells of a running total below zero.

A level is moved by a list of amounts, each under a label. A spell lasts from the move that takes the level below zero
to the first one that takes it back. The spells are determined by the signs of the level; and moves of one label
that do not cross zero and back make the spells of their sum. -/

namespace Spells
variable {τ τ' α : Type} [AddMonoid α] [LinearOrder α]

/-- The level, the spell that is open and those that are over. -/
structure Track (τ α : Type) where
  level : α
  since : Option τ
  ended : List (τ × τ)

namespace Track

def move (t : Track τ α) (m : τ × α) : Track τ α :=
  match decide (t.level + m.2 < 0), t.since with
  | true, none => ⟨t.level + m.2, some m.1, t.ended⟩
  | false, some start => ⟨t.level + m.2, none, t.ended ++ [(start, m.1)]⟩
  | _, since => ⟨t.level + m.2, since, t.ended⟩

def start : Track τ α := ⟨0, none, []⟩

def run (t : Track τ α) (ms : List (τ × α)) : Track τ α := ms.foldl move t

/-- The spells in the order in which they began, the open one without an end. -/
def spells (t : Track τ α) : List (τ × Option τ) :=
  t.ended.map (fun s => (s.1, some s.2)) ++ t.since.toList.map fun s => (s, none)

/-- A spell is open exactly while the level is below zero. -/
def Sound (t : Track τ α) : Prop := t.since.isSome = true ↔ t.level < 0

section
variable {t : Track τ α} {m : τ × α}

@[simp] theorem move_level : (t.move m).level = t.level + m.2 := by
  unfold move
  split <;> rfl

/-- The four things that a move can do. -/
theorem move_cases (ht : t.Sound) (m : τ × α) :
    (t.since = none ∧ t.level + m.2 < 0 ∧ t.move m = ⟨t.level + m.2, some m.1, t.ended⟩) ∨
    (∃ start, t.since = some start ∧ ¬t.level + m.2 < 0 ∧ t.move m = ⟨t.level + m.2, none, t.ended ++ [(start, m.1)]⟩) ∨
    ((t.level + m.2 < 0 ↔ t.level < 0) ∧ t.move m = ⟨t.level + m.2, t.since, t.ended⟩) := by
  unfold Sound at ht
  unfold move
  cases hs : t.since with
  | none =>
    rw [hs] at ht
    by_cases hneg : t.level + m.2 < 0
    · simp [hneg]
    · have hbefore : ¬t.level < 0 := fun h => absurd (ht.mpr h) (by simp)
      simp [hneg, hbefore]
  | some start =>
    rw [hs] at ht
    by_cases hneg : t.level + m.2 < 0
    · simp [hneg, ht.mp rfl]
    · simp [hneg]

theorem Sound.move (ht : t.Sound) (m : τ × α) : (t.move m).Sound := by
  unfold Sound
  rcases move_cases ht m with ⟨-, hneg, h⟩ | ⟨start, -, hneg, h⟩ | ⟨hsame, h⟩
  · simp [h, hneg]
  · rw [h]
    simpa using hneg
  · rw [h]
    exact ht.trans hsame.symm

theorem Sound.run (ht : t.Sound) (ms : List (τ × α)) : (t.run ms).Sound := by
  induction ms generalizing t with
  | nil => exact ht
  | cons m ms ih => exact ih (ht.move m)

theorem sound_start : (start : Track τ α).Sound := by simp [Sound, start]

theorem run_append (ms ms' : List (τ × α)) : t.run (ms ++ ms') = (t.run ms).run ms' := List.foldl_append

theorem run_level (ms : List (τ × α)) : (t.run ms).level = t.level + (ms.map Prod.snd).sum := by
  induction ms generalizing t with
  | nil => exact (add_zero _).symm
  | cons m ms ih =>
    change ((t.move m).run ms).level = _
    rw [ih, move_level, List.map_cons, List.sum_cons, add_assoc]

/-- The track under other labels. -/
def relabel (f : τ → τ') (t : Track τ α) : Track τ' α := ⟨t.level, t.since.map f, t.ended.map (Prod.map f f)⟩

theorem relabel_move (f : τ → τ') (m : τ × α) : (t.move m).relabel f = (t.relabel f).move (f m.1, m.2) := by
  unfold move relabel
  cases t.since with
  | none => by_cases hneg : t.level + m.2 < 0 <;> simp [hneg]
  | some start => by_cases hneg : t.level + m.2 < 0 <;> simp [hneg]

theorem relabel_run (f : τ → τ') (ms : List (τ × α)) :
    (t.run ms).relabel f = (t.relabel f).run (ms.map fun m => (f m.1, m.2)) := by
  induction ms generalizing t with
  | nil => rfl
  | cons m ms ih =>
    change ((t.move m).run ms).relabel f = ((t.relabel f).move (f m.1, m.2)).run _
    rw [ih, relabel_move]

omit [AddMonoid α] [LinearOrder α] in
theorem spells_relabel (f : τ → τ') : (t.relabel f).spells = t.spells.map fun s => (f s.1, s.2.map f) := by
  unfold spells relabel
  cases t.since <;> simp [Function.comp_def]

end

end Track

/-! ### What the spells are -/

/-- The spells of a sign over the first positions: each is a stretch of negative ones, up to the end or to a position
    that is not negative; they follow each other, and every negative position is in one. -/
structure Exact (neg : Nat → Prop) (n : Nat) (spells : List (Nat × Option Nat)) : Prop where
  below : ∀ s ∈ spells, s.1 < n ∧ ∀ i, s.1 ≤ i → i < s.2.getD n → neg i
  ends : ∀ s ∈ spells, ∀ j, s.2 = some j → s.1 < j ∧ j < n ∧ ¬neg j
  apart : spells.Pairwise fun s t => ∃ j, s.2 = some j ∧ j ≤ t.1
  covers : ∀ i < n, neg i → ∃ s ∈ spells, s.1 ≤ i ∧ i < s.2.getD n

namespace Exact
variable {neg : Nat → Prop} {n : Nat} {l l' : List (Nat × Option Nat)} {s t : Nat × Option Nat}

theorem nonempty (h : Exact neg n l) (hs : s ∈ l) : s.1 < s.2.getD n := by
  cases hend : s.2 with
  | none => exact (h.below s hs).1
  | some j => exact (h.ends s hs j hend).1

/-- Two spells with a position in common are one. -/
theorem eq_of_mem (h : Exact neg n l) (hs : s ∈ l) (ht : t ∈ l) {i : Nat} (hi : s.1 ≤ i ∧ i < s.2.getD n)
    (hi' : t.1 ≤ i ∧ i < t.2.getD n) : s = t := by
  by_contra hne
  have hsymm : Std.Symm fun s t : Nat × Option Nat =>
      (∃ j, s.2 = some j ∧ j ≤ t.1) ∨ ∃ j, t.2 = some j ∧ j ≤ s.1 := ⟨fun _ _ => Or.symm⟩
  have hpairwise : l.Pairwise fun s t => (∃ j, s.2 = some j ∧ j ≤ t.1) ∨ ∃ j, t.2 = some j ∧ j ≤ s.1 :=
    h.apart.imp Or.inl
  rcases hpairwise.forall hs ht hne with ⟨j, hj, hle⟩ | ⟨j, hj, hle⟩
  · rw [hj, Option.getD_some] at hi
    omega
  · rw [hj, Option.getD_some] at hi'
    omega

/-- No spell continues one before it. -/
theorem first (h : Exact neg n l) (hs : s ∈ l) {i : Nat} (hi : i + 1 = s.1) : ¬neg i := by
  intro hneg
  have hlt := (h.below s hs).1
  obtain ⟨t, ht, hle, hlast⟩ := h.covers i (by omega) hneg
  have hnonempty := h.nonempty hs
  cases hend : t.2 with
  | none =>
    rw [hend, Option.getD_none] at hlast
    have hsame : s = t := h.eq_of_mem hs ht ⟨Nat.le_refl _, hnonempty⟩ ⟨by omega, by rw [hend]; exact hlt⟩
    rw [← hsame] at hle
    omega
  | some j =>
    rw [hend, Option.getD_some] at hlast
    obtain ⟨-, -, hnot⟩ := h.ends t ht j hend
    by_cases hj : j = s.1
    · exact hnot (hj ▸ (h.below s hs).2 s.1 (Nat.le_refl _) hnonempty)
    · have hsame : s = t := h.eq_of_mem hs ht ⟨Nat.le_refl _, hnonempty⟩ ⟨by omega, by rw [hend, Option.getD_some]; omega⟩
      rw [← hsame] at hle
      omega

theorem mem_of_mem (h : Exact neg n l) (h' : Exact neg n l') (hs : s ∈ l) : s ∈ l' := by
  have hneg := (h.below s hs).2 s.1 (Nat.le_refl _) (h.nonempty hs)
  obtain ⟨t, ht, hle, hlast⟩ := h'.covers s.1 (h.below s hs).1 hneg
  have hstart : t.1 = s.1 := by
    by_contra hne
    refine h.first (i := s.1 - 1) hs (by omega) ((h'.below t ht).2 (s.1 - 1) (by omega) (by omega))
  have hbelow := (h.below s hs).2
  have hbelow' := (h'.below t ht).2
  have hend : t.2 = s.2 := by
    cases hs2 : s.2 with
    | none =>
      cases ht2 : t.2 with
      | none => rfl
      | some j =>
        obtain ⟨hlt, hjn, hnot⟩ := h'.ends t ht j ht2
        exact absurd (hbelow j (by omega) (by rw [hs2]; exact hjn)) hnot
    | some j =>
      obtain ⟨hlt, hjn, hnot⟩ := h.ends s hs j hs2
      cases ht2 : t.2 with
      | none => exact absurd (hbelow' j (by omega) (by rw [ht2]; exact hjn)) hnot
      | some j' =>
        obtain ⟨hlt', hjn', hnot'⟩ := h'.ends t ht j' ht2
        rcases Nat.lt_trichotomy j j' with hjj | rfl | hjj
        · exact absurd (hbelow' j (by omega) (by rw [ht2]; exact hjj)) hnot
        · rfl
        · exact absurd (hbelow j' (by omega) (by rw [hs2]; exact hjj)) hnot'
  have hsame : t = s := Prod.ext hstart hend
  exact hsame ▸ ht

theorem nodup (h : Exact neg n l) : l.Nodup := by
  refine h.apart.imp_of_mem fun {s t} hs _ hst heq => ?_
  obtain ⟨j, hj, hle⟩ := hst
  have hlt := (h.ends s hs j hj).1
  rw [heq] at hlt
  omega

/-- The spells are determined by the signs. -/
theorem perm (h : Exact neg n l) (h' : Exact neg n l') : l.Perm l' :=
  (List.perm_ext_iff_of_nodup h.nodup h'.nodup).mpr fun _ => ⟨h.mem_of_mem h', h'.mem_of_mem h⟩

end Exact

/-- What a track has after the first positions. -/
structure Follows (neg : Nat → Prop) (n : Nat) (t : Track Nat α) : Prop where
  ended : ∀ p ∈ t.ended, p.1 < p.2 ∧ p.2 < n ∧ ¬neg p.2 ∧ ∀ i, p.1 ≤ i → i < p.2 → neg i
  since : ∀ b, t.since = some b → b < n ∧ (∀ i, b ≤ i → i < n → neg i) ∧ ∀ p ∈ t.ended, p.2 ≤ b
  apart : t.ended.Pairwise fun p q => p.2 ≤ q.1
  covers : ∀ i < n, neg i → (∃ p ∈ t.ended, p.1 ≤ i ∧ i < p.2) ∨ ∃ b, t.since = some b ∧ b ≤ i

namespace Follows
variable {neg neg' : Nat → Prop} {n : Nat} {t : Track Nat α}

omit [AddMonoid α] [LinearOrder α] in
theorem congr (h : Follows neg n t) (heq : ∀ i < n, neg i ↔ neg' i) : Follows neg' n t := by
  refine ⟨fun p hp => ?_, fun b hb => ?_, h.apart, fun i hi hneg => h.covers i hi ((heq i hi).mpr hneg)⟩
  · obtain ⟨hlt, hn, hnot, hall⟩ := h.ended p hp
    exact ⟨hlt, hn, fun hneg => hnot ((heq _ hn).mpr hneg), fun i hl hr => (heq i (by omega)).mp (hall i hl hr)⟩
  · obtain ⟨hlt, hall, hbefore⟩ := h.since b hb
    exact ⟨hlt, fun i hl hr => (heq i hr).mp (hall i hl hr), hbefore⟩

theorem move (h : Follows neg n t) (ht : t.Sound) {a : α} (hneg : neg n ↔ t.level + a < 0) :
    Follows neg (n + 1) (t.move (n, a)) := by
  have hover : ∀ p ∈ t.ended, p.1 < p.2 ∧ p.2 < n + 1 ∧ ¬neg p.2 ∧ ∀ i, p.1 ≤ i → i < p.2 → neg i := by
    intro p hp
    obtain ⟨hlt, hn, hrest⟩ := h.ended p hp
    exact ⟨hlt, by omega, hrest⟩
  rcases Track.move_cases ht (n, a) with ⟨hnone, hlow, hmove⟩ | ⟨b, hb, hhigh, hmove⟩ | ⟨hsame, hmove⟩
  · -- a spell begins
    rw [hmove]
    refine ⟨hover, fun b hb => ?_, h.apart, fun i hi hi' => ?_⟩
    · cases hb
      refine ⟨by omega, fun i hl hr => ?_, fun p hp => Nat.le_of_lt (h.ended p hp).2.1⟩
      have hin : i = n := by omega
      exact hin ▸ hneg.mpr hlow
    · by_cases hin : i = n
      · exact .inr ⟨n, rfl, Nat.le_of_eq hin.symm⟩
      · rcases h.covers i (by omega) hi' with hthere | ⟨b, hb, -⟩
        · exact .inl hthere
        · cases hnone.symm.trans hb
  · -- the open spell ends
    rw [hmove]
    obtain ⟨hlt, hall, hbefore⟩ := h.since b hb
    have hnot : ¬neg n := mt hneg.mp hhigh
    refine ⟨fun p hp => ?_, fun b hb => absurd hb (by simp), ?_, fun i hi hi' => ?_⟩
    · rcases List.mem_append.mp hp with hp | hp
      · exact hover p hp
      · cases List.mem_singleton.mp hp
        exact ⟨hlt, by omega, hnot, hall⟩
    · refine List.pairwise_append.mpr ⟨h.apart, List.pairwise_singleton _ _, fun p hp q hq => ?_⟩
      cases List.mem_singleton.mp hq
      exact hbefore p hp
    · by_cases hin : i = n
      · exact absurd (hin ▸ hi') hnot
      · rcases h.covers i (by omega) hi' with ⟨p, hp, hthere⟩ | ⟨b', hb', hle⟩
        · exact .inl ⟨p, List.mem_append_left _ hp, hthere⟩
        · cases hb.symm.trans hb'
          exact .inl ⟨(b, n), List.mem_append_right _ (List.mem_singleton_self _), hle, by omega⟩
  · -- the sign stays
    rw [hmove]
    have hsign : neg n ↔ t.since.isSome = true := hneg.trans (hsame.trans ht.symm)
    refine ⟨hover, fun b hb => ?_, h.apart, fun i hi hi' => ?_⟩
    · obtain ⟨hlt, hall, hbefore⟩ := h.since b hb
      refine ⟨by omega, fun i hl hr => ?_, hbefore⟩
      by_cases hin : i = n
      · rw [hin]
        exact hsign.mpr (by rw [show t.since = some b from hb]; rfl)
      · exact hall i hl (by omega)
    · by_cases hin : i = n
      · obtain ⟨b, hb⟩ := Option.isSome_iff_exists.mp (hsign.mp (hin ▸ hi'))
        exact .inr ⟨b, hb, by have := (h.since b hb).1; omega⟩
      · exact h.covers i (by omega) hi'

omit [AddMonoid α] [LinearOrder α] in
theorem exact (h : Follows neg n t) : Exact neg n t.spells := by
  have hmem : ∀ s, s ∈ t.spells ↔ (∃ p ∈ t.ended, (p.1, some p.2) = s) ∨ ∃ b, t.since = some b ∧ (b, none) = s := by
    intro s
    simp [Track.spells]
  refine ⟨fun s hs => ?_, fun s hs j hj => ?_, ?_, fun i hi hneg => ?_⟩
  · rcases (hmem s).mp hs with ⟨p, hp, rfl⟩ | ⟨b, hb, rfl⟩
    · obtain ⟨hlt, hn, -, hall⟩ := h.ended p hp
      exact ⟨by dsimp only; omega, hall⟩
    · obtain ⟨hlt, hall, -⟩ := h.since b hb
      exact ⟨hlt, hall⟩
  · rcases (hmem s).mp hs with ⟨p, hp, rfl⟩ | ⟨b, -, rfl⟩
    · cases hj
      obtain ⟨hlt, hn, hnot, -⟩ := h.ended p hp
      exact ⟨hlt, hn, hnot⟩
    · cases hj
  · refine List.pairwise_append.mpr ⟨List.pairwise_map.mpr (h.apart.imp fun hle => ⟨_, rfl, hle⟩), ?_, ?_⟩
    · cases t.since <;> simp
    · intro s hs u hu
      obtain ⟨p, hp, rfl⟩ := List.mem_map.mp hs
      obtain ⟨b, hb, rfl⟩ := List.mem_map.mp hu
      exact ⟨p.2, rfl, (h.since b (by simpa using hb)).2.2 p hp⟩
  · rcases h.covers i hi hneg with ⟨p, hp, hin⟩ | ⟨b, hb, hle⟩
    · exact ⟨_, (hmem _).mpr (.inl ⟨p, hp, rfl⟩), hin⟩
    · exact ⟨_, (hmem _).mpr (.inr ⟨b, hb, rfl⟩), hle, hi⟩

end Follows

/-- The amounts under their positions. -/
def numbered (ms : List α) : List (Nat × α) := ms.zipIdx.map Prod.swap

theorem follows_run (ms : List α) :
    Follows (fun i => (ms.take (i + 1)).sum < 0) ms.length (Track.start.run (numbered ms)) := by
  induction ms using List.reverseRecOn with
  | nil =>
    refine ⟨fun p hp => ?_, fun b hb => ?_, .nil, fun i hi => ?_⟩
    · cases hp
    · cases hb
    · cases hi
  | append_singleton ms a ih =>
    have hrun : Track.start.run (numbered (ms ++ [a])) = (Track.start.run (numbered ms)).move (ms.length, a) := by
      rw [numbered, List.zipIdx_append, List.map_append, Track.run_append, zero_add]
      rfl
    have hlevel : (Track.start.run (numbered ms)).level = ms.sum := by
      rw [Track.run_level, numbered, List.map_map]
      change 0 + (ms.zipIdx.map Prod.fst).sum = _
      rw [List.zipIdx_map_fst, zero_add]
    rw [hrun, List.length_append, List.length_singleton]
    refine Follows.move (ih.congr fun i hi => ?_) (Track.sound_start.run _) ?_
    · rw [List.take_append_of_le_length (by omega)]
    · rw [hlevel, List.take_of_length_le (by simp), List.sum_append, List.sum_singleton]

/-- The spells of the amounts, by position. -/
theorem exact_spells (ms : List α) :
    Exact (fun i => (ms.take (i + 1)).sum < 0) ms.length (Track.start.run (numbered ms)).spells :=
  (follows_run ms).exact

/-! ### Moves of one label -/

/-- How often the sign changes on the way. -/
def changes : α → List α → Nat
  | _, [] => 0
  | level, a :: rest => (if level < 0 ↔ level + a < 0 then 0 else 1) + changes (level + a) rest

/-- The moves one by one. -/
def parts (groups : List (τ × List α)) : List (τ × α) := groups.flatMap fun g => g.2.map fun a => (g.1, a)

/-- The moves of each label as one. -/
def wholes (groups : List (τ × List α)) : List (τ × α) := groups.map fun g => (g.1, g.2.sum)

omit [LinearOrder α] in
theorem sum_parts (groups : List (τ × List α)) : ((parts groups).map Prod.snd).sum = ((wholes groups).map Prod.snd).sum := by
  induction groups with
  | nil => rfl
  | cons g groups ih =>
    change (((g.2.map fun a => (g.1, a)) ++ parts groups).map Prod.snd).sum = g.2.sum + ((wholes groups).map Prod.snd).sum
    rw [List.map_append, List.sum_append, ih, List.map_map, Function.comp_def, List.map_id']

/-- In no group does the level cross zero and back. -/
def Steady : α → List (List α) → Prop
  | _, [] => True
  | level, as :: rest => changes level as ≤ 1 ∧ Steady (level + as.sum) rest

theorem steady_of_length_le_one {level : α} {groups : List (List α)} (h : ∀ as ∈ groups, as.length ≤ 1) :
    Steady level groups := by
  induction groups generalizing level with
  | nil => trivial
  | cons as groups ih =>
    refine ⟨?_, ih fun as has => h as (List.mem_cons_of_mem _ has)⟩
    rcases as with _ | ⟨a, as⟩
    · exact Nat.zero_le 1
    · have hnil : as = [] := List.eq_nil_of_length_eq_zero (Nat.le_zero.mp (Nat.le_of_succ_le_succ (h _ List.mem_cons_self)))
      rw [hnil]
      simp only [changes]
      split <;> omega

/-- The sign is another one after an odd number of changes. -/
theorem changes_even_iff (level : α) (as : List α) : changes level as % 2 = 0 ↔ (level < 0 ↔ level + as.sum < 0) := by
  induction as generalizing level with
  | nil => simp [changes]
  | cons a as ih =>
    have hrest := ih (level + a)
    rw [add_assoc] at hrest
    simp only [changes, List.sum_cons]
    split
    · next hsame =>
      rw [Nat.zero_add, hrest, hsame]
    · next hother =>
      have hodd : (1 + changes (level + a) as) % 2 = 0 ↔ ¬changes (level + a) as % 2 = 0 := by omega
      rw [hodd, hrest]
      tauto

section
variable {t u : Track τ α} {label : τ}

theorem move_zero (ht : t.Sound) : t.move (label, 0) = t := by
  rcases Track.move_cases ht (label, (0 : α)) with ⟨hnone, hlow, -⟩ | ⟨start, hsome, hhigh, -⟩ | ⟨-, hmove⟩
  · rw [add_zero] at hlow
    rw [Track.Sound, hnone] at ht
    exact absurd (ht.mpr hlow) (by simp)
  · rw [add_zero] at hhigh
    rw [Track.Sound, hsome] at ht
    exact absurd (ht.mp rfl) hhigh
  · rw [hmove, add_zero]

/-- Two moves of which at most one changes the sign are one move. -/
theorem move_move (ht : t.Sound) {a b : α}
    (h : (t.level < 0 ↔ t.level + a < 0) ∨ (t.level + a < 0 ↔ t.level + (a + b) < 0)) :
    (t.move (label, a)).move (label, b) = t.move (label, a + b) := by
  obtain ⟨level, since, ended⟩ := t
  unfold Track.Sound at ht
  dsimp only at ht h
  cases since with
  | none =>
    have hlevel : ¬level < 0 := fun hneg => absurd (ht.mpr hneg) (by simp)
    by_cases ha : level + a < 0 <;> by_cases hab : level + (a + b) < 0 <;>
      simp [Track.move, add_assoc, hlevel, ha, hab] at h ⊢
  | some start =>
    have hlevel : level < 0 := ht.mp rfl
    by_cases ha : level + a < 0 <;> by_cases hab : level + (a + b) < 0 <;>
      simp [Track.move, add_assoc, hlevel, ha, hab] at h ⊢

/-- A group with at most one change is one move. -/
theorem run_group (ht : t.Sound) {as : List α} (h : changes t.level as ≤ 1) :
    t.run (as.map fun a => (label, a)) = t.move (label, as.sum) := by
  induction as generalizing t with
  | nil => exact (move_zero ht).symm
  | cons a as ih =>
    simp only [changes] at h
    have hrest : changes (t.move (label, a)).level as ≤ 1 := by
      rw [Track.move_level]
      dsimp only
      omega
    change (t.move (label, a)).run _ = _
    rw [ih (ht.move _) hrest, List.sum_cons]
    refine move_move ht ?_
    by_cases hsame : t.level < 0 ↔ t.level + a < 0
    · exact .inl hsame
    · right
      rw [if_neg hsame] at h
      have hzero : changes (t.level + a) as = 0 := by omega
      have heven := (changes_even_iff (t.level + a) as).mp (by rw [hzero])
      rwa [add_assoc] at heven

/-- Steady groups make the spells of their sums. -/
theorem run_parts (ht : t.Sound) {groups : List (τ × List α)} (h : Steady t.level (groups.map Prod.snd)) :
    t.run (parts groups) = t.run (wholes groups) := by
  induction groups generalizing t with
  | nil => rfl
  | cons g groups ih =>
    obtain ⟨hg, hrest⟩ := h
    change t.run ((g.2.map fun a => (g.1, a)) ++ parts groups) = (t.move (g.1, g.2.sum)).run (wholes groups)
    rw [Track.run_append, run_group ht hg]
    refine ih (ht.move _) ?_
    rwa [Track.move_level]

theorem length_move (ht : t.Sound) (m : τ × α) :
    (t.move m).spells.length = t.spells.length + if ¬t.level < 0 ∧ t.level + m.2 < 0 then 1 else 0 := by
  rcases Track.move_cases ht m with ⟨hnone, hlow, h⟩ | ⟨start, hsome, hhigh, h⟩ | ⟨hsame, h⟩
  · have hlevel : ¬t.level < 0 := by
      rw [Track.Sound, hnone] at ht
      exact fun hneg => absurd (ht.mpr hneg) (by simp)
    rw [h, if_pos ⟨hlevel, hlow⟩]
    simp [Track.spells, hnone]
  · rw [h, if_neg fun hboth => hhigh hboth.2]
    simp [Track.spells, hsome]
  · rw [h, if_neg fun hboth => hboth.1 (hsame.mp hboth.2)]
    rfl

/-- A group begins a spell at every other change of the sign. -/
theorem length_group (ht : t.Sound) (label : τ) (as : List α) :
    (t.run (as.map fun a => (label, a))).spells.length =
      t.spells.length + (changes t.level as + if t.level < 0 then 0 else 1) / 2 := by
  induction as generalizing t with
  | nil =>
    change t.spells.length = _
    simp only [changes]
    split <;> simp
  | cons a as ih =>
    change ((t.move (label, a)).run _).spells.length = _
    rw [ih (ht.move _), length_move ht, Track.move_level]
    simp only [changes]
    by_cases hbefore : t.level < 0 <;> by_cases hafter : t.level + a < 0 <;> simp [hbefore, hafter] <;> omega

/-- The moves one by one begin at least as many spells as their sums, and no more only when they are steady. -/
theorem length_parts (ht : t.Sound) (hu : u.Sound) (hlevel : t.level = u.level)
    (hle : u.spells.length ≤ t.spells.length) (groups : List (τ × List α)) :
    (u.run (wholes groups)).spells.length ≤ (t.run (parts groups)).spells.length ∧
      ((t.run (parts groups)).spells.length = (u.run (wholes groups)).spells.length →
        t.spells.length = u.spells.length ∧ Steady t.level (groups.map Prod.snd)) := by
  induction groups generalizing t u with
  | nil => exact ⟨hle, fun h => ⟨h, trivial⟩⟩
  | cons g groups ih =>
    have hparts : t.run (parts (g :: groups)) = (t.run (g.2.map fun a => (g.1, a))).run (parts groups) :=
      Track.run_append _ _
    have hwholes : u.run (wholes (g :: groups)) = (u.move (g.1, g.2.sum)).run (wholes groups) := rfl
    have hgroup := length_group ht g.1 g.2
    have hwhole := length_move hu (g.1, g.2.sum)
    have heven := changes_even_iff t.level g.2
    rw [← hlevel] at hwhole
    dsimp only at hwhole
    have hlevel' : (t.run (g.2.map fun a => (g.1, a))).level = (u.move (g.1, g.2.sum)).level := by
      rw [Track.run_level, Track.move_level, List.map_map, hlevel]
      simp [Function.comp_def]
    have hstart : (t.run (g.2.map fun a => (g.1, a))).level = t.level + g.2.sum := by
      rw [hlevel', Track.move_level, hlevel]
    have hcount : (u.move (g.1, g.2.sum)).spells.length ≤ (t.run (g.2.map fun a => (g.1, a))).spells.length ∧
        ((t.run (g.2.map fun a => (g.1, a))).spells.length = (u.move (g.1, g.2.sum)).spells.length →
          t.spells.length = u.spells.length ∧ changes t.level g.2 ≤ 1) := by
      rw [hgroup, hwhole]
      by_cases hbefore : t.level < 0 <;> by_cases hafter : t.level + g.2.sum < 0 <;>
        simp only [hbefore, hafter, not_true_eq_false, not_false_eq_true, true_and, false_and, if_true, if_false,
          iff_true, iff_false, and_self] at heven ⊢ <;> omega
    obtain ⟨hmore, hsame⟩ := ih (ht.run _) (hu.move _) hlevel' hcount.1
    rw [hparts, hwholes]
    refine ⟨hmore, fun heq => ?_⟩
    obtain ⟨hlength, hsteady⟩ := hsame heq
    obtain ⟨hbase, hfew⟩ := hcount.2 hlength
    rw [hstart] at hsteady
    exact ⟨hbase, hfew, hsteady⟩

end

end Spells
