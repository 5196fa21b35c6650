import Iaam.Xirr
import Iaam.Lib.Blocks
import Iaam.Lib.Runs
import Iaam.Lib.Signs

/-! The changes of sign that decide whether a rate is solved for. The rule of signs is about one coefficient for each
day; the scan counts over single flows, and for a day with flows of both signs the count depends on their order. -/

namespace Iaam
namespace Xirr
open Outcome

/-! ### What is counted -/

/-- The conversion to floating point gives a number of the same sign, and days are finite. -/
structure SignPreserving {F : Type} (f : Floats F) : Prop where
  converts : ∀ d, ∃ x, f.ofDec d = some x ∧ f.isFinite x = true
  dates : ∀ day dayCount, f.isFinite (f.div (f.ofInt day) (yearLength f dayCount)) = true
  start : f.eq (f.ofInt 0) (f.ofInt 0) = true
  zero : ∀ {d x}, f.ofDec d = some x → (f.eq x (f.ofInt 0) = true ↔ d.val = 0)
  sign : ∀ {d e x y}, f.ofDec d = some x → f.ofDec e = some y → d.val ≠ 0 → e.val ≠ 0 →
    (f.eq (f.signum x) (f.signum y) = true ↔ (0 < d.val ↔ 0 < e.val))

/-- The flow comes in. -/
def incoming (flow : SolverFlow) : Bool := 0 < flow.amount.val

/-- The flows that have a sign. -/
def signed (flows : List SolverFlow) : List SolverFlow := flows.filter fun flow => flow.amount.val ≠ 0

def signs (flows : List SolverFlow) : List Bool := (signed flows).map incoming

section
variable {F : Type} {f : Floats F} {dayCount : DayCount} {flows : List SolverFlow} {terms : List (F × F)}

theorem term_ok {flow : SolverFlow} {t : F × F} (h : term f dayCount flow = .ok t) : f.ofDec flow.amount = some t.2 := by
  unfold term at h
  split at h
  · cases h
  · next amount hamount =>
    dsimp only at h
    split_ifs at h
    cases h
    exact hamount

/-- The scan from a state: what it has counted, and the changes from the last sign on. -/
theorem countSign_foldl (hf : SignPreserving f) (hterms : flows.mapM (term f dayCount) = .ok terms) (n : Nat) (p : F)
    {last : Option SolverFlow} (hlast : ∀ flow ∈ last, flow.amount.val ≠ 0 ∧ f.ofDec flow.amount = some p)
    (hnone : last = none → p = f.ofInt 0) :
    (terms.foldl (countSign f) (n, p)).1 = n + Signs.changes ((last.map incoming).toList ++ signs flows) := by
  induction flows generalizing terms n p last with
  | nil =>
    cases hterms
    cases last <;> rfl
  | cons flow flows ih =>
    rw [List.mapM_cons] at hterms
    obtain ⟨t, ht, hterms⟩ := bind_ok.mp hterms
    obtain ⟨rest, hrest, hterms⟩ := bind_ok.mp hterms
    cases hterms
    have hamount := term_ok ht
    rw [List.foldl_cons]
    by_cases hz : flow.amount.val = 0
    · have hskip : countSign f (n, p) t = (n, p) := if_pos ((hf.zero hamount).mpr hz)
      have hsigns : signs (flow :: flows) = signs flows := by
        unfold signs signed
        rw [List.filter_cons_of_neg (by simp [hz])]
      rw [hskip, hsigns]
      exact ih hrest n p hlast hnone
    · have hsigns : signs (flow :: flows) = incoming flow :: signs flows := by
        unfold signs signed
        rw [List.filter_cons_of_pos (by simp [hz])]
        rfl
      have hne : ¬ f.eq t.2 (f.ofInt 0) = true := fun h => hz ((hf.zero hamount).mp h)
      have hnext (m : Nat) : (rest.foldl (countSign f) (m, t.2)).1 = m + Signs.changes (incoming flow :: signs flows) :=
        @ih rest hrest m t.2 (some flow) (by rintro _ ⟨⟩; exact ⟨hz, hamount⟩) (fun h => (nomatch h))
      have hcount : countSign f (n, p) t =
          (if !f.eq p (f.ofInt 0) && !f.eq (f.signum p) (f.signum t.2) then n + 1 else n, t.2) := if_neg hne
      rw [hsigns, hcount]
      cases last with
      | none =>
        rw [hnone rfl, hf.start]
        exact hnext n
      | some previous =>
        obtain ⟨hpz, hp⟩ := hlast previous rfl
        have hpne : ¬ f.eq p (f.ofInt 0) = true := fun h => hpz ((hf.zero hp).mp h)
        have hsame := hf.sign hp hamount hpz hz
        have hdiffers : (f.eq (f.signum p) (f.signum t.2) = true) ↔ incoming previous = incoming flow := by
          rw [hsame]
          simp [incoming]
        rw [hnext]
        simp only [Option.map_some, Option.toList_some, List.singleton_append, Signs.changes_cons_cons]
        by_cases heq : incoming previous = incoming flow
        · simp [hdiffers.mpr heq, heq]
        · have hneq : f.eq (f.signum p) (f.signum t.2) = false := by
            rw [← Bool.not_eq_true, hdiffers]
            exact heq
          simp only [hpne, hneq, heq]
          simp
          omega

/-- The scan counts the changes between the signs of the flows. -/
theorem signChanges_eq (hf : SignPreserving f) (hterms : flows.mapM (term f dayCount) = .ok terms) :
    signChanges f ⟨terms⟩ = Signs.changes (signs flows) := by
  have h := @countSign_foldl F f dayCount flows terms hf hterms 0 (f.ofInt 0) none (fun _ h => (nomatch h)) fun _ => rfl
  rw [Nat.zero_add] at h
  exact h

theorem exists_terms (hf : SignPreserving f) (dayCount : DayCount) (flows : List SolverFlow) :
    ∃ terms, flows.mapM (term f dayCount) = .ok terms := by
  induction flows with
  | nil => exact ⟨[], rfl⟩
  | cons flow flows ih =>
    obtain ⟨rest, hrest⟩ := ih
    obtain ⟨x, hx, hfinite⟩ := hf.converts flow.amount
    have hterm : term f dayCount flow = .ok (f.div (f.ofInt flow.dayOffset) (yearLength f dayCount), x) := by
      simp [term, hx, hfinite, hf.dates]
    exact ⟨_, by rw [List.mapM_cons, hterm, hrest]; rfl⟩

end

/-! ### What the count decides -/

/-- The refusals that are about the number of changes. -/
def AboutSigns : SolverRefusal → Prop
  | .noSignChange | .uniquenessNotProven _ => True
  | _ => False

section
variable {F : Type} {f : Floats F} {dayCount : DayCount} {flows : List SolverFlow} {series : Series F}
  {policy : SolverPolicy F} {e : SolverRefusal}

theorem term_error {flow : SolverFlow} (h : term f dayCount flow = .error e) : e = .notRepresentable := by
  simp only [term] at h
  split at h
  · cases h
    rfl
  · split_ifs at h <;> cases h <;> rfl

theorem build_ok (h : build f flows dayCount = .ok series) : flows.mapM (term f dayCount) = .ok series.terms := by
  simp only [build] at h
  split_ifs at h
  obtain ⟨terms, hterms, h⟩ := bind_ok.mp h
  split_ifs at h
  cases h
  exact hterms

theorem build_error (h : build f flows dayCount = .error e) : ¬ AboutSigns e := by
  simp only [build] at h
  split_ifs at h
  · cases h
    exact id
  rcases bind_error.mp h with h | ⟨terms, -, h⟩
  · obtain ⟨flow, -, h⟩ := Runs.mapM_error h
    rw [term_error h]
    exact id
  · split_ifs at h <;> cases h <;> exact id

theorem brackets_error (h : brackets f series policy = .error e) : ¬ AboutSigns e := by
  simp only [brackets] at h
  split_ifs at h
  · cases h
    exact id
  · cases h
    exact id
  · cases h
    exact id
  · cases h
    exact id
  rcases bind_error.mp h with h | ⟨⟨_, _, found⟩, -, h⟩
  · obtain ⟨i, -, state, h⟩ := Runs.foldlM_error h
    simp only [scanPoint] at h
    split_ifs at h
    cases h
    exact id
  · cases h

theorem refineFrom_error {left : Nat} {low high lowValue highValue : F}
    (h : refineFrom f series policy left low high lowValue highValue = .error e) : ¬ AboutSigns e := by
  induction left generalizing low high lowValue highValue with
  | zero =>
    cases h
    exact id
  | succ left ih =>
    simp only [refineFrom] at h
    split_ifs at h
    all_goals first | exact ih h | (cases h; exact id)

theorem refine_error {bracket : F × F} (h : refine f series bracket policy = .error e) : ¬ AboutSigns e := by
  simp only [refine] at h
  split_ifs at h
  exact refineFrom_error h

/-- A rate is found for a series with one change of sign. -/
theorem changes_of_solved {outcome : RateOutcome F} (h : solve f flows policy dayCount = .ok outcome) :
    ∃ series, build f flows dayCount = .ok series ∧ signChanges f series = 1 := by
  obtain ⟨series, hbuild, h⟩ := bind_ok.mp h
  refine ⟨series, hbuild, ?_⟩
  dsimp only at h
  split at h
  · cases h
  · next hzero =>
    obtain ⟨found, -, h⟩ := bind_ok.mp h
    split at h
    · cases h
    · split at h
      · cases h
      · omega
    · cases h

/-- A refusal about the number of changes is about a series that has not one. -/
theorem changes_of_refused (h : solve f flows policy dayCount = .error e) (he : AboutSigns e) :
    ∃ series, build f flows dayCount = .ok series ∧ signChanges f series ≠ 1 := by
  rcases bind_error.mp h with h | ⟨series, hbuild, h⟩
  · exact absurd he (build_error h)
  refine ⟨series, hbuild, fun hone => ?_⟩
  dsimp only at h
  rw [if_neg (by omega)] at h
  rcases bind_error.mp h with h | ⟨found, -, h⟩
  · exact brackets_error h he
  split at h
  · cases h
    exact he
  · rw [if_neg (by omega)] at h
    rcases bind_error.mp h with h | ⟨rate, -, h⟩
    · exact refine_error h he
    · cases h
  · cases h
    exact he

end

/-! ### The flows of a day -/

def Chronological (flows : List SolverFlow) : Prop := flows.Pairwise fun a b => a.dayOffset ≤ b.dayOffset

def sumOf (flows : List SolverFlow) : ℚ := (flows.map fun flow => flow.amount.val).sum

/-- The same flows on the same days: those of each day in another order, or those of one day as their sum, when that is
    an amount other than zero. -/
inductive SameDays (flows : List SolverFlow) : List SolverFlow → Prop
  | reordered {flows' : List SolverFlow} : flows'.Perm flows → Chronological flows' → SameDays flows flows'
  | summed {day : Int} {total : Dec} : total.val = sumOf (flows.filter fun flow => flow.dayOffset = day) →
      total.val ≠ 0 → SameDays flows ((flows.filter fun flow => flow.dayOffset < day) ++ ⟨day, total⟩ ::
        flows.filter fun flow => day < flow.dayOffset)

/-- The days on which there are flows with a sign, with these flows. -/
def days (flows : List SolverFlow) : List (List SolverFlow) := Blocks.blocksBy SolverFlow.dayOffset (signed flows)

/-- The sum of a day is an amount of the given sign. -/
def SumsTo (day : List SolverFlow) (sign : Bool) : Prop :=
  ∃ total : Dec, total.val = sumOf day ∧ total.val ≠ 0 ∧ decide (0 < total.val) = sign

/-- Every day is steady among the days around it, and a day with flows of both signs can only be summed to the sign
    that the day before it does not have. -/
def Orderly (flows : List SolverFlow) : Prop :=
  ∀ earlier day later, days flows = earlier ++ day :: later →
    Signs.Steady (earlier.map (List.map incoming)) (day.map incoming) (later.map (List.map incoming)) ∧
      (true ∈ day.map incoming → false ∈ day.map incoming → ∀ sign, SumsTo day sign →
        ∃ before, earlier.getLast? = some before ∧ ∀ flow ∈ before, incoming flow = !sign)

section
variable {flows flows' : List SolverFlow}

theorem signed_sorted (h : Chronological flows) : Chronological (signed flows) := h.filter _

theorem byKey_days (h : Chronological flows) : Blocks.ByKey SolverFlow.dayOffset (days flows) :=
  Blocks.byKey_blocksBy (signed_sorted h)

theorem signs_eq_flatten (flows : List SolverFlow) : signs flows = ((days flows).map (List.map incoming)).flatten := by
  rw [← List.map_flatten, days, Blocks.flatten_blocksBy, signs]

theorem signs_of_days {earlier later : List (List SolverFlow)} {day : List SolverFlow}
    (h : days flows = earlier ++ day :: later) : signs flows = (earlier.map (List.map incoming)).flatten ++
      day.map incoming ++ (later.map (List.map incoming)).flatten := by
  rw [signs_eq_flatten, h]
  simp [List.append_assoc]

theorem map_ne_nil (h : Chronological flows) : ∀ b ∈ (days flows).map (List.map incoming), b ≠ [] := by
  intro b hb
  obtain ⟨day, hday, rfl⟩ := List.mem_map.mp hb
  simpa using (byKey_days h).nonempty day hday

theorem signed_append (l l' : List SolverFlow) : signed (l ++ l') = signed l ++ signed l' := List.filter_append _ _

theorem signed_filter (p : SolverFlow → Bool) (l : List SolverFlow) : signed (l.filter p) = (signed l).filter p := by
  simp [signed, List.filter_filter, Bool.and_comm]

theorem sumOf_signed (l : List SolverFlow) : sumOf (signed l) = sumOf l := by
  induction l with
  | nil => rfl
  | cons flow l ih =>
    unfold sumOf signed at ih ⊢
    rw [List.filter_cons]
    split_ifs with h
    · rw [List.map_cons, List.map_cons, List.sum_cons, List.sum_cons, ih]
    · have hz : flow.amount.val = 0 := by simpa using h
      rw [List.map_cons, List.sum_cons, ih, hz, zero_add]

/-- Orders of the images of blocks are images of orders of the blocks. -/
theorem exists_map_perm {α β : Type} {g : α → β} {blocks : List (List α)} {images : List (List β)}
    (h : List.Forall₂ List.Perm images (blocks.map (List.map g))) :
    ∃ blocks', List.Forall₂ List.Perm blocks' blocks ∧ blocks'.map (List.map g) = images := by
  induction blocks generalizing images with
  | nil => exact ⟨[], .nil, (List.forall₂_nil_right_iff.mp h).symm⟩
  | cons block blocks ih =>
    obtain ⟨image, rest, himage, hrest, rfl⟩ := List.forall₂_cons_right_iff.mp h
    obtain ⟨blocks', hblocks, hmap⟩ := ih hrest
    have hcomp := congrFun (congrFun (List.eq_map_comp_perm g) image) block
    obtain ⟨block', rfl, hblock⟩ : ∃ block' : List α, image = block'.map g ∧ block'.Perm block := hcomp.mpr himage
    exact ⟨block' :: blocks', .cons hblock hblocks, by rw [List.map_cons, hmap]⟩

/-- Orders within the days are orders of the flows. -/
theorem exists_reordered {blocks : List (List Bool)} (h : Chronological flows)
    (hblocks : List.Forall₂ List.Perm blocks ((days flows).map (List.map incoming))) :
    ∃ flows', flows'.Perm flows ∧ Chronological flows' ∧ signs flows' = blocks.flatten := by
  obtain ⟨days', hdays, hmap⟩ := exists_map_perm hblocks
  have hkey := (byKey_days h).of_perm hdays
  have hperm : days'.flatten.Perm (signed flows) := by
    rw [← Blocks.flatten_blocksBy SolverFlow.dayOffset (signed flows)]
    exact List.Perm.flatten_congr hdays
  obtain ⟨flows', hflows, hsorted, hsigned⟩ := Blocks.exists_order hperm hkey.sorted
  refine ⟨flows', hflows, hsorted, ?_⟩
  have hkept : signed flows' = days'.flatten := hsigned
  rw [signs, hkept, List.map_flatten, hmap]

/-- What is summed is a day with its flows, and the sum takes their place among the signs. -/
theorem around_day {earlier later : List (List SolverFlow)} {day : List SolverFlow} {flow : SolverFlow}
    (h : Chronological flows) (hdays : days flows = earlier ++ day :: later) (hflow : flow ∈ day) :
    sumOf (flows.filter fun other => other.dayOffset = flow.dayOffset) = sumOf day ∧
      ∀ total : Dec, total.val ≠ 0 →
        signs ((flows.filter fun other => other.dayOffset < flow.dayOffset) ++ ⟨flow.dayOffset, total⟩ ::
          flows.filter fun other => flow.dayOffset < other.dayOffset) =
            (earlier.map (List.map incoming)).flatten ++ [decide (0 < total.val)] ++
              (later.map (List.map incoming)).flatten := by
  have hkey := byKey_days h
  rw [hdays] at hkey
  obtain ⟨hbefore, hon, hafter⟩ := hkey.filter_around hflow
  have hflatten : (earlier ++ day :: later).flatten = signed flows := by
    rw [← hdays, days, Blocks.flatten_blocksBy]
  rw [hflatten] at hbefore hon hafter
  constructor
  · rw [← sumOf_signed, signed_filter, hon]
  · intro total htotal
    have hone : signed (⟨flow.dayOffset, total⟩ :: flows.filter fun other => flow.dayOffset < other.dayOffset) =
        ⟨flow.dayOffset, total⟩ :: later.flatten := by
      rw [← hafter, ← signed_filter]
      unfold signed
      rw [List.filter_cons_of_pos (by simpa using htotal)]
    rw [signs, signed_append, hone, signed_filter, hbefore, List.map_append, List.map_cons, List.map_flatten,
      List.map_flatten, List.append_assoc]
    rfl

/-- A day of one sign has a sum of that sign. -/
theorem sumOf_constant {day : List SolverFlow} {sign : Bool} (hne : day ≠ [])
    (h : ∀ flow ∈ day, incoming flow = sign) : decide (0 < sumOf day) = sign := by
  have hamount (flow : SolverFlow) (hflow : flow ∈ day) : 0 < flow.amount.val ↔ sign = true := by
    rw [← h flow hflow, incoming, decide_eq_true_eq]
  cases sign with
  | true =>
    have hpos : 0 < (day.map fun flow => flow.amount.val).sum := by
      refine List.sum_pos _ (fun q hq => ?_) (by simpa using hne)
      obtain ⟨flow, hflow, rfl⟩ := List.mem_map.mp hq
      exact (hamount flow hflow).mpr rfl
    exact decide_eq_true hpos
  | false =>
    have hle : (day.map fun flow => flow.amount.val).sum ≤ 0 := by
      rw [← nsmul_zero (day.map fun flow => flow.amount.val).length]
      refine List.sum_le_card_nsmul _ 0 fun q hq => ?_
      obtain ⟨flow, hflow, rfl⟩ := List.mem_map.mp hq
      exact not_lt.mp fun hlt => absurd ((hamount flow hflow).mp hlt) (by decide)
    exact decide_eq_false (not_lt.mpr hle)

/-- The days decide the count, whatever the order within each. -/
theorem changes_reordered (h : Chronological flows) (horderly : Orderly flows) (hperm : flows'.Perm flows)
    (h' : Chronological flows') : Signs.changes (signs flows') = Signs.changes (signs flows) := by
  have hblocks : List.Forall₂ List.Perm (days flows') (days flows) := by
    refine (byKey_days h).perm_unique (byKey_days h') ?_
    rw [days, days, Blocks.flatten_blocksBy, Blocks.flatten_blocksBy]
    exact hperm.filter _
  have hmapped : List.Forall₂ List.Perm ((days flows').map (List.map incoming)) ((days flows).map (List.map incoming)) := by
    rw [List.forall₂_map_left_iff, List.forall₂_map_right_iff]
    exact hblocks.imp fun _ _ hday => hday.map incoming
  rw [signs_eq_flatten flows', signs_eq_flatten flows]
  refine (Signs.anyOrder_iff (map_ne_nil h)).mpr (fun earlier block later heq => ?_) _ hmapped
  obtain ⟨earlier', rest', hdays, rfl, hrest⟩ := List.map_eq_append_iff.mp heq
  obtain ⟨day, later', rfl, rfl, rfl⟩ := List.map_eq_cons_iff.mp hrest
  exact (horderly _ _ _ hdays).1

/-- The sum of a day counts as the day, when the days are orderly. -/
theorem changes_summed (h : Chronological flows) (horderly : Orderly flows) {day : Int} {total : Dec}
    (hsum : total.val = sumOf (flows.filter fun flow => flow.dayOffset = day)) (htotal : total.val ≠ 0) :
    Signs.changes (signs ((flows.filter fun flow => flow.dayOffset < day) ++ ⟨day, total⟩ ::
      flows.filter fun flow => day < flow.dayOffset)) = Signs.changes (signs flows) := by
  obtain ⟨flow, hflow, rfl⟩ : ∃ flow ∈ signed flows, flow.dayOffset = day := by
    by_contra hnone
    have hempty : signed (flows.filter fun flow => flow.dayOffset = day) = [] := by
      rw [signed_filter]
      exact List.filter_eq_nil_iff.mpr fun flow hflow hday => hnone ⟨flow, hflow, of_decide_eq_true hday⟩
    rw [← sumOf_signed, hempty] at hsum
    exact htotal hsum
  have hmem := hflow
  rw [← Blocks.flatten_blocksBy SolverFlow.dayOffset (signed flows)] at hmem
  obtain ⟨block, hblock, hin⟩ := List.mem_flatten.mp hmem
  obtain ⟨earlier, later, hdays⟩ := List.append_of_mem hblock
  obtain ⟨hon, hsigns⟩ := around_day h hdays hin
  rw [hsigns total htotal, signs_of_days hdays]
  rw [hon] at hsum
  have hne := map_ne_nil h
  rw [show days flows = earlier ++ block :: later from hdays, List.map_append, List.map_cons] at hne
  obtain ⟨hsteady, hside⟩ := horderly _ _ _ hdays
  have hall (sign : Bool) (hconst : ∀ x ∈ block.map incoming, x = sign) :
      Signs.changes ((earlier.map (List.map incoming)).flatten ++ [decide (0 < total.val)] ++
        (later.map (List.map incoming)).flatten) = Signs.changes ((earlier.map (List.map incoming)).flatten ++
          block.map incoming ++ (later.map (List.map incoming)).flatten) := by
    have hsign := sumOf_constant (List.ne_nil_of_mem hin) fun other hother => hconst _ (List.mem_map_of_mem hother)
    rw [hsum, hsign, Signs.changes_constant hconst (by simpa using List.ne_nil_of_mem hin), List.append_assoc,
      List.singleton_append]
  rcases @Signs.forall_eq_or (block.map incoming) true with hconst | hfalse
  · exact hall true hconst
  rcases @Signs.forall_eq_or (block.map incoming) false with hconst | htrue
  · exact hall false hconst
  refine (hsteady.replaced_iff (fun b hb => hne b (by simp [hb])) (fun b hb => hne b (by simp [hb])) htrue hfalse _).mpr ?_
  obtain ⟨before, hlast, hbefore⟩ := hside htrue hfalse _ ⟨total, hsum, htotal, rfl⟩
  refine ⟨before.map incoming, by rw [List.getLast?_map, hlast]; rfl, fun x hx => ?_⟩
  obtain ⟨other, hother, rfl⟩ := List.mem_map.mp hx
  exact hbefore other hother

/-- The count is one for every order of the days and every sum of one exactly when the days are orderly. -/
theorem changes_iff (h : Chronological flows) :
    (∀ flows', SameDays flows flows' → Signs.changes (signs flows') = Signs.changes (signs flows)) ↔ Orderly flows := by
  constructor
  · intro hcount
    have hsteady := (Signs.anyOrder_iff (map_ne_nil h)).mp fun blocks hblocks => by
      obtain ⟨flows', hperm, hsorted, hsigns⟩ := exists_reordered h hblocks
      have := hcount flows' (.reordered hperm hsorted)
      rwa [hsigns, signs_eq_flatten flows] at this
    intro earlier day later hdays
    have hmapped : (days flows).map (List.map incoming) = earlier.map (List.map incoming) ++ day.map incoming ::
        later.map (List.map incoming) := by
      rw [hdays, List.map_append, List.map_cons]
    have hne := map_ne_nil h
    rw [hmapped] at hne
    refine ⟨hsteady _ _ _ hmapped, fun htrue hfalse sign ⟨total, hsum, htotal, hsign⟩ => ?_⟩
    obtain ⟨flow, hflow, -⟩ := List.mem_map.mp htrue
    obtain ⟨hon, hsigns⟩ := around_day h hdays hflow
    have hreplaced := hcount _ (.summed (hsum.trans hon.symm) htotal)
    rw [hsigns total htotal, signs_of_days hdays, hsign] at hreplaced
    obtain ⟨before, hlast, hbefore⟩ := ((hsteady _ _ _ hmapped).replaced_iff (fun b hb => hne b (by simp [hb]))
      (fun b hb => hne b (by simp [hb])) htrue hfalse sign).mp hreplaced
    obtain ⟨before', hlast', rfl⟩ := Option.map_eq_some_iff.mp (by rw [← List.getLast?_map]; exact hlast)
    exact ⟨before', hlast', fun other hother => hbefore _ (List.mem_map_of_mem hother)⟩
  · rintro horderly _ (⟨hperm, h'⟩ | ⟨hsum, htotal⟩)
    · exact changes_reordered h horderly hperm h'
    · exact changes_summed h horderly hsum htotal

end

/-- Another order within the days, or the sum of one, changes neither the number of changes that the scan counts nor
    whether it lets a series that has a rate be solved. -/
def OrderFree {F : Type} (f : Floats F) (dayCount : DayCount) (flows : List SolverFlow) : Prop :=
  ∀ flows', SameDays flows flows' →
    (∀ terms terms', flows.mapM (term f dayCount) = .ok terms → flows'.mapM (term f dayCount) = .ok terms' →
      signChanges f ⟨terms'⟩ = signChanges f ⟨terms⟩) ∧
    ∀ policy outcome, solve f flows policy dayCount = .ok outcome →
      solve f flows' policy dayCount ≠ .error .noSignChange ∧
        ∀ n, solve f flows' policy dayCount ≠ .error (.uniquenessNotProven n)

/-- What is recorded within a day makes no difference exactly when the days are orderly. -/
theorem orderFree_iff {F : Type} {f : Floats F} {dayCount : DayCount} {flows : List SolverFlow}
    (hf : SignPreserving f) (h : Chronological flows) : OrderFree f dayCount flows ↔ Orderly flows := by
  rw [← changes_iff h]
  constructor
  · intro hfree flows' hsame
    obtain ⟨terms, hterms⟩ := exists_terms hf dayCount flows
    obtain ⟨terms', hterms'⟩ := exists_terms hf dayCount flows'
    have hcount := (hfree flows' hsame).1 terms terms' hterms hterms'
    rwa [signChanges_eq hf hterms, signChanges_eq hf hterms'] at hcount
  · intro hcount flows' hsame
    have hcounts {terms terms' : List (F × F)} (hterms : flows.mapM (term f dayCount) = .ok terms)
        (hterms' : flows'.mapM (term f dayCount) = .ok terms') : signChanges f ⟨terms'⟩ = signChanges f ⟨terms⟩ := by
      rw [signChanges_eq hf hterms, signChanges_eq hf hterms', hcount flows' hsame]
    refine ⟨fun _ _ => hcounts, fun policy outcome hsolved => ?_⟩
    obtain ⟨series, hbuild, hone⟩ := changes_of_solved hsolved
    have hrefused {e : SolverRefusal} (he : AboutSigns e) : solve f flows' policy dayCount ≠ .error e := fun hrefused => by
      obtain ⟨series', hbuild', hother⟩ := changes_of_refused hrefused he
      exact hother ((hcounts (build_ok hbuild) (build_ok hbuild')).trans hone)
    exact ⟨hrefused trivial, fun n => hrefused trivial⟩

/-! ### A day with a deposit and the final value -/

section

/-- Exact arithmetic, with whole exponents. -/
def rationals : Floats ℚ where
  ofDec d := some d.val
  ofInt n := n
  add x y := x + y
  sub x y := x - y
  mul x y := x * y
  div x y := x / y
  pow x y := x ^ y.floor.toNat
  abs x := if x < 0 then -x else x
  signum x := if x < 0 then -1 else 1
  eq x y := x = y
  lt x y := x < y
  le x y := x ≤ y
  isFinite _ := true

theorem rationals_signPreserving : SignPreserving rationals where
  converts d := ⟨d.val, rfl, rfl⟩
  dates _ _ := rfl
  start := rfl
  zero := by
    rintro d x ⟨⟩
    simp [rationals]
  sign := by
    rintro d e x y ⟨⟩ ⟨⟩ hd he
    rcases hd.lt_or_gt with hd | hd <;> rcases he.lt_or_gt with he | he <;>
      simp [rationals, hd, he, hd.not_gt, he.not_gt] <;> norm_num

def depositFirst : List SolverFlow :=
  [⟨0, ⟨-100, by norm_num [decimalMax, abs_le]⟩⟩, ⟨365, ⟨-10, by norm_num [decimalMax, abs_le]⟩⟩,
    ⟨365, ⟨120, by norm_num [decimalMax, abs_le]⟩⟩]

def valueFirst : List SolverFlow :=
  [⟨0, ⟨-100, by norm_num [decimalMax, abs_le]⟩⟩, ⟨365, ⟨120, by norm_num [decimalMax, abs_le]⟩⟩,
    ⟨365, ⟨-10, by norm_num [decimalMax, abs_le]⟩⟩]

def samplePolicy : SolverPolicy ℚ := ⟨1 / 1000, 100, -1 / 2, 1 / 2⟩

def depositFirstSeries : Series ℚ := ⟨[(0, -100), (1, -10), (1, 120)]⟩
def valueFirstSeries : Series ℚ := ⟨[(0, -100), (1, 120), (1, -10)]⟩

theorem build_depositFirst : build rationals depositFirst .act365 = .ok depositFirstSeries := by decide +kernel

theorem build_valueFirst : build rationals valueFirst .act365 = .ok valueFirstSeries := by decide +kernel

/-- The value of either series at a rate. -/
def sampleValue (rate : ℚ) : ℚ := 110 / (1 + rate) - 100

theorem npv_sample : npv rationals depositFirstSeries = sampleValue ∧ npv rationals valueFirstSeries = sampleValue := by
  have hzero : (Rat.floor 0).toNat = 0 := rfl
  have hone : (Rat.floor 1).toNat = 1 := rfl
  constructor
  · funext rate
    simp only [npv, depositFirstSeries, rationals, sampleValue, List.foldl_cons, List.foldl_nil, hzero, hone]
    ring
  · funext rate
    simp only [npv, valueFirstSeries, rationals, sampleValue, List.foldl_cons, List.foldl_nil, hzero, hone]
    ring

/-- The scan meets the root and nothing else. -/
theorem brackets_sample {series : Series ℚ} (h : npv rationals series = sampleValue) :
    brackets rationals series samplePolicy = .ok [(1 / 10, 1 / 10)] := by
  unfold brackets scanPoint
  rw [h]
  decide +kernel

theorem solve_depositFirst :
    solve rationals depositFirst samplePolicy .act365 = .ok ⟨⟨1 / 10, 0, 0⟩, samplePolicy, .act365⟩ := by
  have hchanges : signChanges rationals depositFirstSeries = 1 := by decide +kernel
  have hrefine : refine rationals depositFirstSeries (1 / 10, 1 / 10) samplePolicy = .ok ⟨1 / 10, 0, 0⟩ := by
    decide +kernel
  unfold solve
  rw [build_depositFirst, ok_bind, hchanges, brackets_sample npv_sample.1]
  rw [if_neg one_ne_zero, ok_bind]
  dsimp only
  rw [if_neg (lt_irrefl 1), hrefine]
  rfl

theorem solve_valueFirst :
    solve rationals valueFirst samplePolicy .act365 = .error (.uniquenessNotProven 2) := by
  have hchanges : signChanges rationals valueFirstSeries = 2 := by decide +kernel
  unfold solve
  rw [build_valueFirst, ok_bind, hchanges, brackets_sample npv_sample.2]
  rfl

/-- A deposit on the day of the final value: recorded before it the rate is one tenth, recorded after it the rate is
    refused. -/
theorem order_decides :
    SignPreserving rationals ∧ Chronological depositFirst ∧ SameDays depositFirst valueFirst ∧
      solve rationals depositFirst samplePolicy .act365 = .ok ⟨⟨1 / 10, 0, 0⟩, samplePolicy, .act365⟩ ∧
      solve rationals valueFirst samplePolicy .act365 = .error (.uniquenessNotProven 2) ∧
      ¬ OrderFree rationals .act365 depositFirst := by
  have hsame : SameDays depositFirst valueFirst :=
    .reordered ((List.Perm.swap _ _ []).cons _) (by unfold Chronological; decide)
  exact ⟨rationals_signPreserving, by unfold Chronological; decide, hsame, solve_depositFirst, solve_valueFirst,
    fun hfree => ((hfree _ hsame).2 _ _ solve_depositFirst).2 2 solve_valueFirst⟩

theorem orderFree_iff_sample : OrderFree rationals .act365 depositFirst ↔ Orderly depositFirst :=
  orderFree_iff rationals_signPreserving (by unfold Chronological; decide)

end

end Xirr
end Iaam
