import Iaam.Batch
import Iaam.Lib.Runs
import Iaam.Lib.Search
import Iaam.Lib.Totals

/-! The comparison of a batch with the figures its source printed. Every stated figure has one check, against the sum of the
movements of its account and currency, and no movement is left out of the totals or counted twice. The order of the
movements does not matter: what arrives and what leaves are summed apart, so that a sum that fits has parts that fit. -/

namespace Iaam
namespace Batch
open Outcome

/-! ### What the movements come to -/

def underKey (movements : List BatchMovement) (k : Key) : List BatchMovement := movements.filter fun m => m.key = k

def BatchMovement.arrives (m : BatchMovement) : Int := max m.amount.amount.raw 0

def BatchMovement.leaves (m : BatchMovement) : Int := max (-m.amount.amount.raw) 0

def arrived (movements : List BatchMovement) (k : Key) : Int := ((underKey movements k).map BatchMovement.arrives).sum

def left (movements : List BatchMovement) (k : Key) : Int := ((underKey movements k).map BatchMovement.leaves).sum

/-- A bucket that folded the movements of a key. -/
structure Bucket.Sums (b : Bucket) (movements : List BatchMovement) (k : Key) : Prop where
  rows : b.rows = (underKey movements k).length
  debit : b.debit.amount.raw = arrived movements k
  credit : b.credit.amount.raw = left movements k
  debitCurrency : b.debit.currency = (ofLex k).2
  creditCurrency : b.credit.currency = (ofLex k).2

/-- The buckets of a batch: one for each key that a movement has. -/
structure Shows (movements : List BatchMovement) (folded : Tree.Map Key Bucket) : Prop where
  sums : ∀ k, Bucket.Sums (folded[k]?.getD (Bucket.empty (ofLex k).2)) movements k
  keys : ∀ k, folded[k]? = none ↔ underKey movements k = []

section
variable {movements : List BatchMovement} {folded folded' : Tree.Map Key Bucket} {k : Key} {m : BatchMovement} {b b' : Bucket}

theorem underKey_append (l l' : List BatchMovement) (k : Key) : underKey (l ++ l') k = underKey l k ++ underKey l' k :=
  List.filter_append ..

theorem underKey_self (m : BatchMovement) : underKey [m] m.key = [m] := by simp [underKey]

theorem underKey_of_ne (h : m.key ≠ k) : underKey [m] k = [] := by simp [underKey, h]

theorem arrives_nonneg (m : BatchMovement) : 0 ≤ m.arrives := le_max_right _ _

theorem leaves_nonneg (m : BatchMovement) : 0 ≤ m.leaves := le_max_right _ _

theorem arrived_append (l l' : List BatchMovement) (k : Key) : arrived (l ++ l') k = arrived l k + arrived l' k := by
  rw [arrived, underKey_append, List.map_append, List.sum_append, arrived, arrived]

theorem left_append (l l' : List BatchMovement) (k : Key) : left (l ++ l') k = left l k + left l' k := by
  rw [left, underKey_append, List.map_append, List.sum_append, left, left]

theorem arrived_nonneg (l : List BatchMovement) (k : Key) : 0 ≤ arrived l k :=
  List.sum_nonneg fun _ hx => by
    obtain ⟨m, -, rfl⟩ := List.mem_map.mp hx
    exact arrives_nonneg m

theorem left_nonneg (l : List BatchMovement) (k : Key) : 0 ≤ left l k :=
  List.sum_nonneg fun _ hx => by
    obtain ⟨m, -, rfl⟩ := List.mem_map.mp hx
    exact leaves_nonneg m

/-! ### One movement -/

/-- A bucket takes an amount of its own currency where both of its sums still fit. -/
theorem exists_add {amount : Money} (hd : b.debit.currency = amount.currency) (hc : b.credit.currency = amount.currency)
    (hdebit : FitsI64 (b.debit.amount.raw + max amount.amount.raw 0))
    (hcredit : FitsI64 (b.credit.amount.raw + max (-amount.amount.raw) 0)) : ∃ b', b.add amount = .ok b' := by
  by_cases hsign : 0 ≤ amount.amount.raw
  · rw [max_eq_left hsign] at hdebit
    refine ⟨{ b with rows := b.rows + 1, debit := ⟨⟨_, hdebit⟩, b.debit.currency⟩ }, ?_⟩
    rw [Bucket.add, if_pos hsign, (Money.tryAdd_ok (m := ⟨⟨_, hdebit⟩, b.debit.currency⟩)).mpr ⟨hd, rfl, rfl⟩]
    rfl
  · rw [max_eq_left (by omega), ← sub_eq_add_neg] at hcredit
    refine ⟨{ b with rows := b.rows + 1, credit := ⟨⟨_, hcredit⟩, b.credit.currency⟩ }, ?_⟩
    rw [Bucket.add, if_neg hsign, (Money.trySub_ok (m := ⟨⟨_, hcredit⟩, b.credit.currency⟩)).mpr ⟨hc, rfl, rfl⟩]
    rfl

/-- What a bucket is after one more movement. -/
theorem Bucket.Sums.add (h : b.Sums movements m.key) (hadd : b.add m.amount = .ok b') :
    b'.Sums (movements ++ [m]) m.key := by
  have hrows : (underKey (movements ++ [m]) m.key).length = (underKey movements m.key).length + 1 := by
    rw [underKey_append, underKey_self, List.length_append, List.length_singleton]
  have harrived : arrived (movements ++ [m]) m.key = arrived movements m.key + max m.amount.amount.raw 0 := by
    rw [arrived_append, arrived, arrived, underKey_self, List.map_singleton, List.sum_singleton, BatchMovement.arrives]
  have hleft : left (movements ++ [m]) m.key = left movements m.key + max (-m.amount.amount.raw) 0 := by
    rw [left_append, left, left, underKey_self, List.map_singleton, List.sum_singleton, BatchMovement.leaves]
  simp only [Bucket.add] at hadd
  split at hadd
  · next hsign =>
    obtain ⟨debit, hdebit, hadd⟩ := bind_ok.mp hadd
    cases hadd
    obtain ⟨-, hraw, hcur⟩ := Money.tryAdd_ok.mp hdebit
    refine ⟨?_, ?_, ?_, hcur.trans h.debitCurrency, h.creditCurrency⟩
    · rw [hrows, ← h.rows]
    · rw [harrived, max_eq_left hsign, ← h.debit]
      exact hraw
    · rw [hleft, max_eq_right (by omega), add_zero]
      exact h.credit
  · next hsign =>
    obtain ⟨credit, hcredit, hadd⟩ := bind_ok.mp hadd
    cases hadd
    obtain ⟨-, hraw, hcur⟩ := Money.trySub_ok.mp hcredit
    refine ⟨?_, ?_, ?_, h.debitCurrency, hcur.trans h.creditCurrency⟩
    · rw [hrows, ← h.rows]
    · rw [harrived, max_eq_right (by omega), add_zero]
      exact h.debit
    · rw [hleft, max_eq_left (by omega), ← h.credit, ← sub_eq_add_neg]
      exact hraw

theorem shows_empty : Shows [] ∅ := by
  refine ⟨fun k => ?_, fun k => ?_⟩
  · rw [Std.ExtTreeMap.getElem?_empty, Option.getD_none]
    exact ⟨rfl, rfl, rfl, rfl, rfl⟩
  · simp [underKey]

/-- A movement only touches the bucket of its key. -/
theorem Shows.add (h : Shows movements folded) (hadd : foldMovement folded m = .ok folded') :
    Shows (movements ++ [m]) folded' := by
  obtain ⟨b, hb, hadd⟩ := bind_ok.mp hadd
  cases hadd
  have hsums : b.Sums (movements ++ [m]) m.key := (h.sums m.key).add hb
  refine ⟨fun k => ?_, fun k => ?_⟩
  · by_cases hk : m.key = k
    · subst hk
      rw [Tree.get_insert_self]
      exact hsums
    · rw [Tree.get_insert_of_ne hk]
      have hold := h.sums k
      refine ⟨?_, ?_, ?_, hold.debitCurrency, hold.creditCurrency⟩
      · rw [underKey_append, underKey_of_ne hk, List.append_nil]
        exact hold.rows
      · rw [arrived_append, hold.debit, arrived, arrived, underKey_of_ne hk, List.map_nil, List.sum_nil, add_zero]
      · rw [left_append, hold.credit, left, left, underKey_of_ne hk, List.map_nil, List.sum_nil, add_zero]
  · by_cases hk : m.key = k
    · subst hk
      simp [underKey_append, underKey_self]
    · rw [Tree.get_insert_of_ne hk, underKey_append, underKey_of_ne hk, List.append_nil]
      exact h.keys k

/-! ### The whole batch -/

theorem Shows.foldlM {rest : List BatchMovement} (hshows : Shows movements folded)
    (h : rest.foldlM foldMovement folded = .ok folded') : Shows (movements ++ rest) folded' := by
  induction rest generalizing movements folded with
  | nil =>
    cases h
    rw [List.append_nil]
    exact hshows
  | cons m rest ih =>
    obtain ⟨acc, hstep, h⟩ := bind_ok.mp h
    rw [List.append_cons]
    exact ih (hshows.add hstep) h

theorem shows_of_foldlM (h : movements.foldlM foldMovement ∅ = .ok folded) : Shows movements folded :=
  shows_empty.foldlM h

/-- Sums that fit for the whole batch fit for the part of it that comes first. -/
theorem exists_foldlM (movements : List BatchMovement) (harrived : ∀ k, FitsI64 (arrived movements k))
    (hleft : ∀ k, FitsI64 (left movements k)) : ∃ folded, movements.foldlM foldMovement ∅ = .ok folded := by
  induction movements using List.reverseRecOn with
  | nil => exact ⟨∅, rfl⟩
  | append_singleton movements m ih =>
    have hbefore : ∀ k, FitsI64 (arrived movements k) := fun k => by
      have hk := harrived k
      rw [arrived_append] at hk
      exact ⟨le_trans (by decide) (arrived_nonneg movements k),
        lt_of_le_of_lt (le_add_of_nonneg_right (arrived_nonneg [m] k)) hk.2⟩
    have hbefore' : ∀ k, FitsI64 (left movements k) := fun k => by
      have hk := hleft k
      rw [left_append] at hk
      exact ⟨le_trans (by decide) (left_nonneg movements k),
        lt_of_le_of_lt (le_add_of_nonneg_right (left_nonneg [m] k)) hk.2⟩
    obtain ⟨folded, hfolded⟩ := ih hbefore hbefore'
    have hsums := (shows_of_foldlM hfolded).sums m.key
    have hdebit := harrived m.key
    rw [arrived_append, ← hsums.debit, arrived, underKey_self, List.map_singleton, List.sum_singleton] at hdebit
    have hcredit := hleft m.key
    rw [left_append, ← hsums.credit, left, underKey_self, List.map_singleton, List.sum_singleton] at hcredit
    obtain ⟨b, hb⟩ := exists_add hsums.debitCurrency hsums.creditCurrency hdebit hcredit
    refine ⟨folded.insert m.key b, ?_⟩
    rw [List.foldlM_append, bind_ok]
    exact ⟨folded, hfolded, bind_ok.mpr ⟨_, bind_ok.mpr ⟨b, hb, rfl⟩, rfl⟩⟩

theorem Bucket.Sums.unique (h : b.Sums movements k) (h' : b'.Sums movements k) : b = b' := by
  obtain ⟨rows, ⟨debit, debitCurrency⟩, credit, creditCurrency⟩ := b
  obtain ⟨rows', ⟨debit', debitCurrency'⟩, credit', creditCurrency'⟩ := b'
  have hrows : rows = rows' := h.rows.trans h'.rows.symm
  have hdebit : debit = debit' := PostedMinor.ext_raw (h.debit.trans h'.debit.symm)
  have hcredit : credit = credit' := PostedMinor.ext_raw (h.credit.trans h'.credit.symm)
  have hdc : debitCurrency = debitCurrency' := h.debitCurrency.trans h'.debitCurrency.symm
  have hcc : creditCurrency = creditCurrency' := h.creditCurrency.trans h'.creditCurrency.symm
  rw [hrows, hdebit, hcredit, hdc, hcc]

theorem Shows.unique (h : Shows movements folded) (h' : Shows movements folded') : folded = folded' := by
  refine Std.ExtTreeMap.ext_getElem? fun k => ?_
  have hsums := h.sums k
  have hsums' := h'.sums k
  cases hk : folded[k]? with
  | none => exact ((h'.keys k).mpr ((h.keys k).mp hk)).symm
  | some b =>
    cases hk' : folded'[k]? with
    | none =>
      rw [(h.keys k).mpr ((h'.keys k).mp hk')] at hk
      cases hk
    | some b' =>
      rw [hk] at hsums
      rw [hk'] at hsums'
      exact congrArg some (Bucket.Sums.unique hsums hsums')

end

/-! ### Movements in another order -/

section
variable {movements movements' : List BatchMovement} {folded : Tree.Map Key Bucket} {k : Key}

theorem underKey_perm (h : movements'.Perm movements) (k : Key) : (underKey movements' k).Perm (underKey movements k) :=
  h.filter _

theorem arrived_perm (h : movements'.Perm movements) (k : Key) : arrived movements' k = arrived movements k :=
  ((underKey_perm h k).map _).sum_eq

theorem left_perm (h : movements'.Perm movements) (k : Key) : left movements' k = left movements k :=
  ((underKey_perm h k).map _).sum_eq

theorem Shows.perm (h : Shows movements folded) (hperm : movements'.Perm movements) : Shows movements' folded := by
  refine ⟨fun k => ?_, fun k => ?_⟩
  · obtain ⟨hrows, hdebit, hcredit, hdebitCurrency, hcreditCurrency⟩ := h.sums k
    refine ⟨?_, ?_, ?_, hdebitCurrency, hcreditCurrency⟩
    · rw [(underKey_perm hperm k).length_eq]
      exact hrows
    · rw [arrived_perm hperm]
      exact hdebit
    · rw [left_perm hperm]
      exact hcredit
  · rw [h.keys k, ← List.length_eq_zero_iff, ← List.length_eq_zero_iff, (underKey_perm hperm k).length_eq]

theorem foldlM_perm (hperm : movements'.Perm movements) (h : movements.foldlM foldMovement ∅ = .ok folded) :
    movements'.foldlM foldMovement ∅ = .ok folded := by
  have hshows := shows_of_foldlM h
  have harrived : ∀ k, FitsI64 (arrived movements' k) := fun k => by
    rw [arrived_perm hperm, ← (hshows.sums k).debit]
    exact PostedMinor.fits _
  have hleft : ∀ k, FitsI64 (left movements' k) := fun k => by
    rw [left_perm hperm, ← (hshows.sums k).credit]
    exact PostedMinor.fits _
  obtain ⟨folded', hfolded⟩ := exists_foldlM movements' harrived hleft
  rw [hfolded, (shows_of_foldlM hfolded).unique (hshows.perm hperm)]

theorem total_perm (hperm : movements'.Perm movements) {totals : List BatchTotal} (h : total movements = .ok totals) :
    total movements' = .ok totals := by
  obtain ⟨folded, hfolded, h⟩ := bind_ok.mp h
  exact bind_ok.mpr ⟨folded, foldlM_perm hperm hfolded, h⟩

end

/-! ### The totals of each key -/

/-- A total that counts the movements of a key, each of them once. -/
structure BatchTotal.Counts (t : BatchTotal) (movements : List BatchMovement) (k : Key) : Prop where
  key : t.key = k
  rows : t.rows = (underKey movements k).length
  debit : t.debit.raw = arrived movements k
  credit : t.credit.raw = left movements k
  net : t.net.raw = arrived movements k - left movements k

section
variable {movements : List BatchMovement} {folded : Tree.Map Key Bucket} {totals : List BatchTotal} {k : Key}

theorem counts_of_totalOf {b : Bucket} {t : BatchTotal} (hsums : b.Sums movements k) (h : totalOf (k, b) = .ok t) :
    t.Counts movements k := by
  obtain ⟨net, hnet, h⟩ := bind_ok.mp h
  cases h
  obtain ⟨-, hraw, -⟩ := Money.trySub_ok.mp hnet
  refine ⟨rfl, hsums.rows, hsums.debit, hsums.credit, ?_⟩
  rw [← hsums.debit, ← hsums.credit]
  exact hraw

/-- What is read for a key: its total, and zeros for a key without one. -/
def observedAt (totals : List BatchTotal) (k : Key) : BatchTotal :=
  (totals.find? fun t => t.account = (ofLex k).1 && t.currency = (ofLex k).2).getD
    ⟨(ofLex k).1, (ofLex k).2, 0, .zero, .zero, .zero⟩

theorem counts_of_mem (h : total movements = .ok totals) {t : BatchTotal} (ht : t ∈ totals) :
    t.Counts movements t.key ∧ underKey movements t.key ≠ [] := by
  obtain ⟨folded, hfolded, h⟩ := bind_ok.mp h
  have hshows := shows_of_foldlM hfolded
  obtain ⟨⟨k, b⟩, hentry, hof⟩ := Runs.exists_left (Runs.mapM_ok.mp h) ht
  have hget : folded[k]? = some b := Std.ExtTreeMap.mem_toList_iff_getElem?_eq_some.mp hentry
  have hsums := hshows.sums k
  rw [hget] at hsums
  have hcounts := counts_of_totalOf hsums hof
  rw [hcounts.key]
  refine ⟨hcounts, fun hnone => ?_⟩
  rw [(hshows.keys k).mpr hnone] at hget
  cases hget

theorem exists_total (h : total movements = .ok totals) (hk : underKey movements k ≠ []) : ∃ t ∈ totals, t.key = k := by
  obtain ⟨folded, hfolded, h⟩ := bind_ok.mp h
  have hshows := shows_of_foldlM hfolded
  obtain ⟨b, hget⟩ := Option.ne_none_iff_exists'.mp (mt (hshows.keys k).mp hk)
  obtain ⟨t, ht, hof⟩ := Runs.mem_of_mapM h (Std.ExtTreeMap.mem_toList_iff_getElem?_eq_some.mpr hget)
  have hsums := hshows.sums k
  rw [hget] at hsums
  exact ⟨t, ht, (counts_of_totalOf hsums hof).key⟩

theorem counts_observedAt (h : total movements = .ok totals) (k : Key) : (observedAt totals k).Counts movements k := by
  unfold observedAt
  cases hfind : totals.find? fun t => t.account = (ofLex k).1 && t.currency = (ofLex k).2 with
  | some t =>
    have hkey : t.key = k := by
      have hpass := List.find?_some hfind
      rw [Bool.and_eq_true, decide_eq_true_eq, decide_eq_true_eq] at hpass
      exact congrArg toLex (Prod.ext hpass.1 hpass.2)
    rw [Option.getD_some, ← hkey]
    exact (counts_of_mem h (List.mem_of_find?_eq_some hfind)).1
  | none =>
    have hnone : underKey movements k = [] := by
      by_contra hk
      obtain ⟨t, ht, rfl⟩ := exists_total h hk
      have hpass := List.find?_eq_none.mp hfind t ht
      simp [BatchTotal.key] at hpass
    rw [Option.getD_none]
    refine ⟨rfl, ?_, ?_, ?_, ?_⟩ <;> simp [arrived, left, hnone]

end

/-! ### The checks of a section -/

def ControlSection.stated (s : ControlSection) : ControlFigure → Option PostedMinor
  | .closingBalance => s.closing
  | .debitTurnover => s.debitTurnover
  | .creditTurnover => s.creditTurnover

/-- What the movements make of a figure. A closing balance comes of the opening one. -/
def comesTo (movements : List BatchMovement) (s : ControlSection) : ControlFigure → Option Int
  | .closingBalance => s.opening.map fun opening => opening.raw + (arrived movements s.key - left movements s.key)
  | .debitTurnover => some (arrived movements s.key)
  | .creditTurnover => some (left movements s.key)

/-- The right answer on a stated figure. -/
inductive Answers (figure : ControlFigure) (claimed : PostedMinor) : Option Int → ControlCheck → Prop
  | matched {observed : PostedMinor} : claimed.raw = observed.raw →
      Answers figure claimed (some observed.raw) (.matched figure claimed observed)
  | mismatched {observed delta : PostedMinor} : claimed.raw ≠ observed.raw → delta.raw = claimed.raw - observed.raw →
      Answers figure claimed (some observed.raw) (.mismatched figure claimed observed delta)
  | notChecked : Answers figure claimed none (.notChecked figure claimed .openingBalanceNotStated)

/-- The checks of one figure: one with the right answer where it was stated, and none where it was not. -/
def Settles (figure : ControlFigure) (stated : Option PostedMinor) (value : Option Int) (checks : List ControlCheck) :
    Prop :=
  match stated with
  | some claimed => ∃ check, checks = [check] ∧ Answers figure claimed value check
  | none => checks = []

/-- Each figure of a section is settled by the checks of that figure. -/
def ChecksFor (movements : List BatchMovement) (s : ControlSection) (checks : List ControlCheck) : Prop :=
  ∀ figure, Settles figure (s.stated figure) (comesTo movements s figure) (checks.filter fun c => c.figure = figure)

section
variable {movements : List BatchMovement} {s : ControlSection} {observed : BatchTotal} {figure : ControlFigure}
  {claimed sum : PostedMinor} {currency : CurrencyCode} {check : ControlCheck} {checks : List ControlCheck}

theorem answers_of_checked (h : checked figure claimed sum currency = .ok check) :
    Answers figure claimed (some sum.raw) check := by
  simp only [checked] at h
  split at h
  · next heq =>
    cases h
    exact .matched (congrArg PostedMinor.raw heq)
  · next hne =>
    obtain ⟨delta, hdelta, h⟩ := bind_ok.mp h
    cases h
    exact .mismatched (fun heq => hne (PostedMinor.ext_raw heq)) (Money.trySub_ok.mp hdelta).2.1

theorem figure_of_answers {value : Option Int} (h : Answers figure claimed value check) : check.figure = figure := by
  cases h <;> rfl

theorem settles_of_turnoverCheck {stated : Option PostedMinor} (h : turnoverCheck figure stated sum currency = .ok checks) :
    Settles figure stated (some sum.raw) checks := by
  cases stated with
  | none =>
    cases h
    rfl
  | some claimed =>
    obtain ⟨check, hcheck, h⟩ := bind_ok.mp h
    cases h
    exact ⟨check, rfl, answers_of_checked hcheck⟩

theorem settles_of_closingCheck (h : closingCheck s sum = .ok checks) :
    Settles .closingBalance s.closing (s.opening.map fun opening => opening.raw + sum.raw) checks := by
  simp only [closingCheck] at h
  split at h
  · next hclosing =>
    cases h
    rw [hclosing]
    rfl
  · next hclosing hopening =>
    cases h
    rw [hclosing, hopening]
    exact ⟨_, rfl, .notChecked⟩
  · next hclosing hopening =>
    obtain ⟨derived, hderived, h⟩ := bind_ok.mp h
    obtain ⟨check, hcheck, h⟩ := bind_ok.mp h
    cases h
    rw [hclosing, hopening, Option.map_some, ← (Money.tryAdd_ok.mp hderived).2.1]
    exact ⟨check, rfl, answers_of_checked hcheck⟩

theorem filter_of_settles {stated : Option PostedMinor} {value : Option Int} (h : Settles figure stated value checks)
    (other : ControlFigure) :
    checks.filter (fun c => c.figure = other) = if figure = other then checks else [] := by
  cases stated with
  | none =>
    cases h
    simp
  | some claimed =>
    obtain ⟨check, rfl, hanswers⟩ := h
    rw [List.filter_singleton, figure_of_answers hanswers]
    split <;> simp_all

theorem checksFor_of_ok (hcounts : observed.Counts movements s.key) (h : checksFor s observed = .ok checks) :
    ChecksFor movements s checks := by
  obtain ⟨debit, hdebit, h⟩ := bind_ok.mp h
  obtain ⟨credit, hcredit, h⟩ := bind_ok.mp h
  obtain ⟨closing, hclosing, h⟩ := bind_ok.mp h
  cases h
  have hd := settles_of_turnoverCheck hdebit
  have hc := settles_of_turnoverCheck hcredit
  have hcl := settles_of_closingCheck hclosing
  rw [hcounts.debit] at hd
  rw [hcounts.credit] at hc
  rw [hcounts.net] at hcl
  intro figure
  rw [List.filter_append, List.filter_append, filter_of_settles hd, filter_of_settles hc, filter_of_settles hcl]
  cases figure with
  | closingBalance =>
    simp only [reduceCtorEq, if_false, if_true, List.nil_append, ControlSection.stated, comesTo]
    exact hcl
  | debitTurnover =>
    simp only [reduceCtorEq, if_false, if_true, List.append_nil, ControlSection.stated, comesTo]
    exact hd
  | creditTurnover =>
    simp only [reduceCtorEq, if_false, if_true, List.append_nil, List.nil_append, ControlSection.stated, comesTo]
    exact hc

end

/-! ### The comparison -/

/-- A comparison that is complete: what was stated is checked, and what was moved is counted, once. -/
structure Complete (sections : List ControlSection) (movements : List BatchMovement) (comparisons : List ControlComparison) :
    Prop where
  keys : (comparisons.map ControlComparison.key).Nodup
  stated : ∀ s ∈ sections, ∃ c ∈ comparisons, c.stated = some s ∧ c.key = s.key ∧ ChecksFor movements s c.checks ∧
    c.fit = some (fitOf s movements)
  unstated : ∀ c ∈ comparisons, c.stated = none → c.checks = []
  /-- With the keys apart, the total of its key is the only one that counts a movement. -/
  counted : ∀ m ∈ movements, ∃ c ∈ comparisons, c.key = m.key
  observed : ∀ c ∈ comparisons, c.observed.Counts movements c.key
  rows : (comparisons.map fun c => c.observed.rows).sum = movements.length

section
variable {sections : List ControlSection} {movements movements' : List BatchMovement} {totals : List BatchTotal}
  {comparisons : List ControlComparison} {c : ControlComparison} {k : Key}

theorem mem_keysOf : k ∈ keysOf totals sections ↔ (∃ t ∈ totals, t.key = k) ∨ ∃ s ∈ sections, s.key = k := by
  rw [keysOf, Std.ExtTreeSet.mem_toList, Tree.mem_foldl_insert_set, List.mem_append, List.mem_map, List.mem_map]
  simp

theorem compareKey_ok (h : compareKey sections movements totals k = .ok c) :
    c.key = k ∧ c.stated = sections.find? (fun s => s.key = k) ∧ c.observed = observedAt totals k ∧
      (∀ s, c.stated = some s → checksFor s c.observed = .ok c.checks) ∧ (c.stated = none → c.checks = []) ∧
      c.fit = c.stated.map fun s => fitOf s movements := by
  have hfind : (fun s : ControlSection => decide (s.key = k)) =
      fun s => decide (s.account = (ofLex k).1) && decide (s.currency = (ofLex k).2) := by
    funext s
    rw [← Bool.decide_and, decide_eq_decide]
    exact ⟨fun e => e ▸ ⟨rfl, rfl⟩, fun e => congrArg toLex (Prod.ext e.1 e.2)⟩
  rw [hfind]
  obtain ⟨⟨account, currency⟩, rfl⟩ := toLex.surjective k
  simp only [compareKey, ofLex_toLex] at h
  split at h
  · next s hfound =>
    obtain ⟨checks, hchecks, h⟩ := bind_ok.mp h
    cases h
    refine ⟨rfl, rfl, rfl, fun s' hs' => ?_, fun hnone => ?_, rfl⟩
    · rw [hfound] at hs'
      cases hs'
      exact hchecks
    · rw [hfound] at hnone
      cases hnone
  · next hfound =>
    cases h
    refine ⟨rfl, rfl, rfl, fun s hs => ?_, fun _ => rfl, rfl⟩
    rw [hfound] at hs
    cases hs

/-- The comparisons stand one for each key, in the order of the keys. -/
theorem keys_of_mapM (h : (keysOf totals sections).mapM (compareKey sections movements totals) = .ok comparisons) :
    comparisons.map ControlComparison.key = keysOf totals sections := by
  have hkeys : List.Forall₂ (fun key c => key = ControlComparison.key c) (keysOf totals sections) comparisons :=
    (Runs.mapM_ok.mp h).imp fun _ _ hc => (compareKey_ok hc).1.symm
  rw [← List.forall₂_map_right_iff, List.forall₂_eq_eq_eq] at hkeys
  exact hkeys.symm

theorem exists_comparison (h : (keysOf totals sections).mapM (compareKey sections movements totals) = .ok comparisons)
    (hk : k ∈ keysOf totals sections) : ∃ c ∈ comparisons, compareKey sections movements totals k = .ok c ∧ c.key = k := by
  obtain ⟨c, hc, hof⟩ := Runs.mem_of_mapM h hk
  exact ⟨c, hc, hof, (compareKey_ok hof).1⟩

theorem complete_of_ok (hsections : (sections.map ControlSection.key).Nodup)
    (h : compare sections movements = .ok comparisons) : Complete sections movements comparisons := by
  obtain ⟨totals, htotals, h⟩ := bind_ok.mp h
  have hkeys := keys_of_mapM h
  have hnodup : (comparisons.map ControlComparison.key).Nodup := hkeys ▸ Tree.nodup_toList
  have hof : ∀ c ∈ comparisons, compareKey sections movements totals c.key = .ok c := fun c hc => by
    obtain ⟨k, -, hof⟩ := Runs.exists_left (Runs.mapM_ok.mp h) hc
    rw [(compareKey_ok hof).1]
    exact hof
  have hobserved : ∀ c ∈ comparisons, c.observed.Counts movements c.key := fun c hc => by
    rw [(compareKey_ok (hof c hc)).2.2.1]
    exact counts_observedAt htotals c.key
  have hcounted : ∀ m ∈ movements, ∃ c ∈ comparisons, c.key = m.key := fun m hm => by
    have hunder : underKey movements m.key ≠ [] := List.ne_nil_of_mem (List.mem_filter.mpr ⟨hm, by simp⟩)
    obtain ⟨c, hc, -, hkey⟩ := exists_comparison h (mem_keysOf.mpr (.inl (exists_total htotals hunder)))
    exact ⟨c, hc, hkey⟩
  refine ⟨hnodup, fun s hs => ?_, fun c hc => (compareKey_ok (hof c hc)).2.2.2.2.1, hcounted, hobserved, ?_⟩
  · obtain ⟨c, hc, hof, hkey⟩ := exists_comparison h (mem_keysOf.mpr (.inr ⟨s, hs, rfl⟩))
    obtain ⟨-, hstated, -, hchecks, -, hfit⟩ := compareKey_ok hof
    rw [(Search.find_key_eq_some hsections).mpr ⟨hs, rfl⟩] at hstated
    rw [hstated] at hfit
    exact ⟨c, hc, hstated, hkey, checksFor_of_ok (hkey ▸ hobserved c hc) (hchecks s hstated), hfit⟩
  · have hall : ∀ m ∈ movements, m.key ∈ comparisons.map ControlComparison.key := fun m hm => by
      obtain ⟨c, hc, hkey⟩ := hcounted m hm
      exact hkey ▸ List.mem_map_of_mem hc
    rw [← Counted.sum_length_filter_key hnodup hall, List.map_map]
    exact congrArg List.sum (List.map_congr_left fun c hc => (hobserved c hc).rows)

/-! ### Movements in another order -/

/-- The first and the last of the days outside do not depend on the order in which the days come. -/
instance (period : AssertionPeriod) : RightCommutative (IntervalFit.add period) where
  right_comm fit m m' := by
    unfold IntervalFit.add
    cases m.date with
    | none =>
      cases m'.date with
      | none => rfl
      | some date' => by_cases h' : period.contains date' <;> simp [h']
    | some date =>
      cases m'.date with
      | none => by_cases h : period.contains date <;> simp [h]
      | some date' =>
        by_cases h : period.contains date <;> by_cases h' : period.contains date' <;> simp only [h, h', if_true]
        cases fit.span with
        | none => simp [min_comm date, max_comm date]
        | some span => simp [min_right_comm span.1, max_right_comm span.2]

theorem fitOf_perm (hperm : movements'.Perm movements) (s : ControlSection) : fitOf s movements' = fitOf s movements :=
  (hperm.filter _).foldl_eq _

theorem compare_perm (hperm : movements'.Perm movements) (h : compare sections movements = .ok comparisons) :
    compare sections movements' = .ok comparisons := by
  obtain ⟨totals, htotals, h⟩ := bind_ok.mp h
  have hkey : compareKey sections movements' totals = compareKey sections movements totals := by
    funext k
    simp only [compareKey, fitOf_perm hperm]
  rw [compare, total_perm hperm htotals, bind_ok]
  exact ⟨totals, rfl, hkey ▸ h⟩

/-- Every figure that a section states has one check, against the exact sum of the movements of its account and currency;
    every movement is counted in one total; and the movements may come in any order. -/
theorem compare_complete (hsections : (sections.map ControlSection.key).Nodup)
    (h : compare sections movements = .ok comparisons) :
    Complete sections movements comparisons ∧
      ∀ movements', movements'.Perm movements → compare sections movements' = .ok comparisons :=
  ⟨complete_of_ok hsections h, fun _ hperm => compare_perm hperm h⟩

end

/-- A statement that gives both turnovers, one of them wrong, and a closing balance without an opening one. -/
def statement : ControlSection :=
  ⟨⟨1⟩, .rub, ⟨⟨1⟩, ⟨30⟩⟩, none, some (.new 380), some (.new 500), some (.new 100)⟩

/-- What arrives, what leaves, and an arrival in another currency. -/
def rows : List BatchMovement := [⟨⟨1⟩, ⟨.new 500, .rub⟩, some ⟨3⟩⟩, ⟨⟨1⟩, ⟨.new (-120), .rub⟩, none⟩, ⟨⟨1⟩, ⟨.new 7, .usd⟩, none⟩]

theorem compare_statement :
    ([statement].map ControlSection.key).Nodup ∧
      ∃ comparisons, compare [statement] rows = .ok comparisons ∧ Complete [statement] rows comparisons ∧
        ∀ movements', movements'.Perm rows → compare [statement] movements' = .ok comparisons := by
  have hnodup : ([statement].map ControlSection.key).Nodup := List.nodup_singleton _
  obtain ⟨comparisons, h⟩ := exists_ok (show (compare [statement] rows).isOk = true by decide)
  exact ⟨hnodup, comparisons, h, compare_complete hnodup h⟩

end Batch
end Iaam
