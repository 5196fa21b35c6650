import Iaam.PostingMatch
import Iaam.Theorems.CashflowPlan

/-! Matching payments with facts is maximum and does not depend on the order of the facts.

The payments are taken by date and the facts stand by date, and every payment waits equally long. Then an earlier payment
can always exchange facts with a later one, and the first fact that fits is never the wrong one. -/

namespace Iaam
namespace PostingMatch
open Cashflow Pairs

/-! ### What fits -/

/-- A fact closes a payment: the kinds are equal, and it came on the day of the payment or within the time it may take. -/
def closes (days : Nat) (payment : ScheduledPosting) (fact : ReceivedPosting) : Bool :=
  factMatches payment fact (payment.date.saturatingAddDays days)

theorem closes_iff {days : Nat} {payment : ScheduledPosting} {fact : ReceivedPosting} : closes days payment fact = true ↔
    fact.kind = payment.kind ∧ payment.date ≤ fact.date ∧ fact.date ≤ payment.date.saturatingAddDays days := by
  simp [closes, factMatches, and_assoc]

theorem saturatingAddDays_mono {d d' : Date} (days : Nat) (h : d ≤ d') :
    d.saturatingAddDays days ≤ d'.saturatingAddDays days := by
  have hle := Date.le_iff.mp h
  unfold Date.saturatingAddDays Date.checkedAddDays
  rw [Date.le_iff]
  split <;> split
  · change d.day + days ≤ d'.day + days
    omega
  · next hd _ => exact hd
  · next hd hd' => exact absurd (by omega) hd
  · exact le_rfl

/-- An earlier payment can give a later fact to a later payment for the earlier one. -/
theorem closes_exchange {days : Nat} {a a' : ScheduledPosting} {b b' : ReceivedPosting} (ha : a.date ≤ a'.date)
    (hb : b.date ≤ b'.date) (hab : closes days a b = true) (hab' : closes days a b' = true)
    (ha'b : closes days a' b = true) : closes days a' b' = true := by
  rw [closes_iff] at hab hab' ha'b ⊢
  refine ⟨hab'.1.trans (hab.1.symm.trans ha'b.1), ha'b.2.1.trans hb, ?_⟩
  exact hab'.2.2.trans (saturatingAddDays_mono days ha)

theorem exchanges_of_sorted (days : Nat) {as : List ScheduledPosting} {bs : List ReceivedPosting}
    (has : as.Pairwise fun a a' => a.date ≤ a'.date) (hbs : bs.Pairwise fun b b' => b.date ≤ b'.date) :
    Exchanges (closes days) as bs := by
  refine has.imp ?_
  intro a a' ha
  refine hbs.imp ?_
  intro b b' hb
  exact closes_exchange ha hb

/-! ### The orders -/

theorem perm_inOrder (facts : List ReceivedPosting) : (inOrder facts).Perm facts := List.perm_insertionSort _ _

theorem sorted_inOrder (facts : List ReceivedPosting) : (inOrder facts).Pairwise fun b b' => b.date ≤ b'.date := by
  have htotal : Std.Total fun x y : ReceivedPosting => toLex (x.date, x.event) ≤ toLex (y.date, y.event) :=
    ⟨fun x y => le_total (toLex (x.date, x.event)) (toLex (y.date, y.event))⟩
  have htrans : IsTrans ReceivedPosting fun x y => toLex (x.date, x.event) ≤ toLex (y.date, y.event) :=
    ⟨fun _ _ _ => le_trans⟩
  refine (List.pairwise_insertionSort _ facts).imp fun hle => ?_
  rcases Prod.Lex.toLex_le_toLex.mp hle with hlt | ⟨heq, -⟩
  · exact hlt.le
  · exact heq.le

/-! ### The loop of the first version -/

section First
variable {rule : PostingMatchV1} {asOf : Date} {available facts : List ReceivedPosting}

theorem foldl_closePayment (plan missing : List ScheduledPosting) {used : List Bool} (hlen : used.length = available.length) :
    (plan.foldl (rule.closePayment available asOf) (used, missing)).2 =
      missing ++ firstFit (closes rule.windowDays) (plan.filter fun p => rule.isDue p asOf) (unmarked available used) := by
  induction plan generalizing used missing with
  | nil => exact (List.append_nil _).symm
  | cons p plan ih =>
    rw [List.foldl_cons, List.filter_cons]
    cases hdue : rule.isDue p asOf with
    | false =>
      have hstep : rule.closePayment available asOf (used, missing) p = (used, missing) := by
        simp [PostingMatchV1.closePayment, hdue]
      rw [hstep, ih missing hlen, if_neg Bool.false_ne_true]
    | true =>
      rw [if_pos rfl, firstFit_cons]
      cases hfind : findFact available used p (p.date.saturatingAddDays rule.windowDays) with
      | none =>
        have hstep : rule.closePayment available asOf (used, missing) p = (used, missing ++ [p]) := by
          simp [PostingMatchV1.closePayment, hdue, hfind]
        have hnone : (unmarked available used).any (closes rule.windowDays p) = false := firstFree_none hfind
        rw [hstep, ih _ hlen, hnone, if_neg Bool.false_ne_true, List.append_assoc]
        rfl
      | some index =>
        have hstep : rule.closePayment available asOf (used, missing) p = (used.set index true, missing) := by
          simp [PostingMatchV1.closePayment, hdue, hfind]
        obtain ⟨hany, hset⟩ := firstFree_some hlen hfind
        have hany : (unmarked available used).any (closes rule.windowDays p) = true := hany
        rw [hstep, ih _ (by rw [List.length_set, hlen]), hset, if_pos hany]
        rfl

/-- The payments that the rule looks at. -/
def due (rule : PostingMatchV1) (scheduled : List ScheduledPosting) (asOf : Date) : List ScheduledPosting :=
  scheduled.filter fun p => rule.isDue p asOf

/-- The due payments, in order. -/
def plan (rule : PostingMatchV1) (scheduled : List ScheduledPosting) (asOf : Date) : List ScheduledPosting :=
  due rule (scheduled.insertionSort fun l r => l.key ≤ r.key) asOf

theorem unreceived_eq (scheduled : List ScheduledPosting) :
    rule.unreceived scheduled facts asOf = firstFit (closes rule.windowDays) (plan rule scheduled asOf) (inOrder facts) := by
  unfold PostingMatchV1.unreceived
  rw [foldl_closePayment _ _ List.length_replicate, unmarked_replicate]
  rfl

theorem perm_plan (scheduled : List ScheduledPosting) : (plan rule scheduled asOf).Perm (due rule scheduled asOf) :=
  (List.perm_insertionSort _ scheduled).filter _

theorem sorted_plan (scheduled : List ScheduledPosting) :
    (plan rule scheduled asOf).Pairwise fun l r => l.key ≤ r.key :=
  (sorted_byKey id scheduled).filter _

/-- What of a fact decides which payments it closes. -/
def closesOn (days : Nat) (payment : ScheduledPosting) (view : Date × PostingKind) : Bool :=
  decide (view.2 = payment.kind) && decide (payment.date ≤ view.1) &&
    decide (view.1 ≤ payment.date.saturatingAddDays days)

/-- The facts in another order lead to the same payments. -/
theorem firstFit_inOrder {days : Nat} (as : List ScheduledPosting) {facts' : List ReceivedPosting} (h : facts'.Perm facts) :
    firstFit (closes days) as (inOrder facts') = firstFit (closes days) as (inOrder facts) := by
  have hview : ∀ bs, firstFit (closes days) as bs =
      firstFit (closesOn days) as (bs.map fun fact => (fact.date, fact.kind)) := fun bs =>
    firstFit_map (closesOn days) (fun fact : ReceivedPosting => (fact.date, fact.kind)) as bs
  have hsorted : ∀ facts : List ReceivedPosting, ((inOrder facts).map fun fact => (fact.date, fact.kind)).Pairwise
      fun v w => v.1 ≤ w.1 := fun facts => List.pairwise_map.mpr (sorted_inOrder facts)
  rw [hview, hview]
  refine firstFit_perm ?_ (hsorted facts') (hsorted facts) fun p _ v w hv hw hvw hwv => ?_
  · exact ((perm_inOrder facts').trans (h.trans (perm_inOrder facts).symm)).map _
  · simp only [closesOn, Bool.and_eq_true, decide_eq_true_eq] at hv hw
    exact Prod.ext (le_antisymm hvw hwv) (hv.1.1.trans hw.1.1.symm)

end First

/-! ### The loop of the second version -/

section Second
variable {rule : PostingMatchV2} {available facts : List ReceivedPosting}

/-- A payment with its owner and its place. -/
abbrev Item := (ScheduledPosting × Ownership) × Nat

def closesItem (days : Nat) (item : Item) (fact : ReceivedPosting) : Bool := closes days item.1.1 fact

theorem firstFit_sublist {α β : Type} (r : α → β → Bool) (as : List α) (bs : List β) :
    (firstFit r as bs).Sublist as := by
  induction as generalizing bs with
  | nil => exact List.Sublist.slnil
  | cons a as ih =>
    rw [firstFit_cons]
    split
    · exact (ih _).cons a
    · exact (ih bs).cons_cons a

/-- The payments that are given a fact are marked, and no others. -/
theorem foldl_giveFact (ordered : List Item) (hplaces : (ordered.map Prod.snd).Nodup) {used found : List Bool}
    (hlen : used.length = available.length) (hfound : ∀ item ∈ ordered, item.2 < found.length) (place : Nat) :
    (ordered.foldl (rule.giveFact available) (used, found)).2.getD place false = true ↔
      found.getD place false = true ∨ ∃ item ∈ ordered, item.2 = place ∧
        item ∉ firstFit (closesItem rule.windowDays) ordered (unmarked available used) := by
  induction ordered generalizing used found with
  | nil => simp
  | cons item ordered ih =>
    obtain ⟨hfresh, hnodup⟩ := List.nodup_cons.mp hplaces
    obtain ⟨hitem, hrest⟩ := List.forall_mem_cons.mp hfound
    have hnot : ∀ bs, item ∉ firstFit (closesItem rule.windowDays) ordered bs := fun bs hmem =>
      hfresh (List.mem_map_of_mem ((firstFit_sublist _ _ _).subset hmem))
    rw [List.foldl_cons, firstFit_cons]
    cases hfind : findFact available used item.1.1 (item.1.1.date.saturatingAddDays rule.windowDays) with
    | none =>
      have hstep : rule.giveFact available (used, found) item = (used, found) := by
        simp [PostingMatchV2.giveFact, hfind]
      have hnone : (unmarked available used).any (closesItem rule.windowDays item) = false := firstFree_none hfind
      rw [hstep, ih hnodup hlen hrest, hnone, if_neg Bool.false_ne_true]
      refine or_congr_right ⟨?_, ?_⟩
      · rintro ⟨other, hother, hplace, hmem⟩
        refine ⟨other, List.mem_cons_of_mem _ hother, hplace, fun h => hmem ?_⟩
        rcases List.mem_cons.mp h with rfl | h
        · exact absurd (List.mem_map_of_mem hother) hfresh
        · exact h
      · rintro ⟨other, hother, hplace, hmem⟩
        rcases List.mem_cons.mp hother with rfl | hother
        · exact absurd List.mem_cons_self hmem
        · exact ⟨other, hother, hplace, fun h => hmem (List.mem_cons_of_mem _ h)⟩
    | some index =>
      have hstep : rule.giveFact available (used, found) item = (used.set index true, found.set item.2 true) := by
        simp [PostingMatchV2.giveFact, hfind]
      obtain ⟨hany, hset⟩ := firstFree_some hlen hfind
      have hany : (unmarked available used).any (closesItem rule.windowDays item) = true := hany
      have hmark : (found.set item.2 true).getD place false = true ↔ found.getD place false = true ∨ item.2 = place := by
        rw [List.getD_eq_getElem?_getD, List.getD_eq_getElem?_getD, List.getElem?_set]
        by_cases hplace : item.2 = place
        · subst hplace
          rw [if_pos rfl, if_pos hitem]
          simp
        · rw [if_neg hplace, or_iff_left hplace]
      rw [hstep, ih hnodup (by rw [List.length_set, hlen]) (fun x hx => by rw [List.length_set]; exact hrest x hx), hmark,
        hset, if_pos hany, or_assoc]
      refine or_congr_right ⟨?_, ?_⟩
      · rintro (hplace | ⟨other, hother, hplace, hmem⟩)
        · exact ⟨item, List.mem_cons_self, hplace, hnot _⟩
        · exact ⟨other, List.mem_cons_of_mem _ hother, hplace, hmem⟩
      · rintro ⟨other, hother, hplace, hmem⟩
        rcases List.mem_cons.mp hother with rfl | hother
        · exact .inl hplace
        · exact .inr ⟨other, hother, hplace, hmem⟩

/-- The items in the order in which they are given facts. -/
def ordered (postings : List (ScheduledPosting × Ownership)) : List Item :=
  postings.zipIdx.insertionSort fun l r => l.1.1.key ≤ r.1.1.key

theorem perm_ordered (postings : List (ScheduledPosting × Ownership)) : (ordered postings).Perm postings.zipIdx :=
  List.perm_insertionSort _ _

theorem nodup_places (postings : List (ScheduledPosting × Ownership)) : ((ordered postings).map Prod.snd).Nodup := by
  rw [((perm_ordered postings).map Prod.snd).nodup_iff, List.zipIdx_map_snd]
  exact List.nodup_range'

/-- The items that are left without a fact. -/
def without (rule : PostingMatchV2) (postings : List (ScheduledPosting × Ownership)) (facts : List ReceivedPosting) :
    List Item :=
  firstFit (closesItem rule.windowDays) (ordered postings) (inOrder facts)

/-- The verdict of each payment, with the mark read off what is left without a fact. -/
theorem judgeAll_eq (postings : List (ScheduledPosting × Ownership)) : ∃ marks : List Bool,
    rule.judgeAll postings facts = postings.zipIdx.map (fun item => PostingMatchV2.judge item.1.1 item.1.2
      (marks.getD item.2 false)) ∧
      ∀ item ∈ postings.zipIdx, marks.getD item.2 false = true ↔ item ∉ without rule postings facts := by
  refine ⟨_, rfl, fun item hitem => ?_⟩
  have hperm := perm_ordered postings
  have hbound : ∀ x ∈ ordered postings, x.2 < (List.replicate postings.length false).length := by
    intro x hx
    rw [List.length_replicate]
    exact (List.mem_zipIdx' (hperm.mem_iff.mp hx)).1
  have hunused : (List.replicate (inOrder facts).length false).length = (inOrder facts).length := List.length_replicate
  have hmarks := @foldl_giveFact rule _ (ordered postings) (nodup_places postings) _ _ hunused hbound item.2
  rw [unmarked_replicate] at hmarks
  have hnone : ¬(List.replicate postings.length false).getD item.2 false = true := by
    rw [List.getD_eq_getElem?_getD, List.getElem?_replicate]
    split <;> simp
  refine hmarks.trans ((or_iff_right hnone).trans ⟨?_, fun h => ⟨item, hperm.mem_iff.mpr hitem, rfl, h⟩⟩)
  rintro ⟨other, hother, hplace, hmem⟩
  have hsame := List.inj_on_of_nodup_map (nodup_places postings) hother (hperm.mem_iff.mpr hitem) hplace
  exact hsame ▸ hmem

theorem without_postings (postings : List (ScheduledPosting × Ownership)) :
    (without rule postings facts).map (fun item => item.1.1) =
      firstFit (closes rule.windowDays) ((postings.map Prod.fst).insertionSort fun l r => l.key ≤ r.key)
        (inOrder facts) := by
  have hmap := map_firstFit (closes rule.windowDays) (fun item : Item => item.1.1) (ordered postings) (inOrder facts)
  refine hmap.trans (congrArg (fun as => firstFit _ as _) ?_)
  refine eq_of_sorted ?_ ?_ (sorted_byKey id _)
  · refine ((perm_ordered postings).map _).trans ((List.Perm.of_eq ?_).trans (List.perm_insertionSort _ _).symm)
    have hfirst := congrArg (List.map Prod.fst) (List.zipIdx_map_fst 0 postings)
    rw [List.map_map] at hfirst
    exact hfirst
  · exact List.pairwise_map.mpr (sorted_byKey (fun item : Item => item.1.1) _)

/-- The payments that the second version judges not received. -/
def notReceived (rule : PostingMatchV2) (postings : List (ScheduledPosting × Ownership)) (facts : List ReceivedPosting) :
    List ScheduledPosting :=
  ((postings.zip (rule.judgeAll postings facts)).filter fun x => x.2 = .notReceived).map fun x => x.1.1

/-- Every payment is owned, and the day that decides who gets it is known. -/
def Entitled (postings : List (ScheduledPosting × Ownership)) : Prop :=
  ∀ p ∈ postings, p.2 = .owned ∧ p.1.entitlement.isSome = true

theorem judge_entitled {p : ScheduledPosting × Ownership} (howned : p.2 = .owned) (hentitled : p.1.entitlement.isSome = true)
    (found : Bool) : PostingMatchV2.judge p.1 p.2 found = if found then .silent else .notReceived := by
  have hnone : p.1.entitlement.isNone = false := by rw [Option.isNone_eq_false_iff]; exact hentitled
  unfold PostingMatchV2.judge
  rw [hnone, howned]
  cases found <;> rfl

theorem judged_entitled {postings : List (ScheduledPosting × Ownership)} (h : Entitled postings) :
    (∀ v ∈ rule.judgeAll postings facts, v = .silent ∨ v = .notReceived) ∧
      (notReceived rule postings facts).Perm ((without rule postings facts).map fun item => item.1.1) := by
  obtain ⟨marks, hjudge, hmarks⟩ := @judgeAll_eq rule facts postings
  have hentitled : ∀ item ∈ postings.zipIdx, item.1.2 = .owned ∧ item.1.1.entitlement.isSome = true := fun item hitem =>
    h item.1 (List.fst_mem_of_mem_zipIdx hitem)
  have hverdict : ∀ item ∈ postings.zipIdx, PostingMatchV2.judge item.1.1 item.1.2 (marks.getD item.2 false) =
      if item ∈ without rule postings facts then .notReceived else .silent := by
    intro item hitem
    rw [judge_entitled (hentitled item hitem).1 (hentitled item hitem).2]
    by_cases hmem : item ∈ without rule postings facts
    · rw [if_pos hmem, if_neg fun hmark => (hmarks item hitem).mp hmark hmem]
    · rw [if_neg hmem, if_pos ((hmarks item hitem).mpr hmem)]
  constructor
  · intro v hv
    rw [hjudge] at hv
    obtain ⟨item, hitem, rfl⟩ := List.mem_map.mp hv
    rw [hverdict item hitem]
    split
    · exact .inr rfl
    · exact .inl rfl
  · have hzip : postings.zip (rule.judgeAll postings facts) = postings.zipIdx.map fun item =>
        (item.1, if item ∈ without rule postings facts then Verdict.notReceived else .silent) := by
      rw [hjudge, List.map_congr_left hverdict, ← List.zip_map', List.zipIdx_map_fst]
    have hlist : notReceived rule postings facts =
        (postings.zipIdx.filter fun item => item ∈ without rule postings facts).map fun item => item.1.1 := by
      unfold notReceived
      rw [hzip, List.filter_map, List.map_map]
      refine congrArg (List.map _) (List.filter_congr fun item _ => ?_)
      by_cases hmem : item ∈ without rule postings facts
      · simp [hmem]
      · simp [hmem]
    rw [hlist]
    refine List.Perm.map _ ((List.perm_ext_iff_of_nodup ?_ ?_).mpr fun item => ?_)
    · exact ((perm_ordered postings).nodup_iff.mp (nodup_places postings).of_map).filter _
    · exact (firstFit_sublist _ _ _).nodup (nodup_places postings).of_map
    · rw [List.mem_filter, decide_eq_true_eq]
      exact and_iff_right_of_imp fun hmem => (perm_ordered postings).mem_iff.mp ((firstFit_sublist _ _ _).subset hmem)

end Second

/-! ### The two versions -/

section
variable {days : Nat} {facts : List ReceivedPosting} {as as' : List ScheduledPosting} {bs bs' : List ReceivedPosting}

theorem assigns_perm {pairs : List (ScheduledPosting × ReceivedPosting)} {missing : List ScheduledPosting}
    {spare : List ReceivedPosting} (has : as.Perm as') (hbs : bs.Perm bs')
    (h : Assigns (closes days) as bs pairs missing spare) : Assigns (closes days) as' bs' pairs missing spare :=
  ⟨h.lefts.trans has, h.rights.trans hbs, h.fits⟩

/-- What the first version reports is left over by pairs of due payments and facts that fit, no fact in two of them. No
    such pairs leave fewer payments over. The order of the facts makes no difference. And the second version reports the
    same payments, where all that are due are owned and the day that decides who gets them is known. -/
theorem unreceived_maximum (scheduled : List ScheduledPosting) (facts : List ReceivedPosting) (asOf : Date) :
    (∃ pairs spare, Assigns (closes 21) (due .new scheduled asOf) facts pairs
      (PostingMatchV1.new.unreceived scheduled facts asOf) spare) ∧
      (∀ pairs missing spare, Assigns (closes 21) (due .new scheduled asOf) facts pairs missing spare →
        (PostingMatchV1.new.unreceived scheduled facts asOf).length ≤ missing.length) ∧
      (∀ facts', facts'.Perm facts →
        PostingMatchV1.new.unreceived scheduled facts' asOf = PostingMatchV1.new.unreceived scheduled facts asOf) ∧
      ∀ postings, postings.map Prod.fst = scheduled.filter (fun p => PostingMatchV2.new.isDue p asOf) → Entitled postings →
        (∀ v ∈ PostingMatchV2.new.judgeAll postings facts, v = .silent ∨ v = .notReceived) ∧
          (notReceived .new postings facts).Perm (PostingMatchV1.new.unreceived scheduled facts asOf) := by
  have hplan := @perm_plan .new asOf scheduled
  refine ⟨?_, fun pairs missing spare h => ?_, fun facts' hfacts => ?_, fun postings hdue hentitled => ?_⟩
  · obtain ⟨pairs, spare, h⟩ := exists_assigns (closes 21) (plan .new scheduled asOf) (inOrder facts)
    rw [unreceived_eq]
    exact ⟨pairs, spare, assigns_perm hplan (perm_inOrder facts) h⟩
  · rw [unreceived_eq]
    have hdates : (plan .new scheduled asOf).Pairwise fun a a' => a.date ≤ a'.date :=
      (sorted_plan scheduled).imp fun hkey => date_le_of_key hkey
    exact firstFit_le (exchanges_of_sorted 21 hdates (sorted_inOrder facts))
      (assigns_perm hplan.symm (perm_inOrder facts).symm h)
  · rw [unreceived_eq, unreceived_eq]
    exact firstFit_inOrder _ hfacts
  · obtain ⟨hverdicts, hperm⟩ := @judged_entitled .new facts postings hentitled
    refine ⟨hverdicts, ?_⟩
    rw [without_postings, hdue] at hperm
    rw [unreceived_eq]
    have hsame : (scheduled.filter fun p => PostingMatchV2.new.isDue p asOf).insertionSort (fun l r => l.key ≤ r.key) =
        plan .new scheduled asOf :=
      eq_of_sorted ((List.perm_insertionSort _ _).trans hplan.symm) (sorted_byKey id _) (sorted_plan scheduled)
    rw [hsame] at hperm
    exact hperm

end

end PostingMatch
end Iaam
