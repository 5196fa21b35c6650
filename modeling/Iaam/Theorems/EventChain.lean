import Iaam.Journal.Chain
import Iaam.Lib.Chains
import Iaam.Lib.Search

/-! The history of one operation, entered from anywhere in it. Every walk ends. Facts connected through relations
the owner's journal holds end at one head, unless their relations form a cycle; and the walk forward from a head
meets every fact of the history once, after the one it names. -/

namespace Iaam
namespace Chain
open Chains

/-- A fact of the owner's journal. -/
def Held (journal : List RecordedEvent) (owner : OwnerId) (r : RecordedEvent) : Prop :=
  r ∈ journal ∧ r.event.owner = owner

/-- The fact of the owner's journal that a fact names. -/
def named (journal : List RecordedEvent) (owner : OwnerId) (r : RecordedEvent) : Option RecordedEvent :=
  r.event.relation.target?.bind (recordedEvent journal owner)

/-- Connected through relations that the owner's journal holds, followed either way. -/
def Connected (journal : List RecordedEvent) (owner : OwnerId) : RecordedEvent → RecordedEvent → Prop :=
  Relation.EqvGen (Link (named journal owner))

/-- Some fact connected with this one names itself through its relations. -/
def Cyclic (journal : List RecordedEvent) (owner : OwnerId) (r : RecordedEvent) : Prop :=
  ∃ x, Connected journal owner r x ∧ Relation.TransGen (Link (named journal owner)) x x

/-- The whole history of a fact, oldest first: every fact connected with it, once, and each after the one it
    names. -/
structure History (journal : List RecordedEvent) (owner : OwnerId) (r : RecordedEvent) (chain : List RecordedEvent) :
    Prop where
  nodup : chain.Nodup
  complete : ∀ x, x ∈ chain ↔ Held journal owner x ∧ Connected journal owner r x
  after : ∀ earlier x later, chain = earlier ++ x :: later → ∀ y, named journal owner x = some y → y ∈ earlier

section
variable {journal : List RecordedEvent} {owner : OwnerId} {r x y : RecordedEvent}

/-! ### Steps of the walk -/

section
variable (hids : (journal.map fun r => r.event.id).Nodup)
include hids

theorem eq_of_id (hx : Held journal owner x) (hy : Held journal owner y) (h : x.event.id = y.event.id) : x = y :=
  List.inj_on_of_nodup_map hids hx.1 hy.1 h

theorem recordedEvent_eq_some {id : EventId} :
    recordedEvent journal owner id = some r ↔ Held journal owner r ∧ r.event.id = id := by
  have hunique : ∀ x ∈ journal, ∀ y ∈ journal, decide (x.event.owner = owner ∧ x.event.id = id) = true →
      decide (y.event.owner = owner ∧ y.event.id = id) = true → x = y := by
    intro x hx y hy hkx hky
    rw [decide_eq_true_eq] at hkx hky
    exact eq_of_id hids ⟨hx, hkx.1⟩ ⟨hy, hky.1⟩ (hkx.2.trans hky.2.symm)
  rw [recordedEvent, Search.find_eq_some hunique, decide_eq_true_eq, Held, and_assoc]

theorem link_iff : Link (named journal owner) x y ↔ Held journal owner y ∧ x.event.relation.target? = some y.event.id := by
  simp only [Link, named, Option.bind_eq_some_iff, recordedEvent_eq_some hids]
  constructor
  · rintro ⟨target, htarget, hy, rfl⟩
    exact ⟨hy, htarget⟩
  · rintro ⟨hy, htarget⟩
    exact ⟨_, htarget, hy, rfl⟩

theorem mem_correctionsNaming (hy : Held journal owner y) :
    x ∈ correctionsNaming journal owner y.event.id ↔ Held journal owner x ∧ Link (named journal owner) x y := by
  simp [correctionsNaming, link_iff hids, Held, hy.1, hy.2, and_assoc]

theorem nodup_correctionsNaming (target : EventId) : (correctionsNaming journal owner target).Nodup :=
  (List.perm_insertionSort _ _).nodup_iff.mpr (hids.of_map.filter _)

theorem held_of_reaches (hx : Held journal owner x) (h : Reaches (named journal owner) x y) : Held journal owner y := by
  induction h with
  | refl => exact hx
  | tail _ hlink _ => exact ((link_iff hids).mp hlink).1

end

/-! ### How far a walk goes -/

/-- The facts that a walk has not seen. -/
def unseen (journal : List RecordedEvent) (seen : Tree.Set EventId) : List RecordedEvent :=
  journal.filter fun r => r.event.id ∉ seen

theorem unseen_insert_lt {seen : Tree.Set EventId} (hr : r ∈ journal) (hnew : r.event.id ∉ seen) :
    (unseen journal (seen.insert r.event.id)).length < (unseen journal seen).length := by
  have hsplit : unseen journal (seen.insert r.event.id) =
      (unseen journal seen).filter fun x => x.event.id ≠ r.event.id := by
    simp only [unseen, List.filter_filter]
    refine List.filter_congr fun x _ => ?_
    rw [← Bool.decide_and, decide_eq_decide, Tree.mem_insert_set, not_or, ne_comm]
  rw [hsplit, List.length_filter_lt_length_iff_exists]
  exact ⟨r, by simp [unseen, hr, hnew], by simp⟩

theorem unseen_lt : (unseen journal ∅).length < journal.length + 1 :=
  Nat.lt_succ_of_le (List.length_filter_le _ _)

/-- What the walk back finds is where the chain of relations ends. -/
theorem headOfChain_ok {fuel : Nat} {seen : Tree.Set EventId} {head : RecordedEvent}
    (h : headOfChain journal owner fuel seen x = some (.ok head)) :
    Reaches (named journal owner) x head ∧ named journal owner head = none := by
  induction fuel generalizing seen x with
  | zero => cases h
  | succ fuel ih =>
    simp only [headOfChain] at h
    split at h
    · cases h
    · split at h
      · next y hlink =>
        obtain ⟨hreach, hend⟩ := ih h
        exact ⟨hreach.head hlink, hend⟩
      · next hend =>
        cases h
        exact ⟨.refl, hend⟩

section
variable (hids : (journal.map fun r => r.event.id).Nodup)
include hids

/-- The walk back ends: every step sees a fact that it had not seen. -/
theorem headOfChain_ne_none {fuel : Nat} {seen : Tree.Set EventId} (hx : Held journal owner x)
    (hfuel : (unseen journal seen).length < fuel) : headOfChain journal owner fuel seen x ≠ none := by
  induction fuel generalizing seen x with
  | zero => exact absurd hfuel (Nat.not_lt_zero _)
  | succ fuel ih =>
    simp only [headOfChain]
    split
    · simp
    · next hnew =>
      split
      · next named hnamed =>
        exact ih ((link_iff hids).mp hnamed).1 (by have := unseen_insert_lt hx.1 hnew; omega)
      · simp

/-- The walk back refuses only a fact that it reached before. -/
theorem headOfChain_error {fuel : Nat} {seen : Tree.Set EventId} {e : StoreError} (hx : Held journal owner x)
    (hseen : ∀ id ∈ seen, ∃ s, Held journal owner s ∧ s.event.id = id ∧
      Relation.TransGen (Link (named journal owner)) s x)
    (h : headOfChain journal owner fuel seen x = some (.error e)) :
    (∃ id, e = .correctionChainCycle id) ∧
      ∃ y, Reaches (named journal owner) x y ∧ Relation.TransGen (Link (named journal owner)) y y := by
  induction fuel generalizing seen x with
  | zero => cases h
  | succ fuel ih =>
    simp only [headOfChain] at h
    split at h
    · next hin =>
      cases h
      obtain ⟨s, hs, hid, hreach⟩ := hseen _ hin
      cases eq_of_id hids hs hx hid
      exact ⟨⟨_, rfl⟩, x, .refl, hreach⟩
    · split at h
      · next y hlink =>
        have hy := ((link_iff hids).mp hlink).1
        obtain ⟨he, z, hz, hcycle⟩ := ih hy (fun id hid => by
          rcases Tree.mem_insert_set.mp hid with rfl | hid
          · exact ⟨x, hx, rfl, .single hlink⟩
          · obtain ⟨s, hs, hsid, hreach⟩ := hseen id hid
            exact ⟨s, hs, hsid, hreach.tail hlink⟩) h
        exact ⟨he, z, hz.head hlink, hcycle⟩
      · cases h

/-! ### The walk forward -/

/-- Where a walk forward from a head stands. -/
structure Walked (journal : List RecordedEvent) (owner : OwnerId) (head : RecordedEvent) (chain : List RecordedEvent)
    (seen : Tree.Set EventId) (pending : List RecordedEvent) : Prop where
  seen : ∀ id, id ∈ seen ↔ ∃ x ∈ chain, x.event.id = id
  nodup : (chain ++ pending).Nodup
  start : head ∈ chain ++ pending
  held : ∀ x ∈ chain ++ pending, Held journal owner x ∧ Reaches (named journal owner) x head
  followed : ∀ x ∈ chain, ∀ y, Held journal owner y → Link (named journal owner) y x → y ∈ chain ++ pending
  pending : ∀ x ∈ pending, ∀ y, Link (named journal owner) x y → y ∈ chain
  after : ∀ earlier x later, chain = earlier ++ x :: later → ∀ y, Link (named journal owner) x y → y ∈ earlier

variable {head : RecordedEvent} {chain pending : List RecordedEvent} {seen : Tree.Set EventId}

omit hids in
theorem Walked.parent (h : Walked journal owner head chain seen pending) (hx : x ∈ chain ++ pending)
    (hlink : Link (named journal owner) x y) : y ∈ chain := by
  rcases List.mem_append.mp hx with hx | hx
  · obtain ⟨earlier, later, hsplit⟩ := List.append_of_mem hx
    have hy := h.after earlier x later hsplit y hlink
    rw [hsplit]
    exact List.mem_append_left _ hy
  · exact h.pending x hx y hlink

/-- A fact that is pending has not been seen. -/
theorem Walked.fresh (h : Walked journal owner head chain seen (x :: pending)) : x.event.id ∉ seen := by
  intro hin
  obtain ⟨y, hy, hid⟩ := (h.seen _).mp hin
  have hx : x ∈ chain ++ x :: pending := List.mem_append_right _ List.mem_cons_self
  rw [eq_of_id hids (h.held y (List.mem_append_left _ hy)).1 (h.held x hx).1 hid] at hy
  exact (List.nodup_append.mp h.nodup).2.2 x hy x List.mem_cons_self rfl

omit hids in
/-- What names a pending fact is new to the walk. -/
theorem Walked.naming_new (h : Walked journal owner head chain seen (x :: pending))
    (hlink : Link (named journal owner) y x) : y ∉ chain ++ x :: pending := by
  intro hy
  have hx := h.parent hy hlink
  exact (List.nodup_append.mp h.nodup).2.2 x hx x List.mem_cons_self rfl

theorem Walked.step (h : Walked journal owner head chain seen (x :: pending)) :
    Walked journal owner head (chain ++ [x]) (seen.insert x.event.id)
      (correctionsNaming journal owner x.event.id ++ pending) := by
  obtain ⟨hx, hreach⟩ := h.held x (List.mem_append_right _ List.mem_cons_self)
  have hmem : ∀ {y}, y ∈ correctionsNaming journal owner x.event.id ↔
      Held journal owner y ∧ Link (named journal owner) y x := mem_correctionsNaming hids hx
  have hperm : (chain ++ [x] ++ (correctionsNaming journal owner x.event.id ++ pending)).Perm
      (correctionsNaming journal owner x.event.id ++ (chain ++ x :: pending)) := by
    simp only [List.append_assoc, List.singleton_append]
    refine List.Perm.trans ?_ (List.perm_append_comm_assoc _ _ _)
    exact List.Perm.append_left _ List.perm_middle.symm
  have hall : ∀ {y}, y ∈ chain ++ [x] ++ (correctionsNaming journal owner x.event.id ++ pending) ↔
      y ∈ correctionsNaming journal owner x.event.id ∨ y ∈ chain ++ x :: pending := by
    intro y
    rw [hperm.mem_iff, List.mem_append]
  constructor
  case seen =>
    intro id
    simp only [Tree.mem_insert_set, h.seen, List.mem_append, List.mem_singleton]
    constructor
    · rintro (rfl | ⟨y, hy, rfl⟩)
      · exact ⟨x, Or.inr rfl, rfl⟩
      · exact ⟨y, Or.inl hy, rfl⟩
    · rintro ⟨y, hy | rfl, rfl⟩
      · exact Or.inr ⟨y, hy, rfl⟩
      · exact Or.inl rfl
  case nodup =>
    rw [hperm.nodup_iff, List.nodup_append]
    refine ⟨nodup_correctionsNaming hids _, h.nodup, ?_⟩
    rintro y hy _ hy' rfl
    exact h.naming_new (hmem.mp hy).2 hy'
  case start => exact hall.mpr (Or.inr h.start)
  case held =>
    intro y hy
    rcases hall.mp hy with hy | hy
    · obtain ⟨hy, hlink⟩ := hmem.mp hy
      exact ⟨hy, hreach.head hlink⟩
    · exact h.held y hy
  case followed =>
    intro y hy z hz hlink
    rcases List.mem_append.mp hy with hy | hy
    · exact hall.mpr (Or.inr (h.followed y hy z hz hlink))
    · cases List.mem_singleton.mp hy
      exact hall.mpr (Or.inl (hmem.mpr ⟨hz, hlink⟩))
  case pending =>
    intro y hy z hlink
    rcases List.mem_append.mp hy with hy | hy
    · cases (hmem.mp hy).2.unique hlink
      exact List.mem_append_right _ List.mem_cons_self
    · exact List.mem_append_left _ (h.pending y (List.mem_cons_of_mem _ hy) z hlink)
  case after =>
    intro earlier y later hsplit z hlink
    rcases List.eq_nil_or_concat later with rfl | ⟨later, w, rfl⟩
    · obtain ⟨rfl, hlast⟩ := List.append_inj' hsplit rfl
      cases hlast
      exact h.pending _ List.mem_cons_self z hlink
    · rw [List.concat_eq_append, ← List.cons_append, ← List.append_assoc] at hsplit
      exact h.after earlier y later (List.append_inj' hsplit rfl).1 z hlink

/-- A walk that has followed everything has met all that leads to the head. -/
theorem Walked.history (h : Walked journal owner head chain seen []) (hend : named journal owner head = none)
    (hx : Reaches (named journal owner) x head) : History journal owner x chain := by
  have hall : ∀ {y}, Held journal owner y → Reaches (named journal owner) y head → y ∈ chain := by
    intro y hy hreach
    induction hreach using Relation.ReflTransGen.head_induction_on with
    | refl => simpa using h.start
    | head hlink _ ih =>
      have hnext := ih ((link_iff hids).mp hlink).1
      simpa using h.followed _ hnext _ hy hlink
  constructor
  case nodup => simpa using h.nodup
  case complete =>
    intro y
    constructor
    · intro hy
      obtain ⟨hheld, hreach⟩ := h.held y (by simpa using hy)
      exact ⟨hheld, hx.linked.trans _ _ _ (hreach.linked.symm _ _)⟩
    · rintro ⟨hy, hlinked⟩
      exact hall hy (hx.of_linked hend hlinked)
  case after => exact h.after

theorem chainFrom_ne_none {fuel : Nat} (h : ∀ x ∈ pending, Held journal owner x)
    (hfuel : (unseen journal seen).length < fuel) : chainFrom journal owner fuel chain seen pending ≠ none := by
  induction fuel generalizing chain seen pending with
  | zero => exact absurd hfuel (Nat.not_lt_zero _)
  | succ fuel ih =>
    cases pending with
    | nil => simp [chainFrom]
    | cons x pending =>
      have hx := h x List.mem_cons_self
      simp only [chainFrom]
      split
      · simp
      · next hnew =>
        refine ih (fun y hy => ?_) (by have := unseen_insert_lt hx.1 hnew; omega)
        rcases List.mem_append.mp hy with hy | hy
        · exact ((mem_correctionsNaming hids hx).mp hy).1
        · exact h y (List.mem_cons_of_mem _ hy)

/-- The walk forward from a head refuses nothing. -/
theorem chainFrom_walked {fuel : Nat} {out : Except StoreError (List RecordedEvent)}
    (h : Walked journal owner head chain seen pending)
    (hout : chainFrom journal owner fuel chain seen pending = some out) :
    ∃ chain seen, out = .ok chain ∧ Walked journal owner head chain seen [] := by
  induction fuel generalizing chain seen pending with
  | zero => cases hout
  | succ fuel ih =>
    cases pending with
    | nil =>
      cases hout
      exact ⟨chain, seen, rfl, h⟩
    | cons x pending =>
      simp only [chainFrom, if_neg (h.fresh hids)] at hout
      exact ih (h.step hids) hout

omit hids in
theorem walked_start (hhead : Held journal owner head) (hend : named journal owner head = none) :
    Walked journal owner head [] ∅ [head] := by
  constructor
  case seen => simp
  case nodup => simp
  case start => simp
  case held =>
    intro x hx
    cases List.mem_singleton.mp hx
    exact ⟨hhead, .refl⟩
  case followed => simp
  case pending =>
    intro x hx y hlink
    cases List.mem_singleton.mp hx
    rw [Link, hend] at hlink
    cases hlink
  case after => simp

/-! ### Entering anywhere -/

/-- Every walk ends, whatever the relations say. -/
theorem eventChain_ne_none (id : EventId) : eventChain journal owner id ≠ none := by
  simp only [eventChain]
  split
  · simp
  · next entered hentered =>
    have hheld := ((recordedEvent_eq_some hids).mp hentered).1
    split
    · next hnone => exact absurd hnone (headOfChain_ne_none hids hheld unseen_lt)
    · simp
    · next head hhead =>
      refine chainFrom_ne_none hids (fun x hx => ?_) unseen_lt
      cases List.mem_singleton.mp hx
      exact held_of_reaches hids hheld (headOfChain_ok hhead).1

theorem eventChain_of_end (hr : Held journal owner r) (hreach : Reaches (named journal owner) r head)
    (hend : named journal owner head = none) :
    eventChain journal owner r.event.id = chainFrom journal owner (journal.length + 1) [] ∅ [head] := by
  have hfound := (recordedEvent_eq_some hids).mpr ⟨hr, rfl⟩
  rcases hwalk : headOfChain journal owner (journal.length + 1) ∅ r with _ | e | head'
  · exact absurd hwalk (headOfChain_ne_none hids hr unseen_lt)
  · obtain ⟨-, y, hy, hcycle⟩ := headOfChain_error hids hr (by simp) hwalk
    exact absurd hcycle ((hreach.of_linked hend hy.linked).not_cyclic hend)
  · obtain ⟨hreach', hend'⟩ := headOfChain_ok hwalk
    have hsame : head = head' := (hreach.of_linked hend hreach'.linked).eq_of_end hend'
    simp only [eventChain, hfound, hwalk, hsame]

theorem eventChain_of_cyclic (hr : Held journal owner r) (hcyclic : Cyclic journal owner r) :
    ∃ id, eventChain journal owner r.event.id = some (.error (.correctionChainCycle id)) := by
  have hfound := (recordedEvent_eq_some hids).mpr ⟨hr, rfl⟩
  obtain ⟨x, hlinked, hcycle⟩ := hcyclic
  rcases hwalk : headOfChain journal owner (journal.length + 1) ∅ r with _ | e | head'
  · exact absurd hwalk (headOfChain_ne_none hids hr unseen_lt)
  · obtain ⟨⟨id, rfl⟩, -⟩ := headOfChain_error hids hr (by simp) hwalk
    exact ⟨id, by simp only [eventChain, hfound, hwalk]⟩
  · obtain ⟨hreach, hend⟩ := headOfChain_ok hwalk
    exact absurd hcycle ((hreach.of_linked hend hlinked).not_cyclic hend)

/-- Without a cycle among them, connected facts have a head. -/
theorem exists_head (hr : Held journal owner r) (hcyclic : ¬Cyclic journal owner r) :
    ∃ head, Reaches (named journal owner) r head ∧ named journal owner head = none := by
  rcases hwalk : headOfChain journal owner (journal.length + 1) ∅ r with _ | e | head
  · exact absurd hwalk (headOfChain_ne_none hids hr unseen_lt)
  · obtain ⟨-, y, hy, hcycle⟩ := headOfChain_error hids hr (by simp) hwalk
    exact absurd ⟨y, hy.linked, hcycle⟩ hcyclic
  · exact ⟨head, headOfChain_ok hwalk⟩

/-- Any fact of a history opens the whole of it, and every fact of a cyclic one is refused. -/
theorem any_entry_opens_history (hr : Held journal owner r) :
    (∀ id, eventChain journal owner id ≠ none) ∧
      (¬Cyclic journal owner r → ∃ chain, History journal owner r chain ∧
        ∀ x, Held journal owner x → Connected journal owner r x →
          eventChain journal owner x.event.id = some (.ok chain)) ∧
      (Cyclic journal owner r → ∀ x, Held journal owner x → Connected journal owner r x →
        ∃ id, eventChain journal owner x.event.id = some (.error (.correctionChainCycle id))) := by
  refine ⟨eventChain_ne_none hids, fun hcyclic => ?_, fun hcyclic x hx hlinked => ?_⟩
  · obtain ⟨head, hreach, hend⟩ := exists_head hids hr hcyclic
    have hhead := held_of_reaches hids hr hreach
    have hopen := fun x (hx : Held journal owner x) (hlinked : Connected journal owner r x) =>
      eventChain_of_end hids hx (hreach.of_linked hend hlinked) hend
    have hsome : eventChain journal owner r.event.id ≠ none := eventChain_ne_none hids r.event.id
    obtain ⟨out, hout⟩ := Option.ne_none_iff_exists'.mp hsome
    rw [hopen r hr (.refl r)] at hout
    obtain ⟨chain, seen, rfl, hwalked⟩ := chainFrom_walked hids (walked_start hhead hend) hout
    exact ⟨chain, hwalked.history hids hend hreach, fun x hx hlinked => (hopen x hx hlinked).trans hout⟩
  · obtain ⟨y, hy, hcycle⟩ := hcyclic
    exact eventChain_of_cyclic hids hx ⟨y, (hlinked.symm _ _).trans _ _ _ hy, hcycle⟩

end
end

/-- A deposit of five roubles, written down with a relation. -/
def recordedDeposit (id : EventId) (relation : Relation) : RecordedEvent :=
  ⟨{ eventWith id ⟨1⟩ ⟨0⟩ 0 (.cashIn ⟨.new 500, .rub⟩) [.cash ⟨1⟩ ⟨.new 500, .rub⟩] with relation }, "2026-01-01T00:00:00Z"⟩

def correctedDeposit : List RecordedEvent :=
  [recordedDeposit ⟨3⟩ (.replacement ⟨1⟩), recordedDeposit ⟨1⟩ .none, recordedDeposit ⟨2⟩ (.reversal ⟨1⟩)]

/-- The replacement of a deposit opens the history of the deposit. -/
theorem replacement_opens_deposit :
    ∃ chain, History correctedDeposit ⟨0⟩ (recordedDeposit ⟨1⟩ .none) chain ∧
      eventChain correctedDeposit ⟨0⟩ ⟨3⟩ = some (.ok chain) := by
  have hids : (correctedDeposit.map fun r => r.event.id).Nodup := by decide
  have hend : named correctedDeposit ⟨0⟩ (recordedDeposit ⟨1⟩ .none) = none := rfl
  have hlink : Link (named correctedDeposit ⟨0⟩) (recordedDeposit ⟨3⟩ (.replacement ⟨1⟩)) (recordedDeposit ⟨1⟩ .none) := by
    rw [link_iff hids]
    exact ⟨⟨by simp [correctedDeposit], rfl⟩, rfl⟩
  obtain ⟨-, hopens, -⟩ := any_entry_opens_history hids
    (show Held correctedDeposit ⟨0⟩ (recordedDeposit ⟨1⟩ .none) from ⟨by simp [correctedDeposit], rfl⟩)
  obtain ⟨chain, hhistory, hentry⟩ := hopens (by
    rintro ⟨x, hlinked, hcycle⟩
    exact (Reaches.of_linked .refl hend hlinked).not_cyclic hend hcycle)
  exact ⟨chain, hhistory, hentry (recordedDeposit ⟨3⟩ (.replacement ⟨1⟩)) ⟨by simp [correctedDeposit], rfl⟩
    ((Relation.EqvGen.rel _ _ hlink).symm _ _)⟩

end Chain
end Iaam
