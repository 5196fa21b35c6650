import Iaam.Lib.Runs
import Iaam.Store.Journal
import Mathlib.Order.Lattice.Nat

/-! A journal never holds one identity twice. What a retry is told can change nevertheless: a submission that was recognised
by its key leaves its operation unclaimed, and one that was recognised by the identifier of its event leaves both. -/

namespace Iaam
open Outcome

namespace JournalStore

section
variable {scope : IdentityScope} {journal : List Event} {e e' t : Event} {id : EventId} {refuses : Event → Option String}
  {answer : Appended} {journal' : List Event}

/-! ### One submission -/

/-- Two submissions of one identity. -/
structure SameIdentity (e e' : Event) : Prop where
  owner : e.owner = e'.owner
  source : e.provenance.source = e'.provenance.source
  operation : e.provenance.sourceOperationId = e'.provenance.sourceOperationId
  key : e.idempotencyKey = e'.idempotencyKey

/-- A submission that carries an identity of its own. -/
def Identified (e : Event) : Prop := e.provenance.sourceOperationId.isSome ∨ e.idempotencyKey.isSome

theorem heldByOperation_congr (howner : e.owner = e'.owner) (hsource : e.provenance.source = e'.provenance.source)
    (hoperation : e.provenance.sourceOperationId = e'.provenance.sourceOperationId) :
    heldByOperation .source journal e = heldByOperation .source journal e' := by
  unfold heldByOperation sameOperation
  rw [howner, hsource, hoperation]
  rfl

theorem heldByKey_congr (howner : e.owner = e'.owner) (hkey : e.idempotencyKey = e'.idempotencyKey) :
    heldByKey journal e = heldByKey journal e' := by
  unfold heldByKey
  rw [howner, hkey]

/-- What is held keeps its holder. -/
theorem heldByOperation_append : heldByOperation .source (journal ++ [t]) e =
    (heldByOperation .source journal e).or (heldByOperation .source [t] e) := by
  unfold heldByOperation
  cases e.provenance.sourceOperationId with
  | none => rfl
  | some operation => rw [Option.bind_some, Option.bind_some, Option.bind_some, List.find?_append, Option.map_or]

theorem heldByKey_append : heldByKey (journal ++ [t]) e = (heldByKey journal e).or (heldByKey [t] e) := by
  unfold heldByKey
  cases e.idempotencyKey with
  | none => rfl
  | some key => rw [Option.bind_some, Option.bind_some, Option.bind_some, List.find?_append, Option.map_or]

theorem heldById_none : heldById journal e = none ↔ ∀ recorded ∈ journal, recorded.id ≠ e.id := by
  unfold heldById
  simp [List.find?_eq_none]

/-- Whoever holds an identity is in the journal. -/
theorem exists_of_findDuplicate (h : findDuplicate scope journal e = some id) : ∃ recorded ∈ journal, recorded.id = id := by
  unfold findDuplicate heldByOperation heldByKey heldById at h
  rcases Option.or_eq_some_iff.mp h with h | ⟨-, h⟩
  · obtain ⟨operation, -, h⟩ := Option.bind_eq_some_iff.mp h
    obtain ⟨recorded, hfound, hid⟩ := Option.map_eq_some_iff.mp h
    exact ⟨recorded, List.mem_of_find?_eq_some hfound, hid⟩
  · rcases Option.or_eq_some_iff.mp h with h | ⟨-, h⟩
    · obtain ⟨key, -, h⟩ := Option.bind_eq_some_iff.mp h
      obtain ⟨recorded, hfound, hid⟩ := Option.map_eq_some_iff.mp h
      exact ⟨recorded, List.mem_of_find?_eq_some hfound, hid⟩
    · obtain ⟨recorded, hfound, hid⟩ := Option.map_eq_some_iff.mp h
      exact ⟨recorded, List.mem_of_find?_eq_some hfound, hid⟩

theorem exists_fresh_id (journal : List Event) : ∃ fresh : EventId, ∀ recorded ∈ journal, recorded.id ≠ fresh := by
  obtain ⟨fresh, hfresh⟩ := Infinite.exists_notMem_finset ((journal.map fun recorded => recorded.id.uuid).toFinset)
  refine ⟨⟨fresh⟩, fun recorded hrecorded h => hfresh ?_⟩
  rw [List.mem_toFinset]
  exact List.mem_map.mpr ⟨recorded, hrecorded, by rw [h]⟩

theorem findDuplicate_none : findDuplicate scope journal e = none ↔
    heldByOperation scope journal e = none ∧ heldByKey journal e = none ∧ heldById journal e = none := by
  unfold findDuplicate
  rw [Option.or_eq_none_iff, Option.or_eq_none_iff]

/-- One event holds an operation. -/
theorem heldByOperation_single : heldByOperation .source [t] e = some id ↔
    t.owner = e.owner ∧ t.provenance.source = e.provenance.source ∧ e.provenance.sourceOperationId.isSome ∧
      t.provenance.sourceOperationId = e.provenance.sourceOperationId ∧ t.id = id := by
  unfold heldByOperation sameOperation
  cases e.provenance.sourceOperationId with
  | none => simp
  | some operation =>
    rw [Option.bind_some, List.find?_singleton]
    split
    · next h =>
      simp only [Bool.and_eq_true, decide_eq_true_eq, Bool.or_eq_true] at h
      simp [h.1.1.1, h.1.1.2, h.2]
    · next h =>
      simp only [Bool.and_eq_true, decide_eq_true_eq, Bool.or_eq_true] at h
      simp only [Option.map_none, Option.isSome_some, true_and]
      exact ⟨fun h' => (nomatch h'), fun h' => absurd ⟨⟨⟨h'.1, h'.2.1⟩, .inl trivial⟩, h'.2.2.1⟩ h⟩

theorem heldByKey_single (howner : t.owner = e.owner) (hkey : t.idempotencyKey = e.idempotencyKey)
    (hsome : e.idempotencyKey.isSome) : heldByKey [t] e = some t.id := by
  unfold heldByKey
  obtain ⟨key, hkeyOf⟩ := Option.isSome_iff_exists.mp hsome
  rw [hkeyOf, Option.bind_some, List.find?_singleton, if_pos]
  · rfl
  · simp [howner, hkey, hkeyOf]

/-- What an event is recognised as by an identity of its own. -/
def held (journal : List Event) (e : Event) : Option EventId :=
  (heldByOperation .source journal e).or (heldByKey journal e)

theorem findDuplicate_source : findDuplicate .source journal e = (held journal e).or (heldById journal e) := by
  unfold findDuplicate held
  rw [Option.or_assoc]

theorem held_congr (h : SameIdentity e e') : held journal e = held journal e' := by
  unfold held
  rw [heldByOperation_congr h.owner h.source h.operation, heldByKey_congr h.owner h.key]

theorem findDuplicate_of_held (h : held journal e = some id) : findDuplicate .source journal e = some id := by
  rw [findDuplicate_source, h]
  rfl

/-- An event under a fresh identifier is recognised by an identity of its own or not at all. -/
theorem held_of_findDuplicate (h : ∀ e', SameIdentity e e' → findDuplicate .source journal e' = some id) :
    held journal e = some id := by
  obtain ⟨fresh, hfresh⟩ := exists_fresh_id journal
  have hfound := h { e with id := fresh } ⟨rfl, rfl, rfl, rfl⟩
  have hnone : heldById journal { e with id := fresh } = none := heldById_none.mpr hfresh
  rw [findDuplicate_source, hnone, Option.or_none] at hfound
  exact hfound

/-- What is recognised stays recognised as what it was, unless its operation was free and is taken. -/
theorem held_append (h : held journal e = some id)
    (hfree : heldByOperation .source journal e = none → heldByOperation .source [t] e = none) :
    held (journal ++ [t]) e = some id := by
  unfold held at h ⊢
  rw [heldByOperation_append, heldByKey_append]
  cases hoperation : heldByOperation .source journal e with
  | some holder =>
    rw [hoperation] at h
    exact h
  | none =>
    rw [hoperation, Option.none_or] at h
    rw [hfree hoperation, h]
    rfl

/-- A recorded event holds an identity of the other one. -/
def Shares (recorded e : Event) : Prop :=
  recorded.owner = e.owner ∧
    (e.provenance.sourceOperationId.isSome ∧ recorded.provenance.source = e.provenance.source ∧
        recorded.provenance.sourceOperationId = e.provenance.sourceOperationId ∨
      e.idempotencyKey.isSome ∧ recorded.idempotencyKey = e.idempotencyKey)

instance (recorded e : Event) : Decidable (Shares recorded e) :=
  inferInstanceAs (Decidable (recorded.owner = e.owner ∧
    (e.provenance.sourceOperationId.isSome ∧ recorded.provenance.source = e.provenance.source ∧
        recorded.provenance.sourceOperationId = e.provenance.sourceOperationId ∨
      e.idempotencyKey.isSome ∧ recorded.idempotencyKey = e.idempotencyKey)))

theorem heldByOperation_none : heldByOperation .source journal e = none ↔
    ∀ recorded ∈ journal, recorded.owner = e.owner → e.provenance.sourceOperationId.isSome →
      recorded.provenance.source = e.provenance.source →
        recorded.provenance.sourceOperationId ≠ e.provenance.sourceOperationId := by
  unfold heldByOperation sameOperation
  cases e.provenance.sourceOperationId with
  | none => simp
  | some operation =>
    simp only [Option.bind_some, Option.map_eq_none_iff, List.find?_eq_none, Bool.and_eq_true, Bool.or_eq_true,
      decide_eq_true_eq, Option.isSome_some, forall_const]
    exact forall₂_congr fun recorded _ =>
      ⟨fun h howner hsource hsame => h ⟨⟨⟨howner, hsource⟩, .inl trivial⟩, hsame⟩, fun h hall => h hall.1.1.1 hall.1.1.2 hall.2⟩

theorem heldByKey_none : heldByKey journal e = none ↔
    ∀ recorded ∈ journal, recorded.owner = e.owner → e.idempotencyKey.isSome → recorded.idempotencyKey ≠ e.idempotencyKey := by
  unfold heldByKey
  cases e.idempotencyKey with
  | none => simp
  | some key => simp [List.find?_eq_none]

/-- An event is held where a recorded one shares an identity with it. -/
theorem held_none : held journal e = none ↔ ∀ recorded ∈ journal, ¬ Shares recorded e := by
  unfold held
  rw [Option.or_eq_none_iff, heldByOperation_none, heldByKey_none]
  constructor
  · rintro ⟨hoperation, hkey⟩ recorded hrecorded ⟨howner, ⟨hsome, hsource, hsame⟩ | ⟨hsome, hsame⟩⟩
    · exact hoperation recorded hrecorded howner hsome hsource hsame
    · exact hkey recorded hrecorded howner hsome hsame
  · intro h
    exact ⟨fun recorded hrecorded howner hsome hsource hsame =>
        h recorded hrecorded ⟨howner, .inl ⟨hsome, hsource, hsame⟩⟩,
      fun recorded hrecorded howner hsome hsame => h recorded hrecorded ⟨howner, .inr ⟨hsome, hsame⟩⟩⟩

theorem shares_congr {f f' : Event} (h : SameIdentity e e') (hf : SameIdentity f f') : Shares e f ↔ Shares e' f' := by
  unfold Shares
  rw [h.owner, h.source, h.operation, h.key, hf.owner, hf.source, hf.operation, hf.key]

theorem Shares.symm (h : Shares e e') : Shares e' e := by
  obtain ⟨howner, ⟨hsome, hsource, hsame⟩ | ⟨hsome, hsame⟩⟩ := h
  · exact ⟨howner.symm, .inl ⟨by rw [hsame]; exact hsome, hsource.symm, hsame.symm⟩⟩
  · exact ⟨howner.symm, .inr ⟨by rw [hsame]; exact hsome, hsame.symm⟩⟩

theorem shares_self (h : Identified e) : Shares e e := by
  rcases h with hsome | hsome
  · exact ⟨rfl, .inl ⟨hsome, rfl, rfl⟩⟩
  · exact ⟨rfl, .inr ⟨hsome, rfl⟩⟩

/-- A submission that is recognised changes nothing, and one that is not is put at the end or refused. -/
theorem append_cases (refuses : Event → Option String) (scope : IdentityScope) (journal : List Event) (e : Event) :
    (∃ existing, findDuplicate scope journal e = some existing ∧
      appendEventInOrder refuses scope journal e = .ok (.duplicate existing, journal)) ∨
    findDuplicate scope journal e = none ∧
      (refuses (stamp journal e) = none ∧ journal.any (clashes (stamp journal e)) = false ∧
          appendEventInOrder refuses scope journal e = .ok (.inserted e.id, journal ++ [stamp journal e]) ∨
        ¬ (refuses (stamp journal e) = none ∧ journal.any (clashes (stamp journal e)) = false) ∧
          ∃ error, appendEventInOrder refuses scope journal e = .error error) := by
  unfold appendEventInOrder
  cases hfound : findDuplicate scope journal e with
  | some existing => exact .inl ⟨existing, rfl, rfl⟩
  | none =>
    refine .inr ⟨rfl, ?_⟩
    dsimp only
    unfold insertEvent
    cases hrefuses : refuses (stamp journal e) with
    | some reason => exact .inr ⟨fun h => (nomatch h.1), _, rfl⟩
    | none =>
      cases hclash : journal.any (clashes (stamp journal e)) with
      | true => exact .inr ⟨fun h => (nomatch h.2), _, rfl⟩
      | false => exact .inl ⟨rfl, rfl, rfl⟩

/-- A submission is told that it is a duplicate exactly when it is recognised. -/
theorem append_duplicate_iff : appendEventInOrder refuses scope journal e = .ok (.duplicate id, journal) ↔
    findDuplicate scope journal e = some id := by
  rcases append_cases refuses scope journal e with ⟨existing, hfound, happend⟩ |
    ⟨hfound, ⟨-, -, happend⟩ | ⟨-, error, happend⟩⟩
  · rw [happend, hfound]
    exact ⟨fun h => by cases h; rfl, fun h => by cases h; rfl⟩
  · rw [happend, hfound]
    exact ⟨fun h => (nomatch h), fun h => (nomatch h)⟩
  · rw [happend, hfound]
    exact ⟨fun h => (nomatch h), fun h => (nomatch h)⟩

end

/-! ### Runs of submissions -/

/-- A submission, and what else the write refuses at that moment. -/
structure Call where
  event : Event
  refuses : Event → Option String

/-- The journal, and what has been answered so far. -/
structure Log where
  journal : List Event
  answered : List (Event × Appended)

namespace Log

def empty : Log := ⟨[], []⟩

def submit (log : Log) (call : Call) : Log :=
  match appendEventInOrder call.refuses .source log.journal call.event with
  | .ok (answer, journal) => ⟨journal, log.answered ++ [(call.event, answer)]⟩
  | .error _ => log

/-- Whoever was answered under an identity is answered the same again, and the journal stays as it is. -/
def Stable (log : Log) : Prop :=
  ∀ e answer, (e, answer) ∈ log.answered → Identified e → ∀ e', SameIdentity e e' → ∀ refuses,
    appendEventInOrder refuses .source log.journal e' = .ok (.duplicate answer.event, log.journal)

/-- A submission that its operation and its key do not recognise: it is not recognised by the identifier of its event, and
    when it is recorded nobody has been answered under its operation before. -/
def Careful (log : Log) (call : Call) : Prop :=
  Identified call.event → heldByOperation .source log.journal call.event = none →
    heldByKey log.journal call.event = none →
      heldById log.journal call.event = none ∧
        (call.refuses (stamp log.journal call.event) = none →
          log.journal.any (clashes (stamp log.journal call.event)) = false →
            ∀ e answer, (e, answer) ∈ log.answered → e.owner = call.event.owner →
              e.provenance.source = call.event.provenance.source →
                e.provenance.sourceOperationId = call.event.provenance.sourceOperationId →
                  call.event.provenance.sourceOperationId = none)

end Log

section
variable {log : Log} {call : Call}

/-- The answers are stable when each is what its submission is recognised as by an identity of its own. -/
theorem stable_iff : log.Stable ↔
    ∀ e answer, (e, answer) ∈ log.answered → Identified e → held log.journal e = some answer.event := by
  unfold Log.Stable
  refine forall_congr' fun e => forall_congr' fun answer => forall_congr' fun _ => forall_congr' fun _ =>
    ⟨fun h => held_of_findDuplicate fun e' hsame => ?_, fun h e' hsame refuses => ?_⟩
  · exact append_duplicate_iff.mp (h e' hsame fun _ => none)
  · rw [held_congr hsame] at h
    exact append_duplicate_iff.mpr (findDuplicate_of_held h)

/-- What a submission does to a log. -/
theorem submit_cases (log : Log) (call : Call) :
    (∃ existing, findDuplicate .source log.journal call.event = some existing ∧
      log.submit call = ⟨log.journal, log.answered ++ [(call.event, .duplicate existing)]⟩) ∨
    findDuplicate .source log.journal call.event = none ∧
      (call.refuses (stamp log.journal call.event) = none ∧
          log.journal.any (clashes (stamp log.journal call.event)) = false ∧
          log.submit call = ⟨log.journal ++ [stamp log.journal call.event],
            log.answered ++ [(call.event, .inserted call.event.id)]⟩ ∨
        ¬ (call.refuses (stamp log.journal call.event) = none ∧
            log.journal.any (clashes (stamp log.journal call.event)) = false) ∧ log.submit call = log) := by
  unfold Log.submit
  rcases append_cases call.refuses .source log.journal call.event with ⟨existing, hfound, happend⟩ |
    ⟨hfound, ⟨hrefuses, hclash, happend⟩ | ⟨hnot, error, happend⟩⟩
  · exact .inl ⟨existing, hfound, by rw [happend]⟩
  · exact .inr ⟨hfound, .inl ⟨hrefuses, hclash, by rw [happend]⟩⟩
  · exact .inr ⟨hfound, .inr ⟨hnot, by rw [happend]⟩⟩

/-- A recorded event holds its own identity. -/
theorem held_stamp (hidentified : Identified e) (hnone : held journal e = none) :
    held (journal ++ [stamp journal e]) e = some e.id := by
  unfold held at hnone ⊢
  rw [Option.or_eq_none_iff] at hnone
  rw [heldByOperation_append, heldByKey_append, hnone.1, hnone.2, Option.none_or, Option.none_or]
  cases hoperation : heldByOperation .source [stamp journal e] e with
  | some holder =>
    obtain ⟨-, -, -, -, hid⟩ := heldByOperation_single.mp hoperation
    rw [← hid]
    rfl
  | none =>
    rw [Option.none_or]
    rcases hidentified with hsome | hsome
    · have htaken : heldByOperation .source [stamp journal e] e = some e.id :=
        heldByOperation_single.mpr ⟨rfl, rfl, hsome, rfl, rfl⟩
      rw [htaken] at hoperation
      cases hoperation
    · exact heldByKey_single rfl rfl hsome

/-- A careful submission keeps the answers stable. -/
theorem Stable.submit (hstable : log.Stable) (hcareful : log.Careful call) : (log.submit call).Stable := by
  rw [stable_iff] at hstable ⊢
  rcases submit_cases log call with ⟨existing, hfound, hsubmit⟩ | ⟨hfound, ⟨hrefuses, hclash, hsubmit⟩ | ⟨-, hsubmit⟩⟩
  · rw [hsubmit]
    intro e answer hanswer hidentified
    rcases List.mem_append.mp hanswer with hanswer | hanswer
    · exact hstable e answer hanswer hidentified
    · obtain ⟨rfl, rfl⟩ := Prod.mk.inj (List.mem_singleton.mp hanswer)
      rw [findDuplicate_source] at hfound
      cases hheld : held log.journal call.event with
      | some holder =>
        rw [hheld] at hfound
        exact hfound
      | none =>
        -- Nothing but the identifier recognises the submission, which is not careful.
        rw [hheld, Option.none_or] at hfound
        obtain ⟨hoperation, hkey⟩ := Option.or_eq_none_iff.mp hheld
        rw [(hcareful hidentified hoperation hkey).1] at hfound
        cases hfound
  · rw [hsubmit]
    obtain ⟨hoperation, hkey, -⟩ := findDuplicate_none.mp hfound
    intro e answer hanswer hidentified
    rcases List.mem_append.mp hanswer with hanswer | hanswer
    · refine held_append (hstable e answer hanswer hidentified) fun _ => ?_
      rw [Option.eq_none_iff_forall_ne_some]
      intro holder htaken
      obtain ⟨howner, hsource, hsome, hsame, -⟩ := heldByOperation_single.mp htaken
      have hcalled : Identified call.event := .inl (by rw [← hsame] at hsome; exact hsome)
      have hnone := (hcareful hcalled hoperation hkey).2 hrefuses hclash e answer hanswer howner.symm hsource.symm
        hsame.symm
      rw [← hsame] at hsome
      change call.event.provenance.sourceOperationId.isSome = true at hsome
      rw [hnone] at hsome
      cases hsome
    · obtain ⟨rfl, rfl⟩ := Prod.mk.inj (List.mem_singleton.mp hanswer)
      exact held_stamp hidentified (Option.or_eq_none_iff.mpr ⟨hoperation, hkey⟩)
  · rw [hsubmit]
    exact hstable

/-- A submission that is not careful makes an answer unstable. -/
theorem not_stable_submit (hstable : log.Stable) (hcareful : ¬ log.Careful call) : ¬ (log.submit call).Stable := by
  intro hafter
  rw [stable_iff] at hstable hafter
  refine hcareful fun hidentified hoperation hkey => ?_
  have hnone : held log.journal call.event = none := Option.or_eq_none_iff.mpr ⟨hoperation, hkey⟩
  rcases submit_cases log call with ⟨existing, hfound, hsubmit⟩ | ⟨hfound, ⟨hrefuses, hclash, hsubmit⟩ | ⟨hnot, -⟩⟩
  · rw [hsubmit] at hafter
    have hheld := hafter _ _ (List.mem_append_right _ (List.mem_singleton.mpr rfl)) hidentified
    rw [hnone] at hheld
    cases hheld
  · rw [hsubmit] at hafter
    have hid := (findDuplicate_none.mp hfound).2.2
    refine ⟨hid, fun _ _ e answer hanswer howner hsource hsame => ?_⟩
    cases hsome : call.event.provenance.sourceOperationId with
    | none => rfl
    | some operation =>
      -- The answer of the earlier submission was another event, and its operation is the new one's now.
      exfalso
      have hearlier : Identified e := .inl (by rw [hsame, hsome]; rfl)
      have hwas := hstable e answer hanswer hearlier
      have his := hafter e answer (List.mem_append_left _ hanswer) hearlier
      have htaken : heldByOperation .source [stamp log.journal call.event] e = some call.event.id :=
        heldByOperation_single.mpr ⟨howner.symm, hsource.symm, by rw [hsame, hsome]; rfl, hsame.symm, rfl⟩
      have hfree : heldByOperation .source log.journal e = none :=
        (heldByOperation_congr howner hsource hsame).trans hoperation
      unfold held at his
      rw [heldByOperation_append, hfree, Option.none_or, htaken] at his
      obtain ⟨recorded, hrecorded, hsameId⟩ := exists_of_findDuplicate (findDuplicate_of_held hwas)
      refine heldById_none.mp hid recorded hrecorded ?_
      rw [hsameId]
      exact (Option.some.inj his).symm
  · exact ⟨(findDuplicate_none.mp hfound).2.2, fun hrefuses hclash => absurd ⟨hrefuses, hclash⟩ hnot⟩

/-! ### One identity, one event -/

/-- Two events that share neither an identifier nor, of one owner, a key, an operation of a source or a place of a day. -/
structure Apart (a b : Event) : Prop where
  id : a.id ≠ b.id
  key : a.owner = b.owner → b.idempotencyKey.isSome → a.idempotencyKey ≠ b.idempotencyKey
  operation : a.owner = b.owner → a.provenance.source = b.provenance.source → b.provenance.sourceOperationId.isSome →
    a.provenance.sourceOperationId ≠ b.provenance.sourceOperationId
  order : a.owner = b.owner → a.order.date = b.order.date → a.order.sequence ≠ b.order.sequence

/-- What is not recognised and clashes with nothing shares nothing with the journal. -/
theorem apart_of_free (hoperation : heldByOperation .source journal e = none)
    (hclash : journal.any (clashes (stamp journal e)) = false) {recorded : Event} (hrecorded : recorded ∈ journal) :
    Apart recorded (stamp journal e) := by
  have hfree := List.any_eq_false.mp hclash recorded hrecorded
  simp only [clashes, Bool.or_eq_true, Bool.and_eq_true, decide_eq_true_eq, not_or, not_and] at hfree
  obtain ⟨hid, hrest⟩ := hfree
  refine ⟨hid, fun howner hsome hkey => (hrest howner).1.1 hsome hkey, fun howner hsource hsome hsame => ?_,
    fun howner => (hrest howner).2⟩
  change e.provenance.sourceOperationId.isSome = true at hsome
  obtain ⟨operation, hoperationOf⟩ := Option.isSome_iff_exists.mp hsome
  unfold heldByOperation at hoperation
  rw [hoperationOf, Option.bind_some, Option.map_eq_none_iff, List.find?_eq_none] at hoperation
  refine hoperation recorded hrecorded ?_
  change recorded.provenance.sourceOperationId = e.provenance.sourceOperationId at hsame
  rw [hoperationOf] at hsame
  simp only [sameOperation, Bool.and_eq_true, Bool.or_eq_true, decide_eq_true_eq]
  exact ⟨⟨⟨howner, hsource⟩, .inl trivial⟩, hsame⟩

theorem apart_submit (hapart : log.journal.Pairwise Apart) : (log.submit call).journal.Pairwise Apart := by
  rcases submit_cases log call with ⟨existing, -, hsubmit⟩ | ⟨hfound, ⟨-, hclash, hsubmit⟩ | ⟨-, hsubmit⟩⟩
  · rw [hsubmit]
    exact hapart
  · rw [hsubmit]
    refine List.pairwise_append.mpr ⟨hapart, List.pairwise_singleton _ _, fun recorded hrecorded new hnew => ?_⟩
    rw [List.mem_singleton.mp hnew]
    exact apart_of_free (findDuplicate_none.mp hfound).1 hclash hrecorded
  · rw [hsubmit]
    exact hapart

theorem apart_run (calls : List Call) : ∀ log : Log, log.journal.Pairwise Apart →
    (calls.foldl Log.submit log).journal.Pairwise Apart := by
  induction calls with
  | nil => exact fun _ h => h
  | cons call calls ih => exact fun log h => ih (log.submit call) (apart_submit h)

end

/-! ### What a retry is told -/

/-- One identity is one event of the journal after every run of submissions, and the answers stay stable through exactly the
    runs of careful submissions. -/
theorem journal_answers (calls : List Call) :
    (∀ n, ((calls.take n).foldl Log.submit .empty).journal.Pairwise Apart) ∧
      ((∀ n, ((calls.take n).foldl Log.submit .empty).Stable) ↔
        ∀ n call, calls[n]? = some call → ((calls.take n).foldl Log.submit .empty).Careful call) := by
  refine ⟨fun n => apart_run _ _ List.Pairwise.nil, ?_⟩
  refine Runs.forall_states_iff (fun _ h => h) (fun log call hstable hcareful => Stable.submit hstable hcareful)
    (fun log call => not_stable_submit) ?_
  intro e answer hanswer
  cases hanswer

/-- A deposit that a source keeps under an operation, a key or both. -/
def keyedDeposit (id : Nat) (operation key : Option String) : Event :=
  let deposit := eventWith ⟨id⟩ ⟨0⟩ ⟨0⟩ 0 (.cashIn ⟨.new 500, .rub⟩) [.cash ⟨0⟩ ⟨.new 500, .rub⟩]
  { deposit with provenance := { deposit.provenance with sourceOperationId := operation }, idempotencyKey := key }

def freeCall (event : Event) : Call := ⟨event, fun _ => none⟩

/-- A submission recognised by its key is told another event once its operation is taken. -/
theorem retry_is_told_another :
    let log := [freeCall (keyedDeposit 1 none (some "k")), freeCall (keyedDeposit 2 (some "op") (some "k")),
      freeCall (keyedDeposit 3 (some "op") none)].foldl Log.submit .empty
    log.answered.map Prod.snd = [.inserted ⟨1⟩, .duplicate ⟨1⟩, .inserted ⟨3⟩] ∧
      appendEventInOrder (fun _ => none) .source log.journal (keyedDeposit 4 (some "op") (some "k")) =
        .ok (.duplicate ⟨3⟩, log.journal) := by
  decide

end JournalStore
end Iaam
