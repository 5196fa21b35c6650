import Iaam.Lib.Runs
import Iaam.Theorems.JournalStore
import Iaam.Theorems.Undrawn

/-! What a commit writes of a plan. The plan looks its rows up in the journal as it stands; the commit writes them one by one, and
each is looked up in what was written before it. The two agree when the rows share no identity and are well formed. -/

namespace Iaam
open Outcome

namespace SessionPlan
open SessionReading JournalStore

/-! ### What a plan holds to be recorded -/

theorem mem_keys_foldl (events : List Event) (recorded : RecordedIdentities) {key : String} :
    key ∈ (events.foldl RecordedIdentities.note recorded).keys ↔
      key ∈ recorded.keys ∨ ∃ e ∈ events, e.idempotencyKey = some key := by
  induction events generalizing recorded with
  | nil => simp
  | cons e events ih =>
    have hnote : key ∈ (recorded.note e).keys ↔ e.idempotencyKey = some key ∨ key ∈ recorded.keys := by
      unfold RecordedIdentities.note
      cases e.idempotencyKey with
      | none => simp
      | some known =>
        dsimp only
        rw [Tree.mem_insert_set, Option.some.injEq]
    rw [List.foldl_cons, ih, hnote, List.exists_mem_cons_iff, or_comm (a := e.idempotencyKey = some key), or_assoc]

theorem mem_operations_foldl (events : List Event) (recorded : RecordedIdentities) {source : SourceId} {operation : String} :
    toLex (source, operation) ∈ (events.foldl RecordedIdentities.note recorded).operations ↔
      toLex (source, operation) ∈ recorded.operations ∨
        ∃ e ∈ events, e.provenance.source = source ∧ e.provenance.sourceOperationId = some operation := by
  induction events generalizing recorded with
  | nil => simp
  | cons e events ih =>
    have hnote : toLex (source, operation) ∈ (recorded.note e).operations ↔
        (e.provenance.source = source ∧ e.provenance.sourceOperationId = some operation) ∨
          toLex (source, operation) ∈ recorded.operations := by
      unfold RecordedIdentities.note
      cases e.provenance.sourceOperationId with
      | none => simp
      | some known =>
        dsimp only
        rw [Tree.mem_insert_set, EmbeddingLike.apply_eq_iff_eq, Prod.mk.injEq, Option.some.injEq]
    rw [List.foldl_cons, ih, hnote, List.exists_mem_cons_iff]
    tauto

/-- The plan recognises what the store would recognise by an identity of its own. -/
theorem holds_iff {journal : List Event} {owner : OwnerId} {e : Event} (howner : e.owner = owner) :
    (RecordedIdentities.of (SessionCommit.loadEvents journal owner)).holds e = true ↔ ∃ recorded ∈ journal, Shares recorded e := by
  have hmem : ∀ recorded, recorded ∈ SessionCommit.loadEvents journal owner ↔ recorded ∈ journal ∧ recorded.owner = e.owner := by
    intro recorded
    unfold SessionCommit.loadEvents
    rw [List.mem_insertionSort, List.mem_filter, decide_eq_true_eq, howner]
  unfold RecordedIdentities.holds RecordedIdentities.of
  rw [Bool.or_eq_true, Option.any_eq_true, Option.any_eq_true]
  constructor
  · rintro (⟨operation, hoperation, hin⟩ | ⟨key, hkey, hin⟩)
    · rcases (mem_operations_foldl _ _).mp (of_decide_eq_true hin) with hnone | ⟨recorded, hrecorded, hsource, hsame⟩
      · exact absurd hnone Std.ExtTreeSet.not_mem_empty
      · obtain ⟨hin, hsameOwner⟩ := (hmem recorded).mp hrecorded
        exact ⟨recorded, hin, hsameOwner, .inl ⟨by rw [hoperation]; rfl, hsource, by rw [hsame, hoperation]⟩⟩
    · rcases (mem_keys_foldl _ _).mp (of_decide_eq_true hin) with hnone | ⟨recorded, hrecorded, hsame⟩
      · exact absurd hnone Std.ExtTreeSet.not_mem_empty
      · obtain ⟨hin, hsameOwner⟩ := (hmem recorded).mp hrecorded
        exact ⟨recorded, hin, hsameOwner, .inr ⟨by rw [hkey]; rfl, by rw [hsame, hkey]⟩⟩
  · rintro ⟨recorded, hin, hsameOwner, ⟨hsome, hsource, hsame⟩ | ⟨hsome, hsame⟩⟩
    · obtain ⟨operation, hoperation⟩ := Option.isSome_iff_exists.mp hsome
      refine .inl ⟨operation, hoperation, decide_eq_true ((mem_operations_foldl _ _).mpr (.inr ?_))⟩
      exact ⟨recorded, (hmem recorded).mpr ⟨hin, hsameOwner⟩, hsource, by rw [hsame, hoperation]⟩
    · obtain ⟨key, hkey⟩ := Option.isSome_iff_exists.mp hsome
      refine .inr ⟨key, hkey, decide_eq_true ((mem_keys_foldl _ _).mpr (.inr ?_))⟩
      exact ⟨recorded, (hmem recorded).mpr ⟨hin, hsameOwner⟩, by rw [hsame, hkey]⟩

/-! ### The rows of a plan that are facts -/

/-- The event of a row, where it has one. -/
def candidateEvent (read : ReadRow) : Option Event :=
  match read.settled, read.candidate with
  | none, some (.ok e) => some e
  | _, _ => none

section
variable {rows : List ReadRow} {recorded : RecordedIdentities} {«open» : List OpenQuestion} {read : ReadRow} {e : Event}
  {fact : PlannedFact}

theorem candidateEvent_iff : candidateEvent read = some e ↔ read.settled = none ∧ read.candidate = some (.ok e) := by
  unfold candidateEvent
  split
  · next hsettled hcandidate => simp [hsettled, hcandidate]
  · next hnot =>
    refine iff_of_false (fun h => (nomatch h)) fun h => ?_
    exact hnot e h.1 h.2

theorem candidate_of_decided (hdecided : Decided read) (h : read.candidate = some (.ok e)) : candidateEvent read = some e := by
  refine candidateEvent_iff.mpr ⟨?_, h⟩
  unfold Decided at hdecided
  rw [h] at hdecided
  exact Option.not_isSome_iff_eq_none.mp (by rw [hdecided]; simp)

/-- A row without an event adds to none of the lists of events. -/
theorem one_of_none (recorded : RecordedIdentities) («open» : List OpenQuestion) (hdecided : Decided read)
    (hnone : candidateEvent read = none) :
    (one recorded «open» read).facts = [] ∧ (one recorded «open» read).duplicates = [] ∧
      (one recorded «open» read).appended = [] := by
  cases hcandidate : read.candidate with
  | none =>
    unfold one Accounting.add
    rw [hcandidate]
    cases read.settled <;> exact ⟨rfl, rfl, rfl⟩
  | some candidate =>
    rcases candidate with rejection | e
    · obtain ⟨reason, hretained⟩ := one_of_refused recorded «open» hcandidate
      rw [hretained]
      exact ⟨rfl, rfl, rfl⟩
    · rw [candidate_of_decided hdecided hcandidate] at hnone
      cases hnone

/-- The event of a row that is a fact. -/
def newEvent (recorded : RecordedIdentities) (read : ReadRow) : Option Event :=
  (candidateEvent read).filter fun e => !recorded.holds e

theorem newEvent_iff : newEvent recorded read = some e ↔ candidateEvent read = some e ∧ recorded.holds e ≠ true := by
  unfold newEvent
  rw [Option.filter_eq_some_iff, Bool.not_eq_true', ne_eq, Bool.not_eq_true]

/-- A fact of the plan is a row that the journal does not hold. -/
theorem mem_facts_iff (hdecided : ∀ read ∈ rows, Decided read) :
    fact ∈ (rows.foldl (Accounting.add recorded «open») .empty).facts ↔
      ∃ read ∈ rows, ∃ e, newEvent recorded read = some e ∧ fact = plannedFact read e := by
  rw [mem_facts]
  refine exists_congr fun read => and_congr_right fun hread => ?_
  cases hcandidate : candidateEvent read with
  | none =>
    rw [(one_of_none recorded «open» (hdecided read hread) hcandidate).1]
    refine iff_of_false List.not_mem_nil ?_
    rintro ⟨e, hnew, -⟩
    rw [(newEvent_iff.mp hnew).1] at hcandidate
    cases hcandidate
  | some e =>
    by_cases hheld : recorded.holds e = true
    · rw [one_of_held (candidateEvent_iff.mp hcandidate).2 hheld]
      refine iff_of_false List.not_mem_nil ?_
      rintro ⟨e', hnew, -⟩
      obtain ⟨hsame, hnot⟩ := newEvent_iff.mp hnew
      rw [hsame] at hcandidate
      cases hcandidate
      exact hnot hheld
    · rw [one_of_new (candidateEvent_iff.mp hcandidate).2 hheld, newEvent_iff.mpr ⟨hcandidate, hheld⟩]
      change fact ∈ [plannedFact read e] ↔ _
      simp

/-- A duplicate of the plan is a row that the journal holds. -/
theorem mem_duplicates_iff (hdecided : ∀ read ∈ rows, Decided read) :
    fact ∈ (rows.foldl (Accounting.add recorded «open») .empty).duplicates ↔
      ∃ read ∈ rows, ∃ e, candidateEvent read = some e ∧ recorded.holds e = true ∧ fact = plannedFact read e := by
  rw [mem_duplicates]
  refine exists_congr fun read => and_congr_right fun hread => ?_
  cases hcandidate : candidateEvent read with
  | none =>
    rw [(one_of_none recorded «open» (hdecided read hread) hcandidate).2.1]
    exact iff_of_false List.not_mem_nil (fun ⟨_, h, _⟩ => (nomatch h))
  | some e =>
    by_cases hheld : recorded.holds e = true
    · rw [one_of_held (candidateEvent_iff.mp hcandidate).2 hheld]
      change fact ∈ [plannedFact read e] ↔ _
      simp [hheld]
    · rw [one_of_new (candidateEvent_iff.mp hcandidate).2 hheld]
      refine iff_of_false List.not_mem_nil ?_
      rintro ⟨e', hsame, hholds, -⟩
      cases hsame
      exact hheld hholds

theorem appended_eq (hdecided : ∀ read ∈ rows, Decided read) :
    (rows.foldl (Accounting.add recorded «open») .empty).appended = rows.filterMap (newEvent recorded) := by
  have hlist : ∀ (a : Accounting) read, (a.add recorded «open» read).appended =
      a.appended ++ (one recorded «open» read).appended := fun a read => by rw [add_append]
  rw [foldl_add Accounting.appended hlist]
  change [] ++ _ = _
  rw [List.nil_append]
  induction rows with
  | nil => rfl
  | cons read rows ih =>
    have hone : (one recorded «open» read).appended = (newEvent recorded read).toList := by
      cases hcandidate : candidateEvent read with
      | none =>
        unfold newEvent
        rw [hcandidate, (one_of_none recorded «open» (hdecided read List.mem_cons_self) hcandidate).2.2]
        rfl
      | some e =>
        by_cases hheld : recorded.holds e = true
        · have hnone : newEvent recorded read = none := by
            unfold newEvent
            rw [hcandidate, Option.filter_some, hheld]
            rfl
          rw [one_of_held (candidateEvent_iff.mp hcandidate).2 hheld, hnone]
          rfl
        · rw [one_of_new (candidateEvent_iff.mp hcandidate).2 hheld, newEvent_iff.mpr ⟨hcandidate, hheld⟩]
          rfl
    rw [List.flatMap_cons, List.filterMap_cons, hone, ih fun read hread => hdecided read (List.mem_cons_of_mem _ hread)]
    cases newEvent recorded read <;> rfl

end

/-! ### The rows of a plan -/

section
variable {env : Environment} {fresh : Nat → Operation.Fresh} {owner : OwnerId} {resolver : Resolver}
  {contents : SessionContents} {journal : List Event} {plan : PlannedSession}

theorem planSession_parts (h : planSession env fresh owner resolver contents journal = .ok plan) :
    plan.session = contents.session ∧ plan.rows.mapM dispositionOf = .ok plan.dispositions ∧
      plan.candidates = candidatesOf plan.rows := by
  obtain ⟨reading, -, h⟩ := bind_ok.mp h
  obtain ⟨dispositions, hdispositions, h⟩ := bind_ok.mp h
  dsimp only at h
  split at h
  · cases h
  · obtain ⟨factTotals, -, h⟩ := bind_ok.mp h
    obtain ⟨duplicateTotals, -, h⟩ := bind_ok.mp h
    obtain ⟨comparisons, -, h⟩ := bind_ok.mp h
    cases h
    exact ⟨rfl, hdispositions, rfl⟩

/-- The event of a row carries the identifier that was drawn for it, and belongs to the owner. -/
theorem drawn_of_candidate {fresh : Operation.Fresh} {session : SessionView} {reader : String} {basis : FactBasis}
    {operation : SubmittedOperation} {e : Event} (h : candidateOf env fresh owner session reader basis operation = .ok e) :
    e.id = fresh.event ∧ e.owner = owner := by
  obtain ⟨normalized, hnormalized, h⟩ := bind_ok.mp h
  cases h
  unfold Operation.normalize at hnormalized
  dsimp only at hnormalized
  split at hnormalized
  · cases hnormalized
  · obtain ⟨built, -, hnormalized⟩ := bind_ok.mp hnormalized
    cases hnormalized
    exact ⟨rfl, rfl⟩

/-- The rows of a reading are those of the session, each decided, and an event is the owner's under the identifier of its row. -/
theorem rows_of_reading {reading : Reading} (h : SessionReading.read env fresh owner resolver contents = .ok reading) :
    reading.rows.map ReadRow.row = contents.observations.map ImportObservationView.row ∧
      ∀ read ∈ reading.rows, Decided read ∧ ∀ e, candidateEvent read = some e →
        e.id = (fresh read.row).event ∧ e.owner = owner := by
  obtain ⟨rows, hread, h⟩ := bind_ok.mp h
  cases h
  have hnumbers := rows_of_mapM hread
  refine ⟨?_, fun read hmem => ?_⟩
  · rw [List.map_map, ← hnumbers]
    exact List.map_congr_left fun read _ => row_settleMirrored _ read
  · obtain ⟨before, hbefore, rfl⟩ := List.mem_map.mp hmem
    obtain ⟨observation, -, hof⟩ := Runs.exists_left (Runs.mapM_ok.mp hread) hbefore
    refine ⟨decided_settleMirrored (decided_of_readRow hof), fun e he => ?_⟩
    obtain ⟨hsettled, hcandidate⟩ := candidateEvent_iff.mp he
    unfold settleMirrored at hsettled hcandidate ⊢
    split at hsettled
    · next hnone =>
      rw [hnone] at hcandidate
      obtain ⟨hrow, ⟨_, hempty, -⟩ | ⟨_, hrefused, -⟩ | ⟨e', _, _, _, hsame, -, hof⟩⟩ := readRow_cases hof
      · rw [hempty] at hcandidate
        cases hcandidate
      · rw [hrefused] at hcandidate
        cases hcandidate
      · rw [hsame] at hcandidate
        cases hcandidate
        rw [hrow]
        exact drawn_of_candidate hof
    · cases hsettled

/-- A plan has the rows of a reading. -/
theorem planSession_reading (h : planSession env fresh owner resolver contents journal = .ok plan) :
    ∃ reading, SessionReading.read env fresh owner resolver contents = .ok reading ∧ plan.rows = reading.rows := by
  obtain ⟨reading, hreading, h⟩ := bind_ok.mp h
  obtain ⟨dispositions, -, h⟩ := bind_ok.mp h
  dsimp only at h
  split at h
  · cases h
  · obtain ⟨factTotals, -, h⟩ := bind_ok.mp h
    obtain ⟨duplicateTotals, -, h⟩ := bind_ok.mp h
    obtain ⟨comparisons, -, h⟩ := bind_ok.mp h
    cases h
    exact ⟨reading, hreading, rfl⟩

theorem rows_of_plan (h : planSession env fresh owner resolver contents journal = .ok plan) :
    plan.rows.map ReadRow.row = contents.observations.map ImportObservationView.row ∧
      ∀ read ∈ plan.rows, Decided read ∧ ∀ e, candidateEvent read = some e →
        e.id = (fresh read.row).event ∧ e.owner = owner := by
  obtain ⟨reading, hreading, hrows⟩ := planSession_reading h
  rw [hrows]
  exact rows_of_reading hreading

end

end SessionPlan

namespace SessionCommit
open SessionReading SessionPlan JournalStore Calls

section
variable {refuses : Event → Option String} {context : Context} {session : ImportSessionId} {declaredBy : PrincipalId}
  {e : Event} {store store' : Store} {verdict : Verdict}

/-! ### One candidate -/

theorem run_append {answer : Appended} (h : run (serve refuses) (append e) store = (.ok answer, store')) :
    ∃ journal, appendEventInOrder refuses .source store.journal e = .ok (answer, journal) ∧
      store' = { store with journal } := by
  change run (serve refuses) (answered (serve refuses (.append e) store).1) (serve refuses (.append e) store).2 = _ at h
  unfold serve at h
  dsimp only at h
  cases happend : appendEventInOrder refuses .source store.journal e with
  | error error =>
    rw [happend] at h
    cases h
  | ok appended =>
    rw [happend] at h
    cases h
    exact ⟨_, rfl, rfl⟩

/-- What becomes of a candidate, and of the journal. -/
inductive Written (context : Context) (journal : List Event) (e : Event) : Verdict → List Event → Prop where
  | invalid (rejection : Rejection) : e.validateStructure ≠ .ok () → Written context journal e (.rejected rejection) journal
  | duplicate (existing : EventId) : e.validateStructure = .ok () → findDuplicate .source journal e = some existing →
      Written context journal e (duplicateVerdict (loadEvents journal e.owner) e.idempotencyKey existing) journal
  | inserted : e.validateStructure = .ok () → findDuplicate .source journal e = none →
      Written context journal e (.provisional e.id) (journal ++ [stamp journal e])

theorem structuralRejection_none {field : String} : structuralRejection context e field = none ↔ e.validateStructure = .ok () := by
  unfold structuralRejection
  cases e.validateStructure with
  | error error => exact ⟨fun h => (nomatch h), fun h => (nomatch h)⟩
  | ok _ => exact ⟨fun _ => rfl, fun _ => rfl⟩

theorem run_recordCandidate {field : String} (h : run (serve refuses) (recordCandidate context e field) store = (.ok verdict, store')) :
    store'.contents = store.contents ∧ Written context store.journal e verdict store'.journal := by
  unfold recordCandidate at h
  cases hvalid : structuralRejection context e field with
  | some rejection =>
    rw [hvalid] at h
    cases h
    refine ⟨rfl, .invalid rejection fun hok => ?_⟩
    rw [structuralRejection_none.mpr hok] at hvalid
    cases hvalid
  | none =>
    rw [hvalid] at h
    obtain ⟨answer, after, happend, hanswer⟩ := (run_bind_ok _).mp h
    obtain ⟨journal, hin, rfl⟩ := run_append happend
    have hok := structuralRejection_none.mp hvalid
    rcases append_cases refuses .source store.journal e with ⟨existing, hfound, hcase⟩ |
      ⟨hfound, ⟨-, -, hcase⟩ | ⟨-, error, hcase⟩⟩
    · rw [hcase] at hin
      cases hin
      cases hanswer
      exact ⟨rfl, .duplicate existing hok hfound⟩
    · rw [hcase] at hin
      cases hin
      cases hanswer
      exact ⟨rfl, .inserted hok hfound⟩
    · rw [hcase] at hin
      cases hin

/-! ### The rows one by one -/

/-- What a commit does at a row. -/
inductive RowStep (context : Context) (session : ImportSessionId) (declaredBy : PrincipalId) :
    List Event → ReadRow × Verdict → List Event → Prop where
  | settled {journal : List Event} {read : ReadRow} {reason : NoFactReason} : read.settled = some reason →
      RowStep context session declaredBy journal (read, .noFact (noFactCode reason)) journal
  | refused {journal : List Event} {read : ReadRow} {rejection : Rejection} : candidateEvent read = none →
      RowStep context session declaredBy journal (read, .rejected rejection) journal
  | candidate {journal journal' : List Event} {read : ReadRow} {e : Event} {verdict : Verdict} :
      candidateEvent read = some e → Written context journal (stamped session declaredBy e) verdict journal' →
        RowStep context session declaredBy journal (read, verdict) journal'

/-- The verdicts of a commit are those of its rows, one after another. -/
theorem run_submitCandidates {rows : List ReadRow} {dispositions : List Disposition} {written verdicts : List Verdict}
    (hdispositions : rows.mapM dispositionOf = .ok dispositions)
    (hrun : run (serve refuses) (submitCandidates context session declaredBy (candidatesOf rows)) store = (.ok written, store'))
    (hplaced : placeVerdicts dispositions written = some verdicts) :
    store'.contents = store.contents ∧ verdicts.length = rows.length ∧
      Runs.Run (RowStep context session declaredBy) store.journal (rows.zip verdicts) store'.journal := by
  induction rows generalizing store dispositions written verdicts with
  | nil =>
    cases hdispositions
    cases hrun
    cases hplaced
    exact ⟨rfl, rfl, .nil _⟩
  | cons read rows ih =>
    rw [List.mapM_cons] at hdispositions
    obtain ⟨disposition, hdisposition, hrest⟩ := bind_ok.mp hdispositions
    obtain ⟨below, hbelow, hcons⟩ := bind_ok.mp hrest
    cases hcons
    obtain ⟨row, intake, candidate, settled, basis⟩ := read
    cases settled with
    | some reason =>
      cases hdisposition
      obtain ⟨placed, hbelowPlaced, rfl⟩ := Option.map_eq_some_iff.mp hplaced
      obtain ⟨hcontents, hlength, hrows⟩ := ih hbelow hrun hbelowPlaced
      exact ⟨hcontents, congrArg Nat.succ hlength, .cons (.settled rfl) hrows⟩
    | none =>
      cases candidate with
      | none => cases hdisposition
      | some candidate =>
        cases hdisposition
        change run (serve refuses) (submitCandidate context session declaredBy candidate >>= fun verdict =>
          submitCandidates context session declaredBy (candidatesOf rows) >>= fun verdicts => .done (verdict :: verdicts))
            store = _ at hrun
        obtain ⟨verdict, middle, hfirst, hrest⟩ := (run_bind_ok _).mp hrun
        obtain ⟨others, last, hothers, hend⟩ := (run_bind_ok _).mp hrest
        cases hend
        obtain ⟨placed, hbelowPlaced, rfl⟩ := Option.map_eq_some_iff.mp hplaced
        obtain ⟨hcontents, hlength, hrows⟩ := ih hbelow hothers hbelowPlaced
        cases candidate with
        | error rejection =>
          cases hfirst
          exact ⟨hcontents, congrArg Nat.succ hlength, .cons (.refused rfl) hrows⟩
        | ok e =>
          obtain ⟨hsame, hwritten⟩ := run_recordCandidate hfirst
          exact ⟨hcontents.trans hsame, congrArg Nat.succ hlength, .cons (.candidate rfl hwritten) hrows⟩

/-! ### The calls of a commit -/

theorem run_appendEvents {events : List Event} {answers : List Appended}
    (h : run (serve refuses) (appendEvents events) store = (.ok answers, store')) :
    store.journal <+: store'.journal ∧
      ∀ recorded ∈ store'.journal, recorded ∈ store.journal ∨ ∃ e ∈ events, recorded.id = e.id := by
  induction events generalizing store answers with
  | nil =>
    cases h
    exact ⟨List.prefix_refl _, fun recorded hrecorded => .inl hrecorded⟩
  | cons e events ih =>
    obtain ⟨answer, middle, happend, hrest⟩ := (run_bind_ok _).mp h
    obtain ⟨others, last, hothers, hend⟩ := (run_bind_ok _).mp hrest
    cases hend
    obtain ⟨hgrows, hfrom⟩ := ih hothers
    obtain ⟨journal, hin, rfl⟩ := run_append happend
    have hstep : store.journal <+: journal ∧ ∀ recorded ∈ journal, recorded ∈ store.journal ∨ recorded.id = e.id := by
      rcases append_cases refuses .source store.journal e with ⟨existing, -, hcase⟩ |
        ⟨-, ⟨-, -, hcase⟩ | ⟨-, error, hcase⟩⟩
      · rw [hcase] at hin
        cases hin
        exact ⟨List.prefix_refl _, fun recorded hrecorded => .inl hrecorded⟩
      · rw [hcase] at hin
        cases hin
        refine ⟨List.prefix_append _ _, fun recorded hrecorded => ?_⟩
        rcases List.mem_append.mp hrecorded with hold | hnew
        · exact .inl hold
        · rw [List.mem_singleton.mp hnew]
          exact .inr rfl
      · rw [hcase] at hin
        cases hin
    refine ⟨hstep.1.trans hgrows, fun recorded hrecorded => ?_⟩
    rcases hfrom recorded hrecorded with hmiddle | ⟨e', he', hid⟩
    · rcases hstep.2 recorded hmiddle with hold | hid
      · exact .inl hold
      · exact .inr ⟨e, List.mem_cons_self, hid⟩
    · exact .inr ⟨e', List.mem_cons_of_mem _ he', hid⟩

theorem run_appendChecked {events : List Event} {answers : List Appended}
    (h : run (serve refuses) (appendChecked context events) store = (.ok answers, store')) :
    run (serve refuses) (appendEvents events) store = (.ok answers, store') := by
  unfold appendChecked at h
  split at h
  · cases h
  · exact h

variable {resolver : Resolver} {request : Request} {plan : PlannedSession} {outcome : CommitOutcome}

theorem run_writePlan (h : run (serve refuses) (writePlan context request plan) store = (.ok outcome, store')) :
    ∃ written middle, run (serve refuses) (submitCandidates context plan.session.id request.principal.id plan.candidates) store =
        (.ok written, middle) ∧
      placeVerdicts plan.dispositions written = some outcome.verdicts ∧ middle.journal <+: store'.journal ∧
        ∀ recorded ∈ store'.journal, recorded ∈ middle.journal ∨ ∃ i, recorded.id = request.stated i := by
  obtain ⟨written, middle, hsubmit, hrest⟩ := (run_bind_ok _).mp h
  refine ⟨written, middle, hsubmit, ?_⟩
  cases hplaced : placeVerdicts plan.dispositions written with
  | none =>
    rw [hplaced] at hrest
    cases hrest
  | some verdicts =>
    rw [hplaced] at hrest
    obtain ⟨answers, after, hchecked, hclose⟩ := (run_bind_ok _).mp hrest
    obtain ⟨hgrows, hfrom⟩ := run_appendEvents (run_appendChecked hchecked)
    have hids : ∀ recorded ∈ after.journal, recorded ∈ middle.journal ∨ ∃ i, recorded.id = request.stated i := by
      intro recorded hrecorded
      rcases hfrom recorded hrecorded with hold | ⟨e, he, hid⟩
      · exact .inl hold
      · obtain ⟨i, hi, rfl⟩ := List.mem_mapIdx.mp he
        exact .inr ⟨i, hid⟩
    obtain ⟨closed, last, hlast, hend⟩ := (run_bind_ok _).mp hclose
    change run (serve refuses) (Program.done (serve refuses .close after).1) (serve refuses .close after).2 = _ at hlast
    unfold serve at hlast
    dsimp only at hlast
    split at hlast
    · cases hlast
      cases hend
      exact ⟨rfl, hgrows, hids⟩
    · cases hlast
      cases hend

/-- A commit that succeeds writes the plan it makes itself. -/
theorem run_commitSession (h : run (serve refuses) (commitSession context resolver request) store = (.ok outcome, store')) :
    ∃ plan, planSession context.env (context.fresh request) request.principal.owner resolver store.contents
        (loadEvents store.journal request.principal.owner) = .ok plan ∧
      refusal context request plan = none ∧
        run (serve refuses) (writePlan context request plan) store = (.ok outcome, store') := by
  obtain ⟨⟨plan, made⟩, after, hplanned, hend⟩ := (run_bind_ok _).mp h
  cases hend
  unfold commitPlanned at hplanned
  split at hplanned
  · change run (serve refuses) (Program.ofResult (reraise CommitError.plan (planSession context.env (context.fresh request)
      request.principal.owner resolver store.contents (loadEvents store.journal request.principal.owner))) >>= _) store = _
      at hplanned
    obtain ⟨plan', _, hresult, hrest⟩ := (run_bind_ok _).mp hplanned
    obtain ⟨hplan, rfl⟩ := (run_ofResult_ok _).mp hresult
    rw [reraise_ok] at hplan
    refine ⟨plan', hplan, ?_⟩
    cases hrefusal : refusal context request plan' with
    | some error =>
      rw [hrefusal] at hrest
      cases hrest
    | none =>
      rw [hrefusal] at hrest
      obtain ⟨made', after', hwrite, hend⟩ := (run_bind_ok _).mp hrest
      cases hend
      exact ⟨rfl, hwrite⟩
  · cases hplanned

/-! ### What the rows leave in the journal -/

section
variable {journal journal' : List Event} {inputs : List (ReadRow × Verdict)} {read : ReadRow} {id : EventId}
  {recorded : RecordedIdentities}

theorem validateStructure_stamped (e : Event) : (stamped session declaredBy e).validateStructure = e.validateStructure := rfl

theorem shares_stamp {recorded e : Event} :
    Shares (JournalStore.stamp journal (stamped session declaredBy recorded)) (stamped session declaredBy e) ↔ Shares recorded e :=
  Iff.rfl

theorem Written.grows (h : Written context journal e verdict journal') : journal <+: journal' := by
  cases h with
  | invalid => exact List.prefix_refl _
  | duplicate => exact List.prefix_refl _
  | inserted => exact List.prefix_append _ _

theorem RowStep.grows {input : ReadRow × Verdict} (h : RowStep context session declaredBy journal input journal') :
    journal <+: journal' := by
  cases h with
  | settled => exact List.prefix_refl _
  | refused => exact List.prefix_refl _
  | candidate _ hwritten => exact hwritten.grows

/-- The journal only grows, and every row is taken on the way. -/
theorem step_of_mem (h : Runs.Run (RowStep context session declaredBy) journal inputs journal') {input : ReadRow × Verdict}
    (hin : input ∈ inputs) : ∃ before after, journal <+: before ∧ RowStep context session declaredBy before input after ∧
      after <+: journal' :=
  (h.exists_step_between List.prefix_refl (fun hs ht => hs.trans ht) (fun hstep => hstep.grows) hin).2

/-- What was not held before was not held earlier. -/
theorem held_of_grown (hgrows : journal <+: journal') (h : held journal' e = none) : held journal e = none :=
  held_none.mpr fun recorded hrecorded => held_none.mp h recorded (hgrows.subset hrecorded)

/-- A row that was written had a valid event, which nothing in the journal held. -/
theorem provisional_of_step (h : RowStep context session declaredBy journal (read, .provisional id) journal') :
    ∃ e, candidateEvent read = some e ∧ e.id = id ∧ e.validateStructure = .ok () ∧
      findDuplicate .source journal (stamped session declaredBy e) = none ∧
        journal' = journal ++ [JournalStore.stamp journal (stamped session declaredBy e)] := by
  cases h with
  | candidate hcandidate hwritten =>
    generalize hverdict : Verdict.provisional id = verdict at hwritten
    cases hwritten with
    | invalid => cases hverdict
    | duplicate =>
      unfold duplicateVerdict at hverdict
      split at hverdict <;> cases hverdict
    | inserted hvalid hnone =>
      cases hverdict
      exact ⟨_, hcandidate, rfl, hvalid, hnone, rfl⟩

theorem held_of_findDuplicate_none (h : findDuplicate .source journal e = none) : held journal e = none := by
  rw [findDuplicate_source, Option.or_eq_none_iff] at h
  exact h.1

/-- Whatever is in the journal was there, or was written for a row. -/
theorem mem_of_rows (h : Runs.Run (RowStep context session declaredBy) journal inputs journal') :
    ∀ recorded ∈ journal', recorded ∈ journal ∨
      ∃ input ∈ inputs, ∃ e, candidateEvent input.1 = some e ∧ input.2 = .provisional e.id ∧ recorded.id = e.id := by
  induction h with
  | nil journal => exact fun recorded hrecorded => .inl hrecorded
  | @cons journal middle last input inputs hstep _ ih =>
    intro recorded hrecorded
    rcases ih recorded hrecorded with hmiddle | ⟨input', hinput', hrest⟩
    · cases hstep with
      | settled => exact .inl hmiddle
      | refused => exact .inl hmiddle
      | candidate hcandidate hwritten =>
        cases hwritten with
        | invalid => exact .inl hmiddle
        | duplicate => exact .inl hmiddle
        | inserted =>
          rcases List.mem_append.mp hmiddle with hold | hnew
          · exact .inl hold
          · rw [List.mem_singleton.mp hnew]
            exact .inr ⟨_, List.mem_cons_self, _, hcandidate, rfl, rfl⟩
    · exact .inr ⟨input', List.mem_cons_of_mem _ hinput', hrest⟩

/-- The events of the facts share no identity. -/
def FactsApart (recorded : RecordedIdentities) (rows : List ReadRow) : Prop :=
  rows.Pairwise fun read read' => ∀ e, newEvent recorded read = some e → ∀ e', newEvent recorded read' = some e' →
    ¬ Shares e e'

/-- Facts that were all written share no identity. -/
theorem factsApart_of_written (h : Runs.Run (RowStep context session declaredBy) journal inputs journal')
    (hall : ∀ input ∈ inputs, ∀ e, newEvent recorded input.1 = some e → ∃ id, input.2 = .provisional id) :
    FactsApart recorded (inputs.map Prod.fst) := by
  induction h with
  | nil journal => exact List.Pairwise.nil
  | @cons journal middle last input inputs hstep hrest ih =>
    refine List.pairwise_cons.mpr ⟨fun read' hread' e he e' he' hshares => ?_,
      ih fun input' hinput' => hall input' (List.mem_cons_of_mem _ hinput')⟩
    obtain ⟨⟨later, verdict⟩, hlater, rfl⟩ := List.mem_map.mp hread'
    obtain ⟨read, first⟩ := input
    obtain ⟨id, rfl⟩ := hall (read, first) List.mem_cons_self e he
    obtain ⟨id', hverdict⟩ := hall (later, verdict) (List.mem_cons_of_mem _ hlater) e' he'
    dsimp only at hverdict
    subst hverdict
    obtain ⟨written, hwritten, -, -, -, hmiddle⟩ := provisional_of_step hstep
    obtain ⟨before, after, hgrows, hlaterStep, -⟩ := step_of_mem hrest hlater
    obtain ⟨writtenLater, hwrittenLater, -, -, hnone, -⟩ := provisional_of_step hlaterStep
    rw [(newEvent_iff.mp he).1] at hwritten
    cases hwritten
    rw [(newEvent_iff.mp he').1] at hwrittenLater
    cases hwrittenLater
    have hfree := held_none.mp (held_of_grown hgrows (held_of_findDuplicate_none hnone))
    rw [hmiddle] at hfree
    exact hfree _ (List.mem_append_right _ (List.mem_singleton.mpr rfl)) (shares_stamp.mpr hshares)

theorem findDuplicate_of_free (h : ∀ old ∈ journal, ¬ Shares old e ∧ old.id ≠ e.id) :
    findDuplicate .source journal (stamped session declaredBy e) = none := by
  rw [findDuplicate_source, Option.or_eq_none_iff]
  exact ⟨held_none.mpr fun old hold => (h old hold).1, heldById_none.mpr fun old hold => (h old hold).2⟩

/-- What shares an identity with the journal is recognised. -/
theorem findDuplicate_of_shares {old : Event} (hold : old ∈ journal) (hshares : Shares old e) :
    findDuplicate .source journal (stamped session declaredBy e) ≠ none := fun hnone =>
  held_none.mp (held_of_findDuplicate_none hnone) old hold hshares

/-- A valid fact that nothing in the journal holds is written, and a row adds nothing else to the journal. -/
theorem fact_of_step (h : RowStep context session declaredBy journal (read, verdict) journal')
    (hvalid : ∀ e, newEvent recorded read = some e → e.validateStructure = .ok ())
    (hfree : ∀ e, newEvent recorded read = some e → ∀ old ∈ journal, ¬ Shares old e ∧ old.id ≠ e.id)
    (hheld : ∀ e, candidateEvent read = some e → recorded.holds e = true → ∃ old ∈ journal, Shares old e) :
    (∀ e, newEvent recorded read = some e → verdict = .provisional e.id) ∧
      ∀ old ∈ journal', old ∈ journal ∨ ∃ e, newEvent recorded read = some e ∧
        old = JournalStore.stamp journal (stamped session declaredBy e) := by
  cases h with
  | settled hsettled =>
    refine ⟨fun e he => ?_, fun old hold => .inl hold⟩
    rw [(candidateEvent_iff.mp (newEvent_iff.mp he).1).1] at hsettled
    cases hsettled
  | refused hnone =>
    refine ⟨fun e he => ?_, fun old hold => .inl hold⟩
    rw [(newEvent_iff.mp he).1] at hnone
    cases hnone
  | @candidate _ _ e _ hcandidate hwritten =>
    by_cases hholds : recorded.holds e = true
    · obtain ⟨old, hold, hshares⟩ := hheld e hcandidate hholds
      refine ⟨fun e' he' => ?_, fun old' hold' => ?_⟩
      · obtain ⟨hsame, hnew⟩ := newEvent_iff.mp he'
        rw [hcandidate] at hsame
        cases hsame
        exact absurd hholds hnew
      · cases hwritten with
        | invalid => exact .inl hold'
        | duplicate => exact .inl hold'
        | inserted _ hnone => exact absurd hnone (findDuplicate_of_shares hold hshares)
    · have he : newEvent recorded read = some e := newEvent_iff.mpr ⟨hcandidate, hholds⟩
      have hnone : findDuplicate .source journal (stamped session declaredBy e) = none := findDuplicate_of_free (hfree e he)
      cases hwritten with
      | invalid rejection hinvalid => exact absurd (hvalid e he) hinvalid
      | duplicate existing _ hfound =>
        rw [hnone] at hfound
        cases hfound
      | inserted =>
        refine ⟨fun e' he' => ?_, fun old hold => ?_⟩
        · rw [he] at he'
          cases he'
          rfl
        · rcases List.mem_append.mp hold with hold | hnew
          · exact .inl hold
          · exact .inr ⟨e, he, List.mem_singleton.mp hnew⟩

/-- Valid facts that share nothing and that nothing in the journal holds are all written. -/
theorem written_of_factsApart (h : Runs.Run (RowStep context session declaredBy) journal inputs journal')
    (hvalid : ∀ input ∈ inputs, ∀ e, newEvent recorded input.1 = some e → e.validateStructure = .ok ())
    (hfree : ∀ input ∈ inputs, ∀ e, newEvent recorded input.1 = some e → ∀ old ∈ journal, ¬ Shares old e ∧ old.id ≠ e.id)
    (hheld : ∀ input ∈ inputs, ∀ e, candidateEvent input.1 = some e → recorded.holds e = true →
      ∃ old ∈ journal, Shares old e)
    (hapart : FactsApart recorded (inputs.map Prod.fst))
    (hids : (inputs.map Prod.fst).Pairwise fun read read' => ∀ e, candidateEvent read = some e →
      ∀ e', candidateEvent read' = some e' → e.id ≠ e'.id) :
    ∀ input ∈ inputs, ∀ e, newEvent recorded input.1 = some e → input.2 = .provisional e.id := by
  induction h with
  | nil journal => exact fun input hinput => (nomatch hinput)
  | @cons journal middle last input inputs hstep hrest ih =>
    obtain ⟨hapartHead, hapartTail⟩ := List.pairwise_cons.mp hapart
    obtain ⟨hidsHead, hidsTail⟩ := List.pairwise_cons.mp hids
    obtain ⟨hwritten, hadds⟩ := fact_of_step hstep (hvalid input List.mem_cons_self) (hfree input List.mem_cons_self)
      (hheld input List.mem_cons_self)
    intro input' hinput' e he
    rcases List.mem_cons.mp hinput' with rfl | hinput'
    · exact hwritten e he
    · refine ih (fun input hinput => hvalid input (List.mem_cons_of_mem _ hinput)) (fun input hinput e he old hold => ?_)
        (fun input hinput e hcandidate hholds => ?_) hapartTail hidsTail input' hinput' e he
      · rcases hadds old hold with hold | ⟨e', he', rfl⟩
        · exact hfree input (List.mem_cons_of_mem _ hinput) e he old hold
        · exact ⟨hapartHead input.1 (List.mem_map_of_mem hinput) e' he' e he,
            hidsHead input.1 (List.mem_map_of_mem hinput) e' (newEvent_iff.mp he').1 e (newEvent_iff.mp he).1⟩
      · obtain ⟨old, hold, hshares⟩ := hheld input (List.mem_cons_of_mem _ hinput) e hcandidate hholds
        exact ⟨old, hstep.grows.subset hold, hshares⟩

/-- A valid row that shares an identity with the journal is recognised as recorded. -/
theorem duplicate_of_held (h : Runs.Run (RowStep context session declaredBy) journal inputs journal')
    (hin : (read, verdict) ∈ inputs) (hcandidate : candidateEvent read = some e) {old : Event} (hold : old ∈ journal)
    (hshares : Shares old e) :
    (∃ rejection, e.validateStructure ≠ .ok () ∧ verdict = .rejected rejection) ∨
      e.validateStructure = .ok () ∧ ∃ known existing, verdict = duplicateVerdict known e.idempotencyKey existing := by
  obtain ⟨before, after, hgrows, hstep, -⟩ := step_of_mem h hin
  cases hstep with
  | settled hsettled =>
    rw [(candidateEvent_iff.mp hcandidate).1] at hsettled
    cases hsettled
  | refused hnone =>
    rw [hcandidate] at hnone
    cases hnone
  | candidate hsame hwritten =>
    rw [hcandidate] at hsame
    cases hsame
    cases hwritten with
    | invalid rejection hinvalid => exact .inl ⟨rejection, hinvalid, rfl⟩
    | duplicate existing hvalid _ => exact .inr ⟨hvalid, _, existing, rfl⟩
    | inserted _ hnone => exact absurd hnone (findDuplicate_of_shares (hgrows.subset hold) hshares)

end

/-! ### A commit beside its plan -/

/-- The identifiers drawn for a commit are its own. -/
structure Request.Fresh (request : Request) (journal : List Event) : Prop where
  unused : ∀ row, ∀ recorded ∈ journal, recorded.id ≠ (request.drawn row).1
  apart : ∀ row row', (request.drawn row).1 = (request.drawn row').1 → row = row'
  stated : ∀ row i, (request.drawn row).1 ≠ request.stated i

/-- The verdict of each row, as a caller reads them. -/
def rowVerdicts (contents : SessionContents) (outcome : CommitOutcome) : List (Nat × Verdict) :=
  (contents.observations.map ImportObservationView.row).zip outcome.verdicts

/-- A row was recognised as recorded. -/
def Verdict.isRecognised : Verdict → Bool
  | .duplicate _ | .quarantined _ => true
  | .provisional _ | .rejected _ | .noFact _ => false

/-- The facts of a plan were written as new events, and its duplicates were recognised and written by nobody. -/
structure AsPlanned (plan : PlannedSession) (request : Request) (outcome : CommitOutcome) (store store' : Store) : Prop where
  facts : ∀ fact ∈ plan.delta.accounting.facts, ∃ id, (fact.row, .provisional id) ∈ rowVerdicts store.contents outcome ∧
    (∃ recorded ∈ store'.journal, recorded.id = id) ∧ ∀ recorded ∈ store.journal, recorded.id ≠ id
  duplicates : ∀ fact ∈ plan.delta.accounting.duplicates,
    (∃ verdict, (fact.row, verdict) ∈ rowVerdicts store.contents outcome ∧ verdict.isRecognised = true) ∧
      ∀ recorded ∈ store'.journal, recorded.id ≠ (request.drawn fact.row).1

/-- Every candidate of a plan has the shape of its kind, and no two of its facts share an identity. -/
structure Writable (plan : PlannedSession) : Prop where
  valid : ∀ e, .ok e ∈ plan.candidates → e.validateStructure = .ok ()
  apart : plan.delta.accounting.appended.Pairwise fun e e' => ¬ Shares e e'

theorem mem_candidates {rows : List ReadRow} : .ok e ∈ candidatesOf rows ↔ ∃ read ∈ rows, candidateEvent read = some e := by
  unfold candidatesOf
  rw [List.mem_filterMap]
  refine exists_congr fun read => ?_
  rw [List.mem_filter, candidateEvent_iff, Option.isNone_iff_eq_none, and_assoc]

theorem writable_iff {plan : PlannedSession} {recorded : RecordedIdentities} (hdecided : ∀ read ∈ plan.rows, Decided read)
    (hcandidates : plan.candidates = candidatesOf plan.rows)
    (haccounting : plan.delta.accounting = plan.rows.foldl (Accounting.add recorded plan.openQuestions) .empty) :
    Writable plan ↔ (∀ read ∈ plan.rows, ∀ e, candidateEvent read = some e → e.validateStructure = .ok ()) ∧
      FactsApart recorded plan.rows := by
  have happended : plan.delta.accounting.appended = plan.rows.filterMap (newEvent recorded) := by
    rw [haccounting]
    exact appended_eq hdecided
  constructor
  · rintro ⟨hvalid, hapart⟩
    rw [happended, List.pairwise_filterMap] at hapart
    rw [hcandidates] at hvalid
    exact ⟨fun read hread e he => hvalid e (mem_candidates.mpr ⟨read, hread, he⟩), hapart⟩
  · rintro ⟨hvalid, hapart⟩
    refine ⟨fun e he => ?_, ?_⟩
    · rw [hcandidates] at he
      obtain ⟨read, hread, he⟩ := mem_candidates.mp he
      exact hvalid read hread e he
    · rw [happended, List.pairwise_filterMap]
      exact hapart

section
variable {plan plan' : PlannedSession} (h : plan.undrawn = plan'.undrawn)
include h

theorem facts_of_undrawn : plan.delta.accounting.facts = plan'.delta.accounting.facts := by
  have hfacts := congrArg (fun plan : PlannedSession => plan.delta.accounting.facts) h
  exact hfacts

theorem duplicates_of_undrawn : plan.delta.accounting.duplicates = plan'.delta.accounting.duplicates := by
  have hduplicates := congrArg (fun plan : PlannedSession => plan.delta.accounting.duplicates) h
  exact hduplicates

/-- What was drawn for a plan does not decide whether it can be written. -/
theorem writable_of_undrawn (hplan : Writable plan) : Writable plan' := by
  have hcandidates : plan.candidates.map (Except.map Event.undrawn) = plan'.candidates.map (Except.map Event.undrawn) :=
    congrArg PlannedSession.candidates h
  have happended : plan.delta.accounting.appended.map Event.undrawn = plan'.delta.accounting.appended.map Event.undrawn :=
    congrArg (fun plan : PlannedSession => plan.delta.accounting.appended) h
  refine ⟨fun e he => ?_, ?_⟩
  · have hmem : .ok e.undrawn ∈ plan.candidates.map (Except.map Event.undrawn) := by
      rw [hcandidates]
      exact List.mem_map.mpr ⟨.ok e, he, rfl⟩
    obtain ⟨candidate, hcandidate, hsame⟩ := List.mem_map.mp hmem
    cases candidate with
    | error rejection => cases hsame
    | ok e' =>
      rw [← e.validateStructure_undrawn, ← Except.ok.inj hsame, e'.validateStructure_undrawn]
      exact hplan.valid e' hcandidate
  · have hview : (plan.delta.accounting.appended.map Event.undrawn).Pairwise fun e e' => ¬ Shares e e' :=
      List.pairwise_map.mpr hplan.apart
    rw [happended] at hview
    exact List.pairwise_map.mp hview

end

/-! Rows and their verdicts, as one list. -/

section
variable {rows : List ReadRow} {verdicts : List Verdict} {read : ReadRow}

theorem fst_zip (hlength : verdicts.length = rows.length) : (rows.zip verdicts).map Prod.fst = rows :=
  List.map_fst_zip (le_of_eq hlength.symm)

theorem exists_verdict (hlength : verdicts.length = rows.length) (hread : read ∈ rows) :
    ∃ verdict, (read, verdict) ∈ rows.zip verdicts := by
  rw [← fst_zip hlength] at hread
  obtain ⟨⟨_, verdict⟩, hin, rfl⟩ := List.mem_map.mp hread
  exact ⟨verdict, hin⟩

/-- The verdict of a row is the one beside its number. -/
theorem mem_numbered_iff (hlength : verdicts.length = rows.length) (hrows : (rows.map ReadRow.row).Nodup) (hread : read ∈ rows) :
    (read.row, verdict) ∈ (rows.map ReadRow.row).zip verdicts ↔ (read, verdict) ∈ rows.zip verdicts := by
  rw [List.zip_map_left, List.mem_map]
  constructor
  · rintro ⟨⟨read', verdict'⟩, hin, hsame⟩
    obtain ⟨hrow, rfl⟩ := Prod.mk.inj hsame
    have hread' : read' ∈ rows := by
      rw [← fst_zip hlength]
      exact List.mem_map_of_mem hin
    rw [← List.inj_on_of_nodup_map hrows hread' hread hrow]
    exact hin
  · exact fun hin => ⟨(read, verdict), hin, rfl⟩

theorem verdict_unique (hlength : verdicts.length = rows.length) (hrows : (rows.map ReadRow.row).Nodup) {verdict' : Verdict}
    (hin : (read, verdict) ∈ rows.zip verdicts) (hin' : (read, verdict') ∈ rows.zip verdicts) : verdict = verdict' := by
  have hnodup : ((rows.zip verdicts).map Prod.fst).Nodup := by
    rw [fst_zip hlength]
    exact hrows.of_map _
  exact (Prod.mk.inj (List.inj_on_of_nodup_map hnodup hin hin' rfl)).2

end

theorem isRecognised_duplicateVerdict (known : List Event) (key : Option String) (existing : EventId) :
    (duplicateVerdict known key existing).isRecognised = true := by
  unfold duplicateVerdict
  split <;> rfl

/-- The facts among the rows are written, and the duplicates among them are recognised. -/
structure RowsWritten (recorded : RecordedIdentities) (rows : List ReadRow) (verdicts : List Verdict) : Prop where
  facts : ∀ read ∈ rows, ∀ e, newEvent recorded read = some e → ∃ id, (read, .provisional id) ∈ rows.zip verdicts
  duplicates : ∀ read ∈ rows, ∀ e, candidateEvent read = some e → recorded.holds e = true →
    ∃ verdict, (read, verdict) ∈ rows.zip verdicts ∧ verdict.isRecognised = true

section
variable {rows : List ReadRow} {verdicts : List Verdict} {journal journal' : List Event} {recorded : RecordedIdentities}

/-- The rows are written as they are listed exactly when the candidates are valid and the facts share nothing. -/
theorem rowsWritten_iff (hrun : Runs.Run (RowStep context session declaredBy) journal (rows.zip verdicts) journal')
    (hlength : verdicts.length = rows.length) (hrows : (rows.map ReadRow.row).Nodup)
    (hheld : ∀ read ∈ rows, ∀ e, candidateEvent read = some e →
      (recorded.holds e = true ↔ ∃ old ∈ journal, Shares old e))
    (hunused : ∀ read ∈ rows, ∀ e, candidateEvent read = some e → ∀ old ∈ journal, old.id ≠ e.id)
    (hids : rows.Pairwise fun read read' => ∀ e, candidateEvent read = some e → ∀ e', candidateEvent read' = some e' →
      e.id ≠ e'.id) :
    RowsWritten recorded rows verdicts ↔
      (∀ read ∈ rows, ∀ e, candidateEvent read = some e → e.validateStructure = .ok ()) ∧ FactsApart recorded rows := by
  have hof : ∀ input ∈ rows.zip verdicts, input.1 ∈ rows := fun input hin => by
    have hmem := List.mem_map_of_mem (f := Prod.fst) hin
    rwa [fst_zip hlength] at hmem
  constructor
  · rintro ⟨hfacts, hduplicates⟩
    refine ⟨fun read hmem e he => ?_, ?_⟩
    · by_cases hholds : recorded.holds e = true
      · obtain ⟨verdict, hin, hrecognised⟩ := hduplicates read hmem e he hholds
        obtain ⟨old, hold, hshares⟩ := (hheld read hmem e he).mp hholds
        rcases duplicate_of_held hrun hin he hold hshares with ⟨rejection, -, rfl⟩ | ⟨hvalid, -⟩
        · cases hrecognised
        · exact hvalid
      · obtain ⟨id, hin⟩ := hfacts read hmem e (newEvent_iff.mpr ⟨he, hholds⟩)
        obtain ⟨before, after, -, hstep, -⟩ := step_of_mem hrun hin
        obtain ⟨e', he', -, hvalid, -⟩ := provisional_of_step hstep
        rw [he] at he'
        cases he'
        exact hvalid
    · rw [← fst_zip hlength]
      refine factsApart_of_written hrun fun input hin e he => ?_
      obtain ⟨id, hprovisional⟩ := hfacts input.1 (hof input hin) e he
      exact ⟨id, verdict_unique hlength hrows hin hprovisional⟩
  · rintro ⟨hvalid, hapart⟩
    have hwritten : ∀ input ∈ rows.zip verdicts, ∀ e, newEvent recorded input.1 = some e → input.2 = .provisional e.id := by
      refine written_of_factsApart hrun (fun input hin e he => hvalid input.1 (hof input hin) e (newEvent_iff.mp he).1)
        (fun input hin e he old hold => ?_) (fun input hin e he hholds => (hheld input.1 (hof input hin) e he).mp hholds) ?_ ?_
      · obtain ⟨hcandidate, hnew⟩ := newEvent_iff.mp he
        exact ⟨fun hshares => hnew ((hheld input.1 (hof input hin) e hcandidate).mpr ⟨old, hold, hshares⟩),
          hunused input.1 (hof input hin) e hcandidate old hold⟩
      · rw [fst_zip hlength]
        exact hapart
      · rw [fst_zip hlength]
        exact hids
    refine ⟨fun read hmem e he => ?_, fun read hmem e he hholds => ?_⟩
    · obtain ⟨verdict, hin⟩ := exists_verdict hlength hmem
      have hprovisional : verdict = .provisional e.id := hwritten _ hin e he
      rw [hprovisional] at hin
      exact ⟨e.id, hin⟩
    · obtain ⟨old, hold, hshares⟩ := (hheld read hmem e he).mp hholds
      obtain ⟨verdict, hin⟩ := exists_verdict hlength hmem
      refine ⟨verdict, hin, ?_⟩
      rcases duplicate_of_held hrun hin he hold hshares with ⟨rejection, hinvalid, -⟩ | ⟨-, known, existing, rfl⟩
      · exact absurd (hvalid read hmem e he) hinvalid
      · exact isRecognised_duplicateVerdict known e.idempotencyKey existing

/-- A row that was recognised wrote nothing. -/
theorem not_provisional_of_held (hrun : Runs.Run (RowStep context session declaredBy) journal (rows.zip verdicts) journal')
    {read : ReadRow} {id : EventId} (hin : (read, .provisional id) ∈ rows.zip verdicts) (he : candidateEvent read = some e)
    {old : Event} (hold : old ∈ journal) (hshares : Shares old e) : False := by
  rcases duplicate_of_held hrun hin he hold hshares with ⟨rejection, -, hverdict⟩ | ⟨-, known, existing, hverdict⟩
  · cases hverdict
  · have hnot := isRecognised_duplicateVerdict known e.idempotencyKey existing
    rw [← hverdict] at hnot
    cases hnot

end

/-- What a commit writes of the plan it makes itself. -/
theorem asPlanned_iff (hrows : (store.contents.observations.map ImportObservationView.row).Nodup)
    (hfresh : request.Fresh store.journal)
    (hplan : planSession context.env (context.fresh request) request.principal.owner resolver store.contents
      (loadEvents store.journal request.principal.owner) = .ok plan)
    (hwrite : run (serve refuses) (writePlan context request plan) store = (.ok outcome, store')) :
    AsPlanned plan request outcome store store' ↔ Writable plan := by
  obtain ⟨written, middle, hsubmit, hplaced, hgrows, hfrom⟩ := run_writePlan hwrite
  obtain ⟨-, hdispositions, hcandidates⟩ := planSession_parts hplan
  obtain ⟨_, -, -, haccounting⟩ := planSession_ok hplan
  obtain ⟨hnumbers, hread⟩ := rows_of_plan hplan
  rw [hcandidates] at hsubmit
  obtain ⟨-, hlength, hrun⟩ := run_submitCandidates hdispositions hsubmit hplaced
  have hdecided : ∀ read ∈ plan.rows, Decided read := fun read hmem => (hread read hmem).1
  have hnodup : (plan.rows.map ReadRow.row).Nodup := by rwa [hnumbers]
  have hid : ∀ read ∈ plan.rows, ∀ e, candidateEvent read = some e → e.id = (request.drawn read.row).1 :=
    fun read hmem e he => ((hread read hmem).2 e he).1
  have hheld : ∀ read ∈ plan.rows, ∀ e, candidateEvent read = some e →
      ((RecordedIdentities.of (loadEvents store.journal request.principal.owner)).holds e = true ↔
        ∃ old ∈ store.journal, Shares old e) := fun read hmem e he => holds_iff ((hread read hmem).2 e he).2
  have hverdict : ∀ {read verdict}, read ∈ plan.rows → ((read.row, verdict) ∈ rowVerdicts store.contents outcome ↔
      (read, verdict) ∈ plan.rows.zip outcome.verdicts) := fun {read verdict} hmem => by
    unfold rowVerdicts
    rw [← hnumbers]
    exact mem_numbered_iff hlength hnodup hmem
  have hids : plan.rows.Pairwise fun read read' => ∀ e, candidateEvent read = some e →
      ∀ e', candidateEvent read' = some e' → e.id ≠ e'.id := by
    have hpairs : plan.rows.Pairwise fun read read' => read.row ≠ read'.row := List.pairwise_map.mp hnodup
    refine hpairs.imp_of_mem fun {read read'} hmem hmem' hne e he e' he' hsame => ?_
    rw [hid read hmem e he, hid read' hmem' e' he'] at hsame
    exact hne (hfresh.apart read.row read'.row hsame)
  rw [writable_iff hdecided hcandidates haccounting, ← rowsWritten_iff hrun hlength hnodup hheld
    (fun read hmem e he old hold => by rw [hid read hmem e he]; exact hfresh.unused read.row old hold) hids]
  constructor
  · rintro ⟨hfacts, hduplicates⟩
    refine ⟨fun read hmem e he => ?_, fun read hmem e he hholds => ?_⟩
    · obtain ⟨id, hin, -⟩ := hfacts (plannedFact read e) (by
        rw [haccounting]
        exact (mem_facts_iff hdecided).mpr ⟨read, hmem, e, he, rfl⟩)
      exact ⟨id, (hverdict hmem).mp hin⟩
    · obtain ⟨⟨verdict, hin, hrecognised⟩, -⟩ := hduplicates (plannedFact read e) (by
        rw [haccounting]
        exact (mem_duplicates_iff hdecided).mpr ⟨read, hmem, e, he, hholds, rfl⟩)
      exact ⟨verdict, (hverdict hmem).mp hin, hrecognised⟩
  · rintro ⟨hfacts, hduplicates⟩
    constructor
    · intro fact hfact
      rw [haccounting] at hfact
      obtain ⟨read, hmem, e, he, rfl⟩ := (mem_facts_iff hdecided).mp hfact
      obtain ⟨id, hin⟩ := hfacts read hmem e he
      obtain ⟨before, after, -, hstep, hafter⟩ := step_of_mem hrun hin
      obtain ⟨e', he', rfl, -, -, rfl⟩ := provisional_of_step hstep
      refine ⟨e'.id, (hverdict hmem).mpr hin, ?_, ?_⟩
      · exact ⟨_, (hafter.trans hgrows).subset (List.mem_append_right _ (List.mem_singleton.mpr rfl)), rfl⟩
      · rw [hid read hmem e' he']
        exact hfresh.unused read.row
    · intro fact hfact
      rw [haccounting] at hfact
      obtain ⟨read, hmem, e, he, hholds, rfl⟩ := (mem_duplicates_iff hdecided).mp hfact
      obtain ⟨verdict, hin, hrecognised⟩ := hduplicates read hmem e he hholds
      refine ⟨⟨verdict, (hverdict hmem).mpr hin, hrecognised⟩, fun recorded hrecorded hdrawn => ?_⟩
      rcases hfrom recorded hrecorded with hmiddle | ⟨i, hstated⟩
      · rcases mem_of_rows hrun recorded hmiddle with hbefore | ⟨⟨read', _⟩, hin', e', he', rfl, hsame⟩
        · exact hfresh.unused read.row recorded hbefore hdrawn
        · -- An event under the identifier of the row is the row's own, and the row was recognised.
          have hmem' : read' ∈ plan.rows := by
            rw [← fst_zip hlength]
            exact List.mem_map_of_mem hin'
          have hrow := hfresh.apart read'.row read.row ((hid read' hmem' e' he').symm.trans (hsame.symm.trans hdrawn))
          cases List.inj_on_of_nodup_map hnodup hmem' hmem hrow
          obtain ⟨old, hold, hshares⟩ := (hheld read hmem e he).mp hholds
          exact not_provisional_of_held hrun hin' he hold hshares
      · exact hfresh.stated read.row i (hdrawn.symm.trans hstated)

end

/-! Two deposits of a session, each under a key. -/

def depositRow (key : String) : SubmittedOperation :=
  { sentRow with kind := .deposit (.new 500) .rub, idempotencyKey := some key }

def depositContext (key key' : String) : Context where
  env := { pairEnvironment with parseIntake payload := .ok (.concluded (depositRow (if payload = "first" then key else key'))) }
  fingerprint _ := "hash"
  explain _ := "a structural error"
  stamp _ := "stamp"
  sectionHash _ := "hash"
  coverageGaps _ _ _ := []

def depositRequest (call : Nat) : Request where
  principal := ⟨7, ⟨1⟩⟩
  maySubmit := true
  revision := some "stamp"
  acceptControlMismatch := false
  drawn row := (⟨2 * (10 * call + row)⟩, ⟨row⟩)
  stated i := ⟨2 * i + 1⟩

def depositSession : SessionContents where
  session := ⟨⟨1⟩, .open, none, none⟩
  observations := [⟨1, "first", none, none⟩, ⟨2, "second", none, none⟩]
  questions := []
  controlFigures := []

theorem fresh_depositRequest (call : Nat) : (depositRequest call).Fresh [] where
  unused := fun _ _ h => (nomatch h)
  apart := fun row row' h => by
    simp only [depositRequest, Ident.mk.injEq] at h
    omega
  stated := fun row i h => by
    simp only [depositRequest, Ident.mk.injEq] at h
    omega

def depositStore : Store := ⟨depositSession, []⟩

def depositPlan (key key' : String) : Result PlanError PlannedSession :=
  planSession (depositContext key key').env ((depositContext key key').fresh (depositRequest 0)) (depositRequest 0).principal.owner
    ⟨[], [], []⟩ depositStore.contents (loadEvents depositStore.journal (depositRequest 0).principal.owner)

def depositCommit (key key' : String) : Result CommitError CommitOutcome × Store :=
  run (serve fun _ => none) (commitSession (depositContext key key') ⟨[], [], []⟩ (depositRequest 1)) depositStore

end SessionCommit
end Iaam
