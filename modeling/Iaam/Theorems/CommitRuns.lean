import Iaam.Theorems.SessionCommit
import Mathlib.Data.Nat.Pairing

/-! Any number of commits of one session, call by call beside each other, each of which may fail anywhere: a row that carries
an identity of its own enters the journal once, because whoever submits it again finds it there. -/

namespace Iaam
open Outcome

namespace SessionPlan
open SessionReading

variable {env : Environment} {fresh fresh' : Nat → Operation.Fresh} {owner : OwnerId} {resolver : Resolver}
  {contents : SessionContents} {reading reading' : Reading} {recorded : RecordedIdentities}

theorem candidateEvent_undrawn (read : ReadRow) : candidateEvent read.undrawn = (candidateEvent read).map Event.undrawn := by
  obtain ⟨row, intake, candidate, settled, basis⟩ := read
  cases settled with
  | some reason => rfl
  | none => rcases candidate with _ | _ | _ <;> rfl

theorem newEvent_undrawn (read : ReadRow) : newEvent recorded read.undrawn = (newEvent recorded read).map Event.undrawn := by
  unfold newEvent
  rw [candidateEvent_undrawn]
  cases candidateEvent read with
  | none => rfl
  | some e =>
    rw [Option.map_some, Option.filter_some, Option.filter_some, holds_undrawn]
    split <;> rfl

theorem rows_undrawn (hhash : ∀ row, (fresh row).fingerprint = (fresh' row).fingerprint)
    (hread : SessionReading.read env fresh owner resolver contents = .ok reading)
    (hread' : SessionReading.read env fresh' owner resolver contents = .ok reading') :
    reading.rows.map ReadRow.undrawn = reading'.rows.map ReadRow.undrawn := by
  have hsame : (SessionReading.read env fresh owner resolver contents).map Reading.undrawn =
      (SessionReading.read env fresh' owner resolver contents).map Reading.undrawn := read_undrawn hhash contents
  rw [hread, hread'] at hsame
  exact congrArg Reading.rows (Except.ok.inj hsame)

/-- Two readings of a session give a row the same event but for what was drawn for it. -/
theorem candidate_again (hhash : ∀ row, (fresh row).fingerprint = (fresh' row).fingerprint)
    (hread : SessionReading.read env fresh owner resolver contents = .ok reading)
    (hread' : SessionReading.read env fresh' owner resolver contents = .ok reading')
    {read : ReadRow} (hmem : read ∈ reading.rows) {e : Event} (he : candidateEvent read = some e) :
    ∃ read' ∈ reading'.rows, read'.row = read.row ∧ ∃ e', candidateEvent read' = some e' ∧ e'.undrawn = e.undrawn := by
  have hin : read.undrawn ∈ reading'.rows.map ReadRow.undrawn := by
    rw [← rows_undrawn hhash hread hread']
    exact List.mem_map_of_mem hmem
  obtain ⟨read', hmem', hundrawn⟩ := List.mem_map.mp hin
  refine ⟨read', hmem', show read'.undrawn.row = read.undrawn.row by rw [hundrawn], ?_⟩
  have hcandidate : (candidateEvent read').map Event.undrawn = some e.undrawn := by
    rw [← candidateEvent_undrawn, hundrawn, candidateEvent_undrawn, he]
    rfl
  exact Option.map_eq_some_iff.mp hcandidate

end SessionPlan

namespace SessionCommit
open SessionReading SessionPlan JournalStore Calls

/-! ### Identities -/

theorem sameIdentity_of_undrawn {e e' : Event} (h : e.undrawn = e'.undrawn) : SameIdentity e e' := by
  unfold Event.undrawn at h
  obtain ⟨-, howner, -, -, -, -, -, hprovenance, -, -, hkey⟩ := Event.mk.inj h
  exact ⟨howner, by rw [hprovenance], by rw [hprovenance], hkey⟩

/-! ### Commits of one session -/

/-- Every row that is not in the journal yet carries an identity of its own and the shape of its kind, and no two of them share
    an identity. -/
structure Recordable (recorded : RecordedIdentities) (rows : List ReadRow) : Prop where
  identified : ∀ read ∈ rows, ∀ e, newEvent recorded read = some e → Identified e
  valid : ∀ read ∈ rows, ∀ e, newEvent recorded read = some e → e.validateStructure = .ok ()
  apart : FactsApart recorded rows

/-- What is drawn for the rows does not decide whether they are recordable. -/
theorem recordable_undrawn {recorded : RecordedIdentities} {rows : List ReadRow} :
    Recordable recorded (rows.map ReadRow.undrawn) ↔ Recordable recorded rows := by
  have hmem : ∀ {p : Event → Prop}, (∀ e, p e.undrawn ↔ p e) →
      ((∀ read ∈ rows.map ReadRow.undrawn, ∀ e, newEvent recorded read = some e → p e) ↔
        ∀ read ∈ rows, ∀ e, newEvent recorded read = some e → p e) := by
    intro p hp
    rw [List.forall_mem_map]
    refine forall₂_congr fun read _ => ?_
    rw [newEvent_undrawn]
    cases newEvent recorded read with
    | none => exact iff_of_true (fun _ h => (nomatch h)) fun _ h => (nomatch h)
    | some e => simp [hp]
  have hidentified := hmem (p := Identified) fun _ => Iff.rfl
  have hvalid := hmem (p := fun e => e.validateStructure = .ok ()) fun e => by rw [e.validateStructure_undrawn]
  have hapart : FactsApart recorded (rows.map ReadRow.undrawn) ↔ FactsApart recorded rows := by
    unfold FactsApart
    rw [List.pairwise_map]
    refine List.Pairwise.iff fun read read' => ?_
    rw [newEvent_undrawn, newEvent_undrawn]
    cases newEvent recorded read with
    | none => exact iff_of_true (fun _ h => (nomatch h)) fun _ h => (nomatch h)
    | some e =>
      cases newEvent recorded read' with
      | none => exact iff_of_true (fun _ _ _ h => (nomatch h)) fun _ _ _ h => (nomatch h)
      | some e' =>
        have hshares : Shares e.undrawn e'.undrawn ↔ Shares e e' := Iff.rfl
        simp [hshares]
  exact ⟨fun h => ⟨hidentified.mp h.identified, hvalid.mp h.valid, hapart.mp h.apart⟩,
    fun h => ⟨hidentified.mpr h.identified, hvalid.mpr h.valid, hapart.mpr h.apart⟩⟩

/-- The identifiers that are drawn for the calls are nobody else's. -/
structure Drawn {ι : Type} (requests : ι → Request) (journal : List Event) : Prop where
  unused : ∀ i row, ∀ e ∈ journal, e.id ≠ ((requests i).drawn row).1
  apart : ∀ i j row row', ((requests i).drawn row).1 = ((requests j).drawn row').1 → i = j ∧ row = row'
  stated : ∀ i j row k, ((requests i).drawn row).1 ≠ (requests j).stated k

/-- Calls of one owner on one session, and the journal they find. -/
structure Commits (ι : Type) where
  context : Context
  resolver : Resolver
  owner : OwnerId
  contents : SessionContents
  journal : List Event
  requests : ι → Request
  owned : ∀ i, (requests i).principal.owner = owner
  numbered : (contents.observations.map ImportObservationView.row).Nodup
  drawn : Drawn requests journal

namespace Commits
variable {ι : Type} (commits : Commits ι)

/-- The session as one of the calls reads it. -/
def Reads (i : ι) (reading : Reading) : Prop :=
  SessionReading.read commits.context.env (commits.context.fresh (commits.requests i)) commits.owner commits.resolver
    commits.contents = .ok reading

/-- What the journal holds before the calls. -/
def recorded : RecordedIdentities := .of (loadEvents commits.journal commits.owner)

/-- The event of a row that is new, as one of the calls reads it. -/
def NewFact (row : Nat) (e : Event) : Prop :=
  ∃ i reading, commits.Reads i reading ∧ ∃ read ∈ reading.rows, read.row = row ∧ newEvent commits.recorded read = some e

/-- An event that one of the calls wrote for a row. -/
def Contributed (row : Nat) (e : Event) : Prop := ∃ i, e.id = ((commits.requests i).drawn row).1

/-- A row has entered the journal. -/
def Entered (row : Nat) (journal : List Event) : Prop := ∃ e ∈ journal, commits.Contributed row e

/-- No row has entered the journal twice. -/
def EachOnce (journal : List Event) : Prop :=
  ∀ row, journal.Pairwise fun e e' => ¬ (commits.Contributed row e ∧ commits.Contributed row e')

/-- Every new row has entered the journal. -/
def Complete (journal : List Event) : Prop := ∀ row e, commits.NewFact row e → commits.Entered row journal

/-- The calls beside each other, before the first of them has begun. -/
def pool : Pool StoreCall Answer CommitError (PlannedSession × CommitOutcome) Store ι :=
  ⟨⟨commits.contents, commits.journal⟩, fun i => commitPlanned commits.context commits.resolver (commits.requests i)⟩

/-- What every call keeps: what the session and the journal were, where every event of the journal is from, and that what the
    source states follows all the rows. -/
structure Kept (store : Store) : Prop where
  contents : store.contents = commits.contents ∨ store.contents.session.state ≠ .open
  grows : commits.journal <+: store.journal
  known : ∀ recorded ∈ store.journal, recorded ∈ commits.journal ∨
    (∃ row e, commits.NewFact row e ∧ SameIdentity recorded e ∧ commits.Contributed row recorded) ∨
      commits.Complete store.journal ∧ ∃ i k, recorded.id = (commits.requests i).stated k
  once : commits.EachOnce store.journal

variable {commits} {row row' : Nat} {e e' : Event} {i : ι} {reading : Reading}

/-- What is new to one of the calls is new to each. -/
theorem newFact_again (hread : commits.Reads i reading) (h : commits.NewFact row e) :
    ∃ read ∈ reading.rows, read.row = row ∧ ∃ e', newEvent commits.recorded read = some e' ∧ e'.undrawn = e.undrawn := by
  obtain ⟨j, reading', hread', read', hmem', rfl, hnew⟩ := h
  obtain ⟨hcandidate, hnot⟩ := newEvent_iff.mp hnew
  have hhash : ∀ row, (commits.context.fresh (commits.requests j) row).fingerprint =
      (commits.context.fresh (commits.requests i) row).fingerprint := fun _ => rfl
  obtain ⟨read, hmem, hrow, e', he', hundrawn⟩ := candidate_again hhash hread' hread hmem' hcandidate
  refine ⟨read, hmem, hrow, e', newEvent_iff.mpr ⟨he', ?_⟩, hundrawn⟩
  rw [← holds_undrawn, hundrawn, holds_undrawn]
  exact hnot

section
variable (hrecordable : ∀ i reading, commits.Reads i reading → Recordable commits.recorded reading.rows)
include hrecordable

theorem newFact_identified (h : commits.NewFact row e) : Identified e := by
  obtain ⟨i, reading, hread, read, hmem, -, hnew⟩ := h
  exact (hrecordable i reading hread).identified read hmem e hnew

theorem newFact_valid (h : commits.NewFact row e) : e.validateStructure = .ok () := by
  obtain ⟨i, reading, hread, read, hmem, -, hnew⟩ := h
  exact (hrecordable i reading hread).valid read hmem e hnew

/-- New rows that share an identity are one row. -/
theorem newFact_apart (h : commits.NewFact row e) (h' : commits.NewFact row' e') (hshares : Shares e e') : row = row' := by
  obtain ⟨i, reading, hread, read, hmem, rfl, hnew⟩ := h
  obtain ⟨read', hmem', rfl, e'', hnew', hundrawn⟩ := newFact_again hread h'
  by_contra hne
  have hreads : read ≠ read' := fun h => hne (by rw [h])
  have hsymm : Std.Symm fun read read' : ReadRow => ∀ e, newEvent commits.recorded read = some e →
      ∀ e', newEvent commits.recorded read' = some e' → ¬ Shares e e' :=
    ⟨fun _ _ h e he e' he' hshares => h e' he' e he hshares.symm⟩
  have hall := (hrecordable i reading hread).apart
  refine hall.forall hmem hmem' hreads e hnew e'' hnew' ?_
  exact (shares_congr ⟨rfl, rfl, rfl, rfl⟩ (sameIdentity_of_undrawn hundrawn)).mpr hshares

end

/-- The calls read one identity of a row. -/
theorem newFact_same (h : commits.NewFact row e) (h' : commits.NewFact row e') : SameIdentity e e' := by
  obtain ⟨i, reading, hread, read, hmem, hrow, hnew⟩ := h
  obtain ⟨read', hmem', hrow', e'', hnew', hundrawn⟩ := newFact_again hread h'
  have hnodup : (reading.rows.map ReadRow.row).Nodup := by
    rw [(rows_of_reading hread).1]
    exact commits.numbered
  cases List.inj_on_of_nodup_map hnodup hmem' hmem (hrow'.trans hrow.symm)
  rw [hnew] at hnew'
  cases hnew'
  exact sameIdentity_of_undrawn hundrawn

theorem Entered.mono {journal journal' : List Event} (h : commits.Entered row journal) (hgrows : journal <+: journal') :
    commits.Entered row journal' := by
  obtain ⟨e, he, hcontributed⟩ := h
  exact ⟨e, hgrows.subset he, hcontributed⟩

theorem Complete.mono {journal journal' : List Event} (h : commits.Complete journal) (hgrows : journal <+: journal') :
    commits.Complete journal' := fun row e hnew => (h row e hnew).mono hgrows

theorem contributed_row (h : commits.Contributed row e) (h' : commits.Contributed row' e) : row = row' := by
  obtain ⟨i, hid⟩ := h
  obtain ⟨j, hid'⟩ := h'
  exact (commits.drawn.apart i j row row' (hid.symm.trans hid')).2

variable {store : Store} {new : Event}

/-- An event of a row is in the journal for that row alone. -/
theorem Kept.of_contributed (hkept : commits.Kept store) (hin : e ∈ store.journal) (h : commits.Contributed row e) :
    ∃ e', commits.NewFact row e' ∧ SameIdentity e e' := by
  obtain ⟨i, hid⟩ := h
  rcases hkept.known e hin with hold | ⟨row', e', hnew, hsame, hcontributed⟩ | ⟨-, j, k, hstated⟩
  · exact absurd hid (commits.drawn.unused i row e hold)
  · cases contributed_row ⟨i, hid⟩ hcontributed
    exact ⟨e', hnew, hsame⟩
  · exact absurd (hid.symm.trans hstated) (commits.drawn.stated i j row k)

section
variable (hrecordable : ∀ i reading, commits.Reads i reading → Recordable commits.recorded reading.rows)
include hrecordable

/-- A new row that nothing in the journal is recognised as is put into it. -/
theorem Kept.append_row (hkept : commits.Kept store) (hnew : commits.NewFact row e) (hsame : SameIdentity new e)
    (hcontributed : commits.Contributed row new) (hnone : held store.journal e = none) :
    commits.Kept { store with journal := store.journal ++ [new] } where
  contents := hkept.contents
  grows := hkept.grows.trans (List.prefix_append _ _)
  known := by
    intro recorded hrecorded
    rcases List.mem_append.mp hrecorded with hin | hin
    · rcases hkept.known recorded hin with hold | hrow | ⟨hcomplete, hstated⟩
      · exact .inl hold
      · exact .inr (.inl hrow)
      · exact .inr (.inr ⟨hcomplete.mono (List.prefix_append _ _), hstated⟩)
    · rw [List.mem_singleton.mp hin]
      exact .inr (.inl ⟨row, e, hnew, hsame, hcontributed⟩)
  once := by
    intro row'
    refine List.pairwise_append.mpr ⟨hkept.once row', List.pairwise_singleton _ _, fun recorded hin last hlast => ?_⟩
    rw [List.mem_singleton.mp hlast]
    rintro ⟨hearlier, hnow⟩
    cases contributed_row hcontributed hnow
    -- The event that the row has already shares the identity of the row.
    obtain ⟨e', hnew', hsame'⟩ := hkept.of_contributed hin hearlier
    have hshares : Shares e' e :=
      (shares_congr (newFact_same hnew hnew') ⟨rfl, rfl, rfl, rfl⟩).mp (shares_self (newFact_identified hrecordable hnew))
    exact held_none.mp hnone recorded hin ((shares_congr hsame' ⟨rfl, rfl, rfl, rfl⟩).mpr hshares)

/-- A new row that is recognised has entered the journal. -/
theorem Kept.entered_of_found (hkept : commits.Kept store) (hnew : commits.NewFact row e) (hsame : SameIdentity new e)
    (hcontributed : commits.Contributed row new) {existing : EventId}
    (hfound : findDuplicate .source store.journal new = some existing) : commits.Entered row store.journal := by
  by_cases hnone : held store.journal new = none
  · rw [findDuplicate_source, hnone, Option.none_or] at hfound
    have hid : heldById store.journal new ≠ none := by simp [hfound]
    rw [Ne, heldById_none] at hid
    push Not at hid
    obtain ⟨recorded, hin, hsameId⟩ := hid
    obtain ⟨i, hdrawn⟩ := hcontributed
    exact ⟨recorded, hin, i, hsameId.trans hdrawn⟩
  · rw [held_none] at hnone
    push Not at hnone
    obtain ⟨recorded, hin, hshares⟩ := hnone
    rw [shares_congr ⟨rfl, rfl, rfl, rfl⟩ hsame] at hshares
    rcases hkept.known recorded hin with hold | ⟨row', e', hnew', hsame', hcontributed'⟩ | ⟨hcomplete, -⟩
    · obtain ⟨i, reading, hread, read, hmem, -, hof⟩ := hnew
      obtain ⟨hcandidate, hnot⟩ := newEvent_iff.mp hof
      exact absurd ((holds_iff ((rows_of_reading hread).2 read hmem |>.2 e hcandidate).2).mpr ⟨recorded, hold, hshares⟩) hnot
    · rw [shares_congr hsame' ⟨rfl, rfl, rfl, rfl⟩] at hshares
      cases newFact_apart hrecordable hnew' hnew hshares
      exact ⟨recorded, hin, hcontributed'⟩
    · exact hcomplete row e hnew

end

/-- What the source states follows all the rows. -/
theorem Kept.append_statement (hkept : commits.Kept store) (hcomplete : commits.Complete store.journal)
    (hstated : ∃ i k, new.id = (commits.requests i).stated k) :
    commits.Kept { store with journal := store.journal ++ [new] } where
  contents := hkept.contents
  grows := hkept.grows.trans (List.prefix_append _ _)
  known := by
    intro recorded hrecorded
    have hgrows : store.journal <+: store.journal ++ [new] := List.prefix_append _ _
    rcases List.mem_append.mp hrecorded with hin | hin
    · rcases hkept.known recorded hin with hold | hrow | ⟨-, hearlier⟩
      · exact .inl hold
      · exact .inr (.inl hrow)
      · exact .inr (.inr ⟨hcomplete.mono hgrows, hearlier⟩)
    · rw [List.mem_singleton.mp hin]
      exact .inr (.inr ⟨hcomplete.mono hgrows, hstated⟩)
  once := by
    intro row
    refine List.pairwise_append.mpr ⟨hkept.once row, List.pairwise_singleton _ _, fun recorded _ last hlast => ?_⟩
    rw [List.mem_singleton.mp hlast]
    rintro ⟨-, i, hdrawn⟩
    obtain ⟨j, k, hid⟩ := hstated
    exact commits.drawn.stated i j row k (hdrawn.symm.trans hid)

/-! ### One call -/

/-- While a commit waits, the journal grows. -/
def Grows (store store' : Store) : Prop := store.journal <+: store'.journal

theorem Grows.refl (store : Store) : Grows store store := List.prefix_refl _

theorem Grows.trans {store middle last : Store} (h : Grows store middle) (h' : Grows middle last) : Grows store last :=
  List.IsPrefix.trans h h'

variable {refuses : Event → Option String}

/-- What a part of a commit does beside the others. -/
abbrev Does (commits : Commits ι) (refuses : Event → Option String) {α : Type} (Post : α → Store → Prop) (p : Commit α)
    (store : Store) : Prop :=
  Safe (serve refuses) commits.Kept Grows Grows Post p store

theorem does_readSession : commits.Does refuses
    (fun contents _ => contents = commits.contents ∨ contents.session.state ≠ .open) readSession store :=
  fun _ hkept _ => ⟨hkept, Grows.refl _, fun _ _ _ => hkept.contents⟩

theorem does_loadJournal (owner : OwnerId) : commits.Does refuses
    (fun loaded _ => ∃ journal, commits.journal <+: journal ∧ loaded = loadEvents journal owner) (loadJournal owner) store :=
  fun _ hkept _ => ⟨hkept, Grows.refl _, fun _ _ _ => ⟨_, hkept.grows, rfl⟩⟩

/-- A write changes the journal when the event is not recognised, and is answered. -/
theorem does_append {Answered : Store → Prop} (hgrows : ∀ s t, Grows s t → Answered s → Answered t)
    (hnew : ∀ t, commits.Kept t → Grows store t → findDuplicate .source t.journal new = none →
      commits.Kept { t with journal := t.journal ++ [JournalStore.stamp t.journal new] } ∧
        Answered { t with journal := t.journal ++ [JournalStore.stamp t.journal new] })
    (hfound : ∀ t existing, commits.Kept t → Grows store t → findDuplicate .source t.journal new = some existing → Answered t) :
    commits.Does refuses (fun _ t => Answered t) (append new) store := by
  intro t hkept hst
  change commits.Kept (serve refuses (.append new) t).2 ∧ Grows t (serve refuses (.append new) t).2 ∧
    commits.Does refuses (fun _ t => Answered t) (answered (serve refuses (.append new) t).1) (serve refuses (.append new) t).2
  unfold serve
  dsimp only
  rcases append_cases refuses .source t.journal new with ⟨existing, hold, happend⟩ |
    ⟨hnone, ⟨-, -, happend⟩ | ⟨-, error, happend⟩⟩
  · rw [happend]
    exact ⟨hkept, Grows.refl _, fun u _ htu => hgrows _ _ htu (hfound t existing hkept hst hold)⟩
  · rw [happend]
    obtain ⟨hafter, hanswered⟩ := hnew t hkept hst hnone
    exact ⟨hafter, List.prefix_append _ _, fun u _ htu => hgrows _ _ htu hanswered⟩
  · rw [happend]
    exact ⟨hkept, Grows.refl _, trivial⟩

/-- A verdict reads the journal at most. -/
theorem does_answerVerdict {Answered : Store → Prop} (hgrows : ∀ s t, Grows s t → Answered s → Answered t)
    (hanswered : Answered store) (answer : Appended) :
    commits.Does refuses (fun _ t => Answered t) (answerVerdict new answer) store := by
  cases answer with
  | inserted id => exact fun t _ hst => hgrows _ _ hst hanswered
  | duplicate existing =>
    intro t hkept hst
    exact ⟨hkept, Grows.refl _, fun u _ htu => hgrows _ _ htu (hgrows _ _ hst hanswered)⟩

/-- A candidate of a new row has been put into the journal. -/
def Handled (commits : Commits ι) (candidate : Except Rejection Event) (store : Store) : Prop :=
  ∀ row e, candidate = .ok e → commits.NewFact row e → commits.Entered row store.journal

theorem handled_grows {candidate : Except Rejection Event} (s t : Store) (hst : Grows s t) (h : commits.Handled candidate s) :
    commits.Handled candidate t := fun row e he hnew => (h row e he hnew).mono hst

/-- A candidate of a call: one of its rows, under the identifier that was drawn for the row. -/
def CandidateOf (commits : Commits ι) (i : ι) (candidate : Except Rejection Event) : Prop :=
  ∀ e, candidate = .ok e → ∃ reading, commits.Reads i reading ∧ ∃ read ∈ reading.rows, candidateEvent read = some e

theorem contributed_of_newFact (h : commits.NewFact row e) : commits.Contributed row e := by
  obtain ⟨i, reading, hread, read, hmem, rfl, hnew⟩ := h
  exact ⟨i, ((rows_of_reading hread).2 read hmem |>.2 e (newEvent_iff.mp hnew).1).1⟩

section
variable (hrecordable : ∀ i reading, commits.Reads i reading → Recordable commits.recorded reading.rows)
  {session : ImportSessionId} {declaredBy : PrincipalId} {candidate : Except Rejection Event}
  {candidates : List (Except Rejection Event)}
include hrecordable

/-- What a row is recognised as is what it was recognised as before the calls, or one of the calls has written it. -/
theorem does_submitCandidate (hkept : commits.Kept store) (hcandidate : commits.CandidateOf i candidate) :
    commits.Does refuses (fun _ t => commits.Handled candidate t)
      (submitCandidate commits.context session declaredBy candidate) store := by
  cases candidate with
  | error rejection => exact fun t _ _ row e he => (nomatch he)
  | ok e =>
    obtain ⟨reading, hread, read, hmem, he⟩ := hcandidate e rfl
    change commits.Does refuses _ (recordCandidate commits.context (stamped session declaredBy e) "operation") store
    unfold recordCandidate
    cases hvalid : structuralRejection commits.context (stamped session declaredBy e) "operation" with
    | some rejection =>
      intro t _ _ row e' he' hnew
      cases he'
      have hshape : e.validateStructure = .ok () := newFact_valid hrecordable hnew
      rw [structuralRejection_none.mpr ((validateStructure_stamped e).trans hshape)] at hvalid
      cases hvalid
    | none =>
      have hsame : SameIdentity (stamped session declaredBy e) e := ⟨rfl, rfl, rfl, rfl⟩
      refine Safe.bind Grows.refl hkept (does_append handled_grows (fun t ht hst hfree => ?_)
        fun t existing ht hst hfound row e' he' hnew => ?_) fun answer t _ hanswered => does_answerVerdict handled_grows hanswered answer
      · have hnone : held t.journal e = none := held_of_findDuplicate_none hfree
        by_cases hnew : newEvent commits.recorded read = some e
        · have hfact : commits.NewFact read.row e := ⟨i, reading, hread, read, hmem, rfl, hnew⟩
          have hcontributed := contributed_of_newFact hfact
          have hplaced : SameIdentity (JournalStore.stamp t.journal (stamped session declaredBy e)) e := ⟨rfl, rfl, rfl, rfl⟩
          refine ⟨ht.append_row hrecordable hfact hplaced hcontributed hnone, fun row e' he' hnew' => ?_⟩
          cases he'
          cases contributed_row hcontributed (contributed_of_newFact hnew')
          exact ⟨_, List.mem_append_right _ (List.mem_singleton.mpr rfl), hcontributed⟩
        · rw [newEvent_iff, not_and, not_not] at hnew
          obtain ⟨old, hold, hshares⟩ := (holds_iff ((rows_of_reading hread).2 read hmem |>.2 e he).2).mp (hnew he)
          exact absurd hshares (held_none.mp hnone old (ht.grows.subset hold))
      · cases he'
        have hcontributed : commits.Contributed row (stamped session declaredBy e) := contributed_of_newFact (e := e) hnew
        exact ht.entered_of_found hrecordable hnew hsame hcontributed hfound

theorem does_submitCandidates (hkept : commits.Kept store) (hcandidates : ∀ candidate ∈ candidates, commits.CandidateOf i candidate) :
    commits.Does refuses (fun _ t => ∀ candidate ∈ candidates, commits.Handled candidate t)
      (submitCandidates commits.context session declaredBy candidates) store := by
  induction candidates generalizing store with
  | nil => exact fun _ _ _ candidate hin => (nomatch hin)
  | cons candidate candidates ih =>
    refine Safe.bind Grows.refl hkept (does_submitCandidate hrecordable hkept (hcandidates candidate List.mem_cons_self))
      fun verdict t ht hfirst => ?_
    have hrest := ih ht fun candidate hin => hcandidates candidate (List.mem_cons_of_mem _ hin)
    refine Safe.bind Grows.refl ht (Safe.frame handled_grows handled_grows hfirst hrest) fun verdicts u _ hdone => ?_
    obtain ⟨hothers, hone⟩ := hdone
    intro v _ huv candidate' hin
    rcases List.mem_cons.mp hin with rfl | hin
    · exact handled_grows u v huv hone
    · exact handled_grows u v huv (hothers candidate' hin)

end

/-- The statements of the source are written when all the rows are. -/
theorem does_appendEvents {events : List Event} (hkept : commits.Kept store) (hcomplete : commits.Complete store.journal)
    (hstated : ∀ e ∈ events, ∃ i k, e.id = (commits.requests i).stated k) :
    commits.Does refuses (fun _ t => commits.Complete t.journal) (appendEvents events) store := by
  have hgrows : ∀ s t, Grows s t → commits.Complete s.journal → commits.Complete t.journal := fun _ _ hst h => h.mono hst
  induction events generalizing store with
  | nil => exact fun t _ hst => hgrows _ _ hst hcomplete
  | cons e events ih =>
    refine Safe.bind Grows.refl hkept (does_append hgrows (fun t ht hst _ => ?_) fun t _ _ hst _ => hgrows _ _ hst hcomplete)
      fun answer t ht hthen => ?_
    · have hthere := hgrows _ _ hst hcomplete
      exact ⟨ht.append_statement hthere (hstated e List.mem_cons_self), hthere.mono (List.prefix_append _ _)⟩
    · refine Safe.bind Grows.refl ht (ih ht hthen fun e hin => hstated e (List.mem_cons_of_mem _ hin)) fun answers u _ hlast => ?_
      exact fun v _ huv => hgrows _ _ huv hlast

theorem does_close (hcomplete : commits.Complete store.journal) :
    commits.Does refuses (fun _ t => commits.Complete t.journal) close store := by
  intro t hkept hst
  change commits.Kept (serve refuses .close t).2 ∧ Grows t (serve refuses .close t).2 ∧
    commits.Does refuses (fun _ t => commits.Complete t.journal) (.done (serve refuses .close t).1) (serve refuses .close t).2
  unfold serve
  dsimp only
  split
  · refine ⟨⟨.inr (fun h => (nomatch h)), hkept.grows, hkept.known, hkept.once⟩, Grows.refl _, fun u _ htu => ?_⟩
    exact (hcomplete.mono hst).mono htu
  · exact ⟨hkept, Grows.refl _, fun u _ htu => (hcomplete.mono hst).mono htu⟩

/-! ### A whole commit -/

section
variable (hrecordable : ∀ i reading, commits.Reads i reading → Recordable commits.recorded reading.rows)
  {plan : PlannedSession}
include hrecordable

/-- A plan that is written to its end leaves every new row in the journal. -/
theorem does_writePlan (hkept : commits.Kept store) (hread : commits.Reads i reading)
    (hcandidates : plan.candidates = candidatesOf reading.rows) :
    commits.Does refuses (fun _ t => commits.Complete t.journal) (writePlan commits.context (commits.requests i) plan) store := by
  have hcandidate : ∀ candidate ∈ plan.candidates, commits.CandidateOf i candidate := by
    intro candidate hin e he
    rw [hcandidates, he] at hin
    exact ⟨reading, hread, mem_candidates.mp hin⟩
  refine Safe.bind Grows.refl hkept (does_submitCandidates hrecordable hkept hcandidate) fun written t ht hhandled => ?_
  have hcomplete : commits.Complete t.journal := by
    intro row e hnew
    obtain ⟨read, hmem, rfl, e', hnew', -⟩ := newFact_again hread hnew
    have hin : .ok e' ∈ plan.candidates := by
      rw [hcandidates]
      exact mem_candidates.mpr ⟨read, hmem, (newEvent_iff.mp hnew').1⟩
    exact hhandled (.ok e') hin read.row e' rfl ⟨i, reading, hread, read, hmem, rfl, hnew'⟩
  split
  · trivial
  · have hstated : ∀ e ∈ statements commits.context (commits.requests i).principal.owner (commits.requests i).principal.id
        (commits.requests i).stated plan, ∃ j k, e.id = (commits.requests j).stated k := by
      intro e he
      obtain ⟨k, hk, rfl⟩ := List.mem_mapIdx.mp he
      exact ⟨i, k, rfl⟩
    have hchecked : commits.Does refuses (fun _ t => commits.Complete t.journal) (appendChecked commits.context
        (statements commits.context (commits.requests i).principal.owner (commits.requests i).principal.id
          (commits.requests i).stated plan)) t := by
      unfold appendChecked
      split
      · trivial
      · exact does_appendEvents ht hcomplete hstated
    refine Safe.bind Grows.refl ht hchecked fun recorded u hu hwritten => ?_
    refine Safe.bind Grows.refl hu (does_close hwritten) fun closed v hv hlast => ?_
    split
    · exact fun w _ hvw => hlast.mono hvw
    · trivial

/-- A commit that ends well has every fact of its plan in the journal. -/
theorem does_commitPlanned (hkept : commits.Kept store) (i : ι) : commits.Does refuses
    (fun result t => ∀ fact ∈ result.1.delta.accounting.facts, commits.Entered fact.row t.journal)
      (commitPlanned commits.context commits.resolver (commits.requests i)) store := by
  unfold commitPlanned
  split
  · refine Safe.bind Grows.refl hkept does_readSession fun contents t ht hcontents => ?_
    refine Safe.bind Grows.refl ht (does_loadJournal _) fun loaded u hu hloaded => ?_
    obtain ⟨journal, hgrows, rfl⟩ := hloaded
    cases hplan : planSession commits.context.env (commits.context.fresh (commits.requests i))
        (commits.requests i).principal.owner commits.resolver contents
        (loadEvents journal (commits.requests i).principal.owner) with
    | error e => cases e <;> trivial
    | ok plan =>
      rw [reraise, Program.ofResult, Program.done_bind]
      obtain ⟨hsession, -, hcandidates⟩ := planSession_parts hplan
      rcases hcontents with rfl | hclosed
      · cases refusal commits.context (commits.requests i) plan with
        | some error => trivial
        | none =>
          rw [commits.owned i] at hplan
          obtain ⟨reading, hread, hrows⟩ := planSession_reading hplan
          rw [hrows] at hcandidates
          refine Safe.bind Grows.refl hu (does_writePlan hrecordable hu hread hcandidates) fun outcome v hv hcomplete => ?_
          intro w _ hvw fact hfact
          obtain ⟨-, -, -, haccounting⟩ := planSession_ok hplan
          have hdecided : ∀ read ∈ plan.rows, Decided read := fun read hmem => ((rows_of_plan hplan).2 read hmem).1
          rw [haccounting] at hfact
          obtain ⟨read, hmem, e, hnew, rfl⟩ := (mem_facts_iff hdecided).mp hfact
          obtain ⟨he, hnot⟩ := newEvent_iff.mp hnew
          have howner := (((rows_of_plan hplan).2 read hmem).2 e he).2
          have hfree : ¬ ∃ old ∈ journal, Shares old e := fun hold => hnot ((holds_iff howner).mpr hold)
          -- What the plan does not find in the journal was not there before the calls either.
          have hfact : newEvent commits.recorded read = some e := by
            refine newEvent_iff.mpr ⟨he, fun hheld => hfree ?_⟩
            obtain ⟨old, hold, hshares⟩ := (holds_iff howner).mp hheld
            exact ⟨old, hgrows.subset hold, hshares⟩
          rw [hrows] at hmem
          exact (hcomplete read.row e ⟨i, reading, hread, read, hmem, rfl, hfact⟩).mono hvw
      · have hrefused : refusal commits.context (commits.requests i) plan = some (.notOpen plan.session.state) := by
          rw [← hsession] at hclosed
          unfold refusal
          rw [if_pos hclosed]
        rw [hrefused]
        trivial
  · trivial

end

/-- Whatever the calls of a session and however they fail, the rows that were new enter the journal once, and a commit that
    reports success has every fact of its plan there, when these rows carry identities of their own, apart, and the shapes of
    their kinds. -/
theorem rows_enter_once [DecidableEq ι] (commits : Commits ι) (refuses : Event → Option String)
    (hrecordable : ∀ i reading, commits.Reads i reading → Recordable commits.recorded reading.rows) (schedule : List ι) :
    commits.EachOnce (commits.pool.run (serve refuses) schedule).store.journal ∧
      ∀ i plan outcome, (commits.pool.run (serve refuses) schedule).programs i = .done (plan, outcome) →
        ∀ fact ∈ plan.delta.accounting.facts,
          commits.Entered fact.row (commits.pool.run (serve refuses) schedule).store.journal := by
  have hstart : commits.Kept commits.pool.store := by
    refine ⟨.inl rfl, List.prefix_refl _, fun recorded hrecorded => .inl hrecorded, fun row => ?_⟩
    refine List.pairwise_of_forall_mem_list fun e he e' _ hboth => ?_
    obtain ⟨⟨i, hid⟩, -⟩ := hboth
    exact commits.drawn.unused i row e he hid
  have hdoes : ∀ i, commits.Does refuses
      (fun result t => ∀ fact ∈ result.1.delta.accounting.facts, commits.Entered fact.row t.journal)
        (commitPlanned commits.context commits.resolver (commits.requests i)) commits.pool.store :=
    fun i => does_commitPlanned hrecordable hstart i
  obtain ⟨hkept, hdone⟩ := safe_run (fun _ => Grows.refl) (fun _ _ _ _ => Grows.trans) (fun _ _ _ _ _ _ h => h) schedule
    hstart hdoes
  exact ⟨hkept.once, fun i plan outcome h => hdone i (plan, outcome) h⟩

end Commits

/-! Two deposits of a session, and calls that try to commit it again. -/

def retryRequest (call : Nat) : Request :=
  { depositRequest call with drawn := fun row => (⟨2 * Nat.pair call row⟩, ⟨row⟩) }

def retries (key : String → Option String) : Commits Nat where
  context := { depositContext "" "" with
    env := { pairEnvironment with parseIntake := fun payload => .ok (.concluded { depositRow "" with idempotencyKey := key payload }) } }
  resolver := ⟨[], [], []⟩
  owner := ⟨1⟩
  contents := depositSession
  journal := []
  requests := retryRequest
  owned _ := rfl
  numbered := by decide
  drawn := {
    unused := fun _ _ _ h => (nomatch h)
    apart := fun i j row row' h => by
      simp only [retryRequest, Ident.mk.injEq] at h
      exact Nat.pair_eq_pair.mp (Nat.eq_of_mul_eq_mul_left (by decide) h)
    stated := fun i j row k h => by
      simp only [retryRequest, depositRequest, Ident.mk.injEq] at h
      omega }

/-- The first call writes the first row and fails, and the second one goes through. -/
def retried (key : String → Option String) :
    Pool StoreCall Answer CommitError (PlannedSession × CommitOutcome) Store Nat :=
  (retries key).pool.run (serve fun _ => none) [0, 0, 0, 1, 1, 1, 1, 1, 1]

theorem recordable_retries {call : Nat} {reading : Reading} (hread : (retries some).Reads call reading) :
    Recordable (retries some).recorded reading.rows := by
  obtain ⟨first, hfirst⟩ := exists_ok (show (SessionReading.read (retries some).context.env
    ((retries some).context.fresh (retryRequest 0)) (retries some).owner (retries some).resolver
    (retries some).contents).isOk = true by decide)
  have hhash : ∀ row, ((retries some).context.fresh (retryRequest 0) row).fingerprint =
      ((retries some).context.fresh (retryRequest call) row).fingerprint := fun _ => rfl
  have hvalid : decide (∀ e ∈ first.rows.filterMap (newEvent (retries some).recorded),
      e.idempotencyKey.isSome ∧ e.validateStructure = .ok ()) = true :=
    read_of_ok hfirst (fun reading => decide (∀ e ∈ reading.rows.filterMap (newEvent (retries some).recorded),
      e.idempotencyKey.isSome ∧ e.validateStructure = .ok ())) (by decide)
  have hapart : decide ((first.rows.filterMap (newEvent (retries some).recorded)).Pairwise fun e e' => ¬ Shares e e') = true :=
    read_of_ok hfirst (fun reading => decide ((reading.rows.filterMap (newEvent (retries some).recorded)).Pairwise
      fun e e' => ¬ Shares e e')) (by decide)
  have hof : ∀ read ∈ first.rows, ∀ e, newEvent (retries some).recorded read = some e →
      e.idempotencyKey.isSome ∧ e.validateStructure = .ok () := fun read hmem e he =>
    of_decide_eq_true hvalid e (List.mem_filterMap.mpr ⟨read, hmem, he⟩)
  rw [← recordable_undrawn, ← rows_undrawn hhash hfirst hread, recordable_undrawn]
  exact ⟨fun read hmem e he => .inr (hof read hmem e he).1, fun read hmem e he => (hof read hmem e he).2,
    List.pairwise_filterMap.mp (of_decide_eq_true hapart)⟩

/-- Deposits under keys of their own enter once, and the call that goes through has both. -/
theorem keyed_rows_enter_once : ∃ plan outcome, (retried some).programs 1 = .done (plan, outcome) ∧
    plan.delta.accounting.facts.map PlannedFact.row = [2] ∧ (retries some).EachOnce (retried some).store.journal ∧
      ∀ fact ∈ plan.delta.accounting.facts, (retries some).Entered fact.row (retried some).store.journal := by
  obtain ⟨result, hresult⟩ := Option.isSome_iff_exists.mp
    (show (((retried some).programs 1).ended).isSome = true by decide)
  have hfacts : ((retried some).programs 1).ended.map (fun result => result.1.delta.accounting.facts.map PlannedFact.row) =
      some [2] := by decide
  rw [hresult] at hfacts
  have hdone := Program.ended_iff.mp hresult
  obtain ⟨honce, hentered⟩ := Commits.rows_enter_once (retries some) (fun _ => none)
    (fun _ _ hread => recordable_retries hread) [0, 0, 0, 1, 1, 1, 1, 1, 1]
  exact ⟨result.1, result.2, hdone, Option.some.inj hfacts, honce, hentered 1 result.1 result.2 hdone⟩

/-- A deposit without an identity of its own is written again by the next call. -/
theorem keyless_row_enters_twice : ∃ plan outcome, (retried fun _ => none).programs 1 = .done (plan, outcome) ∧
    (retried fun _ => none).store.journal.map Event.id = [⟨2⟩, ⟨6⟩, ⟨10⟩] ∧
      ¬ (retries fun _ => none).EachOnce (retried fun _ => none).store.journal := by
  obtain ⟨result, hresult⟩ := Option.isSome_iff_exists.mp
    (show (((retried fun _ => none).programs 1).ended).isSome = true by decide)
  have hids : (retried fun _ => none).store.journal.map Event.id = [⟨2⟩, ⟨6⟩, ⟨10⟩] := by decide
  refine ⟨result.1, result.2, Program.ended_iff.mp hresult, hids, fun honce => ?_⟩
  obtain ⟨first, rest, hjournal, hfirst, hrest⟩ := List.map_eq_cons_iff.mp hids
  obtain ⟨second, last, rfl, hsecond, -⟩ := List.map_eq_cons_iff.mp hrest
  have hpairs := honce 1
  rw [hjournal, List.pairwise_cons] at hpairs
  exact hpairs.1 second List.mem_cons_self ⟨⟨0, hfirst⟩, ⟨1, hsecond⟩⟩

end SessionCommit
end Iaam
