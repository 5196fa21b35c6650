import Iaam.App.Sync
import Iaam.Theorems.JournalStore
import Iaam.Theorems.Undrawn

/-! A synchronisation amid other writers: what each of its calls does, and that what it answers of its rows is what the
journal got of them. -/

namespace Iaam
namespace Sync
open Outcome JournalStore Calls Dedup

variable {refuses : Event → Option String} {context : Context} {broker : BrokerChannel} {request : Request} {draws : Draws}
  {Rely : Store → Store → Prop} {scope : IdentityScope} {journal journal' : List Event} {e e' : Event} {p q : Progress}
  {s t u : Store} {own : List (Store × Store)} {k : KnownRecord} {i : Nat} {operation : SubmittedOperation}
  {hint : Option (EventId × DedupLevel)}

/-! ### By what a row is recognised -/

/-- A known record is what the key of an event stands for, whatever source it came from. -/
def Recognises (scope : IdentityScope) (k : KnownRecord) (e : Event) : Prop :=
  match e.provenance.sourceOperationId with
  | some id => k.sourceOperationId = some id ∧ (scope = .source ∨ k.account = e.account)
  | none => e.idempotencyKey.isSome ∧ k.idempotencyKey = e.idempotencyKey

theorem mem_loadEventsThrough {owner : OwnerId} {through : Date} {recorded : Event} :
    recorded ∈ JournalStore.loadEventsThrough journal owner through ↔
      recorded ∈ journal ∧ recorded.owner = owner ∧ recorded.order.date ≤ through := by
  unfold JournalStore.loadEventsThrough
  rw [List.mem_insertionSort, List.mem_filter, Bool.and_eq_true, decide_eq_true_eq, decide_eq_true_eq]

/-- An append adds the event to the journal, or nothing. -/
theorem append_ok {answer : Appended} (h : appendEventInOrder refuses scope journal e = .ok (answer, journal')) :
    (∃ existing, findDuplicate scope journal e = some existing ∧ answer = .duplicate existing ∧ journal' = journal) ∨
      findDuplicate scope journal e = none ∧ answer = .inserted e.id ∧ journal' = journal ++ [stamp journal e] := by
  rcases append_cases refuses scope journal e with ⟨existing, hfound, hcase⟩ | ⟨hfound, ⟨-, -, hcase⟩ | ⟨-, error, hcase⟩⟩
  · rw [hcase] at h
    cases h
    exact .inl ⟨existing, hfound, rfl, rfl⟩
  · rw [hcase] at h
    cases h
    exact .inr ⟨hfound, rfl, rfl⟩
  · rw [hcase] at h
    cases h

/-! ### What a row becomes -/

/-- The event of an operation is the owner's, under the identifier that was drawn, with the identity of the operation. -/
theorem candidate_ok (h : candidate context broker request draws i operation = .ok e) :
    e.id = draws.event i ∧ e.owner = request.principal.owner ∧ e.account = operation.account ∧
      e.provenance.source = broker.channel.source ∧ e.provenance.sourceOperationId = operation.sourceOperationId ∧
        e.idempotencyKey = operation.idempotencyKey ∧ e.validateStructure = .ok () := by
  obtain ⟨normalized, hnormalized, h⟩ := bind_ok.mp h
  cases hstructure : (declared request normalized).validateStructure with
  | error error =>
    rw [structuralRejection, hstructure] at h
    cases h
  | ok valid =>
    rw [structuralRejection, hstructure] at h
    cases h
    refine ⟨?_, ?_, ?_, ?_, ?_, ?_, hstructure⟩
    all_goals
      unfold Operation.normalize at hnormalized
      dsimp only at hnormalized
      split at hnormalized
      · cases hnormalized
      · obtain ⟨built, -, hnormalized⟩ := bind_ok.mp hnormalized
        cases hnormalized
        rfl

theorem chooseKey_documentContext : chooseKey context.fingerprint operation (documentContext broker operation) =
    match operation.sourceOperationId with
    | some id => some (.sourceOperationId id)
    | none => operation.idempotencyKey.map .idempotencyKey := by
  unfold chooseKey documentContext
  cases operation.sourceOperationId <;> cases operation.idempotencyKey <;> rfl

theorem assess_cases (key : Option DedupKey) (fingerprint : String) (document : DocumentContext) (known : List KnownRecord) :
    (∃ found, key = some found ∧ ∃ k ∈ known, matchesKey k found document = true ∧
      assess key fingerprint document known = .duplicate found k.event) ∨
    (∀ found, key = some found → ∀ k ∈ known, matchesKey k found document ≠ true) ∧
      ((∃ «of» level, assess key fingerprint document known = .possibleDuplicate «of» level) ∨
        assess key fingerprint document known = .fresh) := by
  have hhint : (∃ «of» level, assess none fingerprint document known = .possibleDuplicate «of» level) ∨
      assess none fingerprint document known = .fresh := by
    simp only [assess, Option.bind_none]
    split
    · exact .inl ⟨_, _, rfl⟩
    · exact .inr rfl
  cases key with
  | none => exact .inr ⟨fun found hfound => (nomatch hfound), hhint⟩
  | some found =>
    cases hfind : known.find? fun record => matchesKey record found document with
    | some k =>
      have hmatch : matchesKey k found document = true := List.find?_some (p := fun k => matchesKey k found document) hfind
      refine .inl ⟨found, rfl, k, List.mem_of_find?_eq_some hfind, hmatch, ?_⟩
      simp only [assess, Option.bind_some, hfind, Option.map_some]
    | none =>
      refine .inr ⟨fun found' hsame k hk => ?_, ?_⟩
      · cases hsame
        exact List.find?_eq_none.mp hfind k hk
      · have hnone : assess (some found) fingerprint document known = assess none fingerprint document known := by
          simp only [assess, Option.bind_some, hfind, Option.map_none, Option.bind_none]
        rw [hnone]
        exact hhint

theorem recognises_iff (h : candidate context broker request draws i operation = .ok e) :
    Recognises broker.identityScope k e ↔ ∃ found, chooseKey context.fingerprint operation (documentContext broker operation) =
      some found ∧ matchesKey k found (documentContext broker operation) = true := by
  obtain ⟨-, -, haccount, -, hoperation, hkey, -⟩ := candidate_ok h
  rw [chooseKey_documentContext]
  unfold Recognises
  rw [hoperation, hkey, haccount]
  cases operation.sourceOperationId with
  | some id =>
    cases hscope : broker.identityScope with
    | source => simp [matchesKey, documentContext, hscope]
    | account => simp [matchesKey, documentContext, hscope]
  | none => cases operation.idempotencyKey <;> simp [matchesKey]

/-- A decision finds a duplicate where a known record recognises the event. -/
theorem decision_cases (h : candidate context broker request draws i operation = .ok e) (known : List KnownRecord) :
    (∃ key, ∃ k ∈ known, Recognises broker.identityScope k e ∧
      decision context broker operation e known = .duplicate key k.event) ∨
    (∀ k ∈ known, ¬ Recognises broker.identityScope k e) ∧
      ((∃ «of» level, decision context broker operation e known = .possibleDuplicate «of» level) ∨
        decision context broker operation e known = .fresh) := by
  rcases assess_cases (chooseKey context.fingerprint operation (documentContext broker operation)) e.provenance.rawHash
    (documentContext broker operation) known with ⟨found, hchosen, k, hk, hmatch, hdecision⟩ | ⟨hnone, hdecision⟩
  · exact .inl ⟨found, k, hk, (recognises_iff h).mpr ⟨found, hchosen, hmatch⟩, hdecision⟩
  · refine .inr ⟨fun k hk hrecognises => ?_, hdecision⟩
    obtain ⟨found, hchosen, hmatch⟩ := (recognises_iff h).mp hrecognises
    exact hnone found hchosen k hk hmatch

/-! ### One row -/

/-- What comes of an event: a known record recognises it, the write fails, or the store answers. -/
inductive Taken (refuses : Event → Option String) (broker : BrokerChannel) (Rely : Store → Store → Prop) (e : Event)
    (hint : Option (EventId × DedupLevel)) (p : Progress) (s : Store) : List (Store × Store) → Result SyncError Progress →
      Store → Prop
  | known {k : KnownRecord} {u : Store} : k ∈ p.known → Recognises broker.identityScope k e → Rely s u →
      Taken refuses broker Rely e hint p s [] (.ok (p.duplicate k.event)) u
  | invalid {error : Fail SyncError} {u : Store} : Rely s u → Taken refuses broker Rely e hint p s [] (.error error) u
  | failed {error : Fail SyncError} {t u : Store} : Rely s t → Rely t u →
      Taken refuses broker Rely e hint p s [(t, t)] (.error error) u
  | answered {answer : Appended} {journal : List Event} {t u : Store} :
      (∀ k ∈ p.known, ¬ Recognises broker.identityScope k e) → Rely s t →
      appendEventInOrder refuses broker.identityScope t.journal e = .ok (answer, journal) → Rely { t with journal } u →
      Taken refuses broker Rely e hint p s [(t, { t with journal })] (.ok (p.take e hint answer)) u

section
variable (hrefl : ∀ s, Rely s s) (htrans : ∀ s t u, Rely s t → Rely t u → Rely s u)
include hrefl htrans

/-- A write is answered, or it fails and leaves the store as it was. -/
theorem amid_append {r : Result SyncError Appended}
    (h : Amid (serve refuses) Rely (Program.ask (StoreCall.append scope e) >>= answered) s own r u) :
    (∃ t answer journal, Rely s t ∧ appendEventInOrder refuses scope t.journal e = .ok (answer, journal) ∧
      own = [(t, { t with journal })] ∧ r = .ok answer ∧ Rely { t with journal } u) ∨
    ∃ t error, Rely s t ∧ own = [(t, t)] ∧ r = .error error ∧ Rely t u := by
  rcases h.bind_cases hrefl with ⟨error, rfl, hstop⟩ | ⟨result, first, rest, v, rfl, hask, hend⟩
  · obtain ⟨t, -, -, hr, -⟩ := hstop.ask
    cases hr
  · obtain ⟨t, hst, rfl, hr, htv⟩ := hask.ask
    cases happend : appendEventInOrder refuses scope t.journal e with
    | error error =>
      simp only [serve, happend] at hr htv ⊢
      cases hr
      obtain ⟨rfl, rfl, hvu⟩ := Amid.of_stop hend
      exact .inr ⟨t, _, hst, rfl, rfl, htrans _ _ _ htv hvu⟩
    | ok result =>
      obtain ⟨answer, journal⟩ := result
      simp only [serve, happend] at hr htv ⊢
      cases hr
      obtain ⟨rfl, rfl, hvu⟩ := Amid.of_done hend
      exact .inl ⟨t, answer, journal, hst, happend, rfl, rfl, htrans _ _ _ htv hvu⟩

theorem taken_of_takeEvent {r : Result SyncError Progress}
    (hnone : ∀ k ∈ p.known, ¬ Recognises broker.identityScope k e)
    (h : Amid (serve refuses) Rely (takeEvent context broker e hint p) s own r u) :
    Taken refuses broker Rely e hint p s own r u := by
  simp only [takeEvent, appendChecked] at h
  rcases h.bind_cases hrefl with ⟨error, rfl, hstop⟩ | ⟨answer, first, rest, v, rfl, hfirst, hend⟩
  · split at hstop
    · obtain ⟨-, rfl, hrely⟩ := Amid.of_stop hstop
      exact .invalid hrely
    · rcases amid_append hrefl htrans hstop with ⟨t, answer, journal, -, -, -, hr, -⟩ | ⟨t, error', hst, rfl, -, htu⟩
      · cases hr
      · exact .failed hst htu
  · obtain ⟨rfl, rfl, hvu⟩ := Amid.of_done hend
    rw [List.append_nil]
    split at hfirst
    · obtain ⟨hr, -, -⟩ := Amid.of_stop hfirst
      cases hr
    · rcases amid_append hrefl htrans hfirst with ⟨t, answer', journal, hst, happend, rfl, hr, htv⟩ | ⟨t, error', -, -, hr, -⟩
      · cases hr
        exact .answered hnone hst happend (htrans _ _ _ htv hvu)
      · cases hr

/-- What comes of an operation: it is rejected, or its event is taken. -/
theorem taken_of_takeOperation {r : Result SyncError Progress}
    (h : Amid (serve refuses) Rely (takeOperation context broker request draws i operation p) s own r u) :
    (∃ rejection, candidate context broker request draws i operation = .error (.error rejection) ∧
      r = .ok (p.reject context broker request draws operation rejection) ∧ own = [] ∧ Rely s u) ∨
    (candidate context broker request draws i operation = .error .panic ∧ r = .error .panic ∧ own = [] ∧ Rely s u) ∨
    ∃ e hint, candidate context broker request draws i operation = .ok e ∧ Taken refuses broker Rely e hint p s own r u := by
  unfold takeOperation at h
  split at h
  · next hpanic =>
    obtain ⟨rfl, rfl, hrely⟩ := h.of_stop
    exact .inr (.inl ⟨hpanic, rfl, rfl, hrely⟩)
  · next rejection hrejected =>
    obtain ⟨rfl, rfl, hrely⟩ := h.of_done
    exact .inl ⟨rejection, hrejected, rfl, rfl, hrely⟩
  · next e hcandidate =>
    rcases decision_cases hcandidate p.known with ⟨key, k, hk, hrecognises, hdecision⟩ |
      ⟨hnone, ⟨«of», level, hdecision⟩ | hdecision⟩
    · rw [hdecision] at h
      obtain ⟨rfl, rfl, hrely⟩ := Amid.of_done h
      exact .inr (.inr ⟨e, none, hcandidate, .known hk hrecognises hrely⟩)
    · rw [hdecision] at h
      exact .inr (.inr ⟨e, _, hcandidate, taken_of_takeEvent hrefl htrans hnone h⟩)
    · rw [hdecision] at h
      exact .inr (.inr ⟨e, _, hcandidate, taken_of_takeEvent hrefl htrans hnone h⟩)

/-- A statement carries a key and no operation. -/
theorem taken_of_takeStatement {r : Result SyncError Progress} (hoperation : e.provenance.sourceOperationId = none)
    (hkey : e.idempotencyKey.isSome) (h : Amid (serve refuses) Rely (takeStatement context broker request e p) s own r u) :
    Taken refuses broker Rely (declared request e) none p s own r u := by
  have hrecognises : ∀ k, Recognises broker.identityScope k (declared request e) ↔ k.idempotencyKey = e.idempotencyKey := by
    intro k
    simp only [Recognises, declared, hoperation]
    exact ⟨fun h => h.2, fun h => ⟨hkey, h⟩⟩
  unfold takeStatement at h
  split at h
  · next k hfind =>
    obtain ⟨rfl, rfl, hrely⟩ := h.of_done
    exact .known (List.mem_of_find?_eq_some hfind) ((hrecognises k).mpr (by simpa using List.find?_some hfind)) hrely
  · next hfind =>
    refine taken_of_takeEvent hrefl htrans (fun k hk hknown => ?_) h
    exact List.find?_eq_none.mp hfind k hk (decide_eq_true ((hrecognises k).mp hknown))

end

/-! ### What a synchronisation leaves -/

/-- The number by which the broker knows the account that a request is of. -/
def boundNumber (request : Request) (s : Store) : Option String :=
  brokerAccountBinding s.bindings request.principal.owner request.account request.brokerCode

/-- What the others may do: they add to the journal under identifiers of their own, and leave the account's binding. -/
structure Others (request : Request) (drawn : EventId → Prop) (s t : Store) : Prop where
  journal : ∃ later, t.journal = s.journal ++ later ∧ ∀ e ∈ later, ¬ drawn e.id
  binding : boundNumber request t = boundNumber request s

section
variable {drawn : EventId → Prop}

theorem Others.refl (s : Store) : Others request drawn s s := ⟨⟨[], by simp⟩, rfl⟩

theorem Others.trans (h : Others request drawn s t) (h' : Others request drawn t u) : Others request drawn s u := by
  obtain ⟨⟨later, hlater, hnot⟩, hbound⟩ := h
  obtain ⟨⟨later', hlater', hnot'⟩, hbound'⟩ := h'
  refine ⟨⟨later ++ later', by rw [hlater', hlater, List.append_assoc], fun e he => ?_⟩, hbound'.trans hbound⟩
  rcases List.mem_append.mp he with he | he
  · exact hnot e he
  · exact hnot' e he

theorem Others.grows (h : Others request drawn s t) : s.journal <+: t.journal := by
  obtain ⟨later, hlater, -⟩ := h.journal
  exact ⟨later, hlater.symm⟩

end

/-! ### The parts of a synchronisation -/

/-- A call that changes neither the journal nor the questions. -/
def Quiet : StoreCall → Prop
  | .brokerAccountBinding .. | .recordBrokerAccountBinding _ | .loadEventsThrough .. => True
  | _ => False

def Appends : StoreCall → Prop
  | .append .. => True
  | _ => False

def Questions : StoreCall → Prop
  | .upsertSyncRefusal _ | .settleSyncRefusalsBesides .. => True
  | _ => False

theorem serve_quiet {op : StoreCall} (h : Quiet op) (s : Store) :
    (serve refuses op s).2.journal = s.journal ∧ (serve refuses op s).2.refusals = s.refusals := by
  cases op with
  | brokerAccountBinding owner account broker => exact ⟨rfl, rfl⟩
  | loadEventsThrough owner through => exact ⟨rfl, rfl⟩
  | recordBrokerAccountBinding binding =>
    simp only [serve]
    cases recordBrokerAccountBinding s.accounts s.bindings binding <;> exact ⟨rfl, rfl⟩
  | _ => cases h

theorem serve_questions {op : StoreCall} (h : Questions op) (s : Store) :
    (serve refuses op s).2.journal = s.journal ∧ (serve refuses op s).2.bindings = s.bindings := by
  cases op with
  | upsertSyncRefusal record => exact ⟨rfl, rfl⟩
  | settleSyncRefusalsBesides filter rowKeys => exact ⟨rfl, rfl⟩
  | _ => cases h

theorem makes_brokerAccount : (brokerAccount broker request).Makes Quiet := by
  refine ⟨trivial, fun bound => ?_⟩
  cases bound with
  | some number => trivial
  | none =>
    refine Program.Makes.bind (p := fetched broker.accountNumbers) (Program.Makes.ofResult _ _) fun candidates => ?_
    match candidates with
    | [] => trivial
    | [_] => trivial
    | _ :: _ :: _ => trivial

theorem makes_bindAccount {pending : Option String} : (bindAccount request pending).Makes Quiet := by
  cases pending with
  | none => trivial
  | some number =>
    refine ⟨trivial, fun bound => ?_⟩
    cases bound <;> trivial

theorem makes_fetch : (fetch broker request).Makes Quiet := by
  refine Program.Makes.bind makes_brokerAccount fun (number, pending) => ?_
  refine Program.Makes.bind (Program.Makes.ofResult _ _) fun parsed => ?_
  refine ⟨trivial, fun bounded => ?_⟩
  refine Program.Makes.bind (p := fetched (portfolioOf broker request number parsed)) (Program.Makes.ofResult _ _)
    fun snapshot => ?_
  exact Program.Makes.bind makes_bindAccount fun bindingRecorded => trivial

theorem makes_upsertRefusals (records : List SyncRefusalRecord) : (upsertRefusals records).Makes Questions := by
  induction records with
  | nil => trivial
  | cons record records ih => exact ⟨trivial, fun _ => ih⟩

theorem makes_keepRefusalQuestions {records : List SyncRefusalRecord} {settle : Bool} :
    (keepRefusalQuestions broker request records settle).Makes Questions := by
  refine Program.Makes.bind (makes_upsertRefusals records) fun _ => ?_
  cases settle with
  | false => trivial
  | true => exact ⟨trivial, fun _ => trivial⟩

theorem makes_takeEvent {hint : Option (EventId × DedupLevel)} : (takeEvent context broker e hint p).Makes Appends := by
  unfold takeEvent appendChecked
  refine Program.Makes.bind ?_ fun answer => trivial
  split
  · trivial
  · refine ⟨trivial, fun answer => ?_⟩
    cases answer <;> trivial

theorem makes_takeOperation : (takeOperation context broker request draws i operation p).Makes Appends := by
  unfold takeOperation
  split
  · trivial
  · trivial
  · split
    · trivial
    · exact makes_takeEvent
    · exact makes_takeEvent

theorem makes_takeStatement : (takeStatement context broker request e p).Makes Appends := by
  unfold takeStatement
  split
  · trivial
  · exact makes_takeEvent

theorem makes_takeGap : (takeGap context broker request draws i p).Makes Appends := by
  unfold takeGap
  split
  · trivial
  · exact makes_takeStatement

theorem makes_takeClaim {written : Nat} {claim : ControlClaim} :
    (takeClaim context broker request draws written i claim p).Makes Appends := by
  refine Program.Makes.bind makes_takeStatement fun q => ?_
  split <;> trivial

theorem makes_takeOperations {operations : List SubmittedOperation} :
    (takeOperations context broker request draws operations p).Makes Appends :=
  Program.Makes.foldIdx (fun _ _ _ => makes_takeOperation) 0 operations p

theorem makes_takeClaims {written : Nat} {claims : List ControlClaim} :
    (takeClaims context broker request draws written claims p).Makes Appends :=
  Program.Makes.foldIdx (fun _ _ _ => makes_takeClaim) 0 claims p

/-- A call that writes events or questions. -/
def Writes (op : StoreCall) : Prop := Appends op ∨ Questions op

/-- The claims that a synchronisation states. -/
def statedClaims (request : Request) : Option PortfolioSnapshot → List ControlClaim
  | none => []
  | some snapshot => if (assertionsWithheld request snapshot).isSome then [] else snapshot.claims

/-- A portfolio that was asked for, and of the day that was asked about. -/
def affirms (request : Request) : Option PortfolioSnapshot → Bool
  | none => false
  | some snapshot => (assertionsWithheld request snapshot).isNone

/-- The three ends of a synchronisation are one: the claims that are to be stated, the questions, the answer. -/
theorem takePortfolio_eq {n : Nat} {snapshot : Option PortfolioSnapshot} {recorded : Bool} :
    ∃ withheld, takePortfolio context broker request draws n snapshot recorded p =
      (takeClaims context broker request draws n (statedClaims request snapshot) p >>= fun q =>
        keepRefusalQuestions broker request q.refusalRecords (affirms request snapshot) >>= fun _ =>
          pure (outcome q withheld recorded)) := by
  cases snapshot with
  | none => exact ⟨none, rfl⟩
  | some answer =>
    cases hwithheld : assertionsWithheld request answer with
    | none =>
      refine ⟨none, ?_⟩
      simp only [takePortfolio, statedClaims, affirms, hwithheld]
      rfl
    | some asOf =>
      refine ⟨some asOf, ?_⟩
      simp only [takePortfolio, statedClaims, affirms, hwithheld]
      rfl

theorem makes_takePortfolio {n : Nat} {snapshot : Option PortfolioSnapshot} {recorded : Bool} :
    (takePortfolio context broker request draws n snapshot recorded p).Makes Writes := by
  obtain ⟨withheld, heq⟩ : ∃ withheld, takePortfolio context broker request draws n snapshot recorded p = _ := takePortfolio_eq
  rw [heq]
  refine Program.Makes.bind (makes_takeClaims.mono fun _ => .inl) fun q => ?_
  exact Program.Makes.bind (makes_keepRefusalQuestions.mono fun _ => .inr) fun _ => trivial

/-- What a write leaves: it adds to the journal or not, and changes no binding. -/
theorem serve_writes {op : StoreCall} (h : Writes op) (s : Store) :
    s.journal <+: (serve refuses op s).2.journal ∧ boundNumber request (serve refuses op s).2 = boundNumber request s := by
  rcases h with h | h
  · cases op with
    | append scope e =>
      simp only [serve]
      cases happend : appendEventInOrder refuses scope s.journal e with
      | error error => exact ⟨List.prefix_rfl, rfl⟩
      | ok result =>
        obtain ⟨answer, journal⟩ := result
        refine ⟨?_, rfl⟩
        rcases append_ok happend with ⟨existing, -, -, rfl⟩ | ⟨-, -, rfl⟩
        · exact List.prefix_rfl
        · exact List.prefix_append _ _
    | _ => cases h
  · have hkept : (serve refuses op s).2.journal = s.journal ∧ (serve refuses op s).2.bindings = s.bindings :=
      serve_questions h s
    obtain ⟨hjournal, hbindings⟩ := hkept
    exact ⟨by rw [hjournal], by rw [boundNumber, hbindings, boundNumber]⟩

section
variable (hrefl : ∀ s, Rely s s) (htrans : ∀ s t u, Rely s t → Rely t u → Rely s u)
include hrefl htrans

/-- The number of the account, and whether it is still to be bound. -/
theorem amid_brokerAccount {number : String} {pending : Option String}
    (h : Amid (serve refuses) Rely (brokerAccount broker request) s own (.ok (number, pending)) u) :
    ∃ t, Rely s t ∧ Rely t u ∧ ((boundNumber request t = some number ∧ pending = none) ∨
      (boundNumber request t = none ∧ broker.accountNumbers = .ok [number] ∧ pending = some number)) := by
  obtain ⟨bound, first, rest, v, rfl, hask, h⟩ := h.bind_ok hrefl
  obtain ⟨t, hst, rfl, hbound, htv⟩ := hask.ask
  have hbound' : boundNumber request t = bound := (Except.ok.inj hbound).symm
  cases bound with
  | some number' =>
    obtain ⟨hr, -, hvu⟩ := Amid.of_done h
    cases hr
    exact ⟨t, hst, htrans _ _ _ htv hvu, .inl ⟨hbound', rfl⟩⟩
  | none =>
    obtain ⟨candidates, first, rest, w, -, hfetched, h⟩ := Amid.bind_ok hrefl h
    obtain ⟨hcandidates, -, hvw⟩ := hfetched.ofResult
    have hnumbers := convert_ok.mp hcandidates.symm
    match candidates with
    | [] => cases (Amid.of_stop h).1
    | [one] =>
      obtain ⟨hr, -, hwu⟩ := Amid.of_done h
      cases hr
      exact ⟨t, hst, htrans _ _ _ htv (htrans _ _ _ hvw hwu), .inr ⟨hbound', hnumbers, rfl⟩⟩
    | _ :: _ :: _ => cases (Amid.of_stop h).1

/-- A number that is to be bound is bound. -/
theorem amid_bindAccount {pending : Option String} {recorded : Bool}
    (h : Amid (serve refuses) Rely (bindAccount request pending) s own (.ok recorded) u) :
    (pending = none ∧ recorded = false ∧ Rely s u) ∨ ∃ number t v, pending = some number ∧ recorded = true ∧ Rely s t ∧
      v.journal = t.journal ∧ boundNumber request v = some number ∧ Rely v u := by
  cases pending with
  | none =>
    obtain ⟨hr, -, hsu⟩ := Amid.of_done h
    cases hr
    exact .inl ⟨rfl, rfl, hsu⟩
  | some number =>
    obtain ⟨result, first, rest, v, -, hask, h⟩ := Amid.bind_ok hrefl h
    obtain ⟨t, hst, -, hresult, htv⟩ := hask.ask
    simp only [serve] at hresult htv
    cases hbound : recordBrokerAccountBinding t.accounts t.bindings
        ⟨request.principal.owner, request.account, request.brokerCode, number⟩ with
    | error error =>
      rw [hbound] at hresult
      cases hresult
      cases (Amid.of_stop h).1
    | ok bindings =>
      rw [hbound] at hresult htv
      cases hresult
      obtain ⟨hr, -, hvu⟩ := Amid.of_done h
      cases hr
      refine .inr ⟨number, t, { t with bindings }, rfl, rfl, hst, rfl, ?_, htrans _ _ _ htv hvu⟩
      unfold recordBrokerAccountBinding at hbound
      split at hbound
      · cases hbound
      · split at hbound
        · cases hbound
        · split at hbound
          · cases hbound
          · cases hbound
            simp [boundNumber, brokerAccountBinding]

end

section
variable (hrefl : ∀ s, Rely s s)
include hrefl

/-- Questions are kept whatever is there. -/
theorem amid_upsertRefusals {records : List SyncRefusalRecord} {r : Result SyncError Unit}
    (h : Amid (serve refuses) Rely (upsertRefusals records) s own r u) : r = .ok () := by
  induction records generalizing s own with
  | nil => exact (Amid.of_done h).1
  | cons record records ih =>
    rcases Amid.bind_cases hrefl h with ⟨e, rfl, hstop⟩ | ⟨_, first, rest, v, -, -, h⟩
    · obtain ⟨_, -, -, hr, -⟩ := hstop.ask
      cases hr
    · exact ih h

theorem amid_keepRefusalQuestions {records : List SyncRefusalRecord} {settle : Bool} {r : Result SyncError Unit}
    (h : Amid (serve refuses) Rely (keepRefusalQuestions broker request records settle) s own r u) : r = .ok () := by
  rcases Amid.bind_cases hrefl h with ⟨e, rfl, hstop⟩ | ⟨_, first, rest, v, -, -, h⟩
  · cases amid_upsertRefusals hrefl hstop
  · cases settle with
    | false => exact (Amid.of_done h).1
    | true =>
      obtain ⟨_, -, -, hr, -⟩ := Amid.ask h
      exact hr

/-- A synchronisation fails at one of its claims, or it keeps its questions and answers. -/
theorem takePortfolio_cases {n : Nat} {snapshot : Option PortfolioSnapshot} {recorded : Bool} {r : Result SyncError SyncOutcome}
    (h : Amid (serve refuses) Rely (takePortfolio context broker request draws n snapshot recorded p) s own r u) :
    (∃ e, r = .error e ∧
      Amid (serve refuses) Rely (takeClaims context broker request draws n (statedClaims request snapshot) p) s own (.error e) u) ∨
    ∃ q withheld first rest v w, own = first ++ rest ∧
      Amid (serve refuses) Rely (takeClaims context broker request draws n (statedClaims request snapshot) p) s first (.ok q) v ∧
      Amid (serve refuses) Rely (keepRefusalQuestions broker request q.refusalRecords (affirms request snapshot)) v rest
        (.ok ()) w ∧ Rely w u ∧ r = .ok (outcome q withheld recorded) := by
  obtain ⟨withheld, heq⟩ : ∃ withheld, takePortfolio context broker request draws n snapshot recorded p = _ := takePortfolio_eq
  rw [heq] at h
  rcases h.bind_cases hrefl with ⟨e, rfl, hstop⟩ | ⟨q, first, rest, v, rfl, hclaims, h⟩
  · exact .inl ⟨e, rfl, hstop⟩
  · rcases Amid.bind_cases hrefl h with ⟨e, rfl, hstop⟩ | ⟨_, rest, last, w, rfl, hkeep, h⟩
    · cases amid_keepRefusalQuestions hrefl hstop
    · obtain ⟨rfl, rfl, hwu⟩ := Amid.of_done h
      exact .inr ⟨q, withheld, first, rest, v, w, by rw [List.append_nil], hclaims, hkeep, hwu, rfl⟩

end

/-- What was fetched: the answers about the number of the account, and the journal up to the last day as it then was. A number
    that was bound stays. -/
structure Fetches (broker : BrokerChannel) (request : Request) (s : Store) (got : Fetched) (u : Store) : Prop where
  answers : ∃ number, boundNumber request u = some number ∧ broker.operations number = .ok got.parsed ∧
    portfolioOf broker request number got.parsed = .ok got.snapshot
  bounded : ∃ t : Store, s.journal <+: t.journal ∧ t.journal <+: u.journal ∧
    got.bounded = JournalStore.loadEventsThrough t.journal request.principal.owner request.to
  binding : ∀ number, boundNumber request s = some number → boundNumber request u = some number ∧ got.bindingRecorded = false

theorem amid_fetch {drawn : EventId → Prop} (hrefl : ∀ s, Rely s s) (htrans : ∀ s t u, Rely s t → Rely t u → Rely s u)
    (hothers : ∀ s t, Rely s t → Others request drawn s t) {got : Fetched}
    (h : Amid (serve refuses) Rely (fetch broker request) s own (.ok got) u) : Fetches broker request s got u := by
  obtain ⟨⟨number, pending⟩, first, rest, a, -, haccount, h⟩ := h.bind_ok hrefl
  obtain ⟨parsed, first', rest', b, -, hparsed, h⟩ := Amid.bind_ok hrefl h
  obtain ⟨bounded, first'', rest'', c, -, hload, h⟩ := Amid.bind_ok hrefl h
  obtain ⟨snapshot, first''', rest''', d, -, hsnapshot, h⟩ := Amid.bind_ok hrefl h
  obtain ⟨recorded, last, rest'''', v, -, hbind, h⟩ := Amid.bind_ok hrefl h
  obtain ⟨hr, -, hvu⟩ := Amid.of_done h
  cases hr
  obtain ⟨s', hs, hs', hnumber⟩ := amid_brokerAccount hrefl htrans haccount
  obtain ⟨hoperations, -, hab⟩ := hparsed.ofResult
  obtain ⟨loaded, hbl, -, hbounded, hlc⟩ := hload.ask
  obtain ⟨hportfolio, -, hcd⟩ := hsnapshot.ofResult
  cases Except.ok.inj hbounded
  have hoperations := convert_ok.mp hoperations.symm
  have hportfolio := convert_ok.mp hportfolio.symm
  have hbefore := hothers _ _ (htrans _ _ _ hs (htrans _ _ _ hs' (htrans _ _ _ hab hbl)))
  have hbetween := htrans _ _ _ hlc hcd
  have hend := hothers _ _ hvu
  rcases hnumber with ⟨hbound, rfl⟩ | ⟨hbound, -, rfl⟩
  · rcases amid_bindAccount hrefl htrans hbind with ⟨-, rfl, hdv⟩ | ⟨_, _, _, hpending, -⟩
    · have hafter := hothers _ _ (htrans _ _ _ hbetween (htrans _ _ _ hdv hvu))
      have hloaded := hothers _ _ (htrans _ _ _ hs' (htrans _ _ _ hab hbl))
      have hnow : boundNumber request u = some number := hafter.binding.trans (hloaded.binding.trans hbound)
      refine ⟨⟨number, hnow, hoperations, hportfolio⟩, ⟨loaded, hbefore.grows, hafter.grows, rfl⟩, fun number' hnumber' => ?_⟩
      rw [← (hothers _ _ hs).binding, hbound] at hnumber'
      exact ⟨hnow.trans hnumber', rfl⟩
    · cases hpending
  · rcases amid_bindAccount hrefl htrans hbind with ⟨hpending, -⟩ | ⟨number', t, w, hpending, rfl, hdt, hjournal, hnow, hwv⟩
    · cases hpending
    · cases hpending
      have hwritten := (hothers _ _ (htrans _ _ _ hbetween hdt)).grows
      have hlast := hothers _ _ (htrans _ _ _ hwv hvu)
      refine ⟨⟨number, hlast.binding.trans hnow, hoperations, hportfolio⟩, ⟨loaded, hbefore.grows, ?_, rfl⟩,
        fun number' hnumber' => ?_⟩
      · refine hwritten.trans ?_
        rw [← hjournal]
        exact hlast.grows
      · rw [← (hothers _ _ hs).binding, hbound] at hnumber'
        cases hnumber'

/-! ### What is refused -/

theorem structuralRejection_undrawn (e : Event) (field : String) :
    structuralRejection context e.undrawn field = structuralRejection context e field := by
  rw [structuralRejection, Event.validateStructure_undrawn, structuralRejection]

/-- What an operation becomes does not depend on what is drawn for it. -/
theorem candidate_draws (draws draws' : Draws) (i i' : Nat) :
    (candidate context broker request draws i operation).map Event.undrawn =
      (candidate context broker request draws' i' operation).map Event.undrawn := by
  refine map_bind_congr (Operation.normalize_undrawn ?_ operation _) fun e e' h => ?_
  · rfl
  have hdeclared : (declared request e).undrawn = (declared request e').undrawn := congrArg (declared request) h
  have hstructure : structuralRejection context (declared request e) "operation" =
      structuralRejection context (declared request e') "operation" := by
    rw [← structuralRejection_undrawn, hdeclared, structuralRejection_undrawn]
  rw [hstructure]
  cases structuralRejection context (declared request e') "operation" with
  | some rejection => rfl
  | none => exact congrArg Except.ok hdeclared

/-- Why an operation is refused, if it is. -/
def rejectionOf (context : Context) (broker : BrokerChannel) (request : Request) (operation : SubmittedOperation) :
    Option Rejection :=
  match candidate context broker request ⟨fun _ => ⟨0⟩, fun _ => ⟨0⟩, id⟩ 0 operation with
  | .error (.error rejection) => some rejection
  | _ => none

theorem rejectionOf_of_rejected {rejection : Rejection}
    (h : candidate context broker request draws i operation = .error (.error rejection)) :
    rejectionOf context broker request operation = some rejection := by
  have hdraws : (candidate context broker request ⟨fun _ => ⟨0⟩, fun _ => ⟨0⟩, id⟩ 0 operation).map Event.undrawn =
    (candidate context broker request draws i operation).map Event.undrawn := candidate_draws _ _ _ _
  rw [h] at hdraws
  unfold rejectionOf
  cases hzero : candidate context broker request ⟨fun _ => ⟨0⟩, fun _ => ⟨0⟩, id⟩ 0 operation with
  | error error =>
    rw [hzero] at hdraws
    cases hdraws
    rfl
  | ok e =>
    rw [hzero] at hdraws
    cases hdraws

theorem rejectionOf_of_ok (h : candidate context broker request draws i operation = .ok e) :
    rejectionOf context broker request operation = none := by
  have hdraws : (candidate context broker request ⟨fun _ => ⟨0⟩, fun _ => ⟨0⟩, id⟩ 0 operation).map Event.undrawn =
    (candidate context broker request draws i operation).map Event.undrawn := candidate_draws _ _ _ _
  rw [h] at hdraws
  unfold rejectionOf
  cases hzero : candidate context broker request ⟨fun _ => ⟨0⟩, fun _ => ⟨0⟩, id⟩ 0 operation with
  | error error =>
    rw [hzero] at hdraws
    cases hdraws
  | ok e => rfl

/-- The rows that are refused among operations. -/
def refusedOf (context : Context) (broker : BrokerChannel) (request : Request) (operations : List SubmittedOperation) :
    List RefusedRow :=
  operations.filterMap fun operation =>
    (rejectionOf context broker request operation).map fun _ => refusedRow context broker operation

theorem refusedOf_append (operations : List SubmittedOperation) (operation : SubmittedOperation) :
    refusedOf context broker request (operations ++ [operation]) = refusedOf context broker request operations ++
      ((rejectionOf context broker request operation).map fun _ => refusedRow context broker operation).toList := by
  unfold refusedOf
  rw [List.filterMap_append]
  cases hrejection : rejectionOf context broker request operation <;> simp [hrejection]

/-- A quarantined row as a refused one. -/
def quarantinedRow (context : Context) (broker : BrokerChannel) (row : Quarantined) : RefusedRow :=
  ⟨⟨broker.channel.source, fingerprintOf context row.raw⟩, row.dimensions⟩

theorem foldl_quarantine (rows : List Quarantined) (p : Progress) :
    (rows.foldl (Progress.quarantine context broker request draws) p).refusals =
        p.refusals ++ rows.map (quarantinedRow context broker) ∧
      (rows.foldl (Progress.quarantine context broker request draws) p).known = p.known ∧
      (rows.foldl (Progress.quarantine context broker request draws) p).assertions = p.assertions ∧
      (rows.foldl (Progress.quarantine context broker request draws) p).recorded = p.recorded ∧
      (rows.foldl (Progress.quarantine context broker request draws) p).duplicates = p.duplicates ∧
      (rows.foldl (Progress.quarantine context broker request draws) p).possibleDuplicates = p.possibleDuplicates := by
  induction rows generalizing p with
  | nil => simp
  | cons row rows ih =>
    obtain ⟨hrefusals, hrest⟩ := ih (p.quarantine context broker request draws row)
    refine ⟨?_, hrest⟩
    rw [List.foldl_cons, hrefusals, List.map_cons]
    simp [Progress.quarantine, Progress.setAside, quarantinedRow]

/-- An event that is taken leaves what was refused. -/
theorem Taken.refusals (h : Taken refuses broker Rely e hint p s own (.ok q) u) :
    q.refusals = p.refusals ∧ q.refusalRecords = p.refusalRecords ∧ q.assertions = p.assertions := by
  cases h with
  | known => exact ⟨rfl, rfl, rfl⟩
  | @answered answer => cases answer <;> exact ⟨rfl, rfl, rfl⟩

theorem Taken.grows {r : Result SyncError Progress} (hgrows : ∀ s t, Rely s t → s.journal <+: t.journal)
    (h : Taken refuses broker Rely e hint p s own r u) : s.journal <+: u.journal := by
  cases h with
  | known _ _ hrely => exact hgrows _ _ hrely
  | invalid hrely => exact hgrows _ _ hrely
  | failed hst htu => exact (hgrows _ _ hst).trans (hgrows _ _ htu)
  | @answered answer journal t _ _ hst happend hrely =>
    refine (hgrows _ _ hst).trans (List.IsPrefix.trans ?_ (hgrows _ _ hrely))
    rcases append_ok happend with ⟨existing, -, -, rfl⟩ | ⟨-, -, rfl⟩
    · exact List.prefix_rfl
    · exact List.prefix_append _ _

theorem coverageGapEvent_some {id : EventId} {rows : List RefusedRow} {gap : Event}
    (h : coverageGapEvent context broker request id rows = some gap) :
    gap.id = id ∧ gap.owner = request.principal.owner ∧ gap.account = request.account ∧
      gap.provenance.source = broker.channel.source ∧ gap.provenance.sourceOperationId = none ∧
        gap.idempotencyKey = some (coverageGapIdentity context broker request rows) := by
  unfold coverageGapEvent gapEvent at h
  split at h
  · cases h
  · cases h
    exact ⟨rfl, rfl, rfl, rfl, rfl, rfl⟩

/-- Two draws of one gap. -/
theorem coverageGapEvent_id (id id' : EventId) (rows : List RefusedRow) :
    coverageGapEvent context broker request id rows =
      (coverageGapEvent context broker request id' rows).map fun gap => { gap with id } := by
  unfold coverageGapEvent gapEvent
  split <;> rfl

/-! ### The whole -/

/-- A synchronisation is refused before it begins, or it holds the account while it runs. -/
theorem syncBroker_cases (hrefl : ∀ s, Rely s s) (htrans : ∀ s t u, Rely s t → Rely t u → Rely s u)
    {r : Result SyncError SyncOutcome}
    (h : Amid (serve refuses) Rely (syncBroker context broker request draws) s own r u) :
    (∃ e, r = .error e ∧ (own = [] ∧ Rely s u ∨ ∃ t, own = [(t, t)] ∧ Rely s t ∧ Rely t u)) ∨
      ∃ t v w inner, own = (t, { t with running := (request.principal.owner, request.account) :: t.running }) ::
          (inner ++ [(w, { w with running := w.running.filter (· ≠ (request.principal.owner, request.account)) })]) ∧
        Rely s t ∧ Amid (serve refuses) Rely (syncClaimed context broker request draws)
          { t with running := (request.principal.owner, request.account) :: t.running } inner r v ∧ Rely v w ∧
        Rely { w with running := w.running.filter (· ≠ (request.principal.owner, request.account)) } u := by
  unfold syncBroker at h
  split at h
  · rcases Amid.bind_cases hrefl h with ⟨e, rfl, hstop⟩ | ⟨claimed, first, rest, v, rfl, hask, h⟩
    · obtain ⟨_, -, -, hr, -⟩ := hstop.ask
      cases hr
    · obtain ⟨t, hst, hfirst, hclaimed, htv⟩ := hask.ask
      simp only [serve] at hfirst hclaimed htv
      by_cases hrunning : (request.principal.owner, request.account) ∈ t.running
      · simp only [if_pos hrunning] at hfirst hclaimed htv
        cases hclaimed
        obtain ⟨rfl, rfl, hvu⟩ := Amid.of_stop h
        exact .inl ⟨_, rfl, .inr ⟨t, by rw [hfirst]; rfl, hst, htrans _ _ _ htv hvu⟩⟩
      · simp only [if_neg hrunning] at hfirst hclaimed htv
        cases hclaimed
        obtain ⟨inner, v', w, rfl, hinner, hvw, hwu⟩ := Amid.releasing hrefl h
        exact .inr ⟨t, v', w, inner, by rw [hfirst]; rfl, hst, hinner.since htrans htv, hvw, hwu⟩
  · obtain ⟨rfl, rfl, hsu⟩ := Amid.of_stop h
    exact .inl ⟨_, rfl, .inl ⟨rfl, hsu⟩⟩

/-- The rows that a synchronisation refuses. -/
def refusedRows (context : Context) (broker : BrokerChannel) (request : Request) (parsed : ParsedOperations)
    (snapshot : Option PortfolioSnapshot) : List RefusedRow :=
  (quarantinedRows parsed snapshot).map (quarantinedRow context broker) ++ refusedOf context broker request parsed.accepted

/-- What the writes of a synchronisation leave behind. -/
theorem moves_writes {α : Type} {drawn : EventId → Prop} {P : Synchronisation α} {r : Result SyncError α} (hP : P.Makes Writes)
    (h : Amid (serve refuses) (Others request drawn) P s own r u) :
    s.journal <+: u.journal ∧ boundNumber request u = boundNumber request s := by
  refine h.moves (fun s u => s.journal <+: u.journal ∧ boundNumber request u = boundNumber request s) ?_ ?_ ?_ hP
  · rintro s t u ⟨hgrows, hbound⟩ ⟨hgrows', hbound'⟩
    exact ⟨hgrows.trans hgrows', hbound'.trans hbound⟩
  · exact fun s t h => ⟨h.grows, h.binding⟩
  · exact fun op s h => serve_writes h s

/-! ### What is answered -/

/-- The event that a verdict says was written. -/
def Verdict.event : Verdict → Option EventId
  | .provisional event | .possibleDuplicate event .. => some event
  | _ => none

def Verdict.isDuplicate : Verdict → Bool
  | .duplicate _ => true
  | _ => false

def Verdict.isPossible : Verdict → Bool
  | .possibleDuplicate .. => true
  | _ => false

def isAssertion : EventKind → Bool
  | .controlAssertion .. => true
  | _ => false

theorem isAssertion_of_build {transferId : TransferId} {account : AccountId} {kind : OperationKind} {kind' : EventKind}
    {legs : List Leg} (h : Operation.build transferId account kind = .ok (kind', legs)) : isAssertion kind' = false := by
  cases kind with
  | statedSecuritiesValue | income | deposit | withdrawal | refund | fee | tax | openingPosition =>
    obtain ⟨amount, -, h⟩ := bind_ok.mp h
    cases h
    rfl
  | valuation | openingCash =>
    cases h
    rfl
  | transfer target amountMinor currency =>
    simp only [Operation.build] at h
    split at h
    · cases h
    · obtain ⟨amount, -, h⟩ := bind_ok.mp h
      split at h <;> cases h
      rfl
  | ownAccountMovement movement amountMinor currency =>
    obtain ⟨magnitude, -, h⟩ := bind_ok.mp h
    rcases movement with _ | _ | _
    · cases h
      rfl
    · cases h
      rfl
    · obtain ⟨negated, -, h⟩ := bind_ok.mp h
      cases h
      rfl
  | buy instrument custody quantity gross fee basisFee accrued currency =>
    obtain ⟨⟨terms, settlement⟩, -, h⟩ := bind_ok.mp h
    obtain ⟨paid, -, h⟩ := bind_ok.mp h
    cases h
    rfl
  | sell instrument custody quantity gross fee basisFee accrued currency =>
    obtain ⟨⟨terms, settlement⟩, -, h⟩ := bind_ok.mp h
    dsimp only at h
    split at h <;> cases h
    rfl
/-- No operation is a statement. -/
theorem isAssertion_of_candidate (h : candidate context broker request draws i operation = .ok e) :
    isAssertion e.kind = false := by
  obtain ⟨normalized, hnormalized, h⟩ := bind_ok.mp h
  have hkind : isAssertion normalized.kind = false := by
    unfold Operation.normalize at hnormalized
    dsimp only at hnormalized
    split at hnormalized
    · cases hnormalized
    · obtain ⟨⟨kind, legs⟩, hbuilt, hnormalized⟩ := bind_ok.mp hnormalized
      cases hnormalized
      exact isAssertion_of_build hbuilt
  split at h
  · cases h
  · cases h
    exact hkind

/-- The events that calls added to the journal, in order. -/
def added (own : List (Store × Store)) : List Event := own.flatMap fun m => m.2.journal.drop m.1.journal.length

def assertionsIn (events : List Event) : Nat := events.countP fun e => isAssertion e.kind

theorem assertionsIn_append (events events' : List Event) :
    assertionsIn (events ++ events') = assertionsIn events + assertionsIn events' := List.countP_append

theorem assertionsIn_singleton (e : Event) : assertionsIn [e] = (isAssertion e.kind).toNat := by
  rw [assertionsIn, List.countP_singleton]
  cases isAssertion e.kind <;> rfl

theorem added_append (own own' : List (Store × Store)) : added (own ++ own') = added own ++ added own' := List.flatMap_append

theorem added_of_still (h : ∀ m ∈ own, m.2.journal = m.1.journal) : added own = [] := by
  refine List.flatMap_eq_nil_iff.mpr fun m hm => ?_
  rw [h m hm, List.drop_length]

/-- How the answer so far accounts for the calls so far. -/
structure Accounts (own : List (Store × Store)) (s : Store) (p : Progress) : Prop where
  written : (added own).map Event.id = p.recorded.filterMap Verdict.event
  duplicates : p.duplicates = p.recorded.countP Verdict.isDuplicate
  possible : p.possibleDuplicates = p.recorded.countP Verdict.isPossible
  named : ∀ existing, .duplicate existing ∈ p.recorded → ∃ recorded ∈ s.journal, recorded.id = existing
  known : ∀ k ∈ p.known, ∃ recorded ∈ s.journal, recorded.id = k.event

section
variable {before : List (Store × Store)} {operations : List SubmittedOperation}

theorem Accounts.grows (h : Accounts before s p) (hgrows : s.journal <+: t.journal) : Accounts before t p where
  written := h.written
  duplicates := h.duplicates
  possible := h.possible
  named existing hin := (h.named existing hin).imp fun _ hin => hin.imp_left fun hin => hgrows.subset hin
  known k hk := (h.known k hk).imp fun _ hin => hin.imp_left fun hin => hgrows.subset hin

theorem Accounts.still (h : Accounts before s p) (hstill : ∀ m ∈ own, m.2.journal = m.1.journal) :
    Accounts (before ++ own) s p :=
  ⟨by rw [added_append, added_of_still hstill, List.append_nil, h.written], h.duplicates, h.possible, h.named, h.known⟩

/-- Verdicts that are about no event. -/
theorem Accounts.report {recorded : List Verdict} (h : Accounts before s p)
    (hall : ∀ verdict ∈ recorded, verdict.event = none ∧ verdict.isDuplicate = false ∧ verdict.isPossible = false) :
    Accounts before s { p with recorded := p.recorded ++ recorded } where
  written := by
    rw [h.written, List.filterMap_append, List.filterMap_eq_nil_iff.mpr fun verdict hin => (hall verdict hin).1,
      List.append_nil]
  duplicates := by
    rw [List.countP_append, ← h.duplicates, List.countP_eq_zero.mpr fun verdict hin => by simp [(hall verdict hin).2.1]]
    rfl
  possible := by
    rw [List.countP_append, ← h.possible, List.countP_eq_zero.mpr fun verdict hin => by simp [(hall verdict hin).2.2]]
    rfl
  named existing hin := by
    rcases List.mem_append.mp hin with hin | hin
    · exact h.named existing hin
    · cases (hall _ hin).2.1
  known := h.known

theorem Accounts.duplicate {existing : EventId} (h : Accounts before s p)
    (hexisting : ∃ recorded ∈ s.journal, recorded.id = existing) : Accounts before s (p.duplicate existing) where
  written := by
    rw [h.written, Progress.duplicate, List.filterMap_append]
    exact (List.append_nil _).symm
  duplicates := by
    rw [Progress.duplicate, List.countP_append, h.duplicates]
    rfl
  possible := by
    rw [Progress.duplicate, List.countP_append, ← h.possible]
    rfl
  named existing' hin := by
    rcases List.mem_append.mp hin with hin | hin
    · exact h.named existing' hin
    · cases List.mem_singleton.mp hin
      exact hexisting
  known := h.known

/-- The verdict on an event that was sent. -/
def verdictOn (id : EventId) : Option (EventId × DedupLevel) → Verdict
  | some («of», level) => .possibleDuplicate id «of» level
  | none => .provisional id

/-- An event that is written has a verdict that names it. -/
theorem Accounts.inserted (h : Accounts before s p) (hadded : added own = [e']) (hid : e'.id = e.id)
    (hgrows : s.journal <+: t.journal) (hin : e' ∈ t.journal) :
      Accounts (before ++ own) t (p.take e hint (.inserted e.id)) := by
  have hlater := h.grows hgrows
  have hrecorded : (p.take e hint (.inserted e.id)).recorded = p.recorded ++ [verdictOn e.id hint] := by
    rcases hint with _ | ⟨«of», level⟩ <;> rfl
  refine ⟨?_, ?_, ?_, fun existing hexisting => ?_, fun k hk => ?_⟩
  · rw [added_append, hadded, List.map_append, h.written, hrecorded, List.filterMap_append, List.map_singleton, hid]
    rcases hint with _ | ⟨«of», level⟩ <;> rfl
  · rw [hrecorded, List.countP_append, ← h.duplicates]
    rcases hint with _ | ⟨«of», level⟩ <;> rfl
  · rw [hrecorded, List.countP_append, ← h.possible]
    rcases hint with _ | ⟨«of», level⟩ <;> rfl
  · rw [hrecorded] at hexisting
    rcases List.mem_append.mp hexisting with hexisting | hexisting
    · exact hlater.named existing hexisting
    · rcases hint with _ | ⟨«of», level⟩ <;> cases List.mem_singleton.mp hexisting
  · rcases List.mem_append.mp hk with hk | hk
    · exact hlater.known k hk
    · rw [List.mem_singleton.mp hk]
      exact ⟨e', hin, hid⟩

/-- Every event that is taken has its verdict: the one of an event of the journal, or of the event that was written. -/
theorem Accounts.taken (hgrows : ∀ s t, Rely s t → s.journal <+: t.journal) (hs : Accounts before s p)
    (h : Taken refuses broker Rely e hint p s own (.ok q) u) : Accounts (before ++ own) u q ∧
      ∃ verdict, q.recorded = p.recorded ++ [verdict] ∧ setAside [verdict] = 0 ∧
        ((added own = [] ∧ ∃ existing, verdict = .duplicate existing) ∨
          ∃ e', added own = [e'] ∧ e'.kind = e.kind ∧ verdict = verdictOn e.id hint) := by
  cases h with
  | @known k _ hk hrecognises hrely =>
    have hlater := hs.grows (hgrows _ _ hrely)
    rw [List.append_nil]
    exact ⟨hlater.duplicate (hlater.known k hk), _, rfl, rfl, .inl ⟨rfl, _, rfl⟩⟩
  | @answered answer _ t _ hnone hst happend hrely =>
    have hlater := hs.grows (hgrows _ _ hst)
    rcases append_ok happend with ⟨existing, hfound, rfl, rfl⟩ | ⟨hfound, rfl, rfl⟩
    · have hstill : ∀ m ∈ [(t, { t with journal := t.journal })], m.2.journal = m.1.journal := fun m hm => by
        rw [List.mem_singleton.mp hm]
      refine ⟨Accounts.grows (s := t) ?_ (hgrows _ _ hrely), _, rfl, rfl, .inl ⟨added_of_still hstill, _, rfl⟩⟩
      exact (hlater.duplicate (exists_of_findDuplicate hfound)).still hstill
    · have hadded : added [(t, { t with journal := t.journal ++ [stamp t.journal e] })] = [stamp t.journal e] := by
        simp [added]
      refine ⟨?_, verdictOn e.id hint, ?_, ?_, .inr ⟨_, hadded, rfl, rfl⟩⟩
      · refine Accounts.grows ?_ (hgrows _ _ hrely)
        exact hlater.inserted hadded rfl (List.prefix_append _ _) (List.mem_append_right _ (List.mem_singleton_self _))
      · rcases hint with _ | ⟨«of», level⟩ <;> rfl
      · rcases hint with _ | ⟨«of», level⟩ <;> rfl

theorem setAside_append (recorded recorded' : List Verdict) :
    setAside (recorded ++ recorded') = setAside recorded + setAside recorded' := List.countP_append

theorem accounts_operations (ha : Accounts before s p)
    (h : Amid (serve refuses) (Others request fun _ => False) (takeOperations context broker request draws operations p) s own
      (.ok q) u) :
    Accounts (before ++ own) u q ∧ q.recorded.length = p.recorded.length + operations.length ∧
      setAside q.recorded = setAside p.recorded + (refusedOf context broker request operations).length ∧
        assertionsIn (added (before ++ own)) = assertionsIn (added before) ∧
          q.refusals = p.refusals ++ refusedOf context broker request operations ∧ q.assertions = p.assertions := by
  refine (Amid.foldIdx Others.refl (fun taken before' s p' => Accounts before' s p' ∧
    p'.recorded.length = p.recorded.length + taken.length ∧
      setAside p'.recorded = setAside p.recorded + (refusedOf context broker request taken).length ∧
        assertionsIn (added before') = assertionsIn (added before) ∧
          p'.refusals = p.refusals ++ refusedOf context broker request taken ∧ p'.assertions = p.assertions)
    (fun _ => True) [] before ?_ ?_ ⟨ha, rfl, rfl, rfl, (List.append_nil _).symm, rfl⟩ h).2 q rfl
  · rintro taken before' s t p' ⟨ha, hrest⟩ hrely
    exact ⟨ha.grows hrely.grows, hrest⟩
  · rintro taken before' s operation p' own r u - ⟨ha, hlength, haside, hcount, hrefusals, hassertions⟩ h
    refine ⟨fun _ _ => trivial, fun q hq => ?_⟩
    rw [refusedOf_append, List.length_append, List.length_append, ← List.append_assoc, ← hrefusals, ← Nat.add_assoc,
      ← Nat.add_assoc,
      ← hlength, ← haside, ← hcount, ← hassertions]
    rcases taken_of_takeOperation Others.refl (fun _ _ _ => Others.trans) h with ⟨rejection, hrejected, rfl, rfl, hrely⟩ |
      ⟨-, rfl, -, -⟩ | ⟨e, hint, hcandidate, htaken⟩
    · cases hq
      rw [rejectionOf_of_rejected hrejected, List.append_nil]
      have hreport := (ha.grows hrely.grows).report (p := p') (fun verdict hin => by
        rw [List.mem_singleton.mp hin]
        exact ⟨rfl, rfl, rfl⟩ : ∀ verdict ∈ [Verdict.rejected rejection], verdict.event = none ∧ verdict.isDuplicate = false ∧
          verdict.isPossible = false)
      refine ⟨⟨hreport.written, hreport.duplicates, hreport.possible, hreport.named, hreport.known⟩, ?_, ?_, rfl, rfl, rfl⟩
      · exact List.length_append
      · exact setAside_append _ _
    · cases hq
    · subst hq
      rw [rejectionOf_of_ok hcandidate]
      obtain ⟨ha', verdict, hrecorded, hnot, hadded⟩ := ha.taken (fun _ _ => Others.grows) htaken
      refine ⟨ha', ?_, ?_, ?_, ?_, htaken.refusals.2.2⟩
      · rw [hrecorded, List.length_append]
        rfl
      · rw [hrecorded, setAside_append, hnot]
        rfl
      · rw [added_append, assertionsIn_append]
        rcases hadded with ⟨hnone, -⟩ | ⟨e', hone, hkind, -⟩
        · rw [hnone]
          rfl
        · rw [hone, assertionsIn_singleton, hkind, isAssertion_of_candidate hcandidate]
          rfl
      · rw [htaken.refusals.1]
        exact (List.append_nil _).symm

theorem accounts_gap (ha : Accounts before s p)
    (h : Amid (serve refuses) (Others request fun _ => False) (takeGap context broker request draws i p) s own (.ok q) u) :
    Accounts (before ++ own) u q ∧
      q.recorded.length = p.recorded.length +
          (coverageGapEvent context broker request (draws.event i) p.refusals).toList.length ∧
        setAside q.recorded = setAside p.recorded ∧
          assertionsIn (added (before ++ own)) = assertionsIn (added before) ∧
            q.assertions = p.assertions := by
  unfold takeGap at h
  cases hgap : coverageGapEvent context broker request (draws.event i) p.refusals with
  | none =>
    rw [hgap] at h
    obtain ⟨hr, rfl, hrely⟩ := Amid.of_done h
    cases hr
    rw [List.append_nil]
    exact ⟨ha.grows hrely.grows, rfl, rfl, rfl, rfl⟩
  | some gap =>
    rw [hgap] at h
    obtain ⟨-, -, -, -, hoperation, hkey⟩ := coverageGapEvent_some hgap
    have htaken := taken_of_takeStatement Others.refl (fun _ _ _ => Others.trans) hoperation (by rw [hkey]; rfl) h
    obtain ⟨ha', verdict, hrecorded, hnot, hadded⟩ :=
      Accounts.taken (e := declared request gap) (fun _ _ => Others.grows) ha htaken
    refine ⟨ha', ?_, ?_, ?_, htaken.refusals.2.2⟩
    · rw [hrecorded, List.length_append]
      rfl
    · rw [hrecorded, setAside_append, hnot, Nat.add_zero]
    · rw [added_append, assertionsIn_append]
      rcases hadded with ⟨hnone, -⟩ | ⟨e', hone, hkind, -⟩
      · rw [hnone]
        rfl
      · have hnot' : isAssertion e'.kind = false := by
          rw [hkind]
          unfold coverageGapEvent gapEvent at hgap
          split at hgap <;> cases hgap
          rfl
        rw [hone, assertionsIn_singleton, hnot']
        rfl

theorem accounts_claims {claims : List ControlClaim} {n : Nat} (ha : Accounts before s p)
    (h : Amid (serve refuses) (Others request fun _ => False) (takeClaims context broker request draws n claims p) s own
      (.ok q) u) :
    Accounts (before ++ own) u q ∧ q.recorded.length = p.recorded.length + claims.length ∧
      setAside q.recorded = setAside p.recorded ∧
        q.assertions + assertionsIn (added before) =
          p.assertions + assertionsIn (added (before ++ own)) := by
  refine (Amid.foldIdx Others.refl (fun taken before' s p' => Accounts before' s p' ∧
    p'.recorded.length = p.recorded.length + taken.length ∧ setAside p'.recorded = setAside p.recorded ∧
      p'.assertions + assertionsIn (added before) =
        p.assertions + assertionsIn (added before'))
    (fun _ => True) [] before ?_ ?_ ⟨ha, rfl, rfl, rfl⟩ h).2 q rfl
  · rintro taken before' s t p' ⟨ha, hrest⟩ hrely
    exact ⟨ha.grows hrely.grows, hrest⟩
  · rintro taken before' s claim p' own r u - ⟨ha, hlength, haside, hcount⟩ h
    refine ⟨fun _ _ => trivial, fun q hq => ?_⟩
    subst hq
    obtain ⟨q', first, rest, v, rfl, hfirst, h⟩ := h.bind_ok Others.refl
    have htaken := taken_of_takeStatement Others.refl (fun _ _ _ => Others.trans) rfl rfl hfirst
    obtain ⟨ha', verdict, hrecorded, hnot, hadded⟩ := ha.taken (fun _ _ => Others.grows) htaken
    have hlast : q'.recorded.getLast? = some verdict := by rw [hrecorded, List.getLast?_concat]
    rw [hlast] at h
    have hend : rest = [] ∧ q.recorded = q'.recorded ∧ Accounts (before' ++ first) u q ∧
        q.assertions = p'.assertions + assertionsIn (added first) := by
      rcases hadded with ⟨hnone, existing, rfl⟩ | ⟨e', hone, hkind, rfl⟩
      · obtain ⟨hr, rfl, hrely⟩ := Amid.of_done h
        cases hr
        refine ⟨rfl, rfl, ha'.grows hrely.grows, ?_⟩
        rw [hnone, htaken.refusals.2.2]
        rfl
      · obtain ⟨hr, rfl, hrely⟩ := Amid.of_done h
        cases hr
        have hlater := ha'.grows hrely.grows
        refine ⟨rfl, rfl, ⟨hlater.written, hlater.duplicates, hlater.possible, hlater.named, hlater.known⟩, ?_⟩
        rw [hone, assertionsIn_singleton, hkind, ← htaken.refusals.2.2]
        rfl
    obtain ⟨rfl, hsame, ha'', hassertions⟩ := hend
    rw [List.append_nil]
    refine ⟨ha'', ?_, ?_, ?_⟩
    · rw [hsame, hrecorded, List.length_append, hlength, List.length_append, Nat.add_assoc]
      rfl
    · rw [hsame, hrecorded, setAside_append, hnot, Nat.add_zero, haside]
    · rw [hassertions, added_append, assertionsIn_append]
      omega

theorem accounts_portfolio {n : Nat} {snapshot : Option PortfolioSnapshot} {bindingRecorded : Bool} {result : SyncOutcome}
    (ha : Accounts before s p) (h : Amid (serve refuses) (Others request fun _ => False)
      (takePortfolio context broker request draws n snapshot bindingRecorded p) s own (.ok result) u) :
    ∃ q withheld, result = outcome q withheld bindingRecorded ∧ Accounts (before ++ own) u q ∧
      q.recorded.length = p.recorded.length + (statedClaims request snapshot).length ∧
        setAside q.recorded = setAside p.recorded ∧
        q.assertions + assertionsIn (added before) = p.assertions + assertionsIn (added (before ++ own)) := by
  rcases takePortfolio_cases Others.refl h with ⟨e, he, -⟩ | ⟨q, withheld, first, rest, v, w, rfl, hclaims, hkeep, hrely, hr⟩
  · cases he
  · cases hr
    obtain ⟨ha', hlength, haside, hcount⟩ := accounts_claims ha hclaims
    have hstill : ∀ m ∈ rest, m.2.journal = m.1.journal := by
      intro m hm
      obtain ⟨op, hop, hleft⟩ := hkeep.makes makes_keepRefusalQuestions m hm
      rw [hleft, (serve_questions hop m.1).1]
    have hgrows := (moves_writes (makes_keepRefusalQuestions.mono fun _ => .inr) hkeep).1.trans hrely.grows
    rw [← List.append_assoc]
    refine ⟨q, withheld, rfl, (ha'.grows hgrows).still hstill, hlength, haside, ?_⟩
    rw [hcount, added_append (before ++ first), added_of_still hstill, List.append_nil]

theorem accounts_started {rows : List Quarantined} {bounded : List Event} (hstill : ∀ m ∈ own, m.2.journal = m.1.journal)
    (hbounded : ∀ recorded ∈ bounded, recorded ∈ s.journal) :
    Accounts own s (started context broker request draws bounded rows) := by
  obtain ⟨-, hknown, -, hrecorded, hduplicates, hpossible⟩ := foldl_quarantine rows
    (⟨knownRecords bounded, [], 0, 0, 0, [], []⟩ : Progress)
  unfold started
  refine ⟨?_, ?_, ?_, fun existing hin => ?_, fun k hk => ?_⟩
  · rw [added_of_still hstill, hrecorded]
    rfl
  · rw [hduplicates, hrecorded]
    rfl
  · rw [hpossible, hrecorded]
    rfl
  · rw [hrecorded] at hin
    cases hin
  · rw [hknown] at hk
    obtain ⟨recorded, hin, rfl⟩ := List.mem_map.mp hk
    exact ⟨recorded, hbounded recorded hin, rfl⟩

/-- The gap that the refused rows leave, as a list. -/
def gapsOf (context : Context) (broker : BrokerChannel) (request : Request) (rows : List RefusedRow) : List Event :=
  (coverageGapEvent context broker request ⟨0⟩ rows).toList

theorem length_gapsOf (id : EventId) (rows : List RefusedRow) :
    (coverageGapEvent context broker request id rows).toList.length = (gapsOf context broker request rows).length := by
  rw [gapsOf, coverageGapEvent_id ⟨0⟩ id]
  cases coverageGapEvent context broker request id rows <;> rfl

theorem accounts_claimed {result : SyncOutcome} (h : Amid (serve refuses) (Others request fun _ => False)
      (syncClaimed context broker request draws) s own (.ok result) u) :
    ∃ number parsed snapshot q withheld recorded, broker.operations number = .ok parsed ∧
      portfolioOf broker request number parsed = .ok snapshot ∧ result = outcome q withheld recorded ∧ Accounts own u q ∧
        q.assertions = assertionsIn (added own) ∧
          result.setAside = (refusedRows context broker request parsed snapshot).length ∧
          result.recorded.length = parsed.accepted.length + (quarantinedRows parsed snapshot).length +
            (gapsOf context broker request (refusedRows context broker request parsed snapshot)).length +
              (statedClaims request snapshot).length := by
  obtain ⟨got, first, rest, t, rfl, hfetch, h⟩ := h.bind_ok Others.refl
  obtain ⟨q, second, rest', v, rfl, hoperations, h⟩ := Amid.bind_ok Others.refl h
  obtain ⟨⟨number, -, hparsed, hsnapshot⟩, ⟨loaded, -, hloaded, hbounded⟩, -⟩ :=
    amid_fetch Others.refl (fun _ _ _ => Others.trans) (fun _ _ h => h) hfetch
  have hstill : ∀ m ∈ first, m.2.journal = m.1.journal := by
    intro m hm
    obtain ⟨op, hop, hleft⟩ := hfetch.makes makes_fetch m hm
    rw [hleft, (serve_quiet hop m.1).1]
  obtain ⟨hrefusals, -, hassertions, hrecorded, -⟩ := foldl_quarantine (quarantinedRows got.parsed got.snapshot)
    (⟨knownRecords got.bounded, [], 0, 0, 0, [], []⟩ : Progress)
  have hstarted : Accounts first t
      (started context broker request draws got.bounded (quarantinedRows got.parsed got.snapshot)) := by
    refine accounts_started hstill fun recorded hin => ?_
    rw [hbounded, mem_loadEventsThrough] at hin
    exact hloaded.subset hin.1
  obtain ⟨ha, hlength, haside, hcount, hrefused, hassertions'⟩ := accounts_operations hstarted hoperations
  rw [started, hrecorded] at hlength haside
  rw [started, hrefusals] at hrefused
  rw [started, hassertions] at hassertions'
  have hrows : q.refusals = refusedRows context broker request got.parsed got.snapshot := hrefused
  unfold takeStatements at h
  dsimp only at h
  split at h
  · cases (Amid.of_stop h).1
  · obtain ⟨q', third, rest'', w, rfl, hgap, h⟩ := Amid.bind_ok Others.refl h
    have hall : ∀ verdict ∈ (quarantinedRows got.parsed got.snapshot).map fun row => Verdict.quarantined row.reason,
        verdict.event = none ∧ verdict.isDuplicate = false ∧ verdict.isPossible = false := by
      intro verdict hin
      obtain ⟨row, -, rfl⟩ := List.mem_map.mp hin
      exact ⟨rfl, rfl, rfl⟩
    obtain ⟨ha', hlength', haside', hcount', hassertions''⟩ := accounts_gap (ha.report hall) hgap
    obtain ⟨q'', withheld, rfl, ha'', hlength'', haside'', hcount''⟩ := accounts_portfolio ha' h
    rw [← List.append_assoc, ← List.append_assoc]
    refine ⟨number, got.parsed, got.snapshot, q'', withheld, got.bindingRecorded, hparsed, hsnapshot, rfl, ha'', ?_, ?_, ?_⟩
    · have hnone : assertionsIn (added first) = 0 := by rw [added_of_still hstill]; rfl
      have hzero : q'.assertions = 0 := hassertions''.trans hassertions'
      omega
    · change setAside q''.recorded = _
      rw [haside'', haside', setAside_append, haside, refusedRows, List.length_append, List.length_map, Nat.add_comm]
      congr 1
      · rw [setAside, List.countP_map]
        exact congrFun List.countP_true _
      · exact Nat.zero_add _
    · change q''.recorded.length = _
      rw [hlength'', hlength', List.length_append, hlength, List.length_map, length_gapsOf, hrows]
      rw [List.length_nil, Nat.zero_add]

end

/-- The answer of a synchronisation is what became of the answers of the broker: every operation, every refused row, the gap and
    every claim has a verdict, and amid other writers the events that its calls added are, in order, those that the verdicts
    name. -/
theorem answer_accounts_for_journal {refuses : Event → Option String} {context : Context} {broker : BrokerChannel}
    {request : Request} {draws : Draws} {s u : Store} {own : List (Store × Store)} {result : SyncOutcome}
    (h : Amid (serve refuses) (Others request fun _ => False) (syncBroker context broker request draws) s own (.ok result) u) :
    ((added own).map Event.id = result.recorded.filterMap Verdict.event ∧
      result.duplicates = result.recorded.countP Verdict.isDuplicate ∧
      result.possibleDuplicates = result.recorded.countP Verdict.isPossible ∧
      result.assertions = (added own).countP fun e => isAssertion e.kind) ∧
    (∀ existing, .duplicate existing ∈ result.recorded → ∃ recorded ∈ u.journal, recorded.id = existing) ∧
    ∃ number parsed snapshot, broker.operations number = .ok parsed ∧ portfolioOf broker request number parsed = .ok snapshot ∧
      result.setAside = (refusedRows context broker request parsed snapshot).length ∧
      result.recorded.length = parsed.accepted.length + (quarantinedRows parsed snapshot).length +
        (gapsOf context broker request (refusedRows context broker request parsed snapshot)).length +
          (statedClaims request snapshot).length := by
  rcases syncBroker_cases Others.refl (fun _ _ _ => Others.trans) h with ⟨e, he, -⟩ | ⟨a, b, c, inner, rfl, -, hinner, hbc, hcu⟩
  · cases he
  · obtain ⟨number, parsed, snapshot, q, withheld, recorded, hparsed, hsnapshot, rfl, ha, hassertions, haside, hlength⟩ :=
      accounts_claimed hinner
    have hadded : added ((a, { a with running := (request.principal.owner, request.account) :: a.running }) ::
        (inner ++ [(c, { c with running := c.running.filter (· ≠ (request.principal.owner, request.account)) })])) =
          added inner := by
      simp [added]
    rw [hadded]
    refine ⟨⟨ha.written, ha.duplicates, ha.possible, hassertions⟩, fun existing hin => ?_, number, parsed, snapshot, hparsed,
      hsnapshot, haside, hlength⟩
    exact (ha.grows (hbc.grows.trans hcu.grows)).named existing hin

/-- A month in which the broker has two deposits, one of them without an identifier, a row that it cannot read, and the fees. -/
def octoberBroker : BrokerChannel where
  channel := ⟨⟨7⟩, "v1", none⟩
  identityScope := .source
  accountNumbers := .ok ["A-1"]
  operations _ := .ok ⟨[octoberDeposit (some "op"), octoberDeposit none], [⟨"raw", "unreadable", {.cash}⟩]⟩
  portfolio _ := .ok ⟨.requested, [.feesTotal .rub (.new 0)], [], none⟩
where
  octoberDeposit (id : Option String) : SubmittedOperation :=
    ⟨⟨1⟩, .deposit (.new 100) .rub, ⟨none, none, some ⟨5⟩, none⟩, none, none, id, none, none, none, none, none, none, none⟩

def octoberContext : Context := ⟨id, fun _ => "deposit", fun _ => "deposit", id, fun _ => "fees", fun _ => "shape"⟩

def octoberRequest : Request := ⟨⟨1, ⟨1⟩⟩, .owner, "broker", ⟨1⟩, ⟨0⟩, ⟨30⟩, ⟨31⟩⟩

/-- Draws from a number on. -/
def drawsFrom (n : Nat) : Draws := ⟨fun i => ⟨n + i⟩, fun i => ⟨i⟩, id⟩

/-- The synchronisation of the month alone. -/
def octoberSync (n : Nat) : Synchronisation SyncOutcome := syncBroker octoberContext octoberBroker octoberRequest (drawsFrom n)

def emptyStore : Store := ⟨[], [(⟨1⟩, ⟨1⟩)], [], [], []⟩

theorem october_accounts : ∃ result, (run (serve fun _ => none) (octoberSync 100) emptyStore).1 = .ok result ∧
    (added (course (serve fun _ => none) (octoberSync 100) emptyStore)).map Event.id =
      result.recorded.filterMap Verdict.event := by
  obtain ⟨result, hresult⟩ := exists_ok (show (run (serve fun _ => none) (octoberSync 100) emptyStore).1.isOk = true by
    decide +kernel)
  have hcourse : Amid (serve fun _ => none) (Others octoberRequest fun _ => False) (octoberSync 100) emptyStore _ _ _ :=
    Amid.of_run Others.refl (octoberSync 100) emptyStore
  rw [hresult] at hcourse
  exact ⟨result, hresult, (answer_accounts_for_journal hcourse).1.1⟩

end Sync
end Iaam
