import Iaam.Theorems.Sync

/-! Synchronisations of one account one after another, amid other writers. One that ended, made again, records no row that
carries an identity; and what the owner is asked after any number of attempts is what the last of them left unanswered. -/

namespace Iaam
namespace Sync
open Outcome JournalStore Calls

variable {refuses : Event → Option String} {context : Context} {broker : BrokerChannel} {request : Request} {draws : Draws}
  {Rely : Store → Store → Prop} {scope : IdentityScope} {journal journal' : List Event} {e e' : Event} {p q : Progress}
  {s t u : Store} {own : List (Store × Store)} {k : KnownRecord} {i : Nat} {operation : SubmittedOperation}
  {hint : Option (EventId × DedupLevel)}

/-! ### What a journal recognises -/

/-- A recorded event that the store takes for the other one. -/
structure Holds (scope : IdentityScope) (recorded e : Event) : Prop where
  owner : recorded.owner = e.owner
  identity : (e.provenance.sourceOperationId.isSome ∧ recorded.provenance.source = e.provenance.source ∧
      (scope = .source ∨ recorded.account = e.account) ∧
        recorded.provenance.sourceOperationId = e.provenance.sourceOperationId) ∨
    e.idempotencyKey.isSome ∧ recorded.idempotencyKey = e.idempotencyKey

theorem heldByOperation_isSome : (heldByOperation scope journal e).isSome ↔ ∃ recorded ∈ journal,
    recorded.owner = e.owner ∧ e.provenance.sourceOperationId.isSome ∧ recorded.provenance.source = e.provenance.source ∧
      (scope = .source ∨ recorded.account = e.account) ∧
        recorded.provenance.sourceOperationId = e.provenance.sourceOperationId := by
  unfold heldByOperation
  cases e.provenance.sourceOperationId with
  | none => simp
  | some operation =>
    simp only [Option.bind_some, Option.isSome_map, List.find?_isSome, sameOperation, Bool.and_eq_true, Bool.or_eq_true,
      decide_eq_true_eq, Option.isSome_some, true_and, and_assoc]

theorem heldByKey_isSome : (heldByKey journal e).isSome ↔
    ∃ recorded ∈ journal, recorded.owner = e.owner ∧ e.idempotencyKey.isSome ∧ recorded.idempotencyKey = e.idempotencyKey := by
  unfold heldByKey
  cases e.idempotencyKey with
  | none => simp
  | some key => simp [List.find?_isSome]

theorem exists_holds_iff : (∃ recorded ∈ journal, Holds scope recorded e) ↔
    (heldByOperation scope journal e).isSome ∨ (heldByKey journal e).isSome := by
  rw [heldByOperation_isSome, heldByKey_isSome]
  constructor
  · rintro ⟨recorded, hin, howner, hoperation | hkey⟩
    · exact .inl ⟨recorded, hin, howner, hoperation⟩
    · exact .inr ⟨recorded, hin, howner, hkey⟩
  · rintro (⟨recorded, hin, howner, hoperation⟩ | ⟨recorded, hin, howner, hkey⟩)
    · exact ⟨recorded, hin, howner, .inl hoperation⟩
    · exact ⟨recorded, hin, howner, .inr hkey⟩

theorem findDuplicate_of_holds {recorded : Event} (hin : recorded ∈ journal) (h : Holds scope recorded e) :
    ∃ existing, findDuplicate scope journal e = some existing := by
  rw [← Option.isSome_iff_exists, findDuplicate, Option.isSome_or, Option.isSome_or, Bool.or_eq_true, Bool.or_eq_true]
  rcases exists_holds_iff.mp ⟨recorded, hin, h⟩ with hsome | hsome
  · exact .inl hsome
  · exact .inr (.inl hsome)

/-- An event that is taken for another one under no identifier of the journal is held. -/
theorem holds_of_findDuplicate {existing : EventId} (h : findDuplicate scope journal e = some existing)
    (hfresh : ∀ recorded ∈ journal, recorded.id ≠ e.id) : ∃ recorded ∈ journal, Holds scope recorded e := by
  rw [exists_holds_iff]
  rw [findDuplicate, heldById_none.mpr hfresh, Option.or_none] at h
  rcases Option.or_eq_some_iff.mp h with h | ⟨-, h⟩
  · exact .inl (by rw [h]; rfl)
  · exact .inr (by rw [h]; rfl)

/-- The journal up to a day recognises an event before it is sent, or the store does. -/
def Recognised (scope : IdentityScope) (through : Date) (journal : List Event) (e : Event) : Prop :=
  (∃ recorded ∈ journal, recorded.owner = e.owner ∧ recorded.order.date ≤ through ∧
    Recognises scope (knownRecord recorded recorded.id) e) ∨ ∃ recorded ∈ journal, Holds scope recorded e

theorem Recognised.grows {through : Date} (h : Recognised scope through journal e) (hgrows : journal <+: journal') :
    Recognised scope through journal' e := by
  rcases h with ⟨recorded, hin, h⟩ | ⟨recorded, hin, h⟩
  · exact .inl ⟨recorded, hgrows.subset hin, h⟩
  · exact .inr ⟨recorded, hgrows.subset hin, h⟩

/-- Two draws of one row. -/
structure SameRow (e e' : Event) : Prop extends SameIdentity e e' where
  account : e.account = e'.account

theorem Recognised.congr {through : Date} (h : Recognised scope through journal e) (hsame : SameRow e e') :
    Recognised scope through journal e' := by
  obtain ⟨⟨howner, hsource, hoperation, hkey⟩, haccount⟩ := hsame
  rcases h with ⟨recorded, hin, h⟩ | ⟨recorded, hin, ⟨howner', h⟩⟩
  · refine .inl ⟨recorded, hin, ?_⟩
    unfold Recognises at h ⊢
    rwa [← howner, ← hoperation, ← hkey, ← haccount]
  · refine .inr ⟨recorded, hin, ⟨howner'.trans howner, ?_⟩⟩
    rwa [← hsource, ← hoperation, ← hkey, ← haccount]

theorem identified_congr (hsame : SameRow e e') : Identified e ↔ Identified e' := by
  unfold Identified
  rw [hsame.operation, hsame.key]

/-! ### The first synchronisation -/

/-- What the first synchronisation keeps: the records it knows are of the journal up to its last day or of what it wrote itself,
    and the identifiers from the `n`-th on are not yet taken. -/
structure Sound (broker : BrokerChannel) (request : Request) (draws : Draws) (bounded : List Event) (n : Nat) (s : Store)
    (p : Progress) : Prop where
  known : ∀ k ∈ p.known, (∃ recorded ∈ bounded, k = knownRecord recorded recorded.id) ∨
    ∃ recorded ∈ s.journal, recorded.owner = request.principal.owner ∧ recorded.provenance.source = broker.channel.source ∧
      k.account = recorded.account ∧ k.sourceOperationId = recorded.provenance.sourceOperationId ∧
        k.idempotencyKey = recorded.idempotencyKey
  bounded : ∀ recorded ∈ bounded, recorded ∈ s.journal ∧ recorded.owner = request.principal.owner ∧
    recorded.order.date ≤ request.to
  fresh : ∀ recorded ∈ s.journal, ∀ m, recorded.id = draws.event m → m < n

section
variable {bounded : List Event} {n m : Nat}

theorem Sound.later (hs : Sound broker request draws bounded n s p)
    (h : Others request (fun id => ∃ m, id = draws.event m) s t) : Sound broker request draws bounded n t p where
  known k hk := (hs.known k hk).imp_right fun ⟨recorded, hin, hrest⟩ => ⟨recorded, h.grows.subset hin, hrest⟩
  bounded recorded hin := (hs.bounded recorded hin).imp_left fun hin => h.grows.subset hin
  fresh recorded hin m hid := by
    obtain ⟨later, hlater, hnot⟩ := h.journal
    rw [hlater] at hin
    rcases List.mem_append.mp hin with hin | hin
    · exact hs.fresh recorded hin m hid
    · exact absurd ⟨m, hid⟩ (hnot recorded hin)

theorem Sound.mono (h : Sound broker request draws bounded n s p) (hnm : n ≤ m) : Sound broker request draws bounded m s p :=
  ⟨h.known, h.bounded, fun recorded hin m' hid => (h.fresh recorded hin m' hid).trans_le hnm⟩

/-- An event that a known record recognises is recognised by the journal. -/
theorem Sound.recognised (hs : Sound broker request draws bounded n s p) (howner : e.owner = request.principal.owner)
    (hsource : e.provenance.source = broker.channel.source) (hk : k ∈ p.known)
    (hrecognises : Recognises broker.identityScope k e) : Recognised broker.identityScope request.to s.journal e := by
  rcases hs.known k hk with ⟨recorded, hin, rfl⟩ | ⟨recorded, hin, howner', hsource', haccount, hoperation, hkey⟩
  · obtain ⟨hin, howner', hday⟩ := hs.bounded recorded hin
    exact .inl ⟨recorded, hin, howner'.trans howner.symm, hday, hrecognises⟩
  · refine .inr ⟨recorded, hin, howner'.trans howner.symm, ?_⟩
    unfold Recognises at hrecognises
    cases hid : e.provenance.sourceOperationId with
    | none =>
      rw [hid] at hrecognises
      exact .inr ⟨hrecognises.1, hkey.symm.trans hrecognises.2⟩
    | some id =>
      rw [hid] at hrecognises
      refine .inl ⟨rfl, hsource'.trans hsource.symm, ?_, hoperation.symm.trans hrecognises.1⟩
      rw [← haccount]
      exact hrecognises.2

/-- Once it was taken, a row with an identity is recognised. -/
theorem Sound.taken (hs : Sound broker request draws bounded n s p) (hinj : Function.Injective draws.event) (hnm : n ≤ m)
    (hid : e.id = draws.event m) (howner : e.owner = request.principal.owner)
    (hsource : e.provenance.source = broker.channel.source)
    (h : Taken refuses broker (Others request fun id => ∃ m, id = draws.event m) e hint p s own (.ok q) u) :
    Sound broker request draws bounded (m + 1) u q ∧
      (Identified e → Recognised broker.identityScope request.to u.journal e) := by
  cases h with
  | @known k _ hk hrecognises hrely =>
    have hlater := (hs.later hrely).mono (hnm.trans (Nat.le_succ m))
    refine ⟨⟨hlater.known, hlater.bounded, hlater.fresh⟩, fun _ => ?_⟩
    exact (hs.recognised howner hsource hk hrecognises).grows hrely.grows
  | @answered answer journal t _ hnone hst happend hrely =>
    have hsound := hs.later hst
    have hfree : ∀ recorded ∈ t.journal, recorded.id ≠ e.id := by
      intro recorded hin hsame
      have := hsound.fresh recorded hin m (hsame.trans hid)
      omega
    rcases append_ok happend with ⟨existing, hfound, rfl, rfl⟩ | ⟨-, rfl, rfl⟩
    · have hlater := (hsound.later hrely).mono (hnm.trans (Nat.le_succ m))
      refine ⟨⟨hlater.known, hlater.bounded, hlater.fresh⟩, fun _ => ?_⟩
      exact Recognised.grows (.inr (holds_of_findDuplicate hfound hfree)) hrely.grows
    · have hlast : stamp t.journal e ∈ t.journal ++ [stamp t.journal e] := List.mem_append_right _ (List.mem_singleton_self _)
      have hwritten : Sound broker request draws bounded (m + 1) { t with journal := t.journal ++ [stamp t.journal e] }
          (p.take e hint (.inserted e.id)) := by
        refine ⟨fun k hk => ?_, fun recorded hin => ?_, fun recorded hin m' hid' => ?_⟩
        · rcases List.mem_append.mp hk with hk | hk
          · refine (hsound.known k hk).imp_right ?_
            rintro ⟨recorded, hin, hrest⟩
            exact ⟨recorded, List.mem_append_left _ hin, hrest⟩
          · rw [List.mem_singleton.mp hk]
            exact .inr ⟨stamp t.journal e, hlast, howner, hsource, rfl, rfl, rfl⟩
        · exact (hsound.bounded recorded hin).imp_left fun hin => List.mem_append_left _ hin
        · rcases List.mem_append.mp hin with hin | hin
          · exact (hsound.fresh recorded hin m' hid').trans_le (hnm.trans (Nat.le_succ m))
          · rw [List.mem_singleton.mp hin] at hid'
            have : m' = m := hinj (hid'.symm.trans hid)
            omega
      refine ⟨hwritten.later hrely, fun hidentified => ?_⟩
      refine Recognised.grows (.inr ⟨stamp t.journal e, hlast, rfl, ?_⟩) hrely.grows
      rcases hidentified with hsome | hsome
      · exact .inl ⟨hsome, rfl, .inr rfl, rfl⟩
      · exact .inr ⟨hsome, rfl⟩

end

/-- Two draws of one operation. -/
theorem sameRow_of_candidates {draws' : Draws} {i' : Nat} (h : candidate context broker request draws i operation = .ok e)
    (h' : candidate context broker request draws' i' operation = .ok e') : SameRow e e' := by
  obtain ⟨-, howner, haccount, hsource, hoperation, hkey, -⟩ := candidate_ok h
  obtain ⟨-, howner', haccount', hsource', hoperation', hkey', -⟩ := candidate_ok h'
  exact ⟨⟨howner.trans howner'.symm, hsource.trans hsource'.symm, hoperation.trans hoperation'.symm, hkey.trans hkey'.symm⟩,
    haccount.trans haccount'.symm⟩

/-- The operations with an identity are recognised by a journal. -/
def Covers (context : Context) (broker : BrokerChannel) (request : Request) (journal : List Event)
    (operations : List SubmittedOperation) : Prop :=
  ∀ operation ∈ operations, ∀ draws i e, candidate context broker request draws i operation = .ok e → Identified e →
    Recognised broker.identityScope request.to journal e

/-- The gap of refused rows is. -/
def CoversGap (context : Context) (broker : BrokerChannel) (request : Request) (journal : List Event) (rows : List RefusedRow) :
    Prop :=
  ∀ id gap, coverageGapEvent context broker request id rows = some gap →
    Recognised broker.identityScope request.to journal (declared request gap)

/-- The claims are. -/
def CoversClaims (context : Context) (broker : BrokerChannel) (request : Request) (journal : List Event)
    (claims : List ControlClaim) : Prop :=
  ∀ claim ∈ claims, ∀ id order, Recognised broker.identityScope request.to journal
    (declared request (assertionEvent context broker request id claim order))

section
variable {drawn : EventId → Prop} {bounded : List Event} {n m : Nat} {operations : List SubmittedOperation}

theorem Covers.grows (h : Covers context broker request journal operations) (hgrows : journal <+: journal') :
    Covers context broker request journal' operations :=
  fun operation hin draws i e hcandidate hidentified => (h operation hin draws i e hcandidate hidentified).grows hgrows

theorem first_operations (hinj : Function.Injective draws.event) (hs : Sound broker request draws bounded 0 s p)
    (h : Amid (serve refuses) (Others request fun id => ∃ m, id = draws.event m)
      (takeOperations context broker request draws operations p) s own (.ok q) u) :
    Sound broker request draws bounded operations.length u q ∧
      q.refusals = p.refusals ++ refusedOf context broker request operations ∧
      Covers context broker request u.journal operations := by
  refine (Amid.foldIdx Others.refl (fun taken _ s p' => Sound broker request draws bounded taken.length s p' ∧
    p'.refusals = p.refusals ++ refusedOf context broker request taken ∧ Covers context broker request s.journal taken)
      (fun _ => True) [] [] ?_ ?_ ⟨hs, by simp [refusedOf], fun _ hin => (nomatch hin)⟩ h).2 q rfl
  · rintro taken before s t p' ⟨hsound, hrefusals, hcovers⟩ hrely
    exact ⟨hsound.later hrely, hrefusals, hcovers.grows hrely.grows⟩
  · rintro taken before s operation p' own r u - ⟨hsound, hrefusals, hcovers⟩ h
    refine ⟨fun _ _ => trivial, fun q' hq => ?_⟩
    rw [List.length_append, refusedOf_append, ← List.append_assoc, ← hrefusals]
    rcases taken_of_takeOperation Others.refl (fun _ _ _ => Others.trans) h with ⟨rejection, hrejected, rfl, rfl, hrely⟩ |
      ⟨-, rfl, -, -⟩ | ⟨e, hint, hcandidate, htaken⟩
    · cases hq
      have hlater := hsound.later hrely
      refine ⟨⟨hlater.known, hlater.bounded, (hlater.mono (Nat.le_succ _)).fresh⟩, ?_,
        fun operation' hin draws' i e hcandidate hid => ?_⟩
      · rw [rejectionOf_of_rejected hrejected]
        rfl
      · rcases List.mem_append.mp hin with hin | hin
        · exact (hcovers operation' hin draws' i e hcandidate hid).grows hrely.grows
        · rw [List.mem_singleton.mp hin] at hcandidate
          have hnone := rejectionOf_of_ok hcandidate
          rw [rejectionOf_of_rejected hrejected] at hnone
          cases hnone
    · cases hq
    · subst hq
      obtain ⟨hid, howner, -, hsource, -⟩ := candidate_ok hcandidate
      obtain ⟨hsound', hrecognised⟩ := hsound.taken hinj (Nat.le_refl _) hid howner hsource htaken
      refine ⟨hsound', ?_, fun operation' hin draws' i e' hcandidate' hidentified => ?_⟩
      · rw [rejectionOf_of_ok hcandidate, htaken.refusals.1]
        exact (List.append_nil _).symm
      · rcases List.mem_append.mp hin with hin | hin
        · exact (hcovers operation' hin draws' i e' hcandidate' hidentified).grows (htaken.grows fun _ _ => Others.grows)
        · rw [List.mem_singleton.mp hin] at hcandidate'
          have hsame := sameRow_of_candidates hcandidate hcandidate'
          exact (hrecognised ((identified_congr hsame).mpr hidentified)).congr hsame

theorem first_gap (hinj : Function.Injective draws.event) (hs : Sound broker request draws bounded n s p)
    (h : Amid (serve refuses) (Others request fun id => ∃ m, id = draws.event m)
      (takeGap context broker request draws n p) s own
      (.ok q) u) : Sound broker request draws bounded (n + 1) u q ∧ CoversGap context broker request u.journal p.refusals := by
  unfold takeGap at h
  cases hgap : coverageGapEvent context broker request (draws.event n) p.refusals with
  | none =>
    rw [hgap] at h
    obtain ⟨hr, -, hrely⟩ := Amid.of_done h
    cases hr
    refine ⟨(hs.later hrely).mono (Nat.le_succ n), fun id gap hid => ?_⟩
    rw [coverageGapEvent_id id (draws.event n), hgap] at hid
    cases hid
  | some gap =>
    rw [hgap] at h
    obtain ⟨hid, howner, haccount, hsource, hoperation, hkey⟩ := coverageGapEvent_some hgap
    have htaken := taken_of_takeStatement Others.refl (fun _ _ _ => Others.trans) hoperation (by rw [hkey]; rfl) h
    obtain ⟨hsound, hrecognised⟩ := hs.taken (e := declared request gap) hinj (Nat.le_refl n) hid howner hsource htaken
    refine ⟨hsound, fun id' gap' hgap' => ?_⟩
    rw [coverageGapEvent_id id' (draws.event n), hgap] at hgap'
    cases hgap'
    have hidentified : Identified (declared request gap) := .inr (by simp [declared, hkey])
    exact (hrecognised hidentified).congr ⟨⟨rfl, rfl, rfl, rfl⟩, rfl⟩

theorem first_claims (hinj : Function.Injective draws.event) {written : Nat} {claims : List ControlClaim}
    (hs : Sound broker request draws bounded written s p)
    (h : Amid (serve refuses) (Others request fun id => ∃ m, id = draws.event m)
      (takeClaims context broker request draws written claims p) s own (.ok q) u) :
    CoversClaims context broker request u.journal claims := by
  refine ((Amid.foldIdx Others.refl (fun taken _ s p' => Sound broker request draws bounded (written + taken.length) s p' ∧
    CoversClaims context broker request s.journal taken) (fun _ => True) [] [] ?_ ?_ ⟨hs,
      fun _ hin => (nomatch hin)⟩ h).2 q rfl).2
  · rintro taken before s t p' ⟨hsound, hcovers⟩ hrely
    exact ⟨hsound.later hrely, fun claim hin id order => (hcovers claim hin id order).grows hrely.grows⟩
  · rintro taken before s claim p' own r u - ⟨hsound, hcovers⟩ h
    refine ⟨fun _ _ => trivial, fun q' hq => ?_⟩
    subst hq
    obtain ⟨q'', first, rest, v, -, hfirst, h⟩ := h.bind_ok Others.refl
    have htaken := taken_of_takeStatement Others.refl (fun _ _ _ => Others.trans) rfl rfl hfirst
    obtain ⟨hsound', hrecognised⟩ := hsound.taken hinj (Nat.le_refl _) rfl rfl rfl htaken
    have hend : q'.known = q''.known ∧ Others request (fun id => ∃ m, id = draws.event m) v u := by
      split at h
      all_goals
        obtain ⟨hr, -, hrely⟩ := Amid.of_done h
        cases hr
        exact ⟨rfl, hrely⟩
    obtain ⟨hknown, hrely⟩ := hend
    have hlater := hsound'.later hrely
    rw [List.length_append]
    refine ⟨⟨by rw [hknown]; exact hlater.known, hlater.bounded, hlater.fresh⟩, fun claim' hin id order => ?_⟩
    rcases List.mem_append.mp hin with hin | hin
    · exact ((hcovers claim' hin id order).grows (htaken.grows fun _ _ => Others.grows)).grows hrely.grows
    · rw [List.mem_singleton.mp hin]
      exact ((hrecognised (.inr rfl)).grows hrely.grows).congr ⟨⟨rfl, rfl, rfl, rfl⟩, rfl⟩

end

/-- A journal has all that a synchronisation writes of the answers of the broker, as far as that carries an identity. -/
structure Settled (context : Context) (broker : BrokerChannel) (request : Request) (journal : List Event)
    (parsed : ParsedOperations) (snapshot : Option PortfolioSnapshot) : Prop where
  operations : Covers context broker request journal parsed.accepted
  gap : CoversGap context broker request journal (refusedRows context broker request parsed snapshot)
  claims : ∀ answer, snapshot = some answer → assertionsWithheld request answer = none →
    CoversClaims context broker request journal answer.claims

theorem Settled.grows {parsed : ParsedOperations} {snapshot : Option PortfolioSnapshot}
    (h : Settled context broker request journal parsed snapshot) (hgrows : journal <+: journal') :
    Settled context broker request journal' parsed snapshot where
  operations := h.operations.grows hgrows
  gap id gap hgap := (h.gap id gap hgap).grows hgrows
  claims answer hanswer hnone claim hin id order := (h.claims answer hanswer hnone claim hin id order).grows hgrows

theorem Settled.stated {parsed : ParsedOperations} {snapshot : Option PortfolioSnapshot}
    (h : Settled context broker request journal parsed snapshot) :
    CoversClaims context broker request journal (statedClaims request snapshot) := by
  cases snapshot with
  | none =>
    intro claim hin
    cases hin
  | some answer =>
    cases hwithheld : assertionsWithheld request answer with
    | none =>
      simp only [statedClaims, hwithheld]
      exact h.claims answer rfl hwithheld
    | some asOf =>
      simp only [statedClaims, hwithheld]
      intro claim hin
      cases hin

theorem first_claimed (hinj : Function.Injective draws.event) (hfree : ∀ recorded ∈ s.journal, ∀ n, recorded.id ≠ draws.event n)
    {result : SyncOutcome} (h : Amid (serve refuses) (Others request fun id => ∃ m, id = draws.event m)
      (syncClaimed context broker request draws) s own (.ok result) u) :
    ∃ number parsed snapshot, boundNumber request u = some number ∧ broker.operations number = .ok parsed ∧
      portfolioOf broker request number parsed = .ok snapshot ∧ Settled context broker request u.journal parsed snapshot := by
  obtain ⟨got, first, rest, t, -, hfetch, h⟩ := h.bind_ok Others.refl
  obtain ⟨q, second, rest', v, -, hoperations, h⟩ := Amid.bind_ok Others.refl h
  have hfetches := amid_fetch Others.refl (fun _ _ _ => Others.trans) (fun _ _ h => h) hfetch
  obtain ⟨⟨number, hbound, hparsed, hsnapshot⟩, ⟨loaded, -, hloaded, hbounded⟩, -⟩ := hfetches
  have hnone : ∀ recorded ∈ t.journal, ∀ n, recorded.id ≠ draws.event n := by
    refine hfetch.moves (fun s t => (∀ recorded ∈ s.journal, ∀ n, recorded.id ≠ draws.event n) →
      ∀ recorded ∈ t.journal, ∀ n, recorded.id ≠ draws.event n) ?_ ?_ ?_ makes_fetch hfree
    · exact fun s t u h h' hs => h' (h hs)
    · rintro s t ⟨⟨later, hlater, hnot⟩, -⟩ hs recorded hin n hid
      rw [hlater] at hin
      rcases List.mem_append.mp hin with hin | hin
      · exact hs recorded hin n hid
      · exact hnot recorded hin ⟨n, hid⟩
    · intro op s hquiet hs
      rw [(serve_quiet hquiet s).1]
      exact hs
  obtain ⟨hrefusals, hknown, -⟩ := foldl_quarantine (quarantinedRows got.parsed got.snapshot)
    (⟨knownRecords got.bounded, [], 0, 0, 0, [], []⟩ : Progress)
  have hstarted : Sound broker request draws got.bounded 0 t
      (started context broker request draws got.bounded (quarantinedRows got.parsed got.snapshot)) := by
    refine ⟨fun k hk => ?_, fun recorded hin => ?_, fun recorded hin m hid => absurd hid (hnone recorded hin m)⟩
    · rw [started, hknown] at hk
      obtain ⟨recorded, hin, rfl⟩ := List.mem_map.mp hk
      exact .inl ⟨recorded, hin, rfl⟩
    · rw [hbounded, mem_loadEventsThrough] at hin
      exact ⟨hloaded.subset hin.1, hin.2⟩
  obtain ⟨hsound, hrefused, hcovers⟩ := first_operations hinj hstarted hoperations
  rw [started, hrefusals] at hrefused
  have hrows : q.refusals = refusedRows context broker request got.parsed got.snapshot := hrefused
  unfold takeStatements at h
  dsimp only at h
  split at h
  · cases (Amid.of_stop h).1
  · obtain ⟨q', third, rest'', w, -, hgap, h⟩ := Amid.bind_ok Others.refl h
    have hreported : Sound broker request draws got.bounded got.parsed.accepted.length v
      (q.report (quarantinedRows got.parsed got.snapshot)) := ⟨hsound.known, hsound.bounded, hsound.fresh⟩
    obtain ⟨hsound', hcoversGap⟩ := first_gap hinj hreported hgap
    obtain ⟨hgrows, hbound'⟩ := moves_writes (makes_takeGap.mono fun _ => .inl) hgap
    obtain ⟨hgrows', hbound''⟩ := moves_writes makes_takePortfolio h
    obtain ⟨-, hbound'''⟩ := moves_writes (makes_takeOperations.mono fun _ => .inl) hoperations
    refine ⟨number, got.parsed, got.snapshot, ?_, hparsed, hsnapshot, hcovers.grows (hgrows.trans hgrows'),
      fun id gap hid => ?_,
      fun answer hanswer hwithheld claim hin id order => ?_⟩
    · rw [hbound'', hbound', hbound''', hbound]
    · rw [← hrows] at hid
      exact (hcoversGap id gap hid).grows hgrows'
    · have hstated : statedClaims request got.snapshot = answer.claims := by simp [statedClaims, hanswer, hwithheld]
      rcases takePortfolio_cases Others.refl h with ⟨e, he, -⟩ |
        ⟨q'', withheld, fourth, rest''', x, y, -, hclaims, hkeep, hrely, -⟩
      · cases he
      · rw [hstated] at hclaims
        have hkept := (moves_writes (makes_keepRefusalQuestions.mono fun _ => .inr) hkeep).1
        exact (first_claims hinj hsound' hclaims claim hin id order).grows (hkept.trans hrely.grows)

/-! ### Again -/

/-- A call that writes at most an event without an identity. -/
def Repeats (m : Store × Store) : Prop :=
  m.2.journal = m.1.journal ∨ ∃ e, ¬ Identified e ∧ m.2.journal = m.1.journal ++ [e]

/-- A journal up to the last day is among what is known. -/
def Knows (request : Request) (journal : List Event) (known : List KnownRecord) : Prop :=
  ∀ recorded ∈ journal, recorded.owner = request.principal.owner → recorded.order.date ≤ request.to →
    knownRecord recorded recorded.id ∈ known

/-- What a journal recognises is not written again. -/
theorem Taken.again {r : Result SyncError Progress} (hothers : ∀ s t, Rely s t → s.journal <+: t.journal)
    (howner : e.owner = request.principal.owner) (hknows : Knows request journal p.known) (hgrows : journal <+: s.journal)
    (hrecognised : Identified e → Recognised broker.identityScope request.to journal e)
    (h : Taken refuses broker Rely e hint p s own r u) : (∀ m ∈ own, Repeats m) ∧
      ∀ q, r = .ok q → Knows request journal q.known ∧ (Identified e → ∃ existing, q = p.duplicate existing) := by
  cases h with
  | known _ _ _ =>
    refine ⟨fun m hm => (nomatch hm), fun q hq => ?_⟩
    cases hq
    exact ⟨hknows, fun _ => ⟨_, rfl⟩⟩
  | invalid _ => exact ⟨fun m hm => (nomatch hm), fun q hq => (nomatch hq)⟩
  | failed _ _ => exact ⟨fun m hm => by rw [List.mem_singleton.mp hm]; exact .inl rfl, fun q hq => (nomatch hq)⟩
  | @answered answer _ t _ hnone hst happend hrely =>
    rcases append_ok happend with ⟨existing, -, rfl, rfl⟩ | ⟨hfound, rfl, rfl⟩
    · refine ⟨fun m hm => by rw [List.mem_singleton.mp hm]; exact .inl rfl, fun q hq => ?_⟩
      cases hq
      exact ⟨hknows, fun _ => ⟨_, rfl⟩⟩
    · have hnot : ¬ Identified e := by
        intro hidentified
        rcases hrecognised hidentified with ⟨recorded, hin, howner', hday, hrecognises⟩ | ⟨recorded, hin, hholds⟩
        · exact hnone _ (hknows recorded hin (howner'.trans howner) hday) hrecognises
        · obtain ⟨existing, hexisting⟩ := findDuplicate_of_holds ((hgrows.trans (hothers _ _ hst)).subset hin) hholds
          rw [hfound] at hexisting
          cases hexisting
      refine ⟨fun m hm => ?_, fun q hq => ?_⟩
      · rw [List.mem_singleton.mp hm]
        exact .inr ⟨stamp t.journal e, hnot, rfl⟩
      · cases hq
        exact ⟨fun recorded hin howner' hday => List.mem_append_left _ (hknows recorded hin howner' hday),
          fun hidentified => absurd hidentified hnot⟩

section
variable {operations : List SubmittedOperation} {claims : List ControlClaim}

theorem again_operations {r : Result SyncError Progress} (hcovers : Covers context broker request journal operations)
    (hknows : Knows request journal p.known) (hgrows : journal <+: s.journal)
    (h : Amid (serve refuses) (Others request fun _ => False)
      (takeOperations context broker request draws operations p) s own r u) :
    (∀ m ∈ own, Repeats m) ∧ ∀ q, r = .ok q → Knows request journal q.known ∧ journal <+: u.journal ∧
      q.refusals = p.refusals ++ refusedOf context broker request operations ∧ q.assertions = p.assertions := by
  refine Amid.foldIdx Others.refl (fun taken _ s p' => Knows request journal p'.known ∧ journal <+: s.journal ∧
    p'.refusals = p.refusals ++ refusedOf context broker request taken ∧ p'.assertions = p.assertions) Repeats [] [] ?_ ?_
      ⟨hknows, hgrows, by simp [refusedOf], rfl⟩ h
  · rintro taken before s t p' ⟨hknows, hgrows, hrest⟩ hrely
    exact ⟨hknows, hgrows.trans hrely.grows, hrest⟩
  · rintro taken before s operation p' own r u hin ⟨hknows, hgrows, hrefusals, hassertions⟩ h
    rw [refusedOf_append, ← List.append_assoc, ← hrefusals, ← hassertions]
    rcases taken_of_takeOperation Others.refl (fun _ _ _ => Others.trans) h with ⟨rejection, hrejected, rfl, rfl, hrely⟩ |
      ⟨-, rfl, rfl, -⟩ | ⟨e, hint, hcandidate, htaken⟩
    · refine ⟨fun m hm => (nomatch hm), fun q hq => ?_⟩
      cases hq
      rw [rejectionOf_of_rejected hrejected]
      exact ⟨hknows, hgrows.trans hrely.grows, rfl, rfl⟩
    · exact ⟨fun m hm => (nomatch hm), fun q hq => (nomatch hq)⟩
    · obtain ⟨hrepeats, hagain⟩ := htaken.again (fun _ _ => Others.grows) (candidate_ok hcandidate).2.1 hknows hgrows
        (hcovers operation hin draws taken.length e hcandidate)
      refine ⟨hrepeats, fun q hq => ?_⟩
      subst hq
      rw [rejectionOf_of_ok hcandidate]
      exact ⟨(hagain q rfl).1, hgrows.trans (htaken.grows fun _ _ => Others.grows),
        htaken.refusals.1.trans (List.append_nil _).symm, htaken.refusals.2.2⟩

theorem again_gap {r : Result SyncError Progress} (hcovers : CoversGap context broker request journal p.refusals)
    (hknows : Knows request journal p.known) (hgrows : journal <+: s.journal)
    (h : Amid (serve refuses) (Others request fun _ => False) (takeGap context broker request draws i p) s own r u) :
    (∀ m ∈ own, Repeats m) ∧
      ∀ q, r = .ok q → Knows request journal q.known ∧ journal <+: u.journal ∧ q.assertions = p.assertions := by
  unfold takeGap at h
  cases hgap : coverageGapEvent context broker request (draws.event i) p.refusals with
  | none =>
    rw [hgap] at h
    obtain ⟨rfl, rfl, hrely⟩ := Amid.of_done h
    refine ⟨fun m hm => (nomatch hm), fun q hq => ?_⟩
    cases hq
    exact ⟨hknows, hgrows.trans hrely.grows, rfl⟩
  | some gap =>
    rw [hgap] at h
    obtain ⟨-, howner, -, -, hoperation, hkey⟩ := coverageGapEvent_some hgap
    have htaken := taken_of_takeStatement Others.refl (fun _ _ _ => Others.trans) hoperation (by rw [hkey]; rfl) h
    obtain ⟨hrepeats, hagain⟩ := htaken.again (e := declared request gap) (fun _ _ => Others.grows) howner hknows hgrows
      fun _ => hcovers _ _ hgap
    refine ⟨hrepeats, fun q hq => ?_⟩
    subst hq
    exact ⟨(hagain q rfl).1, hgrows.trans (htaken.grows fun _ _ => Others.grows), htaken.refusals.2.2⟩

theorem again_claims {written : Nat} {r : Result SyncError Progress}
    (hcovers : CoversClaims context broker request journal claims)
    (hknows : Knows request journal p.known) (hgrows : journal <+: s.journal)
    (h : Amid (serve refuses) (Others request fun _ => False)
      (takeClaims context broker request draws written claims p) s own r u) :
    (∀ m ∈ own, Repeats m) ∧ ∀ q, r = .ok q → q.assertions = p.assertions := by
  have hfold := Amid.foldIdx Others.refl (fun _ _ s p' => Knows request journal p'.known ∧ journal <+: s.journal ∧
    p'.assertions = p.assertions) Repeats [] [] ?_ ?_ ⟨hknows, hgrows, rfl⟩ h
  · exact ⟨hfold.1, fun q hq => (hfold.2 q hq).2.2⟩
  · rintro taken before s t p' ⟨hknows, hgrows, hrest⟩ hrely
    exact ⟨hknows, hgrows.trans hrely.grows, hrest⟩
  · rintro taken before s claim p' own r u hin ⟨hknows, hgrows, hassertions⟩ h
    have again : ∀ {own r u}, Amid (serve refuses) (Others request fun _ => False) (takeStatement context broker request
        (assertionEvent context broker request (draws.event (written + taken.length)) claim (taken.length + 1)) p') s own r u →
        (∀ m ∈ own, Repeats m) ∧ ∀ q, r = .ok q → Knows request journal q.known ∧ journal <+: u.journal ∧
          ∃ existing, q = p'.duplicate existing := by
      intro own r u h
      have htaken := taken_of_takeStatement Others.refl (fun _ _ _ => Others.trans) rfl rfl h
      obtain ⟨hrepeats, hagain⟩ := htaken.again (fun _ _ => Others.grows) rfl hknows hgrows fun _ => hcovers claim hin _ _
      exact ⟨hrepeats, fun q hq => ⟨(hagain q hq).1, hgrows.trans (htaken.grows fun _ _ => Others.grows),
        (hagain q hq).2 (.inr rfl)⟩⟩
    rcases h.bind_cases Others.refl with ⟨e, rfl, hstop⟩ | ⟨q, first, rest, v, rfl, hfirst, hlast⟩
    · exact ⟨(again hstop).1, fun b hb => (nomatch hb)⟩
    · obtain ⟨hrepeats, hagain⟩ := again hfirst
      obtain ⟨hknows', hgrows', existing, rfl⟩ := hagain q rfl
      have hverdict : (p'.duplicate existing).recorded.getLast? = some (.duplicate existing) := List.getLast?_concat
      rw [hverdict] at hlast
      obtain ⟨rfl, rfl, hrely⟩ := Amid.of_done hlast
      rw [List.append_nil]
      refine ⟨hrepeats, fun q hq => ?_⟩
      cases hq
      exact ⟨hknows', hgrows'.trans hrely.grows, hassertions⟩

theorem repeats_quiet {α : Type} {P : Synchronisation α} {allowed : StoreCall → Prop} {r : Result SyncError α}
    (hquiet : ∀ op s, allowed op → (serve refuses op s).2.journal = s.journal) (hP : P.Makes allowed)
    (h : Amid (serve refuses) Rely P s own r u) : ∀ m ∈ own, Repeats m := by
  intro m hm
  obtain ⟨op, hop, hleft⟩ := h.makes hP m hm
  exact .inl (by rw [hleft, hquiet op m.1 hop])

theorem again_portfolio {written : Nat} {snapshot : Option PortfolioSnapshot} {recorded : Bool}
    {r : Result SyncError SyncOutcome}
    (hcovers : CoversClaims context broker request journal (statedClaims request snapshot))
    (hknows : Knows request journal p.known) (hgrows : journal <+: s.journal)
    (h : Amid (serve refuses) (Others request fun _ => False)
      (takePortfolio context broker request draws written snapshot recorded p) s own r u) :
    (∀ m ∈ own, Repeats m) ∧ ∀ result, r = .ok result → result.assertions = p.assertions ∧
      result.bindingRecorded = recorded := by
  rcases takePortfolio_cases Others.refl h with ⟨e, rfl, hstop⟩ | ⟨q, withheld, first, rest, v, w, rfl, hclaims, hkeep, -, rfl⟩
  · exact ⟨(again_claims hcovers hknows hgrows hstop).1, fun result hr => by cases hr⟩
  · obtain ⟨hrepeats, hassertions⟩ := again_claims hcovers hknows hgrows hclaims
    have hrepeats' := repeats_quiet (fun op s hop => (serve_questions hop s).1) makes_keepRefusalQuestions hkeep
    refine ⟨fun m hm => (List.mem_append.mp hm).elim (hrepeats m) (hrepeats' m), fun result hr => ?_⟩
    cases hr
    exact ⟨hassertions q rfl, rfl⟩

theorem again_claimed {number : String} {parsed : ParsedOperations} {snapshot : Option PortfolioSnapshot}
    {r : Result SyncError SyncOutcome} (hsettled : Settled context broker request journal parsed snapshot)
    (hbound : boundNumber request s = some number) (hparsed : broker.operations number = .ok parsed)
    (hsnapshot : portfolioOf broker request number parsed = .ok snapshot) (hgrows : journal <+: s.journal)
    (h : Amid (serve refuses) (Others request fun _ => False) (syncClaimed context broker request draws) s own r u) :
    (∀ m ∈ own, Repeats m) ∧ ∀ result, r = .ok result → result.assertions = 0 ∧ result.bindingRecorded = false := by
  have hquiet : ∀ {own r u}, Amid (serve refuses) (Others request fun _ => False) (fetch broker request) s own r u →
      ∀ m ∈ own, Repeats m := fun h => repeats_quiet (fun op s hop => (serve_quiet hop s).1) makes_fetch h
  rcases h.bind_cases Others.refl with ⟨e, rfl, hstop⟩ | ⟨got, first, rest, t, rfl, hfetch, h⟩
  · exact ⟨hquiet hstop, fun result hr => by cases hr⟩
  obtain ⟨⟨number', hbound', hparsed', hsnapshot'⟩, ⟨loaded, hbefore, hloaded, hbounded⟩, hbinding⟩ :=
    amid_fetch Others.refl (fun _ _ _ => Others.trans) (fun _ _ h => h) hfetch
  obtain ⟨hsame, hrecorded⟩ := hbinding number hbound
  rw [hbound'] at hsame
  cases hsame
  rw [hparsed] at hparsed'
  cases hparsed'
  rw [hsnapshot] at hsnapshot'
  cases hsnapshot'
  obtain ⟨hrefusals, hknown, hassertions, -⟩ := foldl_quarantine (quarantinedRows got.parsed got.snapshot)
    (⟨knownRecords got.bounded, [], 0, 0, 0, [], []⟩ : Progress)
  have hknows : Knows request journal
      (started context broker request draws got.bounded (quarantinedRows got.parsed got.snapshot)).known := by
    intro recorded hin howner hday
    rw [started, hknown, knownRecords, hbounded]
    exact List.mem_map_of_mem (mem_loadEventsThrough.mpr ⟨(hgrows.trans hbefore).subset hin, howner, hday⟩)
  have hgrows' := hgrows.trans (hbefore.trans hloaded)
  rcases Amid.bind_cases Others.refl h with ⟨e, rfl, hstop⟩ | ⟨q, second, rest', v, rfl, hoperations, h⟩
  · have hrepeats := (again_operations hsettled.operations hknows hgrows' hstop).1
    exact ⟨fun m hm => (List.mem_append.mp hm).elim (hquiet hfetch m) (hrepeats m), fun result hr => by cases hr⟩
  obtain ⟨hrepeats, hagain⟩ := again_operations hsettled.operations hknows hgrows' hoperations
  obtain ⟨hknows', hgrows'', hrefused, hassertions'⟩ := hagain q rfl
  have hrows : q.refusals = refusedRows context broker request got.parsed got.snapshot := by
    rw [hrefused, started, hrefusals]
    rfl
  have hbefore' : ∀ m ∈ first ++ second, Repeats m :=
    fun m hm => (List.mem_append.mp hm).elim (hquiet hfetch m) (hrepeats m)
  rw [← List.append_assoc]
  unfold takeStatements at h
  dsimp only at h
  split at h
  · obtain ⟨rfl, rfl, -⟩ := Amid.of_stop h
    exact ⟨fun m hm => hbefore' m (by rwa [List.append_nil] at hm), fun result hr => by cases hr⟩
  · have hgap : CoversGap context broker request journal (q.report (quarantinedRows got.parsed got.snapshot)).refusals := by
      rw [show (q.report (quarantinedRows got.parsed got.snapshot)).refusals = q.refusals from rfl, hrows]
      exact hsettled.gap
    rcases Amid.bind_cases Others.refl h with ⟨e, rfl, hstop⟩ | ⟨q', third, rest'', w, rfl, htaken, h⟩
    · have hrepeats' := (again_gap hgap hknows' hgrows'' hstop).1
      exact ⟨fun m hm => (List.mem_append.mp hm).elim (hbefore' m) (hrepeats' m), fun result hr => by cases hr⟩
    · obtain ⟨hrepeats', hagain'⟩ := again_gap hgap hknows' hgrows'' htaken
      obtain ⟨hknows'', hgrows''', hassertions''⟩ := hagain' q' rfl
      obtain ⟨hrepeats'', hresult⟩ := again_portfolio hsettled.stated hknows'' hgrows''' h
      rw [← List.append_assoc]
      refine ⟨fun m hm => ?_, fun result hr => ?_⟩
      · rcases List.mem_append.mp hm with hm | hm
        · exact (List.mem_append.mp hm).elim (hbefore' m) (hrepeats' m)
        · exact hrepeats'' m hm
      · obtain ⟨hcount, hpending⟩ := hresult result hr
        refine ⟨?_, hpending.trans hrecorded⟩
        rw [hcount, hassertions'']
        exact hassertions'.trans hassertions

end

/-- A synchronisation that ended, made again amid other writers with the same answers of the broker: each of its calls leaves
    the journal, or adds an event without an identity. It states nothing and binds nothing. -/
theorem sync_again_records_nothing {refuses refuses' : Event → Option String} {context : Context} {broker : BrokerChannel}
    {request : Request} {draws draws' : Draws} {s t u : Store} {own own' : List (Store × Store)} {result : SyncOutcome}
    {r : Result SyncError SyncOutcome} (hinj : Function.Injective draws.event)
    (hfree : ∀ recorded ∈ s.journal, ∀ n, recorded.id ≠ draws.event n)
    (hfirst : Amid (serve refuses) (Others request fun id => ∃ n, id = draws.event n)
      (syncBroker context broker request draws) s own
      (.ok result) t)
    (hagain : Amid (serve refuses') (Others request fun _ => False) (syncBroker context broker request draws') t own' r u) :
    (∀ m ∈ own', m.2.journal = m.1.journal ∨ ∃ e, ¬ Identified e ∧ m.2.journal = m.1.journal ++ [e]) ∧
      ∀ result', r = .ok result' → result'.assertions = 0 ∧ result'.bindingRecorded = false := by
  obtain ⟨number, parsed, snapshot, hbound, hparsed, hsnapshot, hsettled⟩ :
      ∃ number parsed snapshot, boundNumber request t = some number ∧ broker.operations number = .ok parsed ∧
        portfolioOf broker request number parsed = .ok snapshot ∧ Settled context broker request t.journal parsed snapshot := by
    rcases syncBroker_cases Others.refl (fun _ _ _ => Others.trans) hfirst with ⟨e, he, -⟩ |
      ⟨a, b, c, inner, -, hsa, hinner, hbc, hct⟩
    · cases he
    · have hfree' : ∀ recorded ∈ a.journal, ∀ n, recorded.id ≠ draws.event n := by
        obtain ⟨later, hlater, hnot⟩ := hsa.journal
        intro recorded hin n hid
        rw [hlater] at hin
        rcases List.mem_append.mp hin with hin | hin
        · exact hfree recorded hin n hid
        · exact hnot recorded hin ⟨n, hid⟩
      obtain ⟨number, parsed, snapshot, hbound, hparsed, hsnapshot, hsettled⟩ := first_claimed
        (s := { a with running := (request.principal.owner, request.account) :: a.running }) hinj hfree' hinner
      exact ⟨number, parsed, snapshot, hct.binding.trans (hbc.binding.trans hbound), hparsed, hsnapshot,
        hsettled.grows (hbc.grows.trans hct.grows)⟩
  rcases syncBroker_cases Others.refl (fun _ _ _ => Others.trans) hagain with ⟨e, rfl, ⟨rfl, -⟩ | ⟨v, rfl, -⟩⟩ |
    ⟨a, b, c, inner, rfl, hta, hinner, hbc, hcu⟩
  · exact ⟨fun m hm => (nomatch hm), fun result hr => (nomatch hr)⟩
  · exact ⟨fun m hm => by rw [List.mem_singleton.mp hm]; exact .inl rfl, fun result hr => (nomatch hr)⟩
  · obtain ⟨hrepeats, hresult⟩ := again_claimed
      (s := { a with running := (request.principal.owner, request.account) :: a.running }) hsettled (hta.binding.trans hbound)
      hparsed hsnapshot hta.grows hinner
    refine ⟨fun m hm => ?_, hresult⟩
    rcases List.mem_cons.mp hm with rfl | hm
    · exact .inl rfl
    · rcases List.mem_append.mp hm with hm | hm
      · exact hrepeats m hm
      · rw [List.mem_singleton.mp hm]
        exact .inl rfl

/-- The month, synchronised again. -/
def octoberAgain : Result SyncError SyncOutcome × Store :=
  run (serve fun _ => none) (octoberSync 200) (run (serve fun _ => none) (octoberSync 100) emptyStore).2

theorem october_again : ∃ result, octoberAgain.1 = .ok result ∧ result.assertions = 0 ∧ result.bindingRecorded = false := by
  obtain ⟨result, hresult⟩ := exists_ok (show (run (serve fun _ => none) (octoberSync 100) emptyStore).1.isOk = true by
    decide +kernel)
  obtain ⟨result', hresult'⟩ := exists_ok (show octoberAgain.1.isOk = true by decide +kernel)
  have hfirst : Amid (serve fun _ => none) (Others octoberRequest fun id => ∃ n, id = (drawsFrom 100).event n) (octoberSync 100)
    emptyStore _ _ _ := Amid.of_run Others.refl (octoberSync 100) emptyStore
  have hagain : Amid (serve fun _ => none) (Others octoberRequest fun _ => False) (octoberSync 200) _ _ octoberAgain.1
    octoberAgain.2 := Amid.of_run Others.refl (octoberSync 200) _
  rw [hresult] at hfirst
  have hinj : Function.Injective (drawsFrom 100).event := fun n m h => by
    simpa [drawsFrom] using h
  exact ⟨result', hresult', (sync_again_records_nothing hinj (fun recorded hin => absurd hin (List.not_mem_nil : recorded ∉ []))
    hfirst hagain).2 result' hresult'⟩

/-! ### The questions of a channel -/

/-- Whose refused rows, from which source. -/
structure Channel where
  owner : OwnerId
  account : AccountId
  source : String

def Channel.has (channel : Channel) (record : SyncRefusalRecord) : Prop :=
  record.owner = channel.owner ∧ record.account = channel.account ∧ record.source = channel.source

instance (channel : Channel) : DecidablePred channel.has := fun _ => inferInstanceAs (Decidable (_ ∧ _ ∧ _))

def Channel.rows (channel : Channel) (records : List SyncRefusalRecord) : List SyncRefusalRecord :=
  records.filter fun record => channel.has record

/-- The question about a row is open, over the days that are asked about, or it is not. -/
structure Tracks (channel : Channel) (key : String) (asked : Option (String × String)) (records : List SyncRefusalRecord) :
    Prop where
  days : ∀ record ∈ channel.rows records, record.rowKey = key → record.settled = false →
    asked = some (record.rangeFrom, record.rangeTo)
  «open» : asked.isSome → ∃ record ∈ channel.rows records, record.rowKey = key ∧ record.settled = false

section
variable {channel : Channel} {key : String} {asked : Option (String × String)} {records records' : List SyncRefusalRecord}
  {record held : SyncRefusalRecord}

theorem Channel.mem_rows : record ∈ channel.rows records ↔ record ∈ records ∧ channel.has record := by
  simp [Channel.rows]

theorem Tracks.congr (h : Tracks channel key asked records) (hrows : channel.rows records' = channel.rows records) :
    Tracks channel key asked records' := by
  refine ⟨?_, ?_⟩
  · rw [hrows]
    exact h.days
  · rw [hrows]
    exact h.open

theorem sameRow_iff (hrecord : channel.has record) :
    SyncRefusals.sameRow record held = true ↔ channel.has held ∧ held.rowKey = record.rowKey := by
  obtain ⟨howner, haccount, hsource⟩ := hrecord
  simp only [SyncRefusals.sameRow, Channel.has, Bool.and_eq_true, decide_eq_true_eq, howner, haccount, hsource, and_assoc]
  constructor
  · rintro ⟨h, h', h'', h'''⟩
    exact ⟨h.symm, h'.symm, h''.symm, h'''.symm⟩
  · rintro ⟨h, h', h'', h'''⟩
    exact ⟨h.symm, h'.symm, h''.symm, h'''.symm⟩

theorem mem_upsert {other : SyncRefusalRecord} : other ∈ SyncRefusals.upsertSyncRefusal record records ↔
    (∃ held ∈ records, SyncRefusals.sameRow record held = true ∧ other = SyncRefusals.refreshed held record) ∨
      (other ∈ records ∧ SyncRefusals.sameRow record other ≠ true) ∨
        other = record ∧ ∀ held ∈ records, SyncRefusals.sameRow record held ≠ true := by
  unfold SyncRefusals.upsertSyncRefusal
  by_cases hany : records.any (SyncRefusals.sameRow record) = true
  · rw [if_pos hany, List.mem_map]
    obtain ⟨held', hin', hsame'⟩ := List.any_eq_true.mp hany
    constructor
    · rintro ⟨held, hin, rfl⟩
      by_cases hsame : SyncRefusals.sameRow record held = true
      · exact .inl ⟨held, hin, hsame, by rw [if_pos hsame]⟩
      · rw [if_neg hsame]
        exact .inr (.inl ⟨hin, hsame⟩)
    · rintro (⟨held, hin, hsame, rfl⟩ | ⟨hin, hnot⟩ | ⟨-, hnone⟩)
      · exact ⟨held, hin, by rw [if_pos hsame]⟩
      · exact ⟨other, hin, by rw [if_neg hnot]⟩
      · exact absurd hsame' (hnone held' hin')
  · have hnone : ∀ held ∈ records, SyncRefusals.sameRow record held ≠ true := by
      intro held hin hsame
      exact hany (List.any_eq_true.mpr ⟨held, hin, hsame⟩)
    rw [if_neg hany, List.mem_append, List.mem_singleton]
    constructor
    · rintro (hin | rfl)
      · exact .inr (.inl ⟨hin, hnone other hin⟩)
      · exact .inr (.inr ⟨rfl, hnone⟩)
    · rintro (⟨held, hin, hsame, -⟩ | ⟨hin, -⟩ | ⟨rfl, -⟩)
      · exact absurd hsame (hnone held hin)
      · exact .inl hin
      · exact .inr rfl

/-- A refused row is asked about over the days of its refusal. -/
theorem Tracks.upsert (h : Tracks channel key asked records) (hrecord : channel.has record) (hopen : record.settled = false) :
    Tracks channel key (if record.rowKey = key then some (record.rangeFrom, record.rangeTo) else asked)
      (SyncRefusals.upsertSyncRefusal record records) := by
  refine ⟨fun other hother hkey hsettled => ?_, fun hsome => ?_⟩
  · obtain ⟨hother, hhas⟩ := Channel.mem_rows.mp hother
    rcases mem_upsert.mp hother with ⟨held, hin, hsame, rfl⟩ | ⟨hin, hnot⟩ | ⟨rfl, -⟩
    · rw [if_pos (((sameRow_iff hrecord).mp hsame).2.symm.trans hkey)]
      rfl
    · rw [if_neg fun hsame => hnot ((sameRow_iff hrecord).mpr ⟨hhas, hkey.trans hsame.symm⟩)]
      exact h.days other (Channel.mem_rows.mpr ⟨hin, hhas⟩) hkey hsettled
    · rw [if_pos hkey]
  · by_cases hkey : record.rowKey = key
    · by_cases hheld : ∃ held ∈ records, SyncRefusals.sameRow record held = true
      · obtain ⟨held, hin, hsame⟩ := hheld
        obtain ⟨hhas, hheldKey⟩ := (sameRow_iff hrecord).mp hsame
        exact ⟨SyncRefusals.refreshed held record, Channel.mem_rows.mpr ⟨mem_upsert.mpr (.inl ⟨held, hin, hsame, rfl⟩), hhas⟩,
          hheldKey.trans hkey, rfl⟩
      · have hnone : ∀ held ∈ records, SyncRefusals.sameRow record held ≠ true := fun held hin hsame => hheld ⟨held, hin, hsame⟩
        exact ⟨record, Channel.mem_rows.mpr ⟨mem_upsert.mpr (.inr (.inr ⟨rfl, hnone⟩)), hrecord⟩, hkey, hopen⟩
    · rw [if_neg hkey] at hsome
      obtain ⟨other, hother, hotherKey, hsettled⟩ := h.open hsome
      obtain ⟨hin, hhas⟩ := Channel.mem_rows.mp hother
      have hnot : SyncRefusals.sameRow record other ≠ true := fun hsame =>
        hkey (((sameRow_iff hrecord).mp hsame).2.symm.trans hotherKey)
      exact ⟨other, Channel.mem_rows.mpr ⟨mem_upsert.mpr (.inr (.inl ⟨hin, hnot⟩)), hhas⟩, hotherKey, hsettled⟩

/-- Days that lie within others, in the order of their texts. -/
def coversDays (outer inner : String × String) : Bool := outer.1 ≤ inner.1 && inner.2 ≤ outer.2

/-- A question that is not among those named is settled over covered days. -/
theorem Tracks.settle (h : Tracks channel key asked records) (filter : SyncRefusalFilter) (keys : List String)
    (hfilter : channel = ⟨filter.owner, filter.account, filter.source⟩) :
    Tracks channel key (if key ∈ keys then asked else asked.filter fun days => !coversDays (filter.from, filter.to) days)
      (SyncRefusals.settleSyncRefusalsBesides filter keys records) := by
  subst hfilter
  have hcovered : ∀ record, Channel.has ⟨filter.owner, filter.account, filter.source⟩ record → record.settled = false →
      SyncRefusals.covered filter record = coversDays (filter.from, filter.to) (record.rangeFrom, record.rangeTo) := by
    rintro record ⟨howner, haccount, hsource⟩ hsettled
    simp [SyncRefusals.covered, coversDays, howner, haccount, hsource, hsettled]
  refine ⟨fun other hother hkey hsettled => ?_, fun hsome => ?_⟩
  · obtain ⟨hother, hhas⟩ := Channel.mem_rows.mp hother
    obtain ⟨record, hin, rfl⟩ := List.mem_map.mp hother
    by_cases hsettles : (SyncRefusals.covered filter record && !keys.contains record.rowKey) = true
    · rw [if_pos hsettles] at hsettled
      cases hsettled
    · rw [if_neg hsettles] at hhas hkey hsettled ⊢
      have hdays := h.days record (Channel.mem_rows.mpr ⟨hin, hhas⟩) hkey hsettled
      rw [hcovered record hhas hsettled, hkey] at hsettles
      split
      · exact hdays
      · next hnot =>
        have hclear : coversDays (filter.from, filter.to) (record.rangeFrom, record.rangeTo) = false := by
          simpa [hnot] using hsettles
        rw [hdays, Option.filter_some, hclear]
        rfl
  · have hkept : ∀ record ∈ records, Channel.has ⟨filter.owner, filter.account, filter.source⟩ record → record.rowKey = key →
        record.settled = false → (key ∈ keys ∨ coversDays (filter.from, filter.to) (record.rangeFrom, record.rangeTo) = false) →
        ∃ other ∈ Channel.rows ⟨filter.owner, filter.account, filter.source⟩
          (SyncRefusals.settleSyncRefusalsBesides filter keys records), other.rowKey = key ∧ other.settled = false := by
      intro record hin hhas hkey hsettled hnot
      have hsettles : ¬ (SyncRefusals.covered filter record && !keys.contains record.rowKey) = true := by
        rw [hcovered record hhas hsettled, hkey]
        rcases hnot with hnot | hnot <;> simp [hnot]
      refine ⟨record, Channel.mem_rows.mpr ⟨List.mem_map.mpr ⟨record, hin, ?_⟩, hhas⟩, hkey, hsettled⟩
      rw [if_neg hsettles]
    split at hsome
    · next hnamed =>
      obtain ⟨record, hrow, hkey, hsettled⟩ := h.open hsome
      obtain ⟨hin, hhas⟩ := Channel.mem_rows.mp hrow
      exact hkept record hin hhas hkey hsettled (.inl hnamed)
    · obtain ⟨days, hdays⟩ := Option.isSome_iff_exists.mp hsome
      obtain ⟨hasked, hnot⟩ := Option.filter_eq_some_iff.mp hdays
      obtain ⟨record, hrow, hkey, hsettled⟩ := h.open (by rw [hasked]; rfl)
      obtain ⟨hin, hhas⟩ := Channel.mem_rows.mp hrow
      rw [h.days record hrow hkey hsettled] at hasked
      cases hasked
      exact hkept record hin hhas hkey hsettled (.inr (by simpa using hnot))

/-- What is asked about a row after refused rows were kept. -/
def askedAfter (refused : List String) (days : String × String) (settle : Bool) (key : String)
    (asked : Option (String × String)) :
    Option (String × String) :=
  if key ∈ refused then some days else if settle then asked.filter fun days' => !coversDays days days' else asked

end

/-- The channel that a synchronisation refuses rows of. -/
def channelOf (broker : BrokerChannel) (request : Request) : Channel :=
  ⟨request.principal.owner, request.account, broker.channel.source.text⟩

/-- The days that a request asks about, as they are stored. -/
def daysOf (request : Request) : String × String := (request.from.text, request.to.text)

/-- What the others may do meanwhile: they leave the rows of the channel as well. -/
structure Apart (request : Request) (channel : Channel) (s t : Store) : Prop extends Others request (fun _ => False) s t where
  rows : channel.rows t.refusals = channel.rows s.refusals

section
variable {channel : Channel} {key : String} {asked : Option (String × String)} {records : List SyncRefusalRecord}

theorem Apart.refl (s : Store) : Apart request channel s s := ⟨Others.refl s, rfl⟩

theorem Apart.trans (s t u : Store) (h : Apart request channel s t) (h' : Apart request channel t u) :
    Apart request channel s u :=
  ⟨h.toOthers.trans h'.toOthers, h'.rows.trans h.rows⟩

theorem tracks_upsertRefusals
    (hall : ∀ record ∈ records, channel.has record ∧ record.settled = false ∧
      (record.rangeFrom, record.rangeTo) = daysOf request)
    (ht : Tracks channel key asked s.refusals)
    (h : Amid (serve refuses) (Apart request channel) (upsertRefusals records) s own (.ok ()) u) :
    Tracks channel key
      (if key ∈ records.map SyncRefusalRecord.rowKey then some (daysOf request) else asked) u.refusals := by
  induction records generalizing s own asked with
  | nil =>
    obtain ⟨-, -, hrely⟩ := Amid.of_done h
    exact ht.congr hrely.rows
  | cons record records ih =>
    obtain ⟨hhas, hopen, hdays⟩ := hall record List.mem_cons_self
    obtain ⟨_, first, rest, v, -, hask, h⟩ := Amid.bind_ok Apart.refl h
    obtain ⟨t, hst, -, -, htv⟩ := hask.ask
    have hasked := ((ht.congr hst.rows).upsert hhas hopen).congr htv.rows
    have hrest := ih (fun record hin => hall record (List.mem_cons_of_mem _ hin)) hasked h
    have hsame : (if key ∈ (record :: records).map SyncRefusalRecord.rowKey then some (daysOf request) else asked) =
        if key ∈ records.map SyncRefusalRecord.rowKey then some (daysOf request)
        else if record.rowKey = key then some (daysOf request) else asked := by
      by_cases hkey : record.rowKey = key
      · simp [hkey]
      · simp [hkey, Ne.symm hkey]
    rw [hsame, ← hdays]
    rw [← hdays] at hrest
    exact hrest

theorem tracks_keepRefusalQuestions {settle : Bool} (hchannel : channel = channelOf broker request)
    (hall : ∀ record ∈ records, channel.has record ∧ record.settled = false ∧
      (record.rangeFrom, record.rangeTo) = daysOf request)
    (ht : Tracks channel key asked s.refusals)
    (h : Amid (serve refuses) (Apart request channel) (keepRefusalQuestions broker request records settle) s own (.ok ()) u) :
    Tracks channel key (askedAfter (records.map SyncRefusalRecord.rowKey) (daysOf request) settle key asked) u.refusals := by
  obtain ⟨_, first, rest, v, -, hupserts, h⟩ := Amid.bind_ok Apart.refl h
  have hasked := tracks_upsertRefusals hall ht hupserts
  cases settle with
  | false =>
    obtain ⟨-, -, hrely⟩ := Amid.of_done h
    exact hasked.congr hrely.rows
  | true =>
    obtain ⟨t, hvt, -, -, htu⟩ := Amid.ask h
    refine Tracks.congr ?_ htu.rows
    have hsettled := (hasked.congr hvt.rows).settle (refusalFilter broker request)
      (records.map SyncRefusalRecord.rowKey) hchannel
    by_cases hnamed : key ∈ records.map SyncRefusalRecord.rowKey
    · rw [if_pos hnamed, if_pos hnamed] at hsettled
      rw [askedAfter, if_pos hnamed]
      exact hsettled
    · rw [if_neg hnamed, if_neg hnamed] at hsettled
      rw [askedAfter, if_neg hnamed, if_pos rfl]
      exact hsettled

end

/-! ### What a synchronisation asks -/

def rowKeys (rows : List RefusedRow) : List String := rows.map fun row => rowNameText row.key.row

/-- What a synchronisation will keep as questions are the rows that it refused. -/
structure Asks (broker : BrokerChannel) (request : Request) (p : Progress) : Prop where
  keys : p.refusalRecords.map SyncRefusalRecord.rowKey = rowKeys p.refusals
  records : ∀ record ∈ p.refusalRecords,
    (channelOf broker request).has record ∧ record.settled = false ∧ (record.rangeFrom, record.rangeTo) = daysOf request

theorem Asks.setAside (h : Asks broker request p) (row : RefusedRow) (reason payload : String) :
    Asks broker request (p.setAside broker request draws row reason payload) := by
  refine ⟨?_, fun record hin => ?_⟩
  · simp only [Progress.setAside, rowKeys, List.map_append, h.keys]
    rfl
  · rcases List.mem_append.mp hin with hin | hin
    · exact h.records record hin
    · rw [List.mem_singleton.mp hin]
      exact ⟨⟨rfl, rfl, rfl⟩, rfl, rfl⟩

theorem Asks.of_eq (h : Asks broker request p) (hrefusals : q.refusals = p.refusals)
    (hrecords : q.refusalRecords = p.refusalRecords) : Asks broker request q := by
  refine ⟨?_, ?_⟩
  · rw [hrecords, hrefusals]
    exact h.keys
  · rw [hrecords]
    exact h.records

theorem asks_quarantine (rows : List Quarantined) (h : Asks broker request p) :
    Asks broker request (rows.foldl (Progress.quarantine context broker request draws) p) := by
  induction rows generalizing p with
  | nil => exact h
  | cons row rows ih => exact ih (h.setAside _ _ _)

section
variable {operations : List SubmittedOperation} (hrefl : ∀ s, Rely s s) (htrans : ∀ s t u, Rely s t → Rely t u → Rely s u)
include hrefl htrans

theorem asks_operations (hp : Asks broker request p)
    (h : Amid (serve refuses) Rely (takeOperations context broker request draws operations p) s own (.ok q) u) :
    Asks broker request q ∧ q.refusals = p.refusals ++ refusedOf context broker request operations := by
  refine (Amid.foldIdx hrefl (fun taken _ _ p' => Asks broker request p' ∧
    p'.refusals = p.refusals ++ refusedOf context broker request taken) (fun _ => True) [] [] ?_ ?_
      ⟨hp, by simp [refusedOf]⟩ h).2 q rfl
  · exact fun h _ => h
  · rintro taken before s operation p' own r u - ⟨hp, hrefusals⟩ h
    refine ⟨fun _ _ => trivial, fun q hq => ?_⟩
    rw [refusedOf_append, ← List.append_assoc, ← hrefusals]
    rcases taken_of_takeOperation hrefl htrans h with ⟨rejection, hrejected, rfl, rfl, hrely⟩ | ⟨-, rfl, -, -⟩ |
      ⟨e, hint, hcandidate, htaken⟩
    · cases hq
      rw [rejectionOf_of_rejected hrejected]
      exact ⟨(hp.setAside _ _ _).of_eq rfl rfl, rfl⟩
    · cases hq
    · subst hq
      obtain ⟨hsame, hrecords, -⟩ := htaken.refusals
      rw [rejectionOf_of_ok hcandidate, hsame]
      exact ⟨hp.of_eq hsame hrecords, (List.append_nil _).symm⟩

theorem gap_refusals (h : Amid (serve refuses) Rely (takeGap context broker request draws i p) s own (.ok q) u) :
    q.refusals = p.refusals ∧ q.refusalRecords = p.refusalRecords := by
  unfold takeGap at h
  cases hgap : coverageGapEvent context broker request (draws.event i) p.refusals with
  | none =>
    rw [hgap] at h
    obtain ⟨hr, -, -⟩ := Amid.of_done h
    cases hr
    exact ⟨rfl, rfl⟩
  | some gap =>
    rw [hgap] at h
    obtain ⟨-, -, -, -, hoperation, hkey⟩ := coverageGapEvent_some hgap
    have htaken := taken_of_takeStatement hrefl htrans hoperation (by rw [hkey]; rfl) h
    exact ⟨htaken.refusals.1, htaken.refusals.2.1⟩

theorem claims_refusals {n : Nat} {claims : List ControlClaim}
    (h : Amid (serve refuses) Rely (takeClaims context broker request draws n claims p) s own (.ok q) u) :
    q.refusals = p.refusals ∧ q.refusalRecords = p.refusalRecords := by
  refine (Amid.foldIdx hrefl (fun _ _ _ p' => p'.refusals = p.refusals ∧ p'.refusalRecords = p.refusalRecords)
    (fun _ => True) [] [] ?_ ?_ ⟨rfl, rfl⟩ h).2 q rfl
  · exact fun h _ => h
  · rintro taken before s claim p' own r u - ⟨hrefusals, hrecords⟩ h
    refine ⟨fun _ _ => trivial, fun q hq => ?_⟩
    subst hq
    obtain ⟨q', first, rest, v, -, hfirst, h⟩ := h.bind_ok hrefl
    have htaken := taken_of_takeStatement hrefl htrans rfl rfl hfirst
    have hend : q.refusals = q'.refusals ∧ q.refusalRecords = q'.refusalRecords := by
      split at h
      all_goals
        obtain ⟨hr, -, -⟩ := Amid.of_done h
        cases hr
        exact ⟨rfl, rfl⟩
    exact ⟨hend.1.trans (htaken.refusals.1.trans hrefusals), hend.2.trans (htaken.refusals.2.1.trans hrecords)⟩

end

/-! ### One attempt -/

section
variable {channel : Channel} {key : String} {asked : Option (String × String)}

/-- What leaves the questions. -/
theorem tracks_of_makes {α : Type} {P : Synchronisation α} {r : Result SyncError α} (ht : Tracks channel key asked s.refusals)
    (hP : P.Makes fun op => Quiet op ∨ Appends op) (h : Amid (serve refuses) (Apart request channel) P s own r u) :
    Tracks channel key asked u.refusals := by
  refine ht.congr (h.moves (fun s u => channel.rows u.refusals = channel.rows s.refusals) ?_ ?_ ?_ hP)
  · exact fun s t u h h' => h'.trans h
  · exact fun s t h => h.rows
  · rintro op s (hquiet | happends)
    · rw [(serve_quiet hquiet s).2]
    · cases op with
      | append scope e =>
        simp only [serve]
        cases appendEventInOrder refuses scope s.journal e <;> rfl
      | _ => cases happends

theorem tracks_portfolio {n : Nat} {snapshot : Option PortfolioSnapshot} {recorded : Bool} {r : Result SyncError SyncOutcome}
    (hchannel : channel = channelOf broker request) (hp : Asks broker request p) (ht : Tracks channel key asked s.refusals)
    (h : Amid (serve refuses) (Apart request channel) (takePortfolio context broker request draws n snapshot recorded p) s own r
      u) :
    (∃ e, r = .error e ∧ Tracks channel key asked u.refusals) ∨ ∃ result, r = .ok result ∧
      Tracks channel key
        (askedAfter (rowKeys p.refusals) (daysOf request) (affirms request snapshot) key asked) u.refusals := by
  have hmakes : (takeClaims context broker request draws n (statedClaims request snapshot) p).Makes
      fun op => Quiet op ∨ Appends op := makes_takeClaims.mono fun _ => .inr
  rcases takePortfolio_cases Apart.refl h with ⟨e, rfl, hstop⟩ | ⟨q, withheld, first, rest, v, w, -, hclaims, hkeep, hrely, rfl⟩
  · exact .inl ⟨e, rfl, tracks_of_makes ht hmakes hstop⟩
  · obtain ⟨hrefusals, hrecords⟩ := claims_refusals Apart.refl Apart.trans hclaims
    have hasks := hp.of_eq hrefusals hrecords
    have hall : ∀ record ∈ q.refusalRecords, channel.has record ∧ record.settled = false ∧
        (record.rangeFrom, record.rangeTo) = daysOf request := by
      rw [hchannel]
      exact hasks.records
    have hkept := tracks_keepRefusalQuestions hchannel hall (tracks_of_makes ht hmakes hclaims) hkeep
    rw [hasks.keys, hrefusals] at hkept
    exact .inr ⟨_, rfl, hkept.congr hrely.rows⟩

theorem tracks_claimed {r : Result SyncError SyncOutcome} (hchannel : channel = channelOf broker request)
    (ht : Tracks channel key asked s.refusals)
    (h : Amid (serve refuses) (Apart request channel) (syncClaimed context broker request draws) s own r u) :
    (∃ e, r = .error e ∧ Tracks channel key asked u.refusals) ∨ ∃ result number parsed snapshot, r = .ok result ∧
      boundNumber request u = some number ∧ broker.operations number = .ok parsed ∧
        portfolioOf broker request number parsed = .ok snapshot ∧
          Tracks channel key (askedAfter (rowKeys (refusedRows context broker request parsed snapshot)) (daysOf request)
            (affirms request snapshot) key asked) u.refusals := by
  have hothers : ∀ s t, Apart request channel s t → Others request (fun _ => False) s t := fun s t h => h.toOthers
  rcases h.bind_cases Apart.refl with ⟨e, rfl, hstop⟩ | ⟨got, first, rest, t, -, hfetch, h⟩
  · exact .inl ⟨e, rfl, tracks_of_makes ht (makes_fetch.mono fun _ => .inl) hstop⟩
  obtain ⟨⟨number, hbound, hparsed, hsnapshot⟩, -, -⟩ := amid_fetch Apart.refl Apart.trans hothers hfetch
  have htracks := tracks_of_makes ht (makes_fetch.mono fun _ => .inl) hfetch
  have hmakes {operations p} : (takeOperations context broker request draws operations p).Makes
    fun op => Quiet op ∨ Appends op :=
    makes_takeOperations.mono fun _ => .inr
  rcases Amid.bind_cases Apart.refl h with ⟨e, rfl, hstop⟩ | ⟨q, second, rest', v, -, hoperations, h⟩
  · exact .inl ⟨e, rfl, tracks_of_makes htracks hmakes hstop⟩
  have htracks' := tracks_of_makes htracks hmakes hoperations
  have hstarted : Asks broker request
      (started context broker request draws got.bounded (quarantinedRows got.parsed got.snapshot)) :=
    asks_quarantine _ ⟨rfl, fun record hin => (nomatch hin)⟩
  obtain ⟨hasks, hrefused⟩ := asks_operations Apart.refl Apart.trans hstarted hoperations
  rw [started, (foldl_quarantine _ _).1] at hrefused
  have hrows : q.refusals = refusedRows context broker request got.parsed got.snapshot := hrefused
  have hbound' := (moves_writes (makes_takeOperations.mono fun _ => .inl) (hoperations.mono hothers)).2
  unfold takeStatements at h
  dsimp only at h
  split at h
  · obtain ⟨rfl, -, hrely⟩ := Amid.of_stop h
    exact .inl ⟨_, rfl, htracks'.congr hrely.rows⟩
  have hgapMakes {i p} : (takeGap context broker request draws i p).Makes fun op => Quiet op ∨ Appends op :=
    makes_takeGap.mono fun _ => .inr
  rcases Amid.bind_cases Apart.refl h with ⟨e, rfl, hstop⟩ | ⟨q', third, rest'', w, -, hgap, h⟩
  · exact .inl ⟨e, rfl, tracks_of_makes htracks' hgapMakes hstop⟩
  obtain ⟨hrefusals, hrecords⟩ := gap_refusals Apart.refl Apart.trans hgap
  have hbound'' := (moves_writes (makes_takeGap.mono fun _ => .inl) (hgap.mono hothers)).2
  have hbound''' := (moves_writes makes_takePortfolio (h.mono hothers)).2
  rcases tracks_portfolio hchannel (hasks.of_eq hrefusals hrecords) (tracks_of_makes htracks' hgapMakes hgap) h with
    ⟨e, rfl, herror⟩ | ⟨result, rfl, hlast⟩
  · exact .inl ⟨e, rfl, herror⟩
  · have hsame : q'.refusals = refusedRows context broker request got.parsed got.snapshot := hrefusals.trans hrows
    rw [hsame] at hlast
    exact .inr ⟨result, number, got.parsed, got.snapshot, rfl, hbound'''.trans (hbound''.trans (hbound'.trans hbound)), hparsed,
      hsnapshot, hlast⟩

end

/-! ### Attempts one after another -/

/-- An attempt to synchronise, how it ended, and the store then. -/
structure Attempt where
  broker : BrokerChannel
  request : Request
  draws : Draws
  result : Result SyncError SyncOutcome
  left : Store

namespace Attempt

/-- What the broker answered to an attempt that did not fail. -/
def answers (a : Attempt) : Option (ParsedOperations × Option PortfolioSnapshot) :=
  match a.result with
  | .error _ => none
  | .ok _ =>
    (boundNumber a.request a.left).bind fun number => (a.broker.operations number).toOption.bind fun parsed =>
      (portfolioOf a.broker a.request number parsed).toOption.map fun snapshot => (parsed, snapshot)

/-- The keys of the rows that it refused. -/
def refused (context : Context) (a : Attempt) : List String :=
  match a.answers with
  | none => []
  | some (parsed, snapshot) => rowKeys (refusedRows context a.broker a.request parsed snapshot)

/-- Whether it read everything, and could state it. -/
def complete (a : Attempt) : Bool :=
  match a.answers with
  | none => false
  | some (_, snapshot) => affirms a.request snapshot

/-- A later attempt answers the question of a row that an earlier one refused: it refuses the row itself, or it is complete over
    all days of the earlier one. -/
def Answers (context : Context) (key : String) (later earlier : Attempt) : Prop :=
  key ∈ later.refused context ∨ later.complete = true ∧ coversDays (daysOf later.request) (daysOf earlier.request) = true

end Attempt

/-- Attempts on one channel, one after another, amid others who leave its rows. -/
inductive History (refuses : Event → Option String) (context : Context) (channel : Channel) : Store → List Attempt →
    Store → Prop
  | rest {s : Store} : History refuses context channel s [] s
  | others {s t u : Store} {attempts : List Attempt} : channel.rows t.refusals = channel.rows s.refusals →
      History refuses context channel t attempts u → History refuses context channel s attempts u
  | attempt {a : Attempt} {s u : Store} {own : List (Store × Store)} {attempts : List Attempt} :
      channel = channelOf a.broker a.request →
      Amid (serve refuses) (Apart a.request channel) (syncBroker context a.broker a.request a.draws) s own a.result a.left →
      History refuses context channel a.left attempts u → History refuses context channel s (a :: attempts) u

/-- What is asked about a row after attempts. -/
def askedOf (context : Context) (key : String) (attempts : List Attempt) (asked : Option (String × String)) :
    Option (String × String) :=
  attempts.foldl (fun asked a => askedAfter (a.refused context) (daysOf a.request) a.complete key asked) asked

section
variable {channel : Channel} {key : String} {asked : Option (String × String)} {attempts : List Attempt} {a : Attempt}

theorem tracks_attempt (hchannel : channel = channelOf a.broker a.request) (ht : Tracks channel key asked s.refusals)
    (h : Amid (serve refuses) (Apart a.request channel) (syncBroker context a.broker a.request a.draws) s own a.result a.left) :
    Tracks channel key (askedAfter (a.refused context) (daysOf a.request) a.complete key asked) a.left.refusals := by
  have herror : ∀ e, a.result = .error e → Tracks channel key asked a.left.refusals →
      Tracks channel key (askedAfter (a.refused context) (daysOf a.request) a.complete key asked) a.left.refusals := by
    intro e he htracks
    have hnone : a.answers = none := by rw [Attempt.answers, he]
    have hsame : askedAfter (a.refused context) (daysOf a.request) a.complete key asked = asked := by
      simp [askedAfter, Attempt.refused, Attempt.complete, hnone]
    rw [hsame]
    exact htracks
  rcases syncBroker_cases Apart.refl Apart.trans h with ⟨e, he, ⟨-, hrely⟩ | ⟨t, -, hst, htu⟩⟩ |
    ⟨b, c, d, inner, -, hsb, hinner, hcd, hdu⟩
  · exact herror e he (ht.congr hrely.rows)
  · exact herror e he (ht.congr (htu.rows.trans hst.rows))
  · have hclaimed := tracks_claimed (s := { b with running := (a.request.principal.owner, a.request.account) :: b.running })
      hchannel (ht.congr hsb.rows) hinner
    rcases hclaimed with ⟨e, he, htracks⟩ |
      ⟨result, number, parsed, snapshot, hresult, hbound, hparsed, hsnapshot, htracks⟩
    · exact herror e he (htracks.congr (hdu.rows.trans hcd.rows))
    · have hnow : boundNumber a.request a.left = some number := hdu.binding.trans (hcd.binding.trans hbound)
      have hanswers : a.answers = some (parsed, snapshot) := by
        simp [Attempt.answers, hresult, hnow, hparsed, hsnapshot, Except.toOption]
      have hrefused : a.refused context = rowKeys (refusedRows context a.broker a.request parsed snapshot) := by
        rw [Attempt.refused, hanswers]
      have hcomplete : a.complete = affirms a.request snapshot := by rw [Attempt.complete, hanswers]
      rw [hrefused, hcomplete]
      exact htracks.congr (hdu.rows.trans hcd.rows)

theorem History.tracks (h : History refuses context channel s attempts t) (ht : Tracks channel key asked s.refusals) :
    Tracks channel key (askedOf context key attempts asked) t.refusals := by
  induction h generalizing asked with
  | rest => exact ht
  | others hrows _ ih => exact ih (ht.congr hrows)
  | attempt hchannel hamid _ ih => exact ih (tracks_attempt hchannel ht hamid)

/-- The last of a list that counts, with nothing after it that undoes it, after one more. -/
theorem exists_last_concat {α : Type} {Counts : α → Prop} {Undoes : α → α → Prop} {l : List α} {b : α} :
    (∃ before a after, l ++ [b] = before ++ a :: after ∧ Counts a ∧ ∀ c ∈ after, ¬ Undoes c a) ↔
      Counts b ∨ ∃ before a after, l = before ++ a :: after ∧ Counts a ∧ (∀ c ∈ after, ¬ Undoes c a) ∧ ¬ Undoes b a := by
  constructor
  · rintro ⟨before, a, after, hsplit, ha, hafter⟩
    rcases List.eq_nil_or_concat after with rfl | ⟨after, c, rfl⟩
    · obtain ⟨-, hlast⟩ := List.append_inj' hsplit rfl
      cases hlast
      exact .inl ha
    · rw [List.concat_eq_append, ← List.cons_append, ← List.append_assoc] at hsplit
      obtain ⟨rfl, hlast⟩ := List.append_inj' hsplit rfl
      cases hlast
      refine .inr ⟨before, a, after, rfl, ha, fun c hc => hafter c ?_, hafter b ?_⟩ <;> simp [*]
  · rintro (hb | ⟨before, a, after, rfl, ha, hafter, hlast⟩)
    · exact ⟨l, b, [], rfl, hb, fun c hc => (nomatch hc)⟩
    · refine ⟨before, a, after ++ [b], by simp, ha, fun c hc => ?_⟩
      rcases List.mem_append.mp hc with hc | hc
      · exact hafter c hc
      · rw [List.mem_singleton.mp hc]
        exact hlast

/-- A row is asked about over the days of the last attempt that refused it, as long as no later one answers that. -/
theorem askedOf_eq_some {days : String × String} : askedOf context key attempts none = some days ↔
    ∃ before a after, attempts = before ++ a :: after ∧ (key ∈ a.refused context ∧ daysOf a.request = days) ∧
      ∀ b ∈ after, ¬ b.Answers context key a := by
  induction attempts using List.reverseRecOn generalizing days with
  | nil =>
    refine ⟨fun h => (nomatch h), ?_⟩
    rintro ⟨before, a, after, h, -⟩
    simp at h
  | append_singleton attempts b ih =>
    have hstep : askedOf context key (attempts ++ [b]) none =
        askedAfter (b.refused context) (daysOf b.request) b.complete key (askedOf context key attempts none) := by
      rw [askedOf, List.foldl_append]
      rfl
    rw [hstep, askedAfter, exists_last_concat]
    by_cases hkey : key ∈ b.refused context
    · rw [if_pos hkey, Option.some_inj]
      refine ⟨fun hdays => .inl ⟨hkey, hdays⟩, ?_⟩
      rintro (⟨-, hdays⟩ | ⟨_, _, _, -, -, -, hnot⟩)
      · exact hdays
      · exact absurd (.inl hkey) hnot
    · rw [if_neg hkey]
      have hnot : ∀ a : Attempt, b.Answers context key a ↔
          b.complete = true ∧ coversDays (daysOf b.request) (daysOf a.request) = true := fun a => or_iff_right hkey
      by_cases hcomplete : b.complete = true
      · rw [if_pos hcomplete, Option.filter_eq_some_iff, ih]
        constructor
        · rintro ⟨⟨before, a, after, rfl, ⟨hrefused, rfl⟩, hafter⟩, hcovers⟩
          refine .inr ⟨before, a, after, rfl, ⟨hrefused, rfl⟩, hafter, fun hanswers => ?_⟩
          rw [((hnot a).mp hanswers).2] at hcovers
          cases hcovers
        · rintro (⟨hrefused, -⟩ | ⟨before, a, after, rfl, ⟨hrefused, rfl⟩, hafter, hlast⟩)
          · exact absurd hrefused hkey
          · refine ⟨⟨before, a, after, rfl, ⟨hrefused, rfl⟩, hafter⟩, ?_⟩
            cases hcovers : coversDays (daysOf b.request) (daysOf a.request) with
            | false => rfl
            | true => exact absurd ((hnot a).mpr ⟨hcomplete, hcovers⟩) hlast
      · rw [if_neg hcomplete, ih]
        constructor
        · rintro ⟨before, a, after, rfl, hcounts, hafter⟩
          exact .inr ⟨before, a, after, rfl, hcounts, hafter, fun hanswers => hcomplete ((hnot a).mp hanswers).1⟩
        · rintro (⟨hrefused, -⟩ | ⟨before, a, after, rfl, hcounts, hafter, -⟩)
          · exact absurd hrefused hkey
          · exact ⟨before, a, after, rfl, hcounts, hafter⟩

end

/-- The questions of a channel after attempts to synchronise it, one after another: a row that was refused is asked about, over
    the days of the last attempt that refused it, unless a later one answers that. An attempt that fails asks and answers
    nothing. -/
theorem question_open_iff {refuses : Event → Option String} {context : Context} {channel : Channel} {s t : Store}
    {attempts : List Attempt} (hsettled : ∀ record ∈ channel.rows s.refusals, record.settled = true)
    (h : History refuses context channel s attempts t) (key : String) (days : String × String) :
    (∃ record ∈ channel.rows t.refusals, record.rowKey = key ∧ record.settled = false ∧
      (record.rangeFrom, record.rangeTo) = days) ↔
    ∃ before a after, attempts = before ++ a :: after ∧ (key ∈ a.refused context ∧ daysOf a.request = days) ∧
      ∀ b ∈ after, ¬ b.Answers context key a := by
  have hstart : Tracks channel key none s.refusals := by
    refine ⟨fun record hin _ hopen => ?_, fun h => (nomatch h)⟩
    rw [hsettled record hin] at hopen
    cases hopen
  have htracks := h.tracks hstart
  rw [← askedOf_eq_some]
  constructor
  · rintro ⟨record, hin, hkey, hopen, rfl⟩
    exact htracks.days record hin hkey hopen
  · intro hasked
    obtain ⟨record, hin, hkey, hopen⟩ := htracks.open (by rw [hasked]; rfl)
    have hdays := htracks.days record hin hkey hopen
    rw [hasked] at hdays
    exact ⟨record, hin, hkey, hopen, (Option.some.inj hdays).symm⟩

/-- The attempt of the month. -/
def octoberAttempt : Attempt where
  broker := octoberBroker
  request := octoberRequest
  draws := drawsFrom 100
  result := (run (serve fun _ => none) (octoberSync 100) emptyStore).1
  left := (run (serve fun _ => none) (octoberSync 100) emptyStore).2

/-- The row that the broker could not read is asked about. -/
theorem october_asks : ∃ record ∈ (channelOf octoberBroker octoberRequest).rows octoberAttempt.left.refusals,
    record.rowKey = "fingerprint:raw" ∧ record.settled = false ∧
      (record.rangeFrom, record.rangeTo) = daysOf octoberRequest := by
  have hsettled : ∀ record ∈ (channelOf octoberBroker octoberRequest).rows emptyStore.refusals, record.settled = true := by
    intro record hin
    cases (Channel.mem_rows.mp hin).1
  have hcourse : Amid (serve fun _ => none) (Apart octoberRequest (channelOf octoberBroker octoberRequest)) (octoberSync 100)
    emptyStore _ octoberAttempt.result octoberAttempt.left := Amid.of_run Apart.refl (octoberSync 100) emptyStore
  have hrefused : "fingerprint:raw" ∈ octoberAttempt.refused octoberContext := by decide +kernel
  exact (question_open_iff hsettled (.attempt rfl hcourse .rest) "fingerprint:raw" (daysOf octoberRequest)).mpr
    ⟨[], octoberAttempt, [], rfl, ⟨hrefused, rfl⟩, fun b hb => (nomatch hb)⟩

end Sync
end Iaam
