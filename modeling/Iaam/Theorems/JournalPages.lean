import Iaam.App.Journal
import Iaam.Lib.Pages
import Iaam.Theorems.CategoryIndex
import Iaam.Theorems.JournalStore
import Iaam.Theorems.RowCodec

/-! Reading the journal page after page while it is written to. No event is shown twice, none that was there from the start
is passed over, and a journal at rest is read as it stands, whatever the sizes of the pages. -/

namespace Iaam
namespace JournalPages
open Outcome JournalStore

/-! ### Writing between two pages -/

/-- The places of the events: within an owner they are all different, and their numbers have 32 bits. -/
structure Placed (journal : List Event) : Prop where
  apart : journal.Pairwise fun e f => e.owner = f.owner → e.cursor ≠ f.cursor
  sequence : ∀ e ∈ journal, e.order.sequence ≤ lastSequence

/-- One journal comes from another by writes. -/
inductive Grows : List Event → List Event → Prop
  | refl (journal : List Event) : Grows journal journal
  | write {journal later last : List Event} {refuses : Event → Option String} {scope : IdentityScope} {e : Event}
      {answer : Appended} : appendEventInOrder refuses scope journal e = .ok (answer, later) → Grows later last →
      Grows journal last

variable {journal later : List Event}

/-- A write puts the event at the end of the journal, at a place that is free, or leaves the journal as it was. -/
theorem write_cases {refuses : Event → Option String} {scope : IdentityScope} {e : Event} {answer : Appended}
    (h : appendEventInOrder refuses scope journal e = .ok (answer, later)) :
    later = journal ∨ later = journal ++ [stamp journal e] ∧ journal.any (clashes (stamp journal e)) = false := by
  rcases append_cases refuses scope journal e with ⟨existing, -, happend⟩ | ⟨-, ⟨-, hclash, happend⟩ | ⟨-, error, happend⟩⟩
  · rw [happend] at h
    cases h
    exact .inl rfl
  · rw [happend] at h
    cases h
    exact .inr ⟨rfl, hclash⟩
  · rw [happend] at h
    cases h

theorem Grows.subset (h : Grows journal later) : journal ⊆ later := by
  induction h with
  | refl => exact List.Subset.refl _
  | write hwrite _ ih =>
    rcases write_cases hwrite with rfl | ⟨rfl, -⟩
    · exact ih
    · exact List.Subset.trans (List.subset_append_left _ _) ih

/-- A number that is stamped has 32 bits. -/
theorem stamp_sequence_le (journal : List Event) (e : Event) : (stamp journal e).order.sequence ≤ lastSequence := by
  change ((usedSequence journal e.owner e.order.date).map fun used => min (used + 1) lastSequence).getD 1 ≤ lastSequence
  cases usedSequence journal e.owner e.order.date with
  | none => simp [lastSequence]
  | some used => exact Nat.min_le_right _ _

theorem Placed.stamped (h : Placed journal) {e : Event} (hclash : journal.any (clashes (stamp journal e)) = false) :
    Placed (journal ++ [stamp journal e]) where
  apart := by
    refine List.pairwise_append.mpr ⟨h.apart, List.pairwise_singleton _ _, fun recorded hrecorded new hnew howner heq => ?_⟩
    rw [List.mem_singleton.mp hnew] at howner heq
    have hfree := List.any_eq_false.mp hclash recorded hrecorded
    simp only [clashes, Bool.or_eq_true, Bool.and_eq_true, decide_eq_true_eq, not_or, not_and] at hfree
    obtain ⟨hdate, hsequence⟩ := JournalCursor.mk.inj heq
    exact (hfree.2 howner).2 hdate hsequence
  sequence e' he' := by
    rcases List.mem_append.mp he' with he' | he'
    · exact h.sequence e' he'
    · rw [List.mem_singleton.mp he']
      exact stamp_sequence_le journal e

theorem Grows.placed (h : Grows journal later) (hplaced : Placed journal) : Placed later := by
  induction h with
  | refl => exact hplaced
  | write hwrite _ ih =>
    rcases write_cases hwrite with rfl | ⟨rfl, hclash⟩
    · exact ih hplaced
    · exact ih (hplaced.stamped hclash)

/-! ### Positions as texts -/

/-- What the texts of the dates promise: they are read back, and none holds the colon of a position. -/
structure CursorTexts (c : TextCodecs) : Prop where
  date : ∀ d, c.parseDate (c.dateText d) = some d
  colon : ∀ d, ':' ∉ (c.dateText d).toList

theorem parseCursor_formatCursor {c : TextCodecs} (hc : CursorTexts c) {position : JournalCursor}
    (h : position.sequence ≤ lastSequence) : parseCursor c (formatCursor c position) = .ok position := by
  simp [parseCursor, formatCursor, Fields.splitOnce_append (hc.colon _), hc.date, Fields.parseUnsigned_numeral h]

/-! ### One page -/

/-- The key of the rows. -/
def position (e : Event) : Date ×ₗ Nat := e.cursor.position

theorem isAfter_iff {q : JournalQuery} {e : Event} :
    q.isAfter e = true ↔ Pages.Behind (q.after.map JournalCursor.position) (position e) := by
  unfold JournalQuery.isAfter
  cases q.after with
  | none => simp [Pages.Behind]
  | some c => simp [Pages.Behind, position, JournalCursor.position, Event.cursor, Prod.Lex.toLex_lt_toLex]

/-- The store that answers a listing. -/
def answering (toLowercase : String → String) (s : CategoryStore) (owner : OwnerId) (q : JournalQuery) : CategoryStore :=
  (listJournalEvents toLowercase s owner q).2

theorem answering_events (toLowercase : String → String) (s : CategoryStore) (owner : OwnerId) (q : JournalQuery) :
    (answering toLowercase s owner q).events = s.events := by
  unfold answering listJournalEvents
  dsimp only
  split
  · exact (StoredCategories.rebuild_frame toLowercase s owner).2
  · rfl

theorem journalRows_eq {s : CategoryStore} {owner : OwnerId} {q : JournalQuery} :
    journalRows s owner q =
      (Pages.behind position (s.events.filter (q.admits s owner)) (q.after.map JournalCursor.position)).take q.limit := by
  unfold journalRows Pages.behind
  rw [List.filter_filter]
  congr 2
  refine List.filter_congr fun e _ => ?_
  rw [Bool.and_comm, Bool.eq_iff_iff, Bool.and_eq_true, Bool.and_eq_true, isAfter_iff, decide_eq_true_eq]

theorem admits_owner {q : JournalQuery} {s : CategoryStore} {owner : OwnerId} {e : Event} (h : q.admits s owner e = true) :
    e.owner = owner := by
  simp only [JournalQuery.admits, Bool.and_eq_true, decide_eq_true_eq] at h
  tauto

/-- What a read looks for, in the stores that answer it. -/
def looksFor (t : JournalTexts) (owner : OwnerId) (query : JournalReadQuery) (s later : CategoryStore) (e : Event) : Bool :=
  match query.source.mapM (declaredSource t owner), resolveSupersession (listJournalEventRelations later owner) with
  | .ok source, .ok supersession =>
    let q := storeQuery query (query.from, query.to) none source 0
    q.admits (answering t.toLowercase s owner q) owner e &&
      query.stands.all fun stands => decide (e.id ∈ supersession.stands) = stands
  | _, _ => false

/-- The events that a read looks for. -/
def sought (t : JournalTexts) (owner : OwnerId) (query : JournalReadQuery) (s later : CategoryStore) : List Event :=
  s.events.filter (looksFor t owner query s later)

variable {t : JournalTexts} {s : CategoryStore} {latest : CategoryStore} {owner : OwnerId} {query : JournalReadQuery}
  {page : JournalPage}

theorem pageSize_ok {size : Option Nat} {limit : Nat} (h : pageSize size = .ok limit) : 0 < limit ∧ limit ≤ maxPageSize := by
  cases size with
  | none =>
    cases h
    simp [defaultPageSize, maxPageSize]
  | some n =>
    simp only [pageSize] at h
    split at h
    · cases h
    · cases h
      omega

theorem dateRange_ok {first last : Option Date} {range : Option Date × Option Date} (h : dateRange t first last = .ok range) :
    range = (first, last) := by
  unfold dateRange at h
  split at h
  · split at h
    · cases h
    · cases h
      rfl
  · cases h
    rfl

/-- The rows that the store gives for a read. -/
def fetched (t : JournalTexts) (owner : OwnerId) (query : JournalReadQuery) (s : CategoryStore) (limit : Nat)
    (after : Option JournalCursor) (source : Option SourceId) : List Event :=
  (listJournalEvents t.toLowercase s owner (storeQuery query (query.from, query.to) after source limit)).1

/-- The page of the first so many rows. -/
def pageOf (t : JournalTexts) (query : JournalReadQuery) (limit : Nat) (supersession : Supersession) (events : List Event) :
    JournalPage where
  rows := ((events.take limit).filter fun e =>
    query.stands.all fun stands => decide (e.id ∈ supersession.stands) = stands).map (journalEventView supersession)
  next := if limit < events.length then (events.take limit).getLast?.map fun e => formatCursor t.codecs e.cursor else none

/-- A read that succeeds: what it asks for is accepted, and an idempotency key finds something. -/
theorem readJournal_iff : readJournal t s latest owner query = .ok page ↔
    ∃ limit range after source supersession, pageSize query.limit = .ok limit ∧
      dateRange t query.from query.to = .ok range ∧ query.after.mapM (parseCursor t.codecs) = .ok after ∧
      categoryFilter query.category query.uncategorised = .ok () ∧
      query.source.mapM (declaredSource t owner) = .ok source ∧
      resolveSupersession (listJournalEventRelations latest owner) = .ok supersession ∧
      (fetched t owner query s limit after source ≠ [] ∨ query.idempotencyKey = none) ∧
      page = pageOf t query limit supersession (fetched t owner query s limit after source) := by
  unfold readJournal
  simp only [bind_ok, mapError_ok]
  constructor
  · rintro ⟨limit, hlimit, range, hrange, after, hafter, _, hcategory, source, hsource, supersession, hsupersession, h⟩
    rw [dateRange_ok hrange] at h
    refine ⟨limit, range, after, source, supersession, hlimit, hrange, hafter, hcategory, hsource, hsupersession, ?_⟩
    split at h
    · cases h
    · next hne =>
      cases h
      refine ⟨?_, rfl⟩
      by_contra hnot
      rw [not_or, not_not] at hnot
      obtain ⟨key, hkey⟩ := Option.ne_none_iff_exists'.mp hnot.2
      exact hne key hnot.1 hkey
  · rintro ⟨limit, range, after, source, supersession, hlimit, hrange, hafter, hcategory, hsource, hsupersession, hfound, rfl⟩
    refine ⟨limit, hlimit, range, hrange, after, hafter, (), hcategory, source, hsource, supersession, hsupersession, ?_⟩
    rw [dateRange_ok hrange]
    split
    · next hnil hkey =>
      rcases hfound with hfound | hfound
      · exact absurd hnil hfound
      · rw [hkey] at hfound
        cases hfound
    · rfl

theorem Placed.distinct (h : Placed s.events) {q : JournalQuery} {s' : CategoryStore} :
    (s.events.filter (q.admits s' owner)).Pairwise fun l r => position l ≠ position r := by
  rw [List.pairwise_filter]
  refine h.apart.imp fun hne hl hr heq => hne ((admits_owner hl).trans (admits_owner hr).symm) ?_
  simpa [position, JournalCursor.position, Event.cursor] using heq

/-- What a read looks for, whether it stands or not. -/
def anyStanding (query : JournalReadQuery) : JournalReadQuery := { query with stands := none }

section
variable {source : Option SourceId} {supersession : Supersession} (hsource : query.source.mapM (declaredSource t owner) = .ok source)
  (hsupersession : resolveSupersession (listJournalEventRelations latest owner) = .ok supersession)
include hsource hsupersession

theorem sought_anyStanding : sought t owner (anyStanding query) s latest =
    s.events.filter ((storeQuery query (query.from, query.to) none source 0).admits
      (answering t.toLowercase s owner (storeQuery query (query.from, query.to) none source 0)) owner) := by
  unfold sought looksFor anyStanding
  rw [hsource, hsupersession]
  exact List.filter_congr fun e _ => Bool.and_true _

theorem sought_eq_filter : sought t owner query s latest = (sought t owner (anyStanding query) s latest).filter fun e =>
    query.stands.all fun stands => decide (e.id ∈ supersession.stands) = stands := by
  rw [sought_anyStanding hsource hsupersession, List.filter_filter]
  unfold sought looksFor
  rw [hsource, hsupersession]
  exact List.filter_congr fun e _ => Bool.and_comm _ _

theorem fetched_eq {limit : Nat} (hmax : limit ≤ maxPageSize) (after : Option JournalCursor) :
    fetched t owner query s limit after source =
      (Pages.behind position (sought t owner (anyStanding query) s latest) (after.map JournalCursor.position)).take
        (limit + 1) := by
  have hlimit : min (limit + 1) lastSequence = limit + 1 := by
    rw [min_eq_left]
    simp only [maxPageSize] at hmax
    simp only [lastSequence]
    omega
  rw [sought_anyStanding hsource hsupersession, fetched]
  change journalRows (answering t.toLowercase s owner (storeQuery query (query.from, query.to) after source limit)) owner
    (storeQuery query (query.from, query.to) after source limit) = _
  rw [journalRows_eq, answering_events]
  change List.take (min (limit + 1) lastSequence) _ = _
  rw [hlimit]
  rfl

end

/-- What a page shows of the rows that its read looks for, before those are left out that do not stand as asked. -/
structure Fetched (t : JournalTexts) (s latest : CategoryStore) (owner : OwnerId) (query : JournalReadQuery)
    (page : JournalPage) (limit : Nat) (after next : Option JournalCursor) (shown : List Event) : Prop where
  size : pageSize query.limit = .ok limit
  starts : query.after.mapM (parseCursor t.codecs) = .ok after
  ends : page.next = next.map (formatCursor t.codecs)
  sequence : ∀ c ∈ next, c.sequence ≤ lastSequence
  isPage : Pages.IsPage position (sought t owner (anyStanding query) s latest) (after.map JournalCursor.position) shown
    (next.map JournalCursor.position)
  rows : ∃ asked : Event → Bool, page.rows.map JournalEventView.event = shown.filter asked ∧
    sought t owner query s latest = (sought t owner (anyStanding query) s latest).filter asked
  full : next.isSome → shown.length = limit ∧
    limit < (Pages.behind position (sought t owner (anyStanding query) s latest) (after.map JournalCursor.position)).length
  within : shown.length ≤ limit

theorem Placed.distinct_sought (h : Placed s.events) :
    (sought t owner query s latest).Pairwise fun l r => position l ≠ position r := by
  unfold sought looksFor
  cases query.source.mapM (declaredSource t owner) with
  | error => simp
  | ok source =>
    cases resolveSupersession (listJournalEventRelations latest owner) with
    | error => simp
    | ok supersession =>
      dsimp only
      rw [← List.filter_filter, List.filter_comm]
      exact h.distinct.filter _

theorem exists_fetched (hplaced : Placed s.events) (h : readJournal t s latest owner query = .ok page) :
    ∃ limit after next shown, Fetched t s latest owner query page limit after next shown := by
  obtain ⟨limit, range, after, source, supersession, hsize, -, hafter, -, hsource, hsupersession, -, rfl⟩ :=
    readJournal_iff.mp h
  obtain ⟨hpos, hmax⟩ := pageSize_ok hsize
  have hrows := fetched_eq (s := s) hsource hsupersession hmax after
  generalize fetched t owner query s limit after source = events at hrows
  have hpage := Pages.isPage_of_take hplaced.distinct_sought hpos hrows
  have hposition : (if limit < events.length then (events.take limit).getLast?.map Event.cursor else none).map
      JournalCursor.position = if limit < events.length then (events.take limit).getLast?.map position else none := by
    split
    · rw [Option.map_map]
      rfl
    · rfl
  refine ⟨limit, after, if limit < events.length then (events.take limit).getLast?.map Event.cursor else none,
    events.take limit, hsize, hafter, ?_, ?_, hposition ▸ hpage,
    ⟨_, ?_, sought_eq_filter hsource hsupersession⟩, ?_, List.length_take_le _ _⟩
  · unfold pageOf
    dsimp only
    split
    · rw [Option.map_map]
      rfl
    · rfl
  · intro c hc
    split at hc
    · obtain ⟨e, he, rfl⟩ := Option.map_eq_some_iff.mp hc
      exact hplaced.sequence e (List.mem_of_mem_filter (hpage.sound e (List.mem_of_getLast? he)).1)
    · cases hc
  · unfold pageOf
    rw [List.map_map]
    exact List.map_id _
  · intro hsome
    split at hsome
    · next hlong =>
      rw [List.length_take, min_eq_left hlong.le]
      rw [hrows, List.length_take] at hlong
      exact ⟨rfl, by omega⟩
    · cases hsome

/-- A read shows what it looks for behind its cursor, up to the position it names. -/
theorem isPage_of_readJournal (hplaced : Placed s.events) (h : readJournal t s latest owner query = .ok page) :
    ∃ after next : Option JournalCursor, query.after.mapM (parseCursor t.codecs) = .ok after ∧
      page.next = next.map (formatCursor t.codecs) ∧ (∀ c ∈ next, c.sequence ≤ lastSequence) ∧
      Pages.IsPage position (sought t owner query s latest) (after.map JournalCursor.position)
        (page.rows.map JournalEventView.event) (next.map JournalCursor.position) := by
  obtain ⟨limit, after, next, shown, hfetched⟩ := exists_fetched hplaced h
  obtain ⟨asked, hrows, hsought⟩ := hfetched.rows
  rw [hrows, hsought]
  exact ⟨after, next, hfetched.starts, hfetched.ends, hfetched.sequence, hfetched.isPage.filter asked⟩

/-! ### Page after page -/

/-- Pages that a reader asks for one after another, each from the position the one before it named, until one names none.
    Before each read the journal may be written to, the categories may change, and the reader may choose another size. -/
inductive Reads (t : JournalTexts) (owner : OwnerId) :
    List Event → JournalReadQuery → List (CategoryStore × CategoryStore) → List JournalPage → Prop
  | last {journal : List Event} {query : JournalReadQuery} {s latest : CategoryStore} {page : JournalPage} :
      Grows journal s.events → readJournal t s latest owner query = .ok page → page.next = none →
      Reads t owner journal query [(s, latest)] [page]
  | more {journal : List Event} {query : JournalReadQuery} {s latest : CategoryStore} {page : JournalPage} {next : String}
      {limit : Option Nat} {stores : List (CategoryStore × CategoryStore)} {pages : List JournalPage} :
      Grows journal s.events → readJournal t s latest owner query = .ok page → page.next = some next →
      Reads t owner s.events { query with after := some next, limit } stores pages →
      Reads t owner journal query ((s, latest) :: stores) (page :: pages)

variable {stores : List (CategoryStore × CategoryStore)} {pages : List JournalPage}

/-- The reads are a walk over what each of them looks for. -/
theorem walk_of_reads (hc : CursorTexts t.codecs) (hplaced : Placed journal) (h : Reads t owner journal query stores pages)
    {after : Option JournalCursor} (hafter : query.after.mapM (parseCursor t.codecs) = .ok after) :
    Pages.Walk position (after.map JournalCursor.position) (stores.map fun st => sought t owner query st.1 st.2)
      (pages.map fun page => page.rows.map JournalEventView.event) := by
  induction h generalizing after with
  | last hgrows hread hnone =>
    obtain ⟨after', next, hafter', hnext, -, hpage⟩ := isPage_of_readJournal (hgrows.placed hplaced) hread
    rw [hafter] at hafter'
    cases hafter'
    rw [hnone] at hnext
    cases next with
    | none => exact .last hpage
    | some c => cases hnext
  | more hgrows hread hsome _ ih =>
    obtain ⟨after', next, hafter', hnext, hsequence, hpage⟩ := isPage_of_readJournal (hgrows.placed hplaced) hread
    rw [hafter] at hafter'
    cases hafter'
    rw [hsome] at hnext
    cases next with
    | none => cases hnext
    | some c =>
      cases hnext
      have hrest : (some (formatCursor t.codecs c)).mapM (parseCursor t.codecs) = .ok (some c) := by
        change some <$> parseCursor t.codecs (formatCursor t.codecs c) = _
        rw [parseCursor_formatCursor hc (hsequence c rfl)]
        rfl
      have hwalk := ih (hgrows.placed hplaced) hrest
      exact .more hpage hwalk

/-- What the journal held at the start it holds at every read. -/
theorem Reads.subset (h : Reads t owner journal query stores pages) : ∀ st ∈ stores, journal ⊆ st.1.events := by
  induction h with
  | last hgrows _ _ =>
    intro st hst
    rw [List.mem_singleton.mp hst]
    exact hgrows.subset
  | more hgrows _ _ _ ih =>
    intro st hst
    rcases List.mem_cons.mp hst with rfl | hst
    · exact hgrows.subset
    · exact List.Subset.trans hgrows.subset (ih st hst)

/-- A journal that is written to while it is read page by page is shown in its order and without repetition. Every row is
    one that its read looked for, and no event that was there from the start and that every read looked for is missing. -/
theorem reads_each_once (hc : CursorTexts t.codecs) (hplaced : Placed journal) (hstart : query.after = none)
    (h : Reads t owner journal query stores pages) :
    (pages.flatMap fun page => page.rows.map JournalEventView.event).Pairwise (fun l r => position l < position r) ∧
      List.Forall₂ (fun st page => ∀ row ∈ page.rows, row.event ∈ sought t owner query st.1 st.2) stores pages ∧
      ∀ e ∈ journal, (∀ st ∈ stores, looksFor t owner query st.1 st.2 e = true) →
        e ∈ pages.flatMap fun page => page.rows.map JournalEventView.event := by
  have hafter : query.after.mapM (parseCursor t.codecs) = .ok none := by rw [hstart]; rfl
  have hwalk := walk_of_reads hc hplaced h hafter
  refine ⟨?_, ?_, fun e he hlooks => ?_⟩
  · rw [List.flatMap_def]
    exact hwalk.sorted
  · have hsound := hwalk.sound
    rw [List.forall₂_map_left_iff, List.forall₂_map_right_iff] at hsound
    refine hsound.imp ?_
    intro st page hsub row hrow
    exact hsub (List.mem_map_of_mem hrow)
  · rw [List.flatMap_def]
    refine hwalk.complete (fun rows hrows => ?_) fun _ hc => by cases hc
    obtain ⟨st, hst, rfl⟩ := List.mem_map.mp hrows
    exact List.mem_filter.mpr ⟨h.subset st hst he, hlooks st hst⟩

/-- A hundred roubles come in. -/
def deposit (n : Nat) : Event := eventWith ⟨n⟩ ⟨1⟩ ⟨10⟩ n (.cashIn ⟨.new 100, .rub⟩) [.cash ⟨1⟩ ⟨.new 100, .rub⟩]

def storeOf (events : List Event) : CategoryStore := ⟨[], [], events, []⟩

def sampleJournalTexts : JournalTexts := ⟨Rows.sampleTexts, id, id, fun _ account _ => ⟨account.uuid⟩⟩

theorem sampleJournalTexts_cursor : CursorTexts sampleJournalTexts.codecs where
  date := Rows.sampleTexts_readBack.date
  colon d := by
    show ':' ∉ (Rows.tableText Rows.dayCode Rows.sampleDays d).toList
    unfold Rows.tableText
    cases hfind : Rows.sampleDays.find? fun entry => decide (entry.1 = d) with
    | none => simp
    | some entry =>
      have hmem := List.mem_of_find?_eq_some hfind
      simp only [Rows.sampleDays, List.mem_singleton] at hmem
      rw [hmem, Option.map_some, Option.getD_some]
      decide

theorem placed_deposits (n : Nat) (h : n ≤ lastSequence) : Placed ((List.range' 1 n).map deposit) where
  apart := by
    rw [List.pairwise_map]
    exact (List.pairwise_lt_range' 1).imp fun hlt _ heq => hlt.ne (JournalCursor.mk.inj heq).2
  sequence e he := by
    obtain ⟨i, hi, rfl⟩ := List.mem_map.mp he
    have := (List.mem_range'_1.mp hi).2
    show i ≤ lastSequence
    omega

/-- A fourth deposit comes in while the first page of two is being looked at: the second page has it. -/
theorem deposit_while_reading :
    ∃ stores pages, Reads sampleJournalTexts ⟨0⟩ ((List.range' 1 3).map deposit) { limit := some 2 } stores pages ∧
      (pages.flatMap fun page => page.rows.map JournalEventView.event) = (List.range' 1 4).map deposit ∧
      (pages.flatMap fun page => page.rows.map JournalEventView.event).Pairwise (fun l r => position l < position r) := by
  have hwrite : appendEventInOrder (fun _ => none) .source ((List.range' 1 3).map deposit)
      { deposit 4 with order := ⟨⟨10⟩, none, 0⟩ } = .ok (.inserted ⟨4⟩, (List.range' 1 4).map deposit) := rfl
  have hfirst : readJournal sampleJournalTexts (storeOf ((List.range' 1 3).map deposit))
      (storeOf ((List.range' 1 4).map deposit)) ⟨0⟩ { limit := some 2 } =
        .ok ⟨[⟨deposit 1, none, true⟩, ⟨deposit 2, none, true⟩], some "1970-01-11:2"⟩ := rfl
  have hsecond : readJournal sampleJournalTexts (storeOf ((List.range' 1 4).map deposit))
      (storeOf ((List.range' 1 4).map deposit)) ⟨0⟩ { limit := some 2, after := some "1970-01-11:2" } =
        .ok ⟨[⟨deposit 3, none, true⟩, ⟨deposit 4, none, true⟩], none⟩ := rfl
  have hreads := Reads.more (.refl _) hfirst rfl (.last (.write hwrite (.refl _)) hsecond rfl)
  exact ⟨_, _, hreads, rfl, (reads_each_once sampleJournalTexts_cursor (placed_deposits 3 (by decide)) rfl hreads).1⟩

/-! ### A journal at rest -/

/-- Where a page names a position, the read from there succeeds. -/
theorem exists_next (hc : CursorTexts t.codecs) (hplaced : Placed s.events) (h : readJournal t s latest owner query = .ok page)
    {text : String} (hnext : page.next = some text) :
    ∃ page', readJournal t s latest owner { query with after := some text } = .ok page' := by
  obtain ⟨limit, after, next, shown, hfetched⟩ := exists_fetched hplaced h
  obtain ⟨limit', range, _, source, supersession, hsize, hrange, -, hcategory, hsource, hsupersession, -, -⟩ :=
    readJournal_iff.mp h
  rw [hfetched.size] at hsize
  cases hsize
  rw [hfetched.ends] at hnext
  obtain ⟨c, rfl, rfl⟩ := Option.map_eq_some_iff.mp hnext
  have hafter : (some (formatCursor t.codecs c)).mapM (parseCursor t.codecs) = .ok (some c) := by
    change some <$> parseCursor t.codecs (formatCursor t.codecs c) = _
    rw [parseCursor_formatCursor hc (hfetched.sequence c rfl)]
    rfl
  refine ⟨_, readJournal_iff.mpr ⟨limit, range, some c, source, supersession, hfetched.size, hrange, hafter, hcategory,
    hsource, hsupersession, .inl ?_, rfl⟩⟩
  -- the page was full and there were more rows
  obtain ⟨hfull, hmore⟩ := hfetched.full rfl
  rw [hfetched.isPage.behind_eq hplaced.distinct_sought, List.length_append, hfull] at hmore
  have hrows : fetched t owner { query with after := some (formatCursor t.codecs c) } s limit (some c) source =
      (Pages.behind position (sought t owner (anyStanding query) s latest) (some c.position)).take (limit + 1) :=
    fetched_eq hsource hsupersession (pageSize_ok hfetched.size).2 (some c)
  rw [hrows]
  intro hnil
  rw [List.take_eq_nil_iff] at hnil
  rcases hnil with hnil | hnil
  · omega
  · rw [hnil] at hmore
    simp at hmore

/-- The pages of a journal at rest: as many as it takes, and one if there is nothing. -/
theorem exists_reads (hc : CursorTexts t.codecs) (hplaced : Placed s.events) {limit : Nat}
    (hsize : pageSize query.limit = .ok limit) {after : Option JournalCursor}
    (hafter : query.after.mapM (parseCursor t.codecs) = .ok after) {count : Nat}
    (hcount : (Pages.behind position (sought t owner (anyStanding query) s latest)
      (after.map JournalCursor.position)).length = count)
    (h : readJournal t s latest owner query = .ok page) :
    ∃ pages, Reads t owner s.events query (List.replicate pages.length (s, latest)) pages ∧
      pages.length = max 1 ((count + limit - 1) / limit) := by
  have hpos := (pageSize_ok hsize).1
  induction count using Nat.strong_induction_on generalizing query page after with
  | h count ih =>
    obtain ⟨limit', after', next, shown, hfetched⟩ := exists_fetched hplaced h
    obtain rfl : limit = limit' := Except.ok.inj (hsize.symm.trans hfetched.size)
    obtain rfl : after = after' := Except.ok.inj (hafter.symm.trans hfetched.starts)
    cases hend : next with
    | none =>
      subst hend
      refine ⟨[page], .last (.refl _) h hfetched.ends, ?_⟩
      -- everything behind the cursor is on the page
      have hall : shown = Pages.behind position (sought t owner (anyStanding query) s latest)
          (after.map JournalCursor.position) :=
        Pages.eq_behind hplaced.distinct_sought hfetched.isPage.sorted fun r =>
          ⟨hfetched.isPage.sound r, fun hr => hfetched.isPage.complete r hr.1 hr.2 fun _ hd => by cases hd⟩
      have hwithin := hfetched.within
      rw [hall, hcount] at hwithin
      have hle : (count + limit - 1) / limit ≤ 1 := Nat.lt_succ_iff.mp ((Nat.div_lt_iff_lt_mul hpos).mpr (by omega))
      exact (max_eq_left hle).symm
    | some c =>
      subst hend
      obtain ⟨page', hpage'⟩ := exists_next hc hplaced h hfetched.ends
      obtain ⟨hfull, hmore⟩ := hfetched.full rfl
      have hsplit := congrArg List.length (hfetched.isPage.behind_eq hplaced.distinct_sought)
      rw [List.length_append, hfull, hcount] at hsplit
      rw [hcount] at hmore
      have hnext : ({ query with after := some (formatCursor t.codecs c) } : JournalReadQuery).after.mapM
          (parseCursor t.codecs) = .ok (some c) := by
        change some <$> parseCursor t.codecs (formatCursor t.codecs c) = _
        rw [parseCursor_formatCursor hc (hfetched.sequence c rfl)]
        rfl
      have hrest : (Pages.behind position (sought t owner (anyStanding query) s latest) (some c.position)).length =
          count - limit := by
        rw [hsplit, Nat.add_sub_cancel_left]
      obtain ⟨pages, hreads, hlength⟩ := @ih (count - limit) (by omega)
        { query with after := some (formatCursor t.codecs c) } page' hsize (some c) hnext hrest hpage'
      refine ⟨page :: pages, .more (.refl _) h hfetched.ends hreads, ?_⟩
      have hstep : (count + limit - 1) / limit = (count - limit + limit - 1) / limit + 1 := by
        rw [← Nat.add_div_right _ hpos]
        congr 1
        omega
      have hone : 1 ≤ (count - limit + limit - 1) / limit := (Nat.one_le_div_iff hpos).mpr (by omega)
      rw [List.length_cons, hlength, hstep, max_eq_right hone, max_eq_right (by omega)]

end JournalPages
end Iaam
