import Iaam.Lib.Outcome
import Iaam.Lib.Versions
import Iaam.Store.Schedule
import Iaam.Theorems.Stamp

/-! The history of a schedule as the store tells it. The snapshots of one series are a log of versions under the texts of
their moments, so a reader of the past gets the schedule of its moment as far as those texts are in order. -/

namespace Iaam
namespace Schedule
open Outcome Moment

variable {Hash : Type} [DecidableEq Hash]

/-- One answer of the source, at a moment. The id is the one the store draws. -/
structure Call where
  id : Text
  moment : Moment
  rows : ScheduleRows

/-- The header that is made for a call. -/
def Call.header (hash : ScheduleRows → Hash) (instrument source : Text) (c : Call) : ScheduleSnapshotRow Hash :=
  ⟨instrument, source, c.moment.rfc3339, hash c.rows.content⟩

def recordCall (hash : ScheduleRows → Hash) (instrument source : Text) (t : Tables Hash) (c : Call) :
    Except StoreError (Tables Hash) := do
  let (_, t) ← t.recordScheduleSnapshot c.id (c.header hash instrument source) c.rows
  return t

def recordCalls (hash : ScheduleRows → Hash) (instrument source : Text) (t : Tables Hash) (calls : List Call) :
    Except StoreError (Tables Hash) :=
  calls.foldlM (recordCall hash instrument source) t

/-- The last call whose moment is not after a given one. -/
def lastCall (calls : List Call) (k : Moment) : Option Call := (calls.filter fun c => c.moment ≤ k).getLast?

/-- A reader at a moment gets what the last call up to then submitted. -/
def ReadsAt (instrument source : Text) (calls : List Call) (t : Tables Hash) (k : Moment) : Prop :=
  (t.scheduleAtOrBefore instrument source k.rfc3339).map (fun s => s.toScheduleRows.content) =
    (lastCall calls k).map fun c => c.rows.sorted.content

/-- The last moment up to a given one is not misread against it, none before is misread against that one, and what comes
    later is not before the given one as a text, or it is before all of them. -/
structure TextsInOrder (moments : List Moment) (k : Moment) : Prop where
  past : ∀ own, (moments.filter fun m => m ≤ k).getLast? = some own →
    ¬ Misread own k ∧ ∀ m ∈ moments, m < own → ¬ Misread m own
  later : ∀ m ∈ moments, k < m → Misread k m → ∃ first, moments.head? = some first ∧ first ≤ k ∧ Misread first m

/-! ### The series as a log -/

section
variable {hash : ScheduleRows → Hash} {instrument source : Text} {t t' : Tables Hash} {c : Call}

/-- The versions of a series. -/
def log (instrument source : Text) (t : Tables Hash) : List (Text × ScheduleRows) :=
  (t.ofSeries instrument source).map fun s => (s.header.observedAt, s.rows.content)

/-- The snapshots of a series have different moments, and their hashes are those of their content. -/
structure Kept (hash : ScheduleRows → Hash) (instrument source : Text) (t : Tables Hash) : Prop where
  keys : ((log instrument source t).map Prod.fst).Nodup
  hashed : ∀ s ∈ t.ofSeries instrument source, s.header.contentHash = hash s.rows.content

omit [DecidableEq Hash] in
theorem newest_log {snapshots : List (Snapshot Hash)}
    (hkeys : (snapshots.map fun s => s.header.observedAt).Nodup) :
    Versions.latest (snapshots.map fun s => (s.header.observedAt, s.rows.content)) =
      (Tables.newest snapshots).map fun s => (s.header.observedAt, s.rows.content) := by
  cases hnewest : Tables.newest snapshots with
  | none =>
    rw [Search.maxByKey_eq_none.mp hnewest]
    rfl
  | some s =>
    have hkeys' : ((snapshots.map fun s => (s.header.observedAt, s.rows.content)).map Prod.fst).Nodup := by
      rwa [List.map_map]
    refine (Search.maxByKey_eq_some fun a ha b hb => List.inj_on_of_nodup_map hkeys' ha hb).mpr
      ⟨List.mem_map_of_mem (Search.mem_of_maxByKey hnewest), fun entry hentry => ?_⟩
    obtain ⟨s', hs', rfl⟩ := List.mem_map.mp hentry
    rcases Prod.Lex.toLex_le_toLex.mp (Search.le_of_maxByKey hnewest hs') with hlt | ⟨heq, -⟩
    · exact hlt.le
    · exact heq.le

/-- What a call that succeeds did: nothing, when the newest snapshot has the same hash, or it wrote a snapshot. -/
theorem recordScheduleSnapshot_ok {id : Text} {header : ScheduleSnapshotRow Hash} {rows : ScheduleRows}
    {out : SnapshotOutcome × Tables Hash} (h : t.recordScheduleSnapshot id header rows = .ok out) :
    (∃ latest, Tables.newest (t.ofSeries header.instrumentId header.sourceId) = some latest ∧
      latest.header.contentHash = header.contentHash ∧ out.2 = t) ∨
    ((∀ latest, Tables.newest (t.ofSeries header.instrumentId header.sourceId) = some latest →
      latest.header.contentHash ≠ header.contentHash) ∧
      t.accepts id header rows = true ∧ out.2 = { t with snapshots := t.snapshots ++ [⟨id, header, rows⟩] }) := by
  simp only [Tables.recordScheduleSnapshot] at h
  split at h
  · next latest hnewest =>
    rw [hnewest]
    split at h
    · next hsame =>
      cases h
      exact .inl ⟨latest, rfl, hsame, rfl⟩
    · next hother =>
      split at h
      · next haccepts =>
        cases h
        refine .inr ⟨fun latest' hlatest => ?_, haccepts, rfl⟩
        cases hlatest
        exact hother
      · cases h
  · next hnewest =>
    rw [hnewest]
    split at h
    · next haccepts =>
      cases h
      refine .inr ⟨fun _ hnone => ?_, haccepts, rfl⟩
      cases hnone
    · cases h

theorem recordCall_ok (h : recordCall hash instrument source t c = .ok t') :
    (∃ latest, Tables.newest (t.ofSeries instrument source) = some latest ∧
      latest.header.contentHash = hash c.rows.content ∧ t' = t) ∨
    ((∀ latest, Tables.newest (t.ofSeries instrument source) = some latest →
      latest.header.contentHash ≠ hash c.rows.content) ∧
      t.accepts c.id (c.header hash instrument source) c.rows = true ∧
      t' = { t with snapshots := t.snapshots ++ [⟨c.id, c.header hash instrument source, c.rows⟩] }) := by
  obtain ⟨out, hout, h⟩ := bind_ok.mp h
  cases h
  exact recordScheduleSnapshot_ok hout

omit [DecidableEq Hash] in
theorem ofSeries_write (t : Tables Hash) (c : Call) :
    ({ t with snapshots := t.snapshots ++ [⟨c.id, c.header hash instrument source, c.rows⟩] } : Tables Hash).ofSeries
      instrument source = t.ofSeries instrument source ++ [⟨c.id, c.header hash instrument source, c.rows⟩] := by
  simp [Tables.ofSeries, Call.header]

/-- A call that succeeds records its version in the log. -/
theorem log_recordCall (hinj : Function.Injective hash) (hkept : Kept hash instrument source t)
    (h : recordCall hash instrument source t c = .ok t') :
    log instrument source t' = Versions.record (log instrument source t) (c.moment.rfc3339, c.rows.content) ∧
      Kept hash instrument source t' := by
  have hkeys : ((t.ofSeries instrument source).map fun s => s.header.observedAt).Nodup := by
    have hkeys := hkept.keys
    rwa [log, List.map_map] at hkeys
  have hlatest := newest_log hkeys
  rcases recordCall_ok h with ⟨latest, hnewest, hhash, rfl⟩ | ⟨hother, haccepts, rfl⟩
  · refine ⟨?_, hkept⟩
    have hsame : latest.rows.content = c.rows.content :=
      hinj ((hkept.hashed latest (Search.mem_of_maxByKey hnewest)).symm.trans hhash)
    rw [Versions.record, if_pos]
    rw [log, hlatest, hnewest]
    exact congrArg some hsame
  · have hwrite : log instrument source { t with snapshots := t.snapshots ++ [⟨c.id, c.header hash instrument source, c.rows⟩] } =
        log instrument source t ++ [(c.moment.rfc3339, c.rows.content)] := by
      rw [log, ofSeries_write, List.map_append]
      rfl
    refine ⟨?_, ?_, ?_⟩
    · rw [hwrite, Versions.record, if_neg]
      rw [log, hlatest]
      intro hsame
      obtain ⟨entry, hentry, hcontent⟩ := Option.map_eq_some_iff.mp hsame
      obtain ⟨latest, hnewest, rfl⟩ := Option.map_eq_some_iff.mp hentry
      refine hother latest hnewest ?_
      rw [hkept.hashed latest (Search.mem_of_maxByKey hnewest)]
      exact congrArg hash hcontent
    · simp only [Tables.accepts, Bool.and_eq_true, decide_eq_true_eq] at haccepts
      rw [hwrite, List.map_append, List.nodup_append]
      refine ⟨hkept.keys, List.nodup_singleton _, ?_⟩
      rintro key hkey _ hnew rfl
      refine haccepts.1.2 ?_
      rw [List.map_singleton, List.mem_singleton] at hnew
      rw [log, List.map_map, hnew] at hkey
      exact hkey
    · intro s hs
      rw [ofSeries_write] at hs
      rcases List.mem_append.mp hs with hs | hs
      · exact hkept.hashed s hs
      · cases List.mem_singleton.mp hs
        rfl

/-- The log after a run of calls. -/
theorem log_recordCalls (hinj : Function.Injective hash) {calls : List Call} (hkept : Kept hash instrument source t)
    (h : recordCalls hash instrument source t calls = .ok t') :
    log instrument source t' = Versions.recordAll (log instrument source t)
      (calls.map fun c => (c.moment.rfc3339, c.rows.content)) ∧ Kept hash instrument source t' := by
  induction calls generalizing t with
  | nil =>
    cases h
    exact ⟨rfl, hkept⟩
  | cons c calls ih =>
    obtain ⟨u, hu, h⟩ := bind_ok.mp h
    obtain ⟨hlog, hkept⟩ := log_recordCall hinj hkept hu
    obtain ⟨hrest, hkept⟩ := ih hkept h
    rw [hlog] at hrest
    exact ⟨hrest, hkept⟩

/-! ### Readers -/

/-- Sorting does not read the ids of the source. -/
theorem content_sorted (rows : ScheduleRows) : rows.sorted.content = rows.content.sorted := by
  simp only [ScheduleRows.sorted, ScheduleRows.content, ScheduleRows.mk.injEq]
  refine ⟨Numbered.map_sortBy ?_ _, Numbered.map_sortBy ?_ _, Numbered.map_sortBy ?_ _⟩
  all_goals exact fun _ => rfl

omit [DecidableEq Hash] in
/-- A reader gets the version of the log as of its moment. -/
theorem scheduleAtOrBefore_eq (hkept : Kept hash instrument source t) (k : Text) :
    (t.scheduleAtOrBefore instrument source k).map (fun s => s.toScheduleRows.content) =
      (Versions.asOf (log instrument source t) k).map ScheduleRows.sorted := by
  have hkeys : (((t.ofSeries instrument source).filter fun s => s.header.observedAt ≤ k).map
      fun s => s.header.observedAt).Nodup := by
    have hkeys := hkept.keys
    rw [log, List.map_map] at hkeys
    exact hkeys.sublist (List.filter_sublist.map _)
  have hfilter : (log instrument source t).filter (fun entry => entry.1 ≤ k) =
      ((t.ofSeries instrument source).filter fun s => s.header.observedAt ≤ k).map
        fun s => (s.header.observedAt, s.rows.content) := by
    rw [log, List.filter_map]
    rfl
  have hlatest := newest_log hkeys
  rw [Versions.latest, ← hfilter] at hlatest
  rw [Versions.asOf, hlatest, Tables.scheduleAtOrBefore, Option.map_map, Option.map_map, Option.map_map]
  refine congrArg (fun f => Option.map f _) (funext fun s => ?_)
  exact content_sorted s.rows

end

/-! ### The order of the moments -/

section
variable {moments before after : List Moment} {own k : Moment}

/-- The moments up to a given one come first, in their order. -/
theorem exists_split {α : Type} (moment : α → Moment) {l : List α} (hl : (l.map moment).Pairwise (· < ·)) (k : Moment) :
    ((l.filter fun a => moment a ≤ k) = [] ∧ ∀ a ∈ l, k < moment a) ∨
    ∃ before own after, l = before ++ own :: after ∧ (l.filter fun a => moment a ≤ k).getLast? = some own ∧
      (∀ a ∈ before, moment a < moment own) ∧ moment own ≤ k ∧ ∀ a ∈ after, k < moment a := by
  have hsorted : l.Pairwise fun a b => moment a < moment b := List.pairwise_map.mp hl
  have hsplit := Search.filter_append_filter (p := fun a => moment a ≤ k) hsorted
    fun a b hlt hb => decide_eq_true (hlt.le.trans (of_decide_eq_true hb))
  rcases List.eq_nil_or_concat' (l.filter fun a => moment a ≤ k) with hnil | ⟨before, own, hpast⟩
  · refine .inl ⟨hnil, fun a ha => ?_⟩
    have hlater := List.filter_eq_nil_iff.mp hnil a ha
    simpa using hlater
  · refine .inr ⟨before, own, l.filter fun a => !decide (moment a ≤ k), ?_, ?_, ?_, ?_, ?_⟩
    · conv_lhs => rw [hsplit, hpast]
      simp
    · rw [hpast]
      simp
    · have hpair := hsorted.filter fun a => decide (moment a ≤ k)
      rw [hpast] at hpair
      exact fun a ha => (List.pairwise_append.mp hpair).2.2 a ha own (by simp)
    · have hown : own ∈ l.filter fun a => moment a ≤ k := by rw [hpast]; simp
      exact of_decide_eq_true (List.mem_filter.mp hown).2
    · intro a ha
      simpa using (List.mem_filter.mp ha).2

/-- Nothing up to the moment: nothing may be read. -/
theorem textsInOrder_of_later (hlater : ∀ m ∈ moments, k < m) :
    TextsInOrder moments k ↔ ∀ m ∈ moments, k.rfc3339 < m.rfc3339 := by
  constructor
  · intro h m hm
    rw [rfc3339_lt_of_lt (hlater m hm)]
    intro hread
    obtain ⟨first, hfirst, hle, -⟩ := h.later m hm (hlater m hm) hread
    exact absurd hle (not_le.mpr (hlater first (List.mem_of_head? hfirst)))
  · intro h
    refine ⟨fun own hown => ?_, fun m hm hlt hread => ?_⟩
    · obtain ⟨hin, hle⟩ := List.mem_filter.mp (List.mem_of_getLast? hown)
      exact absurd (of_decide_eq_true hle) (not_le.mpr (hlater own hin))
    · exact absurd hread ((rfc3339_lt_of_lt hlt).mp (h m hm))

/-- Otherwise the texts are to be in order as the keys of the log. -/
theorem textsInOrder_iff (hlast : ((before ++ own :: after).filter fun m => m ≤ k).getLast? = some own)
    (hbefore : ∀ m ∈ before, m < own) (hown : own ≤ k) (hafter : ∀ m ∈ after, k < m) :
    TextsInOrder (before ++ own :: after) k ↔
      Versions.InOrder (before.map rfc3339) own.rfc3339 (after.map rfc3339) k.rfc3339 := by
  have hfirst : ∀ first, (before ++ own :: after).head? = some first → first ≤ k := by
    intro first hfirst
    cases before with
    | nil =>
      cases hfirst
      exact hown
    | cons m before =>
      cases hfirst
      exact (hbefore _ List.mem_cons_self).le.trans hown
  have hhead : ∀ text, (before.map rfc3339 ++ [own.rfc3339]).head? = some text ↔
      ∃ first, (before ++ own :: after).head? = some first ∧ first.rfc3339 = text := by
    intro text
    cases before <;> simp
  constructor
  · intro h
    obtain ⟨hread, hpast⟩ := h.past own hlast
    refine ⟨(rfc3339_le_of_le hown).mpr hread, ?_, ?_⟩
    · intro text htext
      obtain ⟨m, hm, rfl⟩ := List.mem_map.mp htext
      exact (rfc3339_lt_of_lt (hbefore m hm)).mpr (hpast m (List.mem_append_left _ hm) (hbefore m hm))
    · intro text htext hle first hfirst'
      obtain ⟨m, hm, rfl⟩ := List.mem_map.mp htext
      obtain ⟨first, hhead', rfl⟩ := (hhead first).mp hfirst'
      have hread : Misread k m := not_not.mp fun hread => hle.not_gt ((rfc3339_lt_of_lt (hafter m hm)).mpr hread)
      obtain ⟨first', hfirst'', -, hread'⟩ := h.later m (by simp [hm]) (hafter m hm) hread
      cases hhead'.symm.trans hfirst''
      exact rfc3339_lt.mpr (.inr hread')
  · intro h
    refine ⟨fun own' hown' => ?_, fun m hm hlt hread => ?_⟩
    · cases hlast.symm.trans hown'
      refine ⟨(rfc3339_le_of_le hown).mp h.reached, fun m hm hlt => ?_⟩
      rcases List.mem_append.mp hm with hm | hm
      · exact (rfc3339_lt_of_lt hlt).mp (h.before_lt _ (List.mem_map_of_mem hm))
      · rcases List.mem_cons.mp hm with heq | hm
        · exact absurd heq hlt.ne
        · exact absurd (hlt.trans_le hown) (hafter m hm).not_gt
    · obtain ⟨first, hfirst'⟩ : ∃ first, (before ++ own :: after).head? = some first := by
        cases before <;> simp
      refine ⟨first, hfirst', hfirst first hfirst', ?_⟩
      have hin : m ∈ after := by
        rcases List.mem_append.mp hm with hm | hm
        · exact absurd ((hbefore m hm).trans_le hown) hlt.not_gt
        · rcases List.mem_cons.mp hm with heq | hm
          · exact absurd (heq ▸ hown) (not_le.mpr hlt)
          · exact hm
      have htext : m.rfc3339 ≤ k.rfc3339 := (rfc3339_lt.mpr (.inr hread)).le
      have hlt' := h.after_lt _ (List.mem_map_of_mem hin) htext _ ((hhead _).mpr ⟨first, hfirst', rfl⟩)
      rcases rfc3339_lt.mp hlt' with ⟨hlt', -⟩ | hread
      · exact absurd (hlt'.trans_le (hfirst first hfirst')) hlt.not_gt
      · exact hread

end

/-! ### Runs of calls -/

section
variable {hash : ScheduleRows → Hash} {instrument source : Text} {t t' : Tables Hash} {calls : List Call} {k : Moment}

omit [DecidableEq Hash] in
theorem kept_of_empty (hnew : t.ofSeries instrument source = []) : Kept hash instrument source t :=
  ⟨by simp [log, hnew], fun s hs => by simp [hnew] at hs⟩

/-- What a reader gets after a run of calls. -/
theorem readsAt_iff (hinj : Function.Injective hash) (hnew : t.ofSeries instrument source = [])
    (h : recordCalls hash instrument source t calls = .ok t') :
    ReadsAt instrument source calls t' k ↔
      (Versions.asOf (Versions.recordAll [] (calls.map fun c => (c.moment.rfc3339, c.rows.content))) k.rfc3339).map
        ScheduleRows.sorted = (lastCall calls k).map fun c => c.rows.content.sorted := by
  have hempty : log instrument source t = [] := by rw [log, hnew, List.map_nil]
  obtain ⟨hlog, hkept⟩ := log_recordCalls hinj (kept_of_empty hnew) h
  rw [ReadsAt, scheduleAtOrBefore_eq hkept, hlog, hempty]
  simp only [content_sorted]

/-- In order, the reader gets what was submitted. -/
theorem readsAt_of_textsInOrder (hinj : Function.Injective hash) (hnew : t.ofSeries instrument source = [])
    (hmoments : (calls.map Call.moment).Pairwise (· < ·)) (hread : TextsInOrder (calls.map Call.moment) k)
    (h : recordCalls hash instrument source t calls = .ok t') : ReadsAt instrument source calls t' k := by
  rw [readsAt_iff hinj hnew h]
  rcases exists_split Call.moment hmoments k with ⟨hnil, hlater⟩ | ⟨before, own, after, rfl, hlast, hbefore, hown, hafter⟩
  · have htexts := (textsInOrder_of_later (List.forall_mem_map.mpr hlater)).mp hread
    have hnone : Versions.asOf (Versions.recordAll [] (calls.map fun c => (c.moment.rfc3339, c.rows.content))) k.rfc3339 =
        none := by
      obtain ⟨kept, hkept, hall⟩ := Versions.exists_recordAll [] (calls.map fun c => (c.moment.rfc3339, c.rows.content))
      rw [hall, List.nil_append, Versions.asOf_eq_none]
      intro entry hentry
      obtain ⟨c, hc, rfl⟩ := List.mem_map.mp (hkept.subset hentry)
      exact htexts c.moment (List.mem_map_of_mem hc)
    rw [hnone, lastCall, hnil]
    rfl
  · have hkeys : (((before ++ own :: after).map fun c => (c.moment.rfc3339, c.rows.content)).map Prod.fst).Nodup := by
      have hnodup : ((before ++ own :: after).map Call.moment).Nodup := hmoments.imp fun hlt => hlt.ne
      have htexts := hnodup.map rfc3339_injective
      rw [List.map_map] at htexts ⊢
      exact htexts
    have hlast' : (((before ++ own :: after).map Call.moment).filter fun m => m ≤ k).getLast? = some own.moment := by
      rw [List.filter_map, List.getLast?_map]
      exact congrArg (Option.map Call.moment) hlast
    rw [List.map_append, List.map_cons] at hread hkeys hlast' ⊢
    have horder := (textsInOrder_iff hlast' (List.forall_mem_map.mpr hbefore) hown (List.forall_mem_map.mpr hafter)).mp hread
    rw [List.map_map, List.map_map] at horder
    have hasOf := Versions.asOf_recordAll (k := k.rfc3339) hkeys (by rw [List.map_map, List.map_map]; exact horder)
    rw [hasOf, lastCall, hlast]
    rfl

/-- A snapshot that the schema accepts is written or found. -/
theorem exists_recordCall {c : Call} (h : t.accepts c.id (c.header hash instrument source) c.rows = true) :
    ∃ u, recordCall hash instrument source t c = .ok u := by
  have hok : ∃ out, t.recordScheduleSnapshot c.id (c.header hash instrument source) c.rows = .ok out := by
    simp only [Tables.recordScheduleSnapshot, h, if_true]
    split
    · split
      · exact ⟨_, rfl⟩
      · exact ⟨_, rfl⟩
    · exact ⟨_, rfl⟩
  obtain ⟨out, hout⟩ := hok
  exact ⟨out.2, by rw [recordCall, hout]; rfl⟩

/-- Calls for a known instrument, with new ids and moments, succeed. -/
theorem exists_recordCalls (hknown : instrument ∈ t.instruments)
    (hids : (calls.map Call.id).Nodup) (hfresh : ∀ c ∈ calls, c.id ∉ t.snapshots.map Snapshot.id)
    (htexts : ((t.ofSeries instrument source).map (fun s => s.header.observedAt) ++
      calls.map fun c => c.moment.rfc3339).Nodup)
    (hpasses : ∀ c ∈ calls, c.rows.passes = true) : ∃ t', recordCalls hash instrument source t calls = .ok t' := by
  induction calls generalizing t with
  | nil => exact ⟨t, rfl⟩
  | cons c calls ih =>
    rw [List.map_cons] at hids htexts
    obtain ⟨hid, hids⟩ := List.nodup_cons.mp hids
    have haccepts : t.accepts c.id (c.header hash instrument source) c.rows = true := by
      have htext : c.moment.rfc3339 ∉ (t.ofSeries instrument source).map fun s => s.header.observedAt := fun hin =>
        (List.nodup_append.mp htexts).2.2 _ hin _ List.mem_cons_self rfl
      simp only [Tables.accepts, Bool.and_eq_true]
      exact ⟨⟨⟨decide_eq_true hknown, decide_eq_true (hfresh c List.mem_cons_self)⟩, decide_eq_true htext⟩, hpasses c List.mem_cons_self⟩
    have hrest : ∀ c' ∈ calls, c'.rows.passes = true := fun c' hc' => hpasses c' (List.mem_cons_of_mem _ hc')
    obtain ⟨u, hu⟩ := exists_recordCall haccepts
    have hstep : ∃ t', recordCalls hash instrument source u calls = .ok t' := by
      rcases recordCall_ok hu with ⟨latest, -, -, rfl⟩ | ⟨-, -, rfl⟩
      · exact ih hknown hids (fun c' hc' => hfresh c' (List.mem_cons_of_mem _ hc'))
          (htexts.sublist (List.Sublist.append_left (List.sublist_cons_self _ _) _)) hrest
      · refine ih hknown hids (fun c' hc' hin => ?_) ?_ hrest
        · rw [List.map_append, List.mem_append, List.map_singleton, List.mem_singleton] at hin
          rcases hin with hin | hsame
          · exact hfresh c' (List.mem_cons_of_mem _ hc') hin
          · exact hid (List.mem_map.mpr ⟨c', hc', hsame⟩)
        · rw [ofSeries_write, List.map_append, List.append_assoc]
          exact htexts
    obtain ⟨t', ht'⟩ := hstep
    exact ⟨t', by rw [recordCalls, List.foldlM_cons, hu]; exact ht'⟩

/-- A schedule of one repayment. -/
def oneRepayment (n : Nat) : ScheduleRows := ⟨[], [⟨List.replicate n '1', [], [], none⟩], []⟩

theorem oneRepayment_injective : Function.Injective oneRepayment := by
  intro m n h
  have hlength := congrArg (fun rows => rows.principalRepayments.map fun row => row.repaymentDate.length) h
  simpa [oneRepayment] using hlength

variable {moments : List Moment}

/-- Whichever of some schedules are submitted, a reader after a run gets a version of the log. -/
theorem exists_run (hinj : Function.Injective hash) (hknown : instrument ∈ t.instruments)
    (hnew : t.ofSeries instrument source = []) (hmoments : moments.Nodup)
    (h : ∀ calls t', calls.map Call.moment = moments → recordCalls hash instrument source t calls = .ok t' →
      ReadsAt instrument source calls t' k) (names : Text → Nat) :
    Versions.asOf (Versions.recordAll [] (Versions.submitted (fun text => oneRepayment (names text))
        (moments.map rfc3339))) k.rfc3339 =
      (moments.filter fun m => m ≤ k).getLast?.map fun m => oneRepayment (names m.rfc3339) := by
  obtain ⟨fresh, hfreshinj, hfresh⟩ := Lexical.exists_fresh '1' (t.snapshots.map Snapshot.id)
  let call : Moment → Call := fun m => ⟨fresh (moments.idxOf m), m, oneRepayment (names m.rfc3339)⟩
  have hentries : (moments.map call).map (fun c => (c.moment.rfc3339, c.rows.content)) =
      Versions.submitted (fun text => oneRepayment (names text)) (moments.map rfc3339) := by
    rw [Versions.submitted, List.map_map, List.map_map]
    rfl
  have hrun : ∃ t', recordCalls hash instrument source t (moments.map call) = .ok t' := by
    refine exists_recordCalls hknown ?_ (List.forall_mem_map.mpr fun m _ => hfresh _) ?_ ?_
    · rw [List.map_map]
      exact List.Nodup.map_on (fun m hm n hn heq => (List.idxOf_inj hm).mp (hfreshinj heq)) hmoments
    · rw [hnew, List.map_nil, List.nil_append, List.map_map]
      exact hmoments.map rfc3339_injective
    · intro c hc
      obtain ⟨m, -, rfl⟩ := List.mem_map.mp hc
      rfl
  obtain ⟨t', ht'⟩ := hrun
  have hread := (readsAt_iff hinj hnew ht').mp (h _ t' (by rw [List.map_map]; exact List.map_id _) ht')
  rw [hentries, lastCall, List.filter_map, List.getLast?_map, Option.map_map] at hread
  -- No reader changes a schedule of one repayment.
  have hfixed : (Versions.asOf (Versions.recordAll [] (Versions.submitted (fun text => oneRepayment (names text))
      (moments.map rfc3339))) k.rfc3339).map ScheduleRows.sorted = Versions.asOf (Versions.recordAll []
      (Versions.submitted (fun text => oneRepayment (names text)) (moments.map rfc3339))) k.rfc3339 := by
    cases hasOf : Versions.asOf (Versions.recordAll [] (Versions.submitted (fun text => oneRepayment (names text))
        (moments.map rfc3339))) k.rfc3339 with
    | none => rfl
    | some rows =>
      obtain ⟨entry, hentry, rfl, -⟩ := Versions.asOf_ok hasOf
      obtain ⟨kept, hkept, hall⟩ := Versions.exists_recordAll [] (Versions.submitted (fun text => oneRepayment (names text))
        (moments.map rfc3339))
      rw [hall, List.nil_append] at hentry
      rw [(Versions.mem_submitted.mp (hkept.subset hentry)).2]
      rfl
  rw [← hfixed, hread]
  rfl

/-- An answer that is right whatever is submitted needs the order. -/
theorem textsInOrder_of_readsAt (hinj : Function.Injective hash) (hknown : instrument ∈ t.instruments)
    (hnew : t.ofSeries instrument source = []) (hmoments : moments.Pairwise (· < ·))
    (h : ∀ calls t', calls.map Call.moment = moments → recordCalls hash instrument source t calls = .ok t' →
      ReadsAt instrument source calls t' k) : TextsInOrder moments k := by
  have hnodup : moments.Nodup := hmoments.imp fun hlt => hlt.ne
  have hkeys : (moments.map rfc3339).Nodup := hnodup.map rfc3339_injective
  have hnames : ∀ x ∈ moments.map rfc3339, ∀ y ∈ moments.map rfc3339,
      oneRepayment ((moments.map rfc3339).idxOf x) = oneRepayment ((moments.map rfc3339).idxOf y) → x = y :=
    fun x hx y _ heq => (List.idxOf_inj hx).mp (oneRepayment_injective heq)
  have hrun := fun pick : Text → Text =>
    exists_run hinj hknown hnew hnodup h fun text => (moments.map rfc3339).idxOf (pick text)
  rcases exists_split id (by simpa using hmoments) k with ⟨hnil, hlater⟩ |
      ⟨before, own, after, rfl, hlast, hbefore, hown, hafter⟩
  · refine (textsInOrder_of_later hlater).mpr fun m hm => ?_
    have hnone := hrun id
    simp only [id_eq] at hnone hnil
    rw [Versions.recordAll_submitted hkeys hnames, hnil, List.getLast?_nil, Option.map_none, Versions.asOf_eq_none] at hnone
    exact hnone (m.rfc3339, oneRepayment ((moments.map rfc3339).idxOf m.rfc3339)) (Versions.mem_submitted.mpr ⟨List.mem_map_of_mem hm, rfl⟩)
  · refine (textsInOrder_iff hlast hbefore hown hafter).mpr ?_
    have hsplit : (before ++ own :: after).map rfc3339 = before.map rfc3339 ++ own.rfc3339 :: after.map rfc3339 := by
      rw [List.map_append, List.map_cons]
    simp only [id_eq] at hlast
    rw [hsplit] at hkeys hnames
    refine Versions.inOrder_of_asOf hkeys hnames fun pick => ?_
    have hread := hrun pick
    rw [hsplit, hlast] at hread
    exact hread

/-- A reader of the past gets the schedule of its moment, whatever was submitted, exactly when the texts of the moments are
    in order. -/
theorem readsAt_iff_textsInOrder (hinj : Function.Injective hash) (hknown : instrument ∈ t.instruments)
    (hnew : t.ofSeries instrument source = []) (hmoments : moments.Pairwise (· < ·)) :
    (∀ calls t', calls.map Call.moment = moments → recordCalls hash instrument source t calls = .ok t' →
      ReadsAt instrument source calls t' k) ↔ TextsInOrder moments k := by
  constructor
  · exact textsInOrder_of_readsAt hinj hknown hnew hmoments
  · rintro h calls t' rfl hrun
    exact readsAt_of_textsInOrder hinj hnew hmoments h hrun

end

/-! ### A schedule that changes twice within a second -/

def issue : Tables ScheduleRows := ⟨[['A']], []⟩

/-- Two schedules: one at a fraction of the first second, one at half of it. -/
def twoCalls (nanosecond : Nat) (h : nanosecond < 10 ^ 9) : List Call :=
  [⟨['1'], afterNoon 0 nanosecond start_of_minute h, oneRepayment 1⟩,
    ⟨['2'], afterNoon 0 500000000 start_of_minute (by decide), oneRepayment 2⟩]

/-- From a quarter of a second to half a second: each reader gets its schedule. -/
theorem quarter_read : ∃ t', recordCalls id ['A'] ['M'] issue (twoCalls 250000000 (by decide)) = .ok t' ∧
    ReadsAt ['A'] ['M'] (twoCalls 250000000 (by decide)) t' (afterNoon 1 0 (by decide) (by decide)) := by
  obtain ⟨t', ht'⟩ := exists_ok (x := recordCalls id ['A'] ['M'] issue (twoCalls 250000000 (by decide))) (by decide)
  refine ⟨t', ht', (readsAt_iff_textsInOrder Function.injective_id (by decide) rfl (by decide)).mpr ?_ _ t' rfl ht'⟩
  refine ⟨fun own hown => ?_, by decide⟩
  have hlast : (((twoCalls 250000000 (by decide)).map Call.moment).filter
      fun m => m ≤ afterNoon 1 0 (by decide) (by decide)).getLast? = some (afterNoon 0 500000000 (by decide) (by decide)) := by
    decide
  cases hlast.symm.trans hown
  decide

/-- From the full second to half a second: the reader of the second gets the first. -/
theorem half_second_lost : ∃ t', recordCalls id ['A'] ['M'] issue (twoCalls 0 (by decide)) = .ok t' ∧
    (t'.scheduleAtOrBefore ['A'] ['M'] (afterNoon 1 0 (by decide) (by decide)).rfc3339).map (fun s => s.toScheduleRows) =
      some (oneRepayment 1) ∧
    (lastCall (twoCalls 0 (by decide)) (afterNoon 1 0 (by decide) (by decide))).map (fun c => c.rows) = some (oneRepayment 2) ∧
    ¬ ReadsAt ['A'] ['M'] (twoCalls 0 (by decide)) t' (afterNoon 1 0 (by decide) (by decide)) := by
  obtain ⟨t', ht'⟩ := exists_ok (x := recordCalls id ['A'] ['M'] issue (twoCalls 0 (by decide))) (by decide)
  have hanswer : (t'.scheduleAtOrBefore ['A'] ['M'] (afterNoon 1 0 (by decide) (by decide)).rfc3339).map
      (fun s => s.toScheduleRows) = some (oneRepayment 1) :=
    read_of_ok ht' (fun t => (t.scheduleAtOrBefore ['A'] ['M'] (afterNoon 1 0 (by decide) (by decide)).rfc3339).map
      fun s => s.toScheduleRows) (by decide)
  have hwrong : ¬ ReadsAt ['A'] ['M'] (twoCalls 0 (by decide)) t' (afterNoon 1 0 (by decide) (by decide)) := by
    obtain ⟨s, hs, hrows⟩ := Option.map_eq_some_iff.mp hanswer
    rw [ReadsAt, hs, Option.map_some, hrows]
    decide
  exact ⟨t', ht', hanswer, by decide, hwrong⟩

end Schedule
end Iaam
