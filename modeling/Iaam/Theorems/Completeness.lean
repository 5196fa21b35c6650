import Iaam.App.Jobs
import Iaam.Lib.Runs
import Iaam.Theorems.Lease

/-! The boundary through which a series is complete. It moves to the end of what the last run covered, whatever lies
between, and one row keeps only the last moment it was written at. -/

namespace Iaam
namespace Market
open Outcome Runs

/-! ### Covered days -/

/-- The day lies in one of the intervals. -/
def CoveredBy (cs : List Coverage) (day : Date) : Prop := ∃ c ∈ cs, c.«from» ≤ day ∧ day ≤ c.«to»

/-- Every day from the first one covered up to the boundary is covered. -/
def Truthful (cs : List Coverage) (boundary : Date) : Prop :=
  ∃ first rest, cs = first :: rest ∧ ∀ day, first.«from» ≤ day → day ≤ boundary → CoveredBy cs day

/-- The boundary is no earlier than the start of the first interval and the end of any. -/
structure Bounds (cs : List Coverage) (boundary : Date) : Prop where
  first : ∃ first rest, cs = first :: rest ∧ first.«from» ≤ boundary
  ends : ∀ c ∈ cs, c.«to» ≤ boundary

/-- The boundary after one more interval. -/
def later (boundary : Date) (c : Coverage) : Date := if boundary < c.«to» then c.«to» else boundary

section
variable {cs : List Coverage} {c : Coverage} {boundary : Date}

theorem le_later (boundary : Date) (c : Coverage) : boundary ≤ later boundary c ∧ c.«to» ≤ later boundary c := by
  unfold later
  split
  · next hlt => exact ⟨hlt.le, le_rfl⟩
  · next hle => exact ⟨le_rfl, not_lt.mp hle⟩

theorem bounds_singleton (hc : c.«from» ≤ c.«to») : Bounds [c] c.«to» :=
  ⟨⟨c, [], rfl, hc⟩, fun _ hx => (List.mem_singleton.mp hx) ▸ le_rfl⟩

theorem truthful_singleton : Truthful [c] c.«to» :=
  ⟨c, [], rfl, fun _ hfrom hto => ⟨c, List.mem_singleton_self c, hfrom, hto⟩⟩

theorem Bounds.append (h : Bounds cs boundary) (c : Coverage) : Bounds (cs ++ [c]) (later boundary c) := by
  obtain ⟨first, rest, rfl, hfirst⟩ := h.first
  refine ⟨⟨first, rest ++ [c], rfl, hfirst.trans (le_later _ _).1⟩, fun x hx => ?_⟩
  rcases List.mem_append.mp hx with hx | hx
  · exact (h.ends x hx).trans (le_later _ _).1
  · exact (List.mem_singleton.mp hx) ▸ (le_later _ _).2

/-- The boundary stays truthful exactly when the interval joins what is covered, or ends within it. -/
theorem truthful_append_iff (hbounds : Bounds cs boundary) (h : Truthful cs boundary) :
    Truthful (cs ++ [c]) (later boundary c) ↔ c.«from» ≤ boundary.next ∨ c.«to» ≤ boundary := by
  obtain ⟨first, rest, rfl, hcovered⟩ := h
  obtain ⟨_, _, heq, hfirst⟩ := hbounds.first
  cases heq
  constructor
  · rintro ⟨_, _, heq, hall⟩
    cases heq
    by_contra hgap
    obtain ⟨hfrom, hto⟩ := not_or.mp hgap
    have hlater : later boundary c = c.«to» := if_pos (not_le.mp hto)
    rw [Date.le_iff] at hfrom hto hfirst
    have hnext : boundary.next ≤ later boundary c := by
      rw [hlater, Date.le_iff]
      simp only [Date.next] at hfrom ⊢
      omega
    have hstart : first.«from» ≤ boundary.next := by
      rw [Date.le_iff]
      simp only [Date.next]
      omega
    obtain ⟨x, hx, hxfrom, hxto⟩ := hall _ hstart hnext
    rcases List.mem_append.mp hx with hx | hx
    · have hend := hbounds.ends x hx
      rw [Date.le_iff] at hxto hend
      simp only [Date.next] at hxto
      omega
    · rw [List.mem_singleton.mp hx, Date.le_iff] at hxfrom
      exact hfrom hxfrom
  · intro hjoins
    refine ⟨first, rest ++ [c], rfl, fun day hday hend => ?_⟩
    by_cases hin : day ≤ boundary
    · obtain ⟨x, hx, hxday⟩ := hcovered day hday hin
      exact ⟨x, List.mem_append_left [c] hx, hxday⟩
    · have hto : boundary < c.«to» := by
        by_contra hle
        rw [later, if_neg hle] at hend
        exact hin hend
      rw [later, if_pos hto] at hend
      refine ⟨c, by simp, ?_, hend⟩
      rcases hjoins with hfrom | hle
      · rw [Date.le_iff] at hfrom hin ⊢
        simp only [Date.next] at hfrom
        omega
      · exact absurd hle (not_le.mpr hto)

end

/-! ### The row of a series -/

section
variable {completeness : List SeriesCompleteness} {new : SeriesCompleteness} {series : SeriesKey}

/-- What is written for a series that has a boundary, or none. -/
def written (old : Option SeriesCompleteness) (new : SeriesCompleteness) : SeriesCompleteness :=
  match old with
  | some old =>
    { new with completeThrough :=
        if old.completeThrough < new.completeThrough then new.completeThrough else old.completeThrough }
  | none => new

theorem find_publish_same : (publish completeness new).find? (fun c => c.series = new.series) =
    some (written (completeness.find? fun c => c.series = new.series) new) := by
  simp only [publish]
  split
  · next hany =>
    obtain ⟨old, hold⟩ := Option.isSome_iff_exists.mp (List.find?_isSome.mpr (by simpa using hany) :
      (completeness.find? fun c => c.series = new.series).isSome)
    have hseries : old.series = new.series := by simpa using List.find?_some hold
    have hsame : ∀ c : SeriesCompleteness, decide ((if c.series = new.series then
        { new with completeThrough :=
            if c.completeThrough < new.completeThrough then new.completeThrough else c.completeThrough }
        else c).series = new.series) = decide (c.series = new.series) := by
      intro c
      split
      · next heq => rw [heq]
      · rfl
    rw [List.find?_map]
    simp only [Function.comp_def, hsame, hold, Option.map_some, written, if_pos hseries]
  · next hnone =>
    have hfind : completeness.find? (fun c => c.series = new.series) = none := by
      rw [List.find?_eq_none]
      simpa using hnone
    rw [List.find?_append, hfind]
    simp [written]

theorem find_publish_other (hne : series ≠ new.series) : (publish completeness new).find? (fun c => c.series = series) =
    completeness.find? fun c => c.series = series := by
  simp only [publish]
  split
  · have hsame : ∀ c : SeriesCompleteness, decide ((if c.series = new.series then
        { new with completeThrough :=
            if c.completeThrough < new.completeThrough then new.completeThrough else c.completeThrough }
        else c).series = series) = decide (c.series = series) := by
      intro c
      split
      · next heq => rw [heq]
      · rfl
    rw [List.find?_map]
    simp only [Function.comp_def, hsame]
    cases hfind : completeness.find? fun c => c.series = series with
    | none => rfl
    | some old =>
      have hold : old.series = series := by simpa using List.find?_some hfind
      rw [Option.map_some, if_neg (by rw [hold]; exact hne)]
  · rw [List.find?_append, List.find?_singleton, if_neg (by simpa using Ne.symm hne), Option.or_none]

theorem nodup_publish (h : (completeness.map SeriesCompleteness.series).Nodup) :
    ((publish completeness new).map SeriesCompleteness.series).Nodup := by
  simp only [publish]
  split
  · have hsame : (completeness.map fun old => if old.series = new.series then
        { new with completeThrough :=
            if old.completeThrough < new.completeThrough then new.completeThrough else old.completeThrough }
        else old).map SeriesCompleteness.series = completeness.map SeriesCompleteness.series := by
      rw [List.map_map]
      refine List.map_congr_left fun c _ => ?_
      simp only [Function.comp_apply]
      split
      · next heq => exact heq.symm
      · rfl
    rw [hsame]
    exact h
  · next hnone =>
    rw [List.map_append, List.map_singleton]
    refine List.nodup_append.mpr ⟨h, List.nodup_singleton _, ?_⟩
    rintro a ha b hb rfl
    obtain ⟨c, hc, hseries⟩ := List.mem_map.mp ha
    rw [List.mem_singleton.mp hb] at hseries
    exact hnone (List.any_eq_true.mpr ⟨c, hc, decide_eq_true hseries⟩)

/-- The answer at a moment is read off the one row of the series. -/
theorem completeThroughAtOrBefore_eq {t : Tables} (h : (t.completeness.map SeriesCompleteness.series).Nodup)
    (series : SeriesKey) (k : Text) : completeThroughAtOrBefore t series k =
      (t.completeness.find? fun c => c.series = series).bind fun row =>
        if row.updatedAt ≤ k then some row.completeThrough else none := by
  unfold completeThroughAtOrBefore
  cases hfind : t.completeness.find? fun c => c.series = series with
  | none =>
    have hnone : t.completeness.find? (fun c => c.series = series && c.updatedAt ≤ k) = none := by
      rw [List.find?_eq_none] at hfind ⊢
      intro c hc
      have hne := hfind c hc
      simp only [decide_eq_true_eq] at hne
      simp [hne]
    rw [hnone]
    rfl
  | some row =>
    obtain ⟨hrow, hseries⟩ := (Search.find_key_eq_some h).mp hfind
    have hunique : ∀ x ∈ t.completeness, x.series = series → x = row := fun x hx hxs =>
      List.inj_on_of_nodup_map h hx hrow (hxs.trans hseries.symm)
    dsimp only [Option.bind_some]
    split
    · next hle =>
      have hsome : t.completeness.find? (fun c => c.series = series && c.updatedAt ≤ k) = some row := by
        refine (Search.find_eq_some fun x hx y hy hxp hyp => ?_).mpr ⟨hrow, by simp [hseries, hle]⟩
        simp only [Bool.and_eq_true, decide_eq_true_eq] at hxp hyp
        rw [hunique x hx hxp.1, hunique y hy hyp.1]
      rw [hsome]
      rfl
    · next hle =>
      have hnone : t.completeness.find? (fun c => c.series = series && c.updatedAt ≤ k) = none := by
        rw [List.find?_eq_none]
        intro x hx hxp
        simp only [Bool.and_eq_true, decide_eq_true_eq] at hxp
        rw [hunique x hx hxp.1] at hxp
        exact hle hxp.2
      rw [hnone]
      rfl

end

/-! ### The system -/

/-- What a worker can do. -/
inductive Act where
  | tick
  | «begin» (run : RunHandle)
  | call (c : Call)

/-- One step of any number of workers. -/
inductive Works : World → Act → World → Prop
  | tick {w : World} {now : Moment} (hclock : w.clock ≤ now) : Works w .tick { w with clock := now }
  | begin {w : World} {checkedAt now : Moment} {id leaseToken : Text} {series : SeriesKey} {requestedFrom requestedTo : Date}
      {leaseExpiresAt : Moment} {run : RunHandle} {tables : Tables} (hclock : w.clock ≤ now) (hchecked : checkedAt ≤ now)
      (hrun : beginRun w.tables checkedAt now id leaseToken series requestedFrom requestedTo leaseExpiresAt =
        .ok (run, tables)) : Works w (.begin run) ⟨tables, now, w.issued ++ [(run, leaseExpiresAt)], w.succeeded⟩
  | call {w : World} {now : Moment} {c : Call} {tables : Tables} (hclock : w.clock ≤ now)
      (hcall : c.apply w.tables now = .ok tables) : Works w (.call c) ⟨tables, now, w.issued, c.published ++ w.succeeded⟩

def World.start (instruments : List Text) (clock : Moment) : World := ⟨{ instruments }, clock, [], []⟩

/-- The intervals of the runs of a series that succeeded, the first begun first. -/
def covers (series : SeriesKey) (r : SyncRun) : Option Coverage :=
  if r.series = series && r.status = .succeeded then r.covered else none

def coverages (t : Tables) (series : SeriesKey) : List Coverage := t.runs.filterMap (covers series)

/-- Every boundary is truthful. -/
def Honest (t : Tables) : Prop :=
  ∀ series boundary, completeThrough t series = some boundary → Truthful (coverages t series) boundary

/-- A run that ends well covers no later than from the day after the boundary, or ends within it. -/
def Joins (w : World) (a : Act) : Prop :=
  ∀ run coverage updatedAt, a = .call (.finish run .succeeded coverage updatedAt) → ∀ r ∈ w.tables.runs, r.id = run.id →
    ∀ boundary, completeThrough w.tables run.series = some boundary →
      (coverage.getD ⟨r.requestedFrom, r.requestedTo⟩).«from» ≤ boundary.next ∨
        (coverage.getD ⟨r.requestedFrom, r.requestedTo⟩).«to» ≤ boundary

/-- The row that the end of a run writes is read at a moment as the row before it: neither is read, or both are and the
    boundary does not move. -/
def StaysAt (k : Text) (w : World) (a : Act) : Prop :=
  ∀ run coverage updatedAt, a = .call (.finish run .succeeded coverage updatedAt) → ∀ r ∈ w.tables.runs, r.id = run.id →
    match w.tables.completeness.find? fun c => c.series = run.series with
    | none => ¬ updatedAt ≤ k
    | some old => (old.updatedAt ≤ k ↔ updatedAt ≤ k) ∧
      (updatedAt ≤ k → (coverage.getD ⟨r.requestedFrom, r.requestedTo⟩).«to» ≤ old.completeThrough)

/-- What holds in every state. -/
structure Recorded (w : World) : Prop where
  lease : Inv w
  order : w.tables.runs.Pairwise fun r later => r.series = later.series → r.status ≠ .running
  rows : (w.tables.completeness.map SeriesCompleteness.series).Nodup
  silent : ∀ series, completeThrough w.tables series = none → coverages w.tables series = []
  bounds : ∀ series boundary, completeThrough w.tables series = some boundary →
    Bounds (coverages w.tables series) boundary

/-- What a step does to the boundaries: nothing, or it ends a run well. -/
inductive Publishes (w : World) (a : Act) (t : Tables) : Prop
  | quiet : (∀ run coverage updatedAt, a ≠ .call (.finish run .succeeded coverage updatedAt)) →
      (∀ series, coverages t series = coverages w.tables series) → t.completeness = w.tables.completeness →
      Publishes w a t
  | ends {run : RunHandle} {coverage : Option Coverage} {updatedAt : Text} {r : SyncRun} {c : Coverage} :
      a = .call (.finish run .succeeded coverage updatedAt) → r ∈ w.tables.runs → r.id = run.id →
      c = coverage.getD ⟨r.requestedFrom, r.requestedTo⟩ → c.«from» ≤ c.«to» →
      coverages t run.series = coverages w.tables run.series ++ [c] →
      (∀ series, series ≠ run.series → coverages t series = coverages w.tables series) →
      t.completeness = publish w.tables.completeness ⟨run.series, c.«to», updatedAt, run.id⟩ → Publishes w a t

section
variable {w w' : World} {a : Act} {t : Tables} {now : Moment}

theorem coverages_map {f : SyncRun → SyncRun} (hf : ∀ r ∈ w.tables.runs, ∀ series, covers series (f r) = covers series r)
    (hruns : t.runs = w.tables.runs.map f) (series : SeriesKey) : coverages t series = coverages w.tables series := by
  rw [coverages, coverages, hruns, List.filterMap_map]
  exact List.filterMap_congr fun r hr => hf r hr series

theorem covers_running {r : SyncRun} (h : r.status ≠ .succeeded) (series : SeriesKey) : covers series r = none := by
  simp [covers, h]

theorem covers_sweep (now : Moment) (r : SyncRun) (series : SeriesKey) : covers series (r.sweep now) = covers series r := by
  simp only [SyncRun.sweep]
  split
  · next hover =>
    simp only [SyncRun.swept, Bool.and_eq_true, decide_eq_true_eq] at hover
    rw [covers_running (r := r) (by simp [hover.1])]
    simp [covers]
  · rfl

theorem covers_count (id : Text) (rows : Nat) (r : SyncRun) (series : SeriesKey) :
    covers series (r.count id rows) = covers series r := by
  simp only [SyncRun.count]
  split <;> rfl

theorem covers_finish {outcome : RunOutcome} (h : outcome ≠ .succeeded) (id : Text) (c : Coverage) (r : SyncRun)
    (series : SeriesKey) : covers series (r.finish id outcome c) = covers series r := by
  simp only [SyncRun.finish]
  split
  · next hrun =>
    simp only [Bool.and_eq_true, decide_eq_true_eq] at hrun
    have hstatus : outcome.status ≠ .succeeded := by
      cases outcome with
      | succeeded => exact absurd rfl h
      | partialWith reason => simp [RunOutcome.status]
      | failed reason => simp [RunOutcome.status]
    rw [covers_running hstatus, covers_running (by rw [hrun.2]; decide)]
  · rfl

/-- A run that ends well is the last of its series in the table. -/
theorem coverages_finish (h : Recorded w) {run : RunHandle} {r : SyncRun} {c : Coverage} (hr : r ∈ w.tables.runs)
    (hlive : Live now run r) (hruns : t.runs = w.tables.runs.map (SyncRun.finish run.id .succeeded c)) :
    coverages t run.series = coverages w.tables run.series ++ [c] ∧
      ∀ series, series ≠ run.series → coverages t series = coverages w.tables series := by
  obtain ⟨earlier, rest, hsplit⟩ := List.append_of_mem hr
  have hids := h.lease.ids
  have horder := h.order
  rw [hsplit] at hids horder
  obtain ⟨-, hlater, -⟩ := List.pairwise_append.mp horder
  have hother : ∀ x, x ∈ earlier ∨ x ∈ rest → x.finish run.id .succeeded c = x := by
    intro x hx
    have hne : x.id ≠ r.id := by
      rw [List.map_append, List.map_cons] at hids
      have hapart := List.nodup_middle.mp hids
      rw [← List.map_append, ← List.map_cons, List.map_cons, List.nodup_cons] at hapart
      exact fun heq => hapart.1 (List.mem_map.mpr ⟨x, List.mem_append.mpr hx, heq⟩)
    rw [hlive.id] at hne
    simp [SyncRun.finish, hne]
  have hr' : r.finish run.id .succeeded c =
      { r with status := .succeeded, covered := some c, pageErrors := [], leaseToken := none, leaseExpiresAt := none } := by
    simp [SyncRun.finish, hlive.id, hlive.running, RunOutcome.status, RunOutcome.pageErrors]
  have hmap : t.runs = earlier ++ r.finish run.id .succeeded c :: rest := by
    rw [hruns, hsplit, List.map_append, List.map_cons, List.map_congr_left fun x hx => hother x (.inl hx),
      List.map_congr_left fun x hx => hother x (.inr hx), List.map_id', List.map_id']
  have hnone : covers run.series r = none := covers_running (by rw [hlive.running]; decide) _
  constructor
  · have hrest : rest.filterMap (covers run.series) = [] := by
      rw [List.filterMap_eq_nil_iff]
      intro x hx
      by_cases hseries : x.series = run.series
      · exact absurd hlive.running ((List.pairwise_cons.mp hlater).1 x hx (hlive.series.trans hseries.symm))
      · simp [covers, hseries]
    have hsome : covers run.series (r.finish run.id .succeeded c) = some c := by
      rw [hr']
      simp [covers, hlive.series]
    rw [coverages, coverages, hmap, hsplit, List.filterMap_append, List.filterMap_append, List.filterMap_cons_some hsome,
      List.filterMap_cons_none hnone, hrest, List.append_nil]
  · intro series hne
    have hsame : covers series (r.finish run.id .succeeded c) = covers series r := by
      rw [hr', covers_running (r := r) (by rw [hlive.running]; decide)]
      simp [covers, hlive.series, Ne.symm hne]
    rw [coverages, coverages, hmap, hsplit, List.filterMap_append, List.filterMap_append, List.filterMap_cons,
      List.filterMap_cons, hsame]

theorem recordPage_quiet {Row : Type} {table : ObservationTable Row} {run : RunHandle} {rawHash : Text} {rows : List Row}
    (hruns : ∀ stored t, (table.put stored t).runs = t.runs)
    (hcompleteness : ∀ stored t, (table.put stored t).completeness = t.completeness)
    (h : Prod.snd <$> recordPage table w.tables now run rawHash rows = .ok t) :
    (∀ series, coverages t series = coverages w.tables series) ∧ t.completeness = w.tables.completeness := by
  obtain ⟨out, hout, h⟩ := bind_ok.mp h
  cases h
  obtain ⟨-, hruns, hcompleteness⟩ := recordPage_ok hruns hcompleteness hout
  exact ⟨coverages_map (fun r _ => covers_count _ _ r) hruns, hcompleteness⟩

/-- The inversion of a step. -/
theorem publishes_of_works (h : Recorded w) (hw : Works w a w') : Publishes w a w'.tables := by
  cases hw with
  | tick => exact .quiet nofun (fun _ => rfl) rfl
  | @begin checkedAt now id leaseToken series requestedFrom requestedTo leaseExpiresAt run tables _ _ hrun =>
    obtain ⟨-, -, -, -, hout⟩ := beginRun_ok.mp hrun
    obtain ⟨-, rfl⟩ := Prod.mk.inj hout
    refine .quiet nofun (fun s => ?_) rfl
    have hswept := coverages_map (t := { w.tables with runs := w.tables.runs.map (SyncRun.sweep now) })
      (fun r _ => covers_sweep now r) rfl s
    rw [← hswept, coverages, coverages, List.filterMap_append, List.filterMap_cons_none (by simp [covers])]
    exact List.append_nil _
  | @call now c tables _ hcall =>
    cases c with
    | prices run rawHash rows =>
      obtain ⟨hcoverages, hcompleteness⟩ := recordPage_quiet (fun _ _ => rfl) (fun _ _ => rfl) hcall
      exact .quiet nofun hcoverages hcompleteness
    | accruedInterest run rawHash rows =>
      obtain ⟨hcoverages, hcompleteness⟩ := recordPage_quiet (fun _ _ => rfl) (fun _ _ => rfl) hcall
      exact .quiet nofun hcoverages hcompleteness
    | fx run rawHash rows =>
      obtain ⟨hcoverages, hcompleteness⟩ := recordPage_quiet (fun _ _ => rfl) (fun _ _ => rfl) hcall
      exact .quiet nofun hcoverages hcompleteness
    | keyRate run rawHash rows =>
      obtain ⟨hcoverages, hcompleteness⟩ := recordPage_quiet (fun _ _ => rfl) (fun _ _ => rfl) hcall
      exact .quiet nofun hcoverages hcompleteness
    | finish run outcome coverage updatedAt =>
      obtain ⟨r, hr, hlive, c, hc, horder, hruns, ⟨hout, hcompleteness⟩ | ⟨rfl, hcompleteness⟩⟩ := finishRun_ok hcall
      · refine .quiet (fun _ _ _ heq => ?_) (coverages_map (fun r _ => covers_finish hout _ _ r) hruns) hcompleteness
        cases heq
        exact hout rfl
      · obtain ⟨hown, hothers⟩ := coverages_finish h hr hlive hruns
        exact .ends rfl hr hlive.id hc horder hown hothers hcompleteness

end

/-! ### Steps and runs -/

section
variable {w w' : World} {a : Act} {as : List Act} {instruments : List Text} {clock : Moment}

theorem Works.reached (h : Works w a w') (hw : Reached w) : Reached w' := by
  cases h with
  | tick hclock => exact hw.tick hclock
  | begin hclock hchecked hrun => exact hw.begin hclock hchecked hrun
  | call hclock hcall => exact hw.call hclock hcall

/-- A run of a series is running only behind all others of it. -/
theorem order_of_works (h : Recorded w) (hw : Works w a w') :
    w'.tables.runs.Pairwise fun r later => r.series = later.series → r.status ≠ .running := by
  have hmap {new : List Text} {f : SyncRun → SyncRun} (hf : ∀ r, Steps new r (f r)) :
      (w.tables.runs.map f).Pairwise fun r later => r.series = later.series → r.status ≠ .running := by
    refine List.pairwise_map.mpr (h.order.imp fun {r later} hearlier hseries hrunning => ?_)
    rw [(hf r).series, (hf later).series] at hseries
    exact hearlier hseries ((hf r).of_running hrunning).1
  cases hw with
  | tick => exact h.order
  | @begin checkedAt now id leaseToken series requestedFrom requestedTo leaseExpiresAt run tables _ _ hrun =>
    obtain ⟨-, -, hfree, -, hout⟩ := beginRun_ok.mp hrun
    obtain ⟨-, rfl⟩ := Prod.mk.inj hout
    refine List.pairwise_append.mpr ⟨hmap (steps_sweep now), List.pairwise_singleton _ _, ?_⟩
    intro swept hswept later hlater hseries
    obtain ⟨r, hr, rfl⟩ := List.mem_map.mp hswept
    rw [List.mem_singleton.mp hlater, (steps_sweep now r).series] at hseries
    exact hfree r hr hseries
  | @call now c tables _ hcall =>
    obtain ⟨f, hf, hruns⟩ := (Call.apply_ok hcall).runs
    dsimp only
    rw [hruns]
    exact hmap hf

/-- The boundary of the series whose run ends well, and of the others. -/
theorem completeThrough_publish {t : Tables} {new : SeriesCompleteness}
    (h : t.completeness = publish w.tables.completeness new) :
    (completeThrough t new.series = match completeThrough w.tables new.series with
      | some boundary => some (if boundary < new.completeThrough then new.completeThrough else boundary)
      | none => some new.completeThrough) ∧
    ∀ series, series ≠ new.series → completeThrough t series = completeThrough w.tables series := by
  constructor
  · simp only [completeThrough, h, find_publish_same, Option.map_some, written]
    cases w.tables.completeness.find? fun c => c.series = new.series <;> rfl
  · intro series hne
    rw [completeThrough, h, find_publish_other hne, completeThrough]

theorem recorded_of_works (hreached : Reached w) (h : Recorded w) (hw : Works w a w') : Recorded w' := by
  have hlease := inv_of_reached (hw.reached hreached)
  have horder := order_of_works h hw
  rcases publishes_of_works h hw with ⟨-, hcoverages, hcompleteness⟩ |
    @⟨run, coverage, updatedAt, r, c, -, -, -, -, hc, hown, hothers, hcompleteness⟩
  · have hsame : ∀ series, completeThrough w'.tables series = completeThrough w.tables series := fun series => by
      rw [completeThrough, hcompleteness, completeThrough]
    refine ⟨hlease, horder, hcompleteness ▸ h.rows, fun series hnone => ?_, fun series boundary hsome => ?_⟩
    · rw [hcoverages]
      exact h.silent series (hsame series ▸ hnone)
    · rw [hcoverages]
      exact h.bounds series boundary (hsame series ▸ hsome)
  · obtain ⟨hsame, hother⟩ := completeThrough_publish hcompleteness
    dsimp only at hsame hother
    refine ⟨hlease, horder, hcompleteness ▸ nodup_publish h.rows, fun series hnone => ?_, fun series boundary hsome => ?_⟩
    · by_cases hseries : series = run.series
      · rw [hseries, hsame] at hnone
        split at hnone <;> cases hnone
      · rw [hothers series hseries]
        exact h.silent series (hother series hseries ▸ hnone)
    · by_cases hseries : series = run.series
      · rw [hseries, hsame] at hsome
        rw [hseries, hown]
        split at hsome
        · next old hold =>
          cases hsome
          exact (h.bounds _ _ hold).append c
        · next hold =>
          cases hsome
          rw [h.silent _ hold]
          exact bounds_singleton hc
      · rw [hothers series hseries]
        exact h.bounds series boundary (hother series hseries ▸ hsome)

/-- A step keeps the boundaries truthful exactly when it joins. -/
theorem honest_iff (h : Recorded w) (hhonest : Honest w.tables) (hw : Works w a w') :
    Honest w'.tables ↔ Joins w a := by
  rcases publishes_of_works h hw with ⟨hquiet, hcoverages, hcompleteness⟩ |
    @⟨run, coverage, updatedAt, r, c, rfl, hr, hid, hcovered, hc, hown, hothers, hcompleteness⟩
  · refine iff_of_true (fun series boundary hsome => ?_) fun run coverage updatedAt heq => absurd heq (hquiet _ _ _)
    rw [completeThrough, hcompleteness] at hsome
    rw [hcoverages]
    exact hhonest series boundary hsome
  obtain ⟨hsame, hother⟩ := completeThrough_publish hcompleteness
  dsimp only at hsame hother
  have hone : ∀ r' ∈ w.tables.runs, r'.id = run.id → r' = r := fun r' hr' hid' =>
    List.inj_on_of_nodup_map h.lease.ids hr' hr (hid'.trans hid.symm)
  constructor
  · rintro hafter _ _ _ ⟨⟩ r' hr' hid' boundary hboundary
    rw [hone r' hr' hid', ← hcovered]
    have hnew := hafter run.series (later boundary c) (by rw [hsame, hboundary]; rfl)
    rw [hown] at hnew
    exact (truthful_append_iff (h.bounds _ _ hboundary) (hhonest _ _ hboundary)).mp hnew
  · intro hjoins series boundary hsome
    by_cases hseries : series = run.series
    · rw [hseries, hsame] at hsome
      rw [hseries, hown]
      split at hsome
      · next old hold =>
        cases hsome
        have hjoin := hjoins run coverage updatedAt rfl r hr hid old hold
        rw [← hcovered] at hjoin
        exact (truthful_append_iff (h.bounds _ _ hold) (hhonest _ _ hold)).mpr hjoin
      · next hold =>
        cases hsome
        rw [h.silent _ hold]
        exact truthful_singleton
    · rw [hothers series hseries]
      exact hhonest series boundary (hother series hseries ▸ hsome)

/-- A step leaves the answers at a moment as they are exactly when the row that it writes stays there. -/
theorem answers_iff (hreached : Reached w) (h : Recorded w) (hw : Works w a w') (k : Text) :
    (∀ series, completeThroughAtOrBefore w'.tables series k = completeThroughAtOrBefore w.tables series k) ↔
      StaysAt k w a := by
  have hrows := (recorded_of_works hreached h hw).rows
  simp only [completeThroughAtOrBefore_eq hrows, completeThroughAtOrBefore_eq h.rows]
  rcases publishes_of_works h hw with ⟨hquiet, hcoverages, hcompleteness⟩ |
    @⟨run, coverage, updatedAt, r, c, rfl, hr, hid, hcovered, hc, hown, hothers, hcompleteness⟩
  · refine iff_of_true (fun series => ?_) fun run coverage updatedAt heq => absurd heq (hquiet _ _ _)
    rw [hcompleteness]
  have hone : ∀ r' ∈ w.tables.runs, r'.id = run.id → r' = r := fun r' hr' hid' =>
    List.inj_on_of_nodup_map h.lease.ids hr' hr (hid'.trans hid.symm)
  have hfind := @find_publish_same w.tables.completeness ⟨run.series, c.«to», updatedAt, run.id⟩
  dsimp only at hfind
  have hseries : (∀ series, ((w'.tables.completeness.find? fun c => c.series = series).bind fun row =>
        if row.updatedAt ≤ k then some row.completeThrough else none) =
      (w.tables.completeness.find? fun c => c.series = series).bind fun row =>
        if row.updatedAt ≤ k then some row.completeThrough else none) ↔
      ((w'.tables.completeness.find? fun c => c.series = run.series).bind fun row =>
        if row.updatedAt ≤ k then some row.completeThrough else none) =
      (w.tables.completeness.find? fun c => c.series = run.series).bind fun row =>
        if row.updatedAt ≤ k then some row.completeThrough else none := by
    refine ⟨fun hall => hall run.series, fun heq series => ?_⟩
    by_cases hne : series = run.series
    · rw [hne]
      exact heq
    · rw [hcompleteness, find_publish_other hne]
  rw [hseries, hcompleteness, hfind]
  have hstays : StaysAt k w (.call (.finish run .succeeded coverage updatedAt)) ↔
      match w.tables.completeness.find? fun c => c.series = run.series with
      | none => ¬ updatedAt ≤ k
      | some old => (old.updatedAt ≤ k ↔ updatedAt ≤ k) ∧ (updatedAt ≤ k → c.«to» ≤ old.completeThrough) := by
    constructor
    · intro hstays
      rw [hcovered]
      exact hstays run coverage updatedAt rfl r hr hid
    · rintro hmatch _ _ _ ⟨⟩ r' hr' hid'
      rw [hone r' hr' hid', ← hcovered]
      exact hmatch
  rw [hstays]
  cases w.tables.completeness.find? fun c => c.series = run.series with
  | none => simp [written]
  | some old =>
    simp only [Option.bind_some, written]
    by_cases hnew : updatedAt ≤ k <;> by_cases hold : old.updatedAt ≤ k <;> simp [hnew, hold]
    exact ⟨fun himp => not_lt.mp fun hlt => hlt.ne' (himp hlt), fun hle hlt => absurd hle (not_le.mpr hlt)⟩

/-- A run keeps what holds in every state. -/
theorem recorded_of_run (h : Run Works (.start instruments clock) as w) : Reached w ∧ Recorded w := by
  refine h.keeps (P := fun w => Reached w ∧ Recorded w) (fun hs hstep => ?_) ?_
  · obtain ⟨hreached, hrecorded⟩ := hs
    exact ⟨hstep.reached hreached, recorded_of_works hreached hrecorded hstep⟩
  · have hreached := Reached.start instruments clock
    exact ⟨hreached, ⟨inv_of_reached hreached, .nil, List.nodup_nil, fun _ _ => rfl, nofun⟩⟩

/-- Where every successful end joins, the boundaries stay truthful. -/
theorem honest_of_run (hreached : Reached w) (hrecorded : Recorded w) (hhonest : Honest w.tables)
    (h : Run (fun w a w' => Works w a w' ∧ Joins w a) w as w') : Honest w'.tables := by
  have hall : Reached w' ∧ Recorded w' ∧ Honest w'.tables := by
    refine h.keeps (P := fun w => Reached w ∧ Recorded w ∧ Honest w.tables) (fun hs hstep => ?_)
      ⟨hreached, hrecorded, hhonest⟩
    obtain ⟨hreached, hrecorded, hhonest⟩ := hs
    exact ⟨hstep.1.reached hreached, recorded_of_works hreached hrecorded hstep.1,
      (honest_iff hrecorded hhonest hstep.1).mpr hstep.2⟩
  exact hall.2.2

/-- Where every row that is written stays at a moment, so do the answers for it. -/
theorem answers_of_run {k : Text} (hreached : Reached w) (hrecorded : Recorded w)
    (h : Run (fun w a w' => Works w a w' ∧ StaysAt k w a) w as w') (series : SeriesKey) :
    completeThroughAtOrBefore w'.tables series k = completeThroughAtOrBefore w.tables series k := by
  have hall : Reached w' ∧ Recorded w' ∧
      completeThroughAtOrBefore w'.tables series k = completeThroughAtOrBefore w.tables series k := by
    refine h.keeps (P := fun v => Reached v ∧ Recorded v ∧
      completeThroughAtOrBefore v.tables series k = completeThroughAtOrBefore w.tables series k) (fun hs hstep => ?_)
      ⟨hreached, hrecorded, rfl⟩
    obtain ⟨hreached, hrecorded, hsame⟩ := hs
    exact ⟨hstep.1.reached hreached, recorded_of_works hreached hrecorded hstep.1,
      ((answers_iff hreached hrecorded hstep.1 k).mpr hstep.2 series).trans hsame⟩
  exact hall.2.2

/-- In every run whose successful ends all join, the boundaries are truthful; while they are, a step keeps them so exactly
    when it joins. Whatever runs follow, they leave the answers at a moment as they are when every row they write stays
    there, and one step does so only then. -/
theorem completeness_of_run (h : Run Works (.start instruments clock) as w) :
    (Run (fun w a w' => Works w a w' ∧ Joins w a) (.start instruments clock) as w → Honest w.tables) ∧
    (Honest w.tables → ∀ a w', Works w a w' → (Honest w'.tables ↔ Joins w a)) ∧
    ∀ k, (∀ as' w', Run (fun w a w' => Works w a w' ∧ StaysAt k w a) w as' w' →
        ∀ series, completeThroughAtOrBefore w'.tables series k = completeThroughAtOrBefore w.tables series k) ∧
      ∀ a w', Works w a w' →
        ((∀ series, completeThroughAtOrBefore w'.tables series k = completeThroughAtOrBefore w.tables series k) ↔
          StaysAt k w a) := by
  obtain ⟨hreached, hrecorded⟩ := recorded_of_run h
  obtain ⟨hreached₀, hrecorded₀⟩ := recorded_of_run (.nil (World.start instruments clock))
  exact ⟨honest_of_run hreached₀ hrecorded₀ nofun, fun hhonest a w' hw => honest_iff hrecorded hhonest hw,
    fun k => ⟨fun as' w' hrun => answers_of_run hreached hrecorded hrun,
      fun a w' hw => answers_iff hreached hrecorded hw k⟩⟩

end

/-! ### An outage of forty days -/

theorem year_is_written : 2026 ≤ 9999 := by decide
theorem no_fraction : 0 < 10 ^ 9 := by decide
theorem august_is_month : 1 ≤ 8 ∧ 8 ≤ 12 := by decide
theorem first_of_august : 1 ≤ 1 ∧ 1 ≤ daysInMonth 2026 8 := by decide

/-- Seconds after seven in the evening of a day of 2026. -/
def evening (month day second : Nat) (hmonth : 1 ≤ month ∧ month ≤ 12) (hday : 1 ≤ day ∧ day ≤ daysInMonth 2026 month)
    (hsecond : second < 60) : Moment :=
  ⟨⟨2026, month, day, 19, 0, second, year_is_written, hmonth, hday, by decide, start_of_minute, hsecond⟩, 0, no_fraction⟩

/-- The first of July and the tenth of August, with the first of August between them. -/
def july (second : Nat) (h : second < 60) : Moment := evening 7 1 second (by decide) (by decide) h
def august (second : Nat) (h : second < 60) : Moment := evening 8 10 second august_is_month (by decide) h
def between : Moment := evening 8 1 0 august_is_month first_of_august start_of_minute

theorem outage_clock : july 0 (by decide) ≤ july 1 (by decide) ∧ july 1 (by decide) ≤ august 0 (by decide) ∧
    august 0 (by decide) ≤ august 1 (by decide) ∧ between < august 0 (by decide) := by
  decide

def outageStart : World := .start [] (july 0 start_of_minute)

/-- The days that the job asks for on the first evening. -/
def firstDays : Coverage := ⟨⟨20623⟩, ⟨20635⟩⟩

/-- The days that it asks for forty days later. -/
def laterDays : Coverage := ⟨⟨20654⟩, ⟨20675⟩⟩

def firstRun : Except StoreError Tables := do
  let (run, t) ← beginRun outageStart.tables (july 0 start_of_minute) (july 0 start_of_minute) ['1'] ['a'] rates
    firstDays.«from» firstDays.«to» (july 30 (by decide))
  finishRun t (july 1 (by decide)) run .succeeded (some firstDays) (july 1 (by decide)).rfc3339

def laterRun (t : Tables) : Except StoreError Tables := do
  let (run, t) ← beginRun t (august 0 start_of_minute) (august 0 start_of_minute) ['2'] ['b'] rates
    laterDays.«from» laterDays.«to» (august 30 (by decide))
  finishRun t (august 1 (by decide)) run .succeeded (some laterDays) (august 1 (by decide)).rfc3339

/-- After the first run the boundary is its last day. -/
theorem honest_after_first : ∃ as w, Run (fun w a w' => Works w a w' ∧ Joins w a) outageStart as w ∧
    completeThrough w.tables rates = some firstDays.«to» ∧ Honest w.tables := by
  obtain ⟨t, ht⟩ := exists_ok (show firstRun.isOk = true by decide)
  have hboundary : completeThrough t rates = some firstDays.«to» :=
    read_of_ok ht (fun t => completeThrough t rates) (by decide)
  obtain ⟨⟨run, t₀⟩, hbegin, hfinish⟩ := bind_ok.mp ht
  have hrun : Run (fun w a w' => Works w a w' ∧ Joins w a) outageStart
      [.begin run, .call (.finish run .succeeded (some firstDays) (july 1 (by decide)).rfc3339)]
      ⟨t, july 1 (by decide), [(run, july 30 (by decide))], [run.id]⟩ := by
    refine .cons ⟨.begin le_rfl le_rfl hbegin, nofun⟩ (.cons ⟨.call outage_clock.1 hfinish, ?_⟩ (.nil _))
    rintro run' coverage updatedAt ⟨⟩ r hr hid boundary hnone
    obtain ⟨-, -, -, -, hout⟩ := beginRun_ok.mp hbegin
    obtain ⟨-, rfl⟩ := Prod.mk.inj hout
    cases hnone
  have hworks := hrun.map id fun _ hstep => hstep.1
  exact ⟨_, _, hrun, hboundary, (completeness_of_run hworks).1 hrun⟩

/-- The job skips the days that an outage lost, and the boundary passes them. What was answered for a moment between the
    runs is answered no more after the second one. -/
theorem outage_skips_days :
    MarketSchedule.default.dueWindow ⟨20635⟩ ⟨19 * 3600 * 10 ^ 9⟩ ⟨20630⟩ ⟨true, none⟩ =
      some (firstDays.«from», firstDays.«to») ∧
    MarketSchedule.default.dueWindow ⟨20675⟩ ⟨19 * 3600 * 10 ^ 9⟩ ⟨20630⟩ ⟨true, some ⟨20635⟩⟩ =
      some (laterDays.«from», laterDays.«to») ∧
    ∃ as as' w w', Run Works outageStart as w ∧ between < w.clock ∧ Run Works w as' w' ∧
      completeThrough w'.tables rates = some laterDays.«to» ∧ ¬ Honest w'.tables ∧
      completeThroughAtOrBefore w.tables rates between.rfc3339 = some firstDays.«to» ∧
      completeThroughAtOrBefore w'.tables rates between.rfc3339 = none := by
  refine ⟨by decide, by decide, ?_⟩
  obtain ⟨t', ht'⟩ := exists_ok (show (firstRun >>= laterRun).isOk = true by decide)
  have hread' : (completeThrough t' rates, coverages t' rates, completeThroughAtOrBefore t' rates between.rfc3339) =
      (some laterDays.«to», [firstDays, laterDays], none) :=
    read_of_ok ht' (fun t => (completeThrough t rates, coverages t rates,
      completeThroughAtOrBefore t rates between.rfc3339)) (by decide)
  simp only [Prod.mk.injEq] at hread'
  obtain ⟨hboundary, hcoverages, hafter⟩ := hread'
  obtain ⟨t, ht, hlater⟩ := bind_ok.mp ht'
  have hbefore : completeThroughAtOrBefore t rates between.rfc3339 = some firstDays.«to» :=
    read_of_ok ht (fun t => completeThroughAtOrBefore t rates between.rfc3339) (by decide)
  obtain ⟨⟨run, t₀⟩, hbegin, hfinish⟩ := bind_ok.mp ht
  obtain ⟨⟨run', t₁⟩, hbegin', hfinish'⟩ := bind_ok.mp hlater
  obtain ⟨hends, hresumes, hends', hbetween⟩ := outage_clock
  have hfirst : Run Works outageStart
      [.begin run, .call (.finish run .succeeded (some firstDays) (july 1 (by decide)).rfc3339), .tick]
      ⟨t, august 0 (by decide), [(run, july 30 (by decide))], [run.id]⟩ :=
    .cons (.begin le_rfl le_rfl hbegin) (.cons (.call hends hfinish) (.cons (.tick hresumes) (.nil _)))
  have hsecond : Run Works ⟨t, august 0 (by decide), [(run, july 30 (by decide))], [run.id]⟩
      [.begin run', .call (.finish run' .succeeded (some laterDays) (august 1 (by decide)).rfc3339)]
      ⟨t', august 1 (by decide), [(run, july 30 (by decide)), (run', august 30 (by decide))], [run'.id, run.id]⟩ :=
    .cons (.begin le_rfl le_rfl hbegin') (.cons (.call hends' hfinish') (.nil _))
  refine ⟨_, _, _, _, hfirst, hbetween, hsecond, hboundary, fun hhonest => ?_, hbefore, hafter⟩
  -- the day after the first run is in neither interval
  obtain ⟨first, rest, heq, hall⟩ := hhonest rates laterDays.«to» hboundary
  rw [hcoverages] at heq hall
  cases heq
  obtain ⟨c, hc, hfrom, hto⟩ := hall ⟨20636⟩ (by decide) (by decide)
  rcases List.mem_pair.mp hc with rfl | rfl
  · exact absurd hto (by decide)
  · exact absurd hfrom (by decide)

end Market
end Iaam
