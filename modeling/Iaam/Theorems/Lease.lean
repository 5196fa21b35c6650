import Iaam.Store.Market
import Iaam.Theorems.Stamp

/-! The lease of a series, over any interleaving of workers. A run is running only while its lease is in the table, so two
runs of a series are never running and a handle whose lease is over does nothing. Whether a lease is over is asked in two
ways: a worker that writes compares moments, a worker that begins compares texts. -/

namespace Iaam
namespace Market
open Outcome Moment

/-! ### Runs of workers -/

/-- What a worker does through its handle. -/
inductive Call where
  | prices (run : RunHandle) (rawHash : Text) (rows : List PriceRow)
  | accruedInterest (run : RunHandle) (rawHash : Text) (rows : List AccruedInterestRow)
  | fx (run : RunHandle) (rawHash : Text) (rows : List FxRow)
  | keyRate (run : RunHandle) (rawHash : Text) (rows : List KeyRateRow)
  | finish (run : RunHandle) (outcome : RunOutcome) (coverage : Option Coverage) (updatedAt : Text)

namespace Call

def handle : Call → RunHandle
  | prices run _ _ | accruedInterest run _ _ | fx run _ _ | keyRate run _ _ | finish run _ _ _ => run

def apply (t : Tables) (now : Moment) : Call → Except StoreError Tables
  | prices run rawHash rows => Prod.snd <$> recordPrices t now run rawHash rows
  | accruedInterest run rawHash rows => Prod.snd <$> recordAccruedInterest t now run rawHash rows
  | fx run rawHash rows => Prod.snd <$> recordFx t now run rawHash rows
  | keyRate run rawHash rows => Prod.snd <$> recordKeyRate t now run rawHash rows
  | finish run outcome coverage updatedAt => finishRun t now run outcome coverage updatedAt

/-- The run that a call ends well. -/
def published : Call → List Text
  | finish run .succeeded _ _ => [run.id]
  | _ => []

end Call

/-- The tables with the clock, the leases that were given, oldest first, and the runs that were ended well. -/
structure World where
  tables : Tables
  clock : Moment
  issued : List (RunHandle × Moment)
  succeeded : List Text

/-- What any number of workers can reach. A call that fails is rolled back. -/
inductive Reached : World → Prop
  | start (instruments : List Text) (clock : Moment) : Reached ⟨{ instruments }, clock, [], []⟩
  | tick {w : World} {now : Moment} (h : Reached w) (hclock : w.clock ≤ now) : Reached { w with clock := now }
  | begin {w : World} {checkedAt now : Moment} {id leaseToken : Text} {series : SeriesKey} {requestedFrom requestedTo : Date}
      {leaseExpiresAt : Moment} {run : RunHandle} {tables : Tables} (h : Reached w) (hclock : w.clock ≤ now)
      (hchecked : checkedAt ≤ now)
      (hrun : beginRun w.tables checkedAt now id leaseToken series requestedFrom requestedTo leaseExpiresAt =
        .ok (run, tables)) : Reached ⟨tables, now, w.issued ++ [(run, leaseExpiresAt)], w.succeeded⟩
  | call {w : World} {now : Moment} {c : Call} {tables : Tables} (h : Reached w) (hclock : w.clock ≤ now)
      (hcall : c.apply w.tables now = .ok tables) : Reached ⟨tables, now, w.issued, c.published ++ w.succeeded⟩

/-! ### What a step does to the runs -/

/-- A run after a step: as it was, but for what it counts, or ended and without a lease. -/
structure Steps (new : List Text) (r r' : SyncRun) : Prop where
  id : r'.id = r.id
  series : r'.series = r.series
  lease : (r'.status = r.status ∧ r'.leaseToken = r.leaseToken ∧ r'.leaseExpiresAt = r.leaseExpiresAt) ∨
    (r'.status ≠ .running ∧ r'.leaseToken = none ∧ (r'.status = .succeeded → r.id ∈ new))

/-- A run that a handle may write to. -/
structure Live (now : Moment) (run : RunHandle) (r : SyncRun) : Prop where
  id : r.id = run.id
  token : r.leaseToken = some run.leaseToken
  series : r.series = run.series
  running : r.status = .running
  lease : ∃ expires, r.leaseExpiresAt = some expires ∧ now < expires

section
variable {t t' : Tables} {checkedAt now : Moment} {id leaseToken : Text} {series : SeriesKey}
  {requestedFrom requestedTo : Date} {leaseExpiresAt : Moment} {run : RunHandle}

theorem steps_refl (new : List Text) (r : SyncRun) : Steps new r r := ⟨rfl, rfl, .inl ⟨rfl, rfl, rfl⟩⟩

theorem steps_sweep (now : Moment) (r : SyncRun) : Steps [] r (r.sweep now) := by
  simp only [SyncRun.sweep]
  split
  · exact ⟨rfl, rfl, .inr ⟨nofun, rfl, nofun⟩⟩
  · exact steps_refl [] r

theorem steps_count (id : Text) (rows : Nat) (r : SyncRun) : Steps [] r (r.count id rows) := by
  simp only [SyncRun.count]
  split
  · exact ⟨rfl, rfl, .inl ⟨rfl, rfl, rfl⟩⟩
  · exact steps_refl [] r

theorem steps_finish (run : RunHandle) (outcome : RunOutcome) (coverage : Option Coverage) (updatedAt : Text)
    (covered : Coverage) (r : SyncRun) :
    Steps (Call.finish run outcome coverage updatedAt).published r (r.finish run.id outcome covered) := by
  simp only [SyncRun.finish]
  split
  · next hrun =>
    simp only [Bool.and_eq_true, decide_eq_true_eq] at hrun
    refine ⟨rfl, rfl, .inr ⟨?_, rfl, ?_⟩⟩
    · cases outcome <;> nofun
    · intro hstatus
      cases outcome with
      | succeeded => exact List.mem_singleton.mpr hrun.1
      | partialWith reason => cases hstatus
      | failed reason => cases hstatus
  · exact steps_refl _ r

theorem ensureRun_ok {dates : Date × Date} (h : ensureRun t now run = .ok dates) :
    ∃ r ∈ t.runs, Live now run r ∧ dates = (r.requestedFrom, r.requestedTo) := by
  simp only [ensureRun] at h
  split at h
  · cases h
  · next r hfind =>
    have hrow := List.find?_some hfind
    simp only [Bool.and_eq_true, decide_eq_true_eq] at hrow
    split at h
    · cases h
    · next hseries =>
      split at h
      · cases h
      · next hrunning =>
        split at h
        · cases h
        · next expires hexpires =>
          split at h
          · cases h
          · next hlive =>
            cases h
            exact ⟨r, List.mem_of_find?_eq_some hfind,
              ⟨hrow.1, hrow.2, not_not.mp hseries, not_not.mp hrunning, expires, hexpires, not_le.mp hlive⟩, rfl⟩

/-- What a call that succeeds did: a live run of its handle, and a step of every run. -/
theorem recordPage_ok {Row : Type} {table : ObservationTable Row} {rawHash : Text} {rows : List Row} {out : Nat × Tables}
    (hruns : ∀ stored t, (table.put stored t).runs = t.runs)
    (hcompleteness : ∀ stored t, (table.put stored t).completeness = t.completeness)
    (h : recordPage table t now run rawHash rows = .ok out) :
    (∃ r ∈ t.runs, Live now run r) ∧ out.2.runs = t.runs.map (SyncRun.count run.id rows.length) ∧
      out.2.completeness = t.completeness := by
  obtain ⟨dates, hensure, h⟩ := bind_ok.mp h
  obtain ⟨stored, -, h⟩ := bind_ok.mp h
  split at h
  · cases h
  · cases h
    obtain ⟨r, hr, hlive, -⟩ := ensureRun_ok hensure
    exact ⟨⟨r, hr, hlive⟩, hruns _ _, hcompleteness _ _⟩

/-- The end of a run: its interval is the given one or the one it asked for. -/
theorem finishRun_ok {outcome : RunOutcome} {coverage : Option Coverage} {updatedAt : Text}
    (h : finishRun t now run outcome coverage updatedAt = .ok t') :
    ∃ r ∈ t.runs, Live now run r ∧ ∃ covered, covered = coverage.getD ⟨r.requestedFrom, r.requestedTo⟩ ∧
      covered.«from» ≤ covered.«to» ∧ t'.runs = t.runs.map (SyncRun.finish run.id outcome covered) ∧
      ((outcome ≠ .succeeded ∧ t'.completeness = t.completeness) ∨ (outcome = .succeeded ∧
        t'.completeness = publish t.completeness ⟨run.series, covered.«to», updatedAt, run.id⟩)) := by
  obtain ⟨dates, hensure, h⟩ := bind_ok.mp h
  obtain ⟨r, hr, hlive, rfl⟩ := ensureRun_ok hensure
  refine ⟨r, hr, hlive, _, rfl, ?_⟩
  dsimp only at h
  split at h
  · cases h
  · next horder =>
    cases h
    refine ⟨not_lt.mp horder, rfl, ?_⟩
    cases outcome with
    | succeeded => exact .inr ⟨rfl, rfl⟩
    | partialWith reason => exact .inl ⟨nofun, rfl⟩
    | failed reason => exact .inl ⟨nofun, rfl⟩

/-- A step of the tables through a handle. -/
structure CallDid (t : Tables) (now : Moment) (c : Call) (t' : Tables) : Prop where
  live : ∃ r ∈ t.runs, Live now c.handle r
  runs : ∃ f, (∀ r, Steps c.published r (f r)) ∧ t'.runs = t.runs.map f
  completeness : t'.completeness = t.completeness ∨ ∃ new, t'.completeness = publish t.completeness new

theorem Call.apply_ok {c : Call} (h : c.apply t now = .ok t') : CallDid t now c t' := by
  have hpage : ∀ {Row : Type} {table : ObservationTable Row} {run : RunHandle} {rawHash : Text} {rows : List Row},
      (∀ stored t, (table.put stored t).runs = t.runs) →
      (∀ stored t, (table.put stored t).completeness = t.completeness) →
      Prod.snd <$> recordPage table t now run rawHash rows = .ok t' → c.handle = run → c.published = [] → CallDid t now c t' := by
    intro Row table run rawHash rows hruns hcompleteness h hhandle hpublished
    obtain ⟨out, hout, h⟩ := bind_ok.mp h
    cases h
    obtain ⟨hlive, hruns, hcompleteness⟩ := recordPage_ok hruns hcompleteness hout
    refine ⟨hhandle ▸ hlive, ⟨_, fun r => ?_, hruns⟩, .inl hcompleteness⟩
    rw [hpublished]
    exact steps_count _ _ r
  cases c with
  | prices run rawHash rows => exact hpage (fun _ _ => rfl) (fun _ _ => rfl) h rfl rfl
  | accruedInterest run rawHash rows => exact hpage (fun _ _ => rfl) (fun _ _ => rfl) h rfl rfl
  | fx run rawHash rows => exact hpage (fun _ _ => rfl) (fun _ _ => rfl) h rfl rfl
  | keyRate run rawHash rows => exact hpage (fun _ _ => rfl) (fun _ _ => rfl) h rfl rfl
  | finish run outcome coverage updatedAt =>
    obtain ⟨r, hr, hlive, covered, -, -, hruns, hcompleteness⟩ := finishRun_ok h
    exact ⟨⟨r, hr, hlive⟩, ⟨_, fun r => steps_finish run outcome coverage updatedAt covered r, hruns⟩,
      hcompleteness.imp (fun hold => hold.2) fun hnew => ⟨_, hnew.2⟩⟩

/-- When a lease is given, and what then stands in the table. -/
theorem beginRun_ok {out : RunHandle × Tables} :
    beginRun t checkedAt now id leaseToken series requestedFrom requestedTo leaseExpiresAt = .ok out ↔
      requestedFrom ≤ requestedTo ∧ checkedAt < leaseExpiresAt ∧
      (∀ r ∈ t.runs, r.series = series → (r.sweep now).status ≠ .running) ∧ id ∉ t.runs.map SyncRun.id ∧
      out = (⟨id, leaseToken, series⟩, { t with runs := t.runs.map (SyncRun.sweep now) ++
        [{ id, series, status := .running, requestedFrom, requestedTo, leaseToken := some leaseToken
           leaseExpiresAt := some leaseExpiresAt }] }) := by
  have hids : (t.runs.map (SyncRun.sweep now)).map SyncRun.id = t.runs.map SyncRun.id := by
    rw [List.map_map]
    exact List.map_congr_left fun r _ => (steps_sweep now r).id
  have hheld : ((t.runs.map (SyncRun.sweep now)).any fun r => r.series = series && r.status = .running) = true ↔
      ∃ r ∈ t.runs, r.series = series ∧ (r.sweep now).status = .running := by
    simp only [List.any_map, List.any_eq_true, Function.comp_apply, Bool.and_eq_true, decide_eq_true_eq,
      (steps_sweep now _).series]
  simp only [beginRun, hids]
  constructor
  · intro h
    split at h
    · cases h
    · next horder =>
      split at h
      · cases h
      · next hlease =>
        split at h
        · cases h
        · next hfree =>
          split at h
          · cases h
          · next hid =>
            cases h
            refine ⟨not_lt.mp horder, not_le.mp hlease, fun r hr hseries hrunning => ?_, hid, rfl⟩
            exact hfree (hheld.mpr ⟨r, hr, hseries, hrunning⟩)
  · rintro ⟨horder, hlease, hfree, hid, rfl⟩
    have hnone : ¬ ((t.runs.map (SyncRun.sweep now)).any fun r => r.series = series && r.status = .running) = true := by
      rw [hheld]
      rintro ⟨r, hr, hseries, hrunning⟩
      exact hfree r hr hseries hrunning
    rw [if_neg (not_lt.mpr horder), if_neg (not_le.mpr hlease), if_neg hnone, if_neg hid]

end

/-! ### What holds in every state -/

/-- Every running run has the lease that was given to it, and it is the last of its series to get one. -/
structure Inv (w : World) : Prop where
  ids : (w.tables.runs.map SyncRun.id).Nodup
  leased : ∀ r ∈ w.tables.runs, r.status = .running → ∃ token expires, r.leaseToken = some token ∧
    r.leaseExpiresAt = some expires ∧ (⟨r.id, token, r.series⟩, expires) ∈ w.issued
  ended : ∀ r ∈ w.tables.runs, r.status ≠ .running → r.leaseToken = none
  one_running : ∀ r ∈ w.tables.runs, ∀ r' ∈ w.tables.runs, r.status = .running → r'.status = .running →
    r.series = r'.series → r = r'
  known : ∀ lease ∈ w.issued, ∃ r ∈ w.tables.runs, r.id = lease.1.id ∧ r.series = lease.1.series
  own : (w.issued.map fun lease => lease.1.id).Nodup
  taken_over : w.issued.Pairwise fun lease later => lease.1.series = later.1.series →
    ∀ r ∈ w.tables.runs, r.id = lease.1.id → r.status ≠ .running
  finished : ∀ r ∈ w.tables.runs, r.status = .succeeded → r.id ∈ w.succeeded

section
variable {w : World} {t : Tables} {clock : Moment} {new : List Text} {f : SyncRun → SyncRun}

/-- A run that still runs after a step ran before it, with the same lease. -/
theorem Steps.of_running {r r' : SyncRun} (h : Steps new r r') (hrunning : r'.status = .running) :
    r.status = .running ∧ r'.leaseToken = r.leaseToken ∧ r'.leaseExpiresAt = r.leaseExpiresAt := by
  rcases h.lease with ⟨hstatus, htoken, hexpires⟩ | ⟨hended, -⟩
  · exact ⟨hstatus ▸ hrunning, htoken, hexpires⟩
  · exact absurd hrunning hended

/-- Steps of the runs that are there keep the invariant. -/
theorem Inv.steps (h : Inv w) (hf : ∀ r, Steps new r (f r)) (hruns : t.runs = w.tables.runs.map f) :
    Inv ⟨t, clock, w.issued, new ++ w.succeeded⟩ := by
  have hids : t.runs.map SyncRun.id = w.tables.runs.map SyncRun.id := by
    rw [hruns, List.map_map]
    exact List.map_congr_left fun r _ => (hf r).id
  refine ⟨hids ▸ h.ids, ?_, ?_, ?_, fun lease hlease => ?_, h.own, ?_, ?_⟩
  all_goals simp only [hruns, List.forall_mem_map]
  · intro r hr hrunning
    obtain ⟨hbefore, htoken, hexpires⟩ := (hf r).of_running hrunning
    rw [htoken, hexpires, (hf r).id, (hf r).series]
    exact h.leased r hr hbefore
  · intro r hr hended
    rcases (hf r).lease with ⟨hstatus, htoken, -⟩ | ⟨-, htoken, -⟩
    · rw [htoken]
      exact h.ended r hr (hstatus ▸ hended)
    · exact htoken
  · intro r hr r' hr' hrunning hrunning' hseries
    rw [(hf r).series, (hf r').series] at hseries
    rw [h.one_running r hr r' hr' ((hf r).of_running hrunning).1 ((hf r').of_running hrunning').1 hseries]
  · obtain ⟨r, hr, hid, hseries⟩ := h.known lease hlease
    exact ⟨f r, List.mem_map_of_mem hr, (hf r).id.trans hid, (hf r).series.trans hseries⟩
  · refine h.taken_over.imp fun hover hseries r hr hid hrunning => ?_
    rw [(hf r).id] at hid
    exact hover hseries r hr hid ((hf r).of_running hrunning).1
  · intro r hr hstatus
    rw [(hf r).id]
    rcases (hf r).lease with ⟨hsame, -, -⟩ | ⟨-, -, hnew⟩
    · exact List.mem_append_right _ (h.finished r hr (hsame ▸ hstatus))
    · exact List.mem_append_left _ (hnew hstatus)

/-- A new run of a series that nothing runs for. -/
theorem Inv.issue (h : Inv w) {r : SyncRun} {token : Text} {expires : Moment} (hid : r.id ∉ w.tables.runs.map SyncRun.id)
    (hrunning : r.status = .running) (htoken : r.leaseToken = some token) (hexpires : r.leaseExpiresAt = some expires)
    (hfree : ∀ r' ∈ w.tables.runs, r'.series = r.series → r'.status ≠ .running)
    (hruns : t.runs = w.tables.runs ++ [r]) :
    Inv ⟨t, clock, w.issued ++ [(⟨r.id, token, r.series⟩, expires)], w.succeeded⟩ := by
  have hnew : ∀ r' ∈ w.tables.runs, r'.id ≠ r.id := fun r' hr' heq => hid (heq ▸ List.mem_map_of_mem hr')
  refine ⟨?_, ?_, ?_, ?_, ?_, ?_, ?_, ?_⟩
  all_goals simp only [hruns, List.forall_mem_append, List.forall_mem_singleton, List.map_append, List.map_singleton]
  · refine List.nodup_append.mpr ⟨h.ids, List.nodup_singleton _, ?_⟩
    rintro a ha _ hb rfl
    exact hid (List.mem_singleton.mp hb ▸ ha)
  · refine ⟨fun r' hr' hrunning' => ?_, fun _ => ⟨token, expires, htoken, hexpires, by simp⟩⟩
    obtain ⟨token', expires', htoken', hexpires', hin⟩ := h.leased r' hr' hrunning'
    exact ⟨token', expires', htoken', hexpires', List.mem_append_left _ hin⟩
  · exact ⟨h.ended, fun hnot => absurd hrunning hnot⟩
  · refine ⟨fun r' hr' => ⟨fun r'' hr'' => h.one_running r' hr' r'' hr'', fun hrunning' _ hseries => ?_⟩,
      fun r' hr' _ hrunning' hseries => ?_, fun _ _ _ => trivial⟩
    · exact absurd hrunning' (hfree r' hr' hseries)
    · exact absurd hrunning' (hfree r' hr' hseries.symm)
  · refine ⟨fun lease hlease => ?_, ⟨r, List.mem_append_right _ (List.mem_singleton_self r), rfl, rfl⟩⟩
    obtain ⟨r', hr', hknown⟩ := h.known lease hlease
    exact ⟨r', List.mem_append_left _ hr', hknown⟩
  · refine List.nodup_append.mpr ⟨h.own, List.nodup_singleton _, ?_⟩
    rintro a ha _ hb rfl
    obtain ⟨lease, hlease, rfl⟩ := List.mem_map.mp ha
    obtain ⟨r', hr', hsame, -⟩ := h.known lease hlease
    exact hnew r' hr' (hsame.trans (List.mem_singleton.mp hb))
  · refine List.pairwise_append.mpr ⟨h.taken_over.imp_of_mem fun {lease _} hlease _ hover hseries => ?_,
      List.pairwise_singleton _ _, fun lease hlease later hlater hseries => ?_⟩
    · obtain ⟨r', hr', hsame, -⟩ := h.known lease hlease
      exact ⟨hover hseries, fun hown => absurd (hsame.trans hown.symm) (hnew r' hr')⟩
    · obtain ⟨r', hr', hsame, hseries'⟩ := h.known lease hlease
      rw [List.mem_singleton.mp hlater] at hseries
      refine ⟨fun r'' hr'' hid' => ?_, fun hown => absurd (hsame.trans hown.symm) (hnew r' hr')⟩
      rw [List.inj_on_of_nodup_map h.ids hr'' hr' (hid'.trans hsame.symm)]
      exact hfree r' hr' (hseries'.trans hseries)
  · exact ⟨h.finished, fun hstatus => by simp [hrunning] at hstatus⟩

theorem inv_of_reached (h : Reached w) : Inv w := by
  induction h with
  | start instruments clock =>
    refine ⟨List.nodup_nil, ?_, ?_, ?_, ?_, List.nodup_nil, List.Pairwise.nil, ?_⟩ <;> simp
  | tick h hclock ih => exact ⟨ih.ids, ih.leased, ih.ended, ih.one_running, ih.known, ih.own, ih.taken_over, ih.finished⟩
  | @begin w checkedAt now id leaseToken series requestedFrom requestedTo leaseExpiresAt run tables h hclock hchecked hrun ih =>
    obtain ⟨-, -, hfree, hid, hout⟩ := beginRun_ok.mp hrun
    obtain ⟨rfl, rfl⟩ := Prod.mk.inj hout
    have hswept : Inv ⟨{ w.tables with runs := w.tables.runs.map (SyncRun.sweep now) }, now, w.issued, [] ++ w.succeeded⟩ :=
      ih.steps (steps_sweep now) rfl
    refine hswept.issue (r := { id, series, status := .running, requestedFrom, requestedTo, leaseToken := some leaseToken
                                leaseExpiresAt := some leaseExpiresAt }) ?_ rfl rfl rfl ?_ rfl
    · rw [List.map_map]
      intro hin
      obtain ⟨r, hr, hsame⟩ := List.mem_map.mp hin
      exact hid (List.mem_map.mpr ⟨r, hr, (steps_sweep now r).id.symm.trans hsame⟩)
    · intro r' hr' hseries
      obtain ⟨r, hr, rfl⟩ := List.mem_map.mp hr'
      exact hfree r hr ((steps_sweep now r).series.symm.trans hseries)
  | call h hclock hcall ih =>
    obtain ⟨f, hf, hruns⟩ := (Call.apply_ok hcall).runs
    exact ih.steps hf hruns

end

/-! ### The lease -/

/-- Another lease of the series was given after that of the handle. -/
def TakenOver (w : World) (run : RunHandle) : Prop :=
  ∃ before expires after later, w.issued = before ++ (run, expires) :: after ∧ later ∈ after ∧ later.1.series = run.series

/-- The rows that readers get are of some of the runs. -/
structure ShowsOnly (shown : Text → Prop) (t : Tables) : Prop where
  prices : ∀ instrumentId venue asOf knowledgeAsOf, ∀ row ∈ pricesAtOrBefore t instrumentId venue asOf knowledgeAsOf,
    ∃ o ∈ t.prices, o.row = row ∧ shown o.syncRunId
  accruedInterest : ∀ instrumentId venue asOf knowledgeAsOf,
    ∀ row ∈ accruedInterestAtOrBefore t instrumentId venue asOf knowledgeAsOf,
    ∃ o ∈ t.accruedInterest, o.row = row ∧ shown o.syncRunId
  pricesForInstrument : ∀ sourceId dataset instrumentId window,
    ∀ row ∈ pricesForInstrumentBetween t sourceId dataset instrumentId window, ∃ o ∈ t.prices, o.row = row ∧ shown o.syncRunId
  pricesBetween : ∀ series instrumentId venue window, ∀ row ∈ pricesBetween t series instrumentId venue window,
    ∃ o ∈ t.prices, o.row = row ∧ shown o.syncRunId
  fx : ∀ series fromCode toCode window, ∀ row ∈ fxBetween t series fromCode toCode window,
    ∃ o ∈ t.fx, o.row = row ∧ shown o.syncRunId
  keyRates : ∀ series through knowledgeAsOf, ∀ row ∈ keyRatesThrough t series through knowledgeAsOf,
    ∃ o ∈ t.keyRates, o.row = row ∧ shown o.syncRunId

/-- A run of the series holds a lease that is not over. -/
def Held (t : Tables) (now : Moment) (series : SeriesKey) : Prop :=
  ∃ r ∈ t.runs, r.series = series ∧ r.status = .running ∧ ∃ expires, r.leaseExpiresAt = some expires ∧ now < expires

/-- Any of the calls, and the tables after it. -/
def StepsTo (t : Tables) (now : Moment) (t' : Tables) : Prop :=
  (∃ c : Call, c.apply t now = .ok t') ∨
  ∃ checkedAt id leaseToken series requestedFrom requestedTo leaseExpiresAt run,
    beginRun t checkedAt now id leaseToken series requestedFrom requestedTo leaseExpiresAt = .ok (run, t')

/-- What the lease is for, at a moment of the clock. -/
structure Excludes (w : World) (now : Moment) : Prop where
  one_running : ∀ r ∈ w.tables.runs, ∀ r' ∈ w.tables.runs, r.status = .running → r'.status = .running →
    r.series = r'.series → r = r'
  stale_fails : ∀ c : Call, (∃ expires, (c.handle, expires) ∈ w.issued ∧ expires ≤ now) ∨ TakenOver w c.handle →
    ∃ reason, c.apply w.tables now = .error reason
  shows : ShowsOnly (· ∈ w.succeeded) w.tables
  forward : ∀ t', StepsTo w.tables now t' → ∀ series date, completeThrough w.tables series = some date →
    ∃ date', completeThrough t' series = some date' ∧ date ≤ date'
  begins : ∀ checkedAt id leaseToken series requestedFrom requestedTo leaseExpiresAt, checkedAt ≤ now →
    checkedAt < leaseExpiresAt → requestedFrom ≤ requestedTo → id ∉ w.tables.runs.map SyncRun.id →
    ((∃ out, beginRun w.tables checkedAt now id leaseToken series requestedFrom requestedTo leaseExpiresAt = .ok out) ↔
      ¬ Held w.tables now series)

section
variable {w : World} {now : Moment} {t : Tables}

theorem stale_fails (h : Inv w) {c : Call}
    (hstale : (∃ expires, (c.handle, expires) ∈ w.issued ∧ expires ≤ now) ∨ TakenOver w c.handle) :
    ∃ reason, c.apply w.tables now = .error reason := by
  cases hcall : c.apply w.tables now with
  | error reason => exact ⟨reason, rfl⟩
  | ok t' =>
    exfalso
    obtain ⟨r, hr, hlive⟩ := (Call.apply_ok hcall).live
    rcases hstale with ⟨expires, hin, hle⟩ | ⟨before, expires, after, later, hissued, hlater, hseries⟩
    · -- The lease in the table is the one that was given with the id.
      obtain ⟨token, expires', -, hexpires', hin'⟩ := h.leased r hr hlive.running
      have hsame := List.inj_on_of_nodup_map h.own hin' hin hlive.id
      obtain ⟨expires'', hexpires'', hlt⟩ := hlive.lease
      rw [hexpires'] at hexpires''
      cases hexpires''
      rw [Prod.mk.injEq] at hsame
      exact absurd (hsame.2 ▸ hle) (not_le.mpr hlt)
    · have hover := h.taken_over
      rw [hissued, List.pairwise_append, List.pairwise_cons] at hover
      exact hover.2.1.1 later hlater hseries.symm r hr hlive.id hlive.running

theorem mem_published {Row : Type} {table : List (Observation Row)} {p : Observation Row → SyncRun → Bool}
    {o : Observation Row} (ho : o ∈ published t table p) :
    o ∈ table ∧ ∃ r ∈ t.runs, r.id = o.syncRunId ∧ r.status = .succeeded := by
  obtain ⟨hin, hrun⟩ := List.mem_filter.mp ho
  obtain ⟨r, hr, hsucceeded⟩ := List.any_eq_true.mp hrun
  simp only [Bool.and_eq_true, decide_eq_true_eq] at hsucceeded
  exact ⟨hin, r, hr, hsucceeded.1.1, hsucceeded.1.2⟩

/-- Every query joins the runs that ended well. -/
theorem showsOnly (h : Inv w) : ShowsOnly (· ∈ w.succeeded) w.tables := by
  have hshown : ∀ {Row : Type} {table : List (Observation Row)} {p : Observation Row → SyncRun → Bool} {o : Observation Row},
      o ∈ published w.tables table p → ∃ o' ∈ table, o'.row = o.row ∧ o'.syncRunId ∈ w.succeeded := by
    intro Row table p o ho
    obtain ⟨hin, r, hr, hid, hstatus⟩ := mem_published ho
    exact ⟨o, hin, rfl, hid ▸ h.finished r hr hstatus⟩
  have hfirst : ∀ {Row κ : Type} [LinearOrder κ] {key : Observation Row → κ} {table : List (Observation Row)}
      {p : Observation Row → SyncRun → Bool} {row : Row},
      row ∈ (Search.maxByKey key (published w.tables table p)).map Observation.row →
      ∃ o ∈ table, o.row = row ∧ o.syncRunId ∈ w.succeeded := by
    intro Row κ _ key table p row hrow
    obtain ⟨o, ho, rfl⟩ := Option.map_eq_some_iff.mp hrow
    exact hshown (Search.mem_of_maxByKey ho)
  have hsorted : ∀ {Row κ : Type} [LinearOrder κ] {key : Observation Row → κ} {table : List (Observation Row)}
      {p : Observation Row → SyncRun → Bool} {row : Row},
      row ∈ (Numbered.sortBy key (published w.tables table p)).map Observation.row →
      ∃ o ∈ table, o.row = row ∧ o.syncRunId ∈ w.succeeded := by
    intro Row κ _ key table p row hrow
    obtain ⟨o, ho, rfl⟩ := List.mem_map.mp hrow
    exact hshown ((List.mem_insertionSort _).mp ho)
  exact ⟨fun _ _ _ _ _ => hfirst, fun _ _ _ _ _ => hfirst, fun _ _ _ _ _ => hsorted, fun _ _ _ _ _ => hsorted,
    fun _ _ _ _ _ => hsorted, fun _ _ _ _ => hsorted⟩

/-- The boundary of a series goes forward or stays. -/
theorem find_publish {completeness : List SeriesCompleteness} {old : SeriesCompleteness} {series : SeriesKey}
    (new : SeriesCompleteness) (h : completeness.find? (fun c => c.series = series) = some old) :
    ∃ c, (publish completeness new).find? (fun c => c.series = series) = some c ∧ old.completeThrough ≤ c.completeThrough := by
  simp only [publish]
  split
  · have hsame : ∀ c : SeriesCompleteness, decide ((if c.series = new.series then
        { new with completeThrough :=
            if c.completeThrough < new.completeThrough then new.completeThrough else c.completeThrough }
        else c).series = series) = decide (c.series = series) := by
      intro c
      split
      · next heq => rw [heq]
      · rfl
    rw [List.find?_map]
    simp only [Function.comp_def, hsame, h, Option.map_some, Option.some.injEq, exists_eq_left']
    split
    · dsimp only
      split
      · next hlt => exact hlt.le
      · exact le_rfl
    · exact le_rfl
  · exact ⟨old, by rw [List.find?_append, h]; rfl, le_rfl⟩

theorem forward {t' : Tables} (h : StepsTo t now t') {series : SeriesKey} {date : Date}
    (hdate : completeThrough t series = some date) : ∃ date', completeThrough t' series = some date' ∧ date ≤ date' := by
  obtain ⟨old, hold, rfl⟩ := Option.map_eq_some_iff.mp hdate
  have hcases : t'.completeness = t.completeness ∨ ∃ new, t'.completeness = publish t.completeness new := by
    rcases h with ⟨c, hcall⟩ | ⟨_, _, _, _, _, _, _, run, hrun⟩
    · exact (Call.apply_ok hcall).completeness
    · obtain ⟨-, -, -, -, hout⟩ := beginRun_ok.mp hrun
      obtain ⟨-, rfl⟩ := Prod.mk.inj hout
      exact .inl rfl
  rcases hcases with hsame | ⟨new, hnew⟩
  · exact ⟨old.completeThrough, by rw [completeThrough, hsame, hold]; rfl, le_rfl⟩
  · obtain ⟨c, hc, hle⟩ := find_publish new hold
    exact ⟨c.completeThrough, by rw [completeThrough, hnew, hc]; rfl, hle⟩

/-- A run is still running after the sweep when its lease is over neither way, or the texts say that it is not. -/
theorem running_sweep {r : SyncRun} : (r.sweep now).status = .running ↔
    r.status = .running ∧ ∀ expires, r.leaseExpiresAt = some expires → now.rfc3339 < expires.rfc3339 := by
  have hswept : r.swept now = true ↔ r.status = .running ∧ ∃ expires, r.leaseExpiresAt = some expires ∧
      expires.rfc3339 ≤ now.rfc3339 := by
    simp only [SyncRun.swept, Bool.and_eq_true, decide_eq_true_eq, Option.any_eq_true]
  simp only [SyncRun.sweep]
  split
  · next hover =>
    obtain ⟨-, expires, hexpires, hle⟩ := hswept.mp hover
    exact iff_of_false nofun fun h => absurd (h.2 expires hexpires) (not_lt.mpr hle)
  · next hnot =>
    refine ⟨fun hrunning => ⟨hrunning, fun expires hexpires => not_le.mp fun hle => ?_⟩, fun h => h.1⟩
    exact hnot (hswept.mpr ⟨hrunning, expires, hexpires, hle⟩)

/-- The two ways to ask whether a lease is over agree when the moments are not misread. -/
theorem texts_agree {expires : Moment} :
    (now.rfc3339 < expires.rfc3339 ↔ now < expires) ↔ ¬ Misread expires now ∧ ¬ Misread now expires := by
  rcases lt_or_ge now expires with hlt | hle
  · have hnot : ¬ Misread expires now := fun h => h.lt.not_gt hlt
    rw [rfc3339_lt_of_lt hlt]
    exact ⟨fun h => ⟨hnot, h.mpr hlt⟩, fun h => ⟨fun _ => hlt, fun _ => h.2⟩⟩
  · have hnot : ¬ Misread now expires := fun h => h.lt.not_ge hle
    rw [← not_le, rfc3339_le_of_le hle, not_not]
    exact ⟨fun h => ⟨fun hread => (h.mp hread).not_ge hle, hnot⟩, fun h => ⟨fun hread => absurd hread h.1, fun hlt => absurd hle hlt.not_ge⟩⟩

/-- A lease is given exactly when the texts say that the series is free. -/
theorem begins_iff (h : Inv w) {checkedAt leaseExpiresAt : Moment} {id leaseToken : Text} {series : SeriesKey}
    {requestedFrom requestedTo : Date} (hlease : checkedAt < leaseExpiresAt) (horder : requestedFrom ≤ requestedTo)
    (hid : id ∉ w.tables.runs.map SyncRun.id) :
    (∃ out, beginRun w.tables checkedAt now id leaseToken series requestedFrom requestedTo leaseExpiresAt = .ok out) ↔
      ¬ ∃ r ∈ w.tables.runs, r.series = series ∧ r.status = .running ∧
        ∃ expires, r.leaseExpiresAt = some expires ∧ now.rfc3339 < expires.rfc3339 := by
  simp only [beginRun_ok, horder, hlease, hid, true_and, not_false_eq_true, exists_and_left, exists_eq, and_true]
  constructor
  · rintro hfree ⟨r, hr, hseries, hrunning, expires, hexpires, hlt⟩
    refine hfree r hr hseries (running_sweep.mpr ⟨hrunning, fun expires' hexpires' => ?_⟩)
    cases hexpires.symm.trans hexpires'
    exact hlt
  · intro hnone r hr hseries hrunning
    obtain ⟨hrunning, htexts⟩ := running_sweep.mp hrunning
    obtain ⟨token, expires, -, hexpires, -⟩ := h.leased r hr hrunning
    exact hnone ⟨r, hr, hseries, hrunning, expires, hexpires, htexts expires hexpires⟩

/-- A lease that is asked for shows whether the texts agree with the clock. -/
theorem agree_of_begins (h : Inv w) (hexcludes : Excludes w now) {r : SyncRun} (hr : r ∈ w.tables.runs)
    (hrunning : r.status = .running) {expires : Moment} (hexpires : r.leaseExpiresAt = some expires) :
    now.rfc3339 < expires.rfc3339 ↔ now < expires := by
  obtain ⟨fresh, -, hfresh⟩ := Lexical.exists_fresh '1' (w.tables.runs.map SyncRun.id)
  -- The run is the only one of its series, so what is asked of the series is asked of it.
  have hown : ∀ p : Moment → Prop, (∃ r' ∈ w.tables.runs, r'.series = r.series ∧ r'.status = .running ∧
      ∃ expires', r'.leaseExpiresAt = some expires' ∧ p expires') ↔ p expires := by
    intro p
    constructor
    · rintro ⟨r', hr', hseries, hrunning', expires', hexpires', hp⟩
      cases h.one_running r' hr' r hr hrunning' hrunning hseries
      cases hexpires.symm.trans hexpires'
      exact hp
    · exact fun hp => ⟨r, hr, rfl, hrunning, expires, hexpires, hp⟩
  have hasked : ∀ {checkedAt lease : Moment}, checkedAt ≤ now → checkedAt < lease →
      (now.rfc3339 < expires.rfc3339 ↔ now < expires) := by
    intro checkedAt lease hchecked hlease
    have hbegins := hexcludes.begins checkedAt (fresh 0) [] r.series ⟨0⟩ ⟨0⟩ lease hchecked hlease le_rfl (hfresh 0)
    rw [begins_iff h hlease le_rfl (hfresh 0), Held, hown, hown] at hbegins
    exact not_iff_not.mp hbegins
  rcases lt_trichotomy now expires with hlt | heq | hgt
  · exact hasked le_rfl hlt
  · rw [heq]
    exact iff_of_false (lt_irrefl _) (lt_irrefl _)
  · exact hasked hgt.le hgt

/-- The lease does what it is for exactly while no running lease and the clock are misread against each other. -/
theorem excludes_iff (h : Reached w) : Excludes w now ↔
    ∀ r ∈ w.tables.runs, r.status = .running → ∀ expires, r.leaseExpiresAt = some expires →
      ¬ Misread expires now ∧ ¬ Misread now expires := by
  have hinv := inv_of_reached h
  constructor
  · intro hexcludes r hr hrunning expires hexpires
    exact texts_agree.mp (agree_of_begins hinv hexcludes hr hrunning hexpires)
  · intro hread
    refine ⟨hinv.one_running, fun c => stale_fails hinv, showsOnly hinv, fun t' hstep series date => forward hstep, ?_⟩
    intro checkedAt id leaseToken series requestedFrom requestedTo leaseExpiresAt hchecked hlease horder hid
    rw [begins_iff hinv hlease horder hid, Held]
    refine not_congr (exists_congr fun r => and_congr_right fun hr => and_congr_right fun hseries =>
      and_congr_right fun hrunning => exists_congr fun expires => and_congr_right fun hexpires => ?_)
    exact texts_agree.mpr (hread r hr hrunning expires hexpires)

end

/-! ### A lease to a full second -/

def rates : SeriesKey := ⟨['C'], ['F'], ['U']⟩

/-- The ten seconds after noon are leased. -/
def leased : Tables where
  instruments := []
  runs := [{
    id := ['1'], series := rates, status := .running, requestedFrom := ⟨0⟩, requestedTo := ⟨0⟩, leaseToken := some ['a']
    leaseExpiresAt := some (afterNoon 10 0 (by decide) (by decide)) }]

def leasedWorld : World :=
  ⟨leased, afterNoon 0 0 start_of_minute (by decide), [(⟨['1'], ['a'], rates⟩, afterNoon 10 0 (by decide) (by decide))], []⟩

theorem reached_leased : Reached leasedWorld := by
  refine (Reached.start [] (afterNoon 0 0 (by decide) (by decide))).begin le_rfl le_rfl
    (beginRun_ok.mpr ⟨le_rfl, ?_, fun r hr => ?_, List.not_mem_nil, rfl⟩)
  · decide
  · cases hr

/-- Half a second before its end the lease keeps others out. -/
theorem excludes_before_end : Excludes leasedWorld (afterNoon 9 500000000 (by decide) (by decide)) := by
  refine (excludes_iff reached_leased).mpr fun r hr _ expires hexpires => ?_
  rw [List.mem_singleton.mp hr] at hexpires
  cases hexpires
  decide

/-- Half a second after its end the lease is over, and still no other is given. -/
theorem held_after_end : Reached leasedWorld ∧
    ¬ Held leasedWorld.tables (afterNoon 10 500000000 (by decide) (by decide)) rates ∧
    beginRun leasedWorld.tables (afterNoon 10 500000000 (by decide) (by decide))
      (afterNoon 10 500000000 (by decide) (by decide)) ['2'] ['b'] rates ⟨0⟩ ⟨0⟩ (afterNoon 20 0 (by decide) (by decide)) =
        .error (.leaseHeld rates.sourceId rates.dataset rates.seriesKey) ∧
    ¬ Excludes leasedWorld (afterNoon 10 500000000 (by decide) (by decide)) := by
  have hover : ¬ Held leasedWorld.tables (afterNoon 10 500000000 (by decide) (by decide)) rates := by
    rintro ⟨r, hr, -, -, expires, hexpires, hlt⟩
    rw [List.mem_singleton.mp hr] at hexpires
    cases hexpires
    exact absurd hlt (by decide)
  have hheld : beginRun leasedWorld.tables (afterNoon 10 500000000 (by decide) (by decide))
      (afterNoon 10 500000000 (by decide) (by decide)) ['2'] ['b'] rates ⟨0⟩ ⟨0⟩ (afterNoon 20 0 (by decide) (by decide)) =
        .error (.leaseHeld rates.sourceId rates.dataset rates.seriesKey) := by
    simp only [beginRun]
    rw [if_neg (by decide), if_neg (by decide), if_pos (by decide)]
  refine ⟨reached_leased, hover, hheld, fun h => ?_⟩
  obtain ⟨out, hout⟩ := (h.begins (afterNoon 10 500000000 (by decide) (by decide)) ['2'] ['b'] rates ⟨0⟩ ⟨0⟩
    (afterNoon 20 0 (by decide) (by decide)) le_rfl (by decide) le_rfl (by decide)).mpr hover
  cases hheld.symm.trans hout

end Market
end Iaam
