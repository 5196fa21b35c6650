import Iaam.Lib.Search

/-! A log of versions under ordered keys.

A version is written unless it is the one under the greatest key. A reader asks for the version under the greatest key
that is not above a given one. When the keys come in their order the reader gets the last version that was submitted at or
before its key, whether or not it was written. What is needed of the order for any versions at all is less, and is
said exactly. -/

namespace Versions
open Search
variable {κ ν : Type} [LinearOrder κ]

def latest (log : List (κ × ν)) : Option (κ × ν) := maxByKey Prod.fst log

/-- A version that the greatest key already has is not written again. -/
def record [DecidableEq ν] (log : List (κ × ν)) (entry : κ × ν) : List (κ × ν) :=
  if (latest log).map Prod.snd = some entry.2 then log else log ++ [entry]

def recordAll [DecidableEq ν] (log entries : List (κ × ν)) : List (κ × ν) := entries.foldl record log

def asOf (log : List (κ × ν)) (k : κ) : Option ν :=
  (maxByKey Prod.fst (log.filter fun entry => entry.1 ≤ k)).map Prod.snd

/-- What a reader relies on, when the submission it should find comes after some and before others. Those after it are
    above the reader's key or below all that came before. -/
structure InOrder (before : List κ) (own : κ) (after : List κ) (k : κ) : Prop where
  reached : own ≤ k
  before_lt : ∀ t ∈ before, t < own
  after_lt : ∀ t ∈ after, t ≤ k → ∀ first, (before ++ [own]).head? = some first → t < first

section
variable {log entries before after : List (κ × ν)} {entry own : κ × ν} {k : κ}

/-- Of entries with different keys, the answer is the one under the greatest key that is not above. -/
theorem asOf_eq_some (hkeys : (log.map Prod.fst).Nodup) (hmem : entry ∈ log) (hle : entry.1 ≤ k)
    (hmax : ∀ e ∈ log, e.1 ≤ k → e.1 ≤ entry.1) : asOf log k = some entry.2 := by
  have hgreatest : maxByKey Prod.fst (log.filter fun entry => entry.1 ≤ k) = some entry := by
    refine (maxByKey_eq_some fun a ha b hb hab => ?_).mpr ⟨List.mem_filter.mpr ⟨hmem, decide_eq_true hle⟩, fun e he => ?_⟩
    · exact List.inj_on_of_nodup_map hkeys (List.mem_of_mem_filter ha) (List.mem_of_mem_filter hb) hab
    · exact hmax e (List.mem_of_mem_filter he) (of_decide_eq_true (List.mem_filter.mp he).2)
  rw [asOf, hgreatest]
  rfl

theorem asOf_ok {v : ν} (h : asOf log k = some v) :
    ∃ entry ∈ log, entry.2 = v ∧ entry.1 ≤ k ∧ ∀ e ∈ log, e.1 ≤ k → e.1 ≤ entry.1 := by
  obtain ⟨entry, hentry, rfl⟩ := Option.map_eq_some_iff.mp h
  obtain ⟨hmem, hle⟩ := List.mem_filter.mp (mem_of_maxByKey hentry)
  refine ⟨entry, hmem, rfl, of_decide_eq_true hle, fun e he hek => ?_⟩
  exact le_of_maxByKey hentry (List.mem_filter.mpr ⟨he, decide_eq_true hek⟩)

theorem asOf_eq_none : asOf log k = none ↔ ∀ e ∈ log, k < e.1 := by
  rw [asOf, Option.map_eq_none_iff, maxByKey_eq_none, List.filter_eq_nil_iff]
  simp

variable [DecidableEq ν]

/-- Some of the submissions are written, behind what is there. -/
theorem exists_recordAll (log entries : List (κ × ν)) :
    ∃ kept, kept.Sublist entries ∧ recordAll log entries = log ++ kept := by
  induction entries generalizing log with
  | nil => exact ⟨[], .slnil, by simp [recordAll]⟩
  | cons entry entries ih =>
    obtain ⟨kept, hkept, heq⟩ := ih (record log entry)
    by_cases hsame : (latest log).map Prod.snd = some entry.2
    · refine ⟨kept, hkept.cons _, ?_⟩
      rw [recordAll, List.foldl_cons, ← recordAll, heq, record, if_pos hsame]
    · refine ⟨entry :: kept, hkept.cons_cons _, ?_⟩
      rw [recordAll, List.foldl_cons, ← recordAll, heq, record, if_neg hsame, List.append_assoc, List.singleton_append]

theorem recordAll_append : recordAll log (before ++ after) = recordAll (recordAll log before) after :=
  List.foldl_append

/-- The first submission is always written. -/
theorem first_mem (entry : κ × ν) (entries : List (κ × ν)) : entry ∈ recordAll [] (entry :: entries) := by
  obtain ⟨kept, -, heq⟩ := exists_recordAll [entry] entries
  have hfirst : recordAll [] (entry :: entries) = recordAll [entry] entries := rfl
  rw [hfirst, heq]
  exact List.mem_cons_self

theorem recordAll_of_nodup {l : List (κ × ν)} (h : ((l ++ entries).map Prod.snd).Nodup) :
    recordAll l entries = l ++ entries := by
  induction entries generalizing l with
  | nil => simp [recordAll]
  | cons entry entries ih =>
    have hnew : (latest l).map Prod.snd ≠ some entry.2 := by
      intro hsame
      obtain ⟨last, hlast, hversion⟩ := Option.map_eq_some_iff.mp hsame
      rw [List.map_append, List.nodup_append] at h
      exact h.2.2 _ (List.mem_map_of_mem (mem_of_maxByKey hlast)) _ (List.mem_map_of_mem List.mem_cons_self) hversion
    rw [recordAll, List.foldl_cons, ← recordAll, record, if_neg hnew, ih (by simpa using h), List.append_assoc,
      List.singleton_append]

theorem recordAll_of_same {l : List (κ × ν)} (h : ∀ entry ∈ entries, (latest l).map Prod.snd = some entry.2) :
    recordAll l entries = l := by
  induction entries with
  | nil => rfl
  | cons entry entries ih =>
    rw [recordAll, List.foldl_cons, ← recordAll, record, if_pos (h entry List.mem_cons_self)]
    exact ih fun e he => h e (List.mem_cons_of_mem _ he)

/-- In order, the answer is what was submitted. -/
theorem asOf_recordAll (hkeys : ((before ++ own :: after).map Prod.fst).Nodup)
    (h : InOrder (before.map Prod.fst) own.1 (after.map Prod.fst) k) :
    asOf (recordAll [] (before ++ own :: after)) k = some own.2 := by
  obtain ⟨kept, hkept, hbefore⟩ := exists_recordAll [] before
  rw [List.nil_append] at hbefore
  obtain ⟨more, hmore, hafter⟩ := exists_recordAll (record kept own) after
  have hlog : recordAll [] (before ++ own :: after) = record kept own ++ more := by
    rw [recordAll_append, hbefore, ← hafter]
    rfl
  have hlt : ∀ e ∈ kept, e.1 < own.1 := fun e he => h.before_lt _ (List.mem_map_of_mem (hkept.subset he))
  have hmorelt : ∀ e ∈ more, e.1 ≤ k → ∀ first, ((before ++ [own]).map Prod.fst).head? = some first → e.1 < first := by
    intro e he hek
    simpa using h.after_lt e.1 (List.mem_map_of_mem (hmore.subset he)) hek
  rw [hlog]
  by_cases hsame : (latest kept).map Prod.snd = some own.2
  · -- What was submitted is there, under the greatest key of what came before.
    obtain ⟨last, hlast, hversion⟩ := Option.map_eq_some_iff.mp hsame
    rw [record, if_pos hsame, ← hversion]
    refine asOf_eq_some (hkeys.sublist ((hkept.append (hmore.cons own)).map _)) (List.mem_append_left _ (mem_of_maxByKey hlast))
      ((hlt _ (mem_of_maxByKey hlast)).le.trans h.reached) ?_
    intro e he hek
    rcases List.mem_append.mp he with he | he
    · exact le_of_maxByKey hlast he
    · cases before with
      | nil =>
        cases List.sublist_nil.mp hkept
        cases mem_of_maxByKey hlast
      | cons first before =>
        have hfirst : first ∈ kept := hbefore ▸ first_mem first before
        exact (hmorelt e he hek first.1 rfl).le.trans (le_of_maxByKey hlast hfirst)
  · rw [record, if_neg hsame]
    refine asOf_eq_some ?_ (by simp) h.reached ?_
    · refine hkeys.sublist (List.Sublist.map _ ?_)
      simpa using hkept.append (hmore.cons_cons own)
    · intro e he hek
      rcases List.mem_append.mp he with he | he
      · rcases List.mem_append.mp he with he | he
        · exact (hlt e he).le
        · rw [List.mem_singleton.mp he]
      · cases before with
        | nil => exact (hmorelt e he hek own.1 rfl).le
        | cons first before => exact ((hmorelt e he hek first.1 rfl).trans (h.before_lt _ (by simp))).le

end

/-! ### What the order has to be -/

/-- Submissions with a version for each key. -/
def submitted {κ ν : Type} (version : κ → ν) (keys : List κ) : List (κ × ν) := keys.map fun t => (t, version t)

section
variable {κ ν : Type} {version : κ → ν} {keys keys' : List κ}

theorem mem_submitted {entry : κ × ν} :
    entry ∈ submitted version keys ↔ entry.1 ∈ keys ∧ entry.2 = version entry.1 := by
  simp only [submitted, List.mem_map]
  constructor
  · rintro ⟨t, ht, rfl⟩
    exact ⟨ht, rfl⟩
  · rintro ⟨ht, hversion⟩
    exact ⟨entry.1, ht, Prod.ext rfl hversion.symm⟩

theorem submitted_append : submitted version (keys ++ keys') = submitted version keys ++ submitted version keys' :=
  List.map_append

theorem nodup_versions (hkeys : keys.Nodup) (hinj : ∀ s ∈ keys, ∀ t ∈ keys, version s = version t → s = t) :
    ((submitted version keys).map Prod.snd).Nodup := by
  simp only [submitted, List.map_map]
  exact List.Nodup.map_on hinj hkeys

end

section
variable [DecidableEq ν] {before after : List κ} {own k : κ} {names : κ → ν}

/-- Keys with different versions are all written. -/
theorem recordAll_submitted {version : κ → ν} {keys : List κ} (hkeys : keys.Nodup)
    (hinj : ∀ s ∈ keys, ∀ t ∈ keys, version s = version t → s = t) :
    recordAll [] (submitted version keys) = submitted version keys :=
  recordAll_of_nodup (l := []) (nodup_versions hkeys hinj)

variable (hkeys : (before ++ own :: after).Nodup)
  (hnames : ∀ s ∈ before ++ own :: after, ∀ t ∈ before ++ own :: after, names s = names t → s = t)
  (h : ∀ pick : κ → κ,
    asOf (recordAll [] (submitted (fun t => names (pick t)) (before ++ own :: after))) k = some (names (pick own)))

include hkeys hnames h

theorem own_greatest : own ≤ k ∧ ∀ t ∈ before ++ own :: after, t ≤ k → t ≤ own := by
  obtain ⟨entry, hentry, hversion, hle, hmax⟩ := asOf_ok (h fun t => t)
  rw [recordAll_submitted hkeys hnames] at hentry hmax
  obtain ⟨hin, hname⟩ := mem_submitted.mp hentry
  have hown : entry.1 = own := hnames _ hin own (by simp) (hname.symm.trans hversion)
  rw [hown] at hle hmax
  exact ⟨hle, fun t ht htk => hmax (t, names t) (mem_submitted.mpr ⟨ht, rfl⟩) htk⟩

/-- A greater key before it, with the same version, would keep it from being written. -/
theorem before_lt_own : ∀ t ∈ before, t < own := by
  by_contra hnot
  push Not at hnot
  obtain ⟨t, ht, hle⟩ := hnot
  obtain ⟨hbefore, hafter, hdisjoint⟩ := List.nodup_append.mp hkeys
  have hne : ∀ s ∈ before ++ after, s ≠ own := by
    rintro s hs rfl
    rcases List.mem_append.mp hs with hs | hs
    · exact hdisjoint s hs s List.mem_cons_self rfl
    · exact (List.nodup_cons.mp hafter).1 hs
  have hsub : ∀ s ∈ before ++ after, s ∈ before ++ own :: after := by
    intro s hs
    rcases List.mem_append.mp hs with hs | hs <;> simp [hs]
  obtain ⟨top, htop⟩ := exists_maxByKey (fun t : κ => t) (List.ne_nil_of_mem ht)
  have hin : top ∈ before ++ after := List.mem_append_left _ (mem_of_maxByKey htop)
  have hlt : own < top := lt_of_le_of_ne (hle.trans (le_of_maxByKey htop ht)) (hne top hin).symm
  -- All versions differ, but that of the key in question is the one under the greatest key before it.
  let version : κ → ν := fun s => names (if s = own then top else s)
  have hversion : ∀ s ∈ before ++ after, version s = names s := fun s hs => congrArg names (if_neg (hne s hs))
  have hownversion : version own = names top := congrArg names (if_pos rfl)
  have hinj : ∀ s ∈ before ++ after, ∀ t ∈ before ++ after, version s = version t → s = t := by
    intro s hs t ht heq
    rw [hversion s hs, hversion t ht] at heq
    exact hnames s (hsub s hs) t (hsub t ht) heq
  have hnodup : (before ++ after).Nodup := hkeys.sublist (List.Sublist.append (List.Sublist.refl _) (List.sublist_cons_self _ _))
  have hlatest : (latest (submitted version before)).map Prod.snd = some (version own) := by
    have hgreatest : latest (submitted version before) = some (top, version top) := by
      refine (maxByKey_eq_some fun a ha b hb hab => ?_).mpr ⟨mem_submitted.mpr ⟨mem_of_maxByKey htop, rfl⟩, fun a ha => ?_⟩
      · rw [Prod.ext_iff, (mem_submitted.mp ha).2, (mem_submitted.mp hb).2, hab]
        exact ⟨rfl, rfl⟩
      · exact le_of_maxByKey htop (mem_submitted.mp ha).1
    rw [hgreatest, Option.map_some, hversion top hin, hownversion]
  have hlog : recordAll [] (submitted version (before ++ own :: after)) = submitted version (before ++ after) := by
    have hfirst : recordAll [] (submitted version before) = submitted version before :=
      recordAll_submitted hbefore fun s hs t ht => hinj s (List.mem_append_left _ hs) t (List.mem_append_left _ ht)
    have hsplit : submitted version (before ++ own :: after) =
        submitted version before ++ ((own, version own) :: submitted version after) := submitted_append
    rw [hsplit, recordAll_append, hfirst, recordAll, List.foldl_cons, ← recordAll, record, if_pos hlatest, submitted_append]
    exact recordAll_of_nodup (by rw [← submitted_append]; exact nodup_versions hnodup hinj)
  obtain ⟨entry, hentry, hown, hle, -⟩ := asOf_ok (h fun s => if s = own then top else s)
  rw [hlog, mem_submitted] at hentry
  have htopkey : entry.1 = top := by
    refine hinj _ hentry.1 top hin ?_
    rw [← hentry.2, hown, hversion top hin]
    exact hownversion
  have hgreatest := (own_greatest hkeys hnames h).2 top (hsub top hin) (htopkey ▸ hle)
  exact absurd hgreatest (not_le.mpr hlt)

/-- A later key between the first and the reader's would be found when all before it have one version. -/
theorem after_lt_first : ∀ t ∈ after, t ≤ k → ∀ first, (before ++ [own]).head? = some first → t < first := by
  intro t ht htk first hfirst
  obtain ⟨rest, hrest⟩ := List.head?_eq_some_iff.mp hfirst
  have hsplit : before ++ own :: after = first :: (rest ++ after) := by
    rw [← List.singleton_append, ← List.append_assoc, hrest, List.cons_append]
  have hfirstin : first ∈ before ++ own :: after := by rw [hsplit]; exact List.mem_cons_self
  have hdisjoint : ∀ s ∈ after, s ∉ before ++ [own] := by
    intro s hs hin
    rw [← List.singleton_append, ← List.append_assoc] at hkeys
    exact (List.nodup_append.mp hkeys).2.2 s hin s hs rfl
  have hsub : ∀ s ∈ after, s ∈ before ++ own :: after := fun s hs => by simp [hs]
  -- One version up to the key in question, and a different one for each key after it.
  let version : κ → ν := fun s => names (if s ∈ after then s else own)
  have hearly : ∀ s ∈ before ++ [own], version s = names own := fun s hs =>
    congrArg names (if_neg fun hin => hdisjoint s hin hs)
  have hlate : ∀ s ∈ after, version s = names s := fun s hs => congrArg names (if_pos hs)
  have hnew : ∀ s ∈ after, version s ≠ names own := by
    intro s hs heq
    rw [hlate s hs] at heq
    exact hdisjoint s hs (by simp [hnames s (hsub s hs) own (by simp) heq])
  have hlog : recordAll [] (submitted version (before ++ own :: after)) =
      (first, names own) :: submitted version after := by
    have honce : recordAll [] (submitted version (before ++ [own])) = [(first, names own)] := by
      have hhead : version first = names own := hearly first (by rw [hrest]; exact List.mem_cons_self)
      have hcons : submitted version (first :: rest) = (first, names own) :: submitted version rest := by
        rw [← hhead]
        rfl
      rw [hrest, hcons]
      refine recordAll_of_same (l := [(first, names own)]) fun entry hentry => ?_
      obtain ⟨hin, hversion⟩ := mem_submitted.mp hentry
      rw [hversion, hearly entry.1 (by rw [hrest]; exact List.mem_cons_of_mem _ hin)]
      rfl
    have hparts : submitted version (before ++ own :: after) =
        submitted version (before ++ [own]) ++ submitted version after := by
      rw [← submitted_append, List.append_assoc, List.singleton_append]
    rw [hparts, recordAll_append, honce]
    refine recordAll_of_nodup ?_
    rw [List.singleton_append, List.map_cons, List.nodup_cons]
    refine ⟨fun hin => ?_, nodup_versions ?_ fun s hs t ht heq => ?_⟩
    · obtain ⟨entry, hentry, hversion⟩ := List.mem_map.mp hin
      obtain ⟨hin, hversion'⟩ := mem_submitted.mp hentry
      exact hnew entry.1 hin (hversion'.symm.trans hversion)
    · exact (List.nodup_cons.mp (List.nodup_append.mp hkeys).2.1).2
    · rw [hlate s hs, hlate t ht] at heq
      exact hnames s (hsub s hs) t (hsub t ht) heq
  obtain ⟨entry, hentry, hown, -, hmax⟩ := asOf_ok (h fun s => if s ∈ after then s else own)
  rw [hlog] at hentry hmax
  have hown : entry.2 = names own := hown.trans (hearly own (by simp))
  have hle : t ≤ first := by
    rcases List.mem_cons.mp hentry with rfl | hin
    · exact hmax (t, version t) (List.mem_cons_of_mem _ (mem_submitted.mpr ⟨ht, rfl⟩)) htk
    · obtain ⟨hin, hversion⟩ := mem_submitted.mp hin
      exact absurd (hversion.symm.trans hown) (hnew entry.1 hin)
  refine lt_of_le_of_ne hle ?_
  rintro rfl
  exact hdisjoint t ht (by rw [hrest]; exact List.mem_cons_self)

/-- An answer that is right whichever of some versions are submitted needs the order. -/
theorem inOrder_of_asOf : InOrder before own after k :=
  ⟨(own_greatest hkeys hnames h).1, before_lt_own hkeys hnames h, after_lt_first hkeys hnames h⟩

end

end Versions
