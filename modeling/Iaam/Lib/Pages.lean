import Iaam.Lib.Runs
import Mathlib.Data.List.Sort
import Mathlib.Order.Basic

/-! Reading a table page by page. A page holds the first rows behind a cursor, in the order of their keys, and names the
cursor of the next one; the table may change between two pages. -/

namespace Pages
variable {ρ κ : Type} [LinearOrder κ] (key : ρ → κ)

/-- Behind the cursor, if there is one. -/
def Behind (after : Option κ) (k : κ) : Prop := ∀ c ∈ after, c < k

instance (after : Option κ) (k : κ) : Decidable (Behind after k) :=
  match after with
  | none => .isTrue fun _ h => by cases h
  | some c => decidable_of_iff (c < k) ⟨fun h _ hc => Option.some.inj hc ▸ h, fun h => h c rfl⟩

/-- What a page says of the rows behind its cursor: it shows those up to the next cursor, in order. -/
structure IsPage (rows : List ρ) (after : Option κ) (shown : List ρ) (next : Option κ) : Prop where
  sorted : shown.Pairwise fun l r => key l < key r
  sound : ∀ r ∈ shown, r ∈ rows ∧ Behind after (key r)
  complete : ∀ r ∈ rows, Behind after (key r) → (∀ d ∈ next, key r ≤ d) → r ∈ shown
  upto : ∀ d ∈ next, (∀ r ∈ shown, key r ≤ d) ∧ Behind after d

/-! ### One page -/

/-- The rows behind a cursor, in order. -/
def behind (rows : List ρ) (after : Option κ) : List ρ :=
  (rows.filter fun r => decide (Behind after (key r))).insertionSort fun l r => key l ≤ key r

variable {key} {rows : List ρ} {after : Option κ}

theorem mem_behind {r : ρ} : r ∈ behind key rows after ↔ r ∈ rows ∧ Behind after (key r) := by
  simp [behind]

theorem sorted_behind (after : Option κ) (hkeys : rows.Pairwise fun l r => key l ≠ key r) :
    (behind key rows after).Pairwise fun l r => key l < key r := by
  have htotal : Std.Total fun l r : ρ => key l ≤ key r := ⟨fun l r => le_total (key l) (key r)⟩
  have htrans : IsTrans ρ fun l r : ρ => key l ≤ key r := ⟨fun _ _ _ => le_trans⟩
  have hsorted : (behind key rows after).Pairwise fun l r => key l ≤ key r := List.pairwise_insertionSort _ _
  have hne : (behind key rows after).Pairwise fun l r => key l ≠ key r :=
    (List.perm_insertionSort _ _).symm.pairwise (hkeys.filter _) fun h => h.symm
  exact hsorted.imp₂ (fun _ _ hle hne => lt_of_le_of_ne hle hne) hne

/-- A list in order of what lies behind the cursor is the only one. -/
theorem eq_behind (hkeys : rows.Pairwise fun l r => key l ≠ key r) {l : List ρ}
    (hsorted : l.Pairwise fun l r => key l < key r) (hmem : ∀ r, r ∈ l ↔ r ∈ rows ∧ Behind after (key r)) :
    l = behind key rows after := by
  have hnodup : ∀ {l : List ρ}, (l.Pairwise fun l r => key l < key r) → l.Nodup := fun h =>
    h.imp fun hlt heq => (heq ▸ hlt).false
  have hbehind := sorted_behind after hkeys
  have hperm : l.Perm (behind key rows after) := by
    rw [List.perm_ext_iff_of_nodup (hnodup hsorted) (hnodup hbehind)]
    intro r
    rw [hmem, mem_behind]
  exact hperm.eq_of_pairwise (fun l r _ _ hlr hrl => absurd hrl hlr.asymm) hsorted hbehind

/-- The page of the first so many rows behind a cursor, where one row more is asked for to learn whether there is a
    next page. -/
theorem isPage_of_take (hkeys : rows.Pairwise fun l r => key l ≠ key r) {limit : Nat} (hlimit : 0 < limit)
    {fetched : List ρ} (hfetched : fetched = (behind key rows after).take (limit + 1)) :
    IsPage key rows after (fetched.take limit)
      (if limit < fetched.length then (fetched.take limit).getLast?.map key else none) := by
  have hsorted := sorted_behind after hkeys
  have htake : fetched.take limit = (behind key rows after).take limit := by
    rw [hfetched, List.take_take, min_eq_left (Nat.le_succ _)]
  have hparts : (behind key rows after).take limit ++ (behind key rows after).drop limit = behind key rows after :=
    List.take_append_drop _ _
  have hmem : ∀ r ∈ fetched.take limit, r ∈ rows ∧ Behind after (key r) := fun r hr =>
    mem_behind.mp (List.mem_of_mem_take (htake ▸ hr))
  rw [← hparts, List.pairwise_append] at hsorted
  refine ⟨htake ▸ hsorted.1, hmem, ?_, ?_⟩
  · intro r hr hbehind hnext
    have hin : r ∈ behind key rows after := mem_behind.mpr ⟨hr, hbehind⟩
    rw [← hparts, List.mem_append] at hin
    rcases hin with hin | hin
    · exact htake ▸ hin
    -- a row left out of the page lies behind the last row of it
    · have hlong : limit < fetched.length := by
        have hlen := List.length_pos_of_mem hin
        rw [List.length_drop] at hlen
        rw [hfetched, List.length_take]
        omega
      have hnonempty : fetched.take limit ≠ [] := by
        rw [ne_eq, List.take_eq_nil_iff]
        rintro (h | rfl)
        · omega
        · simp at hlong
      rw [if_pos hlong, List.getLast?_eq_some_getLast hnonempty] at hnext
      have hle := hnext _ rfl
      have hlast : (fetched.take limit).getLast hnonempty ∈ (behind key rows after).take limit :=
        htake ▸ List.getLast_mem hnonempty
      exact absurd (hsorted.2.2 _ hlast _ hin) (not_lt.mpr hle)
  · intro d hd
    split at hd
    · obtain ⟨l, hl, rfl⟩ := Option.map_eq_some_iff.mp hd
      refine ⟨fun r hr => ?_, (hmem l (List.mem_of_getLast? hl)).2⟩
      have hpage : (fetched.take limit).Pairwise fun l r => key l < key r := htake ▸ hsorted.1
      obtain ⟨init, hinit⟩ := List.getLast?_eq_some_iff.mp hl
      rw [hinit, List.pairwise_append] at hpage
      rw [hinit, List.mem_append, List.mem_singleton] at hr
      rcases hr with hr | rfl
      · exact (hpage.2.2 r hr l (List.mem_singleton_self _)).le
      · exact le_rfl
    · cases hd

theorem IsPage.filter {shown : List ρ} {next : Option κ} (h : IsPage key rows after shown next) (p : ρ → Bool) :
    IsPage key (rows.filter p) after (shown.filter p) next where
  sorted := h.sorted.filter _
  sound r hr := by
    rw [List.mem_filter] at hr
    exact ⟨List.mem_filter.mpr ⟨(h.sound r hr.1).1, hr.2⟩, (h.sound r hr.1).2⟩
  complete r hr hbehind hnext := by
    rw [List.mem_filter] at hr
    exact List.mem_filter.mpr ⟨h.complete r hr.1 hbehind hnext, hr.2⟩
  upto d hd := ⟨fun r hr => (h.upto d hd).1 r (List.mem_of_mem_filter hr), (h.upto d hd).2⟩

/-- What lies behind a cursor is a page and what lies behind the next cursor. -/
theorem IsPage.behind_eq {shown : List ρ} {next : κ} (h : IsPage key rows after shown (some next))
    (hkeys : rows.Pairwise fun l r => key l ≠ key r) : behind key rows after = shown ++ behind key rows (some next) := by
  obtain ⟨hupto, hnext⟩ := h.upto next rfl
  refine (eq_behind hkeys ?_ fun r => ?_).symm
  · rw [List.pairwise_append]
    exact ⟨h.sorted, sorted_behind _ hkeys, fun l hl r hr => (hupto l hl).trans_lt ((mem_behind.mp hr).2 next rfl)⟩
  rw [List.mem_append, mem_behind]
  constructor
  · rintro (hr | ⟨hr, hbehind⟩)
    · exact h.sound r hr
    · exact ⟨hr, fun c hc => (hnext c hc).trans (hbehind next rfl)⟩
  · rintro ⟨hr, hbehind⟩
    by_cases hle : key r ≤ next
    · exact .inl (h.complete r hr hbehind fun d hd => Option.some.inj hd ▸ hle)
    · exact .inr ⟨hr, fun c hc => Option.some.inj hc ▸ not_le.mp hle⟩

/-! ### Page after page -/

variable (key) in
/-- Pages read one after another, each from the cursor the one before it named, until one names none. The table is
    given for each read. -/
inductive Walk : Option κ → List (List ρ) → List (List ρ) → Prop
  | last {after : Option κ} {rows shown : List ρ} : IsPage key rows after shown none → Walk after [rows] [shown]
  | more {after : Option κ} {rows shown : List ρ} {next : κ} {tables pages : List (List ρ)} :
      IsPage key rows after shown (some next) → Walk (some next) tables pages →
      Walk after (rows :: tables) (shown :: pages)

variable {tables pages : List (List ρ)}

/-- Every page shows rows of the table it was read from. -/
theorem Walk.sound (h : Walk key after tables pages) : List.Forall₂ (fun rows shown => shown ⊆ rows) tables pages := by
  induction h with
  | last hpage => exact .cons (fun r hr => (hpage.sound r hr).1) .nil
  | more hpage _ ih => exact .cons (fun r hr => (hpage.sound r hr).1) ih

theorem Walk.behind (h : Walk key after tables pages) : ∀ r ∈ pages.flatten, Behind after (key r) := by
  induction h with
  | last hpage =>
    intro r hr
    rw [List.flatten_singleton] at hr
    exact (hpage.sound r hr).2
  | @more after rows shown next tables pages hpage _ ih =>
    intro r hr
    rw [List.flatten_cons, List.mem_append] at hr
    rcases hr with hr | hr
    · exact (hpage.sound r hr).2
    · exact fun c hc => ((hpage.upto next rfl).2 c hc).trans (ih r hr next rfl)

/-- Nothing is shown twice, and what is shown is in order over all pages. -/
theorem Walk.sorted (h : Walk key after tables pages) : pages.flatten.Pairwise fun l r => key l < key r := by
  induction h with
  | last hpage =>
    rw [List.flatten_singleton]
    exact hpage.sorted
  | @more after rows shown next tables pages hpage hrest ih =>
    rw [List.flatten_cons, List.pairwise_append]
    exact ⟨hpage.sorted, ih, fun l hl r hr => ((hpage.upto next rfl).1 l hl).trans_lt (hrest.behind r hr next rfl)⟩

/-- A row that every table holds is shown. -/
theorem Walk.complete (h : Walk key after tables pages) {r : ρ} (hr : ∀ rows ∈ tables, r ∈ rows)
    (hbehind : Behind after (key r)) : r ∈ pages.flatten := by
  induction h with
  | last hpage =>
    rw [List.flatten_singleton]
    exact hpage.complete r (hr _ (List.mem_singleton_self _)) hbehind fun _ h => by cases h
  | @more after rows shown next tables pages hpage _ ih =>
    rw [List.flatten_cons, List.mem_append]
    by_cases hle : key r ≤ next
    · exact .inl (hpage.complete r (hr _ List.mem_cons_self) hbehind fun d hd => Option.some.inj hd ▸ hle)
    · exact .inr (ih (fun t ht => hr t (List.mem_cons_of_mem _ ht)) fun c hc =>
        Option.some.inj hc ▸ not_le.mp hle)

/-- A table that does not change is read as it stands, whatever the pages were. -/
theorem Walk.fixed (h : Walk key after tables pages) (hfixed : ∀ t ∈ tables, t = rows)
    (hkeys : rows.Pairwise fun l r => key l ≠ key r) : pages.flatten = Pages.behind key rows after := by
  refine eq_behind hkeys h.sorted fun r => ⟨fun hr => ⟨?_, h.behind r hr⟩, fun ⟨hr, hbehind⟩ => ?_⟩
  · obtain ⟨page, hpage, hr⟩ := List.mem_flatten.mp hr
    obtain ⟨table, htable, hsub⟩ := Runs.exists_left h.sound hpage
    exact hfixed table htable ▸ hsub hr
  · exact h.complete (fun t ht => (hfixed t ht).symm ▸ hr) hbehind

end Pages
