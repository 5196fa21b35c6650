import Iaam.Store.Stamp

/-! The order of the texts of moments. It is that of the moments but for two of one second, of which one has digits that
begin those of the other: there the later moment has the smaller text. -/

namespace Iaam

theorem digitChar_strictMonoOn : StrictMonoOn digitChar {d | d < 10} := by
  have hall : ∀ d < 10, ∀ e < 10, d < e → digitChar d < digitChar e := by decide
  exact fun d hd e he hlt => hall d hd e he hlt

theorem digitChar_lt {d : Nat} (h : d < 10) : digitChar d < 'Z' := by
  have hall : ∀ d < 10, digitChar d < 'Z' := by decide
  exact hall d h

section
variable {width m n : Nat} {x y : Text}

theorem numberText_lt (hm : m < 10 ^ width) (hn : n < 10 ^ width) : numberText width m < numberText width n ↔ m < n := by
  have hdigits : ∀ {n : Nat}, n < 10 ^ width → ∀ d ∈ Lexical.digits 10 width n, d ∈ {d | d < 10} :=
    fun hn d hd => Lexical.lt_of_mem_digits hn hd
  rw [numberText, numberText, Lexical.map_lt_map digitChar_strictMonoOn (hdigits hm) (hdigits hn),
    Lexical.digits_lt_digits hm hn]

@[simp] theorem length_numberText : (numberText width n).length = width := by simp [numberText]

theorem numberText_inj (hm : m < 10 ^ width) (hn : n < 10 ^ width) : numberText width m = numberText width n ↔ m = n := by
  constructor
  · intro h
    refine le_antisymm (not_lt.mp fun hlt => ?_) (not_lt.mp fun hlt => ?_)
    · exact ((numberText_lt hn hm).mpr hlt).ne h.symm
    · exact ((numberText_lt hm hn).mpr hlt).ne h
  · exact fun h => h ▸ rfl

theorem numberText_append_lt (hm : m < 10 ^ width) (hn : n < 10 ^ width) :
    numberText width m ++ x < numberText width n ++ y ↔ m < n ∨ m = n ∧ x < y := by
  rw [Lexical.append_lt_append (by simp), numberText_inj hm hn, numberText_lt hm hn]

theorem numberText_append_inj (hm : m < 10 ^ width) (hn : n < 10 ^ width)
    (h : numberText width m ++ x = numberText width n ++ y) : m = n ∧ x = y := by
  obtain ⟨hnumber, hrest⟩ := List.append_inj h (by simp)
  exact ⟨(numberText_inj hm hn).mp hnumber, hrest⟩

theorem isDigit_of_mem_numberText (hn : n < 10 ^ width) {c : Char} (hc : c ∈ numberText width n) : c.isDigit := by
  have hall : ∀ d < 10, (digitChar d).isDigit := by decide
  obtain ⟨d, hd, rfl⟩ := List.mem_map.mp hc
  exact hall d (Lexical.lt_of_mem_digits hn hd)

/-- Seconds are written in their order. -/
theorem UtcSecond.text_append_lt {s t : UtcSecond} : s.text ++ x < t.text ++ y ↔ s < t ∨ s = t ∧ x < y := by
  have hcons : ∀ (c : Char) (x y : Text), c :: x < c :: y ↔ x < y := fun c x y => by simp
  have hyear : ∀ u : UtcSecond, u.year < 10 ^ 4 := fun u => Nat.lt_succ_of_le u.year_le
  have hmonth : ∀ u : UtcSecond, u.month < 10 ^ 2 := fun u => lt_of_le_of_lt u.month_le.2 (by decide)
  have hhour : ∀ u : UtcSecond, u.hour < 10 ^ 2 := fun u => u.hour_lt.trans (by decide)
  have hminute : ∀ u : UtcSecond, u.minute < 10 ^ 2 := fun u => u.minute_lt.trans (by decide)
  have hsecond : ∀ u : UtcSecond, u.second < 10 ^ 2 := fun u => u.second_lt.trans (by decide)
  have heq : s = t ↔ s.year = t.year ∧ s.month = t.month ∧ s.day = t.day ∧ s.hour = t.hour ∧ s.minute = t.minute ∧
      s.second = t.second := by
    cases s
    cases t
    simp
  simp only [UtcSecond.text, List.append_assoc, List.cons_append]
  rw [numberText_append_lt (hyear s) (hyear t), hcons, numberText_append_lt (hmonth s) (hmonth t), hcons,
    numberText_append_lt s.day_lt t.day_lt, hcons, numberText_append_lt (hhour s) (hhour t), hcons,
    numberText_append_lt (hminute s) (hminute t), hcons, numberText_append_lt (hsecond s) (hsecond t), UtcSecond.lt_iff, heq]
  simp only [and_or_left, or_assoc, and_assoc]

end

namespace Moment
variable {m n : Moment}

theorem lt_of_mem_fraction {d : Nat} (hd : d ∈ m.fraction) : d < 10 :=
  Lexical.lt_of_mem_digits m.nanosecond_lt (Lexical.mem_significant hd)

theorem fraction_lt : m.fraction < n.fraction ↔ m.nanosecond < n.nanosecond := by
  rw [fraction, fraction, Lexical.significant_lt_significant (by simp), Lexical.digits_lt_digits m.nanosecond_lt n.nanosecond_lt]

theorem fraction_inj : m.fraction = n.fraction ↔ m.nanosecond = n.nanosecond := by
  constructor
  · intro h
    exact Lexical.digits_inj m.nanosecond_lt n.nanosecond_lt (Lexical.significant_inj (by simp) h)
  · intro h
    rw [fraction, fraction, h]

section
variable {a b : List Nat} (ha : ∀ d ∈ a, d < 10) (hb : ∀ d ∈ b, d < 10)

theorem lt_of_mem_fractionText (ha : ∀ d ∈ a, d < 10) {c : Char} (hc : c ∈ fractionText a) : c < 'Z' := by
  simp only [fractionText] at hc
  split at hc
  · cases hc
  · rcases List.mem_cons.mp hc with rfl | hc
    · decide
    · obtain ⟨d, hd, rfl⟩ := List.mem_map.mp hc
      exact digitChar_lt (ha d hd)

include ha hb

theorem fractionText_lt : fractionText a < fractionText b ↔ a < b := by
  cases a with
  | nil => cases b <;> simp [fractionText]
  | cons d a =>
    cases b with
    | nil => simp [fractionText]
    | cons e b =>
      simp only [fractionText, if_neg (List.cons_ne_nil _ _), List.cons_lt_cons_self]
      exact Lexical.map_lt_map digitChar_strictMonoOn ha hb

theorem fractionText_inj : fractionText a = fractionText b ↔ a = b := by
  constructor
  · intro h
    refine le_antisymm (not_lt.mp fun hlt => ?_) (not_lt.mp fun hlt => ?_)
    · exact ((fractionText_lt hb ha).mpr hlt).ne h.symm
    · exact ((fractionText_lt ha hb).mpr hlt).ne h
  · exact fun h => h ▸ rfl

theorem fractionText_prefix : fractionText a <+: fractionText b ↔ a <+: b := by
  cases a with
  | nil => simp [fractionText]
  | cons d a =>
    cases b with
    | nil => simp [fractionText]
    | cons e b =>
      simp only [fractionText, if_neg (List.cons_ne_nil _ _)]
      rw [List.cons_prefix_cons, Lexical.map_prefix_map digitChar_strictMonoOn ha hb, and_iff_right rfl]

end

/-- When the texts are in order. -/
theorem rfc3339_lt : m.rfc3339 < n.rfc3339 ↔ (m < n ∧ ¬ Misread m n) ∨ Misread n m := by
  have hm : ∀ d ∈ m.fraction, d < 10 := fun d hd => lt_of_mem_fraction hd
  have hn : ∀ d ∈ n.fraction, d < 10 := fun d hd => lt_of_mem_fraction hd
  rw [rfc3339, rfc3339, UtcSecond.text_append_lt,
    Lexical.ended_lt_ended (fun c => lt_of_mem_fractionText hm) fun c => lt_of_mem_fractionText hn, fractionText_lt hm hn,
    fractionText_prefix hm hn, fractionText_prefix hn hm, ne_eq, fractionText_inj hm hn, fraction_lt, lt_iff]
  rcases lt_trichotomy m.second n.second with hlt | heq | hgt
  · have hne : ¬ Misread m n := fun h => hlt.ne h.second
    exact iff_of_true (.inl hlt) (.inl ⟨.inl hlt, hne⟩)
  · have hsame : m = n ↔ m.fraction = n.fraction := by
      rw [fraction_inj]
      cases m
      cases n
      simpa using fun _ => heq
    have hmisread : Misread m n ↔ m.fraction <+: n.fraction ∧ m.fraction ≠ n.fraction := by
      rw [ne_eq, ← hsame]
      exact ⟨fun h => ⟨h.begins, h.ne⟩, fun h => ⟨heq, h.1, h.2⟩⟩
    have hmisread' : Misread n m ↔ n.fraction <+: m.fraction ∧ m.fraction ≠ n.fraction := by
      rw [ne_eq, ← hsame]
      exact ⟨fun h => ⟨h.begins, fun he => h.ne he.symm⟩, fun h => ⟨heq.symm, h.1, fun he => h.2 he.symm⟩⟩
    have hne : m.nanosecond < n.nanosecond → m.fraction ≠ n.fraction := fun hlt he => hlt.ne (fraction_inj.mp he)
    rw [hmisread, hmisread', heq]
    simp only [lt_self_iff_false, true_and, false_or]
    tauto
  · have hne : ¬ Misread n m := fun h => hgt.ne h.second
    refine iff_of_false ?_ ?_
    · rintro (hlt | ⟨heq, -⟩)
      · exact hlt.not_gt hgt
      · exact hgt.ne heq.symm
    · rintro (⟨hlt | ⟨heq, -⟩, -⟩ | hread)
      · exact hlt.not_gt hgt
      · exact hgt.ne heq.symm
      · exact hne hread

/-- A text is that of one moment. -/
theorem rfc3339_injective : Function.Injective rfc3339 := by
  intro m n h
  have hforth : ∀ {m n : Moment}, m.rfc3339 = n.rfc3339 → ¬ m < n := by
    intro m n h hlt
    by_cases hread : Misread m n
    · exact (rfc3339_lt.mpr (.inr hread)).ne h.symm
    · exact (rfc3339_lt.mpr (.inl ⟨hlt, hread⟩)).ne h
  exact le_antisymm (not_lt.mp (hforth h.symm)) (not_lt.mp (hforth h))

theorem Misread.lt (h : Misread m n) : m < n := by
  obtain ⟨more, hmore⟩ := h.begins
  have hlt : m.fraction < n.fraction := by
    cases more with
    | nil =>
      rw [List.append_nil] at hmore
      refine absurd (Moment.key_injective ?_) h.ne
      rw [key, key, h.second, fraction_inj.mp hmore]
    | cons d more =>
      rw [← hmore]
      simpa using (Lexical.append_lt_append (x := []) (y := d :: more) (rfl : m.fraction.length = m.fraction.length)).mpr
        (.inr ⟨rfl, List.nil_lt_cons _ _⟩)
  exact lt_iff.mpr (.inr ⟨h.second, fraction_lt.mp hlt⟩)

/-- A later moment has the greater text unless the two are misread. -/
theorem rfc3339_lt_of_lt (h : m < n) : m.rfc3339 < n.rfc3339 ↔ ¬ Misread m n := by
  rw [rfc3339_lt]
  exact ⟨fun hread => hread.elim (fun hread => hread.2) fun hread => absurd hread.lt h.not_gt, fun hread => .inl ⟨h, hread⟩⟩

theorem rfc3339_le_of_le (h : m ≤ n) : m.rfc3339 ≤ n.rfc3339 ↔ ¬ Misread m n := by
  rcases h.lt_or_eq with hlt | rfl
  · rw [← rfc3339_lt_of_lt hlt]
    exact ⟨fun hle => lt_of_le_of_ne hle fun heq => hlt.ne (rfc3339_injective heq), le_of_lt⟩
  · exact iff_of_true le_rfl fun hread => hread.ne rfl

end Moment

theorem start_of_minute : 0 < 60 := by decide

/-- A moment of the minute after noon. -/
def afterNoon (second nanosecond : Nat) (hsecond : second < 60) (hnanosecond : nanosecond < 10 ^ 9) : Moment :=
  ⟨⟨2026, 8, 1, 12, 0, second, by decide, by decide, by decide, by decide, by decide, hsecond⟩, nanosecond, hnanosecond⟩

end Iaam
