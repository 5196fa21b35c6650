import Iaam.AllocationInputs
import Iaam.Lib.Delimited
import Iaam.Theorems.Stamp

/-! What the hash of an amortisation's inputs tells of them.

The parts of the record are written without marks between them. A date ends itself by its width, a decimal by the date or
the currency after it; but how many returns there are, only the identity of the snapshot shows, which is any text. So two
records read the same where that identity spells out what is left of the other record, and nowhere else. -/

namespace Iaam
namespace AllocationInputs

/-! ### Texts that end themselves -/

section
variable {negative negative' : Bool} {x y : Text}

/-- A sign shows before what has none. -/
theorem sign_append_inj (hx : x.head? ≠ some '-') (hy : y.head? ≠ some '-')
    (h : sign negative ++ x = sign negative' ++ y) : negative = negative' ∧ x = y := by
  cases negative with
  | false =>
    cases negative' with
    | false => exact ⟨rfl, h⟩
    | true =>
      simp only [sign, List.nil_append, reduceIte, Bool.false_eq_true] at h
      exact absurd (h ▸ rfl) hx
  | true =>
    cases negative' with
    | false =>
      simp only [sign, List.nil_append, reduceIte, Bool.false_eq_true] at h
      exact absurd (h ▸ rfl) hy
    | true => exact ⟨rfl, (List.cons.inj h).2⟩

theorem code_injective : Function.Injective CurrencyCode.code := by
  intro c c' h
  cases c <;> cases c' <;> first | rfl | exact absurd h (by decide)

theorem length_code (c : CurrencyCode) : c.code.toList.length = 3 := by cases c <;> rfl

theorem code_append_inj {c c' : CurrencyCode} (h : c.code.toList ++ x = c'.code.toList ++ y) : c = c' ∧ x = y := by
  obtain ⟨hcode, hrest⟩ := List.append_inj h (by rw [length_code, length_code])
  exact ⟨code_injective (String.toList_inj.mp hcode), hrest⟩

/-- A code begins with a capital letter. -/
theorem code_starts (c : CurrencyCode) : ∃ z rest, c.code.toList = z :: rest ∧ z.isUpper := by
  cases c <;> exact ⟨_, _, rfl, by decide⟩

end

namespace CalendarDate
variable {d e : CalendarDate} {x y : Text}

theorem year_lt (d : CalendarDate) : d.year.natAbs < 10 ^ 4 := Nat.lt_succ_of_le d.year_le

theorem month_lt (d : CalendarDate) : d.month < 10 ^ 2 := lt_of_le_of_lt d.month_le.2 (by decide)

theorem day_lt (d : CalendarDate) : d.day < 10 ^ 2 := d.day_le.2.trans_lt (daysInMonth_lt _ _)

/-- The month, the day and what follows. -/
def after (d : CalendarDate) (x : Text) : Text := numberText 2 d.month ++ '-' :: (numberText 2 d.day ++ x)

theorem text_append (d : CalendarDate) (x : Text) :
    d.text ++ x = sign (d.year < 0) ++ (numberText 4 d.year.natAbs ++ '-' :: d.after x) := by
  simp [text, after]

theorem text_append_of_neg (h : d.year < 0) (x : Text) :
    d.text ++ x = '-' :: (numberText 4 d.year.natAbs ++ '-' :: d.after x) := by
  simp [text_append, sign, h]

theorem text_append_of_nonneg (h : ¬d.year < 0) (x : Text) :
    d.text ++ x = numberText 4 d.year.natAbs ++ '-' :: d.after x := by
  simp [text_append, sign, h]

theorem ext_parts (hsign : decide (d.year < 0) = decide (e.year < 0)) (hyear : d.year.natAbs = e.year.natAbs)
    (hmonth : d.month = e.month) (hday : d.day = e.day) : d = e := by
  have hneg : d.year < 0 ↔ e.year < 0 := by simpa using hsign
  have hyears : d.year = e.year := by omega
  refine key_injective ?_
  rw [key, key, hyears, hmonth, hday]

theorem after_inj (h : d.after x = e.after y) : d.month = e.month ∧ d.day = e.day ∧ x = y := by
  obtain ⟨hmonth, h⟩ := numberText_append_inj d.month_lt e.month_lt h
  obtain ⟨hday, hrest⟩ := numberText_append_inj d.day_lt e.day_lt (List.cons.inj h).2
  exact ⟨hmonth, hday, hrest⟩

/-- A year's text begins with a digit. -/
theorem year_head (d : CalendarDate) (x : Text) : (numberText 4 d.year.natAbs ++ x).head? ≠ some '-' := by
  intro h
  rw [List.head?_append_of_ne_nil _ (List.ne_nil_of_length_pos (by simp))] at h
  exact absurd (isDigit_of_mem_numberText d.year_lt (List.mem_of_mem_head? h)) (by decide)

/-- A date ends itself. -/
theorem text_append_inj (h : d.text ++ x = e.text ++ y) : d = e ∧ x = y := by
  rw [text_append, text_append] at h
  obtain ⟨hsign, h⟩ := sign_append_inj (d.year_head _) (e.year_head _) h
  obtain ⟨hyear, h⟩ := numberText_append_inj d.year_lt e.year_lt h
  obtain ⟨hmonth, hday, hrest⟩ := after_inj (List.cons.inj h).2
  exact ⟨ext_parts hsign hyear hmonth hday, hrest⟩

theorem text_injective : Function.Injective text := by
  intro d e h
  exact (text_append_inj (x := []) (y := []) (by rw [h])).1

end CalendarDate

/-! ### Decimals before a date -/

/-- A digit or a point. -/
def Figure (c : Char) : Prop := c.isDigit ∨ c = '.'

theorem Figure.ne_dash {c : Char} (h : Figure c) : c ≠ '-' := by
  rintro rfl
  exact absurd h (by simp [Figure])

theorem Figure.not_upper {c : Char} (h : Figure c) : ¬c.isUpper := by
  rcases h with h | rfl
  · intro hupper
    have hdigit : c.val ≤ 57 := of_decide_eq_true (Bool.and_eq_true_iff.mp h).2
    have hletter : 65 ≤ c.val := (of_decide_eq_true (p := 65 ≤ c.val ∧ c.val ≤ 90) hupper).1
    exact absurd (UInt32.le_trans hletter hdigit) (by decide)
  · decide

section
variable {b b' x y : Text} {d e : CalendarDate}

/-- A year without a sign ends where the month begins, a year with one goes on for four digits. -/
theorem year_ne_after (d e : CalendarDate) (x y : Text) : numberText 4 d.year.natAbs ++ '-' :: d.after x ≠ e.after y := by
  intro h
  have hdash : ∀ c : Char, c = '-' → ¬c.isDigit := by
    rintro _ rfl
    decide
  have hparts := Delimited.append_mark_inj (p := fun c => c.isDigit) (fun c hc => isDigit_of_mem_numberText d.year_lt hc)
    (fun c hc => isDigit_of_mem_numberText e.month_lt hc) (hdash _ rfl) (hdash _ rfl) h
  have hlength := congrArg List.length hparts.1
  rw [length_numberText, length_numberText] at hlength
  exact absurd hlength (by decide)

theorem year_ne_dash (d : CalendarDate) : ∀ c ∈ numberText 4 d.year.natAbs, c ≠ '-' :=
  fun _ hc => Figure.ne_dash (.inl (isDigit_of_mem_numberText d.year_lt hc))

/-- A year without a sign lets figures before it go on. -/
theorem figures_year_ne_dash (hb : ∀ c ∈ b, c ≠ '-') (d : CalendarDate) :
    ∀ c ∈ b ++ numberText 4 d.year.natAbs, c ≠ '-' := by
  intro c hc
  rcases List.mem_append.mp hc with hc | hc
  · exact hb c hc
  · exact year_ne_dash d c hc

/-- Figures before a date end where the date begins. -/
theorem figures_date_inj (hb : ∀ c ∈ b, Figure c) (hb' : ∀ c ∈ b', Figure c)
    (h : b ++ (d.text ++ x) = b' ++ (e.text ++ y)) : b = b' ∧ d.text ++ x = e.text ++ y := by
  have hdash : ¬ '-' ≠ '-' := fun h => h rfl
  have hfirst := fun c hc => (hb c hc).ne_dash
  have hfirst' := fun c hc => (hb' c hc).ne_dash
  by_cases hd : d.year < 0
  · by_cases he : e.year < 0
    · rw [CalendarDate.text_append_of_neg hd, CalendarDate.text_append_of_neg he] at h ⊢
      exact Delimited.append_mark_inj hfirst hfirst' hdash hdash h
    · rw [CalendarDate.text_append_of_neg hd, CalendarDate.text_append_of_nonneg he, ← List.append_assoc b'] at h
      have hrest := (Delimited.append_mark_inj hfirst (figures_year_ne_dash hfirst' e) hdash hdash h).2
      exact absurd (List.cons.inj hrest).2 (year_ne_after d e x y)
  · by_cases he : e.year < 0
    · rw [CalendarDate.text_append_of_nonneg hd, CalendarDate.text_append_of_neg he, ← List.append_assoc b] at h
      have hrest := (Delimited.append_mark_inj (figures_year_ne_dash hfirst d) hfirst' hdash hdash h).2
      exact absurd (List.cons.inj hrest).2.symm (year_ne_after e d y x)
    · rw [CalendarDate.text_append_of_nonneg hd, CalendarDate.text_append_of_nonneg he] at h ⊢
      rw [← List.append_assoc b, ← List.append_assoc b'] at h
      obtain ⟨hparts, hrest⟩ :=
        Delimited.append_mark_inj (figures_year_ne_dash hfirst d) (figures_year_ne_dash hfirst' e) hdash hdash h
      obtain ⟨rfl, hyears⟩ := List.append_inj' hparts (by simp)
      exact ⟨rfl, by rw [hyears, hrest]⟩

end

namespace InputTexts.Documented
variable {t : InputTexts} (ht : t.Documented)
include ht

theorem date_selfDelimiting : Delimited.SelfDelimiting t.date := by
  intro d e x y h
  rw [ht.date, ht.date] at h
  obtain ⟨rfl, hrest⟩ := CalendarDate.text_append_inj h
  exact ⟨rfl, hrest⟩

/-- A decimal ends where a date begins. -/
theorem decimal_delimitedBy :
    Delimited.DelimitedBy (fun item : PrincipalReturn => t.decimal item.sharePercent) t.date := by
  intro i i' d e x y h
  obtain ⟨negative, b, hi, hne, hb⟩ := ht.decimal_shape i.sharePercent
  obtain ⟨negative', b', hi', hne', hb'⟩ := ht.decimal_shape i'.sharePercent
  have hhead : ∀ {b : Text} (z : Text), b ≠ [] → (∀ c ∈ b, Figure c) → (b ++ z).head? ≠ some '-' := by
    intro b z hne hb h
    rw [List.head?_append_of_ne_nil _ hne] at h
    exact (hb _ (List.mem_of_mem_head? h)).ne_dash rfl
  simp only [hi, hi', ht.date, List.append_assoc] at h ⊢
  obtain ⟨rfl, hunsigned⟩ := sign_append_inj (hhead _ hne hb) (hhead _ hne' hb') h
  obtain ⟨rfl, hrest⟩ := figures_date_inj hb hb' hunsigned
  exact ⟨rfl, hrest⟩

/-- A decimal ends where a currency begins. -/
theorem decimal_code_inj {v v' : Decimal} {c c' : CurrencyCode} {x y : Text}
    (h : t.decimal v ++ (c.code.toList ++ x) = t.decimal v' ++ (c'.code.toList ++ y)) :
    t.decimal v = t.decimal v' ∧ c = c' ∧ x = y := by
  have hlower : ∀ v, ∀ z ∈ t.decimal v, ¬z.isUpper := by
    intro v z hz
    obtain ⟨negative, b, hv, -, hb⟩ := ht.decimal_shape v
    rw [hv] at hz
    rcases List.mem_append.mp hz with hz | hz
    · cases negative with
      | false => cases hz
      | true =>
        rcases List.mem_singleton.mp hz with rfl
        decide
    · exact Figure.not_upper (hb z hz)
  obtain ⟨z, rest, hz, hupper⟩ := code_starts c
  obtain ⟨z', rest', hz', hupper'⟩ := code_starts c'
  have hsplit : t.decimal v = t.decimal v' ∧ c.code.toList ++ x = c'.code.toList ++ y := by
    rw [hz, hz'] at h ⊢
    exact Delimited.append_mark_inj (hlower v) (hlower v') (fun h => h hupper) (fun h => h hupper') h
  exact ⟨hsplit.1, code_append_inj hsplit.2⟩

end InputTexts.Documented

/-! ### Records -/

section
variable (t : InputTexts)

/-- The returns, the day and the identity of the snapshot. -/
def returnsRecord (inputs : Inputs) : Text :=
  Delimited.record t.date PrincipalReturn.repaymentDate (fun item => t.decimal item.sharePercent)
    (ordered inputs.principalReturns) inputs.on inputs.snapshotId

/-- Both records state one principal, and the returns of the second begin with those of the first and go on with one on
    the day of the first, of which the snapshot's identity in the first record spells out the share and all that
    follows. -/
structure SpellsOut (a b : Inputs) : Prop where
  value : t.decimal a.initial.value = t.decimal b.initial.value
  currency : a.initial.currency = b.initial.currency
  rest : Delimited.Spells t.date PrincipalReturn.repaymentDate (fun item => t.decimal item.sharePercent)
    (ordered a.principalReturns) a.on a.snapshotId (ordered b.principalReturns) b.on b.snapshotId

end

section
variable {t : InputTexts} {a b : Inputs}

theorem preimage_eq (t : InputTexts) (inputs : Inputs) :
    preimage t inputs = "iaam/allocation-inputs/v1".toList ++ (t.decimal inputs.initial.value ++
      (inputs.initial.currency.code.toList ++ returnsRecord t inputs)) := rfl

theorem ordered_perm (l : List PrincipalReturn) : (ordered l).Perm l := List.perm_insertionSort _ l

theorem SpellsOut.preimage_eq (h : SpellsOut t a b) : preimage t a = preimage t b := by
  have hrest : returnsRecord t a = returnsRecord t b := h.rest.record_eq
  rw [AllocationInputs.preimage_eq, AllocationInputs.preimage_eq, h.value, h.currency, hrest]

theorem SpellsOut.length_lt (h : SpellsOut t a b) : a.principalReturns.length < b.principalReturns.length := by
  rw [← (ordered_perm a.principalReturns).length_eq, ← (ordered_perm b.principalReturns).length_eq]
  exact h.rest.length_lt

theorem Same.length_eq (h : Same a b) : a.principalReturns.length = b.principalReturns.length := by
  simpa using h.principalReturns.length_eq

/-- Returns whose parts read the same are the same returns. -/
theorem InputTexts.Documented.keys_eq (ht : t.Documented) {l l' : List PrincipalReturn}
    (h : l.map (Delimited.shown t.date PrincipalReturn.repaymentDate fun item => t.decimal item.sharePercent) =
      l'.map (Delimited.shown t.date PrincipalReturn.repaymentDate fun item => t.decimal item.sharePercent)) :
    l.map PrincipalReturn.key = l'.map PrincipalReturn.key := by
  have hkey : ∀ i i' : PrincipalReturn, t.date i.repaymentDate = t.date i'.repaymentDate →
      t.decimal i.sharePercent = t.decimal i'.sharePercent → i.key = i'.key := by
    intro i i' hdate hshare
    rw [ht.date, ht.date] at hdate
    rw [PrincipalReturn.key, PrincipalReturn.key, CalendarDate.text_injective hdate, ht.decimal_value _ _ hshare]
  induction l generalizing l' with
  | nil =>
    cases l' with
    | nil => rfl
    | cons i' l' => cases h
  | cons i l ih =>
    cases l' with
    | nil => cases h
    | cons i' l' =>
      obtain ⟨hi, hl⟩ := List.cons.inj h
      obtain ⟨hdate, hshare⟩ := Prod.mk.inj hi
      rw [List.map_cons, List.map_cons, hkey i i' hdate hshare, ih hl]

/-- Inputs that are written alike are the same, but where the snapshot's identity in one spells out the rest of the
    other. -/
theorem InputTexts.Documented.cases_of_preimage (ht : t.Documented) (h : preimage t a = preimage t b) :
    Same a b ∨ SpellsOut t a b ∨ SpellsOut t b a := by
  rw [preimage_eq, preimage_eq] at h
  obtain ⟨hvalue, hcurrency, hrest⟩ := ht.decimal_code_inj (List.append_cancel_left h)
  rcases Delimited.record_cases ht.date_selfDelimiting ht.decimal_delimitedBy hrest with ⟨hreturns, hday, hid⟩ | h | h
  · rw [ht.date, ht.date] at hday
    have hperm : (a.principalReturns.map PrincipalReturn.key).Perm (b.principalReturns.map PrincipalReturn.key) :=
      calc (a.principalReturns.map PrincipalReturn.key).Perm ((ordered a.principalReturns).map PrincipalReturn.key) :=
            ((ordered_perm _).map _).symm
        _ = (ordered b.principalReturns).map PrincipalReturn.key := ht.keys_eq hreturns
        List.Perm _ (b.principalReturns.map PrincipalReturn.key) := (ordered_perm _).map _
    exact .inl ⟨ht.decimal_value _ _ hvalue, hcurrency, hperm, CalendarDate.text_injective hday, hid⟩
  · exact .inr (.inl ⟨hvalue, hcurrency, h⟩)
  · exact .inr (.inr ⟨hvalue.symm, hcurrency.symm, h⟩)

end

/-! ### Identities that spell nothing out

The store draws UUIDs for its snapshots. The dashes in them stand where no date has them. -/

/-- Groups of eight, four and four characters before the rest, as a UUID is written. -/
def Hyphenated (id : Text) : Prop :=
  ∃ g g' g'' rest, id = g ++ '-' :: (g' ++ '-' :: (g'' ++ rest)) ∧ g.length = 8 ∧ g'.length = 4 ∧ g''.length = 4 ∧
    ∀ c ∈ g ++ (g' ++ g''), c ≠ '-'

/-- The dash after a month comes after two digits. -/
theorem dash_mem_of_after {d : CalendarDate} {x g rest : Text} (h : d.after x = g ++ rest) (hg : 2 < g.length) :
    '-' ∈ g := by
  have hplace : (d.after x)[2]? = some '-' := by simp [CalendarDate.after]
  rw [h, List.getElem?_append_left hg] at hplace
  exact List.mem_of_getElem? hplace

section
variable {t : InputTexts} {a b : Inputs}

theorem Hyphenated.not_spelled (ht : t.Documented) (ha : Hyphenated a.snapshotId) : ¬SpellsOut t a b := by
  intro h
  obtain ⟨init, next, later, -, -, -, hid⟩ := h.rest
  obtain ⟨g, g', g'', rest, hgroups, hg, hg', hg'', hdashes⟩ := ha
  obtain ⟨d, x, hrecord⟩ := @Delimited.record_starts _ _ _ t.date PrincipalReturn.repaymentDate
    (fun item => t.decimal item.sharePercent) later b.on b.snapshotId
  obtain ⟨negative, body, hshare, -, hbody⟩ := ht.decimal_shape next.sharePercent
  rw [hrecord, ht.date, hgroups] at hid
  simp only [hshare] at hid
  simp only [List.mem_append, or_imp, forall_and] at hdashes
  obtain ⟨hdashes, hdashes', hdashes''⟩ := hdashes
  have hdash : ¬ '-' ≠ '-' := fun h => h rfl
  have hfigures : ∀ c ∈ body, c ≠ '-' := fun c hc => Figure.ne_dash (hbody c hc)
  cases negative with
  | true =>
    cases g with
    | nil => cases hg
    | cons c g => exact hdashes c List.mem_cons_self (List.cons.inj hid).1
  | false =>
    simp only [sign, Bool.false_eq_true, reduceIte, List.nil_append] at hid
    by_cases hd : d.year < 0
    · -- the dash before the year is the first one
      rw [CalendarDate.text_append_of_neg hd] at hid
      obtain ⟨-, htail⟩ := Delimited.append_mark_inj hdashes hfigures hdash hdash hid
      obtain ⟨-, hmonth⟩ := Delimited.append_mark_inj hdashes' (year_ne_dash d) hdash hdash (List.cons.inj htail).2
      exact hdashes'' '-' (dash_mem_of_after (List.cons.inj hmonth).2.symm (by rw [hg'']; decide)) rfl
    · -- the dash after the year is the first one
      rw [CalendarDate.text_append_of_nonneg hd, ← List.append_assoc] at hid
      obtain ⟨-, hmonth⟩ := Delimited.append_mark_inj hdashes (figures_year_ne_dash hfigures d) hdash hdash hid
      exact hdashes' '-' (dash_mem_of_after (List.cons.inj hmonth).2.symm (by rw [hg']; decide)) rfl

/-- The record identifies inputs with the identities that the store draws. -/
theorem identifies_of_hyphenated (ht : t.Documented) (ha : Hyphenated a.snapshotId) (hb : Hyphenated b.snapshotId)
    (h : preimage t a = preimage t b) : Same a b := by
  rcases ht.cases_of_preimage h with hsame | hspells | hspells
  · exact hsame
  · exact absurd hspells (ha.not_spelled ht)
  · exact absurd hspells (hb.not_spelled ht)

end

/-! ### The texts of the libraries -/

namespace Decimal

/-- The places after the point, as many as the scale says. -/
def fraction (d : Decimal) : Text := if d.scale = 0 then [] else '.' :: numberText d.scale (d.mantissa % 10 ^ d.scale)

/-- The text of a decimal: the sign, the whole part and the places after the point. -/
def text (d : Decimal) : Text := sign d.negative ++ (Nat.toDigits 10 (d.mantissa / 10 ^ d.scale) ++ d.fraction)

variable {d e : Decimal}

theorem rest_lt (d : Decimal) : d.mantissa % 10 ^ d.scale < 10 ^ d.scale := Nat.mod_lt _ (by positivity)

theorem isDigit_of_mem_whole {n : Nat} {c : Char} (hc : c ∈ Nat.toDigits 10 n) : c.isDigit :=
  Nat.isDigit_of_mem_toDigits (by decide) (by decide) hc

theorem figure_of_mem {c : Char} (hc : c ∈ Nat.toDigits 10 (d.mantissa / 10 ^ d.scale) ++ d.fraction) : Figure c := by
  rcases List.mem_append.mp hc with hc | hc
  · exact .inl (isDigit_of_mem_whole hc)
  · simp only [fraction] at hc
    split at hc
    · cases hc
    · rcases List.mem_cons.mp hc with rfl | hc
      · exact .inr rfl
      · exact .inl (isDigit_of_mem_numberText d.rest_lt hc)

theorem fraction_inj (h : d.fraction = e.fraction) :
    d.scale = e.scale ∧ d.mantissa % 10 ^ d.scale = e.mantissa % 10 ^ e.scale := by
  simp only [fraction] at h
  split at h
  case isTrue hd =>
    split at h
    case isTrue he => simp [hd, he, Nat.mod_one]
    case isFalse => cases h
  case isFalse =>
    split at h
    case isTrue => cases h
    case isFalse =>
      have hplaces := (List.cons.inj h).2
      have hscale : d.scale = e.scale := by simpa using congrArg List.length hplaces
      rw [hscale] at hplaces ⊢
      exact ⟨rfl, (numberText_inj (Nat.mod_lt _ (by positivity)) e.rest_lt).mp hplaces⟩

/-- The whole part ends at the point, or with the text. -/
theorem fraction_mark (d : Decimal) : ∃ z rest, d.fraction ++ ['-'] = z :: rest ∧ ¬z.isDigit := by
  simp only [fraction]
  split
  · exact ⟨'-', [], rfl, by decide⟩
  · exact ⟨'.', _, rfl, by decide⟩

theorem toDigits_injective : Function.Injective (Nat.toDigits 10) := by
  intro m n h
  have hback := congrArg (Nat.ofDigitChars 10 · 0) h
  simpa using hback

/-- A text is that of one number. -/
theorem value_of_text (h : d.text = e.text) : d.value = e.value := by
  have hhead : ∀ d : Decimal, (Nat.toDigits 10 (d.mantissa / 10 ^ d.scale) ++ d.fraction).head? ≠ some '-' :=
    fun d h => (figure_of_mem (List.mem_of_mem_head? h)).ne_dash rfl
  obtain ⟨hsign, h⟩ := sign_append_inj (hhead d) (hhead e) h
  have hmarked := congrArg (· ++ ['-']) h
  simp only [List.append_assoc] at hmarked
  obtain ⟨z, rest, hz, hnot⟩ := d.fraction_mark
  obtain ⟨z', rest', hz', hnot'⟩ := e.fraction_mark
  rw [hz, hz'] at hmarked
  obtain ⟨hwhole, hfraction⟩ := Delimited.append_mark_inj (p := fun c => c.isDigit) (fun _ => isDigit_of_mem_whole)
    (fun _ => isDigit_of_mem_whole) hnot hnot' hmarked
  rw [← hz, ← hz'] at hfraction
  obtain ⟨hscale, hrest⟩ := fraction_inj (List.append_cancel_right hfraction)
  have hmantissa : d.mantissa = e.mantissa := by
    rw [← Nat.div_add_mod d.mantissa (10 ^ d.scale), ← Nat.div_add_mod e.mantissa (10 ^ e.scale), hrest,
      toDigits_injective hwhole, hscale]
  rw [value, value, hsign, hmantissa, hscale]

end Decimal

def InputTexts.display : InputTexts := ⟨Decimal.text, CalendarDate.text⟩

theorem InputTexts.display_documented : InputTexts.display.Documented where
  date _ := rfl
  decimal_shape d := ⟨d.negative, _, rfl, by simp [Nat.toDigits_ne_nil], fun _ => Decimal.figure_of_mem⟩
  decimal_value _ _ := Decimal.value_of_text

/-! ### Two records that read the same -/

/-- 1 June 2026. -/
def juneFirst : CalendarDate := ⟨2026, 6, 1, by decide, by decide, by decide⟩

/-- A tenth, on that day. -/
def tenPercent : PrincipalReturn := ⟨juneFirst, ⟨false, 10, 0, by decide, by decide⟩⟩

/-- A principal of 1000 roubles, tenths of which are returned on the day. -/
def tenthsOf (returns : Nat) (snapshotId : String) : Inputs where
  initial := ⟨⟨false, 1000, 0, by decide, by decide⟩, .rub⟩
  principalReturns := List.replicate returns tenPercent
  on := juneFirst
  snapshotId := snapshotId.toList

end AllocationInputs
end Iaam
