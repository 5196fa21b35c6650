import Mathlib.Data.List.Basic

/-! Texts of fields: numbers in decimal digits, fields between separators, and lines. What is written is read back, as
long as no field holds its separator. -/

namespace Fields

/-! ### Numbers -/

def numeral (n : Nat) : List Char := Nat.toDigits 10 n

/-- Reads an unsigned number up to a limit: one digit or more, behind a sign if there is one. -/
def parseUnsigned (limit : Nat) (text : List Char) : Option Nat :=
  let digits := if text.head? = some '+' then text.tail else text
  if digits ≠ [] ∧ digits.all Char.isDigit ∧ Nat.ofDigitChars 10 digits 0 ≤ limit then
    some (Nat.ofDigitChars 10 digits 0)
  else none

theorem isDigit_of_mem_numeral {n : Nat} {c : Char} (h : c ∈ numeral n) : c.isDigit :=
  Nat.isDigit_of_mem_toDigits (by decide) (by decide) h

theorem numeral_ne_nil (n : Nat) : numeral n ≠ [] := Nat.toDigits_ne_nil

theorem not_mem_numeral {n : Nat} {c : Char} (h : c.isDigit = false) : c ∉ numeral n := fun hc =>
  Bool.false_ne_true (h ▸ isDigit_of_mem_numeral hc)

/-- What is written for a number is read as it. -/
theorem parseUnsigned_numeral {limit n : Nat} (h : n ≤ limit) : parseUnsigned limit (numeral n) = some n := by
  have hsign : (numeral n).head? ≠ some '+' := fun hhead =>
    not_mem_numeral (by decide) (List.mem_of_mem_head? hhead)
  have hvalue : Nat.ofDigitChars 10 (numeral n) 0 = n := Nat.ofDigitChars_toDigits (by decide) (by decide)
  have hall : (numeral n).all Char.isDigit := List.all_eq_true.mpr fun c hc => isDigit_of_mem_numeral hc
  simp only [parseUnsigned, if_neg hsign, hvalue]
  rw [if_pos ⟨numeral_ne_nil n, hall, h⟩]

/-! ### Fields between separators -/

/-- What stands before the first separator, and what stands behind it. -/
def splitOnce (sep : Char) (text : List Char) : Option (List Char × List Char) :=
  match text.dropWhile (· ≠ sep) with
  | [] => none
  | _ :: rest => some (text.takeWhile (· ≠ sep), rest)

theorem splitOnce_append {sep : Char} {before rest : List Char} (h : sep ∉ before) :
    splitOnce sep (before ++ sep :: rest) = some (before, rest) := by
  have hall : ∀ c ∈ before, decide (c ≠ sep) = true := fun c hc => decide_eq_true fun heq => h (heq ▸ hc)
  unfold splitOnce
  rw [List.dropWhile_append_of_pos hall, List.takeWhile_append_of_pos hall, List.dropWhile_cons_of_neg (by simp),
    List.takeWhile_cons_of_neg (by simp)]
  simp

/-- Texts that do not hold the separator are read back from between it. -/
theorem splitOn_joined {sep : Char} {texts : List (List Char)} (hne : texts ≠ []) (h : ∀ t ∈ texts, sep ∉ t) :
    ([sep].intercalate texts).splitOn sep = texts := List.splitOn_intercalate sep h hne

theorem mem_joined {sep c : Char} {texts : List (List Char)} (h : c ∈ [sep].intercalate texts) :
    c = sep ∨ ∃ t ∈ texts, c ∈ t := by
  induction texts with
  | nil => cases h
  | cons t ts ih =>
    rcases ts with _ | ⟨u, us⟩
    · exact Or.inr ⟨t, List.mem_cons_self, by simpa [List.intercalate] using h⟩
    · have hparts : c ∈ t ∨ c = sep ∨ c ∈ [sep].intercalate (u :: us) := by
        simpa [List.intercalate, or_assoc] using h
      rcases hparts with hc | rfl | hc
      · exact Or.inr ⟨t, List.mem_cons_self, hc⟩
      · exact Or.inl rfl
      · exact (ih hc).imp_right fun ⟨v, hv, hc⟩ => ⟨v, List.mem_cons_of_mem _ hv, hc⟩

/-! ### Lines -/

/-- Every text, and a line feed behind it. -/
def unlines (lines : List (List Char)) : List Char := lines.flatMap fun line => line ++ ['\n']

/-- A line without the carriage return before its line feed. -/
def withoutReturn (line : List Char) : List Char := if line.getLast? = some '\r' then line.dropLast else line

/-- The lines of a text. Each ends with a line feed; only the last need not, and then its carriage return stays. -/
def lines (text : List Char) : List (List Char) :=
  let parts := text.splitOn '\n'
  parts.dropLast.map withoutReturn ++ (parts.getLast?.filter fun last => last ≠ []).toList

theorem lines_unlines {texts : List (List Char)} (h : ∀ t ∈ texts, '\n' ∉ t ∧ '\r' ∉ t) : lines (unlines texts) = texts := by
  have hsplit : (unlines texts).splitOn '\n' = texts ++ [[]] := by
    have hjoin : unlines texts = ['\n'].intercalate (texts ++ [[]]) := by
      clear h
      induction texts with
      | nil => rfl
      | cons t ts ih =>
        rw [unlines, List.flatMap_cons, ← unlines, ih, List.cons_append]
        cases ts with
        | nil => simp [List.intercalate]
        | cons u us => simp [List.intercalate]
    rw [hjoin, List.splitOn_intercalate]
    · intro t ht
      rcases List.mem_append.mp ht with ht | ht
      · exact (h t ht).1
      · rw [List.mem_singleton.mp ht]
        exact List.not_mem_nil
    · exact List.append_ne_nil_of_right_ne_nil _ (List.cons_ne_nil _ _)
  have hkept : texts.map withoutReturn = texts := by
    refine (List.map_congr_left fun t ht => ?_).trans (List.map_id texts)
    exact if_neg fun hlast => (h t ht).2 (List.mem_of_getLast? hlast)
  simp only [lines, hsplit, List.dropLast_concat, List.getLast?_concat, hkept]
  simp

end Fields
