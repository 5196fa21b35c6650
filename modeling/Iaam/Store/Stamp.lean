import Iaam.Lib.Lexical
import Mathlib.Data.Char
import Mathlib.Data.Prod.Lex

/-! Moments as the store writes them: texts in the format of RFC 3339, in UTC. The text of a second has a fixed width.
The fraction is written without the zeros at its end and left out when there is none. The store compares texts, character
by character. -/

namespace Iaam

/-- A column of text. Its order is that of the characters. -/
abbrev Text := List Char

instance : LawfulBEq Text := inferInstance

def daysInMonth (year month : Nat) : Nat :=
  if month = 2 then if year % 4 = 0 ∧ (year % 100 ≠ 0 ∨ year % 400 = 0) then 29 else 28
  else if month = 4 ∨ month = 6 ∨ month = 9 ∨ month = 11 then 30
  else 31

theorem daysInMonth_lt (year month : Nat) : daysInMonth year month < 100 := by
  simp only [daysInMonth]
  split
  · split <;> omega
  · split <;> omega

/-- A second of the calendar, in UTC. -/
structure UtcSecond where
  year : Nat
  month : Nat
  day : Nat
  hour : Nat
  minute : Nat
  second : Nat
  year_le : year ≤ 9999
  month_le : 1 ≤ month ∧ month ≤ 12
  day_le : 1 ≤ day ∧ day ≤ daysInMonth year month
  hour_lt : hour < 24
  minute_lt : minute < 60
  second_lt : second < 60
  deriving DecidableEq

/-- `OffsetDateTime` in UTC. -/
structure Moment where
  second : UtcSecond
  nanosecond : Nat
  nanosecond_lt : nanosecond < 10 ^ 9
  deriving DecidableEq

namespace UtcSecond

/-- Years first, then months, and so on. -/
def key (s : UtcSecond) : ℕ ×ₗ ℕ ×ₗ ℕ ×ₗ ℕ ×ₗ ℕ ×ₗ ℕ :=
  toLex (s.year, toLex (s.month, toLex (s.day, toLex (s.hour, toLex (s.minute, s.second)))))

theorem key_injective : Function.Injective key := by
  intro s t h
  simp only [key, EmbeddingLike.apply_eq_iff_eq, Prod.mk.injEq] at h
  cases s
  cases t
  simpa using h

instance : LinearOrder UtcSecond := LinearOrder.lift' key key_injective

theorem lt_iff {s t : UtcSecond} : s < t ↔ s.year < t.year ∨ s.year = t.year ∧ (s.month < t.month ∨
    s.month = t.month ∧ (s.day < t.day ∨ s.day = t.day ∧ (s.hour < t.hour ∨
    s.hour = t.hour ∧ (s.minute < t.minute ∨ s.minute = t.minute ∧ s.second < t.second)))) := by
  have h : s < t ↔ s.key < t.key := Iff.rfl
  simp only [h, key, Prod.Lex.toLex_lt_toLex]

theorem day_lt (s : UtcSecond) : s.day < 100 := s.day_le.2.trans_lt (daysInMonth_lt _ _)

end UtcSecond

namespace Moment

def key (m : Moment) : UtcSecond ×ₗ ℕ := toLex (m.second, m.nanosecond)

theorem key_injective : Function.Injective key := by
  intro m n h
  simp only [key, EmbeddingLike.apply_eq_iff_eq, Prod.mk.injEq] at h
  cases m
  cases n
  simpa using h

instance : LinearOrder Moment := LinearOrder.lift' key key_injective

theorem lt_iff {m n : Moment} : m < n ↔ m.second < n.second ∨ m.second = n.second ∧ m.nanosecond < n.nanosecond := by
  have h : m < n ↔ m.key < n.key := Iff.rfl
  simp only [h, key, Prod.Lex.toLex_lt_toLex]

end Moment

/-! ### Texts -/

def digitChar (digit : Nat) : Char := Char.ofNat (48 + digit)

/-- A number of a fixed width. -/
def numberText (width n : Nat) : Text := (Lexical.digits 10 width n).map digitChar

def UtcSecond.text (s : UtcSecond) : Text :=
  numberText 4 s.year ++ '-' :: (numberText 2 s.month ++ '-' :: (numberText 2 s.day ++ 'T' ::
    (numberText 2 s.hour ++ ':' :: (numberText 2 s.minute ++ ':' :: numberText 2 s.second))))

namespace Moment

/-- The digits after the point, without the zeros at the end. -/
def fraction (m : Moment) : List Nat := Lexical.significant (Lexical.digits 10 9 m.nanosecond)

def fractionText (digits : List Nat) : Text := if digits = [] then [] else '.' :: digits.map digitChar

/-- `format(&Rfc3339)`. -/
def rfc3339 (m : Moment) : Text := m.second.text ++ (fractionText m.fraction ++ ['Z'])

/-- An earlier moment of the same second whose digits begin those of a later one. -/
structure Misread (m n : Moment) : Prop where
  second : m.second = n.second
  begins : m.fraction <+: n.fraction
  ne : m ≠ n

instance (m n : Moment) : Decidable (Misread m n) :=
  decidable_of_iff (m.second = n.second ∧ m.fraction <+: n.fraction ∧ m ≠ n)
    ⟨fun h => ⟨h.1, h.2.1, h.2.2⟩, fun h => ⟨h.second, h.begins, h.ne⟩⟩

end Moment

end Iaam
