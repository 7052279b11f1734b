import LpNet.Logger.Event
import Mathlib.Data.List.Basic

/-!
`Clock::currentDay`: the day of the year, and its date as a text.

`currentDay_inj` says that two days of a year have two texts.
-/

namespace LpNet

/-! ### Numbers in a text -/

theorem decimal_natCast (n : ℕ) : decimal n = Nat.toDigits 10 n := by
  rw [decimal, if_neg (by omega), Int.natAbs_natCast]

/-- A number with a zero before it, if it has one digit. -/
def padded (n : ℕ) : Text := (if n < 10 then ['0'] else []) ++ decimal n

theorem padded_injective : Function.Injective padded := by
  intro m n h
  have hdecode : ∀ n, Nat.ofDigitChars 10 (padded n) 0 = n := by
    intro n
    rw [padded, decimal_natCast]
    split <;> exact Nat.ofDigitChars_ten_toDigits
  calc
    m = Nat.ofDigitChars 10 (padded m) 0 := (hdecode m).symm
    _ = Nat.ofDigitChars 10 (padded n) 0 := by rw [h]
    _ = n := hdecode n

theorem not_mem_decimal {c : Char} (hc : c.isDigit = false) (n : ℕ) : c ∉ decimal n := by
  rw [decimal_natCast]
  intro hmem
  have hdigit := Nat.isDigit_of_mem_toDigits (by decide) (by decide) hmem
  exact Bool.false_ne_true (hc.symm.trans hdigit)

theorem not_mem_padded {c : Char} (hc : c.isDigit = false) (n : ℕ) : c ∉ padded n := by
  rw [padded, List.mem_append]
  rintro (hzero | hmem)
  · split at hzero
    · rw [List.mem_singleton.1 hzero] at hc
      exact absurd hc (by decide)
    · cases hzero
  · exact not_mem_decimal hc n hmem

theorem append_cons_inj {c : Char} {s t x y : Text} (hx : c ∉ x) (hy : c ∉ y)
    (h : s ++ c :: x = t ++ c :: y) : s = t ∧ x = y := by
  rcases List.append_eq_append_iff.1 h with ⟨between, ht, hafter⟩ | ⟨between, hs, hafter⟩
  · cases between with
    | nil => simp_all
    | cons d between =>
        rw [List.cons_append, List.cons.injEq] at hafter
        exact absurd (hafter.2 ▸ by simp) hx
  · cases between with
    | nil => simp_all
    | cons d between =>
        rw [List.cons_append, List.cons.injEq] at hafter
        exact absurd (hafter.2 ▸ by simp) hy

/-! ### The day of the year -/

namespace Clock

def isLeap (year : ℕ) : Bool := year % 4 = 0 ∧ (year % 100 ≠ 0 ∨ year % 400 = 0)

def monthLengths (year : ℕ) : List ℕ :=
  [31, if isLeap year then 29 else 28, 31, 30, 31, 30, 31, 31, 30, 31, 30, 31]

/-- The month and the day of the month, `yday` days after the beginning of the month `mon`. -/
def monthDay : List ℕ → (mon yday : ℕ) → ℕ × ℕ
  | [], mon, yday => (mon, yday + 1)
  | length :: lengths, mon, yday =>
      if yday < length then (mon, yday + 1) else monthDay lengths (mon + 1) (yday - length)

def currentDay (year : ℕ) (yday : ℤ) : ℤ × Text :=
  let (mon, mday) := monthDay (monthLengths year) 1 yday.toNat
  (yday, decimal year ++ '-' :: (padded mon ++ '-' :: padded mday))

@[simp] theorem currentDay_fst (year : ℕ) (yday : ℤ) : (currentDay year yday).1 = yday := rfl

theorem not_mem_currentDay {c : Char} (hc : c.isDigit = false) (hdash : c ≠ '-') (year : ℕ)
    (yday : ℤ) : c ∉ (currentDay year yday).2 := by
  simp only [currentDay, List.mem_append, List.mem_cons, not_or]
  exact ⟨not_mem_decimal hc year, hdash, not_mem_padded hc _, hdash, not_mem_padded hc _⟩

theorem le_monthDay (lengths : List ℕ) (mon yday : ℕ) : mon ≤ (monthDay lengths mon yday).1 := by
  induction lengths generalizing mon yday with
  | nil => exact Nat.le_refl mon
  | cons length lengths ih =>
      rw [monthDay]
      split
      · exact Nat.le_refl mon
      · exact Nat.le_of_succ_le (ih (mon + 1) (yday - length))

theorem monthDay_inj {lengths : List ℕ} {mon d e : ℕ}
    (h : monthDay lengths mon d = monthDay lengths mon e) : d = e := by
  induction lengths generalizing mon d e with
  | nil => simpa [monthDay] using h
  | cons length lengths ih =>
      have hlater := fun yday => le_monthDay lengths (mon + 1) yday
      rw [monthDay, monthDay] at h
      split at h <;> split at h
      case isTrue.isTrue => simpa using h
      case isTrue.isFalse =>
        have hmon := hlater (e - length)
        rw [← h] at hmon
        exact absurd hmon (by simp)
      case isFalse.isTrue =>
        have hmon := hlater (d - length)
        rw [h] at hmon
        exact absurd hmon (by simp)
      case isFalse.isFalse =>
        have hrest := ih h
        omega

theorem currentDay_inj {year : ℕ} {d e : ℤ} (hd : 0 ≤ d) (he : 0 ≤ e)
    (h : (currentDay year d).2 = (currentDay year e).2) : d = e := by
  have hdash : ('-' : Char).isDigit = false := by decide
  simp only [currentDay] at h
  have hdates := List.append_cancel_left h
  rw [List.cons.injEq] at hdates
  obtain ⟨hmon, hmday⟩ :=
    append_cons_inj (not_mem_padded hdash _) (not_mem_padded hdash _) hdates.2
  have hday : d.toNat = e.toNat :=
    monthDay_inj (Prod.ext (padded_injective hmon) (padded_injective hmday))
  omega

end Clock

end LpNet
