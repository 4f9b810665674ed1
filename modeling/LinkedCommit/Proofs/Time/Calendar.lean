import Mathlib.Algebra.Ring.Nat
import LinkedCommit.Time.Calendar
/-!
# Days and their numbers

Numbering a day that was named by its number gives the number again (`Date.dayNumber_ofDayNumber`),
and a day is only named by a month and a day that exist (`Date.isValid_ofDayNumber`).

A year by the mean length of a year is off by one at most: four hundred times the days before a
year differ from `146097` times the year by less than that (`mean_le_daysBeforeYear`,
`daysBeforeYear_le_mean`).
-/

set_option autoImplicit false

namespace LinkedCommit.Date

/-! ## Years -/

def daysInYear (leap : Bool) : Nat := if leap then 366 else 365

theorem daysBeforeYear_succ (y : Int) :
    daysBeforeYear (y + 1) = daysBeforeYear y + daysInYear (isLeapYear y) := by
  have everyFour : (y + 1 + 3) / 4 = (y + 3) / 4 + if y % 4 = 0 then 1 else 0 := by omega
  have everyHundred : (y + 1 + 99) / 100 = (y + 99) / 100 + if y % 100 = 0 then 1 else 0 := by omega
  have everyFourHundred : (y + 1 + 399) / 400 = (y + 399) / 400 + if y % 400 = 0 then 1 else 0 := by
    omega
  simp only [daysBeforeYear, daysInYear, isLeapYear, everyFour, everyHundred, everyFourHundred,
    Bool.and_eq_true, Bool.or_eq_true, decide_eq_true_eq]
  split <;> split <;> split <;> split <;> omega

theorem mean_le_daysBeforeYear (y : Int) : 146097 * y - 400 ≤ 400 * daysBeforeYear y := by
  unfold daysBeforeYear
  omega

theorem daysBeforeYear_le_mean (y : Int) : 400 * daysBeforeYear y ≤ 146097 * y + 700 := by
  unfold daysBeforeYear
  omega

theorem yearOfDay_brackets (n : Int) :
    daysBeforeYear (yearOfDay n) ≤ n ∧ n < daysBeforeYear (yearOfDay n + 1) := by
  have earlier := daysBeforeYear_le_mean (n * 400 / 146097 - 1)
  have later := mean_le_daysBeforeYear (n * 400 / 146097 + 1 + 1)
  -- The estimate may be a year late or a year early, never two.
  unfold yearOfDay
  dsimp only
  split
  · rw [Int.sub_add_cancel]
    omega
  · split <;> omega

/-! ## Months -/

theorem sum_monthLengths (leap : Bool) : (monthLengths leap).sum = daysInYear leap := by
  cases leap <;> rfl

theorem daysInMonth_le (y : Int) {month : Nat} (inYear : month ≤ 12) :
    daysInMonth y month ≤ 31 := by
  have lengths : ∀ leap, ∀ i < 13, (monthLengths leap).getD (i - 1) 0 ≤ 31 := by decide
  exact lengths _ month (by omega)

theorem month_day_le_of_isValid {d : Date} (valid : d.isValid = true) :
    d.month ≤ 12 ∧ d.day ≤ 31 := by
  simp only [isValid, Bool.and_eq_true, decide_eq_true_eq] at valid
  have short := daysInMonth_le d.year valid.1.1.2
  omega

/-- A day of the months with lengths is a day of one of them. -/
theorem monthAndDay_eq {lengths : List Nat} {n : Nat} (within : n < lengths.sum) (month : Nat) :
    ∃ i day, monthAndDay lengths month n = (month + i, day + 1) ∧ i < lengths.length ∧
      day < lengths.getD i 0 ∧ (lengths.take i).sum + day = n := by
  induction lengths generalizing month n with
  | nil => cases within
  | cons length rest ih =>
      cases rest with
      | nil => exact ⟨0, n, rfl, Nat.zero_lt_one, within, Nat.zero_add n⟩
      | cons next rest =>
          have step : monthAndDay (length :: next :: rest) month n =
              if n < length then (month, n + 1)
              else monthAndDay (next :: rest) (month + 1) (n - length) := rfl
          rw [step]
          split
          · rename_i here
            exact ⟨0, n, rfl, Nat.succ_pos _, here, Nat.zero_add n⟩
          · rename_i later
            rw [List.sum_cons] at within
            obtain ⟨i, day, found, index, inMonth, total⟩ :=
              ih (n := n - length) (by omega) (month + 1)
            refine ⟨i + 1, day, ?_, Nat.succ_lt_succ index, inMonth, ?_⟩
            · rw [found, Nat.add_assoc, Nat.add_comm 1]
            · rw [List.take_succ_cons, List.sum_cons]
              omega

/-- A named day exists, and it is the first day of its month so many days later. -/
theorem ofDayNumber_spec (n : Int) :
    (ofDayNumber n).isValid = true ∧ (ofDayNumber n).dayNumber = n := by
  obtain ⟨low, high⟩ := yearOfDay_brackets n
  rw [daysBeforeYear_succ] at high
  have within : (n - daysBeforeYear (yearOfDay n)).toNat <
      (monthLengths (isLeapYear (yearOfDay n))).sum := by
    rw [sum_monthLengths]
    omega
  obtain ⟨i, day, found, index, inMonth, total⟩ := monthAndDay_eq within 1
  have named : ofDayNumber n = ⟨yearOfDay n, 1 + i, day + 1⟩ := by rw [ofDayNumber, found]
  have months : (monthLengths (isLeapYear (yearOfDay n))).length = 12 := rfl
  rw [named]
  constructor
  · simp only [isValid, daysInMonth, Bool.and_eq_true, decide_eq_true_eq, Nat.add_sub_cancel_left]
    omega
  · simp only [dayNumber, daysBeforeMonth, ← List.sum_eq_foldl, Nat.add_sub_cancel_left]
    omega

theorem isValid_ofDayNumber (n : Int) : (ofDayNumber n).isValid = true := (ofDayNumber_spec n).1

theorem dayNumber_ofDayNumber (n : Int) : (ofDayNumber n).dayNumber = n := (ofDayNumber_spec n).2

end LinkedCommit.Date
