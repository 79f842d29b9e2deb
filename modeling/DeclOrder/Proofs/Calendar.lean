import DeclOrder.Proofs.Timestamp
import Mathlib.Tactic.IntervalCases
/-! Days of the calendar, counted from the start of 1970: every one of them is a day of its month. -/
namespace DeclOrder.Timestamp

/-- Within 400 years from a March on, the days of a year are counted from zero, and only a year with a
leap day at its end has one more. -/
theorem dayOfYear {day year : Nat} (inEra : day < 146097)
    (found : year = (day - day / 1460 + day / 36524 - day / 146096) / 365) :
    day - (365 * year + year / 4 - year / 100) ≤ 365 ∧
      (day - (365 * year + year / 4 - year / 100) = 365 → isLeapYear (year + 1) = true) := by
  by_cases last : day = 146096
  · subst last
    subst found
    decide
  -- Hundred years and then four are cut off; one day too many before the end of the four does no harm.
  have century : day / 36524 ≤ 3 := by omega
  have noEra : day / 146096 = 0 := by omega
  obtain ⟨hundreds, rest, split⟩ : ∃ hundreds rest, day = 36524 * hundreds + rest ∧ rest < 36524 ∧ hundreds ≤ 3 :=
    ⟨day / 36524, day % 36524, by omega⟩
  obtain ⟨fours, inFour, parts⟩ : ∃ fours inFour, rest = 1461 * fours + inFour ∧ inFour < 1461 ∧ fours ≤ 24 :=
    ⟨rest / 1461, rest % 1461, by omega⟩
  obtain ⟨surplus, extra⟩ : ∃ surplus, surplus = (24 * hundreds + fours + inFour) / 1460 := ⟨_, rfl⟩
  have few : surplus ≤ 1 := by omega
  have steps : day / 1460 = 25 * hundreds + fours + surplus := by omega
  have hundredsIs : day / 36524 = hundreds := by omega
  obtain ⟨single, singleIs⟩ : ∃ single, single = (inFour - surplus) / 365 := ⟨_, rfl⟩
  have yearIs : year = 100 * hundreds + 4 * fours + single := by omega
  have singleFew : single ≤ 3 := by omega
  have quarter : year / 4 = 25 * hundreds + fours := by omega
  have hundredth : year / 100 = hundreds := by omega
  have days : day - (365 * year + year / 4 - year / 100) = inFour - 365 * single := by omega
  rw [days]
  refine ⟨by omega, fun longest => ?_⟩
  have leap : single = 3 ∧ inFour = 1460 := by omega
  have fewer : fours < 24 := by omega
  simp only [isLeapYear, Bool.and_eq_true, Bool.or_eq_true, beq_iff_eq, bne_iff_ne]
  omega

theorem leapYearEra (year era : Nat) : isLeapYear (year + era * 400) = isLeapYear year := by
  have four : (year + era * 400) % 4 = year % 4 := by omega
  have hundred : (year + era * 400) % 100 = year % 100 := by omega
  have whole : (year + era * 400) % 400 = year % 400 := by omega
  rw [isLeapYear, four, hundred, whole, isLeapYear]

theorem ofDayDated (day : Nat) : 1 ≤ (ofDay day).2.1 ∧ (ofDay day).2.1 ≤ 12 ∧ 1 ≤ (ofDay day).2.2 ∧
    (ofDay day).2.2 ≤ daysInMonth (ofDay day).1 (ofDay day).2.1 := by
  obtain ⟨z, start⟩ : ∃ z, z = day + 719468 := ⟨_, rfl⟩
  obtain ⟨era, eraIs⟩ : ∃ era, era = z / 146097 := ⟨_, rfl⟩
  obtain ⟨dayOfEra, dayIs⟩ : ∃ dayOfEra, dayOfEra = z - era * 146097 := ⟨_, rfl⟩
  obtain ⟨year, yearIs⟩ : ∃ year, year = (dayOfEra - dayOfEra / 1460 + dayOfEra / 36524 - dayOfEra / 146096) / 365 :=
    ⟨_, rfl⟩
  obtain ⟨inYear, leap⟩ := dayOfYear (by omega) yearIs
  obtain ⟨ordinal, ordinalIs⟩ : ∃ ordinal, ordinal = dayOfEra - (365 * year + year / 4 - year / 100) := ⟨_, rfl⟩
  rw [← ordinalIs] at inYear leap
  obtain ⟨shifted, shiftedIs⟩ : ∃ shifted, shifted = (5 * ordinal + 2) / 153 := ⟨_, rfl⟩
  have parts : ofDay day = (year + era * 400 + (if (if shifted < 10 then shifted + 3 else shifted - 9) ≤ 2 then 1 else 0),
      if shifted < 10 then shifted + 3 else shifted - 9, ordinal - (153 * shifted + 2) / 5 + 1) := by
    subst shiftedIs ordinalIs yearIs dayIs eraIs start
    rfl
  rw [parts]
  dsimp only
  have twelve : shifted ≤ 11 := by omega
  by_cases february : shifted = 11
  · subst february
    have days : daysInMonth (year + era * 400 + 1) 2 = if isLeapYear (year + 1) then 29 else 28 := by
      rw [daysInMonth, if_pos rfl, Nat.add_right_comm, leapYearEra]
    have shorter : isLeapYear (year + 1) = false → ordinal ≠ 365 := fun common longest => by simp [leap longest] at common
    simp only [Nat.reduceLT, if_false, Nat.reduceSub, Nat.le_refl, if_true, days]
    refine ⟨by decide, by decide, by omega, ?_⟩
    split
    · omega
    · rename_i common
      have := shorter (Bool.eq_false_iff.mpr common)
      omega
  · interval_cases shifted <;> simp [daysInMonth] <;> omega

theorem representableIff {t : Timestamp} : t.isRepresentable = true ↔ t.hasText = true ∧ (1 ≤ t.month ∧ t.month ≤ 12) ∧
    (1 ≤ t.day ∧ t.day ≤ daysInMonth t.year t.month) ∧ t.hour ≤ 23 ∧ t.minute ≤ 59 ∧ t.second ≤ 59 ∧
      t.nanosecond ≤ 999999999 := by
  simp only [isRepresentable, hasText, Bool.and_eq_true, decide_eq_true_eq]
  tauto

theorem ofUnixRepresentable {nanoseconds : Nat} (written : (ofUnix nanoseconds).hasText) :
    (ofUnix nanoseconds).isRepresentable := by
  obtain ⟨monthFrom, monthTo, dayFrom, dayTo⟩ := ofDayDated (nanoseconds / 1000000000 / 86400)
  refine representableIff.mpr ⟨written, ⟨monthFrom, monthTo⟩, ⟨dayFrom, dayTo⟩, ?_⟩
  simp only [ofUnix]
  omega

end DeclOrder.Timestamp
