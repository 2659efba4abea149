import ContextualQuery.Calendar
import Mathlib.Algebra.Order.Ring.Int
import Mathlib.Order.Defs.LinearOrder
/-!
# Days and dates are the same

Every day number has one date and every date one day number.

* `daysBeforeYear_succ`, `yearOfDay_spec`, `year_unique`: a day lies in one year, and `yearOfDay`
  finds it;
* `monthAndDay_eq`, `exists_month`: a day of a year lies in one of its months, and `monthAndDay`
  finds it;
* `CivilDate.ofDays?_eq_some_iff`: the date of a day number is the date of the calendar that has it.
-/

namespace ContextualQuery

/-! ## 1. Years -/

/-- The days of a year. -/
def yearLength (year : Int) : Int := if isLeapYear year then 366 else 365

theorem isLeapYear_iff (year : Int) :
    isLeapYear year = true ↔ year % 4 = 0 ∧ (year % 100 ≠ 0 ∨ year % 400 = 0) := by
  simp [isLeapYear]

theorem daysBeforeYear_succ (year : Int) :
    daysBeforeYear (year + 1) = daysBeforeYear year + yearLength year := by
  unfold daysBeforeYear yearLength
  by_cases h : isLeapYear year = true
  · rw [if_pos h]
    have hleap := (isLeapYear_iff year).mp h
    omega
  · rw [if_neg h]
    have hcommon := mt (isLeapYear_iff year).mpr h
    omega

theorem daysBeforeYear_le {year later : Int} (h : year ≤ later) :
    daysBeforeYear year ≤ daysBeforeYear later := by
  unfold daysBeforeYear
  omega

/-- A day lies in one year only. -/
theorem year_unique {day year other : Int} (h : daysBeforeYear year ≤ day)
    (h' : day < daysBeforeYear (year + 1)) (ho : daysBeforeYear other ≤ day)
    (ho' : day < daysBeforeYear (other + 1)) : year = other := by
  rcases lt_trichotomy year other with hlt | heq | hgt
  · have hle := daysBeforeYear_le (show year + 1 ≤ other by omega)
    omega
  · exact heq
  · have hle := daysBeforeYear_le (show other + 1 ≤ year by omega)
    omega

namespace CivilDate

/-- The year of a day has begun on the day, and has not ended. -/
theorem yearOfDay_spec (day : Int) :
    daysBeforeYear (yearOfDay day) ≤ day ∧ day < daysBeforeYear (yearOfDay day + 1) := by
  have hlow : daysBeforeYear (day * 400 / 146097 + 1 - 1) ≤ day := by
    unfold daysBeforeYear
    omega
  have hhigh : day < daysBeforeYear (day * 400 / 146097 + 1 + 1 + 1) := by
    unfold daysBeforeYear
    omega
  unfold yearOfDay
  simp only
  generalize day * 400 / 146097 + 1 = guess at hlow hhigh
  split
  · rename_i h
    rw [sub_add_cancel]
    exact ⟨hlow, h⟩
  · split
    · exact ⟨‹_›, hhigh⟩
    · omega

/-! ## 2. Months -/

/-- In the month before which `i` have passed stands the day before which `p` have passed in it. -/
theorem monthAndDay_eq {month i p length : Nat} {lengths : List Nat} (h : lengths[i]? = some length)
    (hp : p < length) : monthAndDay month lengths ((lengths.take i).sum + p) = (month + i, p + 1) := by
  induction lengths generalizing month i with
  | nil => cases h
  | cons first rest ih =>
    cases i with
    | zero =>
      cases h
      rw [List.take_zero, List.sum_nil, Nat.zero_add, monthAndDay, if_pos hp]
      rfl
    | succ i =>
      rw [List.getElem?_cons_succ] at h
      have hlater : ¬ (first :: rest.take i).sum + p < first := by
        rw [List.sum_cons]
        omega
      have hless : (first :: rest.take i).sum + p - first = (rest.take i).sum + p := by
        rw [List.sum_cons]
        omega
      rw [List.take_succ_cons, monthAndDay, if_neg hlater, hless, ih h, Nat.add_right_comm]
      rfl

/-- A day that some months hold lies in one of them. -/
theorem exists_month {lengths : List Nat} {passed : Nat} (h : passed < lengths.sum) :
    ∃ i length p, lengths[i]? = some length ∧ p < length ∧ passed = (lengths.take i).sum + p := by
  induction lengths generalizing passed with
  | nil => cases h
  | cons first rest ih =>
    by_cases hfirst : passed < first
    · exact ⟨0, first, passed, rfl, hfirst, by rw [List.take_zero, List.sum_nil, Nat.zero_add]⟩
    · have hrest : passed - first < rest.sum := by
        rw [List.sum_cons] at h
        omega
      obtain ⟨i, length, p, hi, hp, he⟩ := ih hrest
      refine ⟨i + 1, length, p, hi, hp, ?_⟩
      rw [List.take_succ_cons, List.sum_cons]
      omega

theorem sum_monthLengths (year : Int) : ((monthLengths year).sum : Int) = yearLength year := by
  unfold monthLengths yearLength
  by_cases h : isLeapYear year = true
  · rw [if_pos h, if_pos h]
    rfl
  · rw [if_neg h, if_neg h]
    rfl

theorem daysBeforeMonth_eq (year : Int) (month : Nat) :
    daysBeforeMonth year month = ((monthLengths year).take (month - 1)).sum := by
  rw [daysBeforeMonth, List.sum_eq_foldl]

/-! ## 3. Dates -/

/-- Whether the month has that day, in whatever year. -/
def HasDay (d : CivilDate) : Prop :=
  1 ≤ d.month ∧ 1 ≤ d.day ∧ ∃ length, (monthLengths d.year)[d.month - 1]? = some length ∧
    d.day ≤ length

/-- Months and days have two digits at most. -/
theorem HasDay.lt_hundred {d : CivilDate} (h : d.HasDay) :
    d.month < 10 ^ 2 ∧ d.day < 10 ^ 2 := by
  obtain ⟨_, _, length, hlength, hday⟩ := h
  obtain ⟨hmonth, hget⟩ := List.getElem?_eq_some_iff.mp hlength
  have hmem : length ∈ monthLengths d.year := hget ▸ List.getElem_mem hmonth
  have hlengths : ∀ n ∈ monthLengths d.year, n ≤ 31 := by
    unfold monthLengths
    cases isLeapYear d.year <;> decide
  have htwelve : (monthLengths d.year).length = 12 := rfl
  have hle := hlengths length hmem
  omega

theorem isValid_iff {d : CivilDate} :
    d.isValid = true ↔ (calendarYears.1 ≤ d.year ∧ d.year ≤ calendarYears.2) ∧ d.HasDay := by
  unfold isValid HasDay
  cases (monthLengths d.year)[d.month - 1]? with
  | none => simp
  | some length => simp [and_assoc]

/-- The day number, by what has passed of the year. -/
theorem toDays_mk (year : Int) (i p : Nat) :
    toDays ⟨year, i + 1, p + 1⟩ =
      daysBeforeYear year + (((monthLengths year).take i).sum + p : Nat) - epochOffset := by
  rw [toDays, daysBeforeMonth_eq, Nat.add_sub_cancel]
  push_cast
  omega

theorem passed_lt_yearLength {year : Int} {i p length : Nat} (h : (monthLengths year)[i]? = some length)
    (hp : p < length) : (((monthLengths year).take i).sum + p : Nat) < yearLength year := by
  rw [← sum_monthLengths]
  have hsplit : ((monthLengths year).take i).sum + ((monthLengths year).drop i).sum =
      (monthLengths year).sum := by
    rw [← List.sum_append, List.take_append_drop]
  have hdrop : length ≤ ((monthLengths year).drop i).sum := by
    obtain ⟨hi, hget⟩ := List.getElem?_eq_some_iff.mp h
    rw [List.drop_eq_getElem_cons hi, hget, List.sum_cons]
    omega
  omega

/-- The date of a day number, by what has passed of the year. -/
theorem ofDays_eq {n year : Int} {i p length : Nat} (h : (monthLengths year)[i]? = some length)
    (hp : p < length)
    (hn : n + epochOffset = daysBeforeYear year + (((monthLengths year).take i).sum + p : Nat)) :
    ofDays n = ⟨year, i + 1, p + 1⟩ := by
  have hlt := passed_lt_yearLength h hp
  obtain ⟨hbegun, hends⟩ := yearOfDay_spec (n + epochOffset)
  have hyear : yearOfDay (n + epochOffset) = year := by
    refine year_unique hbegun hends ?_ ?_
    · omega
    · rw [daysBeforeYear_succ]
      omega
  have hpassed : (n + epochOffset - daysBeforeYear year).toNat =
      ((monthLengths year).take i).sum + p := by omega
  unfold ofDays
  simp only [hyear, hpassed, monthAndDay_eq h hp]
  rw [Nat.add_comm 1 i]

theorem ofDays_toDays {d : CivilDate} (h : d.HasDay) : ofDays d.toDays = d := by
  obtain ⟨year, month, day⟩ := d
  obtain ⟨hmonth, hday, length, hlength, hle⟩ := h
  obtain ⟨i, rfl⟩ := Nat.exists_eq_add_of_le' hmonth
  obtain ⟨p, rfl⟩ := Nat.exists_eq_add_of_le' hday
  refine ofDays_eq hlength (Nat.lt_of_succ_le hle) ?_
  rw [toDays_mk, sub_add_cancel]

theorem toDays_ofDays (n : Int) : (ofDays n).HasDay ∧ (ofDays n).toDays = n := by
  obtain ⟨hbegun, hends⟩ := yearOfDay_spec (n + epochOffset)
  generalize yearOfDay (n + epochOffset) = year at hbegun hends
  rw [daysBeforeYear_succ, ← sum_monthLengths] at hends
  obtain ⟨i, length, p, hi, hp, hpassed⟩ :=
    @exists_month (monthLengths year) (n + epochOffset - daysBeforeYear year).toNat (by omega)
  have hn : n + epochOffset = daysBeforeYear year + (((monthLengths year).take i).sum + p : Nat) := by
    omega
  rw [ofDays_eq hi hp hn]
  refine ⟨⟨Nat.succ_pos i, Nat.succ_pos p, length, hi, hp⟩, ?_⟩
  rw [toDays_mk]
  omega

/-- **The date of a day number is the one date of the calendar that has it.** -/
theorem ofDays?_eq_some_iff {n : Int} {d : CivilDate} :
    ofDays? n = some d ↔ d.isValid = true ∧ d.toDays = n := by
  unfold ofDays?
  simp only [Option.ite_none_right_eq_some, Option.some.injEq]
  constructor
  · rintro ⟨hyears, rfl⟩
    obtain ⟨hday, hn⟩ := toDays_ofDays n
    exact ⟨isValid_iff.mpr ⟨hyears, hday⟩, hn⟩
  · rintro ⟨hvalid, rfl⟩
    obtain ⟨hyears, hday⟩ := isValid_iff.mp hvalid
    rw [ofDays_toDays hday]
    exact ⟨hyears, rfl⟩

end CivilDate

end ContextualQuery
