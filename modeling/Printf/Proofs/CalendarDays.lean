import Mathlib.Data.Prod.Lex
import Mathlib.Order.Monotone.Basic
import Mathlib.Tactic.IntervalCases
import Printf.Calendar

/-! Days as dates. Every day has its place in a year that begins with March, and the closed form finds
that year and the month within it. Where the place ends, a month, a year or an era ends too, so that
the next day has the next date; hence dates follow one another as days do. -/
namespace Printf.Date

/-- A month of the year and a day that this month has in that year. -/
structure Valid (d : Date) : Prop where
  month : 1 ≤ d.month ∧ d.month ≤ 12
  day : 1 ≤ d.day ∧ d.day ≤ monthLength d.year d.month

theorem monthLength_le (year : Int) (month : Nat) : monthLength year month ≤ 31 := by
  rw [monthLength]
  split
  · split <;> decide
  · split <;> decide

def key (d : Date) : ℤ ×ₗ ℕ ×ₗ ℕ := toLex (d.year, toLex (d.month, d.day))

/-- The days of an era in front of a year, which ends with its leap day. -/
def yearStart (y : Nat) : Nat := 365 * y + y / 4 - y / 100 + y / 400

/-- A day has one year of its era, and the closed form finds it. -/
theorem yearOfEra_eq {y n : Nat} (inEra : y < 400) (low : yearStart y ≤ n)
    (high : n < yearStart (y + 1)) : yearOfEra n = y := by
  obtain ⟨c, q, t, few, hq, ht, rfl⟩ :
      ∃ c q t, c < 4 ∧ q < 25 ∧ t < 4 ∧ y = 100 * c + 4 * q + t :=
    ⟨y / 100, y % 100 / 4, y % 4, by omega, by omega, by omega, by omega⟩
  have start : yearStart (100 * c + 4 * q + t) = 36524 * c + 1461 * q + 365 * t := by
    rw [yearStart]
    omega
  have length : yearStart (100 * c + 4 * q + t + 1) ≤ 36524 * c + 1461 * q + 365 * t +
      if t < 3 ∨ q = 24 ∧ c < 3 then 365 else 366 := by
    rw [yearStart]
    split <;> omega
  rw [start] at low
  obtain ⟨k, rfl⟩ := Nat.exists_eq_add_of_le low
  -- each division counts the leap days, centuries and eras that are over, up to the last days
  have fours : (36524 * c + 1461 * q + 365 * t + k) / 1460 =
      25 * c + q + (24 * c + q + 365 * t + k) / 1460 := by omega
  have inCentury : 1461 * q + 365 * t + k < 36524 ∨ c = 3 ∧ 1461 * q + 365 * t + k = 36524 := by
    split at length <;> omega
  have centuries : (36524 * c + 1461 * q + 365 * t + k) / 36524 =
      c + (36524 * c + 1461 * q + 365 * t + k) / 146096 := by
    rcases inCentury with inside | ⟨rfl, last⟩ <;> omega
  rw [yearOfEra, fours, centuries]
  split at length <;> omega

theorem exists_year {n m : Nat} (below : n < yearStart m) :
    ∃ y < m, yearStart y ≤ n ∧ n < yearStart (y + 1) := by
  induction m with
  | zero => exact absurd below (Nat.not_lt_zero n)
  | succ m ih =>
    by_cases before : n < yearStart m
    · obtain ⟨y, less, bounds⟩ := ih before
      exact ⟨y, Nat.lt_succ_of_lt less, bounds⟩
    · exact ⟨m, Nat.lt_succ_self m, Nat.le_of_not_lt before, below⟩

/-- The day, counted from 1970, that a year begins on if it begins with March. -/
def marchStart (m : Int) : Int := eraStart + 365 * m + m / 4 - m / 100 + m / 400

def marchLength (m : Int) : Nat := if isLeap (m + 1) then 366 else 365

theorem isLeap_iff (year : Int) :
    isLeap year = true ↔ year % 4 = 0 ∧ (year % 100 ≠ 0 ∨ year % 400 = 0) := by
  simp [isLeap]

theorem marchStart_succ (m : Int) : marchStart (m + 1) = marchStart m + marchLength m := by
  rw [marchStart, marchStart, marchLength]
  split
  · next leap =>
    rw [isLeap_iff] at leap
    omega
  · next common =>
    rw [isLeap_iff] at common
    omega

theorem marchStart_era (era : Int) (y : Nat) :
    marchStart (y + era * 400) = eraStart + era * eraLength + yearStart y := by
  rw [marchStart, eraLength, yearStart]
  omega

theorem yearStart_succ (era : Int) (y : Nat) :
    yearStart (y + 1) = yearStart y + marchLength (y + era * 400) := by
  have start := marchStart_succ (y + era * 400)
  rw [add_right_comm, ← Nat.cast_succ, marchStart_era, marchStart_era] at start
  rw [Nat.succ_eq_add_one] at start
  omega

theorem exists_marchDay (days : Int) : ∃ m k, k < marchLength m ∧ days = marchStart m + k := by
  obtain ⟨era, n, inEra, split⟩ :
      ∃ (era : Int) (n : Nat), n < yearStart 400 ∧ days = eraStart + era * eraLength + n := by
    refine ⟨(days - eraStart) / 146097, ((days - eraStart) % 146097).toNat, ?_, ?_⟩
    · rw [yearStart]
      omega
    · rw [eraLength]
      omega
  obtain ⟨y, -, low, high⟩ := exists_year inEra
  rw [yearStart_succ era] at high
  refine ⟨y + era * 400, n - yearStart y, by omega, ?_⟩
  rw [marchStart_era]
  omega

/-- The day of such a year that a month begins on, where March is month 0. -/
def monthStart (j : Nat) : Nat := (153 * j + 2) / 5

def monthNumber (j : Nat) : Nat := if j < 10 then j + 3 else j - 9

def monthYear (m : Int) (j : Nat) : Int := m + if monthNumber j ≤ 2 then 1 else 0

def marchMonthLength (m : Int) (j : Nat) : Nat := monthLength (monthYear m j) (monthNumber j)

/-- The months of such a year follow one another. -/
theorem monthStart_succ (m : Int) {j : Nat} (month : j < 11) :
    monthStart (j + 1) = monthStart j + marchMonthLength m j := by
  interval_cases j <;> rfl

/-- The last month ends with the year. -/
theorem marchLength_eq (m : Int) : marchLength m = monthStart 11 + marchMonthLength m 11 := by
  have february : marchMonthLength m 11 = if isLeap (m + 1) then 29 else 28 := rfl
  rw [marchLength, february]
  split <;> rfl

theorem monthOfDay_iff (k j : Nat) :
    (5 * k + 2) / 153 = j ↔ monthStart j ≤ k ∧ k < monthStart (j + 1) := by
  rw [monthStart, monthStart]
  omega

/-- A day of a month of such a year: where it is in the year, and before what. -/
theorem inMonth_bounds {m : Int} {j i : Nat} (month : j < 12) (day : i < marchMonthLength m j) :
    monthStart j + i < monthStart (j + 1) ∧ monthStart j + i < marchLength m := by
  have ends := marchLength_eq m
  by_cases last : j = 11
  · subst last
    have whole : marchLength m ≤ 366 := by rw [marchLength]; split <;> decide
    have behind : monthStart (11 + 1) = 367 := rfl
    omega
  · have next := monthStart_succ m (j := j) (by omega)
    have order : monthStart (j + 1) ≤ monthStart 11 := by
      rw [monthStart, monthStart]
      omega
    omega

theorem exists_month {m : Int} {k : Nat} (inYear : k < marchLength m) :
    ∃ j i, j < 12 ∧ i < marchMonthLength m j ∧ k = monthStart j + i := by
  obtain ⟨low, high⟩ := (monthOfDay_iff k ((5 * k + 2) / 153)).mp rfl
  have ends := marchLength_eq m
  have month : (5 * k + 2) / 153 < 12 := by
    rw [marchLength] at inYear
    split at inYear <;> omega
  generalize (5 * k + 2) / 153 = j at low high month
  refine ⟨j, k - monthStart j, month, ?_, by omega⟩
  by_cases last : j = 11
  · subst last
    omega
  · rw [monthStart_succ m (by omega)] at high
    omega

/-- Every day is a day of a month, in a year that begins with March. -/
theorem exists_day (days : Int) : ∃ m j i, j < 12 ∧ i < marchMonthLength m j ∧
    days = marchStart m + (monthStart j + i : Nat) := by
  obtain ⟨m, k, inYear, rfl⟩ := exists_marchDay days
  obtain ⟨j, i, month, day, rfl⟩ := exists_month inYear
  exact ⟨m, j, i, month, day, rfl⟩

/-- The closed form gives that day its date. -/
theorem ofDays_eq {m : Int} {j i : Nat} (month : j < 12) (day : i < marchMonthLength m j) :
    ofDays (marchStart m + (monthStart j + i : Nat)) = ⟨monthYear m j, monthNumber j, i + 1⟩ := by
  obtain ⟨before, inYear⟩ := inMonth_bounds month day
  obtain ⟨era, y, few, rfl⟩ : ∃ (era : Int) (y : Nat), y < 400 ∧ m = y + era * 400 :=
    ⟨m / 400, (m % 400).toNat, by omega, by omega⟩
  have found := (monthOfDay_iff (monthStart j + i) j).mpr ⟨Nat.le_add_right _ _, before⟩
  generalize inside : monthStart j + i = k at found inYear
  have next := yearStart_succ era y
  have year : yearOfEra (yearStart y + k) = y :=
    yearOfEra_eq few (Nat.le_add_right _ _) (by omega)
  have ofYear : dayOfYear (yearStart y + k) = k := by
    rw [dayOfYear, year, yearStart]
    omega
  have days : marchStart (y + era * 400) + k - eraStart =
      (yearStart y + k : Nat) + era * eraLength := by
    rw [marchStart_era]
    omega
  have rest : ((yearStart y + k : Nat) + era * eraLength) % eraLength = (yearStart y + k : Nat) := by
    have last : yearStart (y + 1) ≤ 146097 := by
      rw [yearStart]
      omega
    rw [eraLength]
    omega
  have quotient : ((yearStart y + k : Nat) + era * eraLength) / eraLength = era := by
    rw [eraLength] at *
    omega
  have place : k - (153 * j + 2) / 5 = i := by
    rw [monthStart] at inside
    omega
  rw [ofDays, days, rest, quotient, Int.toNat_natCast, year, ofYear]
  simp only [found, place]
  rfl

theorem valid_ofDays (days : Int) : (ofDays days).Valid := by
  obtain ⟨m, j, i, month, day, rfl⟩ := exists_day days
  rw [ofDays_eq month day]
  constructor
  · simp only [monthNumber]
    split <;> omega
  · exact ⟨Nat.succ_pos i, day⟩

theorem ofDays_first (m : Int) {j : Nat} (month : j < 12) :
    ofDays (marchStart m + monthStart j) = ⟨monthYear m j, monthNumber j, 1⟩ := by
  have some : 0 < marchMonthLength m j := by
    rw [marchMonthLength, monthLength]
    split
    · split <;> decide
    · split <;> decide
  have first := ofDays_eq month some
  rwa [Nat.add_zero, Nat.zero_add] at first

/-- Behind the last day of a month stands the first day of the next one. -/
theorem ofDays_behind (m : Int) {j : Nat} (month : j < 12) :
    ofDays (marchStart m + (monthStart j + marchMonthLength m j : Nat)) =
      if monthNumber j < 12 then ⟨monthYear m j, monthNumber j + 1, 1⟩
      else ⟨monthYear m j + 1, 1, 1⟩ := by
  by_cases february : j = 11
  · subst february
    have march := ofDays_first (m + 1) (j := 0) (by decide)
    rw [marchStart_succ] at march
    rw [← marchLength_eq]
    simpa [monthStart, monthYear, monthNumber] using march
  · rw [← monthStart_succ m (by omega), ofDays_first m (by omega)]
    have early : j < 11 := by omega
    interval_cases j <;> simp [monthYear, monthNumber]

/-- The day after has the following date, also where a month, a year or an era ends. -/
theorem ofDays_succ (days : Int) : ofDays (days + 1) = (ofDays days).next := by
  obtain ⟨m, j, i, month, day, rfl⟩ := exists_day days
  have after : marchStart m + (monthStart j + i : Nat) + 1 =
      marchStart m + (monthStart j + (i + 1) : Nat) := by
    push_cast
    omega
  have next : (⟨monthYear m j, monthNumber j, i + 1⟩ : Date).next =
      if i + 1 < marchMonthLength m j then ⟨monthYear m j, monthNumber j, i + 1 + 1⟩
      else if monthNumber j < 12 then ⟨monthYear m j, monthNumber j + 1, 1⟩
      else ⟨monthYear m j + 1, 1, 1⟩ := rfl
  rw [after, ofDays_eq month day, next]
  split
  · next inMonth => exact ofDays_eq month inMonth
  · next ended =>
    have last : i + 1 = marchMonthLength m j := by omega
    rw [last, ofDays_behind m month]

/-- The following date is a later one. -/
theorem key_lt_next (d : Date) : d.key < d.next.key := by
  rw [next]
  split
  · simp [key, Prod.Lex.toLex_lt_toLex]
  · split
    · simp [key, Prod.Lex.toLex_lt_toLex]
    · simp [key, Prod.Lex.toLex_lt_toLex]

/-- Later days have later dates. -/
theorem key_lt_key {days days' : Int} (later : days < days') :
    (ofDays days).key < (ofDays days').key := by
  have increasing : StrictMono fun days => (ofDays days).key := by
    apply strictMono_int_of_lt_succ
    intro days
    change (ofDays days).key < (ofDays (days + 1)).key
    rw [ofDays_succ]
    exact key_lt_next _
  exact increasing later

theorem ofDays_injective : Function.Injective ofDays := by
  intro days days' same
  rcases lt_trichotomy days days' with earlier | equal | later
  · exact absurd (congrArg key same) (key_lt_key earlier).ne
  · exact equal
  · exact absurd (congrArg key same) (key_lt_key later).ne'

end Printf.Date
