import Printf.Proofs.CalendarDays
import Printf.Proofs.Digits

/-! Timestamps as texts. A timestamp is a row of numbers, each with its width and the character behind
it, which are the date of its day and the time of that day. Up to the year 9999 every number has its
width exactly, so that the texts are ordered as the rows of numbers are, and these as time is. -/
namespace Printf

/-- The decimal digits of a number, with zeros in front only to fill them up to a width. -/
structure Shows (width n : Nat) (cs : List Char) : Prop where
  digits : ∀ c ∈ cs, Text.isDecimal c = true
  value : Radix.value 10 (cs.map Text.decimalValue) = n
  length : cs.length = max width (max 1 (Nat.digits 10 n).length)

theorem shows_paddedDigits (width n : Nat) :
    Shows width n ((Radix.paddedDigits width n).map Radix.digitChar) where
  digits := Radix.isDecimal_digitChars (Radix.paddedDigits_lt width n)
  value := by
    rw [Radix.decimalValues_digitChars (Radix.paddedDigits_lt width n), Radix.value_paddedDigits]
  length := by
    rw [List.length_map, Radix.length_paddedDigits]

namespace Instant

/-- Days since 1970 never have a year before it. -/
theorem year_nonneg (t : Instant) : 0 ≤ t.date.year := by
  have start : (Date.ofDays 0).key ≤ t.date.key := by
    rcases (Int.natCast_nonneg (t.seconds / 86400)).eq_or_lt with first | later
    · rw [date, ← first]
    · exact (Date.key_lt_key later).le
  have first : Date.ofDays 0 = ⟨1970, 1, 1⟩ := by decide
  rw [first, Date.key, Date.key, Prod.Lex.toLex_le_toLex] at start
  rcases start with later | ⟨same, -⟩
  · exact le_trans (by decide) later.le
  · exact le_trans (by decide) same.le

def row (t : Instant) : List Nat :=
  [t.date.year.toNat, t.date.month, t.date.day, t.secondOfDay / 3600, t.secondOfDay % 3600 / 60,
    t.secondOfDay % 60, t.millis]

end Instant

/-- A row of numbers as a text. Each has a width and a character behind it. -/
def rowText : List (Nat × Char) → List Nat → List Char
  | (width, behind) :: layout, n :: row =>
    (Radix.paddedDigits width n).map Radix.digitChar ++ behind :: rowText layout row
  | _, _ => []

def stampLayout : List (Nat × Char) :=
  [(4, '-'), (2, '-'), (2, 'T'), (2, ':'), (2, ':'), (2, '.'), (3, 'Z')]

theorem Instant.toList_text (t : Instant) : t.text.toList = rowText stampLayout t.row := by
  simp only [text, String.toList_append, Radix.toList_paddedText, row, stampLayout, rowText]
  generalize t.date = d
  generalize t.secondOfDay = s
  simp only [List.append_assoc]
  rfl

/-- Days are counted along the calendar: each has a date that exists, the next one has the date
behind it, and no two have the same. A timestamp shows the date of its day and the time of that
day. -/
theorem timestamps_show_calendar_days :
    (∀ days, (Date.ofDays days).Valid ∧ Date.ofDays (days + 1) = (Date.ofDays days).next) ∧
    Date.ofDays 0 = ⟨1970, 1, 1⟩ ∧
    Function.Injective Date.ofDays ∧
    ∀ t : Instant, ∃ (year month day hour minute second : Nat) (Y M D h m s f : List Char),
      t.text.toList = Y ++ '-' :: (M ++ '-' :: (D ++ 'T' ::
        (h ++ ':' :: (m ++ ':' :: (s ++ '.' :: (f ++ ['Z'])))))) ∧
      Shows 4 year Y ∧ Shows 2 month M ∧ Shows 2 day D ∧
      Shows 2 hour h ∧ Shows 2 minute m ∧ Shows 2 second s ∧ Shows 3 t.millis f ∧
      Date.ofDays (t.seconds / 86400 : Nat) = ⟨year, month, day⟩ ∧
      hour < 24 ∧ minute < 60 ∧ second < 60 ∧
      t.seconds % 86400 = hour * 3600 + minute * 60 + second := by
  refine ⟨fun days => ⟨Date.valid_ofDays days, Date.ofDays_succ days⟩, by decide,
    Date.ofDays_injective, ?_⟩
  intro t
  have year : (t.date.year.toNat : Int) = t.date.year := Int.toNat_of_nonneg t.year_nonneg
  refine ⟨t.date.year.toNat, t.date.month, t.date.day, t.secondOfDay / 3600,
    t.secondOfDay % 3600 / 60, t.secondOfDay % 60, _, _, _, _, _, _, _, t.toList_text,
    shows_paddedDigits _ _, shows_paddedDigits _ _, shows_paddedDigits _ _,
    shows_paddedDigits _ _, shows_paddedDigits _ _, shows_paddedDigits _ _,
    shows_paddedDigits _ _, ?_, ?_⟩
  · change t.date = _
    rw [year]
  · rw [Instant.secondOfDay]
    omega

/-- Of two numbers in as many digits the smaller one has the smaller text. -/
theorem digitBytes_lt {ds es : List Nat} (same : ds.length = es.length) (small : ∀ d ∈ ds, d < 10)
    (small' : ∀ e ∈ es, e < 10) (less : Radix.value 10 ds < Radix.value 10 es) :
    ds.map (Radix.digitByte false) < es.map (Radix.digitByte false) := by
  have order : ∀ d < 10, ∀ e < 10, d < e → Radix.digitByte false d < Radix.digitByte false e := by
    decide
  induction ds generalizing es with
  | nil =>
    cases es with
    | nil => exact absurd less (Nat.lt_irrefl _)
    | cons e es => cases same
  | cons d ds ih =>
    cases es with
    | nil => cases same
    | cons e es =>
      obtain ⟨first, behind⟩ := List.forall_mem_cons.mp small
      obtain ⟨first', behind'⟩ := List.forall_mem_cons.mp small'
      have length := Nat.succ.inj same
      have rest := Radix.value_lt (by decide) behind'
      rw [Radix.value_cons, Radix.value_cons, length] at less
      rw [List.map_cons, List.map_cons, List.cons_lt_cons_iff]
      rcases Nat.lt_trichotomy d e with lower | rfl | higher
      · exact Or.inl (order d first e first' lower)
      · exact Or.inr ⟨rfl, ih length behind behind' (Nat.lt_of_add_lt_add_left less)⟩
      · have more := Nat.mul_le_mul_right (10 ^ es.length) (Nat.succ_le_of_lt higher)
        rw [Nat.succ_mul] at more
        omega

def Fit (layout : List (Nat × Char)) (row : List Nat) : Prop :=
  List.Forall₂ (fun place n => 0 < place.1 ∧ n < 10 ^ place.1) layout row

theorem append_lt_append {α : Type} [LT α] {a b : List α} (same : a.length = b.length) (c d : List α) :
    a ++ c < b ++ d ↔ a < b ∨ a = b ∧ c < d := by
  induction a generalizing b with
  | nil =>
    cases b with
    | nil => simp
    | cons y b => cases same
  | cons x a ih =>
    cases b with
    | nil => cases same
    | cons y b =>
      have behind := ih (Nat.succ.inj same)
      simp only [List.cons_append, List.cons_lt_cons_iff, behind, List.cons.injEq]
      tauto

theorem length_paddedDigits_of_lt {width n : Nat} (places : 0 < width) (fits : n < 10 ^ width) :
    (Radix.paddedDigits width n).length = width := by
  have few := (Nat.digits_length_le_iff (b := 10) (by decide) n).mpr fits
  rw [Radix.length_paddedDigits]
  omega

theorem encode_digits (ds : List Nat) (small : ∀ d ∈ ds, d < 10) :
    (ds.map Radix.digitChar).flatMap String.utf8EncodeChar = ds.map (Radix.digitByte false) := by
  have each : ∀ d < 10, String.utf8EncodeChar (Radix.digitChar d) = [Radix.digitByte false d] := by
    decide
  induction ds with
  | nil => rfl
  | cons d ds ih =>
    obtain ⟨first, behind⟩ := List.forall_mem_cons.mp small
    simp [each d first, ih behind]

/-- The bytes of the first number of a row, and those behind it. -/
theorem utf8_rowText (width n : Nat) (behind : Char) (layout : List (Nat × Char))
    (row : List Nat) :
    (rowText ((width, behind) :: layout) (n :: row)).flatMap String.utf8EncodeChar =
      (Radix.paddedDigits width n).map (Radix.digitByte false) ++
        (String.utf8EncodeChar behind ++ (rowText layout row).flatMap String.utf8EncodeChar) := by
  rw [rowText, List.flatMap_append, encode_digits _ (Radix.paddedDigits_lt width n),
    List.flatMap_cons]

/-- Rows with the same layout are ordered as their texts are. -/
theorem rowText_lt {layout : List (Nat × Char)} {row row' : List Nat} (fit : Fit layout row)
    (fit' : Fit layout row') (less : row < row') :
    (rowText layout row).flatMap String.utf8EncodeChar <
      (rowText layout row').flatMap String.utf8EncodeChar := by
  induction fit generalizing row' with
  | nil =>
    cases fit'
    exact absurd less (List.lt_irrefl _)
  | @cons place n layout row fits _ ih =>
    obtain ⟨width, behind⟩ := place
    cases fit' with
    | @cons _ n' _ row' fits' fit' =>
      have lengths := (length_paddedDigits_of_lt fits.1 fits.2).trans
        (length_paddedDigits_of_lt fits'.1 fits'.2).symm
      rw [utf8_rowText, utf8_rowText, append_lt_append (by simpa using lengths)]
      rcases List.cons_lt_cons_iff.mp less with lower | ⟨rfl, later⟩
      · left
        apply digitBytes_lt lengths (Radix.paddedDigits_lt _ _) (Radix.paddedDigits_lt _ _)
        rwa [Radix.value_paddedDigits, Radix.value_paddedDigits]
      · exact Or.inr ⟨rfl, (append_lt_append rfl _ _).mpr (Or.inr ⟨rfl, ih fit' later⟩)⟩

theorem length_rowText {layout : List (Nat × Char)} {row : List Nat} (fit : Fit layout row) :
    ((rowText layout row).flatMap String.utf8EncodeChar).length =
      (layout.map fun place => place.1 + (String.utf8EncodeChar place.2).length).sum := by
  induction fit with
  | nil => rfl
  | @cons place n layout row fits _ ih =>
    rw [utf8_rowText, List.length_append, List.length_append, List.length_map,
      length_paddedDigits_of_lt fits.1 fits.2, ih, List.map_cons, List.sum_cons, Nat.add_assoc]

namespace Instant

/-- A later instant has a later date, or the same date and a later time of the day. -/
theorem row_lt {a b : Instant}
    (earlier : a.seconds < b.seconds ∨ a.seconds = b.seconds ∧ a.millis < b.millis) :
    a.row < b.row := by
  simp only [row, List.cons_lt_cons_iff]
  by_cases sameDay : a.seconds / 86400 = b.seconds / 86400
  · have date : a.date = b.date := by rw [Instant.date, sameDay, Instant.date]
    have later : a.secondOfDay < b.secondOfDay ∨
        a.secondOfDay = b.secondOfDay ∧ a.millis < b.millis := by
      rw [secondOfDay, secondOfDay]
      omega
    rw [date]
    omega
  · have days : a.date.key < b.date.key := by
      apply Date.key_lt_key
      omega
    have year := a.year_nonneg
    simp only [Date.key, Prod.Lex.toLex_lt_toLex] at days
    omega

/-- The numbers of a timestamp have their places until the year 9999 is over. -/
theorem fit_row {t : Instant} (millis : t.millis < 1000) (year : t.date.year < 10000) :
    Fit stampLayout t.row := by
  obtain ⟨⟨-, month⟩, -, day⟩ := Date.valid_ofDays (t.seconds / 86400 : Nat)
  have month : t.date.month ≤ 12 := month
  have day : t.date.day ≤ 31 := Nat.le_trans day (Date.monthLength_le _ _)
  have time : t.secondOfDay < 86400 := Nat.mod_lt _ (by decide)
  simp only [Fit, stampLayout, row, List.forall₂_cons, List.forall₂_nil_left_iff, Nat.reducePow,
    and_true]
  omega

theorem utf8_text (t : Instant) :
    utf8 t.text = (rowText stampLayout t.row).flatMap String.utf8EncodeChar := by
  rw [utf8, toList_text]

end Instant

/-- Until the year 9999 is over, timestamps have 24 bytes, and the earlier of two has the smaller
text. -/
theorem timestamps_sort_like_time {a b : Instant} (millis : a.millis < 1000)
    (millis' : b.millis < 1000) (year : a.date.year < 10000) (year' : b.date.year < 10000) :
    (utf8 a.text).length = 24 ∧ (utf8 b.text).length = 24 ∧
    (a.seconds < b.seconds ∨ a.seconds = b.seconds ∧ a.millis < b.millis →
      utf8 a.text < utf8 b.text) := by
  have fit := Instant.fit_row millis year
  have fit' := Instant.fit_row millis' year'
  rw [a.utf8_text, b.utf8_text]
  refine ⟨(length_rowText fit).trans ?_, (length_rowText fit').trans ?_, ?_⟩
  · decide
  · decide
  · intro earlier
    exact rowText_lt fit fit' (Instant.row_lt earlier)

/-- From the last millisecond of a leap day at the end of a century to the first of March. -/
theorem timestamps_sort_over_leap_day :
    (utf8 (Instant.text ⟨951868799, 999⟩)).length = 24 ∧
      (utf8 (Instant.text ⟨951868800, 0⟩)).length = 24 ∧
      (Instant.date ⟨951868799, 999⟩).day = 29 ∧ (Instant.date ⟨951868800, 0⟩).day = 1 ∧
      utf8 (Instant.text ⟨951868799, 999⟩) < utf8 (Instant.text ⟨951868800, 0⟩) := by
  have sorted := timestamps_sort_like_time (a := ⟨951868799, 999⟩) (b := ⟨951868800, 0⟩)
    (by decide) (by decide) (by decide) (by decide)
  exact ⟨sorted.1, sorted.2.1, by decide, by decide, sorted.2.2 (Or.inl (by decide))⟩

end Printf
