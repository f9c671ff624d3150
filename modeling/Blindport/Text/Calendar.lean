import Mathlib.Algebra.Group.Int.Defs
import Mathlib.Data.Int.Order.Basic
import Mathlib.Data.List.Induction
import Mathlib.Tactic.IntervalCases
import Mathlib.Tactic.SplitIfs

/-!
# Blindport.Text.Calendar

Dates of the proleptic Gregorian calendar by the number of days since
1970-01-01, and their text `yyyy-mm-dd` as `time.Time.Format` writes it and
`time.Parse` reads it.

Years are counted from March, so that the leap day ends one.

* `dateOf_number`, `number_dateOf` — day numbers and dates correspond;
* `dateOf_lt` — a later day has a later date;
* `parse_format` — a date of a four-digit year is read back from its text;
* `format_lt` — the texts of such dates are in the order of the days.
-/

namespace Calendar

/-! ## dates -/

@[ext] structure Date where
  year : ℤ
  month : ℕ
  day : ℕ
deriving DecidableEq

def isLeap (year : ℤ) : Bool := year % 4 = 0 ∧ (year % 100 ≠ 0 ∨ year % 400 = 0)

/-- The days of a month. -/
def daysIn (year : ℤ) (month : ℕ) : ℕ :=
  if month = 2 then if isLeap year then 29 else 28
  else if month = 4 ∨ month = 6 ∨ month = 9 ∨ month = 11 then 30
  else 31

/-- The date exists. -/
def Date.Valid (d : Date) : Prop :=
  1 ≤ d.month ∧ d.month ≤ 12 ∧ 1 ≤ d.day ∧ d.day ≤ daysIn d.year d.month

instance (d : Date) : Decidable d.Valid := inferInstanceAs (Decidable (_ ∧ _ ∧ _ ∧ _))

/-! ## day numbers -/

/-- The first of March of a year, in days from that of the year 0. -/
def yearStart (y : ℤ) : ℤ := 365 * y + y / 4 - y / 100 + y / 400

/-- The year, counted from March, of a day: whole cycles of 400, 100, 4 and
1 years. -/
def marchYear (z : ℤ) : ℤ :=
  let days := z % 146097
  let century := min (days / 36524) 3
  let days := days - 36524 * century
  400 * (z / 146097) + 100 * century + 4 * (days / 1461) + min (days % 1461 / 365) 3

/-- The first day of a month, in days from the first of March; March is 0. -/
def monthStart (m : ℤ) : ℤ := (153 * m + 2) / 5

/-- The date of a day of a month that is counted from March. -/
def ofMarch (y m day : ℤ) : Date where
  year := if m < 10 then y else y + 1
  month := (if m < 10 then m + 3 else m - 9).toNat
  day := day.toNat

/-- The date of a day. -/
def dateOf (n : ℤ) : Date :=
  let z := n + 719468
  let y := marchYear z
  let m := (5 * (z - yearStart y) + 2) / 153
  ofMarch y m (z - yearStart y - monthStart m + 1)

namespace Date

/-- The year of a date, counted from March. -/
def marchYear (d : Date) : ℤ := if 3 ≤ d.month then d.year else d.year - 1

/-- The month of a date, counted from March. -/
def marchMonth (d : Date) : ℤ := if 3 ≤ d.month then d.month - 3 else d.month + 9

/-- The day of a date. -/
def number (d : Date) : ℤ :=
  yearStart d.marchYear + monthStart d.marchMonth + d.day - 1 - 719468

/-- The months of the calendar in one row. -/
def index (d : Date) : ℤ := 12 * d.year + d.month

end Date

/-! ## months -/

theorem marchMonth_ofMarch {m : ℤ} (h0 : 0 ≤ m) (h11 : m ≤ 11) (y day : ℤ) :
    (ofMarch y m day).marchMonth = m := by
  unfold ofMarch Date.marchMonth
  dsimp only
  split_ifs <;> omega

theorem marchYear_ofMarch {m : ℤ} (h0 : 0 ≤ m) (h11 : m ≤ 11) (y day : ℤ) :
    (ofMarch y m day).marchYear = y := by
  unfold ofMarch Date.marchYear
  dsimp only
  split_ifs <;> omega

theorem index_ofMarch {m : ℤ} (h0 : 0 ≤ m) (h11 : m ≤ 11) (y day : ℤ) :
    (ofMarch y m day).index = 12 * y + m + 3 := by
  unfold ofMarch Date.index
  dsimp only
  split_ifs <;> omega

theorem ofMarch_march {d : Date} (h1 : 1 ≤ d.month) (h12 : d.month ≤ 12) :
    ofMarch d.marchYear d.marchMonth d.day = d := by
  unfold ofMarch Date.marchYear Date.marchMonth
  ext
  · dsimp only
    split_ifs <;> omega
  · dsimp only
    split_ifs <;> omega
  · simp

/-- From March to January the months have their lengths in every year. -/
theorem daysIn_ofMarch {m : ℤ} (h0 : 0 ≤ m) (h10 : m ≤ 10) (y day : ℤ) :
    (daysIn (ofMarch y m day).year (ofMarch y m day).month : ℤ) =
      monthStart (m + 1) - monthStart m := by
  have hmonth : (ofMarch y m day).month ≠ 2 := by
    unfold ofMarch
    dsimp only
    split_ifs <;> omega
  rw [daysIn, if_neg hmonth]
  unfold ofMarch
  dsimp only
  interval_cases m <;> rfl

/-- February ends the year. -/
theorem daysIn_ofMarch_february (y day : ℤ) :
    (daysIn (ofMarch y 11 day).year (ofMarch y 11 day).month : ℤ) =
      (if isLeap (y + 1) then 366 else 365) - monthStart 11 := by
  have hdays : daysIn (ofMarch y 11 day).year (ofMarch y 11 day).month =
      if isLeap (y + 1) then 29 else 28 := rfl
  rw [hdays]
  split_ifs <;> rfl

/-! ## years -/

theorem yearStart_succ (y : ℤ) :
    yearStart (y + 1) = yearStart y + if isLeap (y + 1) then 366 else 365 := by
  unfold yearStart isLeap
  split_ifs with h
  · simp only [decide_eq_true_eq] at h
    omega
  · simp only [decide_eq_true_eq] at h
    omega

theorem yearStart_le {y y' : ℤ} (h : y ≤ y') : yearStart y ≤ yearStart y' := by
  unfold yearStart
  omega

theorem marchYear_spec (z : ℤ) :
    yearStart (marchYear z) ≤ z ∧ z < yearStart (marchYear z + 1) := by
  have h1 := Int.emod_nonneg z (b := 146097) (by decide)
  have h2 := Int.emod_lt_of_pos z (b := 146097) (by decide)
  have h3 := Int.mul_ediv_add_emod z 146097
  unfold marchYear
  dsimp only
  generalize z % 146097 = days at *
  generalize z / 146097 = era at *
  obtain ⟨c, hc⟩ : ∃ c, c = min (days / 36524) 3 := ⟨_, rfl⟩
  rw [← hc]
  obtain ⟨q, hq⟩ : ∃ q, q = (days - 36524 * c) / 1461 := ⟨_, rfl⟩
  obtain ⟨r, hr⟩ : ∃ r, r = (days - 36524 * c) % 1461 := ⟨_, rfl⟩
  rw [← hq, ← hr]
  obtain ⟨y, hy⟩ : ∃ y, y = min (r / 365) 3 := ⟨_, rfl⟩
  rw [← hy]
  have hr0 : days = 36524 * c + 1461 * q + r := by omega
  have hc0 : 0 ≤ c ∧ c ≤ 3 := by omega
  have hcd : 36524 * c ≤ days := by omega
  have hq0 : 0 ≤ q ∧ q ≤ 24 := by omega
  have hrr : 0 ≤ r ∧ r ≤ 1460 := by omega
  have hy0 : 0 ≤ y ∧ y ≤ 3 := by omega
  have hyr : 365 * y ≤ r ∧ (y < 3 → r < 365 * y + 365) := by omega
  -- the last cycle of 4 years of a century that is no leap year has a day less
  have hlast : q = 24 → c < 3 → r < 1460 := by omega
  have e1 : (400 * era + 100 * c + 4 * q + y) / 4 = 100 * era + 25 * c + q := by omega
  have e2 : (400 * era + 100 * c + 4 * q + y) / 100 = 4 * era + c := by omega
  have e3 : (400 * era + 100 * c + 4 * q + y) / 400 = era := by omega
  constructor
  · unfold yearStart
    rw [e1, e2, e3]
    omega
  · unfold yearStart
    by_cases hy3 : y < 3
    · have f1 : (400 * era + 100 * c + 4 * q + y + 1) / 4 = 100 * era + 25 * c + q := by omega
      have f2 : (400 * era + 100 * c + 4 * q + y + 1) / 100 = 4 * era + c := by omega
      have f3 : (400 * era + 100 * c + 4 * q + y + 1) / 400 = era := by omega
      rw [f1, f2, f3]
      omega
    · have f1 : (400 * era + 100 * c + 4 * q + y + 1) / 4 = 100 * era + 25 * c + q + 1 := by omega
      rw [f1]
      by_cases hq24 : q = 24
      · have f2 : (400 * era + 100 * c + 4 * q + y + 1) / 100 = 4 * era + c + 1 := by omega
        rw [f2]
        by_cases hc3 : c = 3
        · have f3 : (400 * era + 100 * c + 4 * q + y + 1) / 400 = era + 1 := by omega
          rw [f3]
          omega
        · have f3 : (400 * era + 100 * c + 4 * q + y + 1) / 400 = era := by omega
          rw [f3]
          omega
      · have f2 : (400 * era + 100 * c + 4 * q + y + 1) / 100 = 4 * era + c := by omega
        have f3 : (400 * era + 100 * c + 4 * q + y + 1) / 400 = era := by omega
        rw [f2, f3]
        omega

/-- A day lies in one year. -/
theorem marchYear_eq {z y : ℤ} (hle : yearStart y ≤ z) (hlt : z < yearStart (y + 1)) :
    marchYear z = y := by
  obtain ⟨hle', hlt'⟩ := marchYear_spec z
  by_contra hne
  rcases lt_or_gt_of_ne hne with h | h
  · have := yearStart_le (show marchYear z + 1 ≤ y by omega)
    omega
  · have := yearStart_le (show y + 1 ≤ marchYear z by omega)
    omega

theorem marchYear_mono {z z' : ℤ} (h : z ≤ z') : marchYear z ≤ marchYear z' := by
  by_contra hlt
  have hle := yearStart_le (show marchYear z' + 1 ≤ marchYear z by omega)
  have := (marchYear_spec z).1
  have := (marchYear_spec z').2
  omega

/-- The day of its year, and the month of that. -/
theorem dayOfYear_spec (z : ℤ) :
    0 ≤ z - yearStart (marchYear z) ∧
      z - yearStart (marchYear z) < if isLeap (marchYear z + 1) then 366 else 365 := by
  obtain ⟨hle, hlt⟩ := marchYear_spec z
  rw [yearStart_succ] at hlt
  constructor
  · omega
  · omega

/-- What the date of a day is: its month is one of the year's twelve, and the
day one of that month. -/
theorem dateOf_eq (n : ℤ) : ∃ y m day : ℤ, dateOf n = ofMarch y m day ∧
    y = marchYear (n + 719468) ∧ 0 ≤ m ∧ m ≤ 11 ∧ 1 ≤ day ∧
    n + 719468 = yearStart y + monthStart m + day - 1 ∧
    (m ≤ 10 → day ≤ monthStart (m + 1) - monthStart m) ∧
    (m = 11 → day ≤ (if isLeap (y + 1) then 366 else 365) - monthStart 11) := by
  obtain ⟨hle, hlt⟩ := dayOfYear_spec (n + 719468)
  refine ⟨_, _, _, rfl, rfl, ?_⟩
  generalize marchYear (n + 719468) = y at *
  generalize hd : n + 719468 - yearStart y = d at *
  have hd366 : d < 366 := by split_ifs at hlt <;> omega
  have hm0 : 0 ≤ (5 * d + 2) / 153 ∧ (5 * d + 2) / 153 ≤ 11 := by omega
  refine ⟨hm0.1, hm0.2, ?_, by omega, ?_, ?_⟩
  · unfold monthStart
    omega
  · unfold monthStart
    omega
  · intro hm
    rw [hm]
    omega

/-- **Day numbers are those of their dates.** -/
@[simp] theorem number_dateOf (n : ℤ) : (dateOf n).number = n := by
  obtain ⟨y, m, day, heq, -, h0, h11, hday, hn, -, -⟩ := dateOf_eq n
  have hdate : ((dateOf n).day : ℤ) = day := by
    rw [heq]
    exact Int.toNat_of_nonneg (by omega)
  rw [Date.number, hdate, heq, marchYear_ofMarch h0 h11, marchMonth_ofMarch h0 h11]
  omega

theorem dateOf_valid (n : ℤ) : (dateOf n).Valid := by
  obtain ⟨y, m, day, heq, -, h0, h11, hday, -, hmonth, hlast⟩ := dateOf_eq n
  rw [heq]
  have hle : day ≤ daysIn (ofMarch y m day).year (ofMarch y m day).month := by
    by_cases h10 : m ≤ 10
    · rw [daysIn_ofMarch h0 h10]
      exact hmonth h10
    · obtain rfl : m = 11 := by omega
      rw [daysIn_ofMarch_february]
      exact hlast rfl
  refine ⟨?_, ?_, ?_, ?_⟩
  · show 1 ≤ Int.toNat (if m < 10 then m + 3 else m - 9)
    split_ifs <;> omega
  · show Int.toNat (if m < 10 then m + 3 else m - 9) ≤ 12
    split_ifs <;> omega
  · show 1 ≤ day.toNat
    omega
  · show day.toNat ≤ _
    omega

/-- **Dates are those of their day numbers.** -/
theorem dateOf_number {d : Date} (h : d.Valid) : dateOf d.number = d := by
  obtain ⟨hm1, hm12, hd1, hdays⟩ := h
  have hself := ofMarch_march hm1 hm12
  have hrange : 0 ≤ d.marchMonth ∧ d.marchMonth ≤ 11 := by
    unfold Date.marchMonth
    split_ifs <;> omega
  obtain ⟨y, hy⟩ : ∃ y, y = d.marchYear := ⟨_, rfl⟩
  obtain ⟨m, hm⟩ : ∃ m, m = d.marchMonth := ⟨_, rfl⟩
  have hnumber : d.number + 719468 = yearStart y + monthStart m + d.day - 1 := by
    rw [Date.number, hy, hm]
    omega
  rw [← hy, ← hm] at hself
  rw [← hm] at hrange
  obtain ⟨h0, h11⟩ := hrange
  -- the day is one of its month, and so of its year
  have hin : monthStart m + d.day - 1 < (if isLeap (y + 1) then 366 else 365) ∧
      (m ≤ 10 → monthStart m + d.day - 1 < monthStart (m + 1)) := by
    by_cases h10 : m ≤ 10
    · have hlength := daysIn_ofMarch h0 h10 y d.day
      rw [hself] at hlength
      refine ⟨?_, fun _ => by omega⟩
      have hlast : monthStart (m + 1) ≤ 337 := by unfold monthStart; omega
      split_ifs <;> omega
    · obtain rfl : m = 11 := by omega
      have hlength := daysIn_ofMarch_february y d.day
      rw [hself] at hlength
      exact ⟨by omega, fun h => absurd h h10⟩
  have hstart : 0 ≤ monthStart m := by unfold monthStart; omega
  have hyear : Calendar.marchYear (d.number + 719468) = y := by
    apply marchYear_eq
    · omega
    · rw [yearStart_succ]
      omega
  have hmonth : (5 * (d.number + 719468 - yearStart y) + 2) / 153 = m := by
    obtain ⟨hlast, hnext⟩ := hin
    have hd366 : monthStart m + d.day - 1 < 366 := by split_ifs at hlast <;> omega
    rw [hnumber]
    unfold monthStart at *
    omega
  have hday : d.number + 719468 - yearStart y - monthStart m + 1 = d.day := by omega
  unfold dateOf
  dsimp only
  rw [hyear, hmonth, hday]
  exact hself

/-- **A later day has a later date.** -/
theorem dateOf_lt {n n' : ℤ} (h : n < n') :
    (dateOf n).index < (dateOf n').index ∨
      (dateOf n).index = (dateOf n').index ∧ (dateOf n).day < (dateOf n').day := by
  have hyears := marchYear_mono (show n + 719468 ≤ n' + 719468 by omega)
  obtain ⟨y, m, day, heq, hy, h0, h11, hday, hn, hnext, -⟩ := dateOf_eq n
  obtain ⟨y', m', day', heq', hy', h0', h11', hday', hn', hnext', -⟩ := dateOf_eq n'
  rw [heq, heq', index_ofMarch h0 h11, index_ofMarch h0' h11']
  rw [← hy, ← hy'] at hyears
  have hmonths : y = y' → m' < m → monthStart (m' + 1) ≤ monthStart m := by
    unfold monthStart
    omega
  show _ ∨ _ ∧ day.toNat < day'.toNat
  by_cases hsame : y = y'
  · subst hsame
    by_cases hmonth : m = m'
    · subst hmonth
      omega
    · by_cases hlt : m' < m
      · have := hmonths rfl hlt
        have := hnext' (by omega)
        omega
      · omega
  · omega

/-! ## texts -/

/-- A number in some digits. -/
def padded : ℕ → ℕ → List Char
  | 0, _ => []
  | width + 1, n => padded width (n / 10) ++ [Nat.digitChar (n % 10)]

/-- `appendInt`: at least `width` digits, and a sign. -/
def appendInt (x : ℤ) (width : ℕ) : List Char :=
  (if x < 0 then ['-'] else []) ++
    if x.natAbs < 10 ^ width then padded width x.natAbs else Nat.toDigits 10 x.natAbs

/-- `Format` with the layout `2006-01-02`. -/
def format (d : Date) : List Char :=
  appendInt d.year 4 ++ '-' :: (appendInt d.month 2 ++ '-' :: appendInt d.day 2)

/-- Some digits, and what follows them. -/
def readPadded (width : ℕ) (cs : List Char) : Option (ℕ × List Char) :=
  if (cs.take width).length = width ∧ (cs.take width).all Char.isDigit = true then
    some (Nat.ofDigitChars 10 (cs.take width) 0, cs.drop width)
  else none

def readDash : List Char → Option (List Char)
  | '-' :: cs => some cs
  | _ => none

/-- `time.Parse` with the layout `2006-01-02`. -/
def parse (cs : List Char) : Option Date := do
  let (year, cs) ← readPadded 4 cs
  let cs ← readDash cs
  let (month, cs) ← readPadded 2 cs
  let cs ← readDash cs
  let (day, cs) ← readPadded 2 cs
  let d : Date := ⟨year, month, day⟩
  if d.Valid ∧ cs = [] then some d else none

/-- The year is written in four digits. -/
def Date.FourDigits (d : Date) : Prop := 0 ≤ d.year ∧ d.year ≤ 9999

instance (d : Date) : Decidable d.FourDigits := inferInstanceAs (Decidable (_ ∧ _))

@[simp] theorem length_padded (width n : ℕ) : (padded width n).length = width := by
  induction width generalizing n with
  | zero => rfl
  | succ width ih => rw [padded, List.length_append, ih, List.length_singleton]

theorem isDigit_padded {width n : ℕ} {c : Char} (h : c ∈ padded width n) : c.isDigit = true := by
  have hdigit : ∀ k : Fin 10, (Nat.digitChar k.val).isDigit = true := by decide
  induction width generalizing n with
  | zero => simp [padded] at h
  | succ width ih =>
      rw [padded, List.mem_append, List.mem_singleton] at h
      cases h with
      | inl h => exact ih h
      | inr h =>
          rw [h]
          exact hdigit ⟨n % 10, Nat.mod_lt _ (by decide)⟩

/-- The digits are those of the number. -/
theorem ofDigitChars_padded {width n : ℕ} (h : n < 10 ^ width) :
    Nat.ofDigitChars 10 (padded width n) 0 = n := by
  induction width generalizing n with
  | zero =>
      rw [padded, Nat.ofDigitChars_nil]
      omega
  | succ width ih =>
      rw [pow_succ] at h
      have hmod : n % 10 < 10 := Nat.mod_lt _ (by decide)
      rw [padded, Nat.ofDigitChars_append, ih (by omega),
        Nat.ofDigitChars_cons_digitChar_of_lt_ten hmod, Nat.ofDigitChars_nil]
      omega

theorem ofDigitChars_lt {cs : List Char} (h : ∀ c ∈ cs, c.isDigit = true) :
    Nat.ofDigitChars 10 cs 0 < 10 ^ cs.length := by
  induction cs using List.reverseRecOn with
  | nil => simp
  | append_singleton cs c ih =>
      have hc : c.toNat ≤ 57 := by
        have hdigit := h c (by simp)
        simp only [Char.isDigit, Bool.and_eq_true, decide_eq_true_eq] at hdigit
        exact UInt32.le_iff_toNat_le.mp hdigit.2
      have hcs := ih fun d hd => h d (by simp [hd])
      have hzero : '0'.toNat = 48 := rfl
      rw [Nat.ofDigitChars_append, Nat.ofDigitChars_cons, Nat.ofDigitChars_nil, List.length_append,
        List.length_singleton, pow_succ, hzero]
      omega

theorem readPadded_padded {width n : ℕ} (h : n < 10 ^ width) (rest : List Char) :
    readPadded width (padded width n ++ rest) = some (n, rest) := by
  have htake : (padded width n ++ rest).take width = padded width n := by
    rw [List.take_append_of_le_length (by simp), List.take_of_length_le (by simp)]
  have hdrop : (padded width n ++ rest).drop width = rest := by
    rw [List.drop_append_of_le_length (by simp), List.drop_of_length_le (by simp),
      List.nil_append]
  have hdigits : (padded width n).all Char.isDigit = true :=
    List.all_eq_true.mpr fun c hc => isDigit_padded hc
  rw [readPadded, htake, hdrop, if_pos ⟨length_padded _ _, hdigits⟩, ofDigitChars_padded h]

theorem readPadded_lt {width n : ℕ} {cs rest : List Char}
    (h : readPadded width cs = some (n, rest)) : n < 10 ^ width := by
  unfold readPadded at h
  split at h
  · rename_i hdigits
    cases h
    have hlt := ofDigitChars_lt (List.all_eq_true.mp hdigits.2)
    rwa [hdigits.1] at hlt
  · cases h

/-- A number that fits is written in just its digits. -/
theorem appendInt_natCast {width n : ℕ} (h : n < 10 ^ width) :
    appendInt n width = padded width n := by
  rw [appendInt, if_neg (by omega), Int.natAbs_natCast, if_pos h, List.nil_append]

/-- A date of a four-digit year is written in ten characters. -/
theorem format_eq {d : Date} (hd : d.Valid) (hyear : d.FourDigits) :
    format d = padded 4 d.year.toNat ++ '-' :: (padded 2 d.month ++ '-' :: padded 2 d.day) := by
  obtain ⟨-, hmonth, -, hday⟩ := hd
  obtain ⟨hpos, hle⟩ := hyear
  have hday31 : d.day ≤ 31 := by
    refine le_trans hday ?_
    unfold daysIn
    split_ifs <;> omega
  have hyear : ((d.year.toNat : ℕ) : ℤ) = d.year := Int.toNat_of_nonneg hpos
  have hyear4 : d.year.toNat < 10 ^ 4 := by
    simp only [Nat.reducePow]
    omega
  rw [format, appendInt_natCast (show d.month < 10 ^ 2 by omega),
    appendInt_natCast (show d.day < 10 ^ 2 by omega), ← hyear, appendInt_natCast hyear4,
    Int.toNat_natCast]

/-- A text is read part by part. -/
theorem parse_parts {cs cs' cs'' : List Char} {year month day : ℕ}
    (hyear : readPadded 4 cs = some (year, '-' :: cs'))
    (hmonth : readPadded 2 cs' = some (month, '-' :: cs''))
    (hday : readPadded 2 cs'' = some (day, [])) (h : Date.Valid ⟨year, month, day⟩) :
    parse cs = some ⟨year, month, day⟩ := by
  simp [parse, readDash, hyear, hmonth, hday, h]

/-- **Round trip**: a date of a four-digit year is read back from its text. -/
theorem parse_format {d : Date} (hd : d.Valid) (hyear : d.FourDigits) :
    parse (format d) = some d := by
  have hvalid := hd
  obtain ⟨hm1, hmonth, hd1, hday⟩ := hd
  have hday31 : daysIn d.year d.month ≤ 31 := by
    unfold daysIn
    split_ifs <;> omega
  have hyear' : (d.year.toNat : ℤ) = d.year := Int.toNat_of_nonneg hyear.1
  have hyear4 : d.year.toNat < 10 ^ 4 := by
    have hle := hyear.2
    simp only [Nat.reducePow]
    omega
  have hlast := readPadded_padded (show d.day < 10 ^ 2 by omega) []
  rw [List.append_nil] at hlast
  have hself : (⟨(d.year.toNat : ℤ), d.month, d.day⟩ : Date) = d := by rw [hyear']
  rw [format_eq hvalid hyear, parse_parts (readPadded_padded hyear4 _)
    (readPadded_padded (by omega) _) hlast (by rwa [hself]), hself]

/-- What is read is a date of a four-digit year. -/
theorem parse_some {cs : List Char} {d : Date} (h : parse cs = some d) :
    d.Valid ∧ d.FourDigits := by
  simp only [parse, Option.bind_eq_bind, Option.bind_eq_some_iff, Prod.exists] at h
  obtain ⟨year, cs₁, hyear, cs₂, -, month, cs₃, -, cs₄, -, day, cs₅, -, h⟩ := h
  have hlt := readPadded_lt hyear
  simp only [Nat.reducePow] at hlt
  split at h
  · rename_i hvalid
    cases h
    refine ⟨hvalid.1, ?_, ?_⟩
    · dsimp only
      omega
    · dsimp only
      omega
  · cases h

/-- A number that does not fit takes more digits. -/
theorem lt_length_toDigits {width n : ℕ} (h : 10 ^ width ≤ n) :
    width < (Nat.toDigits 10 n).length := by
  have hdigits : ∀ c ∈ Nat.toDigits 10 n, c.isDigit = true := fun c hc =>
    Nat.isDigit_of_mem_toDigits (by decide) (by decide) hc
  have hlt := ofDigitChars_lt hdigits
  rw [Nat.ofDigitChars_ten_toDigits] at hlt
  exact (Nat.pow_lt_pow_iff_right (by decide)).mp (lt_of_le_of_lt h hlt)

theorem le_length_appendInt (x : ℤ) (width : ℕ) : width ≤ (appendInt x width).length := by
  rw [appendInt, List.length_append]
  split_ifs with hneg hfits hfits
  · simp
  · have := lt_length_toDigits (not_lt.mp hfits)
    omega
  · simp
  · have := lt_length_toDigits (not_lt.mp hfits)
    omega

/-- A year that has not four digits is written in no text of one that has. -/
theorem fourDigits_of_format {d d' : Date} (hd' : d'.Valid) (hyear' : d'.FourDigits)
    (h : format d = format d') : d.FourDigits := by
  rw [format_eq hd' hyear'] at h
  have hlength := congrArg List.length h
  have hmonth := le_length_appendInt d.month 2
  have hday := le_length_appendInt d.day 2
  rw [format] at h hlength
  simp only [List.length_append, List.length_cons, length_padded] at hlength
  constructor
  · by_contra hneg
    -- the sign would stand where the first digit does
    have hdash : '-' ∈ padded 4 d'.year.toNat := by
      have hfour := length_padded 4 d'.year.toNat
      cases hpadded : padded 4 d'.year.toNat with
      | nil =>
          rw [hpadded] at hfour
          cases hfour
      | cons c cs =>
          rw [hpadded, appendInt, if_pos (not_le.mp hneg), List.append_assoc, List.singleton_append,
            List.cons_append, List.cons.injEq] at h
          rw [h.1]
          exact List.mem_cons_self
    exact absurd (isDigit_padded hdash) (by decide)
  · by_contra hlarge
    have hyear : 4 < (appendInt d.year 4).length := by
      have hnat : 10 ^ 4 ≤ d.year.natAbs := by
        simp only [Nat.reducePow]
        omega
      rw [appendInt, if_neg (by omega), if_neg (not_lt.mpr hnat), List.nil_append]
      exact lt_length_toDigits hnat
    omega

/-! ## the order of texts -/

/-- Texts of one length compare by their first parts, then by their rest. -/
theorem append_lt_append {xs ys xs' ys' : List Char} (hlen : xs.length = xs'.length)
    (h : xs < xs' ∨ xs = xs' ∧ ys < ys') : xs ++ ys < xs' ++ ys' := by
  induction xs generalizing xs' with
  | nil =>
      rw [List.length_nil, eq_comm, List.length_eq_zero_iff] at hlen
      rw [hlen] at h ⊢
      simpa using h
  | cons x xs ih =>
      cases xs' with
      | nil => simp at hlen
      | cons x' xs' =>
          rw [List.cons_append, List.cons_append, List.cons_lt_cons_iff]
          have hlen' : xs.length = xs'.length := by simpa using hlen
          rw [List.cons_lt_cons_iff, List.cons.injEq] at h
          obtain (hx | ⟨hx, hlt⟩) | ⟨⟨hx, hxs⟩, hlt⟩ := h
          · exact .inl hx
          · exact .inr ⟨hx, ih hlen' (.inl hlt)⟩
          · exact .inr ⟨hx, ih hlen' (.inr ⟨hxs, hlt⟩)⟩

theorem padded_lt {width n m : ℕ} (hm : m < 10 ^ width) (h : n < m) :
    padded width n < padded width m := by
  have hdigit : ∀ i j : Fin 10, i < j → Nat.digitChar i.val < Nat.digitChar j.val := by decide
  induction width generalizing n m with
  | zero => omega
  | succ width ih =>
      rw [pow_succ] at hm
      rw [padded, padded]
      apply append_lt_append (by simp)
      by_cases hlt : n / 10 < m / 10
      · exact .inl (ih (by omega) hlt)
      · have hmod : n % 10 < m % 10 := by omega
        rw [show n / 10 = m / 10 by omega]
        refine .inr ⟨rfl, List.cons_lt_cons_iff.mpr (.inl ?_)⟩
        exact hdigit ⟨n % 10, Nat.mod_lt _ (by decide)⟩ ⟨m % 10, Nat.mod_lt _ (by decide)⟩ hmod

/-- **The texts of days are in the order of the days**, while their years have four
digits. -/
theorem format_lt {n n' : ℤ} (hn : (dateOf n).FourDigits) (hn' : (dateOf n').FourDigits)
    (h : n < n') : format (dateOf n) < format (dateOf n') := by
  have hvalid := dateOf_valid n
  have hvalid' := dateOf_valid n'
  rw [format_eq hvalid hn, format_eq hvalid' hn']
  obtain ⟨hm1, hmonth, -, -⟩ := hvalid
  obtain ⟨hm1', hmonth', -, hday'⟩ := hvalid'
  have hday31 : daysIn (dateOf n').year (dateOf n').month ≤ 31 := by
    unfold daysIn
    split_ifs <;> omega
  obtain ⟨hpos, hle⟩ := hn
  obtain ⟨hpos', hle'⟩ := hn'
  have hlt := dateOf_lt h
  unfold Date.index at hlt
  apply append_lt_append (by simp)
  by_cases hyear : (dateOf n).year < (dateOf n').year
  · exact .inl (padded_lt (by omega) (by omega))
  · right
    refine ⟨by rw [show (dateOf n).year = (dateOf n').year by omega], ?_⟩
    refine List.cons_lt_cons_iff.mpr (.inr ⟨rfl, append_lt_append (by simp) ?_⟩)
    by_cases hmonths : (dateOf n).month < (dateOf n').month
    · exact .inl (padded_lt (by omega) hmonths)
    · right
      refine ⟨by rw [show (dateOf n).month = (dateOf n').month by omega], ?_⟩
      exact List.cons_lt_cons_iff.mpr (.inr ⟨rfl, padded_lt (by omega) (by omega)⟩)

end Calendar
