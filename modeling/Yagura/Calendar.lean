import Yagura.Time

/-!
# Calendar dates

`gmtime_r` (`userland/lib/time.c`) takes whole years and months off the time,
with the functions of `common/calendar.h`. Nothing wraps as long as the year
fits in an `int`.
-/

namespace Yagura.Calendar

open Finset

def isLeapYear (year : Nat) : Bool := year % 4 == 0 && (year % 100 != 0 || year % 400 == 0)

def daysInYear (year : Nat) : Nat := if isLeapYear year then 366 else 365

def daysInMonth (year month : Nat) : Nat :=
  if month = 2 ∧ isLeapYear year then 29 else [31, 28, 31, 30, 31, 30, 31, 31, 30, 31, 30, 31].getD (month - 1) 0

def dayOfYear (year month day : Nat) : Nat := day - 1 + ∑ m ∈ Finset.Ico 1 month, daysInMonth year m

/-- Zeller's congruence. -/
def dayOfWeek (year month day : Nat) : Nat :=
  let y := if month ≤ 2 then year - 1 else year
  let m := if month ≤ 2 then month + 12 else month
  (day + (13 * m + 8) / 5 + y + y / 4 - y / 100 + y / 400) % 7

theorem daysInYear_pos (year : Nat) : 0 < daysInYear year := by
  unfold daysInYear
  split <;> decide

def findYear (year time : Nat) : Nat × Nat :=
  if time < daysInYear year * 86400 then (year, time) else findYear (year + 1) (time - daysInYear year * 86400)
termination_by time
decreasing_by
  have := daysInYear_pos year
  omega

/-- The month, and the days since it began; at most `n` months are left behind. -/
def findMonth (year : Nat) : Nat → Nat → Nat → Nat × Nat
  | 0, month, days => (month, days)
  | n + 1, month, days =>
    if days < daysInMonth year month then (month, days) else findMonth year n (month + 1) (days - daysInMonth year month)

structure Tm where
  year : Int
  mon : Nat
  mday : Nat
  hour : Nat
  min : Nat
  sec : Nat
  yday : Nat
  wday : Nat

def gmtimeR (t : Nat) : Option Tm :=
  let (year, time) := findYear 1970 t
  (divmodi64 time 86400).map fun (days, seconds) =>
    let (month, rest) := findMonth year 11 1 days.toNat
    let minutes := seconds.toNat / 60
    ⟨year - 1900, month - 1, rest + 1, minutes / 60, minutes % 60, seconds.toNat % 60, days.toNat,
      dayOfWeek year month (rest + 1)⟩

/-! ## The date is exact -/

def daysBefore (year : Nat) : Nat := ∑ i ∈ Finset.range (year - 1970), daysInYear (1970 + i)

theorem daysBefore_first : daysBefore 1970 = 0 := rfl

theorem daysBefore_succ {year : Nat} (h : 1970 ≤ year) : daysBefore (year + 1) = daysBefore year + daysInYear year := by
  unfold daysBefore
  rw [Nat.succ_sub h, sum_range_succ, Nat.add_sub_cancel' h]

theorem findYear_spec (year time : Nat) (h : 1970 ≤ year) :
    let r := findYear year time
    1970 ≤ r.1 ∧ r.2 < daysInYear r.1 * 86400 ∧ daysBefore r.1 * 86400 + r.2 = daysBefore year * 86400 + time := by
  fun_induction findYear year time with
  | case1 year time hlt => exact ⟨h, hlt, rfl⟩
  | case2 year time hge ih =>
    obtain ⟨h1, h2, h3⟩ := ih (by omega)
    refine ⟨h1, h2, h3.trans ?_⟩
    rw [daysBefore_succ h, Nat.add_mul, Nat.add_assoc, Nat.add_sub_cancel' (Nat.le_of_not_lt hge)]

theorem findMonth_spec {year n month days : Nat} (hn : n + month = 12) (h1 : 1 ≤ month)
    (h : days < ∑ m ∈ Finset.Ico month 13, daysInMonth year m) :
    let r := findMonth year n month days
    1 ≤ r.1 ∧ r.1 ≤ 12 ∧ r.2 < daysInMonth year r.1 ∧
      (∑ m ∈ Finset.Ico 1 r.1, daysInMonth year m) + r.2 = (∑ m ∈ Finset.Ico 1 month, daysInMonth year m) + days := by
  induction n generalizing month days with
  | zero =>
    obtain rfl : month = 12 := by omega
    refine ⟨h1, le_rfl, ?_, rfl⟩
    rwa [sum_Ico_succ_top (by decide), Finset.Ico_self, sum_empty, Nat.zero_add] at h
  | succ n ih =>
    unfold findMonth
    split
    · next hlt => exact ⟨h1, by simp only; omega, hlt, rfl⟩
    · next hge =>
      rw [sum_eq_sum_Ico_succ_bot (by omega)] at h
      obtain ⟨h2, h3, h4, h5⟩ := @ih (month + 1) (days - daysInMonth year month) (by omega) (by omega) (by omega)
      refine ⟨h2, h3, h4, h5.trans ?_⟩
      rw [sum_Ico_succ_top h1]
      omega

theorem sum_daysInMonth (year : Nat) : ∑ m ∈ Finset.Ico 1 13, daysInMonth year m = daysInYear year := by
  cases h : isLeapYear year <;> simp [sum_Ico_succ_top, daysInMonth, daysInYear, h]

/-- The days by which the weeks have moved with the years. -/
def weekShift (year : Nat) : Nat := year + year / 4 - year / 100 + year / 400

theorem weekShift_succ (y : Nat) : weekShift (y + 1) + 364 = weekShift y + daysInYear (y + 1) := by
  have h100 : y / 100 ≤ y / 4 := by omega
  simp only [weekShift, daysInYear, isLeapYear, Nat.succ_div, Nat.dvd_iff_mod_eq_zero]
  simp only [Bool.and_eq_true, Bool.or_eq_true, beq_iff_eq, bne_iff_ne]
  generalize y / 4 = a, y / 100 = b, y / 400 = c at *
  split_ifs <;> omega

theorem dayOfWeek_eq (year month day : Nat) : dayOfWeek year month day =
    if month ≤ 2 then (day + (13 * (month + 12) + 8) / 5 + weekShift (year - 1)) % 7
    else (day + (13 * month + 8) / 5 + weekShift year) % 7 := by
  unfold dayOfWeek weekShift
  split <;> dsimp only <;> congr 1 <;> omega

theorem dayOfWeek_month {year month : Nat} (day : Nat) (hy : 0 < year) (h1 : 1 ≤ month) (h12 : month < 12) :
    dayOfWeek year (month + 1) day = (dayOfWeek year month day + daysInMonth year month) % 7 := by
  have hw := weekShift_succ (year - 1)
  rw [Nat.sub_add_cancel hy, daysInYear] at hw
  rw [dayOfWeek_eq, dayOfWeek_eq, daysInMonth]
  -- the leap day is seen at the end of February, where the year of the congruence begins
  by_cases h2 : month = 2
  · subst h2
    cases hl : isLeapYear year <;> simp [hl] at hw ⊢ <;> omega
  · simp only [h2, false_and, if_false]
    clear hw
    interval_cases month <;> simp at h2 ⊢ <;> omega

theorem dayOfWeek_add {year month day : Nat} (hy : 0 < year) (h1 : 1 ≤ month) (h12 : month ≤ 12) (hd : 1 ≤ day) :
    dayOfWeek year month day = (1 + weekShift (year - 1) + dayOfYear year month day) % 7 := by
  induction month, h1 using Nat.le_induction with
  | base =>
    rw [dayOfWeek_eq, dayOfYear, Finset.Ico_self, sum_empty, if_pos (by decide)]
    omega
  | succ month h1 ih =>
    rw [dayOfWeek_month day hy h1 h12, ih (by omega), dayOfYear, dayOfYear, sum_Ico_succ_top h1]
    omega

theorem daysBefore_mod {year : Nat} (h : 1970 ≤ year) : (4 + daysBefore year) % 7 = (1 + weekShift (year - 1)) % 7 := by
  induction year, h using Nat.le_induction with
  | base => rfl
  | succ y h ih =>
    have hw := weekShift_succ (y - 1)
    rw [Nat.sub_add_cancel (by omega)] at hw
    rw [daysBefore_succ h, Nat.add_sub_cancel]
    omega

theorem gmtimeR_exact (t : Nat) : ∃ tm, gmtimeR t = some tm ∧ ∃ year : Nat, 1970 ≤ year ∧ tm.year = year - 1900 ∧ tm.mon < 12 ∧
    1 ≤ tm.mday ∧ tm.mday ≤ daysInMonth year (tm.mon + 1) ∧ tm.hour < 24 ∧ tm.min < 60 ∧ tm.sec < 60 ∧
    tm.yday = dayOfYear year (tm.mon + 1) tm.mday ∧
    (daysBefore year + tm.yday) * 86400 + (tm.hour * 3600 + tm.min * 60 + tm.sec) = t ∧
    tm.wday = (4 + t / 86400) % 7 := by
  unfold gmtimeR
  obtain ⟨hy, hlt, ht⟩ := findYear_spec 1970 t le_rfl
  generalize findYear 1970 t = r at *
  obtain ⟨year, time⟩ := r
  dsimp only at hy hlt ht ⊢
  have hpos : (0 : Int) ≤ time := Int.natCast_nonneg _
  have hda : time / 86400 < ∑ m ∈ Finset.Ico 1 13, daysInMonth year m := by
    rw [sum_daysInMonth]
    exact Nat.div_lt_of_lt_mul (by omega)
  have hq : (time : Int).tdiv 86400 = (time / 86400 : Nat) := by rw [Int.tdiv_eq_ediv_of_nonneg hpos]; rfl
  have hr : (time : Int).tmod 86400 = (time % 86400 : Nat) := by rw [Int.tmod_eq_emod_of_nonneg hpos]; rfl
  obtain ⟨h1, h12, hm, hsum⟩ := findMonth_spec (n := 11) rfl le_rfl hda
  have hb : time / 86400 < 366 := by
    rw [sum_daysInMonth, daysInYear] at hda
    split at hda <;> omega
  rw [divmodi64, hq, hr, if_neg (by omega)]
  refine ⟨_, rfl, year, ?_⟩
  simp only [Int.toNat_natCast]
  generalize findMonth year 11 1 (time / 86400) = r at *
  obtain ⟨month, rest⟩ := r
  dsimp only at h1 h12 hm hsum ⊢
  rw [Nat.sub_add_cancel h1]
  have hyd : time / 86400 = dayOfYear year month (rest + 1) := by
    rw [dayOfYear, Nat.add_sub_cancel, Nat.add_comm, hsum]
    simp
  have hw := daysBefore_mod hy
  rw [daysBefore_first] at ht
  have ha := dayOfWeek_add (Nat.lt_of_lt_of_le (by decide) hy) h1 h12 (Nat.le_add_left 1 rest)
  refine ⟨hy, trivial, by omega, by omega, hm, by omega, by omega, by omega, hyd, ?_, ?_⟩
  · rw [Nat.add_mul, Nat.add_assoc]
    omega
  · rw [ha, ← hyd]
    omega

end Yagura.Calendar
