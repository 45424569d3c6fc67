import NusaDb.Sql.Value

/-!
# The calendar, and `AGE`

Day numbers (`days_from_civil`, over 400-year eras), calendar-aware addition and `calendar_age`. A
month is counted from year 0: `k` is month `k % 12 + 1` of year `k / 12`.
-/

namespace NusaDb.Sql.Temporal

open Decimal Option

abbrev microsPerSec : Int := 1000000

abbrev microsPerDay : Int := 86400 * microsPerSec

/-- Days since 1970-01-01. -/
def daysFromCivil (y m d : Int) : Int :=
  let y := if m ≤ 2 then y - 1 else y
  let era := (if 0 ≤ y then y else y - 399).tdiv 400
  let yoe := y - era * 400
  let mp := if 2 < m then m - 3 else m + 9
  let doy := (153 * mp + 2).tdiv 5 + (d - 1)
  let doe := yoe * 365 + yoe.tdiv 4 - yoe.tdiv 100 + doy
  era * 146097 + doe - 719468

def civilFromDays (z : Int) : Int × Int × Int :=
  let z := z + 719468
  let era := (if 0 ≤ z then z else z - 146096).tdiv 146097
  let doe := z - era * 146097
  let yoe := (doe - doe.tdiv 1460 + doe.tdiv 36524 - doe.tdiv 146096).tdiv 365
  let y := yoe + era * 400
  let doy := doe - (365 * yoe + yoe.tdiv 4 - yoe.tdiv 100)
  let mp := (5 * doy + 2).tdiv 153
  let d := doy - (153 * mp + 2).tdiv 5 + 1
  let m := if mp < 10 then mp + 3 else mp - 9
  (if m ≤ 2 then y + 1 else y, m, d)

def daysInMonth (y m : Int) : Int :=
  if m ∈ [1, 3, 5, 7, 8, 10, 12] then 31
  else if m ∈ [4, 6, 9, 11] then 30
  else if m = 2 ∧ (y.tmod 4 = 0 ∧ y.tmod 100 ≠ 0 ∨ y.tmod 400 = 0) then 29
  else 28

def addIntervalToMicros (ts months days micros : Int) : Option Int :=
  let (y, m, d) := civilFromDays (ts / microsPerDay)
  let totalMonths := y * 12 + (m - 1) + months
  let ny := totalMonths / 12
  let nm := totalMonths % 12 + 1
  let nd := min d (daysInMonth ny nm)
  fitsI64 ((daysFromCivil ny nm nd + days) * microsPerDay + ts % microsPerDay + micros)

def decomposeMicros (micros : Int) : Int × Int × Int × Int × Int × Int × Int :=
  let tod := micros % microsPerDay
  let (y, m, d) := civilFromDays (micros / microsPerDay)
  (y, m, d, tod.tdiv (3600 * microsPerSec), (tod.tdiv (60 * microsPerSec)).tmod 60,
    (tod.tdiv microsPerSec).tmod 60, tod.tmod microsPerSec)

/-- A step of the borrow chain: a negative field takes `unit` from the next larger one. -/
def borrow (unit x next : Int) : Int × Int := if x < 0 then (x + unit, next - 1) else (x, next)

def i32Or (n default : Int) : Int := if -2 ^ 31 ≤ n ∧ n < 2 ^ 31 then n else default

def orderedAge (stop start : Int) : Int × Int × Int :=
  let (y1, mon1, d1, h1, mi1, s1, us1) := decomposeMicros stop
  let (y2, mon2, d2, h2, mi2, s2, us2) := decomposeMicros start
  let (us, s) := borrow microsPerSec (us1 - us2) (s1 - s2)
  let (s, mi) := borrow 60 s (mi1 - mi2)
  let (mi, h) := borrow 60 mi (h1 - h2)
  let (h, d) := borrow 24 h (d1 - d2)
  let (d, mon) := borrow (daysInMonth y2 mon2) d (mon1 - mon2)
  let (mon, y) := borrow 12 mon (y1 - y2)
  let months := y * 12 + mon
  (i32Or months (if months < 0 then -2 ^ 31 else 2 ^ 31 - 1), i32Or d 0,
    (h * 3600 + mi * 60 + s) * microsPerSec + us)

def calendarAge (stop start : Int) : Int × Int × Int :=
  if stop < start then
    let (months, days, micros) := orderedAge start stop
    (-months, -days, -micros)
  else orderedAge stop start

variable {y m d k : Int}

lemma tdiv_of_nonpos {a b : Int} (h : a ≤ 0) : a.tdiv b = -(-a / b) := by
  rw [← Int.neg_neg a, Int.neg_tdiv, Int.neg_neg, Int.tdiv_eq_ediv_of_nonneg (by omega)]

lemma daysFromCivil_eq (hm : 1 ≤ m) :
    daysFromCivil y m d =
      let y := if m ≤ 2 then y - 1 else y
      let mp := if 2 < m then m - 3 else m + 9
      365 * y + y / 4 - y / 100 + y / 400 + (153 * mp + 2) / 5 + d - 719469 := by
  dsimp only [daysFromCivil]
  generalize hmp : (if 2 < m then m - 3 else m + 9) = mp
  generalize (if m ≤ 2 then y - 1 else y) = y
  have hmp0 : 0 ≤ mp := by rw [← hmp]; split_ifs <;> omega
  have hera : (if 0 ≤ y then y else y - 399).tdiv 400 = y / 400 := by
    split_ifs
    · exact Int.tdiv_eq_ediv_of_nonneg ‹_›
    · rw [tdiv_of_nonpos (by omega)]
      omega
  rw [hera]
  simp (disch := omega) only [Int.tdiv_eq_ediv_of_nonneg]
  omega

lemma daysInMonth_two (y : Int) :
    daysInMonth y 2 = if 4 ∣ y ∧ ¬100 ∣ y ∨ 400 ∣ y then 29 else 28 := by
  simp [daysInMonth, ← Int.dvd_iff_tmod_eq_zero]

lemma daysInMonth_of_ne_two (hm : 1 ≤ m) (hm' : m ≤ 12) (hne : m ≠ 2) :
    daysInMonth y m =
      let mp := if 2 < m then m - 3 else m + 9
      (153 * mp + 155) / 5 - (153 * mp + 2) / 5 := by
  simp only [daysInMonth, List.mem_cons, List.not_mem_nil, or_false]
  split_ifs <;> omega

def monthStart (k : Int) : Int := daysFromCivil (k / 12) (k % 12 + 1) 1

def monthDays (k : Int) : Int := daysInMonth (k / 12) (k % 12 + 1)

lemma monthDays_bounds (k : Int) : 28 ≤ monthDays k ∧ monthDays k ≤ 31 := by
  unfold monthDays daysInMonth
  split_ifs <;> omega

lemma monthStart_succ (k : Int) : monthStart (k + 1) = monthStart k + monthDays k := by
  rw [monthStart, monthStart, daysFromCivil_eq (by omega), daysFromCivil_eq (by omega), monthDays]
  by_cases h2 : k % 12 + 1 = 2
  · rw [h2, daysInMonth_two, show (k + 1) / 12 = k / 12 by omega, show (k + 1) % 12 = 2 by omega]
    dsimp only
    split_ifs <;> omega
  rw [daysInMonth_of_ne_two (by omega) (by omega) h2]
  obtain ⟨hy, hm⟩ | ⟨hy, hm⟩ : (k + 1) / 12 = k / 12 + 1 ∧ (k + 1) % 12 = k % 12 - 11 ∨
    (k + 1) / 12 = k / 12 ∧ (k + 1) % 12 = k % 12 + 1 := by omega
  all_goals
    rw [hy, hm]
    dsimp only
    split_ifs <;> omega

lemma monthStart_le {k' : Int} (h : k ≤ k') : monthStart k ≤ monthStart k' := by
  refine monotone_int_of_le_succ (fun k => ?_) h
  have := monthDays_bounds k
  rw [monthStart_succ]
  omega

lemma abs_month_le (h : |monthStart k| ≤ 2 * 10 ^ 8) : |k| ≤ 10 ^ 9 := by
  rw [monthStart, daysFromCivil_eq (by omega)] at h
  rw [abs_le] at h ⊢
  dsimp only at h
  split_ifs at h <;> omega

/-- The year of the era that `civil_from_days` reads off, and the day of that year. -/
lemma yearOfEra {doe yoe : Int} (h0 : 0 ≤ doe) (h1 : doe ≤ 146096)
    (hyoe : (doe - doe / 1460 + doe / 36524 - doe / 146096) / 365 = yoe) :
    let doy := doe - (365 * yoe + yoe / 4 - yoe / 100)
    0 ≤ yoe ∧ yoe ≤ 399 ∧ 0 ≤ doy ∧ doy ≤ 365 ∧
      (doy = 365 → yoe % 4 = 3 ∧ (yoe % 100 ≠ 99 ∨ yoe = 399)) := by
  have hcentury : yoe / 100 = doe / 36524 - doe / 146096 := by
    obtain h | h | h | h | h : doe / 36524 = 0 ∨ doe / 36524 = 1 ∨ doe / 36524 = 2 ∨
      doe / 36524 = 3 ∨ doe / 36524 = 4 := by omega
    all_goals omega
  have hleaps : yoe / 4 ≤ doe / 1460 := by omega
  have hleaps' : doe / 1460 ≤ yoe / 4 + 1 := by omega
  refine ⟨by omega, by omega, by omega, by omega, fun h => ?_⟩
  have : yoe % 4 = 3 := by omega
  omega

/-- The date of a day count is one of its month, and counts back to the same day. -/
lemma civilFromDays_spec (z : Int) :
    ∃ k d, civilFromDays z = (k / 12, k % 12 + 1, d) ∧ 1 ≤ d ∧ d ≤ monthDays k ∧
      daysFromCivil (k / 12) (k % 12 + 1) d = z := by
  have hera : (if 0 ≤ z + 719468 then z + 719468 else z + 719468 - 146096).tdiv 146097 =
      (z + 719468) / 146097 := by
    split_ifs
    · exact Int.tdiv_eq_ediv_of_nonneg ‹_›
    · rw [tdiv_of_nonpos (by omega)]
      omega
  dsimp only [civilFromDays]
  rw [hera]
  generalize hera : (z + 719468) / 146097 = era
  generalize hdoe : z + 719468 - era * 146097 = doe
  have h0 : 0 ≤ doe := by omega
  have h1 : doe ≤ 146096 := by omega
  simp (disch := omega) only [Int.tdiv_eq_ediv_of_nonneg]
  generalize hyoe : (doe - doe / 1460 + doe / 36524 - doe / 146096) / 365 = yoe
  obtain ⟨hlo, hhi, hd0, hd1, hlast⟩ := yearOfEra h0 h1 hyoe
  simp (disch := omega) only [Int.tdiv_eq_ediv_of_nonneg]
  generalize hdoy : doe - (365 * yoe + yoe / 4 - yoe / 100) = doy at *
  generalize hmp : (5 * doy + 2) / 153 = mp
  clear hyoe
  -- months count from March, so that the leap day is the last of the shifted year
  obtain ⟨k, hk⟩ : ∃ k, k = 12 * (yoe + era * 400) + mp + 2 := ⟨_, rfl⟩
  have hm : (if mp < 10 then mp + 3 else mp - 9) = k % 12 + 1 := by split_ifs <;> omega
  have hy : (if k % 12 + 1 ≤ 2 then yoe + era * 400 + 1 else yoe + era * 400) = k / 12 := by
    split_ifs <;> omega
  have hmp' : (if 2 < k % 12 + 1 then k % 12 + 1 - 3 else k % 12 + 1 + 9) = mp := by
    split_ifs <;> omega
  have hy' : (if k % 12 + 1 ≤ 2 then k / 12 - 1 else k / 12) = yoe + era * 400 := by
    split_ifs <;> omega
  rw [hm, hy]
  refine ⟨k, _, rfl, by omega, ?_, ?_⟩
  · unfold monthDays
    by_cases h2 : k % 12 + 1 = 2
    · rw [h2, daysInMonth_two]
      split_ifs <;> omega
    · rw [daysInMonth_of_ne_two (by omega) (by omega) h2, hmp']
      dsimp only
      omega
  · have h4 : (yoe + era * 400) / 4 = yoe / 4 + era * 100 := by omega
    have h100 : (yoe + era * 400) / 100 = yoe / 100 + era * 4 := by omega
    rw [daysFromCivil_eq (by omega), hmp', hy']
    dsimp only
    omega

lemma daysFromCivil_month (k d : Int) :
    daysFromCivil (k / 12) (k % 12 + 1) d = monthStart k + (d - 1) := by
  dsimp only [monthStart, daysFromCivil]
  omega

def taken (x : Int) : Int := if x < 0 then 1 else 0

lemma taken_cases (x : Int) : taken x = 0 ∧ 0 ≤ x ∨ taken x = 1 ∧ x < 0 := by
  unfold taken
  split_ifs <;> omega

lemma borrow_eq (unit x next : Int) :
    borrow unit x next = (x + taken x * unit, next - taken x) := by
  unfold borrow taken
  split_ifs <;> simp

variable {stop start k1 k2 d1 d2 : Int}

lemma orderedAge_eq (h1 : civilFromDays (stop / microsPerDay) = (k1 / 12, k1 % 12 + 1, d1))
    (h2 : civilFromDays (start / microsPerDay) = (k2 / 12, k2 % 12 + 1, d2)) :
    ∃ b days micros, b = taken (d1 * microsPerDay + stop % microsPerDay -
        (d2 * microsPerDay + start % microsPerDay)) ∧
      orderedAge stop start = (i32Or (k1 - k2 - b) (if k1 - k2 - b < 0 then -2 ^ 31 else 2 ^ 31 - 1),
        i32Or days 0, micros) ∧ 0 ≤ micros ∧ micros < microsPerDay ∧
      (days + d2) * microsPerDay + start % microsPerDay + micros =
        (d1 + b * monthDays k2) * microsPerDay + stop % microsPerDay := by
  simp only [orderedAge, decomposeMicros, h1, h2, borrow_eq, microsPerDay, microsPerSec]
  generalize ht1 : stop % (86400 * 1000000) = t1
  generalize ht2 : start % (86400 * 1000000) = t2
  simp (disch := omega) only [Int.tdiv_eq_ediv_of_nonneg]
  simp (disch := omega) only [Int.tmod_eq_emod_of_nonneg]
  have hb1 := taken_cases (t1 % 1000000 - t2 % 1000000)
  generalize taken (t1 % 1000000 - t2 % 1000000) = b1 at *
  have hb2 := taken_cases (t1 / 1000000 % 60 - t2 / 1000000 % 60 - b1)
  generalize taken (t1 / 1000000 % 60 - t2 / 1000000 % 60 - b1) = b2 at *
  have hb3 := taken_cases (t1 / (60 * 1000000) % 60 - t2 / (60 * 1000000) % 60 - b2)
  generalize taken (t1 / (60 * 1000000) % 60 - t2 / (60 * 1000000) % 60 - b2) = b3 at *
  have hb4 := taken_cases (t1 / (3600 * 1000000) - t2 / (3600 * 1000000) - b3)
  generalize taken (t1 / (3600 * 1000000) - t2 / (3600 * 1000000) - b3) = b4 at *
  have hb5 := taken_cases (d1 - d2 - b4)
  generalize taken (d1 - d2 - b4) = b at *
  have hmonths : ∀ b6, (k1 / 12 - k2 / 12 - b6) * 12 +
    (k1 % 12 + 1 - (k2 % 12 + 1) - b + b6 * 12) = k1 - k2 - b := by omega
  rw [hmonths]
  have hb := taken_cases (d1 * (86400 * 1000000) + t1 - (d2 * (86400 * 1000000) + t2))
  have hday : b4 = 0 ∧ ¬t1 < t2 ∨ b4 = 1 ∧ t1 < t2 := by
    have : b2 = 1 ↔ t1 % 60000000 < t2 % 60000000 := by clear hb3 hb4; omega
    have : b3 = 1 ↔ t1 % 3600000000 < t2 % 3600000000 := by clear hb4; omega
    omega
  refine ⟨b, _, _, by omega, rfl, by omega, by omega, ?_⟩
  rw [monthDays]
  generalize b * daysInMonth (k2 / 12) (k2 % 12 + 1) = n
  omega

/-- The days by which `start` plus the age misses `stop`: none unless `stop` lies earlier in its
month than `start`, else the days left of `start`'s month less those left of the month before
`stop`'s, the day clamped to it. -/
def ageDrift (stop start : Int) : Int :=
  let (y1, m1, d1) := civilFromDays (stop / microsPerDay)
  let (y2, m2, d2) := civilFromDays (start / microsPerDay)
  let k := y1 * 12 + (m1 - 1) - 1
  let before := daysInMonth (k / 12) (k % 12 + 1)
  if d1 * microsPerDay + stop % microsPerDay < d2 * microsPerDay + start % microsPerDay then
    daysInMonth y2 m2 - d2 - (before - min d2 before)
  else 0

variable {u : Int}

/-- **What an age is.** Its parts have one sign; turned round it is the negative; added to the start
it gives the end, but for `ageDrift` days. -/
theorem calendarAge_add (hstop : -2 ^ 63 ≤ stop ∧ stop < 2 ^ 63)
    (hstart : -2 ^ 63 ≤ start ∧ start < 2 ^ 63) (hle : start ≤ stop)
    (hage : calendarAge stop start = (m, d, u)) :
    0 ≤ m ∧ 0 ≤ d ∧ 0 ≤ u ∧ calendarAge start stop = (-m, -d, -u) ∧
      addIntervalToMicros start m d u = fitsI64 (stop + ageDrift stop start * microsPerDay) := by
  obtain ⟨k1, d1, h1, hd1, hd1', hz1⟩ := civilFromDays_spec (stop / microsPerDay)
  obtain ⟨k2, d2, h2, hd2, hd2', hz2⟩ := civilFromDays_spec (start / microsPerDay)
  obtain ⟨b, days, micros, hb, hordered, hu, hu', heq⟩ := orderedAge_eq h1 h2
  have hlen1 := monthDays_bounds k1
  have hlen2 := monthDays_bounds k2
  have hcases := taken_cases (d1 * microsPerDay + stop % microsPerDay -
    (d2 * microsPerDay + start % microsPerDay))
  rw [← hb] at hcases
  rw [daysFromCivil_month] at hz1 hz2
  simp only [microsPerDay, microsPerSec] at *
  clear hb
  have hk : 0 ≤ k1 - k2 - b := by
    by_contra hneg
    obtain hlt | rfl : k1 + 1 ≤ k2 ∨ k1 = k2 := by omega
    · have := monthStart_le hlt
      rw [monthStart_succ] at this
      omega
    · omega
  have hk' : k1 - k2 - b < 2 ^ 31 := by
    have h1 : |k1| ≤ 10 ^ 9 := abs_month_le (by rw [abs_le]; omega)
    have h2 : |k2| ≤ 10 ^ 9 := abs_month_le (by rw [abs_le]; omega)
    rw [abs_le] at h1 h2
    omega
  have hdays : 0 ≤ days ∧ days < 2 ^ 31 := by
    obtain ⟨rfl, hn⟩ | ⟨rfl, hn⟩ := hcases <;> omega
  rw [i32Or, if_pos ⟨by omega, hk'⟩, i32Or, if_pos ⟨by omega, hdays.2⟩] at hordered
  rw [calendarAge, if_neg (by omega), hordered] at hage
  obtain ⟨rfl, rfl, rfl⟩ : k1 - k2 - b = m ∧ days = d ∧ micros = u := by simpa using hage
  refine ⟨hk, hdays.1, hu, ?_, ?_⟩
  · rw [calendarAge]
    split_ifs with hlt
    · rw [hordered]
    -- of one instant, every component is zero
    · obtain rfl : stop = start := by omega
      obtain ⟨hy, hm, rfl⟩ : k1 / 12 = k2 / 12 ∧ k1 % 12 + 1 = k2 % 12 + 1 ∧ d1 = d2 := by
        simpa using h1.symm.trans h2
      obtain rfl : k1 = k2 := by omega
      obtain ⟨rfl, -⟩ | ⟨-, h⟩ := hcases
      · rw [hordered, show days = 0 by omega, show micros = 0 by omega, sub_self]
        rfl
      · omega
  · simp only [addIntervalToMicros, ageDrift, h1, h2, microsPerDay, microsPerSec]
    rw [show k2 / 12 * 12 + (k2 % 12 + 1 - 1) + (k1 - k2 - b) = k1 - b by omega,
      show k1 / 12 * 12 + (k1 % 12 + 1 - 1) - 1 = k1 - 1 by omega, daysFromCivil_month,
      ← monthDays, ← monthDays, ← monthDays]
    congr 1
    obtain ⟨rfl, hn⟩ | ⟨rfl, hn⟩ := hcases
    · rw [if_neg (by omega), sub_zero, min_eq_left (by omega)]
      omega
    · have hsucc := monthStart_succ (k1 - 1)
      rw [sub_add_cancel] at hsucc
      rw [if_pos (by omega)]
      omega

/-- From 2024-01-31 00:00:01 to 2024-02-01. -/
theorem calendarAge_add_across_months :
    addIntervalToMicros 1706659201000000 0 0 86399000000 = fitsI64 (1706745600000000 + 0) :=
  (calendarAge_add (by decide) (by decide) (by decide) (by decide)).2.2.2.2

/-- From 2024-01-15 to 2024-03-01: one month and 17 days, which added give 2024-03-03. -/
theorem calendarAge_add_ne :
    calendarAge 1709251200000000 1705276800000000 = (1, 17, 0) ∧
      addIntervalToMicros 1705276800000000 1 17 0 = some 1709424000000000 := by decide

end NusaDb.Sql.Temporal
