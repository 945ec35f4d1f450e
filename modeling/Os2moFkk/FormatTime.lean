import Os2moFkk.EventGenerator
import Os2moFkk.IsoText

/-!
# Writing times

`_format_time` writes a UTC time as the service platform requires it. The date
that is written is the one with the ordinal of the wall clock (`ord2ymd`), and
what is written is read back as the same time, to the millisecond.
-/

namespace Os2moFkk.IsoFormat

/-! ## Dates by ordinal -/

/-- The month and the day of a day of the year, which is counted from zero. -/
def monthAndDay (leap : Bool) (n : Int) : Nat × Int :=
  let before (month : Nat) : Int :=
    ([0, 31, 59, 90, 120, 151, 181, 212, 243, 273, 304, 334].getD (month - 1) 0) +
      if month > 2 ∧ leap then 1 else 0
  let month := ((n + 50) / 32).toNat
  -- the estimate is right or one too large
  if before month > n then (month - 1, n - before (month - 1) + 1)
  else (month, n - before month + 1)

/-- The year, the month and the day of an ordinal. -/
def ord2ymd (ordinal : Int) : Int × Nat × Int :=
  let n := ordinal - 1
  let n400 := n / 146097
  let n := n % 146097
  let n100 := n / 36524
  let n := n % 36524
  let n4 := n / 1461
  let n := n % 1461
  let n1 := n / 365
  let n := n % 365
  let year := n400 * 400 + 1 + n100 * 100 + n4 * 4 + n1
  if n1 = 4 ∨ n100 = 4 then (year - 1, 12, 31)
  else
    let (month, dayOfMonth) := monthAndDay (n1 = 3 ∧ (n4 ≠ 24 ∨ n100 = 3)) n
    (year, month, dayOfMonth)

example : ord2ymd (toOrdinal 2024 2 29) = (2024, 2, 29) := by decide

theorem monthAndDay_spec {leap : Bool} {n : Int} (hlo : 0 ≤ n)
    (hhi : n < 365 + if leap then 1 else 0) {year : Int} (hleap : isLeap year = leap) :
    (1 ≤ (monthAndDay leap n).1 ∧ (monthAndDay leap n).1 ≤ 12) ∧
      (1 ≤ (monthAndDay leap n).2 ∧ (monthAndDay leap n).2 ≤
        daysInMonth year (monthAndDay leap n).1) ∧
      daysBeforeMonth year (monthAndDay leap n).1 + (monthAndDay leap n).2 = n + 1 := by
  have hmonth : ((n + 50) / 32).toNat ≤ 13 := by split at hhi <;> omega
  have hlow : 1 ≤ ((n + 50) / 32).toNat := by omega
  unfold monthAndDay daysInMonth daysBeforeMonth
  rw [hleap]
  generalize hm : ((n + 50) / 32).toNat = month at hmonth hlow
  cases leap <;> interval_cases month <;> simp at hhi ⊢ <;> split <;> simp <;> omega

theorem isLeap_iff {year : Int} :
    isLeap year = true ↔ year % 4 = 0 ∧ (year % 100 ≠ 0 ∨ year % 400 = 0) := by
  simp [isLeap]

/-- The days before a year, from how often each kind of period has passed. -/
theorem daysBeforeYear_periods {n400 n100 n4 n1 : Int} (h100 : 0 ≤ n100 ∧ n100 ≤ 3)
    (h4 : 0 ≤ n4 ∧ n4 ≤ 24) (h1 : 0 ≤ n1 ∧ n1 ≤ 3) :
    daysBeforeYear (n400 * 400 + 1 + n100 * 100 + n4 * 4 + n1) =
      146097 * n400 + 36524 * n100 + 1461 * n4 + 365 * n1 := by
  have hyear : n400 * 400 + 1 + n100 * 100 + n4 * 4 + n1 - 1 =
      400 * n400 + 100 * n100 + 4 * n4 + n1 := by ring
  unfold daysBeforeYear
  dsimp only
  rw [hyear]
  have hfour : (400 * n400 + 100 * n100 + 4 * n4 + n1) / 4 = 100 * n400 + 25 * n100 + n4 := by omega
  have hcentury : (400 * n400 + 100 * n100 + 4 * n4 + n1) / 100 = 4 * n400 + n100 := by omega
  have hcycle : (400 * n400 + 100 * n100 + 4 * n4 + n1) / 400 = n400 := by omega
  rw [hfour, hcentury, hcycle]
  ring

/-- The last day of a leap year is the one before the next year. -/
theorem toOrdinal_last {year : Int} (hleap : isLeap year = true) :
    toOrdinal year 12 31 = daysBeforeYear year + 366 := by
  simp [toOrdinal, daysBeforeMonth, hleap]
  omega

/-- The date with an ordinal has that ordinal. -/
theorem ord2ymd_spec {ordinal year dayOfMonth : Int} {month : Nat} (hlo : 1 ≤ ordinal)
    (h : ord2ymd ordinal = (year, month, dayOfMonth)) :
    1 ≤ year ∧ (1 ≤ month ∧ month ≤ 12) ∧
      (1 ≤ dayOfMonth ∧ dayOfMonth ≤ daysInMonth year month) ∧
      toOrdinal year month dayOfMonth = ordinal := by
  unfold ord2ymd at h
  dsimp only at h
  generalize h400 : (ordinal - 1) / 146097 = n400 at h
  generalize hr400 : (ordinal - 1) % 146097 = r400 at h
  generalize h100 : r400 / 36524 = n100 at h
  generalize hr100 : r400 % 36524 = r100 at h
  generalize h4 : r100 / 1461 = n4 at h
  generalize hr4 : r100 % 1461 = r4 at h
  generalize h1 : r4 / 365 = n1 at h
  generalize hn : r4 % 365 = n at h
  have hcycle : 0 ≤ n400 := by omega
  have hn : 0 ≤ n ∧ n < 365 := by omega
  have hn4 : 0 ≤ n4 ∧ n4 ≤ 24 := by omega
  have hsum : ordinal = 146097 * n400 + 36524 * n100 + 1461 * n4 + 365 * n1 + n + 1 := by omega
  by_cases hlast : n1 = 4 ∨ n100 = 4
  · rw [if_pos hlast] at h
    cases h
    -- the day after four years or four centuries is not in a fifth one
    have hleap : isLeap (n400 * 400 + 1 + n100 * 100 + n4 * 4 + n1 - 1) = true := by
      rw [isLeap_iff]
      omega
    have hbefore : daysBeforeYear (n400 * 400 + 1 + n100 * 100 + n4 * 4 + n1 - 1) + 366 =
        ordinal := by
      by_cases hcentury : n100 = 4
      · have hyear : n400 * 400 + 1 + n100 * 100 + n4 * 4 + n1 - 1 =
            n400 * 400 + 1 + 3 * 100 + 24 * 4 + 3 := by omega
        rw [hyear, daysBeforeYear_periods (by decide) (by decide) (by decide)]
        omega
      · have hyear : n400 * 400 + 1 + n100 * 100 + n4 * 4 + n1 - 1 =
            n400 * 400 + 1 + n100 * 100 + n4 * 4 + 3 := by omega
        rw [hyear, daysBeforeYear_periods (by omega) hn4 (by decide)]
        omega
    refine ⟨by omega, by simp, ?_, ?_⟩
    · simp [daysInMonth]
    · rw [toOrdinal_last hleap, hbefore]
  · rw [if_neg hlast] at h
    cases h
    have hn1 : 0 ≤ n1 ∧ n1 ≤ 3 := by omega
    have hn100 : 0 ≤ n100 ∧ n100 ≤ 3 := by omega
    have hleap : isLeap (n400 * 400 + 1 + n100 * 100 + n4 * 4 + n1) =
        decide (n1 = 3 ∧ (n4 ≠ 24 ∨ n100 = 3)) := by
      rw [Bool.eq_iff_iff, isLeap_iff, decide_eq_true_eq]
      omega
    obtain ⟨hm, hd, hdays⟩ := monthAndDay_spec hn.1 (by split <;> omega) hleap
    refine ⟨by omega, hm, hd, ?_⟩
    rw [toOrdinal, Int.add_assoc, hdays, daysBeforeYear_periods hn100 hn4 hn1]
    omega

/-- A datetime that is not after `datetime.max` has a year of four digits. -/
theorem ord2ymd_year_le {ordinal : Int} (hlo : 1 ≤ ordinal) (hhi : ordinal ≤ toOrdinal 9999 12 31) :
    (ord2ymd ordinal).1 ≤ 9999 := by
  rcases hdate : ord2ymd ordinal with ⟨year, month, dayOfMonth⟩
  obtain ⟨-, hmonth, hday, hordinal⟩ := ord2ymd_spec hlo hdate
  have hlow := (dayOfYear_bounds hmonth hday).1
  have hmax : daysBeforeYear 10000 = toOrdinal 9999 12 31 := by decide
  by_contra hyear
  have hbefore : daysBeforeYear 10000 ≤ daysBeforeYear year := daysBeforeYear_mono (by omega)
  rw [toOrdinal] at hordinal
  omega

/-! ## Times in milliseconds -/

/-- `dt.replace(tzinfo=None).isoformat(timespec="milliseconds")`, which cuts off
the rest of a millisecond. -/
def isoformatMilliseconds (wall : Int) : List Char :=
  let (year, month, dayOfMonth) := ord2ymd (wall / day + 1)
  let micros := (wall % day).toNat
  padded 4 year.toNat ++ '-' :: (padded 2 month ++ '-' :: (padded 2 dayOfMonth.toNat ++
    'T' :: (padded 2 (micros / 3600000000) ++ ':' :: (padded 2 (micros / 60000000 % 60) ++
    ':' :: (padded 2 (micros / 1000000 % 60) ++ '.' :: padded 3 (micros / 1000 % 1000))))))

theorem length_isoformatMilliseconds (wall : Int) : (isoformatMilliseconds wall).length = 23 := by
  simp [isoformatMilliseconds]

theorem fractionText_milliseconds {millis : Nat} (h : millis < 1000) :
    FractionText (padded 3 millis) (millis * 1000) where
  nonempty := padded_ne_nil 2 millis
  isDigit := List.all_eq_true.mpr isDigit_padded
  value := by
    rw [number_padded (n := 3) h, length_padded, Nat.mul_assoc]
    rfl

/-- With a Z after it, what is written is the text of the time in UTC. -/
theorem instantText_isoformat {wall : Int} (hlo : 0 ≤ wall) (hhi : wall ≤ maxWall) :
    InstantText (isoformatMilliseconds wall ++ ['Z']) (wall - wall % 1000) := by
  have hfirst : 1 ≤ wall / day + 1 := by
    unfold day
    omega
  have hlast : wall / day + 1 ≤ toOrdinal 9999 12 31 := by
    have hmax : toOrdinal 9999 12 31 = 3652059 := by decide
    rw [maxWall_eq] at hhi
    rw [hmax]
    unfold day at *
    omega
  have hyear' := ord2ymd_year_le hfirst hlast
  unfold isoformatMilliseconds
  rcases hdate : ord2ymd (wall / day + 1) with ⟨year, month, dayOfMonth⟩
  obtain ⟨hyear, hmonth, hday, hordinal⟩ := ord2ymd_spec hfirst hdate
  rw [hdate] at hyear'
  dsimp only at hyear' ⊢
  have hlt : (wall % day).toNat < 86400000000 := by
    unfold day
    omega
  have hmicros : ((wall % day).toNat : Int) = wall % day := by
    unfold day
    omega
  generalize (wall % day).toNat = micros at *
  have valid : Date.ofYmd year.toNat month dayOfMonth.toNat =
      .ok ⟨wall / day + 1, hfirst, hlast⟩ := by
    have hy : (year.toNat : Int) = year := by omega
    have hd : (dayOfMonth.toNat : Int) = dayOfMonth := by omega
    unfold Date.ofYmd
    simp only [hy, hd]
    rw [dif_pos ⟨⟨hyear, hyear'⟩, hmonth, hday⟩]
    congr
  have text := InstantText.mk (DateText.calendar true valid)
    (ClockText.fraction true (by omega : micros / 3600000000 < 24)
      (by omega : micros / 60000000 % 60 < 60) (by omega : micros / 1000000 % 60 < 60)
      (Or.inl rfl : '.' = '.' ∨ '.' = ',')
      (fractionText_milliseconds (by omega : micros / 1000 % 1000 < 1000))) ZoneText.utc
  simp only [separated, if_true, List.append_assoc, List.cons_append, List.nil_append] at text ⊢
  convert text using 1
  unfold dateStart Clock.micros day at *
  dsimp only
  omega

end Os2moFkk.IsoFormat

namespace Os2moFkk
open IsoFormat

/-- Format datetime to be serviceplatformen-compatible. -/
def formatTime (dt : Datetime) : Except Error (List Char) :=
  if dt.offset = 0 then .ok (isoformatMilliseconds dt.wall ++ ['Z']) else .error .assertionError

theorem formatTime_eq_ok {dt : Datetime} {text : List Char} (h : formatTime dt = .ok text) :
    dt.offset = 0 ∧ dt.instant = dt.wall ∧ text = isoformatMilliseconds dt.wall ++ ['Z'] := by
  unfold formatTime at h
  by_cases hutc : dt.offset = 0
  · rw [if_pos hutc] at h
    refine ⟨hutc, ?_, (Except.ok.inj h).symm⟩
    rw [Datetime.instant, hutc, Int.sub_zero]
  · rw [if_neg hutc] at h
    cases h

/-- What is written is the text of the time, to the millisecond. -/
theorem instantText_formatTime {dt : Datetime} {text : List Char} (hlo : 0 ≤ dt.wall)
    (hhi : dt.wall ≤ maxWall) (h : formatTime dt = .ok text) :
    InstantText text (dt.instant - dt.instant % 1000) := by
  obtain ⟨_, hinstant, rfl⟩ := formatTime_eq_ok h
  rw [hinstant]
  exact instantText_isoformat hlo hhi

/-- A time in UTC is written in 24 characters and read back as the same time, to
the millisecond: a search starts when the generator's does. No other time is
written. -/
theorem formatTime_read_back {dt : Datetime} (hlo : 0 ≤ dt.wall) (hhi : dt.wall ≤ maxWall) :
    match formatTime dt with
    | .ok text => EventGenerator.writtenInstant dt = .ok (dt.instant - dt.instant % 1000) ∧
        text.length = 24 ∧ ∃ d tz, fromisoformat text = .ok d ∧ d.tz = some tz ∧
          d.wall - tz.micros = dt.instant - dt.instant % 1000
    | .error e => e = .assertionError ∧ dt.offset ≠ 0 := by
  cases htext : formatTime dt with
  | ok text =>
    have hread := instantText_formatTime hlo hhi htext
    obtain ⟨hutc, hinstant, rfl⟩ := formatTime_eq_ok htext
    refine ⟨?_, ?_, hread.parse⟩
    · rw [EventGenerator.writtenInstant, if_pos hutc, hinstant]
    · rw [List.length_append, length_isoformatMilliseconds]
      rfl
  | error e =>
    unfold formatTime at htext
    by_cases hutc : dt.offset = 0
    · rw [if_pos hutc] at htext
      cases htext
    · rw [if_neg hutc] at htext
      exact ⟨(Except.error.inj htext).symm, hutc⟩

/-- The example in the comment, 2024-07-10T14:59:44.190Z, and the rest of the
millisecond after it. -/
theorem formatTime_read_back_comment :
    let dt := Datetime.timestamp (toOrdinal 2024 7 9 * day + 53984190999) utc
    formatTime dt = .ok "2024-07-10T14:59:44.190Z".toList ∧
      ∃ d tz, fromisoformat "2024-07-10T14:59:44.190Z".toList = .ok d ∧ d.tz = some tz ∧
        d.wall - tz.micros = dt.instant - dt.instant % 1000 := by
  intro dt
  have htext : formatTime dt = .ok "2024-07-10T14:59:44.190Z".toList := by decide
  have hread := @formatTime_read_back dt (by decide) (by decide)
  rw [htext] at hread
  exact ⟨htext, hread.2.2⟩

end Os2moFkk
