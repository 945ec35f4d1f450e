import Os2moFkk.Datetime

/-!
# Danish time

Clocks change at 01:00 UTC, between +01:00 and +02:00. That is never close to a
midnight, so every date begins once, whichever days are in summer.
-/

namespace Os2moFkk

/-- The offset from 01:00 UTC on a date until 01:00 UTC on the next. -/
def summerOffset (isSummer : Int → Bool) (ordinal : Int) : Int :=
  if isSummer ordinal then 2 * hour else hour

theorem summerOffset_or (isSummer : Int → Bool) (ordinal : Int) :
    summerOffset isSummer ordinal = hour ∨ summerOffset isSummer ordinal = 2 * hour := by
  unfold summerOffset
  split
  · exact Or.inr rfl
  · exact Or.inl rfl

/-- A zone with summer time on given dates. A wall clock time that a change
skips or repeats has the offset from before the change. -/
def Zone.withSummer (isSummer : Int → Bool) : Zone where
  offsetAt i := summerOffset isSummer ((i - hour) / day + 1)
  utcoffset wall := summerOffset isSummer ((wall - 3 * hour) / day + 1)
  lower i := by
    have := summerOffset_or isSummer ((i - hour) / day + 1)
    unfold hour day at *
    omega
  upper i := by
    have := summerOffset_or isSummer ((i - hour) / day + 1)
    unfold hour day at *
    omega
  midnight_iff i date := by
    have hwall : (date * day - 3 * hour) / day = date - 1 := by
      unfold hour day
      omega
    have hbefore := summerOffset_or isSummer ((i - hour) / day + 1)
    have hafter := summerOffset_or isSummer (date - 1 + 1)
    rw [hwall]
    constructor
    · intro h
      have hdate : (i - hour) / day = date - 1 := by
        unfold hour day at *
        omega
      rw [hdate] at h
      omega
    · intro h
      have hdate : (i - hour) / day = date - 1 := by
        unfold hour day at *
        omega
      rw [hdate]
      omega
  date_mono i j hle := by
    have hi := summerOffset_or isSummer ((i - hour) / day + 1)
    have hj := summerOffset_or isSummer ((j - hour) / day + 1)
    by_cases heq : (i - hour) / day = (j - hour) / day
    · rw [heq]
      exact Int.ediv_le_ediv day_pos (by omega)
    · unfold hour day at *
      omega

/-! ## The rule since 1980 -/

/-- The year that a date lies in. -/
def yearOf (ordinal : Int) : Int :=
  let year := (ordinal - 1) * 400 / 146097 + 1
  if ordinal ≤ daysBeforeYear year then year - 1
  else if daysBeforeYear (year + 1) < ordinal then year + 1
  else year

/-- The last Sunday on or before a date. -/
def sundayBy (ordinal : Int) : Int := ordinal - ordinal % 7

/-- The last Sunday of March, but the first of April in 1980. -/
def summerStart (year : Int) : Int :=
  if year = 1980 then sundayBy (toOrdinal 1980 4 7) else sundayBy (toOrdinal year 3 31)

/-- The last Sunday of October, and until 1995 of September. -/
def summerEnd (year : Int) : Int :=
  if year ≤ 1995 then sundayBy (toOrdinal year 9 30) else sundayBy (toOrdinal year 10 31)

def isSummer (ordinal : Int) : Bool :=
  let year := yearOf ordinal
  1980 ≤ year && summerStart year ≤ ordinal && ordinal < summerEnd year

/-- `ZoneInfo("Europe/Copenhagen")`, from 1980 on. -/
def copenhagen : Zone := .withSummer isSummer

example : copenhagen.utcoffset (dateStart (toOrdinal 2010 10 31)) = 2 * hour ∧
    copenhagen.utcoffset (dateStart (toOrdinal 2010 10 31) + 4 * hour) = hour := by decide

/-! ## Danish dates -/

/-- The date in Denmark, counted from the start of the year 1. -/
def danishDate (d : Datetime) : Int := (d.instant + copenhagen.offsetAt d.instant) / day

/-- When the date begins. -/
def danishMidnight (date : Int) : Datetime := .timestamp (date * day) (.zone copenhagen)

theorem danishMidnight_instant (date : Int) :
    (danishMidnight date).instant = date * day - copenhagen.utcoffset (date * day) := rfl

theorem utcoffset_or (wall : Int) :
    copenhagen.utcoffset wall = hour ∨ copenhagen.utcoffset wall = 2 * hour :=
  summerOffset_or _ _

theorem danishDate_danishMidnight (date : Int) : danishDate (danishMidnight date) = date := by
  have h := (copenhagen.midnight_iff (danishMidnight date).instant date).mpr rfl
  rw [danishDate, h]
  exact Int.mul_ediv_cancel date (ne_of_gt day_pos)

theorem danishMidnight_lt {m n : Int} :
    (danishMidnight m).instant < (danishMidnight n).instant ↔ m < n := by
  have hm := utcoffset_or (m * day)
  have hn := utcoffset_or (n * day)
  rw [danishMidnight_instant, danishMidnight_instant]
  by_cases heq : m = n
  · simp [heq]
  · unfold hour day at *
    omega

theorem danishMidnight_danishDate {d : Datetime}
    (h : ∃ date, d.instant = (danishMidnight date).instant) :
    (danishMidnight (danishDate d)).instant = d.instant := by
  obtain ⟨date, heq⟩ := h
  have hdate : danishDate d = danishDate (danishMidnight date) := by
    unfold danishDate
    rw [heq]
  rw [hdate, danishDate_danishMidnight, heq]

/-- Dates follow one another as instants do. -/
theorem danishDate_mono {c d : Datetime} (h : c.instant ≤ d.instant) :
    danishDate c ≤ danishDate d := copenhagen.date_mono _ _ h

/-- A timestamp of the years 1980 to 9000 that is written with the offset in
force in Denmark at its instant; or an infinity. -/
def DanishTime : Datetime → Prop
  | .timestamp wall (.fixed o) =>
    (dateStart (toOrdinal 1980 1 1) ≤ wall ∧ wall < dateStart (toOrdinal 9001 1 1)) ∧
      o.micros = copenhagen.offsetAt (wall - o.micros)
  | .timestamp _ (.zone _) => False
  | _ => True

instance : DecidablePred DanishTime
  | .timestamp _ (.fixed _) => inferInstanceAs (Decidable ((_ ∧ _) ∧ _ = _))
  | .timestamp _ (.zone _) => isFalse id
  | .negativeInfinity => isTrue trivial
  | .positiveInfinity => isTrue trivial

/-- The date of the timestamp began with the offset that it is written with. -/
def BeganWithOffset : Datetime → Prop
  | .timestamp wall tz => tz.utcoffset wall = copenhagen.utcoffset (floorDay wall)
  | _ => True

instance : DecidablePred BeganWithOffset
  | .timestamp wall tz =>
    inferInstanceAs (Decidable (tz.utcoffset wall = copenhagen.utcoffset (floorDay wall)))
  | .negativeInfinity => isTrue trivial
  | .positiveInfinity => isTrue trivial

/-- An infinity is not within these years. -/
theorem finite_of_bounds {d : Datetime} (hlo : 722812 * day < d.instant)
    (hhi : d.instant < 3287182 * day) : ¬ d.Infinite := by
  have hmax := maxWall_eq
  intro hinf
  unfold Datetime.Infinite at hinf
  rw [Datetime.instant_negativeInfinity, Datetime.instant_positiveInfinity] at hinf
  unfold day at *
  omega

namespace DanishTime

variable {wall : Int} {tz : TzInfo} (h : DanishTime (.timestamp wall tz))
include h

theorem years : dateStart (toOrdinal 1980 1 1) ≤ wall ∧ wall < dateStart (toOrdinal 9001 1 1) := by
  cases tz with
  | fixed o => exact h.1
  | zone z => exact h.elim

theorem offset_eq : (Datetime.timestamp wall tz).offset =
    copenhagen.offsetAt (Datetime.timestamp wall tz).instant := by
  cases tz with
  | fixed o => exact h.2
  | zone z => exact h.elim

theorem offset_or : (Datetime.timestamp wall tz).offset = hour ∨
    (Datetime.timestamp wall tz).offset = 2 * hour := by
  rw [h.offset_eq]
  exact summerOffset_or _ _

/-- Such a timestamp is far from both infinities. -/
theorem bounds : 722813 * day < (Datetime.timestamp wall tz).instant ∧
    (Datetime.timestamp wall tz).instant < 3287182 * day := by
  obtain ⟨hlo, hhi⟩ := h.years
  have hoffset := h.offset_or
  have hfirst : dateStart (toOrdinal 1980 1 1) = 722814 * day := by decide
  have hlast : dateStart (toOrdinal 9001 1 1) = 3287182 * day := by decide
  have hinstant : (Datetime.timestamp wall tz).instant =
    wall - (Datetime.timestamp wall tz).offset := rfl
  unfold hour day at *
  omega

theorem finite : ¬ (Datetime.timestamp wall tz).Infinite := by
  obtain ⟨hlo, hhi⟩ := h.bounds
  apply finite_of_bounds _ hhi
  unfold day at *
  omega

theorem aware : (Datetime.timestamp wall tz).Aware := by
  obtain ⟨hlo, hhi⟩ := h.years
  cases tz with
  | zone z => exact h.elim
  | fixed o => exact ⟨le_trans (by decide) hlo, hhi.le.trans (by decide)⟩

theorem truncateTime_bounds : 722812 * day < (Datetime.timestamp wall tz).truncateTime.instant ∧
    (Datetime.timestamp wall tz).truncateTime.instant < 3287182 * day := by
  obtain ⟨hlo, hhi⟩ := h.bounds
  have hdown := Datetime.truncateTime_le h.aware
  have hup := Datetime.lt_truncateTime_add h.aware
  unfold day at *
  omega

theorem truncateTime_finite : ¬ (Datetime.timestamp wall tz).truncateTime.Infinite :=
  finite_of_bounds h.truncateTime_bounds.1 h.truncateTime_bounds.2

theorem danishDate_eq : danishDate (.timestamp wall tz) = wall / day := by
  rw [danishDate, ← h.offset_eq]
  congr 1
  exact Int.sub_add_cancel wall _

/-- Truncating gives a Danish midnight, and then that of the same date, exactly
when the date began with the offset. -/
theorem truncateTime_eq {date : Int} :
    (Datetime.timestamp wall tz).truncateTime.instant = (danishMidnight date).instant ↔
      BeganWithOffset (.timestamp wall tz) ∧ date = wall / day := by
  have hoffset := h.offset_eq
  have hor := summerOffset_or isSummer (((Datetime.timestamp wall tz).instant - hour) / day + 1)
  rw [Datetime.truncateTime_finite h.finite, danishMidnight_instant]
  cases tz with
  | zone z => exact h.elim
  | fixed o =>
    have hmicros : o.micros = hour ∨ o.micros = 2 * hour := by
      rw [show o.micros = copenhagen.offsetAt _ from hoffset]
      exact hor
    have hdate := utcoffset_or (date * day)
    have hfloor : floorDay wall = wall / day * day := by
      unfold floorDay day
      omega
    change floorDay wall - o.micros = _ ↔ o.micros = copenhagen.utcoffset (floorDay wall) ∧ _
    rw [hfloor]
    constructor
    · intro heq
      have hsame : date = wall / day := by
        unfold hour day at *
        omega
      subst hsame
      exact ⟨by omega, rfl⟩
    · rintro ⟨hbegan, rfl⟩
      rw [hbegan]

/-- MO keeps a date of these years, or the one before them. -/
theorem danishDate_truncateTime : 0 ≤ danishDate (Datetime.timestamp wall tz).truncateTime ∧
    danishDate (Datetime.timestamp wall tz).truncateTime < 3652059 := by
  obtain ⟨hlo, hhi⟩ := h.truncateTime_bounds
  have hlower := copenhagen.lower (Datetime.timestamp wall tz).truncateTime.instant
  have hupper := copenhagen.upper (Datetime.timestamp wall tz).truncateTime.instant
  unfold danishDate day at *
  omega

end DanishTime

/-- The infinities are the first and the last instants of Danish time. -/
theorem between_of_danish {d : Datetime} (h : ¬ d.Infinite → DanishTime d) :
    0 ≤ d.instant ∧ d.instant ≤ maxWall := by
  have hmax := maxWall_eq
  by_cases hinf : d.Infinite
  · unfold Datetime.Infinite at hinf
    rw [Datetime.instant_negativeInfinity, Datetime.instant_positiveInfinity] at hinf
    unfold day at *
    omega
  · obtain ⟨wall, tz, rfl⟩ := Datetime.eq_timestamp_of_finite hinf
    obtain ⟨hlo, hhi⟩ := (h hinf).bounds
    unfold day at *
    omega

/-- The offset of an instant is unique, so equal Danish times are the same. -/
theorem DanishTime.eq_of_instant {c d : Datetime} (hc : DanishTime c) (hd : DanishTime d)
    (h : c.instant = d.instant) : c = d := by
  cases c with
  | negativeInfinity =>
    cases d with
    | negativeInfinity => rfl
    | positiveInfinity => exact absurd h (by decide)
    | timestamp wall tz => exact absurd (Or.inl h.symm) hd.finite
  | positiveInfinity =>
    cases d with
    | negativeInfinity => exact absurd h (by decide)
    | positiveInfinity => rfl
    | timestamp wall tz => exact absurd (Or.inr h.symm) hd.finite
  | timestamp wall tz =>
    cases d with
    | negativeInfinity => exact absurd (Or.inl h) hc.finite
    | positiveInfinity => exact absurd (Or.inr h) hc.finite
    | timestamp wall' tz' =>
      have hoffset : (Datetime.timestamp wall tz).offset =
          (Datetime.timestamp wall' tz').offset := by
        rw [hc.offset_eq, hd.offset_eq, h]
      cases tz with
      | zone z => exact hc.elim
      | fixed o =>
        cases tz' with
        | zone z => exact hd.elim
        | fixed o' =>
          obtain ⟨micros, _, _⟩ := o
          obtain ⟨micros', _, _⟩ := o'
          obtain rfl : micros = micros' := hoffset
          have hwall : wall - micros = wall' - micros := h
          obtain rfl : wall = wall' := by omega
          rfl

end Os2moFkk
