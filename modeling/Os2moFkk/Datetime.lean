import Mathlib.Algebra.Order.Group.Int
import Os2moFkk.Itertools

/-!
# Aware datetimes

A datetime is a wall clock time in a time zone. Times are counted in
microseconds from the start of the year 1. Two datetimes are equal when they
are the same instant, whatever zone they are written in.
-/

namespace Os2moFkk

/-- `timedelta(days=1)`. -/
def day : Int := 86400000000

def hour : Int := 3600000000

/-- The last midnight at or before a wall clock time. -/
def floorDay (wall : Int) : Int := wall - wall % day

theorem day_pos : 0 < day := by decide

theorem floorDay_le (w : Int) : floorDay w ≤ w := by
  have := Int.emod_nonneg w (ne_of_gt day_pos)
  unfold floorDay
  omega

theorem lt_floorDay_add (w : Int) : w < floorDay w + day := by
  have := Int.emod_lt_of_pos w day_pos
  unfold floorDay
  omega

theorem le_floorDay_iff {m : Int} (h : m % day = 0) (w : Int) : m ≤ floorDay w ↔ m ≤ w := by
  unfold floorDay day at *
  omega

/-! ## Dates

A date is its proleptic Gregorian ordinal, where 0001-01-01 is day 1. -/

def isLeap (year : Int) : Bool := year % 4 = 0 && (year % 100 != 0 || year % 400 = 0)

def daysBeforeYear (year : Int) : Int :=
  let y := year - 1
  y * 365 + y / 4 - y / 100 + y / 400

def daysBeforeMonth (year : Int) (month : Nat) : Int :=
  ([0, 31, 59, 90, 120, 151, 181, 212, 243, 273, 304, 334].getD (month - 1) 0) +
    if month > 2 ∧ isLeap year then 1 else 0

def toOrdinal (year : Int) (month : Nat) (dayOfMonth : Int) : Int :=
  daysBeforeYear year + daysBeforeMonth year month + dayOfMonth

/-- The wall clock when a date begins. -/
def dateStart (ordinal : Int) : Int := (ordinal - 1) * day

/-! ## Time zones -/

/-- The offset of a `datetime.timezone`, strictly between -24 and 24 hours. -/
structure Offset where
  micros : Int
  lower : -day < micros
  upper : micros < day
  deriving DecidableEq

/-- A time zone with changing offsets. `offsetAt` is the offset in force at an
instant, `utcoffset` the one of a wall clock time. Every date has exactly one
midnight, and the date never goes back. -/
structure Zone where
  offsetAt : Int → Int
  utcoffset : Int → Int
  lower : ∀ i, -day < offsetAt i
  upper : ∀ i, offsetAt i < day
  midnight_iff : ∀ i date, i + offsetAt i = date * day ↔ i = date * day - utcoffset (date * day)
  date_mono : ∀ i j, i ≤ j → (i + offsetAt i) / day ≤ (j + offsetAt j) / day

inductive TzInfo where
  | fixed (o : Offset)
  | zone (z : Zone)

def TzInfo.utcoffset : TzInfo → Int → Int
  | .fixed o, _ => o.micros
  | .zone z, wall => z.utcoffset wall

def utc : TzInfo := .fixed ⟨0, by decide, by decide⟩

/-- Danish winter and summer time as fixed offsets, +01:00 and +02:00. -/
def cet : Offset := ⟨hour, by decide, by decide⟩

def cest : Offset := ⟨2 * hour, by decide, by decide⟩

/-! ## Datetimes -/

/-- The wall clock of `datetime.max`, 9999-12-31T23:59:59.999999. -/
def maxWall : Int := toOrdinal 9999 12 31 * day - 1

theorem maxWall_eq : maxWall = 3652059 * day - 1 := by decide

/-- The two sentinels are objects of their own: a timestamp can be equal to one
of them without being it. -/
inductive Datetime where
  | negativeInfinity
  | positiveInfinity
  | timestamp (wall : Int) (tz : TzInfo)

namespace Datetime

/-- `NEGATIVE_INFINITY` is `datetime.min` and `POSITIVE_INFINITY` is
`datetime.max`, both in UTC. -/
def wall : Datetime → Int
  | negativeInfinity => 0
  | positiveInfinity => maxWall
  | timestamp wall _ => wall

def tz : Datetime → TzInfo
  | timestamp _ tz => tz
  | _ => utc

def offset (d : Datetime) : Int := d.tz.utcoffset d.wall

/-- Comparison, subtraction and equality of aware datetimes look at this alone. -/
def instant (d : Datetime) : Int := d.wall - d.offset

/-- `d in (NEGATIVE_INFINITY, POSITIVE_INFINITY)`, which compares with `==`. -/
def Infinite (d : Datetime) : Prop :=
  d.instant = negativeInfinity.instant ∨ d.instant = positiveInfinity.instant

instance (d : Datetime) : Decidable d.Infinite := inferInstanceAs (Decidable (_ ∨ _))

/-- What `datetime.fromisoformat` can return for a text with an offset, or a
sentinel: a representable wall clock at a fixed offset. -/
def Aware : Datetime → Prop
  | timestamp wall (.fixed _) => 0 ≤ wall ∧ wall ≤ maxWall
  | timestamp _ (.zone _) => False
  | _ => True

instance : DecidablePred Aware
  | timestamp wall (.fixed _) => inferInstanceAs (Decidable (0 ≤ wall ∧ wall ≤ maxWall))
  | timestamp _ (.zone _) => isFalse id
  | negativeInfinity => isTrue trivial
  | positiveInfinity => isTrue trivial

/-- `d + timedelta(days=1)`, which moves the wall clock. -/
def addDay (d : Datetime) : Except Error Datetime :=
  if 0 ≤ d.wall + day ∧ d.wall + day ≤ maxWall then .ok (timestamp (d.wall + day) d.tz)
  else .error .overflowError

/-- `d.time() == time.min`. -/
def IsMidnight (d : Datetime) : Prop := d.wall % day = 0

instance (d : Datetime) : Decidable d.IsMidnight := inferInstanceAs (Decidable (_ = _))

/-- MO does not support datetimes with a time. -/
def truncateTime (d : Datetime) : Datetime :=
  if d.Infinite then d else timestamp (floorDay d.wall) d.tz

/-- A date and a time of day, in microseconds, at a fixed offset. -/
def ofDate (year : Int) (month : Nat) (dayOfMonth time : Int) (o : Offset) : Datetime :=
  timestamp (dateStart (toOrdinal year month dayOfMonth) + time) (.fixed o)

@[simp] theorem instant_negativeInfinity : negativeInfinity.instant = 0 := rfl

@[simp] theorem instant_positiveInfinity : positiveInfinity.instant = maxWall := rfl

/-- What equals an infinite datetime is infinite. -/
theorem Infinite.congr {c d : Datetime} (h : c.Infinite) (heq : c.instant = d.instant) :
    d.Infinite := by
  unfold Infinite at h ⊢
  rwa [← heq]

theorem truncateTime_infinite {d : Datetime} (h : d.Infinite) : d.truncateTime = d := if_pos h

theorem truncateTime_finite {d : Datetime} (h : ¬ d.Infinite) :
    d.truncateTime = timestamp (floorDay d.wall) d.tz := if_neg h

theorem infinite_negativeInfinity : negativeInfinity.Infinite := Or.inl rfl

theorem infinite_positiveInfinity : positiveInfinity.Infinite := Or.inr rfl

/-- A finite datetime is not a sentinel. -/
theorem eq_timestamp_of_finite {d : Datetime} (h : ¬ d.Infinite) :
    ∃ wall tz, d = timestamp wall tz := by
  cases d with
  | negativeInfinity => exact absurd infinite_negativeInfinity h
  | positiveInfinity => exact absurd infinite_positiveInfinity h
  | timestamp wall tz => exact ⟨wall, tz, rfl⟩

/-- A finite datetime that was parsed has a fixed offset. -/
theorem Aware.finite {d : Datetime} (h : d.Aware) (hf : ¬ d.Infinite) :
    ∃ wall o, d = timestamp wall (.fixed o) ∧ 0 ≤ wall ∧ wall ≤ maxWall := by
  match d with
  | negativeInfinity => exact absurd infinite_negativeInfinity hf
  | positiveInfinity => exact absurd infinite_positiveInfinity hf
  | timestamp wall (.fixed o) => exact ⟨wall, o, rfl, h⟩

/-- Truncation floors the wall clock that the offset shows. -/
theorem instant_truncateTime {d : Datetime} (h : d.Aware) (hf : ¬ d.Infinite) :
    d.truncateTime.instant = floorDay (d.instant + d.offset) - d.offset := by
  obtain ⟨wall, o, rfl, _⟩ := h.finite hf
  rw [truncateTime_finite hf]
  simp [instant, offset, Datetime.wall, tz, TzInfo.utcoffset]

theorem truncateTime_le {d : Datetime} (h : d.Aware) : d.truncateTime.instant ≤ d.instant := by
  by_cases hf : d.Infinite
  · rw [truncateTime_infinite hf]
  · rw [instant_truncateTime h hf]
    have := floorDay_le (d.instant + d.offset)
    omega

theorem lt_truncateTime_add {d : Datetime} (h : d.Aware) :
    d.instant < d.truncateTime.instant + day := by
  by_cases hf : d.Infinite
  · rw [truncateTime_infinite hf]
    exact Int.lt_add_of_pos_right _ day_pos
  · rw [instant_truncateTime h hf]
    have := lt_floorDay_add (d.instant + d.offset)
    omega

/-- Truncation stays within what a datetime can represent. -/
theorem Aware.truncateTime {d : Datetime} (h : d.Aware) : d.truncateTime.Aware := by
  by_cases hf : d.Infinite
  · rwa [truncateTime_infinite hf]
  · obtain ⟨wall, o, rfl, hlo, hhi⟩ := h.finite hf
    rw [truncateTime_finite hf]
    exact ⟨(le_floorDay_iff (by decide) wall).mpr hlo, (floorDay_le wall).trans hhi⟩

/-- The last midnight that a datetime can show is at most `POSITIVE_INFINITY`. -/
theorem Aware.truncateTime_le_max {d : Datetime} (h : d.Aware) :
    d.truncateTime.instant ≤ maxWall := by
  have hmax := maxWall_eq
  by_cases hf : d.Infinite
  · rw [truncateTime_infinite hf]
    rcases hf with he | he <;> rw [he]
    · decide
    · exact le_rfl
  · obtain ⟨wall, o, rfl, hlo, hhi⟩ := h.finite hf
    have hlower := o.lower
    rw [truncateTime_finite hf]
    change floorDay wall - o.micros ≤ maxWall
    unfold floorDay day at *
    omega

theorem addDay_eq_ok {d x : Datetime} :
    d.addDay = .ok x ↔
      (0 ≤ d.wall + day ∧ d.wall + day ≤ maxWall) ∧ x = timestamp (d.wall + day) d.tz := by
  unfold addDay
  split
  · rename_i h
    simp only [Except.ok.injEq, h, and_self, true_and]
    exact eq_comm
  · rename_i h
    simp [h]

/-- A parsed datetime is within a day of the years 1 to 9999. -/
theorem Aware.bounds {d : Datetime} (h : d.Aware) :
    -day < d.instant ∧ d.instant < maxWall + day := by
  match d with
  | negativeInfinity => decide
  | positiveInfinity => decide
  | timestamp wall (.fixed o) =>
    obtain ⟨hlo, hhi⟩ : 0 ≤ wall ∧ wall ≤ maxWall := h
    have := o.lower
    have := o.upper
    simp only [instant, offset, Datetime.wall, tz, TzInfo.utcoffset]
    omega

end Datetime

end Os2moFkk
