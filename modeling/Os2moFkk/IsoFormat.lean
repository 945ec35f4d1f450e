import Mathlib.Tactic.IntervalCases
import Os2moFkk.Datetime

/-!
# ISO 8601 texts

`datetime.fromisoformat`, and the texts of a date, a time of day and an offset
that it reads: calendar and week dates, with or without separators, and times
of any precision from hours to fractions of a second.
-/

namespace Os2moFkk.IsoFormat

/-! ## Digits -/

def number (s : List Char) : Nat := s.foldl (fun value c => 10 * value + (c.toNat - 48)) 0

/-- The number in the next `n` characters, which are digits, and what follows. -/
def digits (n : Nat) (s : List Char) : Except Error (Nat × List Char) :=
  if n ≤ s.length ∧ (s.take n).all Char.isDigit then .ok (number (s.take n), s.drop n)
  else .error .valueError

/-- A number, written with `n` digits. -/
def padded : Nat → Nat → List Char
  | 0, _ => []
  | n + 1, k => padded n (k / 10) ++ [Nat.digitChar (k % 10)]

theorem isDigit_range {c : Char} (h : c.isDigit = true) : 48 ≤ c.toNat ∧ c.toNat ≤ 57 :=
  Char.isDigit_iff_toNat.mp h

theorem digitChar_value : ∀ d < 10, (Nat.digitChar d).toNat - 48 = d := by decide

theorem digitChar_isDigit : ∀ d < 10, (Nat.digitChar d).isDigit = true := by decide

@[simp] theorem length_padded (n k : Nat) : (padded n k).length = n := by
  induction n generalizing k with
  | zero => rfl
  | succ n ih => rw [padded, List.length_append, ih, List.length_singleton]

theorem isDigit_padded {n k : Nat} : ∀ c ∈ padded n k, c.isDigit = true := by
  induction n generalizing k with
  | zero => exact fun c hc => absurd hc List.not_mem_nil
  | succ n ih =>
    intro c hc
    rcases List.mem_append.mp hc with hc | hc
    · exact ih c hc
    · rw [List.mem_singleton.mp hc]
      exact digitChar_isDigit _ (Nat.mod_lt k (by decide))

theorem number_concat (s : List Char) (c : Char) :
    number (s ++ [c]) = 10 * number s + (c.toNat - 48) := by
  rw [number, List.foldl_append]
  rfl

theorem number_padded {n k : Nat} (h : k < 10 ^ n) : number (padded n k) = k := by
  induction n generalizing k with
  | zero =>
    rw [Nat.pow_zero, Nat.lt_one_iff] at h
    rw [h]
    rfl
  | succ n ih =>
    have hdiv : k / 10 < 10 ^ n := by
      rw [Nat.pow_succ] at h
      exact Nat.div_lt_of_lt_mul (by omega)
    rw [padded, number_concat, ih hdiv, digitChar_value _ (Nat.mod_lt k (by decide))]
    omega

/-- A padded number is read as itself. -/
theorem digits_padded {n k : Nat} (h : k < 10 ^ n) (rest : List Char) :
    digits n (padded n k ++ rest) = .ok (k, rest) := by
  have htake : (padded n k ++ rest).take n = padded n k := List.take_left' (length_padded n k)
  have hdrop : (padded n k ++ rest).drop n = rest := List.drop_left' (length_padded n k)
  have hall : (padded n k).all Char.isDigit = true := List.all_eq_true.mpr isDigit_padded
  have hlength : n ≤ (padded n k ++ rest).length := by simp
  rw [digits, htake, hdrop, if_pos ⟨hlength, hall⟩, number_padded h]

/-! ## Dates -/

def daysInMonth (year : Int) (month : Nat) : Int :=
  if month = 2 ∧ isLeap year then 29
  else [31, 28, 31, 30, 31, 30, 31, 31, 30, 31, 30, 31].getD (month - 1) 0

/-- A date that a datetime can have. -/
structure Date where
  ordinal : Int
  lower : 1 ≤ ordinal
  upper : ordinal ≤ toOrdinal 9999 12 31

theorem daysBeforeYear_succ (year : Int) :
    daysBeforeYear (year + 1) = daysBeforeYear year + 365 + if isLeap year then 1 else 0 := by
  unfold daysBeforeYear isLeap
  simp only [Bool.and_eq_true, Bool.or_eq_true, decide_eq_true_eq, bne_iff_ne]
  split <;> omega

theorem daysBeforeYear_mono {x y : Int} (h : x ≤ y) : daysBeforeYear x ≤ daysBeforeYear y := by
  unfold daysBeforeYear
  dsimp only
  omega

/-- A day of a month lies in the year. -/
theorem dayOfYear_bounds {year : Int} {month : Nat} {dayOfMonth : Int}
    (hmonth : 1 ≤ month ∧ month ≤ 12)
    (hday : 1 ≤ dayOfMonth ∧ dayOfMonth ≤ daysInMonth year month) :
    1 ≤ daysBeforeMonth year month + dayOfMonth ∧
      daysBeforeMonth year month + dayOfMonth ≤ 365 + if isLeap year then 1 else 0 := by
  obtain ⟨hlo, hhi⟩ := hmonth
  unfold daysBeforeMonth
  unfold daysInMonth at hday
  cases isLeap year <;> interval_cases month <;> simp at hday ⊢ <;> omega

theorem ordinal_bounds {year : Int} {month : Nat} {dayOfMonth : Int}
    (hyear : 1 ≤ year ∧ year ≤ 9999) (hmonth : 1 ≤ month ∧ month ≤ 12)
    (hday : 1 ≤ dayOfMonth ∧ dayOfMonth ≤ daysInMonth year month) :
    1 ≤ toOrdinal year month dayOfMonth ∧
      toOrdinal year month dayOfMonth ≤ toOrdinal 9999 12 31 := by
  obtain ⟨hlo, hhi⟩ := dayOfYear_bounds hmonth hday
  have hfirst : daysBeforeYear 1 ≤ daysBeforeYear year := daysBeforeYear_mono hyear.1
  have hlast : daysBeforeYear (year + 1) ≤ daysBeforeYear 10000 := daysBeforeYear_mono (by omega)
  have hzero : daysBeforeYear 1 = 0 := by decide
  have hmax : daysBeforeYear 10000 = toOrdinal 9999 12 31 := by decide
  rw [daysBeforeYear_succ] at hlast
  rw [toOrdinal, ← hmax]
  omega

/-- `date(year, month, day)`. -/
def Date.ofYmd (year month dayOfMonth : Nat) : Except Error Date :=
  if h : (1 ≤ (year : Int) ∧ (year : Int) ≤ 9999) ∧ (1 ≤ month ∧ month ≤ 12) ∧
      1 ≤ (dayOfMonth : Int) ∧ (dayOfMonth : Int) ≤ daysInMonth year month then
    .ok ⟨toOrdinal year month dayOfMonth, (ordinal_bounds h.1 h.2.1 h.2.2).1,
      (ordinal_bounds h.1 h.2.1 h.2.2).2⟩
  else .error .valueError

/-- The Monday of the first ISO week of a year. -/
def isoweek1monday (year : Int) : Int :=
  let firstday := toOrdinal year 1 1
  let firstweekday := (firstday + 6) % 7
  if firstweekday > 3 then firstday - firstweekday + 7 else firstday - firstweekday

/-- ISO years have 53 weeks in them on years starting with a Thursday and leap
years starting on a Wednesday. -/
def isoweeks (year : Int) : Int :=
  let firstWeekday := toOrdinal year 1 1 % 7
  if firstWeekday = 4 ∨ firstWeekday = 3 ∧ isLeap year then 53 else 52

def Date.ofIsoweek (year week dayOfWeek : Nat) : Except Error Date :=
  let ordinal := isoweek1monday year + ((week : Int) - 1) * 7 + ((dayOfWeek : Int) - 1)
  if h : ((1 ≤ year ∧ year ≤ 9999) ∧ (1 ≤ week ∧ (week : Int) ≤ isoweeks year) ∧
      1 ≤ dayOfWeek ∧ dayOfWeek ≤ 7) ∧ 1 ≤ ordinal ∧ ordinal ≤ toOrdinal 9999 12 31 then
    .ok ⟨ordinal, h.2.1, h.2.2⟩
  else .error .valueError

example : (Date.ofIsoweek 2009 53 7).map Date.ordinal = .ok (toOrdinal 2010 1 3) := by decide

/-- A date in one of the formats YYYY-MM-DD, YYYYMMDD, YYYY-Www[-D] and
YYYYWww[D]. -/
def parseIsoformatDate (s : List Char) : Except Error Date := do
  let (year, s) ← digits 4 s
  let hasSep := s.head? = some '-'
  let afterSep (s : List Char) : Except Error (List Char) :=
    if (s.head? = some '-') = hasSep then .ok (if hasSep then s.tail else s)
    else .error .valueError
  let s ← afterSep s
  if s.head? = some 'W' then
    let (week, s) ← digits 2 s.tail
    if s = [] then Date.ofIsoweek year week 1
    else
      let (dayOfWeek, s) ← digits 1 (← afterSep s)
      if s = [] then Date.ofIsoweek year week dayOfWeek else .error .valueError
  else
    let (month, s) ← digits 2 s
    let (dayOfMonth, s) ← digits 2 (← afterSep s)
    if s = [] then Date.ofYmd year month dayOfMonth else .error .valueError

/-! ## Times -/

/-- What `HH[:MM[:SS[.f+]]]` says. -/
structure Clock where
  hour : Nat
  minute : Nat
  second : Nat
  microsecond : Nat

def Clock.micros (c : Clock) : Nat :=
  ((c.hour * 60 + c.minute) * 60 + c.second) * 1000000 + c.microsecond

/-- The digits after the decimal mark, of which six count. -/
def parseFraction (s : List Char) : Except Error Nat :=
  if s ≠ [] ∧ s.all Char.isDigit then .ok (number (s.take 6) * 10 ^ (6 - s.length))
  else .error .valueError

/-- Parses things of the form HH[:?MM[:?SS[{.,}fff[fff]]]]. -/
def parseHhMmSsFf (s : List Char) : Except Error Clock := do
  let (hour, s) ← digits 2 s
  if s = [] then return ⟨hour, 0, 0, 0⟩
  let hasSep := s.head? = some ':'
  let (minute, s) ← digits 2 (if hasSep then s.tail else s)
  if s = [] then return ⟨hour, minute, 0, 0⟩
  if hasSep ∧ s.head? ≠ some ':' then throw .valueError
  let (second, s) ← digits 2 (if hasSep then s.tail else s)
  match s with
  | [] => return ⟨hour, minute, second, 0⟩
  | mark :: s =>
    if mark = '.' ∨ mark = ',' then return ⟨hour, minute, second, ← parseFraction s⟩
    else throw .valueError

/-- A time of day, in microseconds. -/
structure Time where
  micros : Int
  lower : 0 ≤ micros
  upper : micros < day

def Clock.time (c : Clock) : Except Error Time :=
  if h : (c.hour < 24 ∧ c.minute < 60) ∧ c.second < 60 ∧ c.microsecond < 1000000 then
    .ok ⟨c.micros, Int.natCast_nonneg _, by unfold micros day; omega⟩
  else .error .valueError

/-- `timezone(sign * timedelta(...))`. -/
def Clock.timezone (negative : Bool) (c : Clock) : Except Error Offset :=
  let micros : Int := if negative then -c.micros else c.micros
  if h : -day < micros ∧ micros < day then .ok ⟨micros, h.1, h.2⟩ else .error .valueError

/-- Where the time ends and the offset starts. -/
def isSign (c : Char) : Bool := c = '+' || c = '-' || c = 'Z'

/-- The offset, unless there is none. -/
def parseOffset : List Char → Except Error (Option Offset)
  | [] => .ok none
  | ['Z'] => ((Clock.mk 0 0 0 0).timezone false).map some
  | 'Z' :: _ => .error .valueError
  | sign :: s => do
    let clock ← parseHhMmSsFf s
    (clock.timezone (sign == '-')).map some

/-- Format supported is HH[:MM[:SS[.fff[fff]]]][+HH:MM[:SS[.ffffff]]]. -/
def parseIsoformatTime (s : List Char) : Except Error (Time × Option Offset) := do
  let clock ← parseHhMmSsFf (s.takeWhile fun c => !isSign c)
  let tz ← parseOffset (s.dropWhile fun c => !isSign c)
  return (← clock.time, tz)

/-! ## Datetimes -/

/-- Where the character between date and time is: the formats of a date can be
told apart by their fifth and sixth characters. -/
def findIsoformatDatetimeSeparator (s : List Char) : Nat :=
  if s.length = 7 then 7
  else if s[4]? = some '-' then
    if s[5]? = some 'W' then
      if s[8]? = some '-' then
        -- a date with a weekday, or a hyphen before the hours
        if (s[10]?.map Char.isDigit).getD false then 8 else 10
      else 8
    else 10
  else if s[4]? = some 'W' then
    let idx := 7 + ((s.drop 7).takeWhile Char.isDigit).length
    if idx < 9 then idx else if idx % 2 = 0 then 7 else 8
  else 8

/-- A wall clock time, at an offset unless it is naive. -/
structure IsoDatetime where
  wall : Int
  tz : Option Offset
  lower : 0 ≤ wall
  upper : wall ≤ maxWall

/-- `datetime.combine(date, time, tz)`. -/
def combine (date : Date) (time : Time) (tz : Option Offset) : IsoDatetime where
  wall := dateStart date.ordinal + time.micros
  tz := tz
  lower := by
    have := date.lower
    have := time.lower
    unfold dateStart day
    omega
  upper := by
    have := date.upper
    have := time.upper
    unfold dateStart maxWall day at *
    omega

/-- `datetime.fromisoformat(s)`, as it is documented. -/
def fromisoformat (s : List Char) : Except Error IsoDatetime :=
  if s.length < 7 then .error .valueError
  else do
    let location := findIsoformatDatetimeSeparator s
    let date ← parseIsoformatDate (s.take location)
    if s.length ≤ location then return combine date ⟨0, le_rfl, day_pos⟩ none
    let (time, tz) ← parseIsoformatTime (s.drop (location + 1))
    return combine date time tz

end Os2moFkk.IsoFormat
