import Mathlib.Data.List.Induction
import Mathlib.Tactic.Ring
import Os2moFkk.IsoFormat

/-!
# Texts of instants

An instant is written as a date, the letter T, a time of day and an offset. The
date is a calendar or week date and, like the time, has separators or has none.
-/

namespace Os2moFkk.IsoFormat

/-- A separator, where the format has them. -/
def separated (extended : Bool) (c : Char) : List Char := if extended then [c] else []

inductive DateText : List Char → Date → Prop
  | calendar {year month dayOfMonth : Nat} {date : Date} (extended : Bool)
      (valid : Date.ofYmd year month dayOfMonth = .ok date) :
      DateText (padded 4 year ++ (separated extended '-' ++ (padded 2 month ++
        (separated extended '-' ++ padded 2 dayOfMonth)))) date
  | week {year week dayOfWeek : Nat} {date : Date} (extended : Bool)
      (valid : Date.ofIsoweek year week dayOfWeek = .ok date) :
      DateText (padded 4 year ++ (separated extended '-' ++ ('W' :: padded 2 week ++
        (separated extended '-' ++ padded 1 dayOfWeek)))) date

/-- The digits after the decimal mark of a number of whole microseconds. -/
structure FractionText (text : List Char) (micros : Nat) : Prop where
  nonempty : text ≠ []
  isDigit : text.all Char.isDigit = true
  value : number text * 10 ^ 6 = micros * 10 ^ text.length

inductive ClockText : List Char → Clock → Prop
  | hours {hour : Nat} (h : hour < 24) : ClockText (padded 2 hour) ⟨hour, 0, 0, 0⟩
  | minutes {hour minute : Nat} (extended : Bool) (h : hour < 24) (m : minute < 60) :
      ClockText (padded 2 hour ++ (separated extended ':' ++ padded 2 minute))
        ⟨hour, minute, 0, 0⟩
  | seconds {hour minute second : Nat} (extended : Bool) (h : hour < 24) (m : minute < 60)
      (s : second < 60) :
      ClockText (padded 2 hour ++ (separated extended ':' ++ (padded 2 minute ++
        (separated extended ':' ++ padded 2 second)))) ⟨hour, minute, second, 0⟩
  | fraction {hour minute second microsecond : Nat} {mark : Char} {digits : List Char}
      (extended : Bool) (h : hour < 24) (m : minute < 60) (s : second < 60)
      (decimal : mark = '.' ∨ mark = ',') (f : FractionText digits microsecond) :
      ClockText (padded 2 hour ++ (separated extended ':' ++ (padded 2 minute ++
        (separated extended ':' ++ (padded 2 second ++ mark :: digits)))))
        ⟨hour, minute, second, microsecond⟩

/-- How far ahead of UTC the clock is. -/
inductive ZoneText : List Char → Int → Prop
  | utc : ZoneText ['Z'] 0
  | ahead {text : List Char} {clock : Clock} (h : ClockText text clock) :
      ZoneText ('+' :: text) clock.micros
  | behind {text : List Char} {clock : Clock} (h : ClockText text clock) :
      ZoneText ('-' :: text) (-clock.micros)

/-- The text says when the instant is. -/
inductive InstantText : List Char → Int → Prop
  | mk {dateText timeText zoneText : List Char} {date : Date} {clock : Clock} {offset : Int}
      (d : DateText dateText date) (t : ClockText timeText clock) (z : ZoneText zoneText offset) :
      InstantText (dateText ++ 'T' :: (timeText ++ zoneText))
        (dateStart date.ordinal + clock.micros - offset)

/-! ## Times -/

theorem number_append (s t : List Char) :
    number (s ++ t) = number s * 10 ^ t.length + number t := by
  induction t using List.reverseRecOn with
  | nil => simp [number]
  | append_singleton t c ih =>
    rw [← List.append_assoc, number_concat, number_concat, ih, List.length_append,
      List.length_singleton, Nat.pow_succ]
    ring

theorem digit_lt {c : Char} (h : c.isDigit = true) : c.toNat - 48 < 10 := by
  have := isDigit_range h
  omega

theorem number_lt {s : List Char} (h : ∀ c ∈ s, c.isDigit = true) :
    number s < 10 ^ s.length := by
  induction s using List.reverseRecOn with
  | nil => decide
  | append_singleton s c ih =>
    have hs := ih fun d hd => h d (List.mem_append_left _ hd)
    have hc := digit_lt (h c (by simp))
    rw [number_concat, List.length_append, List.length_singleton, Nat.pow_succ]
    omega

/-- Digits that do not count are zeros. -/
theorem FractionText.parse {text : List Char} {micros : Nat} (h : FractionText text micros) :
    parseFraction text = .ok micros := by
  have hvalue := h.value
  rw [parseFraction, if_pos ⟨h.nonempty, h.isDigit⟩]
  congr 1
  by_cases hlength : text.length ≤ 6
  · have hpow : 10 ^ 6 = 10 ^ (6 - text.length) * 10 ^ text.length := by
      rw [← Nat.pow_add, Nat.sub_add_cancel hlength]
    rw [List.take_of_length_le hlength]
    rw [hpow, ← Nat.mul_assoc] at hvalue
    exact Nat.eq_of_mul_eq_mul_right (Nat.pow_pos (by decide)) hvalue
  · have hsix : 6 ≤ text.length := Nat.le_of_not_le hlength
    have hpow : 10 ^ text.length = 10 ^ (text.length - 6) * 10 ^ 6 := by
      rw [← Nat.pow_add, Nat.sub_add_cancel hsix]
    have hpos : 0 < 10 ^ (text.length - 6) := Nat.pow_pos (by decide)
    have hrest : number (text.drop 6) < 10 ^ (text.length - 6) := by
      rw [← List.length_drop]
      exact number_lt fun c hc => List.all_eq_true.mp h.isDigit c (List.mem_of_mem_drop hc)
    have hsplit := number_append (text.take 6) (text.drop 6)
    rw [List.take_append_drop, List.length_drop] at hsplit
    rw [hpow, ← Nat.mul_assoc] at hvalue
    have hnumber := Nat.eq_of_mul_eq_mul_right (by decide) hvalue
    rw [Nat.sub_eq_zero_of_le hsix, Nat.pow_zero, Nat.mul_one,
      ← Nat.mul_div_cancel micros hpos, ← hnumber, hsplit, Nat.mul_comm,
      Nat.mul_add_div hpos, Nat.div_eq_of_lt hrest, Nat.add_zero]

theorem FractionText.lt {text : List Char} {micros : Nat} (h : FractionText text micros) :
    micros < 1000000 := by
  have hlt := number_lt (List.all_eq_true.mp h.isDigit)
  have hvalue := h.value
  have hpos : 0 < 10 ^ text.length := Nat.pow_pos (by decide)
  refine Nat.lt_of_mul_lt_mul_right (a := 10 ^ text.length) ?_
  rw [← hvalue, Nat.mul_comm 1000000]
  exact Nat.mul_lt_mul_of_pos_right hlt (by decide)

theorem digits_padded_end {n k : Nat} (h : k < 10 ^ n) :
    digits n (padded n k) = .ok (k, []) := by
  rw [← digits_padded h [], List.append_nil]

theorem padded_ne_nil (n k : Nat) : padded (n + 1) k ≠ [] :=
  List.ne_nil_of_length_eq_add_one (length_padded (n + 1) k)

/-- A number starts with a digit. -/
theorem head_padded {c : Char} (hc : c.isDigit = false) (n k : Nat) (rest : List Char) :
    (padded (n + 1) k ++ rest).head? ≠ some c := by
  intro h
  rw [List.head?_append_of_ne_nil _ (padded_ne_nil n k)] at h
  rw [isDigit_padded c (List.mem_of_mem_head? h)] at hc
  exact absurd hc (by decide)

theorem ClockText.parse {text : List Char} {clock : Clock} (h : ClockText text clock) :
    parseHhMmSsFf text = .ok clock := by
  have hcolon : ∀ k rest, (padded 2 k ++ rest).head? ≠ some ':' := head_padded (by decide) 1
  have hlast : ∀ k, (padded 2 k).head? ≠ some ':' := fun k => by simpa using hcolon k []
  have hne : ∀ k, padded 2 k ≠ [] := padded_ne_nil 1
  have htwo : ∀ k rest, k < 60 → digits 2 (padded 2 k ++ rest) = .ok (k, rest) :=
    fun k rest hk => digits_padded (by omega) rest
  have htwoEnd : ∀ k, k < 60 → digits 2 (padded 2 k) = .ok (k, []) :=
    fun k hk => digits_padded_end (by omega)
  cases h with
  | hours h =>
    have hhour := h.trans (by decide : 24 < 60)
    simp [parseHhMmSsFf, htwoEnd, hhour]
  | minutes extended h m =>
    have hhour := h.trans (by decide : 24 < 60)
    cases extended <;>
      simp [parseHhMmSsFf, separated, htwo, htwoEnd, hhour, m, hlast, hne]
  | seconds extended h m s =>
    have hhour := h.trans (by decide : 24 < 60)
    cases extended <;>
      simp [parseHhMmSsFf, separated, htwo, htwoEnd, hhour, m, s, hcolon, hne,
        -List.head?_append]
  | fraction extended h m s decimal f =>
    have hhour := h.trans (by decide : 24 < 60)
    cases extended <;>
      simp [parseHhMmSsFf, separated, htwo, hhour, m, s, hcolon, hne, decimal, f.parse,
        -List.head?_append]

theorem ClockText.bounds {text : List Char} {clock : Clock} (h : ClockText text clock) :
    (clock.hour < 24 ∧ clock.minute < 60) ∧ clock.second < 60 ∧ clock.microsecond < 1000000 := by
  cases h with
  | hours h => exact ⟨⟨h, Nat.zero_lt_succ _⟩, Nat.zero_lt_succ _, Nat.zero_lt_succ _⟩
  | minutes _ h m => exact ⟨⟨h, m⟩, Nat.zero_lt_succ _, Nat.zero_lt_succ _⟩
  | seconds _ h m s => exact ⟨⟨h, m⟩, s, Nat.zero_lt_succ _⟩
  | fraction _ h m s _ f => exact ⟨⟨h, m⟩, s, f.lt⟩

theorem ClockText.time {text : List Char} {clock : Clock} (h : ClockText text clock) :
    ∃ time, clock.time = .ok time ∧ time.micros = clock.micros :=
  ⟨_, dif_pos h.bounds, rfl⟩

/-- Less than a day is an offset. -/
theorem ClockText.timezone {text : List Char} {clock : Clock} (h : ClockText text clock)
    (negative : Bool) : ∃ offset, clock.timezone negative = .ok offset ∧
      offset.micros = if negative then -(clock.micros : Int) else clock.micros := by
  have hlt : (clock.micros : Int) < day := by
    have := h.bounds
    unfold Clock.micros day
    omega
  have hlo : -day < if negative then -(clock.micros : Int) else clock.micros := by
    split <;> omega
  have hhi : (if negative then -(clock.micros : Int) else clock.micros) < day := by
    split <;> omega
  exact ⟨⟨_, hlo, hhi⟩, dif_pos ⟨hlo, hhi⟩, rfl⟩

section
variable {p : Char → Bool} (hdigit : ∀ c : Char, c.isDigit = true → p c = true)
include hdigit

theorem all_padded (n k : Nat) : (padded n k).all p = true :=
  List.all_eq_true.mpr fun c hc => hdigit c (isDigit_padded c hc)

/-- What holds of digits and of the marks between them holds of a time of day. -/
theorem ClockText.all {text : List Char} {clock : Clock} (h : ClockText text clock)
    (hmark : [':', '.', ','].all p = true) : text.all p = true := by
  simp only [List.all_cons, List.all_nil, Bool.and_true, Bool.and_eq_true] at hmark
  obtain ⟨hcolon, hpoint, hcomma⟩ := hmark
  have hseparated : ∀ extended, (separated extended ':').all p = true := by
    intro extended
    cases extended <;> simp [separated, hcolon]
  cases h with
  | hours => exact all_padded hdigit _ _
  | minutes => simp [all_padded hdigit, hseparated, -List.all_eq_true]
  | seconds => simp [all_padded hdigit, hseparated, -List.all_eq_true]
  | fraction _ _ _ _ decimal f =>
    have hdigits := List.all_eq_true.mpr fun c hc => hdigit c (List.all_eq_true.mp f.isDigit c hc)
    rcases decimal with rfl | rfl <;>
      simp [all_padded hdigit, hseparated, hpoint, hcomma, hdigits, -List.all_eq_true]

theorem DateText.all {text : List Char} {date : Date} (h : DateText text date)
    (hmark : ['-', 'W'].all p = true) : text.all p = true := by
  simp only [List.all_cons, List.all_nil, Bool.and_true, Bool.and_eq_true] at hmark
  obtain ⟨hhyphen, hW⟩ := hmark
  have hseparated : ∀ extended, (separated extended '-').all p = true := by
    intro extended
    cases extended <;> simp [separated, hhyphen]
  cases h with
  | calendar => simp [all_padded hdigit, hseparated, -List.all_eq_true]
  | week => simp [all_padded hdigit, hseparated, hW, -List.all_eq_true]

/-- What holds of digits and of the marks between them holds of the whole text. -/
theorem InstantText.all {text : List Char} {instant : Int} (h : InstantText text instant)
    (hmark : ['-', 'W', 'T', ':', '.', ',', '+', 'Z'].all p = true) : text.all p = true := by
  simp only [List.all_cons, List.all_nil, Bool.and_true, Bool.and_eq_true] at hmark
  obtain ⟨hhyphen, hW, hT, hcolon, hpoint, hcomma, hplus, hZ⟩ := hmark
  obtain ⟨d, t, z⟩ := h
  have hclock : ∀ {s clock}, ClockText s clock → s.all p = true :=
    fun hs => hs.all hdigit (by simp [hcolon, hpoint, hcomma])
  have hdate := d.all hdigit (by simp [hhyphen, hW])
  rw [List.all_append, List.all_cons, List.all_append, hdate, hT, hclock t]
  cases z with
  | utc => simp [hZ]
  | ahead h => simp [hplus, hclock h, -List.all_eq_true]
  | behind h => simp [hhyphen, hclock h, -List.all_eq_true]

end

theorem isSign_digit {c : Char} (h : c.isDigit = true) : (!isSign c) = true := by
  obtain ⟨hlo, hhi⟩ := isDigit_range h
  rw [Bool.not_eq_true', Bool.eq_false_iff]
  intro hsign
  simp only [isSign, Bool.or_eq_true, decide_eq_true_eq] at hsign
  rcases hsign with (rfl | rfl) | rfl <;> revert hlo hhi <;> decide

/-- A time of day ends where the offset starts. -/
theorem ClockText.isSign {text : List Char} {clock : Clock} (h : ClockText text clock) :
    ∀ c ∈ text, (!isSign c) = true :=
  List.all_eq_true.mp (h.all (fun _ => isSign_digit) (by decide))

theorem parseOffset_signed {sign : Char} {text : List Char} {clock : Clock} {tz : Offset}
    {negative : Bool} (hsign : sign ≠ 'Z') (hnegative : (sign == '-') = negative)
    (h : parseHhMmSsFf text = .ok clock) (htz : clock.timezone negative = .ok tz) :
    parseOffset (sign :: text) = .ok (some tz) := by
  rw [parseOffset, h, Itertools.ok_bind, hnegative, htz]
  · rfl
  · exact fun hz _ => hsign hz
  · exact hsign

theorem ZoneText.parse {text : List Char} {offset : Int} (h : ZoneText text offset) :
    ∃ tz, parseOffset text = .ok (some tz) ∧ tz.micros = offset := by
  cases h with
  | utc =>
    obtain ⟨tz, htz, hoffset⟩ := (ClockText.hours (Nat.zero_lt_succ 23)).timezone false
    refine ⟨tz, ?_, by simpa [Clock.micros] using hoffset⟩
    rw [parseOffset, htz]
    rfl
  | ahead h =>
    obtain ⟨tz, htz, hoffset⟩ := h.timezone false
    rw [if_neg Bool.false_ne_true] at hoffset
    exact ⟨tz, parseOffset_signed (by decide) (by decide) h.parse htz, hoffset⟩
  | behind h =>
    obtain ⟨tz, htz, hoffset⟩ := h.timezone true
    rw [if_pos rfl] at hoffset
    exact ⟨tz, parseOffset_signed (by decide) (by decide) h.parse htz, hoffset⟩

theorem ZoneText.exists_sign {text : List Char} {offset : Int} (h : ZoneText text offset) :
    ∃ sign rest, text = sign :: rest ∧ IsoFormat.isSign sign = true := by
  cases h with
  | utc => exact ⟨'Z', [], rfl, by decide⟩
  | @ahead rest => exact ⟨'+', rest, rfl, by decide⟩
  | @behind rest => exact ⟨'-', rest, rfl, by decide⟩

/-- A time of day and an offset are read as what they say. -/
theorem parseIsoformatTime_text {timeText zoneText : List Char} {clock : Clock} {offset : Int}
    (t : ClockText timeText clock) (z : ZoneText zoneText offset) :
    ∃ time tz, parseIsoformatTime (timeText ++ zoneText) = .ok (time, some tz) ∧
      time.micros = clock.micros ∧ tz.micros = offset := by
  obtain ⟨time, htime, hmicros⟩ := t.time
  obtain ⟨tz, htz, hoffset⟩ := z.parse
  obtain ⟨sign, rest, rfl, hsign⟩ := z.exists_sign
  have htake : (timeText ++ sign :: rest).takeWhile (fun c => !isSign c) = timeText := by
    rw [List.takeWhile_append_of_pos t.isSign, List.takeWhile_cons_of_neg (by simp [hsign]),
      List.append_nil]
  have hdrop : (timeText ++ sign :: rest).dropWhile (fun c => !isSign c) = sign :: rest := by
    rw [List.dropWhile_append_of_pos t.isSign, List.dropWhile_cons_of_neg (by simp [hsign])]
  refine ⟨time, tz, ?_, hmicros, hoffset⟩
  rw [parseIsoformatTime, htake, hdrop, t.parse, htz]
  simp [htime]

/-! ## Dates -/

theorem Date.ofYmd_bounds {year month dayOfMonth : Nat} {date : Date}
    (h : Date.ofYmd year month dayOfMonth = .ok date) :
    year < 10 ^ 4 ∧ month < 10 ^ 2 ∧ dayOfMonth < 10 ^ 2 := by
  unfold Date.ofYmd at h
  split at h
  · rename_i hvalid
    have hlast : daysInMonth year month ≤ 31 := by
      obtain ⟨hlo, hhi⟩ := hvalid.2.1
      unfold daysInMonth
      split
      · decide
      · interval_cases month <;> decide
    omega
  · cases h

theorem Date.ofIsoweek_bounds {year week dayOfWeek : Nat} {date : Date}
    (h : Date.ofIsoweek year week dayOfWeek = .ok date) :
    year < 10 ^ 4 ∧ week < 10 ^ 2 ∧ dayOfWeek < 10 ^ 1 := by
  unfold Date.ofIsoweek at h
  dsimp only at h
  split at h
  · rename_i hvalid
    have hlast : isoweeks year ≤ 53 := by
      unfold isoweeks
      dsimp only
      split <;> decide
    omega
  · cases h

theorem DateText.parse {text : List Char} {date : Date} (h : DateText text date) :
    parseIsoformatDate text = .ok date := by
  have hhyphen : ∀ n k rest, (padded (n + 1) k ++ rest).head? ≠ some '-' :=
    head_padded (by decide)
  have hlast : ∀ n k, (padded (n + 1) k).head? ≠ some '-' :=
    fun n k => by simpa using hhyphen n k []
  have hW : ∀ k rest, (padded 2 k ++ rest).head? ≠ some 'W' := head_padded (by decide) 1
  have hne : ∀ n k, padded (n + 1) k ≠ [] := padded_ne_nil
  cases h with
  | calendar extended valid =>
    obtain ⟨hyear, hmonth, hday⟩ := Date.ofYmd_bounds valid
    cases extended <;>
      simp [parseIsoformatDate, separated, digits_padded hyear, digits_padded hmonth,
        digits_padded_end hday, valid, hhyphen, hlast, hW, -List.head?_append]
  | week extended valid =>
    obtain ⟨hyear, hweek, hday⟩ := Date.ofIsoweek_bounds valid
    cases extended <;>
      simp [parseIsoformatDate, separated, digits_padded hyear, digits_padded hweek,
        digits_padded_end hday, valid, hlast, hne, -List.head?_append]

theorem digitChar_ne {c : Char} (hc : c.isDigit = false) (k : Nat) :
    Nat.digitChar (k % 10) ≠ c := by
  rintro rfl
  rw [digitChar_isDigit _ (Nat.mod_lt k (by decide))] at hc
  exact absurd hc (by decide)

/-- The date ends where the separator is. -/
theorem DateText.separator {text : List Char} {date : Date} (h : DateText text date)
    (rest : List Char) :
    findIsoformatDatetimeSeparator (text ++ 'T' :: rest) = text.length := by
  have hdigit : ∀ k, (Nat.digitChar (k % 10)).isDigit = true :=
    fun k => digitChar_isDigit _ (Nat.mod_lt k (by decide))
  have hhyphen : ∀ k, Nat.digitChar (k % 10) ≠ '-' := digitChar_ne (by decide)
  have hW : ∀ k, Nat.digitChar (k % 10) ≠ 'W' := digitChar_ne (by decide)
  cases h with
  | calendar extended =>
    cases extended <;>
      simp [findIsoformatDatetimeSeparator, separated, padded, hhyphen, hW]
  | week extended =>
    cases extended <;>
      simp [findIsoformatDatetimeSeparator, separated, padded, hdigit]

theorem DateText.length {text : List Char} {date : Date} (h : DateText text date) :
    7 < text.length := by
  cases h with
  | calendar => simp; omega
  | week => simp; omega

/-! ## Datetimes -/

/-- The text of an instant is read as an aware datetime at that instant. -/
theorem InstantText.parse {text : List Char} {instant : Int} (h : InstantText text instant) :
    ∃ d tz, fromisoformat text = .ok d ∧ d.tz = some tz ∧ d.wall - tz.micros = instant := by
  obtain @⟨dateText, timeText, zoneText, date, clock, offset, d, t, z⟩ := h
  obtain ⟨time, tz, htime, hmicros, hoffset⟩ := parseIsoformatTime_text t z
  have hlength : ¬ (dateText ++ 'T' :: (timeText ++ zoneText)).length < 7 := by
    have := d.length
    simp
    omega
  have hlocation : ¬ (dateText ++ 'T' :: (timeText ++ zoneText)).length ≤ dateText.length := by
    simp
  have htake : (dateText ++ 'T' :: (timeText ++ zoneText)).take dateText.length = dateText :=
    List.take_left
  have hdrop : (dateText ++ 'T' :: (timeText ++ zoneText)).drop (dateText.length + 1) =
      timeText ++ zoneText := by
    rw [← List.drop_drop, List.drop_left]
    rfl
  refine ⟨combine date time (some tz), tz, ?_, rfl, ?_⟩
  · rw [fromisoformat, if_neg hlength, d.separator]
    dsimp only
    rw [htake, d.parse, Itertools.ok_bind, if_neg hlocation, hdrop, htime]
    rfl
  · rw [← hmicros, ← hoffset]
    rfl

end Os2moFkk.IsoFormat
