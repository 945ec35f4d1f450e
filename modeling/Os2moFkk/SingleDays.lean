import Os2moFkk.Copenhagen
import Os2moFkk.Pieces

/-!
# The single-day filter

The filter compares the time that passes with 24 hours, where MO looks at
dates. The two agree on Danish midnights but for the day of 25 hours, which is
one date and is not dropped (`filter_means_dates_iff`).
-/

namespace Os2moFkk
open Itertools

/-- An infinity, or a Danish midnight of the years 1980 to 9000 with its offset. -/
def DanishMidnight (d : Datetime) : Prop := ¬ d.Infinite → DanishTime d ∧ d.IsMidnight

instance (d : Datetime) : Decidable (DanishMidnight d) := inferInstanceAs (Decidable (_ → _ ∧ _))

/-- The end is at most one date after the start; an infinity is arbitrarily far
away. -/
def AtMostOneDate (v : ClassValidity) : Prop :=
  ¬ v.validity.start.Infinite ∧ ¬ v.validity.stop.Infinite ∧
    danishDate v.validity.stop ≤ danishDate v.validity.start + 1

/-- No desired state equals this one. -/
def Dropped (desired : List ClassValidity) (v : ClassValidity) : Prop :=
  ∀ w ∈ desired, w.value ≠ v.value

/-- From the midnight of a date to the next, with the clocks turned back. -/
def TurnsBack (a b : Datetime) : Prop := danishDate b = danishDate a + 1 ∧ b.offset < a.offset

instance (a b : Datetime) : Decidable (TurnsBack a b) := inferInstanceAs (Decidable (_ ∧ _))

/-- The Klasse is published for just the date on which the clocks turn back. -/
def PublishedTurnsBack (klasse : Klasse) : Prop :=
  ∃ a ∈ klasse.bounds, ∃ b ∈ klasse.bounds,
    Neighbours klasse a b ∧ Published klasse a.instant ∧ TurnsBack a b

/-! ## Midnights -/

theorem DanishMidnight.truncateTime {d : Datetime} (h : DanishMidnight d) :
    d.truncateTime = d := by
  by_cases hinf : d.Infinite
  · exact Datetime.truncateTime_infinite hinf
  · obtain ⟨wall, tz, rfl⟩ := Datetime.eq_timestamp_of_finite hinf
    have hmidnight : wall % day = 0 := (h hinf).2
    rw [Datetime.truncateTime_finite hinf, Datetime.wall, floorDay, hmidnight, Int.sub_zero]
    rfl

/-- A midnight is its date, less the offset. -/
theorem DanishMidnight.instant_eq {d : Datetime} (h : DanishMidnight d) (hfin : ¬ d.Infinite) :
    d.instant = danishDate d * day - d.offset ∧ (d.offset = hour ∨ d.offset = 2 * hour) := by
  obtain ⟨wall, tz, rfl⟩ := Datetime.eq_timestamp_of_finite hfin
  obtain ⟨htime, hmidnight⟩ := h hfin
  have hmidnight : wall % day = 0 := hmidnight
  rw [htime.danishDate_eq, Int.ediv_mul_cancel (Int.dvd_of_emod_eq_zero hmidnight)]
  exact ⟨rfl, htime.offset_or⟩

/-- Equal midnights are the same, when they are finite. -/
theorem DanishMidnight.eq_of_instant {c d : Datetime} (hc : DanishMidnight c)
    (hd : DanishMidnight d) (hfin : ¬ d.Infinite) (h : c.instant = d.instant) : c = d :=
  (hc fun hinf => hfin (hinf.congr h)).1.eq_of_instant (hd hfin).1 h

/-- The dates of these years are far from those of the infinities. -/
theorem DanishTime.danishDate_bounds {wall : Int} {tz : TzInfo}
    (h : DanishTime (.timestamp wall tz)) :
    722814 ≤ danishDate (.timestamp wall tz) ∧ danishDate (.timestamp wall tz) < 3287182 := by
  obtain ⟨hlo, hhi⟩ := h.years
  have hfirst : dateStart (toOrdinal 1980 1 1) = 722814 * day := by decide
  have hlast : dateStart (toOrdinal 9001 1 1) = 3287182 * day := by decide
  rw [h.danishDate_eq]
  unfold day at *
  omega

/-- Of two midnights, the elapsed time is at most a day when the later date is
at most one further on, and the clocks are not turned back in between. -/
theorem elapsed_le_day_iff {a b : Datetime} (ha : DanishMidnight a) (hb : DanishMidnight b)
    (hafin : ¬ a.Infinite) (hbfin : ¬ b.Infinite) (hlt : a.instant < b.instant) :
    b.instant - a.instant ≤ day ↔ danishDate b ≤ danishDate a + 1 ∧ ¬ TurnsBack a b := by
  obtain ⟨hstart, hfirst⟩ := ha.instant_eq hafin
  obtain ⟨hstop, hlast⟩ := hb.instant_eq hbfin
  unfold TurnsBack hour day at *
  omega

/-- The date of what equals an infinity. -/
theorem danishDate_of_infinite {d : Datetime} (h : d.Infinite) :
    (d.instant = 0 ∧ danishDate d = 0) ∨ (d.instant = maxWall ∧ danishDate d = 3652059) := by
  have hfirst : danishDate .negativeInfinity = 0 := by decide
  have hlast : danishDate .positiveInfinity = 3652059 := by decide
  rcases h with heq | heq
  · left
    refine ⟨heq, ?_⟩
    rwa [danishDate, heq]
  · right
    refine ⟨heq, ?_⟩
    rwa [danishDate, heq]

/-- An infinity is more than a day away from any other bound, and many dates. -/
theorem far_of_infinite {a b : Datetime} (ha : DanishMidnight a) (hb : DanishMidnight b)
    (hlt : a.instant < b.instant) (hinf : a.Infinite ∨ b.Infinite) :
    day < b.instant - a.instant ∧ ¬ TurnsBack a b := by
  have place : ∀ d, DanishMidnight d → ((d.instant = 0 ∧ danishDate d = 0) ∨
      (d.instant = maxWall ∧ danishDate d = 3652059)) ∨
      (722813 * day < d.instant ∧ d.instant < 3287182 * day) ∧
      722814 ≤ danishDate d ∧ danishDate d < 3287182 := by
    intro d hd
    by_cases hinf : d.Infinite
    · exact Or.inl (danishDate_of_infinite hinf)
    · have htime := (hd hinf).1
      obtain ⟨wall, tz, rfl⟩ := Datetime.eq_timestamp_of_finite hinf
      exact Or.inr ⟨htime.bounds, htime.danishDate_bounds⟩
  have hmax := maxWall_eq
  unfold TurnsBack
  unfold day at *
  rcases hinf with hinf | hinf
  · have hstart := danishDate_of_infinite hinf
    have hstop := place b hb
    omega
  · have hstart := place a ha
    have hstop := danishDate_of_infinite hinf
    omega

/-- What lasts for at most a day is at most one date, and not the one on which
the clocks are turned back. -/
theorem singleDay_iff {v : ClassValidity} (hstart : DanishMidnight v.validity.start)
    (hstop : DanishMidnight v.validity.stop) (hlt : v.start < v.stop) :
    SingleDay v ↔ AtMostOneDate v ∧ ¬ TurnsBack v.validity.start v.validity.stop := by
  by_cases hinf : v.validity.start.Infinite ∨ v.validity.stop.Infinite
  · obtain ⟨hfar, _⟩ := far_of_infinite hstart hstop hlt hinf
    apply iff_of_false (not_le.mpr hfar)
    rintro ⟨⟨hafin, hbfin, _⟩, _⟩
    exact hinf.elim hafin hbfin
  · obtain ⟨hafin, hbfin⟩ := not_or.mp hinf
    have hday : SingleDay v ↔ _ := elapsed_le_day_iff hstart hstop hafin hbfin hlt
    rw [hday, AtMostOneDate, and_assoc, and_assoc]
    exact ⟨fun h => ⟨hafin, hbfin, h⟩, fun h => h.2.2⟩

/-! ## The filter -/

section
variable {klasse : Klasse} {facet : UUID} {l : List ClassValidity}
  (h : fkkKlasseToClassValidities klasse facet = .ok l)
include h

/-- The filter drops what lasts for at most a day after truncation. -/
theorem dropped_iff {u : ClassValidity} (hu : u ∈ l) :
    Dropped (datedStates l) u.withValidityAsDates ↔ SingleDay u.withValidityAsDates := by
  constructor
  · intro hdropped
    by_contra hday
    obtain ⟨w, hw, heq⟩ := exists_datedStates h hu hday
    exact hdropped w hw heq
  · intro hday w hw heq
    have hstart : w.start = u.withValidityAsDates.start := congrArg Value.start heq
    have hstop : w.stop = u.withValidityAsDates.stop := congrArg Value.stop heq
    obtain ⟨_, hlong⟩ := mem_datedStates h hw
    rw [SingleDay, hstart, hstop] at hlong
    exact hlong hday

theorem withValidityAsDates_of_midnights (hdates : ∀ d ∈ klasse.bounds, DanishMidnight d)
    {u : ClassValidity} (hu : u ∈ l) : u.withValidityAsDates = u := by
  obtain ⟨hstart, hstop⟩ := mem_bounds_of_yielded h hu
  rw [ClassValidity.withValidityAsDates, (hdates _ hstart).truncateTime,
    (hdates _ hstop).truncateTime]

/-- On Danish midnights, the filter drops exactly the states of at most one
date if and only if the Klasse is not published for just the date on which the
clocks are turned back. -/
theorem filter_means_dates_iff (hdates : ∀ d ∈ klasse.bounds, DanishMidnight d)
    {desired : List ClassValidity} (hdesired : desiredStates (some klasse) facet = .ok desired) :
    (∀ u ∈ l, Dropped desired u.withValidityAsDates ↔ AtMostOneDate u.withValidityAsDates) ↔
      ¬ PublishedTurnsBack klasse := by
  obtain ⟨l', h', rfl⟩ := desiredStates_some.mp hdesired
  obtain rfl : l = l' := Except.ok.inj (h.symm.trans h')
  have hdropped : ∀ u ∈ l, Dropped (datedStates l) u.withValidityAsDates ↔
      AtMostOneDate u.withValidityAsDates ∧ ¬ TurnsBack u.validity.start u.validity.stop := by
    intro u hu
    obtain ⟨hstart, hstop⟩ := mem_bounds_of_yielded h hu
    rw [dropped_iff h hu, withValidityAsDates_of_midnights h hdates hu]
    exact singleDay_iff (hdates _ hstart) (hdates _ hstop) (start_lt_stop_of_yielded h hu)
  constructor
  · rintro hall ⟨a, ha, b, hb, hneighbours, hpublished, hturns⟩
    obtain ⟨u, hu, hua, hub⟩ := exists_yielded_between h ha hb hneighbours hpublished
    obtain ⟨hstart, hstop⟩ := mem_bounds_of_yielded h hu
    have hfinite : ¬ (a.Infinite ∨ b.Infinite) := fun hinf =>
      (far_of_infinite (hdates _ ha) (hdates _ hb) hneighbours.1 hinf).2 hturns
    obtain ⟨hafin, hbfin⟩ := not_or.mp hfinite
    obtain rfl := (hdates _ hstart).eq_of_instant (hdates _ ha) hafin hua
    obtain rfl := (hdates _ hstop).eq_of_instant (hdates _ hb) hbfin hub
    have hone : AtMostOneDate u.withValidityAsDates := by
      rw [withValidityAsDates_of_midnights h hdates hu]
      exact ⟨hafin, hbfin, hturns.1.le⟩
    exact ((hdropped u hu).mp ((hall u hu).mpr hone)).2 hturns
  · intro hnone u hu
    rw [hdropped u hu]
    apply and_iff_left
    intro hturns
    obtain ⟨hstart, hstop⟩ := mem_bounds_of_yielded h hu
    obtain ⟨hneighbours, hpublished⟩ := piece_of_yielded h hu
    exact hnone ⟨_, hstart, _, hstop, hneighbours, hpublished, hturns⟩

end

/-- A Klasse for the Sunday on which the clocks are turned forward. -/
def shortDay : Klasse :=
  .single 8 "85.15.02" "IT-sikkerhed"
    ⟨.ofDate 2003 3 30 0 cet, .ofDate 2003 3 31 0 cest, by decide, by decide⟩

theorem filter_means_dates_iff_shortDay :
    ∃ l desired, fkkKlasseToClassValidities shortDay 1 = .ok l ∧
      desiredStates (some shortDay) 1 = .ok desired ∧ l.length = 1 ∧
      ∀ u ∈ l, Dropped desired u.withValidityAsDates ↔ AtMostOneDate u.withValidityAsDates := by
  have h : fkkKlasseToClassValidities shortDay 1 = .ok _ := rfl
  have hdesired : desiredStates (some shortDay) 1 = .ok _ := rfl
  have hturns : ∀ a ∈ shortDay.bounds, ∀ b ∈ shortDay.bounds, ¬ TurnsBack a b := by decide
  refine ⟨_, _, h, hdesired, rfl, (filter_means_dates_iff h (by decide) hdesired).mpr ?_⟩
  rintro ⟨a, ha, b, hb, _, _, hback⟩
  exact hturns a ha b hb hback

/-- A Klasse for the Sunday on which they are turned back, a day of 25 hours. -/
def longDay : Klasse :=
  .single 8 "85.15.02" "IT-sikkerhed"
    ⟨.ofDate 2003 10 26 0 cest, .ofDate 2003 10 27 0 cet, by decide, by decide⟩

/-- It is desired all the same. -/
theorem long_day_kept : (∀ d ∈ longDay.bounds, DanishMidnight d) ∧
    ∃ l desired, fkkKlasseToClassValidities longDay 1 = .ok l ∧
      desiredStates (some longDay) 1 = .ok desired ∧
      ∃ u ∈ l, AtMostOneDate u.withValidityAsDates ∧ ¬ Dropped desired u.withValidityAsDates := by
  refine ⟨by decide, _, _, rfl, rfl, _, List.mem_cons_self, ⟨by decide, by decide, by decide⟩, ?_⟩
  intro hdropped
  exact hdropped _ List.mem_cons_self rfl

end Os2moFkk
