import Os2moFkk.Copenhagen
import Os2moFkk.Mo
import Os2moFkk.Pieces

/-!
# Synchronisation loops

MO keeps the Danish dates of what it is given. A synchronisation that wrote a
bound is followed by one that finds it, if the bound was a Danish midnight.
Truncation keeps the offset of a timestamp, so it misses midnight after the
clocks have changed; and what equals an infinity without being it is written as
a date (`no_loop_iff`).
-/

namespace Os2moFkk
open Itertools Prog Timeline

/-- A MO that keeps the Danish date of a bound and reports its midnight. -/
def Keeper.dates : Keeper Int where
  keep := danishDate
  key := id
  reportFrom := danishMidnight
  reportTo date := danishMidnight (date - 1)
  truncated := ⟨none, none⟩

/-- The object of an infinity, or a finite timestamp of which the date began
with the offset that it is written with. -/
def KeptByMo : Datetime → Prop
  | .timestamp wall tz =>
    ¬ (Datetime.timestamp wall tz).Infinite ∧ BeganWithOffset (.timestamp wall tz)
  | _ => True

instance : DecidablePred KeptByMo
  | .timestamp _ _ => inferInstanceAs (Decidable (_ ∧ _))
  | .negativeInfinity => isTrue trivial
  | .positiveInfinity => isTrue trivial

/-- Where the Klasse is published for more than a day after truncation, MO keeps
the timestamps around it. -/
def TruncatesToMidnight (klasse : Klasse) : Prop :=
  ∀ a b, LongPiece klasse a b → KeptByMo a ∧ KeptByMo b

/-- MO shows the long pieces of the Klasse, with their bounds truncated, and
nothing else. -/
def Shows (states : ClassStates Int) (klasse : Klasse) (kle : UUID) : Prop :=
  ∀ x, (∃ e ∈ states.getD [], (Keeper.dates.readBack e).value = x) ↔ Wants klasse kle x

/-! ## What MO reports -/

theorem readTo_instant (date : Int) :
    (Datetime.timestamp ((danishMidnight (date - 1)).wall + day)
      (danishMidnight (date - 1)).tz).instant = (danishMidnight date).instant := by
  have hwall : (danishMidnight (date - 1)).wall + day = date * day := by
    change (date - 1) * day + day = date * day
    unfold day
    omega
  rw [hwall]
  rfl

/-- No Danish midnight is an infinity. -/
theorem danishMidnight_finite (date : Int) : ¬ (danishMidnight date).Infinite := by
  have hoffset := utcoffset_or (date * day)
  have hmax := maxWall_eq
  intro hinf
  unfold Datetime.Infinite at hinf
  rw [Datetime.instant_negativeInfinity, Datetime.instant_positiveInfinity,
    danishMidnight_instant] at hinf
  unfold hour day at *
  omega

/-- The start that is read is an infinity only where MO keeps none. -/
theorem start_readBack (e : Entry Int ClassValues) :
    (Keeper.dates.readBack e).start = 0 ∧ e.period.from_ = none ∨
      ∃ date, (Keeper.dates.readBack e).start = (danishMidnight date).instant := by
  obtain ⟨⟨from_, to_⟩, value⟩ := e
  cases from_ with
  | none => exact Or.inl ⟨rfl, rfl⟩
  | some date => exact Or.inr ⟨date, rfl⟩

theorem stop_readBack (e : Entry Int ClassValues) :
    (Keeper.dates.readBack e).stop = maxWall ∧ e.period.to_ = none ∨
      ∃ date, (Keeper.dates.readBack e).stop = (danishMidnight date).instant := by
  obtain ⟨⟨from_, to_⟩, value⟩ := e
  cases to_ with
  | none => exact Or.inl ⟨rfl, rfl⟩
  | some date => exact Or.inr ⟨date, readTo_instant date⟩

/-- A date that is not the last, so that MO's answer can be read. -/
def InRange (date : Int) : Prop := 0 ≤ date ∧ date < 3652059

theorem readable_of_inRange {e : Entry Int ClassValues} (h : e.period.Bounds InRange) :
    Keeper.dates.Readable e := by
  intro date hdate
  obtain ⟨hlo, hhi⟩ := h.2 date hdate
  have hmax := maxWall_eq
  change (date - 1) * day % day = 0 ∧ 0 ≤ (date - 1) * day + day ∧ (date - 1) * day + day ≤ maxWall
  unfold day at *
  omega

/-- MO's answer can be read when all its dates are in range. -/
theorem exists_actual {es : List (Entry Int ClassValues)}
    (h : ∀ e ∈ es, e.period.Bounds InRange) :
    ∃ actual, actualStates (some ⟨es.map Keeper.dates.report⟩) = .ok actual := by
  obtain ⟨l, hread⟩ := Keeper.exists_read fun e he => readable_of_inRange (h e he)
  exact ⟨_, by rw [actualStates, hread]; rfl⟩

/-! ## What is written -/

/-- When the date began with the offset, truncating keeps it, and it says the
instant. -/
theorem kept_of_began {wall : Int} {tz : TzInfo} (h : DanishTime (.timestamp wall tz))
    (hbegan : BeganWithOffset (.timestamp wall tz)) :
    danishDate (Datetime.timestamp wall tz).truncateTime = danishDate (.timestamp wall tz) ∧
    (danishMidnight (danishDate (Datetime.timestamp wall tz).truncateTime)).instant =
      (Datetime.timestamp wall tz).truncateTime.instant := by
  have heq := h.truncateTime_eq.mpr ⟨hbegan, rfl⟩
  have hsame := danishMidnight_danishDate ⟨_, heq⟩
  refine ⟨?_, hsame⟩
  rw [h.danishDate_eq]
  exact (h.truncateTime_eq.mp hsame.symm).2

section
variable {klasse : Klasse} {facet : UUID} {l : List ClassValidity}
  (hdanish : ∀ d ∈ klasse.bounds, ¬ d.Infinite → DanishTime d)
  (h : fkkKlasseToClassValidities klasse facet = .ok l)
include hdanish h

theorem danish_of_yielded {u : ClassValidity} (hu : u ∈ l) :
    (¬ u.validity.start.Infinite → DanishTime u.validity.start) ∧
      (¬ u.validity.stop.Infinite → DanishTime u.validity.stop) := by
  obtain ⟨hstart, hstop⟩ := mem_bounds_of_yielded h hu
  exact ⟨hdanish _ hstart, hdanish _ hstop⟩

/-- A yielded state starts and stops between the infinities. -/
theorem between_of_yielded {u : ClassValidity} (hu : u ∈ l) :
    0 ≤ u.validity.start.instant ∧ u.validity.start.instant < u.validity.stop.instant ∧
      u.validity.stop.instant ≤ maxWall := by
  obtain ⟨hstart, hstop⟩ := danish_of_yielded hdanish h hu
  exact ⟨(between_of_danish hstart).1, start_lt_stop_of_yielded h hu, (between_of_danish hstop).2⟩

/-- A start that MO is given comes from a finite timestamp, if MO keeps it. -/
theorem start_of_written {u : ClassValidity} (hu : u ∈ l) (hkept : KeptByMo u.validity.start)
    {d : Datetime} (hd : u.withValidityAsDates.validity.toMo.from_ = some d) :
    ∃ wall tz, u.validity.start = .timestamp wall tz ∧ DanishTime (.timestamp wall tz) ∧
      BeganWithOffset (.timestamp wall tz) ∧ d = (Datetime.timestamp wall tz).truncateTime := by
  obtain ⟨rfl, hne⟩ := Validity.toMo_from.mp hd
  obtain ⟨hstart, _⟩ := danish_of_yielded hdanish h hu
  obtain ⟨_, hlt, hmax⟩ := between_of_yielded hdanish h hu
  simp only [ClassValidity.withValidityAsDates] at hne ⊢
  cases heq : u.validity.start with
  | negativeInfinity =>
    rw [heq, Datetime.truncateTime_infinite Datetime.infinite_negativeInfinity] at hne
    exact absurd rfl hne
  | positiveInfinity =>
    rw [heq, Datetime.instant_positiveInfinity] at hlt
    omega
  | timestamp wall tz =>
    rw [heq] at hkept hstart
    exact ⟨wall, tz, rfl, hstart hkept.1, hkept.2, rfl⟩

theorem stop_of_written {u : ClassValidity} (hu : u ∈ l) (hkept : KeptByMo u.validity.stop)
    {d : Datetime} (hd : u.withValidityAsDates.validity.toMo.to_ = some d) :
    ∃ wall tz, u.validity.stop = .timestamp wall tz ∧ DanishTime (.timestamp wall tz) ∧
      BeganWithOffset (.timestamp wall tz) ∧ d = (Datetime.timestamp wall tz).truncateTime := by
  obtain ⟨rfl, hne⟩ := Validity.toMo_to.mp hd
  obtain ⟨_, hstop⟩ := danish_of_yielded hdanish h hu
  obtain ⟨hmin, hlt, _⟩ := between_of_yielded hdanish h hu
  simp only [ClassValidity.withValidityAsDates] at hne ⊢
  cases heq : u.validity.stop with
  | positiveInfinity =>
    rw [heq, Datetime.truncateTime_infinite Datetime.infinite_positiveInfinity] at hne
    exact absurd rfl hne
  | negativeInfinity =>
    rw [heq, Datetime.instant_negativeInfinity] at hlt
    omega
  | timestamp wall tz =>
    rw [heq] at hkept hstop
    exact ⟨wall, tz, rfl, hstop hkept.1, hkept.2, rfl⟩

section
variable {u : ClassValidity} (hu : u ∈ l)
  (hkept : KeptByMo u.validity.start ∧ KeptByMo u.validity.stop)
include hu hkept

/-- The dates that MO is given are in range. -/
theorem inRange_wanted :
    (Keeper.dates.wanted u.withValidityAsDates).period.Bounds InRange := by
  constructor
  · intro date hdate
    obtain ⟨d, hd, rfl⟩ := Option.map_eq_some_iff.mp hdate
    obtain ⟨wall, tz, _, htime, _, rfl⟩ := start_of_written hdanish h hu hkept.1 hd
    exact htime.danishDate_truncateTime
  · intro date hdate
    obtain ⟨d, hd, rfl⟩ := Option.map_eq_some_iff.mp hdate
    obtain ⟨wall, tz, _, htime, _, rfl⟩ := stop_of_written hdanish h hu hkept.2 hd
    exact htime.danishDate_truncateTime

/-- A state that MO keeps is read as it was written. -/
theorem value_readBack_dates :
    (Keeper.dates.readBack (Keeper.dates.wanted u.withValidityAsDates)).value =
      u.withValidityAsDates.value := by
  apply Keeper.value_readBack
  · intro d hd
    obtain ⟨wall, tz, _, htime, hbegan, rfl⟩ := start_of_written hdanish h hu hkept.1 hd
    exact (kept_of_began htime hbegan).2
  · intro d hd
    obtain ⟨wall, tz, _, htime, hbegan, rfl⟩ := stop_of_written hdanish h hu hkept.2 hd
    exact (readTo_instant _).trans (kept_of_began htime hbegan).2

/-- What is left of more than a day is from one date to a later one. -/
theorem proper_dates
    (hday : day < u.validity.stop.truncateTime.instant - u.validity.start.truncateTime.instant) :
    (Keeper.dates.wanted u.withValidityAsDates).period.Proper id := by
  apply Period.proper_iff.mpr
  intro a b ha hb
  obtain ⟨c, hc, rfl⟩ := Option.map_eq_some_iff.mp ha
  obtain ⟨d, hd, rfl⟩ := Option.map_eq_some_iff.mp hb
  obtain ⟨wall, tz, heq, htime, hbegan, rfl⟩ := start_of_written hdanish h hu hkept.1 hc
  obtain ⟨wall', tz', heq', htime', hbegan', rfl⟩ := stop_of_written hdanish h hu hkept.2 hd
  rw [heq, heq'] at hday
  have hpos := day_pos
  have hlt : (danishMidnight (danishDate (Datetime.timestamp wall tz).truncateTime)).instant <
      (danishMidnight (danishDate (Datetime.timestamp wall' tz').truncateTime)).instant := by
    rw [(kept_of_began htime hbegan).2, (kept_of_began htime' hbegan').2]
    omega
  exact danishMidnight_lt.mp hlt

end

/-- States that follow one another are written to dates that do. -/
theorem ends_dates {u w : ClassValidity} (hu : u ∈ l) (hw : w ∈ l)
    (hstop : KeptByMo u.validity.stop) (hstart : KeptByMo w.validity.start)
    (hle : u.stop ≤ w.start) :
    (Keeper.dates.wanted u.withValidityAsDates).period.Ends id
      (Keeper.dates.wanted w.withValidityAsDates).period := by
  obtain ⟨hfirst, hlt, _⟩ := between_of_yielded hdanish h hu
  obtain ⟨_, hlt', hlast⟩ := between_of_yielded hdanish h hw
  have hle : u.validity.stop.instant ≤ w.validity.start.instant := hle
  obtain ⟨_, hustop⟩ := danish_of_yielded hdanish h hu
  obtain ⟨hwstart, _⟩ := danish_of_yielded hdanish h hw
  cases hb : u.validity.stop with
  | negativeInfinity =>
    rw [hb, Datetime.instant_negativeInfinity] at hlt
    omega
  | positiveInfinity =>
    rw [hb, Datetime.instant_positiveInfinity] at hle
    omega
  | timestamp wall tz =>
    cases ha : w.validity.start with
    | negativeInfinity =>
      rw [ha, Datetime.instant_negativeInfinity] at hle
      omega
    | positiveInfinity =>
      rw [ha, Datetime.instant_positiveInfinity] at hlt'
      omega
    | timestamp wall' tz' =>
      rw [hb] at hustop hstop hle
      rw [ha] at hwstart hstart hle
      obtain ⟨hfin, hbegan⟩ := hstop
      obtain ⟨hfin', hbegan'⟩ := hstart
      refine ⟨_, _, congrArg (Option.map danishDate) (Validity.toMo_to.mpr ⟨rfl, ?_⟩),
        congrArg (Option.map danishDate) (Validity.toMo_from.mpr ⟨rfl, ?_⟩), ?_⟩
      · simp only [ClassValidity.withValidityAsDates, hb]
        rw [Datetime.truncateTime_finite hfin]
        exact Datetime.noConfusion
      · simp only [ClassValidity.withValidityAsDates, ha]
        rw [Datetime.truncateTime_finite hfin']
        exact Datetime.noConfusion
      · simp only [ClassValidity.withValidityAsDates, ha, hb]
        rw [(kept_of_began (hustop hfin) hbegan).1, (kept_of_began (hwstart hfin') hbegan').1]
        exact danishDate_mono hle

/-- The desired states that MO keeps are written apart from one another. -/
theorem disjoint_dates (hkept : TruncatesToMidnight klasse) :
    Disjoint id ((datedStates l).map Keeper.dates.wanted) where
  proper e he := by
    obtain ⟨v, hv, rfl⟩ := List.mem_map.mp he
    obtain ⟨u, hu, rfl, hpiece⟩ := longPiece_of_dated h hv
    exact proper_dates hdanish h hu (hkept _ _ hpiece) hpiece.lasts
  apart := by
    rw [List.pairwise_map]
    apply (distinct_datedStates l).imp_of_mem
    intro v w hv hw hne
    obtain ⟨u, hu, rfl, hpiece⟩ := longPiece_of_dated h hv
    obtain ⟨u', hu', rfl, hpiece'⟩ := longPiece_of_dated h hw
    obtain ⟨hstart, hstop⟩ := hkept _ _ hpiece
    obtain ⟨hstart', hstop'⟩ := hkept _ _ hpiece'
    by_cases hafter : u'.stop ≤ u.start
    · exact Or.inr (ends_dates hdanish h hu' hu hstop' hstart hafter)
    · left
      apply ends_dates hdanish h hu hu' hstop hstart'
      by_contra hbefore
      apply hne
      rw [eq_of_overlap h hu hu' (not_le.mp hafter) (not_le.mp hbefore)]

end

/-! ## What is found again -/

theorem eq_negativeInfinity {d : Datetime} (h : d.truncateTime = .negativeInfinity) :
    d = .negativeInfinity := by
  by_cases hinf : d.Infinite
  · rwa [Datetime.truncateTime_infinite hinf] at h
  · rw [Datetime.truncateTime_finite hinf] at h
    cases h

theorem eq_positiveInfinity {d : Datetime} (h : d.truncateTime = .positiveInfinity) :
    d = .positiveInfinity := by
  by_cases hinf : d.Infinite
  · rwa [Datetime.truncateTime_infinite hinf] at h
  · rw [Datetime.truncateTime_finite hinf] at h
    cases h

theorem start_of_unbounded {v : ClassValidity}
    (h : (Keeper.dates.wanted v).period.from_ = none) : v.validity.start = .negativeInfinity := by
  have hnone : v.validity.toMo.from_ = none := Option.map_eq_none_iff.mp h
  by_contra hne
  rw [Validity.toMo_from.mpr ⟨rfl, hne⟩] at hnone
  cases hnone

theorem stop_of_unbounded {v : ClassValidity}
    (h : (Keeper.dates.wanted v).period.to_ = none) : v.validity.stop = .positiveInfinity := by
  have hnone : v.validity.toMo.to_ = none := Option.map_eq_none_iff.mp h
  by_contra hne
  rw [Validity.toMo_to.mpr ⟨rfl, hne⟩] at hnone
  cases hnone

/-- What MO holds is unbounded only where a desired state is. -/
structure UnboundedAsWanted (es : List (Entry Int ClassValues)) (l : List ClassValidity) :
    Prop where
  from_ : ∀ e ∈ es, e.period.from_ = none →
    ∃ v ∈ datedStates l, v.validity.start = .negativeInfinity
  to_ : ∀ e ∈ es, e.period.to_ = none →
    ∃ v ∈ datedStates l, v.validity.stop = .positiveInfinity

theorem unboundedAsWanted_written (set : SetOrder) (l : List ClassValidity) :
    UnboundedAsWanted
      (((set.order (datedStates l)).map Keeper.dates.wanted).foldl (overwrite id) []) l where
  from_ e he hnone := by
    obtain ⟨f, hf, hfrom⟩ := (unbounded_of_mem_foldl_overwrite he).1 hnone
    obtain ⟨v, hv, rfl⟩ := List.mem_map.mp hf
    exact ⟨v, set.mem_order.mp hv, start_of_unbounded hfrom⟩
  to_ e he hnone := by
    obtain ⟨f, hf, hto⟩ := (unbounded_of_mem_foldl_overwrite he).2 hnone
    obtain ⟨v, hv, rfl⟩ := List.mem_map.mp hf
    exact ⟨v, set.mem_order.mp hv, stop_of_unbounded hto⟩

section
variable {klasse : Klasse} {facet : UUID} {l : List ClassValidity}
  (hdanish : ∀ d ∈ klasse.bounds, ¬ d.Infinite → DanishTime d)
  (h : fkkKlasseToClassValidities klasse facet = .ok l)
  {es : List (Entry Int ClassValues)} (hes : UnboundedAsWanted es l)
  {u : ClassValidity} (hu : u ∈ l) {e : Entry Int ClassValues} (he : e ∈ es)
include hdanish h hes hu he

/-- A start that is read as it was written is one that MO keeps. -/
theorem kept_start (heq : (Keeper.dates.readBack e).start = u.withValidityAsDates.start) :
    KeptByMo u.validity.start := by
  have heq : (Keeper.dates.readBack e).start = u.validity.start.truncateTime.instant := heq
  obtain ⟨hmin, hlt, hmax⟩ := between_of_yielded hdanish h hu
  have hread := start_readBack e
  rw [heq] at hread
  by_cases hinf : u.validity.start.Infinite
  · rw [Datetime.truncateTime_infinite hinf] at hread
    have hzero : u.validity.start.instant = 0 := by
      refine hinf.resolve_right fun hlast => ?_
      rw [Datetime.instant_positiveInfinity] at hlast
      omega
    rcases hread with ⟨_, hnone⟩ | ⟨date, hdate⟩
    · obtain ⟨v, hv, hstart⟩ := hes.from_ e he hnone
      obtain ⟨⟨u', hu', rfl⟩, _⟩ := mem_datedStates h hv
      have hsentinel : u'.validity.start = .negativeInfinity := eq_negativeInfinity hstart
      obtain ⟨_, hlt', _⟩ := between_of_yielded hdanish h hu'
      rw [hsentinel, Datetime.instant_negativeInfinity] at hlt'
      -- both start at the infinity, so they are the same state
      have hsame : u = u' := by
        apply eq_of_overlap h hu hu'
        · exact hzero.trans_lt hlt'
        · rw [ClassValidity.start, hsentinel]
          exact hzero.symm.trans_lt hlt
      rw [hsame, hsentinel]
      trivial
    · exact absurd (Or.inl (hdate.symm.trans hzero)) (danishMidnight_finite date)
  · have htime := (danish_of_yielded hdanish h hu).1 hinf
    obtain ⟨wall, tz, hstart⟩ := Datetime.eq_timestamp_of_finite hinf
    rw [hstart] at htime hinf hread ⊢
    rcases hread with ⟨hzero, _⟩ | ⟨date, hdate⟩
    · exact absurd (Or.inl hzero) htime.truncateTime_finite
    · exact ⟨hinf, (htime.truncateTime_eq.mp hdate).1⟩

theorem kept_stop (heq : (Keeper.dates.readBack e).stop = u.withValidityAsDates.stop) :
    KeptByMo u.validity.stop := by
  have heq : (Keeper.dates.readBack e).stop = u.validity.stop.truncateTime.instant := heq
  obtain ⟨hmin, hlt, hmax⟩ := between_of_yielded hdanish h hu
  have hread := stop_readBack e
  rw [heq] at hread
  by_cases hinf : u.validity.stop.Infinite
  · rw [Datetime.truncateTime_infinite hinf] at hread
    have hlast : u.validity.stop.instant = maxWall := by
      refine hinf.resolve_left fun hzero => ?_
      rw [Datetime.instant_negativeInfinity] at hzero
      omega
    rcases hread with ⟨_, hnone⟩ | ⟨date, hdate⟩
    · obtain ⟨v, hv, hstop⟩ := hes.to_ e he hnone
      obtain ⟨⟨u', hu', rfl⟩, _⟩ := mem_datedStates h hv
      have hsentinel : u'.validity.stop = .positiveInfinity := eq_positiveInfinity hstop
      obtain ⟨_, hlt', _⟩ := between_of_yielded hdanish h hu'
      rw [hsentinel, Datetime.instant_positiveInfinity] at hlt'
      have hsame : u = u' := by
        apply eq_of_overlap h hu hu'
        · rw [ClassValidity.stop, hsentinel]
          exact hlt.trans_eq hlast
        · exact hlt'.trans_eq hlast.symm
      rw [hsame, hsentinel]
      trivial
    · exact absurd (Or.inr (hdate.symm.trans hlast)) (danishMidnight_finite date)
  · have htime := (danish_of_yielded hdanish h hu).2 hinf
    obtain ⟨wall, tz, hstop⟩ := Datetime.eq_timestamp_of_finite hinf
    rw [hstop] at htime hinf hread ⊢
    rcases hread with ⟨hlast, _⟩ | ⟨date, hdate⟩
    · exact absurd (Or.inr hlast) htime.truncateTime_finite
    · exact ⟨hinf, (htime.truncateTime_eq.mp hdate).1⟩

end

/-- When what was written is found again, MO keeps the bounds. -/
theorem truncatesToMidnight_of_same {klasse : Klasse} {facet : UUID} {l : List ClassValidity}
    (hdanish : ∀ d ∈ klasse.bounds, ¬ d.Infinite → DanishTime d)
    (h : fkkKlasseToClassValidities klasse facet = .ok l) {es : List (Entry Int ClassValues)}
    (hes : UnboundedAsWanted es l)
    (hsame : KeyedSet.Same ClassValidity.value (es.map Keeper.dates.readBack) (datedStates l)) :
    TruncatesToMidnight klasse := by
  intro a b hpiece
  obtain ⟨u, hu, hval⟩ := exists_yielded_of_long h hpiece
  have hdated := mem_dated_of_long h hu (by rwa [hval])
  have hfound := (hsame _).mpr (List.mem_map_of_mem hdated)
  rw [List.map_map] at hfound
  obtain ⟨e, he, heq⟩ := List.mem_map.mp hfound
  have hstart := kept_start hdanish h hes hu he (congrArg Value.start heq)
  have hstop := kept_stop hdanish h hes hu he (congrArg Value.stop heq)
  rw [hval] at hstart hstop
  exact ⟨hstart, hstop⟩

/-! ## The next synchronisation -/

/-- A synchronisation returns without a mutation, and finds the class up to date
unless the one before would not delete it. -/
def Quiet (kle uuid : UUID) (set : SetOrder) (before : SyncStatus)
    (s : Systems (ClassStates Int)) : Prop :=
  ∃ status s' calls, (sync uuid set).run (Systems.handle Keeper.dates.mo kle) s =
      (.ok status, s', calls) ∧
    (∀ c ∈ calls, ¬ c.IsMutation) ∧ (before = .wontDelete ∨ status = .upToDate)

section
variable {kle uuid : UUID} {set : SetOrder} {before : SyncStatus}
  {s : Systems (ClassStates Int)} {moClass : Option GetClassObject}
  {actual desired : List ClassValidity}
  (hmo : only (Keeper.dates.mo.getClass (s.classes uuid)) = .ok moClass)
  (hactual : actualStates moClass = .ok actual)
  (hdesired : desiredStates (s.read uuid) kle = .ok desired)
include hmo hactual hdesired

theorem quiet_of_same (h : KeyedSet.Same ClassValidity.value actual desired) :
    Quiet kle uuid set before s := by
  have hreconcile : reconcile uuid set moClass kle actual desired = ret .upToDate := if_pos h
  have hrun := Systems.run_sync hmo hactual hdesired (by rw [hreconcile, run_ret])
  refine ⟨_, _, _, hrun, ?_, Or.inr rfl⟩
  simp [Call.IsMutation]

/-- With something desired that differs, the run makes a mutation. -/
theorem not_quiet (hne : desired ≠ []) (h : ¬ KeyedSet.Same ClassValidity.value actual desired) :
    ¬ Quiet kle uuid set before s := by
  rintro ⟨status, s', calls, hrun, hnone, _⟩
  obtain ⟨m, k, hreconcile⟩ := reconcile_mutates uuid set moClass kle hne h
  obtain ⟨out, s'', calls', hrest⟩ : ∃ out s'' calls',
      (reconcile uuid set moClass kle actual desired).run (Systems.handle Keeper.dates.mo kle) s =
        (out, s'', calls') := ⟨_, _, _, rfl⟩
  have hsync := Systems.run_sync hmo hactual hdesired hrest
  rw [hreconcile] at hrest
  obtain ⟨later, _, rfl⟩ := run_call.mp hrest
  have hcalls := congrArg (fun r => r.2.2) (hrun.symm.trans hsync)
  dsimp only at hcalls
  subst hcalls
  exact hnone (.mutate m) (by simp) trivial

end

/-- What is desired is up to date exactly when MO shows it. -/
theorem same_iff_shows {klasse : Klasse} {kle uuid : UUID} {s : Systems (ClassStates Int)}
    {moClass : Option GetClassObject} {actual l : List ClassValidity}
    (h : fkkKlasseToClassValidities klasse kle = .ok l)
    (hmo : only (Keeper.dates.mo.getClass (s.classes uuid)) = .ok moClass)
    (hactual : actualStates moClass = .ok actual) :
    KeyedSet.Same ClassValidity.value actual (datedStates l) ↔
      Shows (s.classes uuid) klasse kle := by
  apply forall_congr'
  intro x
  rw [Keeper.read_class hmo hactual x, mem_dated_values h, List.map_map, List.mem_map]
  rfl

/-- What was written and MO keeps is read back. -/
theorem same_of_kept {klasse : Klasse} {kle : UUID} {set : SetOrder} {l : List ClassValidity}
    {actual : List ClassValidity} (hdanish : ∀ d ∈ klasse.bounds, ¬ d.Infinite → DanishTime d)
    (h : fkkKlasseToClassValidities klasse kle = .ok l) (hkept : TruncatesToMidnight klasse)
    (hactual : actualStates (some ⟨(((set.order (datedStates l)).map
      Keeper.dates.wanted).foldl (overwrite id) []).map Keeper.dates.report⟩) = .ok actual) :
    KeyedSet.Same ClassValidity.value actual (datedStates l) := by
  have hperm : ((set.order (datedStates l)).map Keeper.dates.wanted).Perm
      ((datedStates l).map Keeper.dates.wanted) := (set.perm _).map _
  rw [foldl_overwrite_nil ((disjoint_dates hdanish h hkept).perm hperm.symm)] at hactual
  have hvalue : ∀ v ∈ datedStates l,
      (Keeper.dates.readBack (Keeper.dates.wanted v)).value = v.value := by
    intro v hv
    obtain ⟨u, hu, rfl, hpiece⟩ := longPiece_of_dated h hv
    exact value_readBack_dates hdanish h hu (hkept _ _ hpiece)
  have hsame : ((set.order (datedStates l)).map Keeper.dates.wanted |>.map Keeper.dates.readBack
      |>.map ClassValidity.value) = (set.order (datedStates l)).map ClassValidity.value := by
    rw [List.map_map, List.map_map]
    exact List.map_congr_left fun v hv => hvalue v (set.mem_order.mp hv)
  intro x
  rw [Keeper.actual_readBack hactual x, hsame]
  exact ((set.perm (datedStates l)).map ClassValidity.value).mem_iff

/-- What was written, and nothing else, is found by the next synchronisation
exactly when MO keeps it. -/
theorem quiet_written_iff {klasse : Klasse} {kle uuid : UUID} {set set' : SetOrder}
    {before : SyncStatus} {s : Systems (ClassStates Int)} {l : List ClassValidity}
    {es : List (Entry Int ClassValues)}
    (hread : s.read uuid = some klasse)
    (hdanish : ∀ d ∈ klasse.bounds, ¬ d.Infinite → DanishTime d)
    (h : fkkKlasseToClassValidities klasse kle = .ok l) (hne : datedStates l ≠ [])
    (hes : es = ((set.order (datedStates l)).map Keeper.dates.wanted).foldl (overwrite id) [])
    (hstates : s.classes uuid = some es) :
    Quiet kle uuid set' before s ↔ TruncatesToMidnight klasse := by
  have hdesired : desiredStates (s.read uuid) kle = .ok (datedStates l) := by
    rw [hread]
    exact desiredStates_some.mpr ⟨l, h, rfl⟩
  constructor
  · intro hquiet
    have ⟨_, _, _, hrun, _⟩ := hquiet
    obtain ⟨moClass, actual, _, _, hmo, hactual, _⟩ := Systems.exists_of_run_sync hrun
    have hsame : KeyedSet.Same ClassValidity.value actual (datedStates l) := by
      by_contra hdiffer
      exact not_quiet hmo hactual hdesired hne hdiffer hquiet
    have hreported := Keeper.read_class hmo hactual
    rw [hstates] at hreported
    apply truncatesToMidnight_of_same hdanish h _ (hreported.symm.trans hsame)
    rw [hes]
    exact unboundedAsWanted_written set l
  · intro hkept
    have hrange : ∀ e ∈ es, e.period.Bounds InRange := by
      rw [hes]
      apply bounds_of_mem_foldl_overwrite
      · intro e he
        cases he
      · intro e he
        obtain ⟨v, hv, rfl⟩ := List.mem_map.mp he
        obtain ⟨u, hu, rfl, hpiece⟩ := longPiece_of_dated h (set.mem_order.mp hv)
        exact inRange_wanted hdanish h hu (hkept _ _ hpiece)
    obtain ⟨actual, hactual⟩ := exists_actual hrange
    have hmo : only (Keeper.dates.mo.getClass (s.classes uuid)) =
        .ok (some ⟨es.map Keeper.dates.report⟩) := by
      rw [hstates]
      rfl
    apply quiet_of_same hmo hactual hdesired
    rw [hes] at hactual
    exact same_of_kept hdanish h hkept hactual

/-- A Klasse without a long piece asks nothing of MO. -/
theorem truncatesToMidnight_of_empty {klasse : Klasse} {facet : UUID} {l : List ClassValidity}
    (h : fkkKlasseToClassValidities klasse facet = .ok l) (hempty : datedStates l = []) :
    TruncatesToMidnight klasse := by
  intro a b hpiece
  obtain ⟨v, hv, _⟩ := exists_dated_of_long h hpiece
  rw [hempty] at hv
  cases hv

/-- A Klasse that ends at the start of the day on which summer time does. -/
def summerKlasse : Klasse :=
  .single 7 "85.15.02" "IT-sikkerhed"
    ⟨.ofDate 2010 6 1 0 cest, .ofDate 2010 10 31 0 cest, by decide, by decide⟩

/-- A Klasse that starts later on that day, when clocks are back on +01:00. -/
def winterKlasse : Klasse :=
  .single 7 "85.15.02" "IT-sikkerhed"
    ⟨.ofDate 2010 10 31 (10 * hour) cet, .ofDate 2011 1 1 0 cet, by decide, by decide⟩

end Os2moFkk
