import Os2moFkk.Split

/-!
# The desired states

What a synchronisation wants to see in MO: the states of the Klasse with their
bounds truncated to dates, without those that last a day or less.
-/

namespace Os2moFkk

/-- MO does not support objects with a validity less than a day. -/
def SingleDay (v : ClassValidity) : Prop := v.stop - v.start ≤ day

instance (v : ClassValidity) : Decidable (SingleDay v) := inferInstanceAs (Decidable (_ ≤ _))

/-- The set that is left of the converted states. An empty set stays as it is,
so the source's test for one is left out. -/
def datedStates (converted : List ClassValidity) : List ClassValidity :=
  let desired := KeyedSet.ofList ClassValidity.value converted
  let dated := KeyedSet.ofList ClassValidity.value (desired.map ClassValidity.withValidityAsDates)
  dated.filter fun v => ¬ SingleDay v

/-- The desired states of what FKK returned. -/
def desiredStates (klasse : Option Klasse) (facet : UUID) : Except Error (List ClassValidity) :=
  match klasse with
  | none => .ok []
  | some klasse => (fkkKlasseToClassValidities klasse facet).map datedStates

theorem desiredStates_some {klasse : Klasse} {facet : UUID} {desired : List ClassValidity} :
    desiredStates (some klasse) facet = .ok desired ↔
      ∃ l, fkkKlasseToClassValidities klasse facet = .ok l ∧ datedStates l = desired := by
  rw [desiredStates]
  cases fkkKlasseToClassValidities klasse facet <;> simp [Except.map]

/-- No two desired states are equal. -/
theorem distinct_datedStates (l : List ClassValidity) :
    KeyedSet.Distinct ClassValidity.value (datedStates l) :=
  List.Pairwise.filter _ (KeyedSet.distinct_ofList _ _)

section
variable {klasse : Klasse} {facet : UUID} {l : List ClassValidity}
  (h : fkkKlasseToClassValidities klasse facet = .ok l)
include h

theorem aware_of_yielded {v : ClassValidity} (hv : v ∈ l) :
    v.validity.start.Aware ∧ v.validity.stop.Aware := by
  obtain ⟨hstart, hstop⟩ := mem_bounds_of_mem_intervals (yielded h hv).1
  exact ⟨Klasse.aware_of_mem_bounds hstart, Klasse.aware_of_mem_bounds hstop⟩

theorem start_lt_stop_of_yielded {v : ClassValidity} (hv : v ∈ l) : v.start < v.stop :=
  start_lt_stop (yielded h hv).1

/-- Two yielded states that overlap are the same one. -/
theorem eq_of_overlap {v w : ClassValidity} (hv : v ∈ l) (hw : w ∈ l) (hvw : v.start < w.stop)
    (hwv : w.start < v.stop) : v = w := by
  rcases Sweep.eq_or_rel_of_mem (yielded_ascending h) hv hw with he | hle | hle
  · exact he
  · exact absurd hwv (not_lt.mpr hle)
  · exact absurd hvw (not_lt.mpr hle)

/-- Converting already leaves no two equal states. -/
theorem distinct_of_yielded : KeyedSet.Distinct ClassValidity.value l := by
  apply List.Pairwise.imp_of_mem _ (yielded_ascending h)
  intro v w hv _ hle he
  have hstart : v.start = w.start := congrArg Value.start he
  have := start_lt_stop_of_yielded h hv
  omega

theorem mem_datedStates {v : ClassValidity} (hv : v ∈ datedStates l) :
    (∃ u ∈ l, v = u.withValidityAsDates) ∧ ¬ SingleDay v := by
  obtain ⟨hm, hs⟩ := List.mem_filter.mp hv
  have hm := KeyedSet.mem_of_mem_ofList hm
  rw [KeyedSet.ofList_of_distinct (distinct_of_yielded h)] at hm
  obtain ⟨u, hu, rfl⟩ := List.mem_map.mp hm
  exact ⟨⟨u, hu, rfl⟩, by simpa using hs⟩

/-- A yielded state that lasts for more than a day after truncation is desired,
up to equality. -/
theorem exists_datedStates {u : ClassValidity} (hu : u ∈ l)
    (hs : ¬ SingleDay u.withValidityAsDates) :
    ∃ v ∈ datedStates l, v.value = u.withValidityAsDates.value := by
  have hm : u.withValidityAsDates ∈ l.map ClassValidity.withValidityAsDates :=
    List.mem_map_of_mem hu
  obtain ⟨v, hv, he⟩ : ∃ v ∈ KeyedSet.ofList ClassValidity.value
      (l.map ClassValidity.withValidityAsDates), v.value = u.withValidityAsDates.value :=
    KeyedSet.exists_mem_ofList hm
  have hstart : v.start = u.withValidityAsDates.start := congrArg Value.start he
  have hstop : v.stop = u.withValidityAsDates.stop := congrArg Value.stop he
  have hv' : ¬ SingleDay v := by rwa [SingleDay, hstart, hstop]
  refine ⟨v, List.mem_filter.mpr ⟨?_, by simpa using hv'⟩, he⟩
  rwa [KeyedSet.ofList_of_distinct (distinct_of_yielded h)]

end

section
variable {klasse : Option Klasse} {facet uuid : UUID} {desired : List ClassValidity}
  (h : desiredStates klasse facet = .ok desired) {v : ClassValidity} (hv : v ∈ desired)
include h hv

/-- A desired state is a yielded one with truncated bounds. -/
theorem exists_yielded : ∃ k l u, klasse = some k ∧ fkkKlasseToClassValidities k facet = .ok l ∧
    u ∈ l ∧ v = u.withValidityAsDates ∧ ¬ SingleDay v := by
  cases klasse with
  | none =>
    obtain rfl : [] = desired := Except.ok.inj h
    cases hv
  | some klasse =>
    obtain ⟨l, hconv, rfl⟩ := desiredStates_some.mp h
    obtain ⟨⟨u, hu, heq⟩, hs⟩ := mem_datedStates hconv hv
    exact ⟨klasse, l, u, rfl, hconv, hu, heq, hs⟩

/-- Desired states have the UUID of the Klasse and the facet asked for. -/
theorem uuid_of_desired (hk : ∀ k, klasse = some k → k.uuid = uuid) :
    v.uuid = uuid ∧ v.facet = facet := by
  obtain ⟨k, l, u, rfl, hconv, hu, rfl, _⟩ := exists_yielded h hv
  obtain ⟨entries, _, hval⟩ := (yielded hconv hu).2 u.start le_rfl
    (start_lt_stop_of_yielded hconv hu)
  rw [hval]
  exact ⟨hk k rfl, rfl⟩

/-- The bounds of a desired state are representable, and more than a day apart. -/
theorem bounds_of_desired : v.validity.start.Aware ∧ v.validity.stop.Aware ∧
    day < v.stop - v.start := by
  obtain ⟨k, l, u, rfl, hconv, hu, rfl, hs⟩ := exists_yielded h hv
  obtain ⟨hstart, hstop⟩ := aware_of_yielded hconv hu
  exact ⟨hstart.truncateTime, hstop.truncateTime, not_le.mp hs⟩

end

/-! ## The days that a desired state covers -/

/-- The midnight at or before a datetime in the calendar of an offset; an
infinity is its own midnight. -/
def midnight (o : Offset) (d : Datetime) : Int :=
  if d.Infinite then d.instant else floorDay (d.instant + o.micros) - o.micros

/-- When the date with this ordinal begins in the calendar of an offset. -/
def dateStartAt (o : Offset) (date : Int) : Int := dateStart date - o.micros

/-- A state covers a date when it holds from its first instant to its last. -/
def Covers (o : Offset) (v : ClassValidity) (date : Int) : Prop :=
  v.start ≤ dateStartAt o date ∧ dateStartAt o (date + 1) ≤ v.stop

/-- All finite timestamps of a Klasse carry one offset. -/
def OneOffset (klasse : Klasse) (o : Offset) : Prop :=
  ∀ d ∈ klasse.bounds, ¬ d.Infinite → d.offset = o.micros

instance (klasse : Klasse) (o : Offset) : Decidable (OneOffset klasse o) :=
  inferInstanceAs (Decidable (∀ d ∈ klasse.bounds, ¬ d.Infinite → d.offset = o.micros))

/-- The dates at which flooring is compared leave a year at both ends. -/
def InnerDate (date : Int) : Prop := toOrdinal 2 1 1 ≤ date ∧ date ≤ toOrdinal 9998 12 31

/-- The infinities lie before and after every inner date. -/
theorem infinite_le_dateStart {o : Offset} {d : Datetime} (hf : d.Infinite) {date : Int}
    (hd : InnerDate date) :
    d.instant ≤ dateStartAt o date ↔ d.instant < dateStartAt o (date + 1) := by
  obtain ⟨hlo, hhi⟩ := hd
  have hfirst : toOrdinal 2 1 1 = 366 := by decide
  have hlast : toOrdinal 9998 12 31 = 3651694 := by decide
  have hmax := maxWall_eq
  have := o.lower
  have := o.upper
  rcases hf with he | he <;> rw [he]
  · rw [Datetime.instant_negativeInfinity]
    unfold dateStartAt dateStart day at *
    omega
  · rw [Datetime.instant_positiveInfinity]
    unfold dateStartAt dateStart day at *
    omega

section
variable {o : Offset} {d : Datetime} (ha : d.Aware) (ho : ¬ d.Infinite → d.offset = o.micros)
include ha ho

theorem truncateTime_eq_midnight : d.truncateTime.instant = midnight o d := by
  unfold midnight
  split
  · rename_i hf
    rw [Datetime.truncateTime_infinite hf]
  · rename_i hf
    rw [Datetime.instant_truncateTime ha hf, ho hf]

theorem truncateTime_le_dateStart {date : Int} (hd : InnerDate date) :
    d.truncateTime.instant ≤ dateStartAt o date ↔ d.instant < dateStartAt o (date + 1) := by
  by_cases hf : d.Infinite
  · rw [Datetime.truncateTime_infinite hf]
    exact infinite_le_dateStart hf hd
  · rw [truncateTime_eq_midnight ha ho, midnight, if_neg hf]
    unfold dateStartAt dateStart floorDay day
    omega

theorem dateStart_le_truncateTime {date : Int} :
    dateStartAt o (date + 1) ≤ d.truncateTime.instant ↔ dateStartAt o (date + 1) ≤ d.instant := by
  by_cases hf : d.Infinite
  · rw [Datetime.truncateTime_infinite hf]
  · rw [truncateTime_eq_midnight ha ho, midnight, if_neg hf]
    unfold dateStartAt dateStart floorDay day
    omega

end

/-- What the truncated states say of a date: each covers it when the untruncated
one begins before the date ends and does not end before it does. -/
theorem covers_withValidityAsDates {o : Offset} {u : ClassValidity} {date : Int}
    (ha : u.validity.start.Aware ∧ u.validity.stop.Aware)
    (ho : ∀ d, d = u.validity.start ∨ d = u.validity.stop → ¬ d.Infinite → d.offset = o.micros)
    (hd : InnerDate date) :
    Covers o u.withValidityAsDates date ↔
      u.start < dateStartAt o (date + 1) ∧ dateStartAt o (date + 1) ≤ u.stop :=
  and_congr (truncateTime_le_dateStart ha.1 (ho _ (Or.inl rfl)) hd)
    (dateStart_le_truncateTime ha.2 (ho _ (Or.inr rfl)))

/-- The values of a state without its validity. -/
def ClassValidity.values (v : ClassValidity) : UUID × UUID × String × String × Option UUID :=
  (v.facet, v.uuid, v.userKey, v.name, v.parent)

theorem ClassValidity.values_of_value {v w : ClassValidity} (h : v.value = w.value) :
    v.values = w.values := by
  simp only [ClassValidity.value, Value.mk.injEq] at h
  obtain ⟨hfacet, _, _, huuid, hkey, hname, hparent⟩ := h
  simp only [ClassValidity.values, hfacet, huuid, hkey, hname, hparent]

/-- The desired states, date by date: at most one covers a date, and one with
given values does exactly when the conversion yields a state with those values
that begins before the midnight ending the date, does not end before it and
lasts for more than a day from midnight to midnight. -/
theorem desired_day_meaning {klasse : Klasse} {facet : UUID} {l desired : List ClassValidity}
    (h : fkkKlasseToClassValidities klasse facet = .ok l)
    (hdesired : desiredStates (some klasse) facet = .ok desired) (o : Offset)
    (ho : OneOffset klasse o) (date : Int) (hd : InnerDate date) :
    (∀ v ∈ desired, ∀ w ∈ desired, Covers o v date → Covers o w date → v = w) ∧
    ∀ values, (∃ v ∈ desired, Covers o v date ∧ v.values = values) ↔
      ∃ u ∈ l, u.values = values ∧ u.start < dateStartAt o (date + 1) ∧
        dateStartAt o (date + 1) ≤ u.stop ∧
        day < midnight o u.validity.stop - midnight o u.validity.start := by
  obtain ⟨l', h', rfl⟩ := desiredStates_some.mp hdesired
  obtain rfl : l = l' := Except.ok.inj (h.symm.trans h')
  have offsets : ∀ u ∈ l, ∀ d, d = u.validity.start ∨ d = u.validity.stop → ¬ d.Infinite →
      d.offset = o.micros := by
    intro u hu d hd'
    obtain ⟨hstart, hstop⟩ := mem_bounds_of_mem_intervals (yielded h hu).1
    rcases hd' with rfl | rfl
    · exact ho _ hstart
    · exact ho _ hstop
  have covers : ∀ u ∈ l, Covers o u.withValidityAsDates date ↔
      u.start < dateStartAt o (date + 1) ∧ dateStartAt o (date + 1) ≤ u.stop := by
    intro u hu
    exact covers_withValidityAsDates (aware_of_yielded h hu) (offsets u hu) hd
  have lasts : ∀ u ∈ l, ¬ SingleDay u.withValidityAsDates ↔
      day < midnight o u.validity.stop - midnight o u.validity.start := by
    intro u hu
    obtain ⟨hstart, hstop⟩ := aware_of_yielded h hu
    rw [← truncateTime_eq_midnight hstart (offsets u hu _ (Or.inl rfl)),
      ← truncateTime_eq_midnight hstop (offsets u hu _ (Or.inr rfl))]
    exact not_le
  constructor
  · intro v hv w hw hcv hcw
    obtain ⟨⟨u, hu, rfl⟩, _⟩ := mem_datedStates h hv
    obtain ⟨⟨u', hu', rfl⟩, _⟩ := mem_datedStates h hw
    obtain ⟨hlo, hhi⟩ := (covers u hu).mp hcv
    obtain ⟨hlo', hhi'⟩ := (covers u' hu').mp hcw
    rw [eq_of_overlap h hu hu' (hlo.trans_le hhi') (hlo'.trans_le hhi)]
  · intro values
    constructor
    · rintro ⟨v, hv, hc, rfl⟩
      obtain ⟨⟨u, hu, rfl⟩, hs⟩ := mem_datedStates h hv
      obtain ⟨hlo, hhi⟩ := (covers u hu).mp hc
      exact ⟨u, hu, rfl, hlo, hhi, (lasts u hu).mp hs⟩
    · rintro ⟨u, hu, rfl, hlo, hhi, hday⟩
      obtain ⟨v, hv, he⟩ := exists_datedStates h hu ((lasts u hu).mpr hday)
      obtain ⟨hstart, hstop⟩ := (covers u hu).mpr ⟨hlo, hhi⟩
      refine ⟨v, hv, ⟨?_, ?_⟩, ?_⟩
      · rwa [show v.start = u.withValidityAsDates.start from congrArg Value.start he]
      · rwa [show v.stop = u.withValidityAsDates.stop from congrArg Value.stop he]
      · have hvalues : v.values = u.withValidityAsDates.values := ClassValidity.values_of_value he
        exact hvalues

theorem desired_day_meaning_itSikkerhed :
    ∃ desired, desiredStates (some itSikkerhed) 1 = .ok desired ∧
      ∃ v ∈ desired, Covers cet v (toOrdinal 2000 1 1) ∧
        v.values = (1, itSikkerhed.uuid, "85.15.02", "IT-sikkerhed",
          some 0x00d7f055790f4c2aa79f9373d242dd2f) := by
  have h : fkkKlasseToClassValidities itSikkerhed 1 = .ok _ := rfl
  have hdesired : desiredStates (some itSikkerhed) 1 = .ok _ := rfl
  obtain ⟨_, meaning⟩ := desired_day_meaning h hdesired cet (by decide) (toOrdinal 2000 1 1)
    ⟨by decide, by decide⟩
  exact ⟨_, hdesired, (meaning _).mpr ⟨_, List.mem_cons_of_mem _ List.mem_cons_self, rfl,
    by decide, by decide, by decide⟩⟩

end Os2moFkk
