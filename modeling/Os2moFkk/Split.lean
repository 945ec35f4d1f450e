import Os2moFkk.ClassValidity

/-!
# The temporal split

The conversion of a Klasse never looks at an instant: it compares entries with
the intervals between neighbouring timestamps. Here it is related to what is in
force at each instant. `stateAt` is the meaning of the Klasse at an instant,
and every interval the conversion walks has one such meaning throughout
(`between_eq_stateAt`).
-/

namespace Os2moFkk
open Itertools

/-- The meaning of a Klasse at an instant: undefined (it raises), no class, or
the entries that give the class its values. -/
def stateAt (klasse : Klasse) (t : Int) :
    Except Error (Option (Egenskab × Option OverordnetRelation)) := do
  let published ← one (inForce klasse.tilstandPubliceret t)
  if !published.erPubliceret then
    return none
  else
    match one (inForce klasse.attributEgenskab t) with
    | .error _ => return none
    | .ok attr =>
      let parent ← only (inForce klasse.relationOverordnet t)
      return some (attr, parent)

/-- The class that the entries of an instant give, with a validity around it. -/
def classOf (klasse : Klasse) (facet : UUID) (validity : Validity)
    (entries : Egenskab × Option OverordnetRelation) : ClassValidity where
  facet := facet
  validity := validity
  uuid := klasse.uuid
  userKey := entries.1.brugervendtnoegle
  name := entries.1.titel
  parent := entries.2.map OverordnetRelation.uuid

/-- The intervals that the conversion walks. -/
def intervals (klasse : Klasse) : List (Datetime × Datetime) :=
  pairwise (Sweep.sorted Datetime.instant (timestamps klasse))

theorem ascending_timestamps (klasse : Klasse) :
    Sweep.Ascending Datetime.instant (Sweep.sorted Datetime.instant (timestamps klasse)) :=
  Sweep.ascending_sorted (KeyedSet.distinct_ofList _ _)

/-- Every bound has an equal timestamp among the sorted ones. -/
theorem exists_timestamp {klasse : Klasse} {d : Datetime} (h : d ∈ klasse.bounds) :
    ∃ x ∈ Sweep.sorted Datetime.instant (timestamps klasse), x.instant = d.instant := by
  obtain ⟨x, hx, he⟩ : ∃ x ∈ timestamps klasse, x.instant = d.instant :=
    KeyedSet.exists_mem_ofList h
  exact ⟨x, Sweep.mem_sorted.mpr hx, he⟩

theorem mem_bounds_of_mem_intervals {klasse : Klasse} {i : Datetime × Datetime}
    (h : i ∈ intervals klasse) : i.1 ∈ klasse.bounds ∧ i.2 ∈ klasse.bounds := by
  have hm := mem_of_mem_pairwise h
  exact ⟨KeyedSet.mem_of_mem_ofList (Sweep.mem_sorted.mp hm.1),
    KeyedSet.mem_of_mem_ofList (Sweep.mem_sorted.mp hm.2)⟩

theorem start_lt_stop {klasse : Klasse} {i : Datetime × Datetime} (h : i ∈ intervals klasse) :
    i.1.instant < i.2.instant :=
  Sweep.lt_of_mem_pairwise (ascending_timestamps klasse) h

/-- No bound of an entry lies strictly inside an interval. -/
theorem bound_outside {klasse : Klasse} {i : Datetime × Datetime} (hi : i ∈ intervals klasse)
    {d : Datetime} (hd : d ∈ klasse.bounds) :
    d.instant ≤ i.1.instant ∨ i.2.instant ≤ d.instant := by
  obtain ⟨x, hx, he⟩ := exists_timestamp hd
  rw [← he]
  exact Sweep.not_between (ascending_timestamps klasse) hi hx

/-- The intervals cover the time from the earliest to the latest bound. -/
theorem exists_interval {klasse : Klasse} {a b : Datetime} (ha : a ∈ klasse.bounds)
    (hb : b ∈ klasse.bounds) {t : Int} (hat : a.instant ≤ t) (htb : t < b.instant) :
    ∃ i ∈ intervals klasse, i.1.instant ≤ t ∧ t < i.2.instant := by
  obtain ⟨x, hx, hxa⟩ := exists_timestamp ha
  obtain ⟨y, hy, hyb⟩ := exists_timestamp hb
  exact Sweep.exists_interval (ascending_timestamps klasse) hx hy (hxa ▸ hat) (hyb ▸ htb)

section
variable {klasse : Klasse} {i : Datetime × Datetime} {t : Int}

/-- Comparing with the interval selects what is in force at a point of it. -/
theorem filterVirkning_eq_inForce {α : Type} [HasVirkning α] (objects : List α)
    (hi : i ∈ intervals klasse) (hlo : i.1.instant ≤ t) (hhi : t < i.2.instant)
    (hobj : ∀ obj ∈ objects, virkning obj ∈ klasse.virkninger) :
    filterVirkning objects i.1 i.2 = inForce objects t := by
  apply List.filter_congr
  intro obj hm
  have hv := hobj obj hm
  have hfra : (virkning obj).fra ∈ klasse.bounds := Klasse.mem_bounds.mpr ⟨_, hv, Or.inl rfl⟩
  have htil : (virkning obj).til ∈ klasse.bounds := Klasse.mem_bounds.mpr ⟨_, hv, Or.inr rfl⟩
  exact decide_eq_decide.mpr
    (Sweep.overlap_iff hlo hhi (bound_outside hi hfra) (bound_outside hi htil))

theorem between_eq_stateAt (facet : UUID) (hi : i ∈ intervals klasse) (hlo : i.1.instant ≤ t)
    (hhi : t < i.2.instant) :
    classValidityBetween klasse facet i =
      (stateAt klasse t).map (·.map (classOf klasse facet { start := i.1, stop := i.2 })) := by
  have hp := filterVirkning_eq_inForce klasse.tilstandPubliceret hi hlo hhi
    fun obj hm => by simp [Klasse.virkninger, List.mem_map_of_mem hm]
  have ha := filterVirkning_eq_inForce klasse.attributEgenskab hi hlo hhi
    fun obj hm => by simp [Klasse.virkninger, List.mem_map_of_mem hm]
  have ho := filterVirkning_eq_inForce klasse.relationOverordnet hi hlo hhi
    fun obj hm => by simp [Klasse.virkninger, List.mem_map_of_mem hm]
  simp only [classValidityBetween, stateAt, hp, ha, ho]
  cases one (inForce klasse.tilstandPubliceret t) with
  | error e => rfl
  | ok published =>
    simp only [ok_bind]
    cases published.erPubliceret with
    | false => rfl
    | true =>
      cases one (inForce klasse.attributEgenskab t) with
      | error e => rfl
      | ok attr => cases only (inForce klasse.relationOverordnet t) <;> rfl

end

/-- There is a class at an instant when exactly one entry says published and
exactly one gives the values, below at most one parent. -/
theorem stateAt_eq_some {klasse : Klasse} {t : Int} {attr : Egenskab}
    {parent : Option OverordnetRelation} :
    stateAt klasse t = .ok (some (attr, parent)) ↔
      (∃ p, inForce klasse.tilstandPubliceret t = [p] ∧ p.erPubliceret = true) ∧
      inForce klasse.attributEgenskab t = [attr] ∧
      inForce klasse.relationOverordnet t = parent.toList := by
  simp only [stateAt, bind_eq_ok, one_eq_ok, ← exists_and_right]
  apply exists_congr
  intro p
  rw [and_assoc]
  apply and_congr_right
  intro _
  cases p.erPubliceret with
  | false => simp
  | true =>
    cases ha : one (inForce klasse.attributEgenskab t) with
    | error e =>
      have hne : inForce klasse.attributEgenskab t ≠ [attr] := by
        intro h
        rw [one_eq_ok.mpr h] at ha
        cases ha
      simp [hne]
    | ok a =>
      rw [one_eq_ok.mp ha]
      cases ho : only (inForce klasse.relationOverordnet t) with
      | error e =>
        have hne : inForce klasse.relationOverordnet t ≠ parent.toList := by
          intro h
          rw [only_eq_ok.mpr h] at ho
          cases ho
        simp [hne]
      | ok o =>
        rw [only_eq_ok.mp ho]
        cases o <;> cases parent <;> simp

/-- The conversion is undefined at an instant when the number of publiceret
entries is not one, or a published class has more than one parent. -/
def Undefined (klasse : Klasse) (t : Int) : Prop :=
  (inForce klasse.tilstandPubliceret t).length ≠ 1 ∨
    (∃ p, inForce klasse.tilstandPubliceret t = [p] ∧ p.erPubliceret = true) ∧
    (inForce klasse.attributEgenskab t).length = 1 ∧
    1 < (inForce klasse.relationOverordnet t).length

theorem stateAt_eq_error {klasse : Klasse} {t : Int} {e : Error} :
    stateAt klasse t = .error e ↔ e = .valueError ∧ Undefined klasse t := by
  unfold stateAt Undefined
  cases hp : one (inForce klasse.tilstandPubliceret t) with
  | error e' =>
    obtain ⟨rfl, hlen⟩ := one_eq_error.mp hp
    simp only [error_bind, Except.error.injEq, ne_eq, hlen, not_false_eq_true, true_or, and_true]
    exact eq_comm
  | ok p =>
    rw [one_eq_ok.mp hp]
    cases her : p.erPubliceret with
    | false => simp [her]
    | true =>
      cases ha : one (inForce klasse.attributEgenskab t) with
      | error e' => simp [her, (one_eq_error.mp ha).2]
      | ok a =>
        rw [one_eq_ok.mp ha]
        cases ho : only (inForce klasse.relationOverordnet t) with
        | error e' =>
          obtain ⟨rfl, hlen⟩ := only_eq_error.mp ho
          simp [her, hlen]
          exact eq_comm
        | ok o =>
          rw [only_eq_ok.mp ho]
          cases o <;> simp [her]

theorem stateAt_published {klasse : Klasse} {t : Int} {p : PubliceretTilstand} {a : Egenskab}
    (hp : inForce klasse.tilstandPubliceret t = [p]) (her : p.erPubliceret = true)
    (ha : inForce klasse.attributEgenskab t = [a]) :
    stateAt klasse t = (only (inForce klasse.relationOverordnet t)).map fun o => some (a, o) := by
  simp only [stateAt, hp, ha, one, ok_bind, her]
  cases only (inForce klasse.relationOverordnet t) <;> rfl

section
variable {klasse : Klasse} {facet : UUID}

/-- The states that a conversion yields, by the interval each comes from. -/
theorem mem_conversion {l : List ClassValidity}
    (h : fkkKlasseToClassValidities klasse facet = .ok l) (v : ClassValidity) :
    v ∈ l ↔ ∃ i ∈ intervals klasse, classValidityBetween klasse facet i = .ok (some v) :=
  mem_collect h v

/-- An interval yields its state exactly when its instants have that class. -/
theorem between_eq_some {i : Datetime × Datetime} (hi : i ∈ intervals klasse) {t : Int}
    (hlo : i.1.instant ≤ t) (hhi : t < i.2.instant) {v : ClassValidity} :
    classValidityBetween klasse facet i = .ok (some v) ↔
      ∃ entries, stateAt klasse t = .ok (some entries) ∧
        v = classOf klasse facet { start := i.1, stop := i.2 } entries := by
  rw [between_eq_stateAt facet hi hlo hhi]
  cases stateAt klasse t with
  | error e => simp [Except.map]
  | ok y => cases y <;> simp [Except.map, eq_comm]

/-- A yielded state has the bounds of its interval. -/
theorem validity_of_between {i : Datetime × Datetime} (hi : i ∈ intervals klasse)
    {v : ClassValidity} (hv : classValidityBetween klasse facet i = .ok (some v)) :
    v.validity = { start := i.1, stop := i.2 } := by
  obtain ⟨entries, _, rfl⟩ := (between_eq_some hi le_rfl (start_lt_stop hi)).mp hv
  rfl

/-- A yielded state comes from the interval between its own bounds, which have
the class it describes throughout. -/
theorem yielded {l : List ClassValidity} (h : fkkKlasseToClassValidities klasse facet = .ok l)
    {v : ClassValidity} (hv : v ∈ l) :
    (v.validity.start, v.validity.stop) ∈ intervals klasse ∧
    ∀ t, v.start ≤ t → t < v.stop → ∃ entries, stateAt klasse t = .ok (some entries) ∧
      v = classOf klasse facet v.validity entries := by
  obtain ⟨i, hi, hb⟩ := (mem_conversion h v).mp hv
  have hval := validity_of_between hi hb
  refine ⟨by rw [hval]; exact hi, fun t hlo hhi => ?_⟩
  simp only [ClassValidity.start, ClassValidity.stop, hval] at hlo hhi
  rw [hval]
  exact (between_eq_some hi hlo hhi).mp hb

/-- Nothing is undefined between the bounds of a Klasse whose conversion ends
normally. -/
theorem stateAt_defined {l : List ClassValidity}
    (h : fkkKlasseToClassValidities klasse facet = .ok l) {i : Datetime × Datetime}
    (hi : i ∈ intervals klasse) {t : Int} (hlo : i.1.instant ≤ t) (hhi : t < i.2.instant) :
    ∃ y, stateAt klasse t = .ok y := by
  obtain ⟨y, hy⟩ := collect_each_ok h hi
  rw [between_eq_stateAt facet hi hlo hhi] at hy
  cases hs : stateAt klasse t with
  | error e => rw [hs] at hy; cases hy
  | ok y' => exact ⟨y', rfl⟩

/-- A class at an instant is yielded with the interval around that instant. -/
theorem yielded_of_stateAt {l : List ClassValidity}
    (h : fkkKlasseToClassValidities klasse facet = .ok l) {i : Datetime × Datetime}
    (hi : i ∈ intervals klasse) {t : Int} (hlo : i.1.instant ≤ t) (hhi : t < i.2.instant)
    {entries : Egenskab × Option OverordnetRelation}
    (hs : stateAt klasse t = .ok (some entries)) :
    classOf klasse facet { start := i.1, stop := i.2 } entries ∈ l :=
  (mem_conversion h _).mpr ⟨i, hi, (between_eq_some hi hlo hhi).mpr ⟨entries, hs, rfl⟩⟩

/-- An entry in force lies between bounds of its Klasse. -/
theorem exists_interval_of_inForce (klasse : Klasse) {α : Type} [HasVirkning α]
    {objects : List α} {obj : α} {t : Int}
    (hm : obj ∈ inForce objects t) (hobj : ∀ obj ∈ objects, virkning obj ∈ klasse.virkninger) :
    ∃ i ∈ intervals klasse, i.1.instant ≤ t ∧ t < i.2.instant := by
  obtain ⟨hmem, hforce⟩ := List.mem_filter.mp hm
  have hforce : (virkning obj).InForce t := of_decide_eq_true hforce
  have hv := hobj obj hmem
  exact exists_interval (Klasse.mem_bounds.mpr ⟨_, hv, Or.inl rfl⟩)
    (Klasse.mem_bounds.mpr ⟨_, hv, Or.inr rfl⟩) hforce.1 hforce.2

/-- The yielded states follow one another. -/
theorem yielded_ascending {l : List ClassValidity}
    (h : fkkKlasseToClassValidities klasse facet = .ok l) :
    l.Pairwise fun v w => v.stop ≤ w.start := by
  apply pairwise_collect h (Sweep.pairwise_pairwise (ascending_timestamps klasse))
  intro i hi j hj hij v w hv hw
  rw [ClassValidity.stop, ClassValidity.start, validity_of_between hi hv,
    validity_of_between hj hw]
  exact hij

end

/-- The conversion raises, always a `ValueError`, exactly when it is undefined
at some instant between the earliest and the latest bound. -/
theorem conversion_raises_iff (klasse : Klasse) (facet : UUID) (e : Error) :
    fkkKlasseToClassValidities klasse facet = .error e ↔
      e = .valueError ∧ ∃ t, (∃ a ∈ klasse.bounds, a.instant ≤ t) ∧
        (∃ b ∈ klasse.bounds, t < b.instant) ∧ Undefined klasse t := by
  have between : ∀ i ∈ intervals klasse, ∀ t, i.1.instant ≤ t → t < i.2.instant → ∀ e,
      classValidityBetween klasse facet i = .error e ↔ e = .valueError ∧ Undefined klasse t := by
    intro i hi t hlo hhi e
    rw [between_eq_stateAt facet hi hlo hhi, ← stateAt_eq_error]
    cases stateAt klasse t <;> simp [Except.map]
  constructor
  · intro h
    obtain ⟨i, hi, he⟩ := collect_error h
    obtain ⟨rfl, hu⟩ := (between i hi i.1.instant le_rfl (start_lt_stop hi) e).mp he
    obtain ⟨hstart, hstop⟩ := mem_bounds_of_mem_intervals hi
    exact ⟨rfl, i.1.instant, ⟨i.1, hstart, le_rfl⟩, ⟨i.2, hstop, start_lt_stop hi⟩, hu⟩
  · rintro ⟨rfl, t, ⟨a, ha, hat⟩, ⟨b, hb, htb⟩, hu⟩
    obtain ⟨i, hi, hlo, hhi⟩ := exists_interval ha hb hat htb
    cases h : fkkKlasseToClassValidities klasse facet with
    | ok l =>
      obtain ⟨y, hy⟩ := collect_each_ok h hi
      rw [(between i hi t hlo hhi _).mpr ⟨rfl, hu⟩] at hy
      cases hy
    | error e =>
      obtain ⟨j, hj, he⟩ := collect_error h
      rw [((between j hj j.1.instant le_rfl (start_lt_stop hj) e).mp he).1]

/-- Where the conversion ends normally it says, instant by instant, what the
entries in force say: the states ascend, are not empty and do not overlap, and
there is one at an instant exactly when one publiceret entry in force says
published and one Egenskab is in force, whose values it then has. -/
theorem split_pointwise {klasse : Klasse} {facet : UUID} {l : List ClassValidity}
    (h : fkkKlasseToClassValidities klasse facet = .ok l) :
    (l.Pairwise fun v w => v.stop ≤ w.start) ∧ (∀ v ∈ l, v.start < v.stop) ∧
    ∀ t, ((∃ v ∈ l, v.start ≤ t ∧ t < v.stop) ↔
        (∃ p, inForce klasse.tilstandPubliceret t = [p] ∧ p.erPubliceret = true) ∧
        ∃ a, inForce klasse.attributEgenskab t = [a]) ∧
      ∀ v ∈ l, v.start ≤ t → t < v.stop →
        v.uuid = klasse.uuid ∧ v.facet = facet ∧
        (∃ a, inForce klasse.attributEgenskab t = [a] ∧
          v.userKey = a.brugervendtnoegle ∧ v.name = a.titel) ∧
        ((inForce klasse.relationOverordnet t = [] ∧ v.parent = none) ∨
          ∃ o, inForce klasse.relationOverordnet t = [o] ∧ v.parent = some o.uuid) := by
  refine ⟨yielded_ascending h, fun v hv => start_lt_stop (yielded h hv).1, fun t => ⟨⟨?_, ?_⟩, ?_⟩⟩
  · rintro ⟨v, hv, hlo, hhi⟩
    obtain ⟨⟨a, o⟩, hs, _⟩ := (yielded h hv).2 t hlo hhi
    obtain ⟨hp, ha, _⟩ := stateAt_eq_some.mp hs
    exact ⟨hp, a, ha⟩
  · rintro ⟨⟨p, hp, her⟩, a, ha⟩
    obtain ⟨i, hi, hlo, hhi⟩ := exists_interval_of_inForce klasse
      (hp ▸ List.mem_singleton_self p)
      fun obj hm => by simp [Klasse.virkninger, List.mem_map_of_mem hm]
    obtain ⟨y, hy⟩ := stateAt_defined h hi hlo hhi
    have hs := stateAt_published hp her ha
    cases ho : only (inForce klasse.relationOverordnet t) with
    | error e => rw [hs, ho] at hy; cases hy
    | ok o =>
      rw [ho] at hs
      exact ⟨_, yielded_of_stateAt h hi hlo hhi hs, hlo, hhi⟩
  · intro v hv hlo hhi
    obtain ⟨⟨a, o⟩, hs, hval⟩ := (yielded h hv).2 t hlo hhi
    obtain ⟨_, ha, ho⟩ := stateAt_eq_some.mp hs
    rw [hval]
    refine ⟨rfl, rfl, ⟨a, ha, rfl, rfl⟩, ?_⟩
    cases o with
    | none => exact Or.inl ⟨ho, rfl⟩
    | some o => exact Or.inr ⟨o, ho, rfl⟩

/-- A Klasse that changes its parent and its title and is unpublished for ten
years. -/
def itSikkerhed : Klasse :=
  let y1988 := Datetime.ofDate 1988 1 1 0 cet
  let y1996 := Datetime.ofDate 1996 7 29 0 cet
  let y2001 := Datetime.ofDate 2001 9 11 0 cet
  let y2037 := Datetime.ofDate 2037 3 3 0 cet
  let y2047 := Datetime.ofDate 2047 4 4 0 cet
  { uuid := 0x0095665f3685498b8ba72339d05a5bda
    attributEgenskab := [
      ⟨⟨y1988, y2001, by decide, by decide⟩, "85.15.02", "IT-sikkerhed"⟩,
      ⟨⟨y2001, .positiveInfinity, by decide, trivial⟩, "85.15.1984", "IT-sikkerhed (ulovlig)"⟩]
    tilstandPubliceret := [
      ⟨⟨y1988, y2037, by decide, by decide⟩, true⟩,
      ⟨⟨y2037, y2047, by decide, by decide⟩, false⟩,
      ⟨⟨y2047, .positiveInfinity, by decide, trivial⟩, true⟩]
    relationOverordnet := [
      ⟨⟨y1988, y1996, by decide, by decide⟩, 0x8f847ae9cc68414a81b36444b46d8480⟩,
      ⟨⟨y1996, .positiveInfinity, by decide, trivial⟩, 0x00d7f055790f4c2aa79f9373d242dd2f⟩] }

theorem split_pointwise_itSikkerhed :
    ∃ l, fkkKlasseToClassValidities itSikkerhed 1 = .ok l ∧ l.length = 4 ∧
      (l.Pairwise fun v w => v.stop ≤ w.start) ∧ (∀ v ∈ l, v.start < v.stop) ∧
      ∃ v ∈ l, v.start ≤ dateStart (toOrdinal 2000 1 1) ∧
        dateStart (toOrdinal 2000 1 1) < v.stop := by
  have h : fkkKlasseToClassValidities itSikkerhed 1 = .ok _ := rfl
  obtain ⟨ascending, nonempty, pointwise⟩ := split_pointwise h
  exact ⟨_, h, rfl, ascending, nonempty, (pointwise _).1.mpr ⟨⟨_, rfl, rfl⟩, _, rfl⟩⟩

end Os2moFkk
