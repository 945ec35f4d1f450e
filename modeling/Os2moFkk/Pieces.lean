import Os2moFkk.Desired

/-!
# Pieces of a Klasse

The conversion yields a state for each piece between neighbouring timestamps in
which the Klasse is published.
-/

namespace Os2moFkk
open Itertools

/-- A publiceret entry in force says published, and one Egenskab is in force. -/
def Published (klasse : Klasse) (t : Int) : Prop :=
  (∃ p ∈ inForce klasse.tilstandPubliceret t, p.erPubliceret = true) ∧
    ∃ a, inForce klasse.attributEgenskab t = [a]

/-- Two timestamps of the Klasse with none between them. -/
def Neighbours (klasse : Klasse) (a b : Datetime) : Prop :=
  a.instant < b.instant ∧ ∀ c ∈ klasse.bounds, c.instant ≤ a.instant ∨ b.instant ≤ c.instant

/-- Of equal timestamps of the Klasse, the one that it mentions first. -/
def FirstMentioned (klasse : Klasse) (d : Datetime) : Prop :=
  klasse.bounds.find? (·.instant = d.instant) = some d

/-- Between these neighbours the Klasse is published, and for more than a day
after truncation. -/
structure LongPiece (klasse : Klasse) (a b : Datetime) : Prop where
  first : FirstMentioned klasse a
  last : FirstMentioned klasse b
  neighbours : Neighbours klasse a b
  published : Published klasse a.instant
  lasts : day < b.truncateTime.instant - a.truncateTime.instant

/-- A long piece has these values, with its bounds truncated. -/
def Wants (klasse : Klasse) (facet : UUID) (x : Value) : Prop :=
  ∃ a b entries, LongPiece klasse a b ∧ stateAt klasse a.instant = .ok (some entries) ∧
    x = (classOf klasse facet ⟨a, b⟩ entries).withValidityAsDates.value

/-! ## First mentions -/

theorem mem_timestamps {klasse : Klasse} {d : Datetime} :
    d ∈ timestamps klasse ↔ FirstMentioned klasse d := KeyedSet.mem_ofList_iff

theorem FirstMentioned.mem_bounds {klasse : Klasse} {d : Datetime} (h : FirstMentioned klasse d) :
    d ∈ klasse.bounds := List.mem_of_find?_eq_some h

theorem FirstMentioned.aware {klasse : Klasse} {d : Datetime} (h : FirstMentioned klasse d) :
    d.Aware := Klasse.aware_of_mem_bounds h.mem_bounds

theorem FirstMentioned.eq_of_instant {klasse : Klasse} {c d : Datetime}
    (hc : FirstMentioned klasse c) (hd : FirstMentioned klasse d) (h : c.instant = d.instant) :
    c = d := by
  unfold FirstMentioned at hc hd
  rw [h, hd] at hc
  exact (Option.some.inj hc).symm

theorem firstMentioned_of_mem_intervals {klasse : Klasse} {i : Datetime × Datetime}
    (hi : i ∈ intervals klasse) : FirstMentioned klasse i.1 ∧ FirstMentioned klasse i.2 := by
  obtain ⟨hstart, hstop⟩ := mem_of_mem_pairwise hi
  exact ⟨mem_timestamps.mp (Sweep.mem_sorted.mp hstart),
    mem_timestamps.mp (Sweep.mem_sorted.mp hstop)⟩

/-! ## Pieces that are kept apart -/

/-- Two neighbouring pairs are the same instants or do not overlap. -/
theorem Neighbours.eq_or_apart {klasse : Klasse} {a b c d : Datetime}
    (h : Neighbours klasse a b) (h' : Neighbours klasse c d) (ha : a ∈ klasse.bounds)
    (hb : b ∈ klasse.bounds) (hc : c ∈ klasse.bounds) (hd : d ∈ klasse.bounds) :
    (a.instant = c.instant ∧ b.instant = d.instant) ∨ b.instant ≤ c.instant ∨
      d.instant ≤ a.instant := by
  obtain ⟨hlt, hout⟩ := h
  obtain ⟨hlt', hout'⟩ := h'
  have := hout c hc
  have := hout d hd
  have := hout' a ha
  have := hout' b hb
  omega

/-- A later long piece starts later also after truncation, in any Klasse. -/
theorem LongPiece.truncated_ne {klasse klasse' : Klasse} {a b c d : Datetime}
    (h : LongPiece klasse a b) (h' : LongPiece klasse' c d) (hle : b.instant ≤ c.instant) :
    a.truncateTime.instant ≠ c.truncateTime.instant := by
  have hstop := Datetime.truncateTime_le h.last.aware
  have hstart := Datetime.lt_truncateTime_add h'.first.aware
  have hlasts := h.lasts
  omega

/-! ## Published pieces -/

theorem stateAt_of_published {klasse : Klasse} {t : Int} (h : Published klasse t)
    (hdefined : ∃ y, stateAt klasse t = .ok y) :
    ∃ entries, stateAt klasse t = .ok (some entries) := by
  obtain ⟨⟨p, hp, her⟩, a, ha⟩ := h
  obtain ⟨y, hy⟩ := hdefined
  obtain ⟨p', hone, _⟩ := bind_eq_ok.mp hy
  have hsingle := one_eq_ok.mp hone
  obtain rfl : p = p' := List.mem_singleton.mp (hsingle ▸ hp)
  have hs := stateAt_published hsingle her ha
  cases ho : only (inForce klasse.relationOverordnet t) with
  | error e => rw [hs, ho] at hy; cases hy
  | ok o => exact ⟨(a, o), by rw [hs, ho]; rfl⟩

theorem published_of_stateAt {klasse : Klasse} {t : Int}
    {entries : Egenskab × Option OverordnetRelation} (h : stateAt klasse t = .ok (some entries)) :
    Published klasse t := by
  obtain ⟨attr, parent⟩ := entries
  obtain ⟨⟨p, hp, her⟩, ha, _⟩ := stateAt_eq_some.mp h
  exact ⟨⟨p, hp ▸ List.mem_singleton_self p, her⟩, attr, ha⟩

/-- There is an interval around an instant at which the Klasse is published. -/
theorem exists_interval_of_published {klasse : Klasse} {t : Int} (hp : Published klasse t) :
    ∃ i ∈ intervals klasse, i.1.instant ≤ t ∧ t < i.2.instant := by
  obtain ⟨⟨p, hp, _⟩, _⟩ := hp
  apply exists_interval_of_inForce klasse hp
  intro obj hm
  simp [Klasse.virkninger, List.mem_map_of_mem hm]

section
variable {klasse : Klasse} {facet : UUID} {l : List ClassValidity}
  (h : fkkKlasseToClassValidities klasse facet = .ok l)
include h

theorem mem_bounds_of_yielded {u : ClassValidity} (hu : u ∈ l) :
    u.validity.start ∈ klasse.bounds ∧ u.validity.stop ∈ klasse.bounds :=
  mem_bounds_of_mem_intervals (yielded h hu).1

/-- A yielded state lies between neighbours, and the Klasse is published there. -/
theorem piece_of_yielded {u : ClassValidity} (hu : u ∈ l) :
    Neighbours klasse u.validity.start u.validity.stop ∧
      Published klasse u.validity.start.instant := by
  obtain ⟨hi, hstate⟩ := yielded h hu
  have hlt := start_lt_stop hi
  obtain ⟨entries, hat, _⟩ := hstate u.start le_rfl hlt
  exact ⟨⟨hlt, fun c hc => bound_outside hi hc⟩, published_of_stateAt hat⟩

/-- Between neighbours where the Klasse is published, a state is yielded. -/
theorem exists_yielded_between {a b : Datetime} (ha : a ∈ klasse.bounds) (hb : b ∈ klasse.bounds)
    (hneighbours : Neighbours klasse a b) (hpublished : Published klasse a.instant) :
    ∃ u ∈ l, u.start = a.instant ∧ u.stop = b.instant := by
  obtain ⟨hlt, hbetween⟩ := hneighbours
  obtain ⟨i, hi, hlo, hhi⟩ := exists_interval ha hb le_rfl hlt
  obtain ⟨_, hstop⟩ := mem_bounds_of_mem_intervals hi
  obtain ⟨entries, hs⟩ := stateAt_of_published hpublished (stateAt_defined h hi hlo hhi)
  refine ⟨_, yielded_of_stateAt h hi hlo hhi hs, ?_, ?_⟩
  · change i.1.instant = a.instant
    have := bound_outside hi ha
    omega
  · change i.2.instant = b.instant
    have := bound_outside hi hb
    have := hbetween i.2 hstop
    omega

/-- A desired state is a long piece with truncated bounds. -/
theorem longPiece_of_dated {v : ClassValidity} (hv : v ∈ datedStates l) :
    ∃ u ∈ l, v = u.withValidityAsDates ∧
      LongPiece klasse u.validity.start u.validity.stop := by
  obtain ⟨⟨u, hu, rfl⟩, hday⟩ := mem_datedStates h hv
  obtain ⟨hfirst, hlast⟩ := firstMentioned_of_mem_intervals (yielded h hu).1
  obtain ⟨hneighbours, hpublished⟩ := piece_of_yielded h hu
  exact ⟨u, hu, rfl, hfirst, hlast, hneighbours, hpublished, not_le.mp hday⟩

/-- A state is yielded for each long piece. -/
theorem exists_yielded_of_long {a b : Datetime} (hpiece : LongPiece klasse a b) :
    ∃ u ∈ l, u.validity = ⟨a, b⟩ := by
  obtain ⟨u, hu, hua, hub⟩ := exists_yielded_between h hpiece.first.mem_bounds
    hpiece.last.mem_bounds hpiece.neighbours hpiece.published
  obtain ⟨hfirst, hlast⟩ := firstMentioned_of_mem_intervals (yielded h hu).1
  obtain rfl := hfirst.eq_of_instant hpiece.first hua
  obtain rfl := hlast.eq_of_instant hpiece.last hub
  exact ⟨u, hu, rfl⟩

/-- It is desired, with its bounds truncated. -/
theorem mem_dated_of_long {u : ClassValidity} (hu : u ∈ l)
    (hpiece : LongPiece klasse u.validity.start u.validity.stop) :
    u.withValidityAsDates ∈ datedStates l := by
  obtain ⟨v, hv, heq⟩ := exists_datedStates h hu (not_le.mpr hpiece.lasts)
  obtain ⟨w, hw, rfl, hpiece'⟩ := longPiece_of_dated h hv
  have hstart : w.validity.start.truncateTime.instant = u.validity.start.truncateTime.instant :=
    congrArg Value.start heq
  rcases Sweep.eq_or_rel_of_mem (yielded_ascending h) hw hu with rfl | hle | hle
  · exact hv
  · exact absurd hstart (hpiece'.truncated_ne hpiece hle)
  · exact absurd hstart.symm (hpiece.truncated_ne hpiece' hle)

/-- What is desired are the long pieces, and nothing else. -/
theorem mem_dated_values {x : Value} :
    x ∈ (datedStates l).map ClassValidity.value ↔ Wants klasse facet x := by
  constructor
  · intro hx
    obtain ⟨v, hv, rfl⟩ := List.mem_map.mp hx
    obtain ⟨u, hu, rfl, hpiece⟩ := longPiece_of_dated h hv
    obtain ⟨entries, hstate, heq⟩ := (yielded h hu).2 u.start le_rfl (start_lt_stop_of_yielded h hu)
    exact ⟨_, _, entries, hpiece, hstate, congrArg (fun w => w.withValidityAsDates.value) heq⟩
  · rintro ⟨a, b, entries, hpiece, hstate, rfl⟩
    obtain ⟨u, hu, hval⟩ := exists_yielded_of_long h hpiece
    have hstart := start_lt_stop_of_yielded h hu
    obtain ⟨entries', hstate', heq⟩ := (yielded h hu).2 u.start le_rfl hstart
    have hdated := mem_dated_of_long h hu (by rwa [hval])
    rw [ClassValidity.start, hval] at hstate'
    obtain rfl : entries = entries' := by
      rw [hstate] at hstate'
      exact Option.some.inj (Except.ok.inj hstate')
    rw [hval] at heq
    exact List.mem_map.mpr ⟨_, hdated, congrArg (fun w => w.withValidityAsDates.value) heq⟩

/-- There is a desired state for each long piece. -/
theorem exists_dated_of_long {a b : Datetime} (hpiece : LongPiece klasse a b) :
    ∃ v ∈ datedStates l, v.start = a.truncateTime.instant ∧ v.stop = b.truncateTime.instant := by
  obtain ⟨u, hu, hval⟩ := exists_yielded_of_long h hpiece
  refine ⟨_, mem_dated_of_long h hu (by rwa [hval]), ?_, ?_⟩
  · rw [ClassValidity.start, ClassValidity.withValidityAsDates, hval]
  · rw [ClassValidity.stop, ClassValidity.withValidityAsDates, hval]

end

end Os2moFkk
