import Os2moFkk.Copenhagen
import Os2moFkk.Pieces
import Os2moFkk.Sync

/-!
# When a class is deleted

A class is deleted when nothing is desired. A Klasse that is published desires
nothing when `one` rejects its Egenskaber, or when it is cut into pieces of a
day or less.
-/

namespace Os2moFkk
open Itertools Prog

/-- The date of an instant, counted from the start of the year 1. -/
def Zone.dateOf (z : Zone) (t : Int) : Int := (t + z.offsetAt t) / day

/-- The zone is east of Greenwich, or west of it, throughout. -/
def Zone.OneSided (z : Zone) : Prop := (∀ t, 0 ≤ z.offsetAt t) ∨ ∀ t, z.offsetAt t < 0

/-- The finite timestamps of the Klasse carry the offsets in force in the zone. -/
def WrittenIn (z : Zone) (klasse : Klasse) : Prop :=
  ∀ d ∈ klasse.bounds, ¬ d.Infinite → d.offset = z.offsetAt d.instant

/-- The zone that keeps an offset. -/
def Zone.fixed (o : Offset) : Zone where
  offsetAt _ := o.micros
  utcoffset _ := o.micros
  lower _ := o.lower
  upper _ := o.upper
  midnight_iff _ _ := eq_sub_iff_add_eq.symm
  date_mono _ _ h := Int.ediv_le_ediv day_pos (by omega)

theorem Zone.oneSided_fixed (o : Offset) : (Zone.fixed o).OneSided :=
  (le_or_gt 0 o.micros).imp (fun h _ => h) (fun h _ => h)

theorem oneSided_copenhagen : copenhagen.OneSided := by
  left
  intro t
  have hor : copenhagen.offsetAt t = hour ∨ copenhagen.offsetAt t = 2 * hour := summerOffset_or _ _
  unfold hour at hor
  omega

/-- With all timestamps at one offset, they are written in its zone. -/
theorem OneOffset.writtenIn {klasse : Klasse} {o : Offset} (h : OneOffset klasse o) :
    WrittenIn (.fixed o) klasse := h

theorem writtenIn_copenhagen {klasse : Klasse}
    (h : ∀ d ∈ klasse.bounds, ¬ d.Infinite → DanishTime d) : WrittenIn copenhagen klasse := by
  intro d hd hinf
  have htime := h d hd hinf
  obtain ⟨wall, tz, rfl⟩ := Datetime.eq_timestamp_of_finite hinf
  exact htime.offset_eq

/-- Where truncation puts a timestamp: at the start of its date, or at the
infinity that it is. -/
theorem place_of_truncated {z : Zone} {d : Datetime} (ha : d.Aware)
    (hz : ¬ d.Infinite → d.offset = z.offsetAt d.instant) :
    (d.truncateTime.instant = z.dateOf d.instant * day - z.offsetAt d.instant ∧
      0 ≤ z.dateOf d.instant ∧ z.dateOf d.instant < 3652059) ∨
    (d.truncateTime.instant = 0 ∨ d.truncateTime.instant = maxWall) ∧
      z.dateOf d.instant * day ≤ d.truncateTime.instant + z.offsetAt d.instant ∧
      d.truncateTime.instant + z.offsetAt d.instant < (z.dateOf d.instant + 1) * day := by
  have hmax := maxWall_eq
  by_cases hinf : d.Infinite
  · right
    rw [Datetime.truncateTime_infinite hinf, Zone.dateOf]
    refine ⟨hinf, ?_⟩
    unfold day
    omega
  · left
    obtain ⟨wall, o, rfl, hlo, hhi⟩ := ha.finite hinf
    have hwall : (Datetime.timestamp wall (.fixed o)).instant +
        z.offsetAt (Datetime.timestamp wall (.fixed o)).instant = wall := by
      rw [← hz hinf]
      exact Int.sub_add_cancel wall o.micros
    rw [Datetime.instant_truncateTime ha hinf, hz hinf, Zone.dateOf, hwall]
    unfold floorDay day at *
    omega

section
variable {klasse : Klasse} {facet : UUID} {l : List ClassValidity}
  (h : fkkKlasseToClassValidities klasse facet = .ok l)
include h

/-- A class in an interval that lasts for more than a day after truncation is
desired. -/
theorem desired_of_interval {i : Datetime × Datetime} (hi : i ∈ intervals klasse) {t : Int}
    (hlo : i.1.instant ≤ t) (hhi : t < i.2.instant) (hp : Published klasse t)
    (hday : day < i.2.truncateTime.instant - i.1.truncateTime.instant) : datedStates l ≠ [] := by
  obtain ⟨entries, hs⟩ := stateAt_of_published hp (stateAt_defined h hi hlo hhi)
  have hm := yielded_of_stateAt h hi hlo hhi hs
  obtain ⟨v, hv, _⟩ := exists_datedStates h hm (not_le.mpr hday)
  exact List.ne_nil_of_mem hv

/-- A stretch of 48 hours without a timestamp inside lies in one interval, of
which truncation takes less than a day. -/
theorem desired_of_stretch {s e : Int} (hlen : s + 2 * day ≤ e)
    (hp : ∀ t, s ≤ t → t < e → Published klasse t)
    (hbounds : ∀ d ∈ klasse.bounds, ¬ (s < d.instant ∧ d.instant < e)) : datedStates l ≠ [] := by
  have hday := day_pos
  have hfirst : Published klasse s := hp _ le_rfl (by omega)
  obtain ⟨i, hi, hlo, hhi⟩ := exists_interval_of_published hfirst
  obtain ⟨hstart, hstop⟩ := mem_bounds_of_mem_intervals hi
  have hend : e ≤ i.2.instant := by
    by_contra hlt
    exact hbounds i.2 hstop ⟨hhi, not_le.mp hlt⟩
  apply desired_of_interval h hi hlo hhi hfirst
  have hdown := Datetime.truncateTime_le (Klasse.aware_of_mem_bounds hstart)
  have hup := Datetime.lt_truncateTime_add (Klasse.aware_of_mem_bounds hstop)
  omega

/-- With the timestamps written in a zone, a date on which none of them falls is
enough: truncation leaves it, and the date before. -/
theorem desired_of_date {z : Zone} (hside : z.OneSided) (hz : WrittenIn z klasse) {t : Int}
    (hp : Published klasse t) (hfree : ∀ d ∈ klasse.bounds, z.dateOf d.instant ≠ z.dateOf t) :
    datedStates l ≠ [] := by
  obtain ⟨i, hi, hlo, hhi⟩ := exists_interval_of_published hp
  obtain ⟨hstart, hstop⟩ := mem_bounds_of_mem_intervals hi
  have hbefore : z.dateOf i.1.instant < z.dateOf t :=
    lt_of_le_of_ne (z.date_mono _ _ hlo) (hfree _ hstart)
  have hafter : z.dateOf t < z.dateOf i.2.instant :=
    lt_of_le_of_ne (z.date_mono _ _ hhi.le) (hfree _ hstop).symm
  apply desired_of_interval h hi hlo hhi hp
  have hfirst := place_of_truncated (Klasse.aware_of_mem_bounds hstart) (hz _ hstart)
  have hlast := place_of_truncated (Klasse.aware_of_mem_bounds hstop) (hz _ hstop)
  have hlower := z.lower i.1.instant
  have hupper := z.upper i.2.instant
  have hmax := maxWall_eq
  have hor : (0 ≤ z.offsetAt i.1.instant ∧ 0 ≤ z.offsetAt i.2.instant) ∨
      (z.offsetAt i.1.instant < 0 ∧ z.offsetAt i.2.instant < 0) :=
    hside.imp (fun heast => ⟨heast _, heast _⟩) (fun hwest => ⟨hwest _, hwest _⟩)
  unfold day at *
  omega

end

/-- A deletion means that nothing is desired of what FKK answered. -/
theorem desired_of_delete {uuid u : UUID} {set : SetOrder} {fkkKlasse : Option Klasse}
    {tr : List ((c : Call) × Answer c)} {p : SyncProg}
    (h : Makes (sync uuid set) (⟨Call.read uuid, fkkKlasse⟩ :: tr) p)
    (hdel : ⟨Call.mutate (.deleteClass u), ()⟩ ∈ tr) :
    ∃ facet, desiredStates fkkKlasse facet = .ok [] := by
  have hmakes : Makes (syncKlasse uuid set fkkKlasse) tr p := by
    rw [sync_eq] at h
    cases h with
    | cons hrest => exact hrest
  have hcalls : (syncKlasse uuid set fkkKlasse).Calls (fun _ _ => True) fun c =>
      ∀ u, c = Call.mutate (.deleteClass u) →
        ∃ facet, desiredStates fkkKlasse facet = .ok [] := by
    have updates : ∀ l, (updateAll l).Calls (fun _ _ => True) fun c =>
        ∀ u, c = Call.mutate (.deleteClass u) →
          ∃ facet, desiredStates fkkKlasse facet = .ok [] := by
      intro l
      apply updateAll_always trivial
      intro v rest _ u hc
      cases hc
    apply syncKlasse_always
    · intro e
      trivial
    · intro c k hc u he
      exact absurd (he ▸ trivial) hc.not_mutation
    · intro _ _ moClass facet actual desired p _ _ _ _ _ hdesired plan
      cases plan with
      | upToDate | assertion | wontDelete => trivial
      | delete c _ hempty => exact ⟨fun _ _ => ⟨facet, hempty ▸ hdesired⟩, fun _ _ => trivial⟩
      | create _ v rest =>
        refine ⟨fun u hc => ?_, fun _ _ => updates rest⟩
        cases hc
      | truncate =>
        refine ⟨fun u hc => ?_, fun _ _ => updates _⟩
        cases hc
  exact hcalls.makes hmakes (fun _ _ => trivial) _ hdel u rfl

/-- When a synchronisation deletes a class, FKK has no Klasse or the Klasse has no
long piece: it is nowhere published for 48 hours without a timestamp inside, and,
with its timestamps written in a zone, on no date on which none of them falls. -/
theorem deleted_only_unpublished {uuid u : UUID} {set : SetOrder} {fkkKlasse : Option Klasse}
    {tr : List ((c : Call) × Answer c)} {p : SyncProg}
    (h : Makes (sync uuid set) (⟨Call.read uuid, fkkKlasse⟩ :: tr) p)
    (hdel : ⟨Call.mutate (.deleteClass u), ()⟩ ∈ tr) :
    fkkKlasse = none ∨ ∃ klasse, fkkKlasse = some klasse ∧ (∀ a b, ¬ LongPiece klasse a b) ∧
      (∀ s e, s + 2 * day ≤ e → (∀ t, s ≤ t → t < e → Published klasse t) →
        ∃ d ∈ klasse.bounds, s < d.instant ∧ d.instant < e) ∧
      ∀ z : Zone, z.OneSided → WrittenIn z klasse → ∀ t, Published klasse t →
        ∃ d ∈ klasse.bounds, z.dateOf d.instant = z.dateOf t := by
  cases fkkKlasse with
  | none => exact Or.inl rfl
  | some klasse =>
    obtain ⟨facet, hempty⟩ := desired_of_delete h hdel
    obtain ⟨l, hconv, hnil⟩ := desiredStates_some.mp hempty
    refine Or.inr ⟨klasse, rfl, ?_, ?_, ?_⟩
    · intro a b hpiece
      obtain ⟨v, hv, _⟩ := exists_dated_of_long hconv hpiece
      rw [hnil] at hv
      cases hv
    · intro s e hlen hp
      by_contra hnone
      push Not at hnone
      exact desired_of_stretch hconv hlen hp (fun d hd hin => by
        have := hnone d hd hin.1; omega) hnil
    · intro z hside hz t hp
      by_contra hnone
      push Not at hnone
      exact desired_of_date hconv hside hz hp hnone hnil

/-- A property holds throughout the `n` dates from the date `first` on. -/
def Throughout (o : Offset) (first n : Int) (P : Int → Prop) : Prop :=
  ∀ t, dateStartAt o first ≤ t → t < dateStartAt o (first + n) → P t

/-- A Klasse that is published for whole days and deleted from MO. -/
def DeletedThoughPublished (klasse : Klasse) : Prop :=
  (∃ tr p, Makes (sync klasse.uuid .insertion) (⟨Call.read klasse.uuid, some klasse⟩ :: tr) p ∧
    ⟨Call.mutate (.deleteClass klasse.uuid), ()⟩ ∈ tr) ∧
  ∃ first n, 2 ≤ n ∧ Throughout cet first n fun t =>
    (∃ p ∈ inForce klasse.tilstandPubliceret t, p.erPubliceret = true) ∧
      inForce klasse.attributEgenskab t ≠ []

/-- Two Egenskaber are in force for twenty years. -/
def twoTitles : Klasse :=
  let y1990 := Datetime.ofDate 1990 1 1 0 cet
  let y2010 := Datetime.ofDate 2010 1 1 0 cet
  let period : Virkning := ⟨y1990, y2010, by decide, by decide⟩
  { uuid := itSikkerhed.uuid
    attributEgenskab := [⟨period, "85.15.02", "IT-sikkerhed"⟩, ⟨period, "85.15.02", "Sikkerhed"⟩]
    tilstandPubliceret := [⟨period, true⟩]
    relationOverordnet := [] }

/-- The title changes at each of two midnights. -/
def dailyTitles : Klasse :=
  let jan1 := Datetime.ofDate 1990 1 1 0 cet
  let jan2 := Datetime.ofDate 1990 1 2 0 cet
  let jan3 := Datetime.ofDate 1990 1 3 0 cet
  { uuid := itSikkerhed.uuid
    attributEgenskab := [
      ⟨⟨jan1, jan2, by decide, by decide⟩, "85.15.02", "IT-sikkerhed"⟩,
      ⟨⟨jan2, jan3, by decide, by decide⟩, "85.15.02", "Sikkerhed"⟩]
    tilstandPubliceret := [⟨⟨jan1, jan3, by decide, by decide⟩, true⟩]
    relationOverordnet := [] }

/-- A class in MO with one state, in the facet `kle_number`. -/
def kleClass : GetClassObject where
  validities := [{
    validity := ⟨some (Datetime.ofDate 1990 1 1 0 cet), none⟩
    facetUuid := 1
    uuid := itSikkerhed.uuid
    userKey := "85.15.02"
    name := "IT-sikkerhed"
    parentUuid := none }]

/-- Both are refused a place in the desired states, the first by `one` and the
second for lasting a single day at a time. -/
theorem published_classes_deleted :
    DeletedThoughPublished twoTitles ∧ DeletedThoughPublished dailyTitles := by
  refine ⟨⟨⟨[⟨Call.getClass itSikkerhed.uuid, [kleClass]⟩, ⟨Call.getFacet "kle_number", [1]⟩,
      ⟨Call.mutate (.deleteClass itSikkerhed.uuid), ()⟩], ret .delete, ?_, by simp [twoTitles]⟩,
      toOrdinal 1990 1 1, toOrdinal 2010 1 1 - toOrdinal 1990 1 1, by decide, ?_⟩,
    ⟨⟨[⟨Call.getClass itSikkerhed.uuid, [kleClass]⟩, ⟨Call.getFacet "kle_number", [1]⟩,
      ⟨Call.mutate (.deleteClass itSikkerhed.uuid), ()⟩], ret .delete, ?_, by simp [dailyTitles]⟩,
      toOrdinal 1990 1 1, 2, by decide, ?_⟩⟩
  · exact Makes.cons (Makes.cons (Makes.cons (Makes.cons (Makes.nil _))))
  · intro t hlo hhi
    have hin : ((Datetime.ofDate 1990 1 1 0 cet).instant ≤ t) ∧
        t < (Datetime.ofDate 2010 1 1 0 cet).instant := ⟨hlo, hhi⟩
    exact ⟨⟨_, mem_inForce List.mem_cons_self hin, rfl⟩,
      List.ne_nil_of_mem (mem_inForce List.mem_cons_self hin)⟩
  · exact Makes.cons (Makes.cons (Makes.cons (Makes.cons (Makes.nil _))))
  · intro t hlo hhi
    have hin : ((Datetime.ofDate 1990 1 1 0 cet).instant ≤ t) ∧
        t < (Datetime.ofDate 1990 1 3 0 cet).instant := ⟨hlo, hhi⟩
    refine ⟨⟨_, mem_inForce List.mem_cons_self hin, rfl⟩, ?_⟩
    by_cases hday : t < (Datetime.ofDate 1990 1 2 0 cet).instant
    · exact List.ne_nil_of_mem (mem_inForce List.mem_cons_self ⟨hin.1, hday⟩)
    · exact List.ne_nil_of_mem
        (mem_inForce (List.mem_cons_of_mem _ List.mem_cons_self) ⟨not_lt.mp hday, hin.2⟩)

/-- Each date on which the daily titles are published has a timestamp on it. -/
theorem deleted_only_unpublished_dailyTitles :
    ∃ tr p, Makes (sync itSikkerhed.uuid .insertion)
      (⟨Call.read itSikkerhed.uuid, some dailyTitles⟩ :: tr) p ∧
      ⟨Call.mutate (.deleteClass itSikkerhed.uuid), ()⟩ ∈ tr ∧
      ∀ t, Published dailyTitles t →
        (∃ d ∈ dailyTitles.bounds, copenhagen.dateOf d.instant = copenhagen.dateOf t) ∧
        ∃ d ∈ dailyTitles.bounds,
          (Zone.fixed cet).dateOf d.instant = (Zone.fixed cet).dateOf t := by
  let tr : List ((c : Call) × Answer c) :=
    [⟨Call.getClass itSikkerhed.uuid, [kleClass]⟩, ⟨Call.getFacet "kle_number", [1]⟩,
      ⟨Call.mutate (.deleteClass itSikkerhed.uuid), ()⟩]
  have hrun : Makes (sync itSikkerhed.uuid .insertion)
      (⟨Call.read itSikkerhed.uuid, some dailyTitles⟩ :: tr) (ret .delete) :=
    Makes.cons (Makes.cons (Makes.cons (Makes.cons (Makes.nil _))))
  have hdel : ⟨Call.mutate (.deleteClass itSikkerhed.uuid), ()⟩ ∈ tr :=
    List.mem_cons_of_mem _ (List.mem_cons_of_mem _ List.mem_cons_self)
  have hdanish : ∀ d ∈ dailyTitles.bounds, ¬ d.Infinite → DanishTime d := by decide
  have hcet : OneOffset dailyTitles cet := by decide
  refine ⟨tr, _, hrun, hdel, fun t hp => ?_⟩
  cases deleted_only_unpublished hrun hdel with
  | inl hnone => cases hnone
  | inr hsome =>
    obtain ⟨klasse, hk, _, _, hdates⟩ := hsome
    cases hk
    exact ⟨hdates _ oneSided_copenhagen (writtenIn_copenhagen hdanish) t hp,
      hdates _ (Zone.oneSided_fixed cet) hcet.writtenIn t hp⟩

end Os2moFkk
