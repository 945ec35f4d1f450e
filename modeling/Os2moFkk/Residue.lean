import Os2moFkk.Agreement

/-!
# What a truncation leaves behind

`truncate_class` terminates the class between two fixed dates, since MO cannot
be given the infinities. An earlier validity that reaches beyond them keeps a
part there, unless a desired validity overwrites it.
-/

namespace Os2moFkk
open Itertools Prog Timeline

/-- The dates in `truncate_class`. -/
def truncateFrom : Int := toOrdinal 1 1 2

def truncateTo : Int := toOrdinal 9999 12 30

/-- MO adds and removes a day. -/
def terminated (o : Offset) : Period Datetime where
  from_ := some (.timestamp (dateStart truncateFrom - day) (.fixed o))
  to_ := some (.timestamp (dateStart truncateTo + day) (.fixed o))

/-- A MO in which truncating terminates the class between these dates. -/
def Keeper.terminating (o : Offset) : Keeper Datetime :=
  { Keeper.exact with truncated := terminated o }

/-- `get_class` reports the desired validities and nothing else. -/
def ReportsExactly (o : Offset) (uuid : UUID) (desired : List ClassValidity)
    (s : Systems (ClassStates Datetime)) : Prop :=
  ∃ validities, (Keeper.terminating o).mo.getClass (s.classes uuid) = [⟨validities⟩] ∧
    validities.Perm ((desired.map Keeper.exact.wanted).map Keeper.exact.report)

/-- Terminating and then overwriting with disjoint entries leaves nothing but
them exactly when they cover what the earlier ones hold outside the window. -/
theorem overwritten_iff {β ν τ : Type} [LinearOrder τ] [NoMinOrder τ] [Nonempty τ] {key : β → τ}
    {p : Period β} {s es : List (Entry β ν)} (h : Disjoint key es) :
    (∃ residue, es.foldl (overwrite key) (erase key p s) = residue ++ es ∧
      (residue = [] ↔ ∀ e ∈ s, ∀ t, e.period.Contains key t →
        p.Contains key t ∨ ∃ f ∈ es, f.period.Contains key t)) := by
  refine ⟨_, foldl_overwrite h _, ?_⟩
  have hleft : ∀ e ∈ erase key p s, e.period.Proper key := fun e he => proper_of_mem_erase he
  have hproper : ∀ e ∈ es.foldl (fun s e => erase key e.period s) (erase key p s),
      e.period.Proper key := proper_of_mem_foldl_erase hleft
  constructor
  · intro hnil e he t ht
    by_contra hnot
    push Not at hnot
    have hkept := holds_foldl_erase.mpr ⟨holds_erase.mpr ⟨⟨e, he, ht, rfl⟩, hnot.1⟩, hnot.2⟩
    rw [hnil] at hkept
    obtain ⟨f, hf, _⟩ := hkept
    cases hf
  · intro hcover
    apply List.eq_nil_iff_forall_not_mem.mpr
    intro f hf
    obtain ⟨t, ht⟩ := (hproper f hf).exists_contains
    obtain ⟨hkept, hnone⟩ := holds_foldl_erase.mp ⟨f, hf, ht, rfl⟩
    obtain ⟨⟨e, he, het, _⟩, herased⟩ := holds_erase.mp hkept
    cases hcover e he t het with
    | inl hin => exact herased hin
    | inr hcovered =>
      obtain ⟨g, hg, hgt⟩ := hcovered
      exact hnone g hg hgt

/-- MO reports exactly the desired validities if it reports nothing before them. -/
theorem reportsExactly_iff {o : Offset} {uuid : UUID} {set : SetOrder}
    {desired : List ClassValidity} {s : Systems (ClassStates Datetime)}
    {residue : List (Entry Datetime ClassValues)}
    (hreported : (Keeper.terminating o).mo.getClass (s.classes uuid) =
      [⟨(residue ++ (set.order desired).map Keeper.exact.wanted).map Keeper.exact.report⟩]) :
    ReportsExactly o uuid desired s ↔ residue = [] := by
  have hwritten : (((set.order desired).map Keeper.exact.wanted).map Keeper.exact.report).Perm
      ((desired.map Keeper.exact.wanted).map Keeper.exact.report) :=
    ((set.perm desired).map _).map _
  constructor
  · rintro ⟨validities, hvalidities, hp⟩
    rw [hreported] at hvalidities
    injection hvalidities with hobject
    injection hobject with hlist
    have hlength := (hlist ▸ hp).length_eq
    have hcount := hwritten.length_eq
    simp only [List.map_append, List.length_append, List.length_map] at hlength hcount
    exact List.eq_nil_of_length_eq_zero (by omega)
  · intro hnil
    rw [hnil, List.nil_append] at hreported
    exact ⟨_, hreported, hwritten⟩

/-- After a truncation and the updates, MO reports exactly the desired validities
if and only if these cover all that the earlier ones hold before the first or
after the last of the truncation's dates. -/
theorem reports_exactly_iff {o : Offset} {kle uuid : UUID} {set : SetOrder}
    {s : Systems (ClassStates Datetime)} {es : List (Entry Datetime ClassValues)}
    {actual desired : List ClassValidity} (hclass : s.classes uuid = some es)
    (hactual : actualStates (some ⟨es.map Keeper.exact.report⟩) = .ok actual) (hne : actual ≠ [])
    (hdesired : desiredStates (s.read uuid) kle = .ok desired) (hsome : desired ≠ [])
    (hdisjoint : desired.Pairwise fun v w => v.stop ≤ w.start ∨ w.stop ≤ v.start)
    (hdiffer : ¬ KeyedSet.Same ClassValidity.value actual desired) :
    ∃ s' calls, (sync uuid set).run (Systems.handle (Keeper.terminating o).mo kle) s =
        (.ok .createOrUpdate, s', calls) ∧
      (ReportsExactly o uuid desired s' ↔ ∀ e ∈ es, ∀ t, e.period.Contains Datetime.instant t →
        (terminated o).Contains Datetime.instant t ∨
          ∃ v ∈ desired, (Keeper.exact.wanted v).period.Contains Datetime.instant t) := by
  have hmo : only ((Keeper.terminating o).mo.getClass (s.classes uuid)) =
      .ok (some ⟨es.map Keeper.exact.report⟩) := by
    rw [hclass]
    rfl
  have huuid : ∀ v ∈ set.order desired, v.uuid = uuid := by
    intro v hv
    exact (uuid_of_desired hdesired (set.mem_order.mp hv) fun _ hk => Systems.uuid_of_read hk).1
  obtain ⟨s', calls, hrun, _, hfinal⟩ :=
    Keeper.run_truncate (k := Keeper.terminating o) kle huuid hclass
  rw [← reconcile_truncate hdiffer hsome hne] at hrun
  refine ⟨s', _, Systems.run_sync hmo hactual hdesired hrun, ?_⟩
  have hperm : ((set.order desired).map Keeper.exact.wanted).Perm
      (desired.map Keeper.exact.wanted) := (set.perm desired).map _
  have hunbounded : NoMinOrder Int := ⟨fun t => ⟨t - 1, by omega⟩⟩
  have hwanted := (Keeper.disjoint_wanted hdesired hdisjoint).perm hperm.symm
  obtain ⟨residue, hresidue, hempty⟩ := overwritten_iff (s := es) (p := terminated o) hwanted
  have hreported : (Keeper.terminating o).mo.getClass (s'.classes uuid) =
      [⟨(residue ++ (set.order desired).map Keeper.exact.wanted).map Keeper.exact.report⟩] := by
    rw [hfinal]
    exact congrArg (fun es => [(⟨es.map Keeper.exact.report⟩ : GetClassObject)]) hresidue
  rw [reportsExactly_iff hreported, hempty]
  apply forall₂_congr
  intro e _
  apply forall₂_congr
  intro t _
  apply or_congr Iff.rfl
  simp only [List.mem_map, exists_exists_and_eq_and, set.mem_order]

/-- A class without an end, as is what is desired of `newKlasse`. -/
def openClass : ClassStates Datetime :=
  some [⟨⟨some (Datetime.ofDate 2010 1 1 0 cet), none⟩, (1, 7, "85.15.02", "IT-sikkerhed", none)⟩]

theorem reports_exactly_iff_open : ∃ desired s' calls,
    desiredStates (some newKlasse) 1 = .ok desired ∧
    (sync 7 .insertion).run (Systems.handle (Keeper.terminating cet).mo 1)
      (Systems.holding ⟨newKlasse, rfl⟩ openClass) = (.ok .createOrUpdate, s', calls) ∧
    ReportsExactly cet 7 desired s' := by
  let s := Systems.holding ⟨newKlasse, rfl⟩ openClass
  have hclass : s.classes 7 = some (openClass.getD []) := rfl
  have hactual : actualStates (some ⟨(openClass.getD []).map Keeper.exact.report⟩) = .ok _ := rfl
  have hdesired : desiredStates (s.read 7) 1 = .ok _ := rfl
  obtain ⟨s', calls, hrun, hiff⟩ := reports_exactly_iff (o := cet) hclass hactual
    (List.cons_ne_nil _ _) hdesired (List.cons_ne_nil _ _) (List.pairwise_singleton _ _) (by decide)
  refine ⟨_, s', calls, hdesired, hrun, hiff.mpr ?_⟩
  intro e he t ht
  obtain rfl := List.mem_singleton.mp he
  have hstart : (Datetime.ofDate 2010 1 1 0 cet).instant ≤ t := ht.1 _ rfl
  by_cases hend : t < (Datetime.timestamp (dateStart truncateTo + day) (.fixed cet)).instant
  · left
    refine ⟨fun a ha => ?_, fun b hb => ?_⟩
    · obtain rfl := Option.some.inj ha
      exact le_trans (by decide) hstart
    · obtain rfl := Option.some.inj hb
      exact hend
  · right
    refine ⟨_, List.mem_singleton_self _, fun a ha => ?_, fun b hb => ?_⟩
    · obtain rfl := Option.some.inj ha
      exact le_trans (by decide) (not_lt.mp hend)
    · cases hb

/-- A class without bounds, before a desired state with two. -/
def unboundedClass : ClassStates Datetime :=
  some [⟨⟨none, none⟩, (1, 7, "85.15.02", "IT-sikkerhed", none)⟩]

/-- A Klasse that is published for a year. -/
def yearKlasse : Klasse :=
  .single 7 "85.15.02" "IT-sikkerhed"
    ⟨Datetime.ofDate 2015 1 1 0 cet, Datetime.ofDate 2016 1 1 0 cet, by decide, by decide⟩

/-- The earlier state is left before 0001-01-01 and after 9999-12-31. -/
theorem unbounded_residue : ∃ desired s' calls,
    desiredStates (some yearKlasse) 1 = .ok desired ∧ desired.length = 1 ∧
    (sync 7 .insertion).run (Systems.handle (Keeper.terminating cet).mo 1)
      (Systems.holding ⟨yearKlasse, rfl⟩ unboundedClass) = (.ok .createOrUpdate, s', calls) ∧
    (statesOf 7 s').length = 3 ∧ ¬ ReportsExactly cet 7 desired s' := by
  have hrun : (sync 7 .insertion).run (Systems.handle (Keeper.terminating cet).mo 1)
      (Systems.holding ⟨yearKlasse, rfl⟩ unboundedClass) = (.ok .createOrUpdate, _, _) := rfl
  have hdesired : desiredStates (some yearKlasse) 1 = .ok _ := rfl
  refine ⟨_, _, _, hdesired, rfl, hrun, rfl, ?_⟩
  rintro ⟨validities, hvalidities, hperm⟩
  have hlength := hperm.length_eq
  cases hvalidities
  revert hlength
  decide

end Os2moFkk
