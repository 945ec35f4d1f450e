import Mathlib.Logic.Function.Basic
import Os2moFkk.Sync
import Os2moFkk.Timeline

/-!
# FKK and MO

What `sync` talks to: FKK's Klasser and MO's classes. What MO makes of a
mutation is a parameter; `Keeper.mo` is a MO that keeps timelines, which differ
in how a bound is kept and what a termination covers.
-/

namespace Os2moFkk
open Itertools Prog Timeline

/-- How MO answers for a class and what a mutation makes of it. -/
structure MO (σ : Type) where
  getClass : σ → List GetClassObject
  apply : Mutation → σ → σ

/-- FKK holds a Klasse under its own UUID. -/
structure Systems (σ : Type) where
  fkk : (uuid : UUID) → Option { klasse : Klasse // klasse.uuid = uuid }
  classes : UUID → σ

namespace Systems

variable {σ : Type} (mo : MO σ) (kle : UUID)

def read (s : Systems σ) (uuid : UUID) : Option Klasse := (s.fkk uuid).map Subtype.val

/-- What FKK and MO answer; `kle` is the facet with the user key `kle_number`. -/
def answer (s : Systems σ) : (c : Call) → Answer c
  | .read uuid => s.read uuid
  | .getClass uuid => mo.getClass (s.classes uuid)
  | .getFacet userKey => if userKey = "kle_number" then [kle] else []
  | .mutate _ => ()

/-- A mutation changes the class that it names. -/
def after (s : Systems σ) : Call → Systems σ
  | .mutate m => { s with
      classes := Function.update s.classes m.uuid (mo.apply m (s.classes m.uuid)) }
  | _ => s

def handle (c : Call) (s : Systems σ) : Answer c × Systems σ := (s.answer mo kle c, s.after mo c)

@[simp] theorem after_fkk (s : Systems σ) (c : Call) : (s.after mo c).fkk = s.fkk := by
  cases c <;> rfl

@[simp] theorem after_read (s : Systems σ) (c : Call) (uuid : UUID) :
    (s.after mo c).read uuid = s.read uuid := by
  rw [read, after_fkk, read]

theorem after_classes_of_ne (s : Systems σ) {c : Call} {uuid : UUID}
    (h : ∀ m, c = Call.mutate m → m.uuid ≠ uuid) :
    (s.after mo c).classes uuid = s.classes uuid := by
  cases c with
  | mutate m => exact Function.update_of_ne (h m rfl).symm _ _
  | read | getClass | getFacet => rfl

theorem after_classes_self (s : Systems σ) {m : Mutation} {uuid : UUID} (h : m.uuid = uuid) :
    (s.after mo (.mutate m)).classes uuid = mo.apply m (s.classes uuid) := by
  subst h
  exact Function.update_self _ _ _

theorem uuid_of_read {s : Systems σ} {uuid : UUID} {klasse : Klasse}
    (h : s.read uuid = some klasse) : klasse.uuid = uuid := by
  obtain ⟨k, _, rfl⟩ := Option.map_eq_some_iff.mp h
  exact k.property

/-- One Klasse, and the same states for every class. -/
def holding {uuid : UUID} (klasse : { klasse : Klasse // klasse.uuid = uuid }) (states : σ) :
    Systems σ where
  fkk := Function.update (fun _ => none) uuid (some klasse)
  classes := fun _ => states

/-! ### A synchronisation alone -/

section
variable {mo kle} {s : Systems σ} {uuid : UUID} {set : SetOrder}

/-- The reads of a synchronisation, and then what follows the comparison. -/
theorem run_sync {moClass : Option GetClassObject} {actual desired : List ClassValidity}
    (hmo : only (mo.getClass (s.classes uuid)) = .ok moClass)
    (hactual : actualStates moClass = .ok actual)
    (hdesired : desiredStates (s.read uuid) kle = .ok desired)
    {out : Except Error SyncStatus} {s' : Systems σ} {calls : List Call}
    (h : (reconcile uuid set moClass kle actual desired).run (handle mo kle) s = (out, s', calls)) :
    (sync uuid set).run (handle mo kle) s =
      (out, s', .read uuid :: .getClass uuid :: .getFacet "kle_number" :: calls) := by
  rw [sync_eq]
  refine run_call.mpr ⟨_, run_call.mpr ⟨_, run_ofExcept_bind hmo ?_, rfl⟩, rfl⟩
  refine run_call.mpr ⟨_, run_ofExcept_bind rfl ?_, rfl⟩
  exact run_ofExcept_bind hactual (run_ofExcept_bind hdesired h)

/-- A synchronisation that returns has read what it needs and gone on from the
comparison. -/
theorem exists_of_run_sync {status : SyncStatus} {s' : Systems σ} {calls : List Call}
    (h : (sync uuid set).run (handle mo kle) s = (.ok status, s', calls)) :
    ∃ moClass actual desired calls', only (mo.getClass (s.classes uuid)) = .ok moClass ∧
      actualStates moClass = .ok actual ∧ desiredStates (s.read uuid) kle = .ok desired ∧
      (reconcile uuid set moClass kle actual desired).run (handle mo kle) s =
        (.ok status, s', calls') := by
  rw [sync_eq] at h
  obtain ⟨_, h, _⟩ := run_call.mp h
  obtain ⟨_, h, _⟩ := run_call.mp h
  obtain ⟨moClass, hmo, h⟩ := exists_of_run_ofExcept_bind h
  obtain ⟨_, h, _⟩ := run_call.mp h
  obtain ⟨facet, hfacet, h⟩ := exists_of_run_ofExcept_bind h
  obtain rfl : kle = facet := Except.ok.inj hfacet
  obtain ⟨actual, hactual, h⟩ := exists_of_run_ofExcept_bind h
  obtain ⟨desired, hdesired, h⟩ := exists_of_run_ofExcept_bind h
  exact ⟨moClass, actual, desired, _, hmo, hactual, hdesired, h⟩

end

end Systems

/-! ## A MO that keeps timelines -/

/-- The values of a class state besides its validity. -/
abbrev ClassValues := UUID × UUID × String × String × Option UUID

/-- How MO keeps a finite bound, and what `truncate_class` covers. -/
structure Keeper (β : Type) where
  keep : Datetime → β
  key : β → Int
  reportFrom : β → Datetime
  /-- One day earlier than what was written. -/
  reportTo : β → Datetime
  truncated : Period β

/-- The states of a class, if it exists. -/
abbrev ClassStates (β : Type) := Option (List (Entry β ClassValues))

namespace Keeper

variable {β : Type} (k : Keeper β)

/-- The state that a mutation writes. -/
def entry (input : ClassInput) : Entry β ClassValues where
  period := ⟨input.validity.from_.map k.keep, input.validity.to_.map k.keep⟩
  value := (input.facetUuid, input.uuid, input.userKey, input.name, input.parentUuid)

def report (e : Entry β ClassValues) : GetClassValidity where
  validity := ⟨e.period.from_.map k.reportFrom, e.period.to_.map k.reportTo⟩
  facetUuid := e.value.1
  uuid := e.value.2.1
  userKey := e.value.2.2.1
  name := e.value.2.2.2.1
  parentUuid := e.value.2.2.2.2

/-- Creating and updating replace the period they name, also when the class is
there already. -/
def mo : MO (ClassStates β) where
  getClass s := (s.map fun es => (⟨es.map k.report⟩ : GetClassObject)).toList
  apply
    | .createClass input, s => some (overwrite k.key (s.getD []) (k.entry input))
    | .updateClass input, s => some (overwrite k.key (s.getD []) (k.entry input))
    | .truncateClass _, s => s.map (erase k.key k.truncated)
    | .deleteClass _, _ => none

/-- Bounds are kept as they are written, and truncating clears the class. -/
def exact : Keeper Datetime where
  keep := id
  key := Datetime.instant
  reportFrom := id
  reportTo d := .timestamp (d.wall - day) d.tz
  truncated := ⟨none, none⟩

/-- The state that a validity is written as. -/
def wanted (v : ClassValidity) : Entry β ClassValues := k.entry (classValidityToUpdateInput v)

/-- What `sync` reads of a state: the day that MO subtracts is added again. -/
def readBack (e : Entry β ClassValues) : ClassValidity where
  facet := e.value.1
  validity := Validity.fromMo
    { from_ := e.period.from_.map k.reportFrom
      to_ := e.period.to_.map fun b =>
        .timestamp ((k.reportTo b).wall + day) (k.reportTo b).tz }
  uuid := e.value.2.1
  userKey := e.value.2.2.1
  name := e.value.2.2.2.1
  parent := e.value.2.2.2.2

/-- The end that MO reports can be read: it is a midnight, and not the last one. -/
def Readable (e : Entry β ClassValues) : Prop :=
  ∀ b, e.period.to_ = some b → (k.reportTo b).IsMidnight ∧
    0 ≤ (k.reportTo b).wall + day ∧ (k.reportTo b).wall + day ≤ maxWall

variable {k}

theorem read_report {e : Entry β ClassValues} {y : Option ClassValidity} :
    moClassReadToClassValidity (k.report e) = .ok y ↔ y = some (k.readBack e) ∧ k.Readable e := by
  obtain ⟨⟨from_, to_⟩, value⟩ := e
  cases to_ with
  | none =>
    simp only [moClassReadToClassValidity, report, readBack, Readable, Option.map_none, pure_eq_ok,
      ok_bind, Except.ok.injEq, reduceCtorEq, false_implies, implies_true, and_true]
    exact eq_comm
  | some b =>
    simp only [moClassReadToClassValidity, report, readBack, Readable, Option.map_some,
      Option.some.injEq, forall_eq']
    by_cases hm : (k.reportTo b).IsMidnight
    · cases hadd : (k.reportTo b).addDay with
      | error e =>
        have hrange : ¬ (0 ≤ (k.reportTo b).wall + day ∧ (k.reportTo b).wall + day ≤ maxWall) := by
          intro hrange
          rw [Datetime.addDay_eq_ok.mpr ⟨hrange, rfl⟩] at hadd
          cases hadd
        simp [hm, hrange, Functor.map, Except.map, bind, Except.bind]
      | ok x =>
        obtain ⟨hrange, rfl⟩ := Datetime.addDay_eq_ok.mp hadd
        simp [hm, hrange, Functor.map, Except.map, bind, Except.bind, eq_comm]
    · simp [hm, bind, Except.bind]

/-- States whose ends can be read are read without an error. -/
theorem exists_read {es : List (Entry β ClassValues)} (h : ∀ e ∈ es, k.Readable e) :
    ∃ l, moClassReadToClassValidities ⟨es.map k.report⟩ = .ok l := by
  cases hread : moClassReadToClassValidities ⟨es.map k.report⟩ with
  | ok l => exact ⟨l, rfl⟩
  | error err =>
    obtain ⟨r, hr, he⟩ := collect_error hread
    obtain ⟨e, hm, rfl⟩ := List.mem_map.mp hr
    rw [read_report.mpr ⟨rfl, h e hm⟩] at he
    cases he

/-- States that are read without an error are read as what they say. -/
theorem mem_read {es : List (Entry β ClassValues)} {l : List ClassValidity}
    (h : moClassReadToClassValidities ⟨es.map k.report⟩ = .ok l) (v : ClassValidity) :
    v ∈ l ↔ v ∈ es.map k.readBack := by
  rw [mem_collect h, List.mem_map]
  constructor
  · rintro ⟨r, hr, hv⟩
    obtain ⟨e, he, rfl⟩ := List.mem_map.mp hr
    exact ⟨e, he, (Option.some.inj (read_report.mp hv).1).symm⟩
  · rintro ⟨e, he, rfl⟩
    obtain ⟨y, hy⟩ := collect_each_ok h (List.mem_map_of_mem he)
    exact ⟨_, List.mem_map_of_mem he, (read_report.mp hy).1 ▸ hy⟩

/-- A class that is read without an error is read as its states. -/
theorem actual_readBack {es : List (Entry β ClassValues)} {actual : List ClassValidity}
    (h : actualStates (some ⟨es.map k.report⟩) = .ok actual) :
    KeyedSet.Same ClassValidity.value actual (es.map k.readBack) := by
  simp only [actualStates] at h
  cases hread : moClassReadToClassValidities ⟨es.map k.report⟩ with
  | error e => rw [hread] at h; cases h
  | ok l =>
    rw [hread] at h
    obtain rfl : KeyedSet.ofList ClassValidity.value l = actual := Except.ok.inj h
    exact (KeyedSet.same_ofList ClassValidity.value l).trans (KeyedSet.Same.of_mem (mem_read hread))

/-- What `sync` reads of a class is what its states say. -/
theorem read_class {s : ClassStates β} {moClass : Option GetClassObject}
    {actual : List ClassValidity} (hmo : only (k.mo.getClass s) = .ok moClass)
    (hactual : actualStates moClass = .ok actual) :
    KeyedSet.Same ClassValidity.value actual ((s.getD []).map k.readBack) := by
  cases s with
  | none =>
    obtain rfl : none = moClass := Except.ok.inj hmo
    obtain rfl : [] = actual := Except.ok.inj hactual
    exact KeyedSet.Same.refl _ _
  | some es =>
    obtain rfl : some ⟨es.map k.report⟩ = moClass := Except.ok.inj hmo
    exact actual_readBack hactual

/-! ### Running alone -/

/-- Updating writes the states one after another. -/
theorem run_updateAll (kle : UUID) {uuid : UUID} {l : List ClassValidity}
    (hl : ∀ v ∈ l, v.uuid = uuid) {s : Systems (ClassStates β)} {es : List (Entry β ClassValues)}
    (hs : s.classes uuid = some es) :
    ∃ s' calls, (updateAll l).run (Systems.handle k.mo kle) s = (.ok .createOrUpdate, s', calls) ∧
      s'.read uuid = s.read uuid ∧
      s'.classes uuid = some ((l.map k.wanted).foldl (overwrite k.key) es) := by
  induction l generalizing s es with
  | nil => exact ⟨s, [], rfl, rfl, hs⟩
  | cons v rest ih =>
    let update : Call := .mutate (.updateClass (classValidityToUpdateInput v))
    have hafter : (s.after k.mo update).classes uuid =
        some (overwrite k.key es (k.wanted v)) := by
      have hown := Systems.after_classes_self k.mo s
        (m := .updateClass (classValidityToUpdateInput v)) (hl v List.mem_cons_self)
      rw [hs] at hown
      exact hown
    obtain ⟨s', calls, hrun, hread, hclass⟩ :=
      ih (fun w hw => hl w (List.mem_cons_of_mem v hw)) hafter
    refine ⟨s', update :: calls, ?_, hread.trans (Systems.after_read k.mo s update uuid), hclass⟩
    exact congrArg (fun r => (r.1, r.2.1, update :: r.2.2)) hrun

theorem run_truncate (kle : UUID) {uuid : UUID} {l : List ClassValidity}
    (hl : ∀ v ∈ l, v.uuid = uuid) {s : Systems (ClassStates β)} {es : List (Entry β ClassValues)}
    (hs : s.classes uuid = some es) :
    ∃ s' calls, (call (Call.mutate (.truncateClass uuid)) fun _ => updateAll l).run
        (Systems.handle k.mo kle) s = (.ok .createOrUpdate, s', calls) ∧
      s'.read uuid = s.read uuid ∧ s'.classes uuid =
        some ((l.map k.wanted).foldl (overwrite k.key) (erase k.key k.truncated es)) := by
  have hown : (s.after k.mo (.mutate (.truncateClass uuid))).classes uuid =
      k.mo.apply (.truncateClass uuid) (s.classes uuid) := s.after_classes_self k.mo rfl
  rw [hs] at hown
  obtain ⟨s', calls, hrun, hread, hclass⟩ := run_updateAll kle hl hown
  exact ⟨s', _, run_call.mpr ⟨calls, hrun, rfl⟩, hread, hclass⟩

theorem run_create (kle : UUID) {uuid : UUID} {v : ClassValidity} {l : List ClassValidity}
    (hv : v.uuid = uuid) (hl : ∀ v ∈ l, v.uuid = uuid) (s : Systems (ClassStates β)) :
    ∃ s' calls, (call (Call.mutate (.createClass (classValidityToCreateInput v))) fun _ =>
        updateAll l).run (Systems.handle k.mo kle) s = (.ok .createOrUpdate, s', calls) ∧
      s'.read uuid = s.read uuid ∧ s'.classes uuid =
        some (((v :: l).map k.wanted).foldl (overwrite k.key) ((s.classes uuid).getD [])) := by
  have hown : (s.after k.mo (.mutate (.createClass (classValidityToCreateInput v)))).classes uuid =
      k.mo.apply (.createClass (classValidityToCreateInput v)) (s.classes uuid) :=
    s.after_classes_self k.mo hv
  obtain ⟨s', calls, hrun, hread, hclass⟩ := run_updateAll kle hl hown
  exact ⟨s', _, run_call.mpr ⟨calls, hrun, rfl⟩, hread, hclass⟩

/-- What a synchronisation that returned has done, when truncating clears the
class. -/
inductive Outcome (k : Keeper β) (kle uuid : UUID) (set : SetOrder)
    (moClass : Option GetClassObject) (actual desired : List ClassValidity)
    (s s' : Systems (ClassStates β)) : SyncStatus → Prop where
  | upToDate (same : KeyedSet.Same ClassValidity.value actual desired) (kept : s' = s) :
      Outcome k kle uuid set moClass actual desired s s' .upToDate
  | wontDelete (c : GetClassObject) (some : moClass = some c) (empty : desired = [])
      (foreign : ¬ OnlyFacet kle c)
      (differ : ¬ KeyedSet.Same ClassValidity.value actual desired) (kept : s' = s) :
      Outcome k kle uuid set moClass actual desired s s' .wontDelete
  | delete (empty : desired = []) (read : s'.read uuid = s.read uuid)
      (gone : s'.classes uuid = none) :
      Outcome k kle uuid set moClass actual desired s s' .delete
  | written (nonempty : desired ≠ []) (read : s'.read uuid = s.read uuid)
      (states : s'.classes uuid =
        some (((set.order desired).map k.wanted).foldl (overwrite k.key) [])) :
      Outcome k kle uuid set moClass actual desired s s' .createOrUpdate

theorem outcome (hclear : k.truncated = ⟨none, none⟩) {kle uuid : UUID} {set : SetOrder}
    {moClass : Option GetClassObject} {actual desired : List ClassValidity}
    {s s' : Systems (ClassStates β)} {status : SyncStatus} {calls : List Call}
    (hmo : only (k.mo.getClass (s.classes uuid)) = .ok moClass)
    (hactual : actualStates moClass = .ok actual)
    (huuid : ∀ v ∈ desired, v.uuid = uuid)
    (hrun : (reconcile uuid set moClass kle actual desired).run (Systems.handle k.mo kle) s =
      (.ok status, s', calls)) :
    Outcome k kle uuid set moClass actual desired s s' status := by
  have horder : ∀ v ∈ set.order desired, v.uuid = uuid :=
    fun v hv => huuid v (set.mem_order.mp hv)
  have hread := read_class hmo hactual
  have plan := reconcile_plan uuid set moClass kle actual desired
  generalize reconcile uuid set moClass kle actual desired = p at hrun plan
  cases plan with
  | upToDate same =>
    cases hrun
    exact .upToDate same rfl
  | assertion => cases hrun
  | wontDelete c some empty foreign differ =>
    cases hrun
    exact .wontDelete c some empty foreign differ rfl
  | delete c _ empty =>
    obtain ⟨_, hrest, _⟩ := run_call.mp hrun
    cases hrest
    let deletion : Call := .mutate (.deleteClass uuid)
    have hread' : (s.after k.mo deletion).read uuid = s.read uuid := s.after_read k.mo deletion uuid
    exact .delete empty hread' (s.after_classes_self k.mo rfl)
  | create none v rest order =>
    rw [order] at horder
    have hempty : (s.classes uuid).getD [] = [] := by
      rw [none] at hread
      exact List.map_eq_nil_iff.mp hread.nil_left
    obtain ⟨s'', calls', hcreate, hsame, hstates⟩ := run_create (k := k) kle
      (horder v List.mem_cons_self) (fun w hw => horder w (List.mem_cons_of_mem v hw)) s
    rw [hrun] at hcreate
    cases hcreate
    have hne : desired ≠ [] := by
      rintro rfl
      exact List.cons_ne_nil v rest (order.symm.trans (set.perm []).eq_nil)
    exact .written hne hsame (by rw [hstates, order, hempty])
  | truncate some nonempty =>
    cases hclass : s.classes uuid with
    | none =>
      rw [hclass] at hmo
      cases hmo
      exact absurd (Except.ok.inj hactual).symm some
    | some es =>
      obtain ⟨s'', calls', htruncate, hsame, hstates⟩ := run_truncate (k := k) kle horder hclass
      rw [hrun] at htruncate
      cases htruncate
      exact .written nonempty hsame (by rw [hstates, hclear, erase_all])

/-- A state is read as it was written when the bounds that were written are
read as the same instants. -/
theorem value_readBack (v : ClassValidity)
    (hfrom : ∀ d, v.validity.toMo.from_ = some d →
      (k.reportFrom (k.keep d)).instant = d.instant)
    (hto : ∀ d, v.validity.toMo.to_ = some d →
      (Datetime.timestamp ((k.reportTo (k.keep d)).wall + day)
        (k.reportTo (k.keep d)).tz).instant = d.instant) :
    (k.readBack (k.wanted v)).value = v.value := by
  obtain ⟨facet, ⟨start, stop⟩, uuid, userKey, name, parent⟩ := v
  have hstart : (k.readBack (k.wanted
      ⟨facet, ⟨start, stop⟩, uuid, userKey, name, parent⟩)).start = start.instant := by
    cases start with
    | negativeInfinity => rfl
    | positiveInfinity | timestamp => exact hfrom _ rfl
  have hstop : (k.readBack (k.wanted
      ⟨facet, ⟨start, stop⟩, uuid, userKey, name, parent⟩)).stop = stop.instant := by
    cases stop with
    | positiveInfinity => rfl
    | negativeInfinity | timestamp => exact hto _ rfl
  simp only [ClassValidity.start] at hstart
  simp only [ClassValidity.stop] at hstop
  simp only [ClassValidity.value, hstart, hstop]
  rfl

/-! ### Bounds kept as they are written -/

/-- Reading a desired state that was written gives an equal one. -/
theorem value_readBack_wanted (v : ClassValidity) :
    (exact.readBack (exact.wanted v)).value = v.value := by
  apply value_readBack
  · intro d _
    rfl
  · intro d _
    change (Datetime.timestamp (d.wall - day + day) d.tz).instant = d.instant
    rw [Int.sub_add_cancel]
    rfl

section
variable {klasse : Option Klasse} {facet : UUID} {desired : List ClassValidity}
  (h : desiredStates klasse facet = .ok desired)
include h

/-- Desired states that do not overlap are written to periods apart from one
another: nothing that lasts for a day reaches beyond an infinity. -/
theorem ends_wanted {v w : ClassValidity} (hv : v ∈ desired) (hw : w ∈ desired)
    (hle : v.stop ≤ w.start) :
    (exact.wanted v).period.Ends Datetime.instant (exact.wanted w).period := by
  obtain ⟨hvstart, _, hvday⟩ := bounds_of_desired h hv
  obtain ⟨_, hwstop, hwday⟩ := bounds_of_desired h hw
  have hlow := hvstart.bounds.1
  have hhigh := hwstop.bounds.2
  have hday := day_pos
  have hstop : v.validity.stop ≠ .positiveInfinity := by
    intro heq
    have hinf : v.stop = maxWall := by rw [ClassValidity.stop, heq]; rfl
    have hend : w.stop = w.validity.stop.instant := rfl
    omega
  have hstart : w.validity.start ≠ .negativeInfinity := by
    intro heq
    have hinf : w.start = 0 := by rw [ClassValidity.start, heq]; rfl
    have hbegin : v.start = v.validity.start.instant := rfl
    omega
  refine ⟨v.validity.stop, w.validity.start, ?_, ?_, hle⟩
  · exact (Option.map_id_apply).trans (Validity.toMo_to.mpr ⟨rfl, hstop⟩)
  · exact (Option.map_id_apply).trans (Validity.toMo_from.mpr ⟨rfl, hstart⟩)

theorem disjoint_wanted
    (hdisjoint : desired.Pairwise fun v w => v.stop ≤ w.start ∨ w.stop ≤ v.start) :
    Disjoint Datetime.instant (desired.map exact.wanted) where
  proper e he := by
    obtain ⟨v, hv, rfl⟩ := List.mem_map.mp he
    obtain ⟨_, _, hday⟩ := bounds_of_desired h hv
    have hpos := day_pos
    have hlt : v.start < v.stop := by omega
    apply Period.proper_iff.mpr
    intro a b ha hb
    obtain ⟨rfl, _⟩ := Validity.toMo_from.mp (Option.map_id_apply.symm.trans ha)
    obtain ⟨rfl, _⟩ := Validity.toMo_to.mp (Option.map_id_apply.symm.trans hb)
    exact hlt
  apart := by
    rw [List.pairwise_map]
    apply hdisjoint.imp_of_mem
    intro v w hv hw hor
    exact hor.imp (ends_wanted h hv hw) (ends_wanted h hw hv)

end

end Keeper

end Os2moFkk
