import Os2moFkk.Klasse
import Os2moFkk.Sweep

/-!
# Class validities

The intermediate, comparable states that both FKK Klasser and MO classes are
converted to, and the conversions themselves.
-/

namespace Os2moFkk
open Itertools

/-- `stop` is the `end` of the source. -/
structure Validity where
  start : Datetime
  stop : Datetime

/-- The validity of a MO input or a MO answer, with `None` for infinity. -/
structure ValidityInput where
  from_ : Option Datetime
  to_ : Option Datetime

/-- MO uses None for infinity. -/
def Validity.fromMo (mo : ValidityInput) : Validity where
  start := mo.from_.getD .negativeInfinity
  stop := mo.to_.getD .positiveInfinity

/-- MO uses None for infinity. The sentinels are recognised with `is`. -/
def Validity.toMo (v : Validity) : ValidityInput where
  from_ := match v.start with
    | .negativeInfinity => none
    | d => some d
  to_ := match v.stop with
    | .positiveInfinity => none
    | d => some d

theorem Validity.toMo_from {v : Validity} {d : Datetime} :
    v.toMo.from_ = some d ↔ v.start = d ∧ d ≠ .negativeInfinity := by
  obtain ⟨start, stop⟩ := v
  cases start <;> simp only [Validity.toMo, Option.some.injEq, reduceCtorEq, false_iff, not_and,
    not_not]
  · exact Eq.symm
  · exact ⟨fun h => ⟨h, h ▸ Datetime.noConfusion⟩, And.left⟩
  · exact ⟨fun h => ⟨h, h ▸ Datetime.noConfusion⟩, And.left⟩

theorem Validity.toMo_to {v : Validity} {d : Datetime} :
    v.toMo.to_ = some d ↔ v.stop = d ∧ d ≠ .positiveInfinity := by
  obtain ⟨start, stop⟩ := v
  cases stop <;> simp only [Validity.toMo, Option.some.injEq, reduceCtorEq, false_iff, not_and,
    not_not]
  · exact ⟨fun h => ⟨h, h ▸ Datetime.noConfusion⟩, And.left⟩
  · exact Eq.symm
  · exact ⟨fun h => ⟨h, h ▸ Datetime.noConfusion⟩, And.left⟩

structure ClassValidity where
  facet : UUID
  validity : Validity
  uuid : UUID
  userKey : String
  name : String
  parent : Option UUID

/-- What comparing and hashing two states looks at: all fields, the bounds as
instants. -/
structure Value where
  facet : UUID
  start : Int
  stop : Int
  uuid : UUID
  userKey : String
  name : String
  parent : Option UUID
  deriving DecidableEq, Repr

namespace ClassValidity

def value (v : ClassValidity) : Value where
  facet := v.facet
  start := v.validity.start.instant
  stop := v.validity.stop.instant
  uuid := v.uuid
  userKey := v.userKey
  name := v.name
  parent := v.parent

def start (v : ClassValidity) : Int := v.validity.start.instant

def stop (v : ClassValidity) : Int := v.validity.stop.instant

/-- MO does not support datetimes with a time, haha. -/
def withValidityAsDates (v : ClassValidity) : ClassValidity :=
  { v with validity := { start := v.validity.start.truncateTime
                         stop := v.validity.stop.truncateTime } }

end ClassValidity

/-! ## From FKK -/

/-- All start and end timestamps; of equal ones the first is kept. -/
def timestamps (klasse : Klasse) : List Datetime := KeyedSet.ofList Datetime.instant klasse.bounds

def filterVirkning {α : Type} [HasVirkning α] (objects : List α) (start stop : Datetime) : List α :=
  objects.filter fun obj =>
    (virkning obj).fra.instant < stop.instant ∧ start.instant < (virkning obj).til.instant

/-- One round of the loop over timestamp pairs: raise, continue (`none`) or
yield a state. -/
def classValidityBetween (klasse : Klasse) (facet : UUID) (interval : Datetime × Datetime) :
    Except Error (Option ClassValidity) := do
  let (start, stop) := interval
  let published ← one (filterVirkning klasse.tilstandPubliceret start stop)
  if !published.erPubliceret then
    return none
  else
    match one (filterVirkning klasse.attributEgenskab start stop) with
    -- `one` raises nothing but the `ValueError` that is caught here
    | .error _ => return none
    | .ok attr =>
      let parent ← only (filterVirkning klasse.relationOverordnet start stop)
      return some {
        facet := facet
        validity := { start := start, stop := stop }
        uuid := klasse.uuid
        userKey := attr.brugervendtnoegle
        name := attr.titel
        parent := parent.map OverordnetRelation.uuid }

/-- Splits FKK Klasse object into Class validities. -/
def fkkKlasseToClassValidities (klasse : Klasse) (facet : UUID) :
    Except Error (List ClassValidity) :=
  collect (classValidityBetween klasse facet)
    (pairwise (Sweep.sorted Datetime.instant (timestamps klasse)))

/-! ## From and to MO -/

/-- One state in MO's answer to `get_class`. -/
structure GetClassValidity where
  validity : ValidityInput
  facetUuid : UUID
  uuid : UUID
  userKey : String
  name : String
  parentUuid : Option UUID

structure GetClassObject where
  validities : List GetClassValidity

/-- One round of the loop over the states. MO subtracts one day from the end
dates when reading, compared to what was written. -/
def moClassReadToClassValidity (validity : GetClassValidity) :
    Except Error (Option ClassValidity) := do
  let validityTo ← match validity.validity.to_ with
    | none => pure none
    | some d =>
      if d.IsMidnight then some <$> d.addDay
      else .error .assertionError
  return some {
    facet := validity.facetUuid
    validity := Validity.fromMo { from_ := validity.validity.from_, to_ := validityTo }
    uuid := validity.uuid
    userKey := validity.userKey
    name := validity.name
    parent := validity.parentUuid }

/-- Convert MO GraphQL Class object to ClassValidity intermediate objects. -/
def moClassReadToClassValidities (moClass : GetClassObject) : Except Error (List ClassValidity) :=
  collect moClassReadToClassValidity moClass.validities

/-- The fields that the inputs of `class_create` and `class_update` are given. -/
structure ClassInput where
  facetUuid : UUID
  validity : ValidityInput
  uuid : UUID
  userKey : String
  name : String
  parentUuid : Option UUID

/-- Convert ClassValidity intermediate object to MO GraphQL class_create input. -/
def classValidityToCreateInput (v : ClassValidity) : ClassInput where
  facetUuid := v.facet
  validity := v.validity.toMo
  uuid := v.uuid
  userKey := v.userKey
  name := v.name
  parentUuid := v.parent

/-- Convert ClassValidity intermediate object to MO GraphQL class_update input. -/
def classValidityToUpdateInput (v : ClassValidity) : ClassInput where
  facetUuid := v.facet
  validity := v.validity.toMo
  uuid := v.uuid
  userKey := v.userKey
  name := v.name
  parentUuid := v.parent

end Os2moFkk
