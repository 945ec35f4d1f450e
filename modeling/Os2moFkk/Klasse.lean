import Os2moFkk.Datetime

/-!
# FKK Klasser

A Klasse carries its whole history: each attribute, state and relation says
when it takes effect and when it stops.
-/

namespace Os2moFkk

abbrev UUID := BitVec 128

/-- The bounds are what the parser returns, so they are aware datetimes. -/
structure Virkning where
  fra : Datetime
  til : Datetime
  fra_aware : fra.Aware
  til_aware : til.Aware

class HasVirkning (α : Type) where
  virkning : α → Virkning

export HasVirkning (virkning)

structure Egenskab where
  virkning : Virkning
  brugervendtnoegle : String
  titel : String

structure PubliceretTilstand where
  virkning : Virkning
  erPubliceret : Bool

structure OverordnetRelation where
  virkning : Virkning
  uuid : UUID

instance : HasVirkning Egenskab := ⟨Egenskab.virkning⟩

instance : HasVirkning PubliceretTilstand := ⟨PubliceretTilstand.virkning⟩

instance : HasVirkning OverordnetRelation := ⟨OverordnetRelation.virkning⟩

structure Klasse where
  uuid : UUID
  attributEgenskab : List Egenskab
  tilstandPubliceret : List PubliceretTilstand
  relationOverordnet : List OverordnetRelation

namespace Klasse

/-- All entries of the three lists, in the order the conversion chains them. -/
def virkninger (klasse : Klasse) : List Virkning :=
  klasse.attributEgenskab.map virkning ++ klasse.tilstandPubliceret.map virkning ++
    klasse.relationOverordnet.map virkning

/-- Every `fra` and `til` of the Klasse. -/
def bounds (klasse : Klasse) : List Datetime :=
  klasse.virkninger.flatMap fun v => [v.fra, v.til]

/-- A Klasse with a single period, in which it is published. -/
def single (uuid : UUID) (brugervendtnoegle titel : String) (period : Virkning) : Klasse where
  uuid := uuid
  attributEgenskab := [⟨period, brugervendtnoegle, titel⟩]
  tilstandPubliceret := [⟨period, true⟩]
  relationOverordnet := []

theorem mem_bounds {klasse : Klasse} {d : Datetime} :
    d ∈ klasse.bounds ↔ ∃ v ∈ klasse.virkninger, d = v.fra ∨ d = v.til := by
  simp [bounds]

theorem aware_of_mem_bounds {klasse : Klasse} {d : Datetime} (h : d ∈ klasse.bounds) :
    d.Aware := by
  obtain ⟨v, _, rfl | rfl⟩ := mem_bounds.mp h
  · exact v.fra_aware
  · exact v.til_aware

end Klasse

/-- What equality of two entries looks at: bounds as instants, and the rest. -/
def entryMeaning {α κ : Type} [HasVirkning α] (rest : α → κ) (obj : α) : (Int × Int) × κ :=
  (((virkning obj).fra.instant, (virkning obj).til.instant), rest obj)

/-- An entry is in force from `fra` on and until just before `til`. -/
def Virkning.InForce (v : Virkning) (t : Int) : Prop := v.fra.instant ≤ t ∧ t < v.til.instant

instance (v : Virkning) (t : Int) : Decidable (v.InForce t) := inferInstanceAs (Decidable (_ ∧ _))

/-- The entries of a list that are in force at an instant. -/
def inForce {α : Type} [HasVirkning α] (objects : List α) (t : Int) : List α :=
  objects.filter fun obj => (virkning obj).InForce t

theorem mem_inForce {α : Type} [HasVirkning α] {objects : List α} {obj : α} {t : Int}
    (h : obj ∈ objects) (ht : (virkning obj).InForce t) : obj ∈ inForce objects t :=
  List.mem_filter.mpr ⟨h, decide_eq_true ht⟩

end Os2moFkk
