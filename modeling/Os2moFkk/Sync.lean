import Os2moFkk.Desired
import Os2moFkk.Program

/-!
# Synchronising one class

`sync` as an interactive program: it reads the Klasse from FKK and the class and
the facet from MO, compares, and then mutates the class in MO.
-/

namespace Os2moFkk
open Itertools Prog

inductive Mutation where
  | createClass (input : ClassInput)
  | updateClass (input : ClassInput)
  | truncateClass (uuid : UUID)
  | deleteClass (uuid : UUID)

/-- The class that a mutation names. -/
def Mutation.uuid : Mutation → UUID
  | createClass input => input.uuid
  | updateClass input => input.uuid
  | truncateClass uuid => uuid
  | deleteClass uuid => uuid

inductive Call where
  | read (uuid : UUID)
  | getClass (uuid : UUID)
  | getFacet (userKey : String)
  | mutate (m : Mutation)

/-- What FKK and MO answer: the Klasse if there is one, the class objects, the
UUIDs of the facet objects. -/
def Answer : Call → Type
  | .read _ => Option Klasse
  | .getClass _ => List GetClassObject
  | .getFacet _ => List UUID
  | .mutate _ => Unit

def Call.IsMutation : Call → Prop
  | mutate _ => True
  | _ => False

/-- The reads that a synchronisation of a class makes. -/
def Call.LooksUp (uuid : UUID) : Call → Prop
  | read uuid' => uuid' = uuid
  | getClass uuid' => uuid' = uuid
  | getFacet userKey => userKey = "kle_number"
  | mutate _ => False

theorem Call.LooksUp.not_mutation {uuid : UUID} {c : Call} (h : c.LooksUp uuid) :
    ¬ c.IsMutation := by
  cases c with
  | mutate => exact h.elim
  | read | getClass | getFacet => exact id

inductive SyncStatus where
  | createOrUpdate
  | delete
  | upToDate
  | wontDelete
  deriving DecidableEq, Repr

abbrev Client := Prog Call Answer Error

abbrev SyncProg := Client SyncStatus

def fkkRead (uuid : UUID) : Client (Option Klasse) := perform (Call.read uuid)

def getClass (uuid : UUID) : Client (List GetClassObject) := perform (Call.getClass uuid)

def getFacet (userKey : String) : Client (List UUID) := perform (Call.getFacet userKey)

def mutate (m : Mutation) : Client Unit := perform (Call.mutate m)

/-- The order in which a set is iterated, which can be any. Popping takes the
first element of it. -/
structure SetOrder where
  order : List ClassValidity → List ClassValidity
  perm : ∀ l, (order l).Perm l

def SetOrder.insertion : SetOrder := ⟨id, fun _ => List.Perm.refl _⟩

/-- Update the class with each remaining validity. -/
def updateAll : List ClassValidity → SyncProg
  | [] => ret .createOrUpdate
  | validity :: rest => do
    mutate (.updateClass (classValidityToUpdateInput validity))
    updateAll rest

/-- The current states of the MO class. -/
def actualStates (moClass : Option GetClassObject) : Except Error (List ClassValidity) :=
  match moClass with
  | none => .ok []
  | some moClass => (moClassReadToClassValidities moClass).map (KeyedSet.ofList ClassValidity.value)

/-- `mo_class_facets == {kle_number_facet}`. -/
def OnlyFacet (facet : UUID) (moClass : GetClassObject) : Prop :=
  KeyedSet.Same id (moClass.validities.map GetClassValidity.facetUuid) [facet]

instance (facet : UUID) (moClass : GetClassObject) : Decidable (OnlyFacet facet moClass) :=
  inferInstanceAs (Decidable (KeyedSet.Same _ _ _))

/-- What follows the comparison of the actual with the desired states. -/
def reconcile (uuid : UUID) (set : SetOrder) (moClass : Option GetClassObject)
    (kleNumberFacet : UUID) (actual desired : List ClassValidity) : SyncProg :=
  if KeyedSet.Same ClassValidity.value actual desired then
    ret .upToDate
  else if desired = [] then
    match moClass with
    | none => raise .assertionError
    | some moClass =>
      if ¬ OnlyFacet kleNumberFacet moClass then
        ret .wontDelete
      else do
        mutate (.deleteClass uuid)
        return .delete
  else if actual = [] then
    match set.order desired with
    | [] => raise .keyError
    | someValidity :: rest => do
      mutate (.createClass (classValidityToCreateInput someValidity))
      updateAll rest
  else do
    mutate (.truncateClass uuid)
    updateAll (set.order desired)

/-- What `sync` does once FKK is read. -/
def syncKlasse (uuid : UUID) (set : SetOrder) (fkkKlasse : Option Klasse) : SyncProg := do
  let moClasses ← getClass uuid
  let moClass ← ofExcept (only moClasses)
  let kleNumberFacet ← ofExcept (one (← getFacet "kle_number"))
  let actual ← ofExcept (actualStates moClass)
  let desired ← ofExcept (desiredStates fkkKlasse kleNumberFacet)
  reconcile uuid set moClass kleNumberFacet actual desired

/-- Synchronise FKK Klasse to MO. -/
def sync (uuid : UUID) (set : SetOrder) : SyncProg := do
  let fkkKlasse ← fkkRead uuid
  syncKlasse uuid set fkkKlasse

theorem sync_eq (uuid : UUID) (set : SetOrder) :
    sync uuid set = call (Call.read uuid) (syncKlasse uuid set) := rfl

/-- The ways a synchronisation can go on after comparing. -/
inductive Plan (uuid : UUID) (set : SetOrder) (moClass : Option GetClassObject) (facet : UUID)
    (actual desired : List ClassValidity) : SyncProg → Prop where
  | upToDate (same : KeyedSet.Same ClassValidity.value actual desired) :
      Plan uuid set moClass facet actual desired (ret .upToDate)
  | assertion (none : moClass = none) :
      Plan uuid set moClass facet actual desired (raise .assertionError)
  | wontDelete (c : GetClassObject) (some : moClass = some c) (empty : desired = [])
      (foreign : ¬ OnlyFacet facet c)
      (differ : ¬ KeyedSet.Same ClassValidity.value actual desired) :
      Plan uuid set moClass facet actual desired (ret .wontDelete)
  | delete (c : GetClassObject) (some : moClass = some c) (empty : desired = [])
      (only : OnlyFacet facet c)
      (differ : ¬ KeyedSet.Same ClassValidity.value actual desired) :
      Plan uuid set moClass facet actual desired
        (call (Call.mutate (.deleteClass uuid)) fun _ => ret .delete)
  | create (none : actual = []) (v : ClassValidity) (rest : List ClassValidity)
      (order : set.order desired = v :: rest)
      (differ : ¬ KeyedSet.Same ClassValidity.value actual desired) :
      Plan uuid set moClass facet actual desired
        (call (Call.mutate (.createClass (classValidityToCreateInput v))) fun _ => updateAll rest)
  | truncate (some : actual ≠ []) (nonempty : desired ≠ [])
      (differ : ¬ KeyedSet.Same ClassValidity.value actual desired) :
      Plan uuid set moClass facet actual desired
        (call (Call.mutate (.truncateClass uuid)) fun _ => updateAll (set.order desired))

theorem SetOrder.order_ne_nil (set : SetOrder) {l : List ClassValidity} (h : l ≠ []) :
    set.order l ≠ [] := fun he => h ((set.perm l).symm.trans (he ▸ List.Perm.refl _)).eq_nil

theorem reconcile_plan (uuid : UUID) (set : SetOrder) (moClass : Option GetClassObject)
    (facet : UUID) (actual desired : List ClassValidity) :
    Plan uuid set moClass facet actual desired
      (reconcile uuid set moClass facet actual desired) := by
  unfold reconcile
  by_cases hsame : KeyedSet.Same ClassValidity.value actual desired
  · rw [if_pos hsame]
    exact Plan.upToDate hsame
  rw [if_neg hsame]
  by_cases hempty : desired = []
  · rw [if_pos hempty]
    cases hmo : moClass with
    | none => exact Plan.assertion rfl
    | some c =>
      by_cases honly : OnlyFacet facet c
      · simp only [honly, not_true_eq_false, if_false]
        exact Plan.delete c rfl hempty honly hsame
      · simp only [honly, not_false_eq_true, if_true]
        exact Plan.wontDelete c rfl hempty honly hsame
  rw [if_neg hempty]
  by_cases hactual : actual = []
  · rw [if_pos hactual]
    cases horder : set.order desired with
    | nil => exact absurd horder (set.order_ne_nil hempty)
    | cons v rest => exact Plan.create hactual v rest horder hsame
  · rw [if_neg hactual]
    exact Plan.truncate hactual hempty hsame

theorem reconcile_truncate {uuid : UUID} {set : SetOrder} {moClass : Option GetClassObject}
    {facet : UUID} {actual desired : List ClassValidity}
    (hdiffer : ¬ KeyedSet.Same ClassValidity.value actual desired) (hdesired : desired ≠ [])
    (hactual : actual ≠ []) :
    reconcile uuid set moClass facet actual desired =
      call (Call.mutate (.truncateClass uuid)) fun _ => updateAll (set.order desired) := by
  unfold reconcile
  rw [if_neg hdiffer, if_neg hdesired, if_neg hactual]
  rfl

/-- With something desired that differs, a mutation comes next. -/
theorem reconcile_mutates (uuid : UUID) (set : SetOrder) (moClass : Option GetClassObject)
    (facet : UUID) {actual desired : List ClassValidity} (hdesired : desired ≠ [])
    (hdiffer : ¬ KeyedSet.Same ClassValidity.value actual desired) :
    ∃ m k, reconcile uuid set moClass facet actual desired = call (Call.mutate m) k := by
  by_cases hactual : actual = []
  · cases horder : set.order desired with
    | nil => exact absurd horder (set.order_ne_nil hdesired)
    | cons v rest =>
      unfold reconcile
      rw [if_neg hdiffer, if_neg hdesired, if_pos hactual, horder]
      exact ⟨_, _, rfl⟩
  · exact ⟨_, _, reconcile_truncate hdiffer hdesired hactual⟩

section
variable {ok : Answers Answer} {Q : SyncProg → Prop} {uuid : UUID} {set : SetOrder}
  (hraise : ∀ e, Q (raise e)) (hread : ∀ c k, Call.LooksUp uuid c → Q (call c k))
include hraise hread

/-- What holds throughout the reads and throughout every plan that can follow
them holds throughout the rest of a synchronisation. -/
theorem syncKlasse_always {fkkKlasse : Option Klasse}
    (hplan : ∀ (moClasses : List GetClassObject) (facets : List UUID) moClass facet actual
      desired p,
      ok (Call.getClass uuid) moClasses → ok (Call.getFacet "kle_number") facets →
      only moClasses = .ok moClass → one facets = .ok facet → actualStates moClass = .ok actual →
      desiredStates fkkKlasse facet = .ok desired →
      Plan uuid set moClass facet actual desired p → p.Always ok Q) :
    (syncKlasse uuid set fkkKlasse).Always ok Q := by
  refine ⟨hread _ _ rfl, fun moClasses hc => ?_⟩
  apply Always.ofExcept_bind hraise
  intro moClass hmo
  refine ⟨hread _ _ rfl, fun facets hf => ?_⟩
  apply Always.ofExcept_bind hraise
  intro facet hfacet
  apply Always.ofExcept_bind hraise
  intro actual hactual
  apply Always.ofExcept_bind hraise
  intro desired hdesired
  exact hplan _ _ _ _ _ _ _ hc hf hmo hfacet hactual hdesired (reconcile_plan _ _ _ _ _ _)

theorem sync_always
    (hplan : ∀ (fkkKlasse : Option Klasse) (moClasses : List GetClassObject) (facets : List UUID)
      moClass facet actual desired p, ok (Call.read uuid) fkkKlasse →
      ok (Call.getClass uuid) moClasses → ok (Call.getFacet "kle_number") facets →
      only moClasses = .ok moClass → one facets = .ok facet → actualStates moClass = .ok actual →
      desiredStates fkkKlasse facet = .ok desired →
      Plan uuid set moClass facet actual desired p → p.Always ok Q) :
    (sync uuid set).Always ok Q := by
  rw [sync_eq]
  refine ⟨hread _ _ rfl, fun fkkKlasse hk => ?_⟩
  apply syncKlasse_always hraise hread
  intro moClasses facets moClass facet actual desired p
  exact hplan fkkKlasse moClasses facets moClass facet actual desired p hk

end

/-- With given answers, the first mutation of a synchronisation is that of the
plan that follows. -/
theorem sync_first {answer : (c : Call) → Answer c} {P : Call → Prop} {R : SyncStatus → Prop}
    {uuid : UUID} {set : SetOrder}
    (hplan : ∀ moClass facet actual desired p, only (answer (.getClass uuid)) = .ok moClass →
      one (answer (.getFacet "kle_number")) = .ok facet → actualStates moClass = .ok actual →
      desiredStates (answer (.read uuid)) facet = .ok desired →
      Plan uuid set moClass facet actual desired p → p.First answer Call.IsMutation P R) :
    (sync uuid set).First answer Call.IsMutation P R := by
  rw [sync_eq]
  refine Or.inr ⟨id, Or.inr ⟨id, ?_⟩⟩
  apply First.ofExcept_bind
  intro moClass hmo
  refine Or.inr ⟨id, ?_⟩
  apply First.ofExcept_bind
  intro facet hfacet
  apply First.ofExcept_bind
  intro actual hactual
  apply First.ofExcept_bind
  intro desired hdesired
  exact hplan _ _ _ _ _ hmo hfacet hactual hdesired (reconcile_plan _ _ _ _ _ _)

theorem SetOrder.mem_order (set : SetOrder) {l : List ClassValidity} {v : ClassValidity} :
    v ∈ set.order l ↔ v ∈ l := (set.perm l).mem_iff

theorem updateAll_always {ok : Answers Answer} {Q : SyncProg → Prop}
    (hret : Q (ret .createOrUpdate)) (l : List ClassValidity)
    (hupdate : ∀ v rest, v ∈ l → Q (call (Call.mutate (.updateClass (classValidityToUpdateInput v)))
      fun _ => updateAll rest)) : (updateAll l).Always ok Q := by
  induction l with
  | nil => exact hret
  | cons v rest ih =>
    have hrest := ih fun w rest' hw => hupdate w rest' (List.mem_cons_of_mem v hw)
    exact ⟨hupdate v rest List.mem_cons_self, fun _ _ => hrest⟩

/-! ## Raising -/

theorem updateAll_notRaised (ok : Answers Answer) (l : List ClassValidity) :
    (updateAll l).Always ok NotRaised :=
  updateAll_always trivial l fun _ _ _ => trivial

/-- Nothing is raised once a mutation is made: the lookups and conversions all
come before. -/
theorem sync_safeAfter (uuid : UUID) (set : SetOrder) :
    (sync uuid set).Always (fun _ _ => True) (SafeAfter Call.IsMutation) := by
  have updates : ∀ l, (updateAll l).Always (fun _ _ => True) (SafeAfter Call.IsMutation) := by
    intro l
    apply updateAll_always trivial
    intro v rest _ _ _
    exact updateAll_notRaised _ rest
  apply sync_always
  · intro e
    trivial
  · intro c k hc hm
    exact absurd hm hc.not_mutation
  · intro _ _ _ moClass facet actual desired p _ _ _ _ _ _ _ plan
    cases plan with
    | upToDate | assertion | wontDelete => trivial
    | delete => exact ⟨fun _ _ => trivial, fun _ _ => trivial⟩
    | create _ v rest => exact ⟨fun _ _ => updateAll_notRaised _ rest, fun _ _ => updates rest⟩
    | truncate => exact ⟨fun _ _ => updateAll_notRaised _ _, fun _ _ => updates _⟩

/-- The conversion raises a `ValueError` exactly when it is undefined at some
instant from the earliest bound on and before the latest, and a synchronisation
in which anything raises has made no mutation. -/
theorem conversion_failure_harmless (klasse : Klasse) (facet uuid : UUID) (set : SetOrder) :
    (∀ e, fkkKlasseToClassValidities klasse facet = .error e ↔
      e = .valueError ∧ ∃ t, (∃ a ∈ klasse.bounds, a.instant ≤ t) ∧
        (∃ b ∈ klasse.bounds, t < b.instant) ∧ Undefined klasse t) ∧
    ∀ tr e, Makes (sync uuid set) tr (raise e) → ∀ x ∈ tr, ¬ Call.IsMutation x.1 :=
  ⟨conversion_raises_iff klasse facet, fun _ _ h => (sync_safeAfter uuid set).none_before_raise h⟩

/-- A Klasse with an Egenskab but no publiceret entry. -/
def neverStated : Klasse :=
  { itSikkerhed with tilstandPubliceret := [] }

theorem conversion_failure_harmless_neverStated :
    fkkKlasseToClassValidities neverStated 1 = .error .valueError ∧
    ∃ tr, Makes (sync itSikkerhed.uuid .insertion) tr (raise .valueError) ∧
      tr.length = 3 ∧ ∀ x ∈ tr, ¬ Call.IsMutation x.1 := by
  obtain ⟨raises, harmless⟩ :=
    conversion_failure_harmless neverStated 1 itSikkerhed.uuid .insertion
  have h1988 : Datetime.ofDate 1988 1 1 0 cet ∈ neverStated.bounds := List.mem_cons_self
  have h2001 : Datetime.ofDate 2001 9 11 0 cet ∈ neverStated.bounds :=
    List.mem_cons_of_mem _ List.mem_cons_self
  have hrun : Makes (sync itSikkerhed.uuid .insertion)
      [⟨Call.read itSikkerhed.uuid, some neverStated⟩, ⟨Call.getClass itSikkerhed.uuid, []⟩,
        ⟨Call.getFacet "kle_number", [1]⟩] (raise .valueError) :=
    Makes.cons (Makes.cons (Makes.cons (Makes.nil _)))
  refine ⟨(raises _).mpr ⟨rfl, _, ⟨_, h1988, le_rfl⟩, ⟨_, h2001, by decide⟩, ?_⟩,
    _, hrun, rfl, harmless _ _ hrun⟩
  exact Or.inl (by decide)

end Os2moFkk
