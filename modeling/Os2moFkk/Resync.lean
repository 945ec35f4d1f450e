import Os2moFkk.Foreign

/-!
# No stale overwrite survives

A synchronisation may act on a Klasse that is out of date, or stop halfway. What
it leaves does not stay: every change queues a message, and a message is only
removed by a run that compared the class with FKK and found nothing to do, or
that made a mutation, which queued another.
-/

namespace Os2moFkk
open Itertools Prog

variable {σ : Type} (mo : MO σ) (kle : UUID)

/-- The class is what a synchronisation wants of the present Klasse, or nothing
is wanted and a validity of the class lies outside the facet. -/
def Settled (uuid : UUID) (s : Systems σ) : Prop :=
  ∃ moClass actual desired, only (mo.getClass (s.classes uuid)) = .ok moClass ∧
    actualStates moClass = .ok actual ∧ desiredStates (s.read uuid) kle = .ok desired ∧
    (KeyedSet.Same ClassValidity.value actual desired ∨
      desired = [] ∧ ∃ c, moClass = some c ∧ ∃ v ∈ c.validities, v.facetUuid ≠ kle)

/-- With the present answers, the run mutates before it returns, or the class is
settled. -/
def Attends (uuid : UUID) (s : Systems σ) (p : SyncProg) : Prop :=
  p.First (s.answer mo kle) Call.IsMutation (fun _ => True) fun _ => Settled mo kle uuid s

/-- Why a class needs no further message. -/
inductive Attended (uuid : UUID) (w : World σ) : Prop where
  | settled (h : Settled mo kle uuid w.systems)
  | queued (m : Message) (hm : m ∈ w.queue) (hu : m.uuid = uuid)
  | running (r : Run) (hr : r ∈ w.runs) (hu : r.uuid = uuid) (m : Message)
      (hm : r.message = some m) (hmu : m.uuid = uuid) (h : Attends mo kle uuid w.systems r.rest)

variable {mo kle}

theorem Settled.congr {uuid : UUID} {s s' : Systems σ} (h : Settled mo kle uuid s)
    (hread : s'.read uuid = s.read uuid) (hclass : s'.classes uuid = s.classes uuid) :
    Settled mo kle uuid s' := by
  unfold Settled at *
  rwa [hread, hclass]

theorem Attends.congr {uuid : UUID} {s s' : Systems σ} {p : SyncProg}
    (h : Attends mo kle uuid s p) (hcalls : p.Calls FkkAnswers (Call.Concerns uuid))
    (hread : s'.read uuid = s.read uuid) (hclass : s'.classes uuid = s.classes uuid) :
    Attends mo kle uuid s' p := by
  apply First.congr h hcalls (fkk_answers s) (answer_congr hread hclass)
  intro _ hs
  exact hs.congr hread hclass

/-- A class with states that is not under the facet only has a validity outside
it. -/
theorem exists_foreign {c : GetClassObject} {actual : List ClassValidity}
    (hactual : actualStates (some c) = .ok actual) (hne : actual ≠ [])
    (hforeign : ¬ OnlyFacet kle c) : ∃ v ∈ c.validities, v.facetUuid ≠ kle := by
  by_contra hnone
  push Not at hnone
  have hvalidities : c.validities ≠ [] := by
    intro hnil
    simp only [actualStates, moClassReadToClassValidities, hnil, collect] at hactual
    exact hne (Except.ok.inj hactual).symm
  obtain ⟨v, hv⟩ := List.exists_mem_of_ne_nil _ hvalidities
  apply hforeign
  intro facet
  simp only [List.map_map, List.mem_map, List.mem_singleton, List.map_cons, List.map_nil,
    Function.comp_apply, id]
  constructor
  · rintro ⟨x, hx, rfl⟩
    exact hnone x hx
  · rintro rfl
    exact ⟨v, hv, hnone v hv⟩

/-- A synchronisation attends to the class: it returns without a mutation only
when it found it settled. -/
theorem sync_attends (uuid : UUID) (set : SetOrder) (s : Systems σ) :
    Attends mo kle uuid s (sync uuid set) := by
  apply sync_first
  intro moClass facet actual desired p hmo hfacet hactual hdesired plan
  obtain rfl : kle = facet := Except.ok.inj hfacet
  cases plan with
  | upToDate hsame => exact ⟨moClass, actual, desired, hmo, hactual, hdesired, Or.inl hsame⟩
  | assertion => trivial
  | wontDelete c hsome hempty hforeign hdiffer =>
    subst hsome
    have hne : actual ≠ [] := by
      intro hnil
      apply hdiffer
      rw [hnil, hempty]
      exact KeyedSet.Same.refl _ _
    exact ⟨some c, actual, desired, hmo, hactual, hdesired,
      Or.inr ⟨hempty, c, rfl, exists_foreign hactual hne hforeign⟩⟩
  | delete | create | truncate => exact Or.inl ⟨trivial, trivial⟩

/-! ## Every step leaves the class attended -/

section
variable {w w' : World σ} {e : Event σ} {uuid : UUID}

/-- A run that attends still does after a step, unless it settled the class or a
message is queued. -/
theorem step_attending (h : Step mo kle w e w') {r : Run} (hr : r ∈ w.runs) (hu : r.uuid = uuid)
    {m : Message} (hm : r.message = some m) (hmu : m.uuid = uuid)
    (hattends : Attends mo kle uuid w.systems r.rest)
    (hcalls : r.rest.Calls FkkAnswers (Call.Concerns uuid))
    (hread : w'.systems.read uuid = w.systems.read uuid)
    (hclass : w'.systems.classes uuid = w.systems.classes uuid) : Attended mo kle uuid w' := by
  rcases step_run h hr with hkept | ⟨c, k, hrest, rfl, hnext⟩ | ⟨status, hrest, _⟩ | ⟨_, hrequeued⟩
  · exact .running r hkept hu m hm hmu (hattends.congr hcalls hread hclass)
  · rw [hrest] at hattends hcalls
    cases hattends.answer with
    | inl hmutation =>
      cases c with
      | mutate m' => exact .queued _ (step_mutation h) hcalls.now
      | read | getClass | getFacet => exact hmutation.1.elim
    | inr hnot =>
      have hattends' := Attends.congr hnot.2 (hcalls.answer (fkk_answers w.systems c)) hread hclass
      exact .running _ hnext hu m hm hmu hattends'
  · rw [hrest] at hattends
    exact .settled (Settled.congr hattends hread hclass)
  · exact .queued m (hrequeued m hm) hmu

theorem step_attended (h : Step mo kle w e w')
    (hcalls : ∀ r ∈ w.runs, r.uuid = uuid → r.rest.Calls FkkAnswers (Call.Concerns uuid))
    (hattended : Attended mo kle uuid w) : Attended mo kle uuid w' := by
  cases step_announced h uuid with
  | inr hqueued =>
    obtain ⟨m, hm, hu⟩ := hqueued
    exact .queued m hm hu
  | inl hsame =>
    obtain ⟨hread, hclass⟩ := hsame
    cases hattended with
    | settled hs => exact .settled (hs.congr hread hclass)
    | queued m hm hu =>
      cases step_message h hm with
      | inl hkept => exact .queued m hkept hu
      | inr hbegun =>
        obtain ⟨set, hr⟩ := hbegun
        subst hu
        exact .running _ hr rfl m rfl rfl (sync_attends m.uuid set w'.systems)
    | running r hr hu m hm hmu hattends =>
      exact step_attending h hr hu hm hmu hattends (hcalls r hr hu) hread hclass

/-- When no message about a class is queued and no synchronisation of it is in
progress, MO and the present Klasse agree on it, or nothing is wanted and the
class has a validity outside the facet. -/
theorem settled_when_quiet {P : World σ → Prop} {w₀ : World σ} {es : List (Event σ)}
    (h : Exec mo kle P w₀ es w) (hruns : w₀.runs = [])
    (hstart : Settled mo kle uuid w₀.systems ∨ ∃ m ∈ w₀.queue, m.uuid = uuid)
    (hqueue : ∀ m ∈ w.queue, m.uuid ≠ uuid) (hquiet : ∀ r ∈ w.runs, r.uuid ≠ uuid) :
    Settled mo kle uuid w.systems := by
  have hattended : Attended mo kle uuid w₀ := by
    cases hstart with
    | inl hs => exact .settled hs
    | inr hqueued =>
      obtain ⟨m, hm, hu⟩ := hqueued
      exact .queued m hm hu
  have hinv := h.invariant (E := fun _ => True)
    (I := fun w => Attended mo kle uuid w ∧
      ∀ r ∈ w.runs, r.uuid = uuid → r.rest.Calls FkkAnswers (Call.Concerns uuid))
    ⟨hattended, fun r hr => by rw [hruns] at hr; cases hr⟩ (fun _ _ => trivial)
    fun _ hI _ hstep => ⟨step_attended hstep hI.2 hI.1,
      step_always hstep (sync_concerns uuid) (fkk_answers _) hI.2⟩
  cases hinv.1 with
  | settled hs => exact hs
  | queued m hm hu => exact absurd hu (hqueue m hm)
  | running r hr hu => exact absurd hu (hquiet r hr)

end

/-- A published Klasse that MO does not have yet, with a message about it. -/
def newKlasse : Klasse :=
  .single 7 "85.15.02" "IT-sikkerhed"
    ⟨Datetime.ofDate 2020 1 1 0 cet, .positiveInfinity, by decide, trivial⟩

/-- The message is handled, which creates the class, and so is the message that
this queues, which finds nothing to do. -/
theorem settled_when_quiet_newKlasse :
    ∃ (w₀ w : World (ClassStates Datetime)) (es : List (Event (ClassStates Datetime))),
      Exec Keeper.exact.mo 1 (fun _ => True) w₀ es w ∧ w₀.systems.read 7 = some newKlasse ∧
      w₀.systems.classes 7 = none ∧
      w.returned = [(7, .upToDate), (7, .createOrUpdate)] ∧
      Settled Keeper.exact.mo 1 7 w.systems := by
  let w₀ : World (ClassStates Datetime) :=
    { systems := .holding ⟨newKlasse, rfl⟩ none
      queue := [⟨.fkk, 7⟩], runs := [], returned := [] }
  have start : Exec Keeper.exact.mo 1 (fun _ => True) w₀ [] w₀ := .start trivial
  have read := (start.step (.deliver w₀ [] [] _ .insertion rfl) trivial).step
    (.call _ [] [] 7 _ (.read 7) _ rfl) trivial
  have compared := (read.step (.call _ [] [] 7 _ (.getClass 7) _ rfl) trivial).step
    (.call _ [] [] 7 _ (.getFacet "kle_number") _ rfl) trivial
  have created := (compared.step (.call _ [] [] 7 _ (.mutate _) _ rfl) trivial).step
    (.ret _ [] [] 7 _ .createOrUpdate rfl) trivial
  have reread := (created.step (.deliver _ [] [] _ .insertion rfl) trivial).step
    (.call _ [] [] 7 _ (.read 7) _ rfl) trivial
  have recompared := (reread.step (.call _ [] [] 7 _ (.getClass 7) _ rfl) trivial).step
    (.call _ [] [] 7 _ (.getFacet "kle_number") _ rfl) trivial
  have returned := recompared.step (.ret _ [] [] 7 _ .upToDate rfl) trivial
  refine ⟨w₀, _, _, returned, rfl, rfl, rfl, settled_when_quiet returned rfl ?_ ?_ ?_⟩
  · exact Or.inr ⟨_, List.mem_cons_self, rfl⟩
  · intro m hm
    cases hm
  · intro r hr
    cases hr

end Os2moFkk
