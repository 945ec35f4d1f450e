import Os2moFkk.Sync

/-!
# What is shown is what is written

`GET /read/{uuid}/mo` shows the converted Klasse without writing it. A
synchronisation that is answered the same writes just that, with whole days for
validities and without those of a single day.
-/

namespace Os2moFkk
open Itertools Prog

/-- Read klassifikation from FKK and convert it to MO validity states. -/
def readMo (uuid : UUID) : Client (Option (List ClassValidity)) := do
  match ← fkkRead uuid with
  | none => return none
  | some parsed =>
    let kleNumberFacet ← ofExcept (one (← getFacet "kle_number"))
    return some (← ofExcept (fkkKlasseToClassValidities parsed kleNumberFacet))

/-- The states that a call writes. -/
def Call.written : Call → List ClassInput
  | mutate (.createClass input) => [input]
  | mutate (.updateClass input) => [input]
  | _ => []

/-- The states that are written, in order. -/
def written (made : List ((c : Call) × Answer c)) : List ClassInput := made.flatMap (·.1.written)

section
variable {uuid : UUID} {set : SetOrder} {made : List ((c : Call) × Answer c)} {status : SyncStatus}

/-- What a synchronisation that has returned was answered. -/
theorem sync_makes (h : Makes (sync uuid set) made (ret status)) :
    ∃ klasse moClasses facets rest moClass facet actual desired,
      made = ⟨.read uuid, klasse⟩ :: ⟨.getClass uuid, moClasses⟩ ::
        ⟨.getFacet "kle_number", facets⟩ :: rest ∧
      one facets = .ok facet ∧ only moClasses = .ok moClass ∧ actualStates moClass = .ok actual ∧
      desiredStates klasse facet = .ok desired ∧
      Makes (reconcile uuid set moClass facet actual desired) rest (ret status) := by
  obtain ⟨klasse, _, rfl, h₁⟩ := h.call_ret
  obtain ⟨moClasses, _, rfl, h₂⟩ := h₁.call_ret
  obtain ⟨moClass, hmoClass, h₃⟩ := h₂.ofExcept_bind_ret
  obtain ⟨facets, rest, rfl, h₄⟩ := h₃.call_ret
  obtain ⟨facet, hfacet, h₅⟩ := h₄.ofExcept_bind_ret
  obtain ⟨actual, hactual, h₆⟩ := h₅.ofExcept_bind_ret
  obtain ⟨desired, hdesired, h₇⟩ := h₆.ofExcept_bind_ret
  exact ⟨klasse, moClasses, facets, rest, moClass, facet, actual, desired, rfl, hfacet, hmoClass,
    hactual, hdesired, h₇⟩

theorem updateAll_makes {l : List ClassValidity} (h : Makes (updateAll l) made (ret status)) :
    status = .createOrUpdate ∧ written made = l.map classValidityToUpdateInput := by
  induction l generalizing made with
  | nil =>
    cases h
    exact ⟨rfl, rfl⟩
  | cons v rest ih =>
    obtain ⟨_, later, rfl, hrest⟩ := h.call_ret
    obtain ⟨hstatus, hwritten⟩ := ih hrest
    exact ⟨hstatus, congrArg (classValidityToUpdateInput v :: ·) hwritten⟩

/-- What a synchronisation writes: all that is desired, or nothing. -/
inductive Written (actual desired : List ClassValidity) (inputs : List ClassInput) :
    SyncStatus → Prop
  | all (perm : inputs.Perm (desired.map classValidityToUpdateInput)) :
      Written actual desired inputs .createOrUpdate
  | same (same : KeyedSet.Same ClassValidity.value actual desired) (nothing : inputs = []) :
      Written actual desired inputs .upToDate
  | deleted (undesired : desired = []) (nothing : inputs = []) :
      Written actual desired inputs .delete
  | kept (undesired : desired = []) (nothing : inputs = []) :
      Written actual desired inputs .wontDelete

theorem reconcile_makes {moClass : Option GetClassObject} {facet : UUID}
    {actual desired : List ClassValidity}
    (h : Makes (reconcile uuid set moClass facet actual desired) made (ret status)) :
    Written actual desired (written made) status := by
  have hperm := (set.perm desired).map classValidityToUpdateInput
  have plan := reconcile_plan uuid set moClass facet actual desired
  generalize reconcile uuid set moClass facet actual desired = p at h plan
  cases plan with
  | upToDate same =>
    cases h
    exact .same same rfl
  | assertion => cases h
  | wontDelete c some empty =>
    cases h
    exact .kept empty rfl
  | delete c some empty =>
    obtain ⟨_, rest, rfl, hrest⟩ := h.call_ret
    cases hrest
    exact .deleted empty rfl
  | create none v rest order =>
    obtain ⟨_, later, rfl, hlater⟩ := h.call_ret
    obtain ⟨rfl, hwritten⟩ := updateAll_makes hlater
    rw [order] at hperm
    refine .all (List.Perm.trans (List.Perm.of_eq ?_) hperm)
    exact congrArg (classValidityToCreateInput v :: ·) hwritten
  | truncate =>
    obtain ⟨_, later, rfl, hlater⟩ := h.call_ret
    obtain ⟨rfl, hwritten⟩ := updateAll_makes hlater
    exact .all ((List.Perm.of_eq hwritten).trans hperm)

end

/-- Answered the same by FKK and about the facet, a synchronisation that returns
has written what is shown, as dated states, or none of it: because MO has just
that, or because nothing is left of it. -/
theorem shown_is_written {uuid : UUID} {set : SetOrder} {status : SyncStatus}
    {shown : Option (List ClassValidity)} {made made' : List ((c : Call) × Answer c)}
    (hsync : Makes (sync uuid set) made (ret status))
    (hshown : Makes (readMo uuid) made' (ret shown))
    (hsame : ∀ c a a', ⟨c, a⟩ ∈ made → ⟨c, a'⟩ ∈ made' → a = a') :
    ∃ moClasses moClass actual, ⟨.getClass uuid, moClasses⟩ ∈ made ∧
      only moClasses = .ok moClass ∧ actualStates moClass = .ok actual ∧
      Written actual (datedStates (shown.getD [])) (written made) status := by
  obtain ⟨klasse, moClasses, facets, rest, moClass, facet, actual, desired, rfl, hfacet, hmoClass,
    hactual, hdesired, hrest⟩ := sync_makes hsync
  refine ⟨moClasses, moClass, actual, by simp, hmoClass, hactual, ?_⟩
  have hwritten := reconcile_makes hrest
  obtain ⟨klasse', rest', rfl, hrest'⟩ := hshown.call_ret
  obtain rfl : klasse = klasse' := hsame _ _ _ List.mem_cons_self List.mem_cons_self
  cases klasse with
  | none =>
    obtain rfl := Except.ok.inj hdesired
    cases hrest'
    exact hwritten
  | some k =>
    obtain ⟨facets', later, rfl, h₁⟩ := hrest'.call_ret
    obtain rfl : facets = facets' := hsame (.getFacet "kle_number") _ _ (by simp) (by simp)
    obtain ⟨facet', hfacet', h₂⟩ := h₁.ofExcept_bind_ret
    obtain rfl := Except.ok.inj (hfacet.symm.trans hfacet')
    obtain ⟨l, hl, h₃⟩ := h₂.ofExcept_bind_ret
    obtain ⟨l', hl', rfl⟩ := desiredStates_some.mp hdesired
    obtain rfl := Except.ok.inj (hl'.symm.trans hl)
    cases h₃
    exact hwritten

def shownKlasse : Klasse :=
  .single 7 "85.15.02" "IT-sikkerhed"
    ⟨Datetime.ofDate 2018 1 1 0 cet, .positiveInfinity, by decide, trivial⟩

/-- It is created in MO as it is shown. -/
theorem shown_is_written_created : ∃ made made' shown,
    Makes (sync 7 .insertion) made (ret .createOrUpdate) ∧
      Makes (readMo 7) made' (ret (some shown)) ∧
      (written made).Perm ((datedStates shown).map classValidityToUpdateInput) := by
  have hshown : ∃ shown, Makes (readMo 7) [⟨.read 7, some shownKlasse⟩,
      ⟨.getFacet "kle_number", [(1 : UUID)]⟩] (ret (some shown)) :=
    ⟨_, .cons (.cons (.nil _))⟩
  have hsync : ∃ m, Makes (sync 7 .insertion) [⟨.read 7, some shownKlasse⟩,
      ⟨.getClass 7, ([] : List GetClassObject)⟩, ⟨.getFacet "kle_number", [(1 : UUID)]⟩,
      ⟨.mutate m, ()⟩] (ret .createOrUpdate) :=
    ⟨_, .cons (.cons (.cons (.cons (.nil _))))⟩
  obtain ⟨shown, hshown⟩ := hshown
  obtain ⟨m, hsync⟩ := hsync
  refine ⟨_, _, shown, hsync, hshown, ?_⟩
  obtain ⟨_, _, _, _, _, _, hwritten⟩ := shown_is_written hsync hshown fun c a a' ha ha' => by
    simp only [List.mem_cons, List.not_mem_nil, or_false] at ha ha'
    rcases ha' with h' | h' <;> cases h' <;> rcases ha with h | h | h | h <;> cases h <;> rfl
  cases hwritten with
  | all perm => exact perm

end Os2moFkk
