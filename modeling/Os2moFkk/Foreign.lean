import Os2moFkk.World

/-!
# Classes that are not FKK's

MO announces every class, so `sync` is called for all of them. It mutates no
class but the one it is called for, and leaves that one alone when nothing is
desired and a validity of it lies outside the facet.
-/

namespace Os2moFkk
open Itertools Prog

/-- FKK answers with the Klasse that was asked for. -/
def FkkAnswers : Answers Answer
  | .read uuid, klasse => ∀ k, klasse = some k → k.uuid = uuid
  | _, _ => True

/-- A call that reads or mutates this class only. -/
def Call.Concerns (uuid : UUID) : Call → Prop
  | mutate m => m.uuid = uuid
  | c => c.LooksUp uuid

theorem sync_concerns (uuid : UUID) (set : SetOrder) :
    (sync uuid set).Calls FkkAnswers (Call.Concerns uuid) := by
  apply sync_always
  · intro e
    trivial
  · intro c k hc
    cases c with
    | mutate => exact hc.elim
    | read | getClass | getFacet => exact hc
  · intro fkkKlasse _ _ moClass facet actual desired p hk _ _ _ _ _ hdesired plan
    have updates : ∀ l, (∀ v ∈ l, v ∈ desired) →
        (updateAll l).Calls FkkAnswers (Call.Concerns uuid) := by
      intro l hl
      apply updateAll_always trivial
      intro v rest hv
      exact (uuid_of_desired hdesired (hl v hv) hk).1
    cases plan with
    | upToDate | assertion | wontDelete => trivial
    | delete => exact ⟨rfl, fun _ _ => trivial⟩
    | create _ v rest horder =>
      have hmem : ∀ x ∈ v :: rest, x ∈ desired := fun x hx => set.mem_order.mp (horder ▸ hx)
      exact ⟨(uuid_of_desired hdesired (hmem v List.mem_cons_self) hk).1,
        fun _ _ => updates rest fun x hx => hmem x (List.mem_cons_of_mem v hx)⟩
    | truncate => exact ⟨rfl, fun _ _ => updates _ fun x hx => set.mem_order.mp hx⟩

variable {σ : Type} (mo : MO σ) (kle : UUID)

/-- The class has a validity outside the facet and FKK wants nothing of it. -/
def Protected (uuid : UUID) (w : World σ) : Prop :=
  (∃ c ∈ mo.getClass (w.systems.classes uuid), ∃ v ∈ c.validities, v.facetUuid ≠ kle) ∧
    ∀ desired, desiredStates (w.systems.read uuid) kle = .ok desired → desired = []

/-- The answers in a world in which the class is protected. -/
def ProtectedAnswers (uuid : UUID) : Answers Answer
  | .read uuid', (klasse : Option Klasse) => uuid' = uuid →
      ∀ desired, desiredStates klasse kle = .ok desired → desired = []
  | .getClass uuid', (classes : List GetClassObject) => uuid' = uuid →
      ∃ c ∈ classes, ∃ v ∈ c.validities, v.facetUuid ≠ kle
  | .getFacet userKey, (facets : List UUID) => userKey = "kle_number" → facets = [kle]
  | .mutate _, _ => True

variable {mo kle}

theorem protected_answers {uuid : UUID} {w : World σ} (h : Protected mo kle uuid w) (c : Call) :
    ProtectedAnswers kle uuid c (w.systems.answer mo kle c) := by
  cases c with
  | read uuid' => rintro rfl; exact h.2
  | getClass uuid' => rintro rfl; exact h.1
  | getFacet userKey => rintro rfl; rfl
  | mutate m => trivial

/-- Reading skips no state. -/
theorem read_ne_none (v : GetClassValidity) : moClassReadToClassValidity v ≠ .ok none := by
  unfold moClassReadToClassValidity
  cases v.validity.to_ with
  | none => simp
  | some d =>
    by_cases hd : d.IsMidnight
    · cases hadd : d.addDay <;> simp [hd, hadd, Functor.map, Except.map]
    · simp [hd]

theorem exists_read {c : GetClassObject} {v : GetClassValidity} {l : List ClassValidity}
    (h : moClassReadToClassValidities c = .ok l) (hv : v ∈ c.validities) : ∃ x, x ∈ l := by
  obtain ⟨y, hy⟩ := collect_each_ok h hv
  cases y with
  | none => exact absurd hy (read_ne_none v)
  | some x => exact ⟨x, (mem_collect h x).mpr ⟨v, hv, hy⟩⟩

/-- A class with a validity outside the facet is read as one with states and
not as one under the facet only. -/
theorem foreign_class {c : GetClassObject} {v : GetClassValidity} {actual : List ClassValidity}
    (hv : v ∈ c.validities) (hfacet : v.facetUuid ≠ kle)
    (hactual : actualStates (some c) = .ok actual) : actual ≠ [] ∧ ¬ OnlyFacet kle c := by
  constructor
  · rintro rfl
    simp only [actualStates] at hactual
    cases hread : moClassReadToClassValidities c with
    | error e => rw [hread] at hactual; cases hactual
    | ok l =>
      rw [hread] at hactual
      have hnil : l = [] := KeyedSet.ofList_eq_nil.mp (Except.ok.inj hactual)
      obtain ⟨x, hx⟩ := exists_read hread hv
      rw [hnil] at hx
      cases hx
  · intro honly
    have hm : v.facetUuid ∈ (c.validities.map GetClassValidity.facetUuid).map id := by
      simpa using ⟨v, hv, rfl⟩
    exact hfacet (by simpa using (honly _).mp hm)

theorem sync_protected (uuid : UUID) (set : SetOrder) :
    (sync uuid set).Calls (ProtectedAnswers kle uuid) fun c => ¬ c.IsMutation := by
  apply sync_always
  · intro e
    trivial
  · intro c k hc
    exact hc.not_mutation
  · intro fkkKlasse moClasses facets moClass facet actual desired p hk hc hf hmo hone hactual
      hdesired plan
    obtain rfl : facet = kle := by
      have hkle : facets = [kle] := hf rfl
      rw [hkle] at hone
      exact (Except.ok.inj hone).symm
    have hempty : desired = [] := hk rfl desired hdesired
    obtain ⟨c, hcm, v, hv, hfacet⟩ := hc rfl
    rw [only_eq_ok.mp hmo, Option.mem_toList] at hcm
    subst hcm
    obtain ⟨hne, hforeign⟩ := foreign_class hv hfacet hactual
    cases plan with
    | upToDate | assertion | wontDelete => trivial
    | delete c' hsome _ honly =>
      cases hsome
      exact absurd honly hforeign
    | create hnone => exact absurd hnone hne
    | truncate _ hnonempty => exact absurd hempty hnonempty

theorem fkk_answers (s : Systems σ) (c : Call) : FkkAnswers c (s.answer mo kle c) := by
  cases c with
  | read uuid => exact fun k hk => Systems.uuid_of_read hk
  | getClass | getFacet | mutate => trivial

/-- A run on a class sees FKK and MO at this class only. -/
theorem answer_congr {uuid : UUID} {s s' : Systems σ} (hread : s'.read uuid = s.read uuid)
    (hclass : s'.classes uuid = s.classes uuid) (c : Call) (hc : c.Concerns uuid) :
    s.answer mo kle c = s'.answer mo kle c := by
  cases c with
  | read uuid' =>
    obtain rfl : uuid' = uuid := hc
    exact hread.symm
  | getClass uuid' =>
    obtain rfl : uuid' = uuid := hc
    exact (congrArg mo.getClass hclass).symm
  | getFacet | mutate => rfl

/-- A class changes only when it is edited or a run on it mutates it. -/
theorem step_unchanged {w w' : World σ} {e : Event σ} {uuid : UUID} (h : Step mo kle w e w')
    (hcalls : ∀ r ∈ w.runs, r.rest.Calls FkkAnswers (Call.Concerns r.uuid))
    (hedit : ∀ s, e ≠ .edit uuid s) (hmutate : ∀ m, e ≠ .call uuid (.mutate m)) :
    w'.systems.classes uuid = w.systems.classes uuid := by
  rw [step_classes h]
  cases e with
  | change | deliver | post | ret | fail => rfl
  | edit uuid' s =>
    apply if_neg
    intro heq
    exact hedit s (heq ▸ rfl)
  | call uuid' c =>
    cases c with
    | read | getClass | getFacet => rfl
    | mutate m =>
      apply if_neg
      intro heq
      obtain ⟨message, k, hr, _⟩ := step_call h
      have hown : m.uuid = uuid' := (hcalls _ hr).now
      exact hmutate m (hown.symm.trans heq ▸ rfl)

/-- What the edits of other MO users made of a class. -/
def lastEdit (uuid : UUID) (es : List (Event σ)) (s : σ) : σ :=
  es.foldl (fun s e => match e with
    | .edit uuid' states => if uuid' = uuid then states else s
    | _ => s) s

section
variable {P : World σ → Prop} {w₀ w : World σ} {es : List (Event σ)}

/-- Without a mutation of it, a class is what other users made of it. -/
theorem Exec.classes_eq_lastEdit {uuid : UUID} (h : Exec mo kle P w₀ es w)
    (hnone : ∀ u m, .call u (.mutate m) ∈ es → m.uuid ≠ uuid) :
    w.systems.classes uuid = lastEdit uuid es (w₀.systems.classes uuid) := by
  induction h with
  | start => rfl
  | step run next _ ih =>
    rename_i es w w' e _
    have hold := ih fun u m hm => hnone u m (List.mem_append_left _ hm)
    have happend : lastEdit uuid (es ++ [e]) (w₀.systems.classes uuid) =
        lastEdit uuid [e] (lastEdit uuid es (w₀.systems.classes uuid)) := List.foldl_append
    rw [step_classes next, happend, ← hold]
    cases e with
    | call u c =>
      cases c with
      | read | getClass | getFacet => rfl
      | mutate m => exact if_neg (hnone u m (by simp))
    | change | edit | deliver | post | ret | fail => rfl

/-- However the synchronisations of any classes, the changes of FKK and the edits
of other users interleave: a synchronisation mutates no class but its own, and a
class that is protected at every moment is not mutated at all, so that it stays
what other users made of it. -/
theorem foreign_class_untouched (h : Exec mo kle P w₀ es w) (hruns : w₀.runs = []) :
    (∀ uuid m, .call uuid (.mutate m) ∈ es → m.uuid = uuid) ∧
    ∀ uuid, (∀ w, P w → Protected mo kle uuid w) →
      (∀ uuid' m, .call uuid' (.mutate m) ∈ es → m.uuid ≠ uuid) ∧
      w.systems.classes uuid = lastEdit uuid es (w₀.systems.classes uuid) := by
  have own : ∀ uuid m, .call uuid (.mutate m) ∈ es → m.uuid = uuid := by
    intro uuid m hm
    exact h.calls hruns (sync_concerns uuid) (fun _ => fkk_answers _) _ hm
  refine ⟨own, fun uuid hprotected => ?_⟩
  have hnone : ∀ uuid' m, .call uuid' (.mutate m) ∈ es → m.uuid ≠ uuid := by
    intro uuid' m hm huuid
    have huuid' : uuid' = uuid := (own uuid' m hm).symm.trans huuid
    subst huuid'
    exact h.calls hruns (sync_protected uuid')
      (fun hP => protected_answers (hprotected _ hP)) _ hm trivial
  exact ⟨hnone, h.classes_eq_lastEdit hnone⟩

end

/-- A class that is not FKK's, in facet 2, with the given name. -/
def otherClass (name : String) : ClassStates Datetime :=
  some [⟨⟨some (Datetime.ofDate 2020 1 1 0 cet), none⟩, (2, 7, "x", name, none)⟩]

theorem otherClass_protected {name : String} {w : World (ClassStates Datetime)}
    (hclass : w.systems.classes 7 = otherClass name) (hfkk : w.systems.read 7 = none) :
    Protected Keeper.exact.mo 1 7 w := by
  constructor
  · rw [hclass]
    exact ⟨_, List.mem_cons_self, _, List.mem_cons_self, (by decide : (2 : UUID) ≠ 1)⟩
  · intro desired h
    rw [hfkk] at h
    exact (Except.ok.inj h).symm

/-- A synchronisation begins, another user renames the class, and the
synchronisation goes on. -/
theorem foreign_class_untouched_renamed :
    ∃ w₀ : World (ClassStates Datetime), w₀.systems.classes 7 = otherClass "a" ∧
    ∃ es w, w.returned = [(7, .wontDelete)] ∧
      Exec Keeper.exact.mo 1 (Protected Keeper.exact.mo 1 7) w₀ es w ∧
      (∀ uuid' m, .call uuid' (.mutate m) ∈ es → m.uuid ≠ 7) ∧
      w.systems.classes 7 = lastEdit 7 es (otherClass "a") := by
  let w₀ : World (ClassStates Datetime) :=
    { systems := { fkk := fun _ => none, classes := fun _ => otherClass "a" }
      queue := [], runs := [], returned := [] }
  have start : Exec Keeper.exact.mo 1 (Protected Keeper.exact.mo 1 7) w₀ [] w₀ :=
    .start (otherClass_protected rfl rfl)
  have begun := start.step (.post w₀ 7 .insertion) (otherClass_protected rfl rfl)
  have read := begun.step (.call _ [] [] 7 none (.read 7) _ rfl) (otherClass_protected rfl rfl)
  have edited := read.step (.edit _ 7 (otherClass "b"))
    (otherClass_protected rfl rfl)
  have compared := (edited.step (.call _ [] [] 7 none (.getClass 7) _ rfl)
      (otherClass_protected rfl rfl)).step
    (.call _ [] [] 7 none (.getFacet "kle_number") _ rfl)
      (otherClass_protected rfl rfl)
  have returned := compared.step (.ret _ [] [] 7 none .wontDelete rfl)
    (otherClass_protected rfl rfl)
  obtain ⟨_, untouched⟩ := foreign_class_untouched returned rfl
  obtain ⟨hnone, hclass⟩ := untouched 7 fun w hw => hw
  exact ⟨w₀, rfl, _, _, rfl, returned, hnone, hclass⟩

end Os2moFkk
