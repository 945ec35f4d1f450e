import Os2moFkk.Resync

/-!
# Concurrent synchronisations of one class agree

Each run plans from a single read, and its truncation may land in the middle of
another run's updates. Once the class has been mutated, it holds nothing but
desired states, and each desired state is there or still owed by some run
(`Working`): whoever clears the class owes all of it.
-/

namespace Os2moFkk
open Itertools Prog Timeline

/-- The answers while FKK does not change. -/
def FixedAnswers (uuid kle : UUID) (klasse : Option Klasse) : Answers Answer
  | .read uuid', (answer : Option Klasse) => uuid' = uuid → answer = klasse
  | .getFacet userKey, (facets : List UUID) => userKey = "kle_number" → facets = [kle]
  | _, _ => True

def Writes (v : ClassValidity) (c : Call) : Prop :=
  c = .mutate (.updateClass (classValidityToUpdateInput v))

/-- The next mutation is a truncation or writes a desired state, and a plan that
begins writes everything. -/
def Dutiful (uuid : UUID) (ok : Answers Answer) (desired : List ClassValidity) : SyncProg → Prop
  | .call (.mutate (.truncateClass uuid')) k =>
    uuid' = uuid ∧ ∀ d ∈ desired, (k ()).Eventually ok (Writes d)
  | .call (.mutate (.createClass input)) k => ∃ v ∈ desired, input = classValidityToCreateInput v ∧
    ∀ d ∈ desired, d = v ∨ (k ()).Eventually ok (Writes d)
  | .call (.mutate (.updateClass input)) _ =>
    ∃ v ∈ desired, input = classValidityToUpdateInput v
  | .call (.mutate (.deleteClass _)) _ => False
  | _ => True

theorem updateAll_eventually (ok : Answers Answer) {l : List ClassValidity} {d : ClassValidity}
    (h : d ∈ l) : (updateAll l).Eventually ok (Writes d) := by
  induction l with
  | nil => cases h
  | cons v rest ih =>
    cases List.mem_cons.mp h with
    | inl heq => exact Or.inl (heq ▸ rfl)
    | inr h => exact Or.inr fun _ _ => ih h

/-- The states of a class that MO keeps as they are written. -/
def statesOf (uuid : UUID) (s : Systems (ClassStates Datetime)) :
    List (Entry Datetime ClassValues) :=
  (s.classes uuid).getD []

section
variable {uuid kle : UUID} {klasse : Option Klasse} {desired : List ClassValidity}
  (hdesired : desiredStates klasse kle = .ok desired) (hne : desired ≠ [])
include hdesired hne

theorem sync_dutiful (set : SetOrder) :
    (sync uuid set).Always (FixedAnswers uuid kle klasse)
      (Dutiful uuid (FixedAnswers uuid kle klasse) desired) := by
  apply sync_always
  · intro e
    trivial
  · intro c k hc
    cases c with
    | mutate => exact hc.elim
    | read | getClass | getFacet => trivial
  · intro fkkKlasse _ facets moClass facet actual desired' p hk _ hf _ hfacet _ hdesired' plan
    obtain rfl : fkkKlasse = klasse := hk rfl
    obtain rfl : kle = facet := by
      rw [hf rfl] at hfacet
      exact Except.ok.inj hfacet
    obtain rfl : desired = desired' := Except.ok.inj (hdesired.symm.trans hdesired')
    have updates : ∀ l, (∀ v ∈ l, v ∈ desired) →
        (updateAll l).Always (FixedAnswers uuid kle fkkKlasse)
          (Dutiful uuid (FixedAnswers uuid kle fkkKlasse) desired) := by
      intro l hl
      apply updateAll_always trivial
      intro v rest hv
      exact ⟨v, hl v hv, rfl⟩
    cases plan with
    | upToDate | assertion | wontDelete => trivial
    | delete _ _ hempty => exact absurd hempty hne
    | create _ v rest horder =>
      have hmem : ∀ d, d ∈ v :: rest ↔ d ∈ desired := fun d => horder ▸ set.mem_order
      refine ⟨⟨v, (hmem v).mp List.mem_cons_self, rfl, fun d hd => ?_⟩, fun _ _ =>
        updates rest fun d hd => (hmem d).mp (List.mem_cons_of_mem v hd)⟩
      exact (List.mem_cons.mp ((hmem d).mpr hd)).imp id (updateAll_eventually _)
    | truncate =>
      exact ⟨⟨rfl, fun d hd => updateAll_eventually _ (set.mem_order.mpr hd)⟩,
        fun _ _ => updates _ fun d hd => set.mem_order.mp hd⟩

/-- MO's states of the class are the desired ones. -/
def Agreed (uuid : UUID) (desired : List ClassValidity) (s : Systems (ClassStates Datetime)) :
    Prop :=
  KeyedSet.Same ClassValidity.value ((statesOf uuid s).map Keeper.exact.readBack) desired

/-- Alone, the run truncates first, or creates a class that has no states, or
returns because MO agrees. -/
def Fresh (uuid kle : UUID) (desired : List ClassValidity) (s : Systems (ClassStates Datetime))
    (p : SyncProg) : Prop :=
  p.First (s.answer Keeper.exact.mo kle) Call.IsMutation
    (fun c => c = .mutate (.truncateClass uuid) ∨
      statesOf uuid s = [] ∧ ∃ input, c = .mutate (.createClass input))
    fun _ => Agreed uuid desired s

theorem sync_fresh {s : Systems (ClassStates Datetime)} (hread : s.read uuid = klasse)
    (set : SetOrder) : Fresh uuid kle desired s (sync uuid set) := by
  apply sync_first
  intro moClass facet actual desired' p hmo hfacet hactual hdesired' plan
  obtain rfl : kle = facet := Except.ok.inj hfacet
  obtain rfl : desired = desired' := by
    have hread' : desiredStates klasse kle = .ok desired' := hread ▸ hdesired'
    exact Except.ok.inj (hdesired.symm.trans hread')
  have hback : KeyedSet.Same ClassValidity.value actual
      ((statesOf uuid s).map Keeper.exact.readBack) := Keeper.read_class hmo hactual
  cases plan with
  | upToDate hsame => exact hback.symm.trans hsame
  | assertion => trivial
  | wontDelete _ _ hempty => exact absurd hempty hne
  | delete _ _ hempty => exact absurd hempty hne
  | create hnone =>
    subst hnone
    exact Or.inl ⟨trivial, Or.inr ⟨List.map_eq_nil_iff.mp hback.nil_left, _, rfl⟩⟩
  | truncate => exact Or.inl ⟨trivial, Or.inl rfl⟩

end

theorem Fresh.congr {uuid kle : UUID} {desired : List ClassValidity}
    {s s' : Systems (ClassStates Datetime)} {p : SyncProg} (h : Fresh uuid kle desired s p)
    (hcalls : p.Calls FkkAnswers (Call.Concerns uuid)) (hread : s'.read uuid = s.read uuid)
    (hclass : s'.classes uuid = s.classes uuid) : Fresh uuid kle desired s' p := by
  have hstates : statesOf uuid s' = statesOf uuid s := congrArg (Option.getD · []) hclass
  unfold Fresh Agreed at *
  rw [hstates]
  exact First.congr h hcalls (fkk_answers s) (answer_congr hread hclass) fun _ => id

/-! ## What the runs and the class are like -/

/-- No run has mutated the class yet. -/
structure Untouched (uuid kle : UUID) (desired : List ClassValidity)
    (w : World (ClassStates Datetime)) : Prop where
  fresh : ∀ r ∈ w.runs, r.uuid = uuid → Fresh uuid kle desired w.systems r.rest
  returned : ∀ status, (uuid, status) ∈ w.returned → Agreed uuid desired w.systems

/-- The first mutation of all truncates, or creates a class that has no states. -/
theorem Untouched.first {uuid kle : UUID} {desired : List ClassValidity}
    {w : World (ClassStates Datetime)} (hw : Untouched uuid kle desired w)
    {message : Option Message}
    {m : Mutation} {k : Answer (.mutate m) → SyncProg}
    (hr : ⟨uuid, message, .call (.mutate m) k⟩ ∈ w.runs) :
    m = .truncateClass uuid ∨ statesOf uuid w.systems = [] ∧ ∃ input, m = .createClass input := by
  cases First.answer (hw.fresh _ hr rfl) with
  | inr hnot => exact absurd trivial hnot.1
  | inl hfirst =>
    cases hfirst.2 with
    | inl htruncate => exact Or.inl (Call.mutate.inj htruncate)
    | inr hcreate =>
      obtain ⟨hempty, input, hinput⟩ := hcreate
      exact Or.inr ⟨hempty, input, Call.mutate.inj hinput⟩

/-- All states of the class are desired ones, and each desired one is there or
will be written. -/
structure Working (uuid kle : UUID) (klasse : Option Klasse) (desired : List ClassValidity)
    (w : World (ClassStates Datetime)) : Prop where
  only : ∀ e ∈ statesOf uuid w.systems, ∃ v ∈ desired, e = Keeper.exact.wanted v
  owed : ∀ d ∈ desired, Keeper.exact.wanted d ∈ statesOf uuid w.systems ∨
    ∃ r ∈ w.runs, r.uuid = uuid ∧ r.rest.Eventually (FixedAnswers uuid kle klasse) (Writes d)

section
variable {uuid kle : UUID} {klasse : Option Klasse} {desired : List ClassValidity}
  {w w' : World (ClassStates Datetime)} {e : Event (ClassStates Datetime)}
  (h : Step Keeper.exact.mo kle w e w')
include h

/-! ### Steps without a mutation of the class -/

section
variable (hread : w'.systems.read uuid = w.systems.read uuid)
  (hclass : w'.systems.classes uuid = w.systems.classes uuid)
  (hmutate : ∀ m, e ≠ .call uuid (.mutate m))
include hread hclass hmutate

theorem step_untouched (hsync : ∀ set, Fresh uuid kle desired w'.systems (sync uuid set))
    (hcalls : ∀ r ∈ w.runs, r.rest.Calls FkkAnswers (Call.Concerns r.uuid))
    (hw : Untouched uuid kle desired w) : Untouched uuid kle desired w' := by
  have hagreed : Agreed uuid desired w.systems → Agreed uuid desired w'.systems := by
    unfold Agreed statesOf
    rw [hclass]
    exact id
  constructor
  · intro r hr hu
    subst hu
    rcases step_runs h hr with hold | ⟨set, hbegun⟩ | ⟨c, k, hold, he, hanswered⟩
    · exact (hw.fresh r hold rfl).congr (hcalls r hold) hread hclass
    · rw [hbegun]
      exact hsync set
    · rw [hanswered]
      cases First.answer (hw.fresh _ hold rfl) with
      | inl hmutation =>
        cases c with
        | mutate m => exact absurd he (hmutate m)
        | read | getClass | getFacet => exact hmutation.1.elim
      | inr hnot =>
        exact Fresh.congr hnot.2 ((hcalls _ hold).answer (fkk_answers w.systems c)) hread hclass
  · intro status hr
    cases step_returned h hr with
    | inl hold => exact hagreed (hw.returned status hold)
    | inr hended =>
      obtain ⟨message, hold⟩ := hended
      exact hagreed (hw.fresh _ hold rfl)

theorem step_working (hfail : e ≠ .fail uuid)
    (hok : ∀ c, FixedAnswers uuid kle klasse c (w.systems.answer Keeper.exact.mo kle c))
    (hw : Working uuid kle klasse desired w) : Working uuid kle klasse desired w' := by
  have hstates : statesOf uuid w'.systems = statesOf uuid w.systems :=
    congrArg (Option.getD · []) hclass
  constructor
  · rw [hstates]
    exact hw.only
  · intro d hd
    rw [hstates]
    cases hw.owed d hd with
    | inl hstored => exact Or.inl hstored
    | inr howed =>
      obtain ⟨r, hr, hu, howes⟩ := howed
      subst hu
      rcases step_run h hr with hkept | ⟨c, k, hrest, he, hnext⟩ | ⟨status, hrest, _⟩ | ⟨he, _⟩
      · exact Or.inr ⟨r, hkept, rfl, howes⟩
      · rw [hrest] at howes
        cases howes.answer (hok c) with
        | inl hwrites => exact absurd (hwrites ▸ he) (hmutate _)
        | inr howes' => exact Or.inr ⟨_, hnext, rfl, howes'⟩
      · rw [hrest] at howes
        exact howes.elim
      · exact absurd he hfail

end

end

/-! ### Mutations of the class -/

/-- Among desired states, writing one only adds it. -/
theorem mem_written {desired : List ClassValidity} {states : List (Entry Datetime ClassValues)}
    (hdisjoint : Disjoint Datetime.instant (desired.map Keeper.exact.wanted))
    (honly : ∀ e ∈ states, ∃ v ∈ desired, e = Keeper.exact.wanted v) {v : ClassValidity}
    (hv : v ∈ desired) (x : Entry Datetime ClassValues) :
    x ∈ overwrite Datetime.instant states (Keeper.exact.wanted v) ↔
      x ∈ states ∨ x = Keeper.exact.wanted v := by
  have hmem : Keeper.exact.wanted v ∈ desired.map Keeper.exact.wanted := List.mem_map_of_mem hv
  apply mem_overwrite (hdisjoint.proper _ hmem)
  intro f hf
  obtain ⟨v', hv', rfl⟩ := honly f hf
  have hmem' : Keeper.exact.wanted v' ∈ desired.map Keeper.exact.wanted := List.mem_map_of_mem hv'
  rcases Sweep.eq_or_rel_of_mem hdisjoint.apart hmem' hmem with heq | hapart | hapart
  · exact Or.inl heq
  · exact Or.inr ⟨hdisjoint.proper _ hmem', hapart⟩
  · exact Or.inr ⟨hdisjoint.proper _ hmem', hapart.symm⟩

theorem step_statesOf {uuid kle : UUID} {w w' : World (ClassStates Datetime)} {m : Mutation}
    (h : Step Keeper.exact.mo kle w (.call uuid (.mutate m)) w') (hown : m.uuid = uuid) :
    statesOf uuid w'.systems = (Keeper.exact.mo.apply m (w.systems.classes uuid)).getD [] := by
  rw [statesOf, step_classes h, Event.states, if_pos hown]

section
variable {uuid kle : UUID} {klasse : Option Klasse} {desired : List ClassValidity}
  {w w' : World (ClassStates Datetime)}
  (hduty : ∀ r ∈ w.runs, r.uuid = uuid → r.rest.Always (FixedAnswers uuid kle klasse)
    (Dutiful uuid (FixedAnswers uuid kle klasse) desired))
include hduty

/-- Whoever truncates owes everything. -/
theorem step_truncates {uuid' : UUID}
    (h : Step Keeper.exact.mo kle w (.call uuid (.mutate (.truncateClass uuid'))) w') :
    Working uuid kle klasse desired w' := by
  obtain ⟨message, k, hr, hnext⟩ := step_call h
  obtain ⟨hown, howes⟩ : uuid' = uuid ∧ _ := (hduty _ hr rfl).now
  have hempty : statesOf uuid w'.systems = [] := by
    rw [step_statesOf h hown]
    cases w.systems.classes uuid with
    | none => rfl
    | some es => exact erase_all es
  constructor
  · rw [hempty]
    intro e he
    cases he
  · intro d hd
    exact Or.inr ⟨_, hnext, rfl, howes d hd⟩

variable (hdisjoint : Disjoint Datetime.instant (desired.map Keeper.exact.wanted))
include hdisjoint

/-- Whoever creates owes the rest, and the class stays among the desired states
whoever else has written to it. -/
theorem step_creates {input : ClassInput} (hown : input.uuid = uuid)
    (h : Step Keeper.exact.mo kle w (.call uuid (.mutate (.createClass input))) w')
    (honly : ∀ e ∈ statesOf uuid w.systems, ∃ v ∈ desired, e = Keeper.exact.wanted v) :
    Working uuid kle klasse desired w' := by
  obtain ⟨message, k, hr, hnext⟩ := step_call h
  obtain ⟨v, hv, rfl, howes⟩ : ∃ v ∈ desired, input = classValidityToCreateInput v ∧ _ :=
    (hduty _ hr rfl).now
  have hmem : ∀ x, x ∈ statesOf uuid w'.systems ↔
      x ∈ statesOf uuid w.systems ∨ x = Keeper.exact.wanted v := by
    rw [step_statesOf h hown]
    exact mem_written hdisjoint honly hv
  constructor
  · intro e he
    cases (hmem e).mp he with
    | inl hold => exact honly e hold
    | inr hnew => exact ⟨v, hv, hnew⟩
  · intro d hd
    cases howes d hd with
    | inl heq => exact Or.inl ((hmem _).mpr (Or.inr (heq ▸ rfl)))
    | inr howed => exact Or.inr ⟨_, hnext, rfl, howed⟩

/-- Updating writes what it owes and leaves the other states as they are. -/
theorem step_updates {input : ClassInput} (hown : input.uuid = uuid)
    (h : Step Keeper.exact.mo kle w (.call uuid (.mutate (.updateClass input))) w')
    (hok : ∀ c, FixedAnswers uuid kle klasse c (w.systems.answer Keeper.exact.mo kle c))
    (hw : Working uuid kle klasse desired w) : Working uuid kle klasse desired w' := by
  obtain ⟨message, k, hr, _⟩ := step_call h
  obtain ⟨v, hv, rfl⟩ : ∃ v ∈ desired, input = classValidityToUpdateInput v := (hduty _ hr rfl).now
  have hmem : ∀ x, x ∈ statesOf uuid w'.systems ↔
      x ∈ statesOf uuid w.systems ∨ x = Keeper.exact.wanted v := by
    rw [step_statesOf h hown]
    exact mem_written hdisjoint hw.only hv
  constructor
  · intro e he
    cases (hmem e).mp he with
    | inl hold => exact hw.only e hold
    | inr hnew => exact ⟨v, hv, hnew⟩
  · intro d hd
    cases hw.owed d hd with
    | inl hstored => exact Or.inl ((hmem _).mpr (Or.inl hstored))
    | inr howed =>
      obtain ⟨r, hrun, hu, howes⟩ := howed
      subst hu
      rcases step_run h hrun with hkept | ⟨c, k, hrest, he, hnext⟩ | ⟨_, _, he⟩ | ⟨he, _⟩
      · exact Or.inr ⟨r, hkept, rfl, howes⟩
      · rw [hrest] at howes
        cases howes.answer (hok c) with
        | inl hwrites =>
          have hinput : classValidityToUpdateInput d = classValidityToUpdateInput v := by
            rw [hwrites] at he
            injection he with _ hc
            injection hc with hm
            injection hm with hinput
            exact hinput.symm
          exact Or.inl ((hmem _).mpr (Or.inr (congrArg Keeper.exact.entry hinput)))
        | inr howes' => exact Or.inr ⟨_, hnext, rfl, howes'⟩
      · cases he
      · cases he

/-- The first mutation of all puts the class to work, and every later one leaves
it at work. -/
theorem step_mutates {m : Mutation} (hown : m.uuid = uuid)
    (h : Step Keeper.exact.mo kle w (.call uuid (.mutate m)) w')
    (hok : ∀ c, FixedAnswers uuid kle klasse c (w.systems.answer Keeper.exact.mo kle c))
    (hw : Untouched uuid kle desired w ∨ Working uuid kle klasse desired w) :
    Working uuid kle klasse desired w' := by
  obtain ⟨message, k, hr, _⟩ := step_call h
  have hdutiful := (hduty _ hr rfl).now
  cases m with
  | truncateClass uuid' => exact step_truncates hduty h
  | deleteClass uuid' => exact hdutiful.elim
  | createClass input =>
    apply step_creates hduty hdisjoint hown h
    cases hw with
    | inr hworking => exact hworking.only
    | inl huntouched =>
      cases huntouched.first hr with
      | inl htruncate => cases htruncate
      | inr hempty =>
        rw [hempty.1]
        intro e he
        cases he
  | updateClass input =>
    cases hw with
    | inr hworking => exact step_updates hduty hdisjoint hown h hok hworking
    | inl huntouched =>
      cases huntouched.first hr with
      | inl htruncate => cases htruncate
      | inr hempty =>
        obtain ⟨_, _, hcreate⟩ := hempty
        cases hcreate

end

/-! ## Whole runs -/

theorem fixed_answers {uuid kle : UUID} {klasse : Option Klasse}
    {s : Systems (ClassStates Datetime)} (hread : s.read uuid = klasse) (c : Call) :
    FixedAnswers uuid kle klasse c (s.answer Keeper.exact.mo kle c) := by
  cases c with
  | read uuid' => exact fun hu => hu ▸ hread
  | getFacet userKey => exact fun hk => if_pos hk
  | getClass | mutate => trivial

/-- What holds at every moment while nothing else changes the class. -/
structure Steady (uuid kle : UUID) (klasse : Option Klasse) (desired : List ClassValidity)
    (w : World (ClassStates Datetime)) : Prop where
  read : w.systems.read uuid = klasse
  concerns : ∀ r ∈ w.runs, r.rest.Calls FkkAnswers (Call.Concerns r.uuid)
  duty : ∀ r ∈ w.runs, r.uuid = uuid → r.rest.Always (FixedAnswers uuid kle klasse)
    (Dutiful uuid (FixedAnswers uuid kle klasse) desired)
  phase : Untouched uuid kle desired w ∨ Working uuid kle klasse desired w

section
variable {uuid kle : UUID} {klasse : Option Klasse} {desired : List ClassValidity}
  (hdesired : desiredStates klasse kle = .ok desired) (hne : desired ≠ [])
  (hdisjoint : Disjoint Datetime.instant (desired.map Keeper.exact.wanted))
include hdesired hne hdisjoint

theorem step_steady {w w' : World (ClassStates Datetime)} {e : Event (ClassStates Datetime)}
    (h : Step Keeper.exact.mo kle w e w')
    (hquiet : e ≠ .change uuid ∧ (∀ s, e ≠ .edit uuid s) ∧ e ≠ .fail uuid)
    (hw : Steady uuid kle klasse desired w) : Steady uuid kle klasse desired w' := by
  obtain ⟨hchange, hedit, hfail⟩ := hquiet
  have hread : w'.systems.read uuid = w.systems.read uuid := step_read h hchange
  have hok : ∀ c, FixedAnswers uuid kle klasse c (w.systems.answer Keeper.exact.mo kle c) :=
    fixed_answers hw.read
  refine ⟨hread.trans hw.read, fun r hr => ?_, ?_, ?_⟩
  · apply step_always h (sync_concerns r.uuid) (fkk_answers _) _ r hr rfl
    intro r' hr' hu
    exact hu ▸ hw.concerns r' hr'
  · exact step_always h (sync_dutiful hdesired hne) hok hw.duty
  · by_cases hmutate : ∃ m, e = .call uuid (.mutate m)
    · obtain ⟨m, rfl⟩ := hmutate
      obtain ⟨message, k, hr, _⟩ := step_call h
      have hown : m.uuid = uuid := (hw.concerns _ hr).now
      exact Or.inr (step_mutates hw.duty hdisjoint hown h hok hw.phase)
    · push Not at hmutate
      have hclass := step_unchanged h hw.concerns hedit hmutate
      cases hw.phase with
      | inl huntouched =>
        exact Or.inl (step_untouched h hread hclass hmutate
          (sync_fresh hdesired hne (hread.trans hw.read)) hw.concerns huntouched)
      | inr hworking => exact Or.inr (step_working h hread hclass hmutate hfail hok hworking)

end

/-- When no run owes anything any more, the class is what is desired. -/
theorem Working.agreed {uuid kle : UUID} {klasse : Option Klasse} {desired : List ClassValidity}
    {w : World (ClassStates Datetime)} (hw : Working uuid kle klasse desired w)
    (hdone : ∀ r ∈ w.runs, r.uuid ≠ uuid) : Agreed uuid desired w.systems := by
  intro value
  simp only [List.map_map, List.mem_map, Function.comp_apply]
  constructor
  · rintro ⟨e, he, rfl⟩
    obtain ⟨v, hv, rfl⟩ := hw.only e he
    exact ⟨v, hv, (Keeper.value_readBack_wanted v).symm⟩
  · rintro ⟨d, hd, rfl⟩
    cases hw.owed d hd with
    | inl hstored => exact ⟨_, hstored, Keeper.value_readBack_wanted d⟩
    | inr howed =>
      obtain ⟨r, hr, hu, _⟩ := howed
      exact absurd hu (hdone r hr)

/-- Whatever the synchronisations of a class that run at once, and however their
calls interleave: when nothing else changes the class or its Klasse, all of them
are done and at least one has returned, MO's states of the class are the desired
ones. -/
theorem concurrent_syncs_agree {uuid kle : UUID} {desired : List ClassValidity}
    {P : World (ClassStates Datetime) → Prop} {w₀ w : World (ClassStates Datetime)}
    {es : List (Event (ClassStates Datetime))} (h : Exec Keeper.exact.mo kle P w₀ es w)
    (hruns : w₀.runs = []) (hreturned : w₀.returned = [])
    (hdesired : desiredStates (w₀.systems.read uuid) kle = .ok desired) (hne : desired ≠ [])
    (hdisjoint : desired.Pairwise fun v w => v.stop ≤ w.start ∨ w.stop ≤ v.start)
    (hquiet : ∀ e ∈ es, e ≠ .change uuid ∧ (∀ s, e ≠ .edit uuid s) ∧ e ≠ .fail uuid)
    (hdone : ∀ r ∈ w.runs, r.uuid ≠ uuid) (hsome : ∃ status, (uuid, status) ∈ w.returned) :
    KeyedSet.Same ClassValidity.value ((statesOf uuid w.systems).map Keeper.exact.readBack)
      desired := by
  have hnone : ∀ r, r ∉ w₀.runs := by
    intro r hr
    rw [hruns] at hr
    cases hr
  have hstart : Steady uuid kle (w₀.systems.read uuid) desired w₀ := by
    refine ⟨rfl, fun r hr => absurd hr (hnone r), fun r hr => absurd hr (hnone r), Or.inl ⟨?_, ?_⟩⟩
    · intro r hr
      exact absurd hr (hnone r)
    · intro status hr
      rw [hreturned] at hr
      cases hr
  have hsteady := h.invariant hstart hquiet fun _ hI he hstep =>
    step_steady hdesired hne (Keeper.disjoint_wanted hdesired hdisjoint) hstep he hI
  obtain ⟨status, hstatus⟩ := hsome
  cases hsteady.phase with
  | inl huntouched => exact huntouched.returned status hstatus
  | inr hworking => exact hworking.agreed hdone

/-- Two runs both find no class and both create it. -/
theorem concurrent_syncs_agree_newKlasse :
    ∃ (w₀ w : World (ClassStates Datetime)) (es : List (Event (ClassStates Datetime)))
      (desired : List ClassValidity),
      Exec Keeper.exact.mo 1 (fun _ => True) w₀ es w ∧
      desiredStates (w₀.systems.read 7) 1 = .ok desired ∧ desired.length = 1 ∧
      w.returned = [(7, .createOrUpdate), (7, .createOrUpdate)] ∧
      KeyedSet.Same ClassValidity.value ((statesOf 7 w.systems).map Keeper.exact.readBack)
        desired := by
  let w₀ : World (ClassStates Datetime) :=
    { systems := .holding ⟨newKlasse, rfl⟩ none
      queue := [], runs := [], returned := [] }
  have start : Exec Keeper.exact.mo 1 (fun _ => True) w₀ [] w₀ := .start trivial
  have begun := (start.step (.post w₀ 7 .insertion) trivial).step (.post _ 7 .insertion) trivial
  have read := (begun.step (.call _ [] [_] 7 _ (.read 7) _ rfl) trivial).step
    (.call _ [_] [] 7 _ (.read 7) _ rfl) trivial
  have found := (read.step (.call _ [] [_] 7 _ (.getClass 7) _ rfl) trivial).step
    (.call _ [_] [] 7 _ (.getClass 7) _ rfl) trivial
  have compared := (found.step (.call _ [] [_] 7 _ (.getFacet "kle_number") _ rfl) trivial).step
    (.call _ [_] [] 7 _ (.getFacet "kle_number") _ rfl) trivial
  have created := (compared.step (.call _ [] [_] 7 _ (.mutate _) _ rfl) trivial).step
    (.call _ [_] [] 7 _ (.mutate _) _ rfl) trivial
  have returned := (created.step (.ret _ [] [_] 7 _ .createOrUpdate rfl) trivial).step
    (.ret _ [] [] 7 _ .createOrUpdate rfl) trivial
  have hdesired : desiredStates (w₀.systems.read 7) 1 = .ok _ := rfl
  refine ⟨w₀, _, _, _, returned, hdesired, rfl, rfl,
    concurrent_syncs_agree returned rfl rfl hdesired (List.cons_ne_nil _ _)
      (List.pairwise_singleton _ _) ?_ ?_ ⟨_, List.mem_cons_self⟩⟩
  · simp
  · intro r hr
    cases hr

end Os2moFkk
