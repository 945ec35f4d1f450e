import Mathlib.Order.Lattice.Nat
import Os2moFkk.Resync

/-!
# Messages that cause messages

Every mutation makes MO announce the class, and the announcement starts another
synchronisation. As long as one synchronisation alone leaves nothing for the
next to do, and MO's messages about a class are handled one at a time, this dies
out: the number of mutations is bounded by the number of times that something
else happens to the class.
-/

namespace Os2moFkk
open Itertools Prog Timeline

variable {σ : Type}

/-- What the elements of a list count for, together. -/
def total {α : Type} (count : α → Nat) : List α → Nat
  | [] => 0
  | a :: l => count a + total count l

theorem total_append {α : Type} (count : α → Nat) (l l' : List α) :
    total count (l ++ l') = total count l + total count l' := by
  induction l with
  | nil => simp [total]
  | cons a l ih => simp [total, ih, Nat.add_assoc]

/-! ## What a synchronisation costs -/

/-- The answers when no more than `n` states are desired of a class. -/
def BoundedAnswers (uuid kle : UUID) (n : Nat) : Answers Answer
  | .read uuid', (klasse : Option Klasse) => uuid' = uuid →
      ∀ desired, desiredStates klasse kle = .ok desired → desired.length ≤ n
  | .getFacet userKey, (facets : List UUID) => userKey = "kle_number" → facets = [kle]
  | _, _ => True

theorem updateAll_atMost (ok : Answers Answer) (l : List ClassValidity) :
    (updateAll l).AtMost ok Call.IsMutation l.length := by
  induction l with
  | nil => trivial
  | cons v rest ih => exact ⟨fun _ => ⟨_, rfl, fun _ _ => ih⟩, fun hnot => absurd trivial hnot⟩

/-- One mutation, and an update for each desired state. -/
theorem sync_atMost (uuid kle : UUID) (n : Nat) (set : SetOrder) :
    (sync uuid set).AtMost (BoundedAnswers uuid kle n) Call.IsMutation (n + 1) := by
  have mutation : ∀ m l, l.length ≤ n → AtMost (BoundedAnswers uuid kle n) Call.IsMutation
      (call (Call.mutate m) fun _ => updateAll l) (n + 1) := by
    intro m l hl
    exact ⟨fun _ => ⟨n, rfl, fun _ _ => (updateAll_atMost _ l).mono hl⟩,
      fun hnot => absurd trivial hnot⟩
  rw [sync_eq]
  refine AtMost.other id fun fkkKlasse hk => AtMost.other id fun moClasses _ => ?_
  apply AtMost.ofExcept_bind
  intro moClass _
  refine AtMost.other id fun facets hf => ?_
  apply AtMost.ofExcept_bind
  intro facet hfacet
  obtain rfl : kle = facet := by
    rw [hf rfl] at hfacet
    exact Except.ok.inj hfacet
  apply AtMost.ofExcept_bind
  intro actual _
  apply AtMost.ofExcept_bind
  intro desired hdesired
  have hlength := hk rfl desired hdesired
  have plan := reconcile_plan uuid set moClass kle actual desired
  generalize reconcile uuid set moClass kle actual desired = p at plan
  have horder : (set.order desired).length = desired.length := (set.perm desired).length_eq
  cases plan with
  | upToDate | assertion | wontDelete => trivial
  | delete => exact mutation _ [] (Nat.zero_le n)
  | create _ v rest order =>
    rw [order, List.length_cons] at horder
    exact mutation _ rest (by omega)
  | truncate => exact mutation _ _ (by omega)

/-! ## Nothing to do -/

section
variable (mo : MO σ) (kle : UUID)

/-- Alone from here, the run makes no further mutation. -/
def Idle (s : Systems σ) (p : SyncProg) : Prop :=
  p.First (s.answer mo kle) Call.IsMutation (fun _ => False) fun _ => True

/-- A synchronisation that begins here has nothing to do. -/
def Calm (uuid : UUID) (s : Systems σ) : Prop := ∀ set, Idle mo kle s (sync uuid set)

/-- Alone from here, the run leaves nothing to do when it returns. -/
def Calms (uuid : UUID) (s : Systems σ) (p : SyncProg) : Prop :=
  ∀ s', s'.read uuid = s.read uuid → s'.classes uuid = s.classes uuid →
    ∀ status s'' calls, p.run (Systems.handle mo kle) s' = (.ok status, s'', calls) →
      Calm mo kle uuid s''

/-- One synchronisation alone leaves nothing for the next to do. -/
def Converges (uuid : UUID) (klasse : Option Klasse) : Prop :=
  ∀ s : Systems σ, s.read uuid = klasse → ∀ set status s' calls,
    (sync uuid set).run (Systems.handle mo kle) s = (.ok status, s', calls) → Calm mo kle uuid s'

end

variable {mo : MO σ} {kle uuid : UUID} {s s' : Systems σ} {p : SyncProg}

theorem Idle.congr (h : Idle mo kle s p) (hcalls : p.Calls FkkAnswers (Call.Concerns uuid))
    (hread : s'.read uuid = s.read uuid) (hclass : s'.classes uuid = s.classes uuid) :
    Idle mo kle s' p :=
  First.congr h hcalls (fkk_answers s) (answer_congr hread hclass) fun _ => id

theorem Calm.congr (h : Calm mo kle uuid s) (hread : s'.read uuid = s.read uuid)
    (hclass : s'.classes uuid = s.classes uuid) : Calm mo kle uuid s' :=
  fun set => (h set).congr (sync_concerns uuid set) hread hclass

theorem Calms.congr (h : Calms mo kle uuid s p) (hread : s'.read uuid = s.read uuid)
    (hclass : s'.classes uuid = s.classes uuid) : Calms mo kle uuid s' p :=
  fun t hr hc => h t (hr.trans hread) (hc.trans hclass)

theorem Converges.calms {klasse : Option Klasse} (h : Converges mo kle uuid klasse)
    (hread : s.read uuid = klasse) (set : SetOrder) : Calms mo kle uuid s (sync uuid set) :=
  fun t hr _ => h t (hr.trans hread) set

/-- A run that was to leave nothing to do still is after its next call. -/
theorem Calms.answer {c : Call} {k : Answer c → SyncProg} (h : Calms mo kle uuid s (.call c k))
    (hc : c.Concerns uuid) : Calms mo kle uuid (s.after mo c) (k (s.answer mo kle c)) := by
  intro t hread hclass status t' calls hrun
  cases c with
  | mutate m =>
    obtain rfl : m.uuid = uuid := hc
    -- the state before the mutation that gives this one
    let t₀ : Systems σ := { t with classes := Function.update t.classes m.uuid (s.classes m.uuid) }
    have hread₀ : t₀.read m.uuid = s.read m.uuid := hread.trans (s.after_read mo (.mutate m) m.uuid)
    have hclass₀ : t₀.classes m.uuid = s.classes m.uuid := Function.update_self _ _ _
    have hafter : t₀.after mo (.mutate m) = t := by
      have hsame := hclass.trans (s.after_classes_self mo rfl)
      simp only [Systems.after, t₀, Function.update_self, Function.update_idem, ← hsame,
        Function.update_eq_self]
    refine h t₀ hread₀ hclass₀ status t' _ (run_call.mpr ⟨calls, ?_, rfl⟩)
    change (k ()).run _ (t₀.after mo (.mutate m)) = _
    rw [hafter]
    exact hrun
  | read uuid' | getClass uuid' | getFacet userKey =>
    have hanswer : s.answer mo kle _ = t.answer mo kle _ := answer_congr hread hclass _ hc
    rw [hanswer] at hrun
    exact h t hread hclass status t' _ (run_call.mpr ⟨calls, hrun, rfl⟩)

/-! ## Accounts -/

/-- The run handles a message about the class that MO has sent. -/
def Run.ofMo (uuid : UUID) (r : Run) : Bool :=
  r.uuid == uuid && r.message.any (·.topic == .mo)

/-- The run is on the class, but not because MO has announced it. -/
def Run.ofOther (uuid : UUID) (r : Run) : Bool :=
  r.uuid == uuid && !r.message.any (·.topic == .mo)

/-- Whether the event is a mutation by a run on the class. -/
def Event.mutations (uuid : UUID) : Event σ → Nat
  | call uuid' (.mutate _) => if uuid' = uuid then 1 else 0
  | _ => 0

theorem Event.mutations_le (uuid : UUID) (e : Event σ) : e.mutations uuid ≤ 1 := by
  cases e with
  | change | edit | deliver | post | ret | fail => exact Nat.zero_le 1
  | call uuid' c =>
    cases c with
    | read | getClass | getFacet => exact Nat.zero_le 1
    | mutate m =>
      by_cases hu : uuid' = uuid <;> simp [mutations, hu]

theorem Event.mutations_read {uuid uuid' : UUID} {c : Call} (h : ¬ c.IsMutation) :
    (call uuid' c : Event σ).mutations uuid = 0 := by
  cases c with
  | mutate => exact absurd trivial h
  | read | getClass | getFacet => rfl

/-- Whether something happens to the class that no message of MO causes: it or
its Klasse changes, a synchronisation of it fails or begins for another reason. -/
def Event.disturbances (uuid : UUID) : Event σ → Nat
  | change uuid' | edit uuid' _ | post uuid' | fail uuid' => if uuid' = uuid then 1 else 0
  | deliver m => if m.uuid = uuid ∧ m.topic = .fkk then 1 else 0
  | _ => 0

/-- The mutations that a run can still make. -/
noncomputable def need (uuid kle : UUID) (n : Nat) (p : SyncProg) : Nat :=
  sInf { j | p.AtMost (BoundedAnswers uuid kle n) Call.IsMutation j }

/-- The mutations that can still be made by runs that MO has not caused. -/
noncomputable def otherNeed (uuid kle : UUID) (n : Nat) (runs : List Run) : Nat :=
  total (fun r => if r.ofOther uuid then need uuid kle n r.rest else 0) runs

variable (mo kle) in
/-- The mutations that runs which MO has caused can still make, if nothing else
happens: none when the class is calm; those of one synchronisation when none is
in progress, or one is and was alone so far; otherwise those of the one in
progress and of one more. -/
inductive Owes (uuid : UUID) (n : Nat) (w : World σ) : Nat → Prop where
  | calm (h : Calm mo kle uuid w.systems)
      (idle : ∀ r ∈ w.runs, r.ofMo uuid = true → Idle mo kle w.systems r.rest) : Owes uuid n w 0
  | waiting (h : ∀ r ∈ w.runs, r.ofMo uuid = false) : Owes uuid n w (n + 1)
  | alone (r : Run) (hr : r ∈ w.runs) (hm : r.ofMo uuid = true) (j : Nat)
      (hj : r.rest.AtMost (BoundedAnswers uuid kle n) Call.IsMutation j)
      (h : Calms mo kle uuid w.systems r.rest) : Owes uuid n w j
  | disturbed (r : Run) (hr : r ∈ w.runs) (hm : r.ofMo uuid = true) (j : Nat)
      (hj : r.rest.AtMost (BoundedAnswers uuid kle n) Call.IsMutation j) :
      Owes uuid n w (j + (n + 1))

variable (mo kle) in
/-- Every mutation of another run can disturb the one in progress. -/
def Budget (uuid : UUID) (n : Nat) (w : World σ) (b : Nat) : Prop :=
  ∃ owed, Owes mo kle uuid n w owed ∧ owed + (2 * n + 3) * otherNeed uuid kle n w.runs ≤ b

/-- What every run on the class keeps to. -/
structure Bounded (uuid kle : UUID) (n : Nat) (w : World σ) : Prop where
  atMost : ∀ r ∈ w.runs, r.uuid = uuid →
    r.rest.AtMost (BoundedAnswers uuid kle n) Call.IsMutation (n + 1)
  concerns : ∀ r ∈ w.runs, r.rest.Calls FkkAnswers (Call.Concerns r.uuid)

/-- MO's messages about the class are handled one at a time. -/
def OneAtATime (uuid : UUID) (w : World σ) : Prop :=
  (w.runs.filter (Run.ofMo uuid)).length ≤ 1

section
variable {n j : Nat} {w w' : World σ} {e : Event σ}

theorem need_le (h : p.AtMost (BoundedAnswers uuid kle n) Call.IsMutation j) :
    need uuid kle n p ≤ j := Nat.sInf_le h

theorem atMost_need (h : p.AtMost (BoundedAnswers uuid kle n) Call.IsMutation j) :
    p.AtMost (BoundedAnswers uuid kle n) Call.IsMutation (need uuid kle n p) :=
  Nat.sInf_mem ⟨j, h⟩

theorem ofMo_iff {r : Run} : r.ofMo uuid = true ↔ r.uuid = uuid ∧ ∃ m, r.message = some m ∧
    m.topic = .mo := by
  simp [Run.ofMo, Option.any_eq_true]

/-- Each mutation is one less to make. -/
theorem need_answer {c : Call} {k : Answer c → SyncProg} {a : Answer c}
    (h : (Prog.call c k : SyncProg).AtMost (BoundedAnswers uuid kle n) Call.IsMutation j)
    (ha : BoundedAnswers uuid kle n c a) :
    need uuid kle n (k a) ≤ need uuid kle n (.call c k) ∧
      (c.IsMutation → need uuid kle n (k a) + 1 ≤ need uuid kle n (.call c k)) := by
  have hneed := atMost_need h
  refine ⟨need_le (hneed.answer ha), fun hM => ?_⟩
  obtain ⟨m, hm, hrest⟩ := hneed.1 hM
  have := need_le (hrest a ha)
  omega

theorem ofMo_of_ofOther {r : Run} (h : r.ofOther uuid = true) : r.ofMo uuid = false := by
  simp only [Run.ofOther, Run.ofMo, Bool.and_eq_true, Bool.not_eq_true'] at h ⊢
  rw [h.2, Bool.and_false]

theorem ofOther_of_ofMo {r : Run} (h : r.ofMo uuid = true) : r.ofOther uuid = false :=
  Bool.eq_false_iff.mpr fun hother => Bool.false_ne_true ((ofMo_of_ofOther hother).symm.trans h)

/-- A run on another class is neither. -/
theorem not_ofMo_of_ne {r : Run} (h : r.uuid ≠ uuid) :
    r.ofMo uuid = false ∧ r.ofOther uuid = false := by
  simp [Run.ofMo, Run.ofOther, h]

theorem ofOther_of_not_ofMo {r : Run} (hu : r.uuid = uuid) (h : r.ofMo uuid = false) :
    r.ofOther uuid = true := by
  simpa [Run.ofMo, Run.ofOther, hu] using h

theorem otherNeed_of_other {before after : List Run} {r : Run} (h : r.ofOther uuid = true) :
    otherNeed uuid kle n (before ++ r :: after) =
      need uuid kle n r.rest + otherNeed uuid kle n (before ++ after) := by
  simp only [otherNeed, total_append, total, h, if_true]
  omega

theorem otherNeed_of_not_other {before after : List Run} {r : Run} (h : r.ofOther uuid = false) :
    otherNeed uuid kle n (before ++ r :: after) = otherNeed uuid kle n (before ++ after) := by
  simp [otherNeed, total_append, total, h]

/-- A run that MO has not caused is of no account among those that it has. -/
theorem mem_iff_of_not_ofMo {before after : List Run} {r r' x : Run} (hr : r.ofMo uuid = false)
    (hr' : r'.ofMo uuid = false) (hx : x.ofMo uuid = true) :
    x ∈ before ++ r' :: after ↔ x ∈ before ++ r :: after := by
  have hne : ∀ y : Run, y.ofMo uuid = false → x ≠ y := by
    rintro y hy rfl
    exact Bool.false_ne_true (hy.symm.trans hx)
  simp only [mem_middle, hne r hr, hne r' hr', false_or]

/-- Whatever has happened, two synchronisations are enough. -/
theorem Bounded.exists_owes (h : Bounded uuid kle n w) :
    ∃ owed, Owes mo kle uuid n w owed ∧ owed ≤ 2 * (n + 1) := by
  by_cases hsome : ∃ r ∈ w.runs, r.ofMo uuid = true
  · obtain ⟨r, hr, hm⟩ := hsome
    exact ⟨_, .disturbed r hr hm _ (h.atMost r hr (ofMo_iff.mp hm).1), by omega⟩
  · refine ⟨_, .waiting fun r hr => ?_, by omega⟩
    exact Bool.eq_false_iff.mpr fun hm => hsome ⟨r, hr, hm⟩

/-- What is owed depends on the class, its Klasse and the runs that MO caused. -/
theorem Owes.congr {owed : Nat} (h : Owes mo kle uuid n w owed)
    (hcalls : ∀ r ∈ w.runs, r.rest.Calls FkkAnswers (Call.Concerns r.uuid))
    (hread : w'.systems.read uuid = w.systems.read uuid)
    (hclass : w'.systems.classes uuid = w.systems.classes uuid)
    (hruns : ∀ r, r.ofMo uuid = true → (r ∈ w'.runs ↔ r ∈ w.runs)) :
    Owes mo kle uuid n w' owed := by
  cases h with
  | calm hcalm idle =>
    refine .calm (hcalm.congr hread hclass) fun r hr hm => ?_
    have hold := (hruns r hm).mp hr
    have hcalls := hcalls r hold
    rw [(ofMo_iff.mp hm).1] at hcalls
    exact (idle r hold hm).congr hcalls hread hclass
  | waiting hnone =>
    refine .waiting fun r hr => Bool.eq_false_iff.mpr fun hm => ?_
    exact Bool.false_ne_true ((hnone r ((hruns r hm).mp hr)).symm.trans hm)
  | alone r hr hm _ hj h => exact .alone r ((hruns r hm).mpr hr) hm _ hj (h.congr hread hclass)
  | disturbed r hr hm j hj => exact .disturbed r ((hruns r hm).mpr hr) hm j hj

/-- When one run handles a message of MO, no other does. -/
theorem OneAtATime.not_other {runs before after : List Run} {r r' : Run}
    (h : (runs.filter (Run.ofMo uuid)).length ≤ 1) (hruns : runs = before ++ r :: after)
    (hm : r.ofMo uuid = true) (hr' : r' ∈ before ++ after) : r'.ofMo uuid = false := by
  rw [hruns, List.filter_append, List.filter_cons_of_pos hm, List.length_append,
    List.length_cons] at h
  have hbefore : before.filter (Run.ofMo uuid) = [] := List.eq_nil_of_length_eq_zero (by omega)
  have hafter : after.filter (Run.ofMo uuid) = [] := List.eq_nil_of_length_eq_zero (by omega)
  rw [List.filter_eq_nil_iff] at hbefore hafter
  apply Bool.eq_false_iff.mpr
  cases List.mem_append.mp hr' with
  | inl hr' => exact hbefore r' hr'
  | inr hr' => exact hafter r' hr'

theorem step_bounded (h : Step mo kle w e w')
    (hok : ∀ c, BoundedAnswers uuid kle n c (w.systems.answer mo kle c))
    (hw : Bounded uuid kle n w) : Bounded uuid kle n w' := by
  constructor
  · intro r hr hu
    rcases step_runs h hr with hold | ⟨set, hbegun⟩ | ⟨c, k, hold, _, hanswered⟩
    · exact hw.atMost r hold hu
    · rw [hbegun]
      rw [hu]
      exact sync_atMost uuid kle n set
    · rw [hanswered]
      exact (hw.atMost _ hold hu).answer (hok c)
  · intro r hr
    apply step_always h (sync_concerns r.uuid) (fkk_answers _) _ r hr rfl
    intro r' hr' hu
    exact hu ▸ hw.concerns r' hr'

/-! ### What a step costs -/

/-- Two synchronisations more are enough, whatever has happened. -/
theorem Bounded.budget (hw : Bounded uuid kle n w) :
    Budget mo kle uuid n w (2 * (n + 1) + (2 * n + 3) * otherNeed uuid kle n w.runs) := by
  obtain ⟨owed, howes, hle⟩ : ∃ owed, Owes mo kle uuid n w owed ∧ owed ≤ 2 * (n + 1) :=
    hw.exists_owes
  exact ⟨owed, howes, by omega⟩

/-- Where the class stays as it is, so does what the runs of MO owe. -/
theorem Budget.kept {b : Nat} (hb : Budget mo kle uuid n w b) (hw : Bounded uuid kle n w)
    (h : Step mo kle w e w') (hchange : e ≠ .change uuid) (hedit : ∀ s, e ≠ .edit uuid s)
    (hmutate : ∀ m, e ≠ .call uuid (.mutate m))
    (hruns : ∀ r, r.ofMo uuid = true → (r ∈ w'.runs ↔ r ∈ w.runs)) {x : Nat}
    (hother : otherNeed uuid kle n w'.runs ≤ otherNeed uuid kle n w.runs + x) :
    Budget mo kle uuid n w' (b + (2 * n + 3) * x) := by
  obtain ⟨owed, howes, hle⟩ := hb
  have hmul := Nat.mul_le_mul_left (2 * n + 3) hother
  rw [Nat.mul_add] at hmul
  have hclass := step_unchanged h hw.concerns hedit hmutate
  exact ⟨owed, howes.congr hw.concerns (step_read h hchange) hclass hruns, by omega⟩

/-- A call by the run that handles MO's message. -/
theorem Owes.call {before after : List Run} {message : Option Message} {c : Call}
    {k : Answer c → SyncProg} {owed : Nat} (howes : Owes mo kle uuid n w owed)
    (running : w.runs = before ++ ⟨uuid, message, .call c k⟩ :: after)
    (hsystems : w'.systems = w.systems.after mo c)
    (hruns : w'.runs = before ++ ⟨uuid, message, k (w.systems.answer mo kle c)⟩ :: after)
    (hm : Run.ofMo uuid ⟨uuid, message, .call c k⟩ = true) (hone : OneAtATime uuid w)
    (hok : BoundedAnswers uuid kle n c (w.systems.answer mo kle c)) (hc : c.Concerns uuid) :
    (¬ c.IsMutation ∧ Owes mo kle uuid n w' owed) ∨
      ∃ less, owed = less + 1 ∧ Owes mo kle uuid n w' less := by
  have hr : ⟨uuid, message, .call c k⟩ ∈ w.runs := running ▸ mem_middle.mpr (Or.inl rfl)
  have hr' : ⟨uuid, message, k (w.systems.answer mo kle c)⟩ ∈ w'.runs :=
    hruns ▸ mem_middle.mpr (Or.inl rfl)
  have hm' : Run.ofMo uuid ⟨uuid, message, k (w.systems.answer mo kle c)⟩ = true := hm
  have unique : ∀ r ∈ w.runs, r.ofMo uuid = true → r = ⟨uuid, message, .call c k⟩ := by
    intro r hmem hofMo
    rw [running] at hmem
    refine (mem_middle.mp hmem).resolve_right fun hmem => ?_
    exact Bool.false_ne_true ((OneAtATime.not_other hone running hm hmem).symm.trans hofMo)
  cases howes with
  | calm hcalm idle =>
    cases First.answer (idle _ hr hm) with
    | inl hmutation => exact hmutation.2.elim
    | inr hnot =>
      obtain ⟨hread, hrest⟩ := hnot
      have hsame : w'.systems = w.systems := by
        rw [hsystems]
        cases c with
        | mutate => exact absurd trivial hread
        | read | getClass | getFacet => rfl
      refine Or.inl ⟨hread, .calm (hsame ▸ hcalm) fun r hmem hofMo => ?_⟩
      rw [hruns] at hmem
      rw [hsame]
      cases mem_middle.mp hmem with
      | inl heq => exact heq ▸ hrest
      | inr hold =>
        exact absurd hofMo (Bool.eq_false_iff.mp (OneAtATime.not_other hone running hm hold))
  | waiting hnone => exact absurd hm (Bool.eq_false_iff.mp (hnone _ hr))
  | alone r hmem hofMo _ hj hcalms =>
    obtain rfl := unique r hmem hofMo
    have hnext := hsystems ▸ hcalms.answer hc
    by_cases hM : c.IsMutation
    · obtain ⟨m, rfl, hrest⟩ := hj.1 hM
      exact Or.inr ⟨m, rfl, .alone _ hr' hm' m (hrest _ hok) hnext⟩
    · exact Or.inl ⟨hM, .alone _ hr' hm' _ (hj.2 hM _ hok) hnext⟩
  | disturbed r hmem hofMo j hj =>
    obtain rfl := unique r hmem hofMo
    by_cases hM : c.IsMutation
    · obtain ⟨m, rfl, hrest⟩ := hj.1 hM
      exact Or.inr ⟨m + (n + 1), by omega, .disturbed _ hr' hm' m (hrest _ hok)⟩
    · exact Or.inl ⟨hM, .disturbed _ hr' hm' j (hj.2 hM _ hok)⟩

/-- Whatever happens to the class costs no more than two synchronisations. -/
theorem Budget.disturbed {b : Nat} (hb : Budget mo kle uuid n w b) (hw' : Bounded uuid kle n w')
    (hother : otherNeed uuid kle n w'.runs ≤ otherNeed uuid kle n w.runs) :
    Budget mo kle uuid n w' (b + (2 * n + 3) * (n + 1)) := by
  obtain ⟨owed, _, hle⟩ := hb
  obtain ⟨owed', howes', hle'⟩ : Budget mo kle uuid n w' _ := hw'.budget
  have hmul := Nat.mul_le_mul_left (2 * n + 3) hother
  have htwo : 2 * (n + 1) ≤ (2 * n + 3) * (n + 1) := Nat.mul_le_mul_right (n + 1) (by omega)
  exact ⟨owed', howes', by omega⟩

/-- A call by a run on the class is paid for if it is a mutation. -/
theorem Budget.call {before after : List Run} {message : Option Message} {c : Call}
    {k : Answer c → SyncProg} {b : Nat} (hb : Budget mo kle uuid n w b)
    (running : w.runs = before ++ ⟨uuid, message, .call c k⟩ :: after)
    (hsystems : w'.systems = w.systems.after mo c)
    (hruns : w'.runs = before ++ ⟨uuid, message, k (w.systems.answer mo kle c)⟩ :: after)
    (hw : Bounded uuid kle n w) (hw' : Bounded uuid kle n w') (hone : OneAtATime uuid w)
    (hok : BoundedAnswers uuid kle n c (w.systems.answer mo kle c))
    (h : Step mo kle w (.call uuid c) w') :
    (¬ c.IsMutation ∧ Budget mo kle uuid n w' b) ∨
      ∃ less, b = less + 1 ∧ Budget mo kle uuid n w' less := by
  have hr : ⟨uuid, message, .call c k⟩ ∈ w.runs := running ▸ mem_middle.mpr (Or.inl rfl)
  have hc : c.Concerns uuid := (hw.concerns _ hr).now
  let next : Run := ⟨uuid, message, k (w.systems.answer mo kle c)⟩
  by_cases hm : Run.ofMo uuid ⟨uuid, message, .call c k⟩ = true
  · have hother' : next.ofOther uuid = false := ofOther_of_ofMo (r := next) hm
    have hsame : otherNeed uuid kle n w'.runs = otherNeed uuid kle n w.runs := by
      rw [running, hruns, otherNeed_of_not_other (ofOther_of_ofMo hm),
        otherNeed_of_not_other hother']
    obtain ⟨owed, howes, hle⟩ := hb
    rcases howes.call running hsystems hruns hm hone hok hc with ⟨hread, hnext⟩ | ⟨less, rfl, hnext⟩
    · exact Or.inl ⟨hread, owed, hnext, by rwa [hsame]⟩
    · exact Or.inr ⟨b - 1, by omega, less, hnext, by rw [hsame]; omega⟩
  · have hm : Run.ofMo uuid ⟨uuid, message, .call c k⟩ = false := Bool.eq_false_iff.mpr hm
    have hm' : next.ofMo uuid = false := hm
    have hother' : next.ofOther uuid = true := ofOther_of_not_ofMo rfl hm'
    have hsum : otherNeed uuid kle n w.runs =
        need uuid kle n (.call c k) + otherNeed uuid kle n (before ++ after) :=
      running ▸ otherNeed_of_other (ofOther_of_not_ofMo rfl hm)
    have hsum' : otherNeed uuid kle n w'.runs =
        need uuid kle n (k (w.systems.answer mo kle c)) +
          otherNeed uuid kle n (before ++ after) :=
      hruns ▸ otherNeed_of_other hother'
    obtain ⟨hless, hpaid⟩ := need_answer (hw.atMost _ hr rfl) hok
    by_cases hM : c.IsMutation
    · obtain ⟨owed, _, hle⟩ := hb
      have hone : otherNeed uuid kle n w'.runs + 1 ≤ otherNeed uuid kle n w.runs := by
        have := hpaid hM
        omega
      have hmul := Nat.mul_le_mul_left (2 * n + 3) hone
      rw [Nat.mul_succ] at hmul
      obtain ⟨owed', howes', hle'⟩ : Budget mo kle uuid n w' _ := hw'.budget
      exact Or.inr ⟨b - 1, by omega, owed', howes', by omega⟩
    · have hkept : Budget mo kle uuid n w' (b + (2 * n + 3) * 0) := by
        apply hb.kept hw h
        · rintro ⟨⟩
        · rintro _ ⟨⟩
        · rintro m ⟨⟩
          exact hM trivial
        · intro r hofMo
          rw [running, hruns]
          exact mem_iff_of_not_ofMo hm hm' hofMo
        · omega
      exact Or.inl ⟨hM, hkept⟩

/-- A run leaves. -/
theorem Budget.leave {before after : List Run} {r : Run} {b : Nat} (hb : Budget mo kle uuid n w b)
    (h : Step mo kle w e w') (hw : Bounded uuid kle n w)
    (running : w.runs = before ++ r :: after) (hruns : w'.runs = before ++ after)
    (hchange : e ≠ .change uuid) (hedit : ∀ s, e ≠ .edit uuid s)
    (hmutate : ∀ m, e ≠ .call uuid (.mutate m)) (hm : r.ofMo uuid = false) :
    Budget mo kle uuid n w' b := by
  have hkept : Budget mo kle uuid n w' (b + (2 * n + 3) * 0) := by
    apply hb.kept hw h hchange hedit hmutate
    · intro x hx
      have hne : x ≠ r := by
        rintro rfl
        exact Bool.false_ne_true (hm.symm.trans hx)
      simp only [running, hruns, mem_middle, hne, false_or]
    · rw [running, hruns]
      by_cases hother : r.ofOther uuid = true
      · rw [otherNeed_of_other hother]
        omega
      · rw [otherNeed_of_not_other (Bool.eq_false_iff.mpr hother)]
        omega
  exact hkept

/-- When the run that handles MO's message returns, the class is calm, or the
next one is alone. -/
theorem Owes.ret {before after : List Run} {message : Option Message} {status : SyncStatus}
    {owed : Nat} (howes : Owes mo kle uuid n w owed)
    (running : w.runs = before ++ ⟨uuid, message, .ret status⟩ :: after)
    (hsystems : w'.systems = w.systems) (hruns : w'.runs = before ++ after)
    (hm : Run.ofMo uuid ⟨uuid, message, .ret status⟩ = true) (hone : OneAtATime uuid w) :
    ∃ less ≤ owed, Owes mo kle uuid n w' less := by
  have hr : ⟨uuid, message, .ret status⟩ ∈ w.runs := running ▸ mem_middle.mpr (Or.inl rfl)
  have hnone : ∀ r ∈ w'.runs, r.ofMo uuid = false := by
    rw [hruns]
    exact fun r hmem => OneAtATime.not_other hone running hm hmem
  have calm : Calm mo kle uuid w.systems → Owes mo kle uuid n w' 0 := fun hcalm =>
    .calm (hsystems ▸ hcalm) fun r hmem hofMo => absurd hofMo (Bool.eq_false_iff.mp (hnone r hmem))
  cases howes with
  | calm hcalm => exact ⟨0, le_rfl, calm hcalm⟩
  | waiting h => exact absurd hm (Bool.eq_false_iff.mp (h _ hr))
  | disturbed _ _ _ j => exact ⟨n + 1, by omega, .waiting hnone⟩
  | alone r hmem hofMo _ _ hcalms =>
    obtain rfl : r = ⟨uuid, message, .ret status⟩ := by
      rw [running] at hmem
      refine (mem_middle.mp hmem).resolve_right fun hmem => ?_
      exact Bool.false_ne_true ((OneAtATime.not_other hone running hm hmem).symm.trans hofMo)
    exact ⟨0, Nat.zero_le _, calm (hcalms w.systems rfl rfl status w.systems [] rfl)⟩

/-- When a synchronisation begins to handle MO's message, no other is in
progress, and it is alone so far. -/
theorem Owes.begin {r : Run} {owed : Nat} {set : SetOrder} (howes : Owes mo kle uuid n w owed)
    (hsystems : w'.systems = w.systems) (hruns : w'.runs = r :: w.runs)
    (hm : r.ofMo uuid = true) (hrest : r.rest = sync uuid set) (hone' : OneAtATime uuid w')
    (hconv : Converges mo kle uuid (w.systems.read uuid)) : Owes mo kle uuid n w' owed := by
  have hfirst : w'.runs = [] ++ r :: w.runs := hruns
  have hnone : ∀ x ∈ w.runs, x.ofMo uuid = false :=
    fun x hx => OneAtATime.not_other hone' hfirst hm hx
  have hr : r ∈ w'.runs := hruns ▸ List.mem_cons_self
  cases howes with
  | calm hcalm =>
    refine .calm (hsystems ▸ hcalm) fun x hx hofMo => ?_
    rw [hruns] at hx
    cases List.mem_cons.mp hx with
    | inl heq =>
      rw [heq, hrest, hsystems]
      exact hcalm set
    | inr hold => exact absurd hofMo (Bool.eq_false_iff.mp (hnone x hold))
  | waiting =>
    refine .alone r hr hm (n + 1) ?_ ?_
    · rw [hrest]
      exact sync_atMost uuid kle n set
    · rw [hrest, hsystems]
      exact hconv.calms rfl set
  | alone x hx hofMo => exact absurd hofMo (Bool.eq_false_iff.mp (hnone x hx))
  | disturbed x hx hofMo => exact absurd hofMo (Bool.eq_false_iff.mp (hnone x hx))

/-- A run begins: it is paid for if MO has not caused it. -/
theorem Budget.begin {r : Run} {b : Nat} {set : SetOrder} (hb : Budget mo kle uuid n w b)
    (h : Step mo kle w e w') (hw : Bounded uuid kle n w) (hone' : OneAtATime uuid w')
    (hconv : Converges mo kle uuid (w.systems.read uuid)) (hsystems : w'.systems = w.systems)
    (hruns : w'.runs = r :: w.runs) (hrest : r.rest = sync r.uuid set)
    (hchange : e ≠ .change uuid) (hedit : ∀ s, e ≠ .edit uuid s)
    (hmutate : ∀ m, e ≠ .call uuid (.mutate m)) :
    Budget mo kle uuid n w' (b + (2 * n + 3) * if r.ofOther uuid then n + 1 else 0) := by
  have hfirst : w'.runs = [] ++ r :: w.runs := hruns
  by_cases hm : r.ofMo uuid = true
  · rw [(ofMo_iff.mp hm).1] at hrest
    obtain ⟨owed, howes, hle⟩ := hb
    refine ⟨owed, howes.begin hsystems hruns hm hrest hone' hconv, ?_⟩
    rw [hfirst, otherNeed_of_not_other (ofOther_of_ofMo hm), ofOther_of_ofMo hm]
    exact hle
  · have hm : r.ofMo uuid = false := Bool.eq_false_iff.mpr hm
    apply hb.kept hw h hchange hedit hmutate
    · intro x hx
      have hne : x ≠ r := by
        rintro rfl
        exact Bool.false_ne_true (hm.symm.trans hx)
      simp [hruns, hne]
    · rw [hfirst]
      by_cases hother : r.ofOther uuid = true
      · have hu : r.uuid = uuid := by
          simp only [Run.ofOther, Bool.and_eq_true, beq_iff_eq] at hother
          exact hother.1
        have hneed : need uuid kle n r.rest ≤ n + 1 := by
          rw [hrest, hu]
          exact need_le (sync_atMost uuid kle n set)
        rw [otherNeed_of_other hother, hother, if_pos rfl, List.nil_append]
        omega
      · rw [otherNeed_of_not_other (Bool.eq_false_iff.mpr hother), List.nil_append]
        omega

/-- Every mutation is paid for, and what MO has not caused pays for more. -/
theorem step_budget {b : Nat} (h : Step mo kle w e w') (hb : Budget mo kle uuid n w b)
    (hw : Bounded uuid kle n w) (hw' : Bounded uuid kle n w') (hone : OneAtATime uuid w)
    (hone' : OneAtATime uuid w') (hconv : Converges mo kle uuid (w.systems.read uuid))
    (hok : ∀ c, BoundedAnswers uuid kle n c (w.systems.answer mo kle c)) :
    ∃ b', Budget mo kle uuid n w' b' ∧
      b' + e.mutations uuid ≤ b + (2 * n + 3) * (n + 1) * e.disturbances uuid := by
  have hstep := h
  cases h with
  | change uuid' klasse =>
    by_cases hu : uuid' = uuid
    · exact ⟨_, hb.disturbed hw' le_rfl, by simp [Event.mutations, Event.disturbances, hu]⟩
    · have hkept := hb.kept (x := 0) hw hstep (by simpa using hu) (by simp) (by simp)
        (fun _ _ => Iff.rfl) le_rfl
      exact ⟨_, hkept, by simp [Event.mutations]⟩
  | edit uuid' states =>
    by_cases hu : uuid' = uuid
    · exact ⟨_, hb.disturbed hw' le_rfl, by simp [Event.mutations, Event.disturbances, hu]⟩
    · have hkept := hb.kept (x := 0) hw hstep (by simp) (by simp [hu]) (by simp)
        (fun _ _ => Iff.rfl) le_rfl
      exact ⟨_, hkept, by simp [Event.mutations]⟩
  | deliver before after m set queued =>
    have hbegun := hb.begin hstep hw hone' hconv rfl rfl rfl (by simp) (by simp) (by simp)
    refine ⟨_, hbegun, ?_⟩
    by_cases hd : m.uuid = uuid ∧ m.topic = .fkk
    · simp [Event.mutations, Event.disturbances, Run.ofOther, hd]
    · have hother : Run.ofOther uuid ⟨m.uuid, some m, sync m.uuid set⟩ = false := by
        cases htopic : m.topic with
        | mo => simp [Run.ofOther, htopic]
        | fkk =>
          have hu : m.uuid ≠ uuid := fun hu => hd ⟨hu, htopic⟩
          simp [Run.ofOther, hu]
      simp [Event.mutations, hother]
  | post uuid' set =>
    have hbegun := hb.begin hstep hw hone' hconv rfl rfl rfl (by simp) (by simp) (by simp)
    refine ⟨_, hbegun, ?_⟩
    by_cases hu : uuid' = uuid
    · simp [Event.mutations, Event.disturbances, Run.ofOther, hu]
    · simp [Event.mutations, Run.ofOther, hu]
  | call before after uuid' message c k running =>
    by_cases hu : uuid' = uuid
    · subst hu
      rcases hb.call running rfl rfl hw hw' hone (hok c) hstep with ⟨hread, hb'⟩ | ⟨less, rfl, hb'⟩
      · refine ⟨b, hb', ?_⟩
        rw [Event.mutations_read hread]
        omega
      · have hle := Event.mutations_le uuid' (.call uuid' c : Event σ)
        exact ⟨less, hb', by omega⟩
    · have hne : ∀ rest : SyncProg, Run.uuid ⟨uuid', message, rest⟩ ≠ uuid := fun _ => hu
      have hkept := hb.kept (x := 0) hw hstep (by simp) (by simp) (by simp [hu])
        (fun r hofMo => by
          rw [running]
          exact mem_iff_of_not_ofMo (not_ofMo_of_ne (hne _)).1 (not_ofMo_of_ne (hne _)).1 hofMo)
        (by
          rw [running, otherNeed_of_not_other (not_ofMo_of_ne (hne _)).2,
            otherNeed_of_not_other (not_ofMo_of_ne (hne _)).2]
          exact le_rfl)
      refine ⟨_, hkept, ?_⟩
      cases c <;> simp [Event.mutations, hu]
  | ret before after uuid' message status running =>
    by_cases hm : Run.ofMo uuid ⟨uuid', message, .ret status⟩ = true
    · obtain rfl : uuid' = uuid := (ofMo_iff.mp hm).1
      obtain ⟨owed, howes, hle⟩ := hb
      obtain ⟨less, hless, hnext⟩ : ∃ less ≤ owed, Owes mo kle uuid' n
          { w with runs := before ++ after, returned := (uuid', status) :: w.returned } less :=
        howes.ret running rfl rfl hm hone
      refine ⟨b, ⟨less, hnext, ?_⟩, by simp [Event.mutations]⟩
      rw [running, otherNeed_of_not_other (ofOther_of_ofMo hm)] at hle
      exact (Nat.add_le_add_right hless _).trans hle
    · exact ⟨b, hb.leave hstep hw running rfl (by simp) (by simp) (by simp)
        (Bool.eq_false_iff.mpr hm), by simp [Event.mutations]⟩
  | fail before after r running =>
    by_cases hm : r.ofMo uuid = true
    · refine ⟨_, hb.disturbed hw' ?_, by
        simp [Event.mutations, Event.disturbances, (ofMo_iff.mp hm).1]⟩
      rw [running, otherNeed_of_not_other (ofOther_of_ofMo hm)]
    · exact ⟨b, hb.leave hstep hw running rfl (by simp) (by simp) (by simp)
        (Bool.eq_false_iff.mpr hm), by simp [Event.mutations]⟩

/-- As long as MO's messages about a class are handled one at a time, each
synchronisation alone leaves nothing for the next to do, and no more than `n`
states are desired: the mutations of the class are those of one synchronisation,
and so many more for each time that something else has happened to it. -/
theorem mutations_bounded {P : World σ → Prop} {w₀ : World σ} {es : List (Event σ)}
    (h : Exec mo kle P w₀ es w) (hruns : w₀.runs = []) (hone : ∀ w, P w → OneAtATime uuid w)
    (hconv : ∀ w, P w → Converges mo kle uuid (w.systems.read uuid))
    (hn : ∀ w, P w → ∀ desired, desiredStates (w.systems.read uuid) kle = .ok desired →
      desired.length ≤ n) :
    total (Event.mutations uuid) es ≤
      (n + 1) + (2 * n + 3) * (n + 1) * total (Event.disturbances uuid) es := by
  have hok : ∀ {w : World σ}, P w → ∀ c, BoundedAnswers uuid kle n c
      (w.systems.answer mo kle c) := by
    intro w hP c
    cases c with
    | read uuid' => exact fun hu => hu ▸ hn w hP
    | getFacet userKey => exact fun hk => if_pos hk
    | getClass | mutate => trivial
  have hbudget : ∃ b, Budget mo kle uuid n w b ∧ Bounded uuid kle n w ∧
      b + total (Event.mutations uuid) es ≤
        (n + 1) + (2 * n + 3) * (n + 1) * total (Event.disturbances uuid) es := by
    induction h with
    | start =>
      have hnone : ∀ r, r ∉ w₀.runs := by simp [hruns]
      refine ⟨n + 1, ⟨n + 1, .waiting fun r hr => absurd hr (hnone r), ?_⟩,
        ⟨fun r hr => absurd hr (hnone r), fun r hr => absurd hr (hnone r)⟩, by simp [total]⟩
      simp [otherNeed, total, hruns]
    | step run next hP ih =>
      obtain ⟨b, hb, hw, hle⟩ := ih
      have hw' := step_bounded next (hok run.now) hw
      obtain ⟨b', hb', hpaid⟩ := step_budget next hb hw hw' (hone _ run.now) (hone _ hP)
        (hconv _ run.now) (hok run.now)
      refine ⟨b', hb', hw', ?_⟩
      simp only [total_append, total, Nat.add_zero]
      generalize (2 * n + 3) * (n + 1) = cost at hle hpaid ⊢
      rw [Nat.mul_add]
      omega
  obtain ⟨b, _, _, hle⟩ := hbudget
  omega

end

/-! ## A MO that keeps what is written -/

/-- There is nothing to do when the class is as desired, or nothing is desired
and the class is not under the facet only. -/
theorem calm_of_same (h : ∀ moClass actual desired,
    only (mo.getClass (s.classes uuid)) = .ok moClass → actualStates moClass = .ok actual →
    desiredStates (s.read uuid) kle = .ok desired →
    KeyedSet.Same ClassValidity.value actual desired ∨
      desired = [] ∧ ∀ c, moClass = some c → ¬ OnlyFacet kle c) : Calm mo kle uuid s := by
  intro set
  apply sync_first
  intro moClass facet actual desired p hmo hfacet hactual hdesired plan
  obtain rfl : kle = facet := Except.ok.inj hfacet
  cases plan with
  | upToDate | assertion | wontDelete => trivial
  | delete c some empty only differ =>
    rcases h _ _ _ hmo hactual hdesired with hsame | ⟨_, hforeign⟩
    · exact absurd hsame differ
    · exact absurd only (hforeign c some)
  | create none v rest order differ =>
    rcases h _ _ _ hmo hactual hdesired with hsame | ⟨hempty, _⟩
    · exact absurd hsame differ
    · rw [hempty] at order
      exact absurd (order.symm.trans (set.perm []).eq_nil) (List.cons_ne_nil v rest)
  | truncate some nonempty differ =>
    rcases h _ _ _ hmo hactual hdesired with hsame | ⟨hempty, _⟩
    · exact absurd hsame differ
    · exact absurd hempty nonempty

/-- Disjoint states that are written are found again. -/
theorem converges_exact {klasse : Option Klasse} {desired : List ClassValidity}
    (hdesired : desiredStates klasse kle = .ok desired)
    (hdisjoint : desired.Pairwise fun v w => v.stop ≤ w.start ∨ w.stop ≤ v.start) :
    Converges Keeper.exact.mo kle uuid klasse := by
  intro s hread set status s' calls hrun
  obtain ⟨moClass, actual, desired', _, hmo, hactual, hdesired', hrest⟩ :=
    Systems.exists_of_run_sync hrun
  have hsame : desired = desired' := by
    rw [hread] at hdesired'
    exact Except.ok.inj (hdesired.symm.trans hdesired')
  subst hsame
  have huuid : ∀ v ∈ desired, v.uuid = uuid := by
    intro v hv
    exact (uuid_of_desired hdesired' hv fun _ hk => Systems.uuid_of_read hk).1
  have outcome := Keeper.outcome rfl hmo hactual huuid hrest
  apply calm_of_same
  intro moClass₂ actual₂ desired₂ hmo₂ hactual₂ hdesired₂
  cases outcome with
  | upToDate same kept =>
    subst kept
    cases hmo.symm.trans hmo₂
    cases hactual.symm.trans hactual₂
    cases hdesired'.symm.trans hdesired₂
    exact Or.inl same
  | wontDelete c some empty foreign differ kept =>
    subst kept
    cases hmo.symm.trans hmo₂
    cases hdesired'.symm.trans hdesired₂
    refine Or.inr ⟨empty, fun c' hc' => ?_⟩
    cases some.symm.trans hc'
    exact foreign
  | delete empty read gone =>
    rw [read] at hdesired₂
    cases hdesired'.symm.trans hdesired₂
    rw [gone] at hmo₂
    cases hmo₂
    cases hactual₂
    rw [empty]
    exact Or.inl (KeyedSet.Same.refl _ _)
  | written nonempty read states =>
    rw [read] at hdesired₂
    cases hdesired'.symm.trans hdesired₂
    have hwritten := (Keeper.disjoint_wanted hdesired hdisjoint).perm
      ((set.perm desired).symm.map Keeper.exact.wanted)
    have hstates := states.trans (congrArg some (foldl_overwrite_nil hwritten))
    have hback := Keeper.read_class hmo₂ hactual₂
    rw [hstates, Option.getD_some, List.map_map] at hback
    have hsame : KeyedSet.Same ClassValidity.value
        ((set.order desired).map (Keeper.exact.readBack ∘ Keeper.exact.wanted))
        (set.order desired) := KeyedSet.Same.map_self fun v _ => Keeper.value_readBack_wanted v
    exact Or.inl (hback.trans (hsame.trans (KeyedSet.Same.of_mem fun _ => set.mem_order)))

/-- One state is desired, and the message about it that the event generator has
published leads to one mutation. -/
theorem mutations_bounded_newKlasse :
    ∃ (w₀ w : World (ClassStates Datetime)) (es : List (Event (ClassStates Datetime))),
      Exec Keeper.exact.mo 1
        (fun w => w.systems.read 7 = some newKlasse ∧ OneAtATime 7 w) w₀ es w ∧
      w.returned = [(7, .upToDate), (7, .createOrUpdate)] ∧
      total (Event.disturbances 7) es = 1 ∧ total (Event.mutations 7) es ≤ 12 := by
  let w₀ : World (ClassStates Datetime) :=
    { systems := .holding ⟨newKlasse, rfl⟩ none
      queue := [⟨.fkk, 7⟩], runs := [], returned := [] }
  have none : OneAtATime 7 w₀ := Nat.zero_le 1
  have start : Exec Keeper.exact.mo 1
      (fun w => w.systems.read 7 = some newKlasse ∧ OneAtATime 7 w) w₀ [] w₀ := .start ⟨rfl, none⟩
  have read := (start.step (.deliver w₀ [] [] _ .insertion rfl) ⟨rfl, Nat.zero_le 1⟩).step
    (.call _ [] [] 7 _ (.read 7) _ rfl) ⟨rfl, Nat.zero_le 1⟩
  have compared := (read.step (.call _ [] [] 7 _ (.getClass 7) _ rfl) ⟨rfl, Nat.zero_le 1⟩).step
    (.call _ [] [] 7 _ (.getFacet "kle_number") _ rfl) ⟨rfl, Nat.zero_le 1⟩
  have created := (compared.step (.call _ [] [] 7 _ (.mutate _) _ rfl) ⟨rfl, Nat.zero_le 1⟩).step
    (.ret _ [] [] 7 _ .createOrUpdate rfl) ⟨rfl, Nat.zero_le 1⟩
  have reread := (created.step (.deliver _ [] [] _ .insertion rfl) ⟨rfl, Nat.le_refl 1⟩).step
    (.call _ [] [] 7 _ (.read 7) _ rfl) ⟨rfl, Nat.le_refl 1⟩
  have recompared := (reread.step (.call _ [] [] 7 _ (.getClass 7) _ rfl)
    ⟨rfl, Nat.le_refl 1⟩).step (.call _ [] [] 7 _ (.getFacet "kle_number") _ rfl)
    ⟨rfl, Nat.le_refl 1⟩
  have returned := recompared.step (.ret _ [] [] 7 _ .upToDate rfl) ⟨rfl, Nat.zero_le 1⟩
  have hdesired : desiredStates (some newKlasse) 1 = .ok _ := rfl
  refine ⟨w₀, _, _, returned, rfl, rfl,
    mutations_bounded (n := 1) returned rfl (fun _ h => h.2) ?_ ?_⟩
  · rintro w ⟨hread, _⟩
    rw [hread]
    exact converges_exact hdesired (List.pairwise_singleton _ _)
  · rintro w ⟨hread, _⟩ desired h
    rw [hread, hdesired] at h
    cases h
    exact le_rfl

end Os2moFkk
