import Os2moFkk.Mo

/-!
# Messages and concurrent synchronisations

Any number of synchronisations run at once, each call a step of its own, while
FKK and other MO users make changes. A message is handled by a synchronisation,
which holds it until it returns; when it fails, the message is queued again.
-/

namespace Os2moFkk
open Prog

/-- `class` messages come from MO and `change` messages from the event
generator. -/
inductive Topic where
  | mo
  | fkk
  deriving DecidableEq

structure Message where
  topic : Topic
  uuid : UUID

/-- A synchronisation in progress, without a message when it was started by
`POST /sync`. -/
structure Run where
  uuid : UUID
  message : Option Message
  rest : SyncProg

structure World (σ : Type) where
  systems : Systems σ
  queue : List Message
  runs : List Run
  returned : List (UUID × SyncStatus)

inductive Event (σ : Type) where
  | change (uuid : UUID)
  | edit (uuid : UUID) (states : σ)
  | deliver (m : Message)
  | post (uuid : UUID)
  | call (uuid : UUID) (c : Call)
  | ret (uuid : UUID) (status : SyncStatus)
  | fail (uuid : UUID)

/-- The messages that a call causes: MO announces every mutation. -/
def Call.announced : Call → List Message
  | mutate m => [⟨.mo, m.uuid⟩]
  | _ => []

variable {σ : Type}

/-- Both handlers synchronise the class that the message names. -/
inductive Step (mo : MO σ) (kle : UUID) : World σ → Event σ → World σ → Prop where
  | change (w : World σ) (uuid : UUID) (klasse : Option { klasse : Klasse // klasse.uuid = uuid }) :
      Step mo kle w (.change uuid) { w with
        systems := { w.systems with fkk := Function.update w.systems.fkk uuid klasse }
        queue := ⟨.fkk, uuid⟩ :: w.queue }
  | edit (w : World σ) (uuid : UUID) (states : σ) :
      Step mo kle w (.edit uuid states) { w with
        systems := { w.systems with classes := Function.update w.systems.classes uuid states }
        queue := ⟨.mo, uuid⟩ :: w.queue }
  | deliver (w : World σ) (before after : List Message) (m : Message) (set : SetOrder)
      (queued : w.queue = before ++ m :: after) :
      Step mo kle w (.deliver m) { w with
        queue := before ++ after
        runs := ⟨m.uuid, some m, sync m.uuid set⟩ :: w.runs }
  | post (w : World σ) (uuid : UUID) (set : SetOrder) :
      Step mo kle w (.post uuid) { w with runs := ⟨uuid, none, sync uuid set⟩ :: w.runs }
  | call (w : World σ) (before after : List Run) (uuid : UUID) (message : Option Message)
      (c : Call) (k : Answer c → SyncProg)
      (running : w.runs = before ++ ⟨uuid, message, .call c k⟩ :: after) :
      Step mo kle w (.call uuid c) { w with
        systems := w.systems.after mo c
        queue := c.announced ++ w.queue
        runs := before ++ ⟨uuid, message, k (w.systems.answer mo kle c)⟩ :: after }
  | ret (w : World σ) (before after : List Run) (uuid : UUID) (message : Option Message)
      (status : SyncStatus) (running : w.runs = before ++ ⟨uuid, message, .ret status⟩ :: after) :
      Step mo kle w (.ret uuid status) { w with
        runs := before ++ after
        returned := (uuid, status) :: w.returned }
  | fail (w : World σ) (before after : List Run) (r : Run)
      (running : w.runs = before ++ r :: after) :
      Step mo kle w (.fail r.uuid) { w with
        queue := r.message.toList ++ w.queue
        runs := before ++ after }

/-- The events from one world to another, with `P` holding at every moment. -/
inductive Exec (mo : MO σ) (kle : UUID) (P : World σ → Prop) (w₀ : World σ) :
    List (Event σ) → World σ → Prop where
  | start (h : P w₀) : Exec mo kle P w₀ [] w₀
  | step {es : List (Event σ)} {w w' : World σ} {e : Event σ} (run : Exec mo kle P w₀ es w)
      (next : Step mo kle w e w') (h : P w') : Exec mo kle P w₀ (es ++ [e]) w'

section
variable {mo : MO σ} {kle : UUID} {P : World σ → Prop} {w₀ w w' : World σ} {e : Event σ}
  {es : List (Event σ)}

theorem Exec.now (h : Exec mo kle P w₀ es w) : P w := by
  cases h with
  | start h => exact h
  | step _ _ h => exact h

/-- What holds at first and is kept by every step holds in the end. -/
theorem Exec.invariant {I : World σ → Prop} {E : Event σ → Prop} (h : Exec mo kle P w₀ es w)
    (start : I w₀) (hE : ∀ e ∈ es, E e)
    (step : ∀ {w e w'}, P w → I w → E e → Step mo kle w e w' → I w') : I w := by
  induction h with
  | start => exact start
  | step run next _ ih =>
    have hI := ih fun e he => hE e (List.mem_append_left _ he)
    exact step run.now hI (hE _ (by simp)) next

/-- Every event is one that an invariant allows. -/
theorem Exec.events {I : World σ → Prop} {G : Event σ → Prop} (h : Exec mo kle P w₀ es w)
    (start : I w₀) (step : ∀ {w e w'}, P w → I w → Step mo kle w e w' → I w' ∧ G e) :
    ∀ e ∈ es, G e := by
  induction h with
  | start => intro e he; cases he
  | step run next _ ih =>
    intro e he
    have hI := run.invariant (E := fun _ => True) start (fun _ _ => trivial)
      fun hP hI _ hs => (step hP hI hs).1
    cases List.mem_append.mp he with
    | inl he => exact ih e he
    | inr he => exact List.mem_singleton.mp he ▸ (step run.now hI next).2

/-! ## What a step does -/

theorem mem_middle {α : Type} {before after : List α} {x y : α} :
    x ∈ before ++ y :: after ↔ x = y ∨ x ∈ before ++ after := by
  simp only [List.mem_append, List.mem_cons, or_left_comm]

/-- What an event makes of the states of a class. -/
def Event.states (mo : MO σ) (uuid : UUID) : Event σ → σ → σ
  | edit uuid' states, s => if uuid' = uuid then states else s
  | call _ (.mutate m), s => if m.uuid = uuid then mo.apply m s else s
  | _, s => s

theorem step_classes (h : Step mo kle w e w') (uuid : UUID) :
    w'.systems.classes uuid = e.states mo uuid (w.systems.classes uuid) := by
  cases h with
  | change | deliver | post | ret | fail => rfl
  | edit uuid' states =>
    by_cases heq : uuid' = uuid
    · subst heq
      simp [Event.states]
    · have hne : uuid ≠ uuid' := fun he => heq he.symm
      simp [Event.states, heq, Function.update_of_ne hne]
  | call before after uuid' message c k running =>
    cases c with
    | read | getClass | getFacet => rfl
    | mutate m =>
      by_cases heq : m.uuid = uuid
      · subst heq
        simp [Event.states, w.systems.after_classes_self mo rfl]
      · have hsame : (w.systems.after mo (.mutate m)).classes uuid = w.systems.classes uuid := by
          apply Systems.after_classes_of_ne
          intro m' hm
          cases hm
          exact heq
        simp [Event.states, heq, hsame]

/-- FKK's Klasse changes only when FKK changes it. -/
theorem step_read (h : Step mo kle w e w') {uuid : UUID} (hne : e ≠ .change uuid) :
    w'.systems.read uuid = w.systems.read uuid := by
  cases h with
  | edit | deliver | post | ret | fail => rfl
  | change uuid' klasse =>
    have heq : uuid ≠ uuid' := fun he => hne (he ▸ rfl)
    simp [Systems.read, Function.update_of_ne heq]
  | call before after uuid' message c k running => exact Systems.after_read mo w.systems c uuid

/-- A run of the next world was there, has just begun or has just been
answered. -/
theorem step_runs (h : Step mo kle w e w') {r' : Run} (hr : r' ∈ w'.runs) :
    r' ∈ w.runs ∨ (∃ set, r'.rest = sync r'.uuid set) ∨
      ∃ c k, ⟨r'.uuid, r'.message, .call c k⟩ ∈ w.runs ∧ e = .call r'.uuid c ∧
        r'.rest = k (w.systems.answer mo kle c) := by
  cases h with
  | change | edit => exact Or.inl hr
  | deliver before after m set queued =>
    cases List.mem_cons.mp hr with
    | inl heq => exact Or.inr (Or.inl ⟨set, by rw [heq]⟩)
    | inr hr => exact Or.inl hr
  | post uuid set =>
    cases List.mem_cons.mp hr with
    | inl heq => exact Or.inr (Or.inl ⟨set, by rw [heq]⟩)
    | inr hr => exact Or.inl hr
  | call before after uuid message c k running =>
    cases mem_middle.mp hr with
    | inl heq =>
      subst heq
      exact Or.inr (Or.inr ⟨c, k, running ▸ mem_middle.mpr (Or.inl rfl), rfl, rfl⟩)
    | inr hr => exact Or.inl (running ▸ mem_middle.mpr (Or.inr hr))
  | ret before after uuid message status running =>
    exact Or.inl (running ▸ mem_middle.mpr (Or.inr hr))
  | fail before after r running => exact Or.inl (running ▸ mem_middle.mpr (Or.inr hr))

/-- A run stays as it is, is answered, returns, or fails and has its message
queued again. -/
theorem step_run (h : Step mo kle w e w') {r : Run} (hr : r ∈ w.runs) :
    r ∈ w'.runs ∨
      (∃ c k, r.rest = .call c k ∧ e = .call r.uuid c ∧
        ⟨r.uuid, r.message, k (w.systems.answer mo kle c)⟩ ∈ w'.runs) ∨
      (∃ status, r.rest = .ret status ∧ e = .ret r.uuid status) ∨
      (e = .fail r.uuid ∧ ∀ m, r.message = some m → m ∈ w'.queue) := by
  cases h with
  | change | edit => exact Or.inl hr
  | deliver | post => exact Or.inl (List.mem_cons_of_mem _ hr)
  | call before after uuid message c k running =>
    rw [running] at hr
    cases mem_middle.mp hr with
    | inl heq =>
      subst heq
      exact Or.inr (Or.inl ⟨c, k, rfl, rfl, mem_middle.mpr (Or.inl rfl)⟩)
    | inr hr => exact Or.inl (mem_middle.mpr (Or.inr hr))
  | ret before after uuid message status running =>
    rw [running] at hr
    cases mem_middle.mp hr with
    | inl heq =>
      subst heq
      exact Or.inr (Or.inr (Or.inl ⟨status, rfl, rfl⟩))
    | inr hr => exact Or.inl hr
  | fail before after r' running =>
    rw [running] at hr
    cases mem_middle.mp hr with
    | inl heq =>
      subst heq
      exact Or.inr (Or.inr (Or.inr ⟨rfl, fun m hm => by simp [hm]⟩))
    | inr hr => exact Or.inl hr

/-- A queued message stays queued until a synchronisation begins to handle it. -/
theorem step_message (h : Step mo kle w e w') {m : Message} (hm : m ∈ w.queue) :
    m ∈ w'.queue ∨ ∃ set, ⟨m.uuid, some m, sync m.uuid set⟩ ∈ w'.runs := by
  cases h with
  | change | edit => exact Or.inl (List.mem_cons_of_mem _ hm)
  | post | ret => exact Or.inl hm
  | call | fail => exact Or.inl (List.mem_append_right _ hm)
  | deliver before after m' set queued =>
    rw [queued] at hm
    cases mem_middle.mp hm with
    | inl heq => exact Or.inr ⟨set, heq ▸ List.mem_cons_self⟩
    | inr hm => exact Or.inl hm

/-- Whatever changes a class or its Klasse queues a message about it. -/
theorem step_announced (h : Step mo kle w e w') (uuid : UUID) :
    (w'.systems.read uuid = w.systems.read uuid ∧
      w'.systems.classes uuid = w.systems.classes uuid) ∨ ∃ m ∈ w'.queue, m.uuid = uuid := by
  have hread : e ≠ .change uuid → w'.systems.read uuid = w.systems.read uuid := step_read h
  have hclasses := step_classes h uuid
  cases h with
  | deliver | post | ret | fail => exact Or.inl ⟨rfl, rfl⟩
  | change uuid' klasse =>
    by_cases heq : uuid' = uuid
    · exact Or.inr ⟨_, List.mem_cons_self, heq⟩
    · exact Or.inl ⟨hread fun he => heq (Event.change.inj he), rfl⟩
  | edit uuid' states =>
    by_cases heq : uuid' = uuid
    · exact Or.inr ⟨_, List.mem_cons_self, heq⟩
    · refine Or.inl ⟨rfl, ?_⟩
      simpa [Event.states, heq] using hclasses
  | call before after uuid' message c k running =>
    cases c with
    | read | getClass | getFacet => exact Or.inl ⟨rfl, rfl⟩
    | mutate m =>
      by_cases heq : m.uuid = uuid
      · exact Or.inr ⟨_, List.mem_cons_self, heq⟩
      · refine Or.inl ⟨Systems.after_read mo w.systems (.mutate m) uuid, ?_⟩
        simpa [Event.states, heq] using hclasses

theorem step_mutation {uuid : UUID} {m : Mutation}
    (h : Step mo kle w (.call uuid (.mutate m)) w') : ⟨.mo, m.uuid⟩ ∈ w'.queue := by
  cases h with
  | call => exact List.mem_cons_self

/-- What every run on a class keeps to, as long as it is answered as assumed. -/
theorem step_always {ok : Answers Answer} {Q : SyncProg → Prop} {uuid : UUID}
    (h : Step mo kle w e w') (hsync : ∀ set, (sync uuid set).Always ok Q)
    (hok : ∀ c, ok c (w.systems.answer mo kle c))
    (hruns : ∀ r ∈ w.runs, r.uuid = uuid → r.rest.Always ok Q) :
    ∀ r ∈ w'.runs, r.uuid = uuid → r.rest.Always ok Q := by
  intro r hr hu
  rcases step_runs h hr with hold | ⟨set, hbegun⟩ | ⟨c, k, hold, _, hanswered⟩
  · exact hruns r hold hu
  · rw [hbegun, hu]
    exact hsync set
  · rw [hanswered]
    exact (hruns _ hold hu).answer (hok c)

/-- A call is the next one of a run, which goes on with the answer. -/
theorem step_call {uuid : UUID} {c : Call} (h : Step mo kle w (.call uuid c) w') :
    ∃ message k, ⟨uuid, message, .call c k⟩ ∈ w.runs ∧
      ⟨uuid, message, k (w.systems.answer mo kle c)⟩ ∈ w'.runs := by
  cases h with
  | call before after _ message _ k running =>
    exact ⟨message, k, running ▸ mem_middle.mpr (Or.inl rfl), mem_middle.mpr (Or.inl rfl)⟩

/-- What has returned had come to its end. -/
theorem step_returned (h : Step mo kle w e w') {uuid : UUID} {status : SyncStatus}
    (hr : (uuid, status) ∈ w'.returned) :
    (uuid, status) ∈ w.returned ∨ ∃ message, ⟨uuid, message, .ret status⟩ ∈ w.runs := by
  cases h with
  | change | edit | deliver | post | call | fail => exact Or.inl hr
  | ret before after uuid' message status' running =>
    cases List.mem_cons.mp hr with
    | inl heq =>
      cases heq
      exact Or.inr ⟨message, running ▸ mem_middle.mpr (Or.inl rfl)⟩
    | inr hr => exact Or.inl hr

/-- The calls that the runs on a class make are those it allows at every moment. -/
theorem Exec.calls {ok : Answers Answer} {G : Call → Prop} {uuid : UUID}
    (h : Exec mo kle P w₀ es w) (hruns : w₀.runs = []) (hsync : ∀ set, (sync uuid set).Calls ok G)
    (hok : ∀ {w}, P w → ∀ c, ok c (w.systems.answer mo kle c)) :
    ∀ c, .call uuid c ∈ es → G c := by
  have hevents : ∀ e ∈ es, ∀ c, e = .call uuid c → G c := by
    apply h.events (I := fun w => ∀ r ∈ w.runs, r.uuid = uuid → r.rest.Calls ok G)
      (G := fun e => ∀ c, e = .call uuid c → G c)
    · intro r hr
      rw [hruns] at hr
      cases hr
    · intro w e w' hP hI hstep
      refine ⟨step_always hstep hsync (hok hP) hI, fun c hc => ?_⟩
      subst hc
      obtain ⟨message, k, hr, _⟩ := step_call hstep
      exact (hI _ hr rfl).now
  exact fun c hc => hevents _ hc c rfl

end

end Os2moFkk
