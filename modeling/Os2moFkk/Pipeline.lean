import Os2moFkk.LivePaging
import Os2moFkk.Resync

/-!
# From FKK to MO

The event generator and the synchronisations together. What FKK registers is
not announced at once: an iteration has to find it and publish a message, which
a synchronisation then handles. Iterations and synchronisations interleave in
any way, and each can fail at any point; FKK may list what it has found anew for
each page, as long as nothing behind the cursor moves to before it.
-/

namespace Os2moFkk.Pipeline
open EventGenerator

structure State (σ : Type) where
  generator : EventGenerator.State
  world : World σ

variable {σ : Type} (mo : MO σ) (kle : UUID) (selected : Registration → Prop)

/-- FKK's changes are registrations, and the generator's messages are the only
ones about them. -/
inductive Step : State σ → State σ → Prop
  | register (s : State σ) (uuid : UUID)
      (klasse : Option { klasse : Klasse // klasse.uuid = uuid }) :
      Step s
        { generator := { s.generator with
            registrations := ⟨uuid, s.generator.clock⟩ :: s.generator.registrations }
          world := { s.world with systems := { s.world.systems with
            fkk := Function.update s.world.systems.fkk uuid klasse } } }
  | publish (s : State σ) (now : Datetime) (pending : List UUID) (uuid : UUID)
      (publishing : s.generator.phase = .publishing now pending) (next : uuid ∈ pending) :
      Step s
        { generator := { s.generator with
            published := ⟨uuid, s.generator.clock⟩ :: s.generator.published,
            phase := .publishing now (pending.erase uuid) }
          world := { s.world with queue := ⟨.fkk, uuid⟩ :: s.world.queue } }
  | generate (s : State σ) (generator : EventGenerator.State)
      (step : LiveStep selected Stays s.generator generator)
      (registrations : generator.registrations = s.generator.registrations)
      (published : generator.published = s.generator.published) :
      Step s { s with generator := generator }
  | synchronise (s : State σ) (e : Event σ) (world : World σ)
      (step : Os2moFkk.Step mo kle s.world e world) (inside : ∀ uuid, e ≠ .change uuid) :
      Step s { s with world := world }

/-- A new generator. The class is settled, a message about it is queued, or FKK
has registered it some time before. -/
structure Start (uuid : UUID) (s : State σ) : Prop where
  generator : EventGenerator.Start s.generator
  runs : s.world.runs = []
  known : Settled mo kle uuid s.world.systems ∨ (∃ m ∈ s.world.queue, m.uuid = uuid) ∨
    ∃ r ∈ s.generator.registrations, r.uuid = uuid

/-! ## What the generator has still to announce -/

/-- The generator has not passed over the registration: no committed time is
after it, and it is outstanding in an iteration that is to publish it. -/
structure Coming (g : EventGenerator.State) (r : Registration) : Prop where
  since : g.since.instant ≤ r.time
  pending : ∀ now pending, g.phase.outstanding = .publishing now pending → r.time < now.instant →
    r.uuid ∈ pending

/-- Why a class that is not settled will be. -/
inductive Followed (uuid : UUID) (s : State σ) : Prop where
  | attended (h : Attended mo kle uuid s.world)
  | coming (r : Registration) (hr : r ∈ s.generator.registrations) (hu : r.uuid = uuid)
      (h : Coming s.generator r)

/-- The search selects every registration of the class. -/
def Selected (uuid : UUID) (s : State σ) : Prop :=
  ∀ r ∈ s.generator.registrations, r.uuid = uuid → selected r

variable {mo kle selected}

/-- An iteration that neither registers nor publishes keeps what is coming: it is
outstanding from the first page on, however FKK lists what it has found, and the
iteration commits when nothing is left to publish. -/
theorem step_coming {g g' : EventGenerator.State} {r : Registration}
    (h : LiveStep selected Stays g g') (valid : LiveValid selected g)
    (hregistrations : g'.registrations = g.registrations) (hpublished : g'.published = g.published)
    (hr : r ∈ g.registrations) (hselected : selected r) (hcoming : Coming g r) : Coming g' r := by
  have htracks := valid.tracks
  have hfound : ∀ {since found}, writtenInstant g.since = .ok since →
      Found selected g.registrations since found → r.uuid ∈ found := by
    intro since found written result
    exact (result r.uuid).mpr
      ⟨r, hr, rfl, hselected, (writtenInstant_le written).trans hcoming.since⟩
  cases h with
  | relist now since found found' pageOffset changed paging written result stays =>
    refine ⟨hcoming.since, fun now' pending hphase hbefore => ?_⟩
    cases hphase
    have hold := hcoming.pending now _ (by rw [paging]; rfl) hbefore
    rw [mem_outstanding] at *
    exact hold.imp id fun hbehind => ⟨hfound written result, stays _ hbehind.1 hbehind.2⟩
  | step _ h =>
    cases h with
    | register uuid => exact absurd hregistrations (List.cons_ne_self _ _)
    | publish now pending uuid => exact absurd hpublished (List.cons_ne_self _ _)
    | tick => exact ⟨hcoming.since, hcoming.pending⟩
    | load | readNow | fail =>
      refine ⟨hcoming.since, fun now pending hphase => ?_⟩
      cases hphase
    | request lastRun now since found timed written result =>
      rw [timed] at htracks
      obtain ⟨hlast, _⟩ := htracks
      have hlast : lastRun = g.since := hlast
      subst hlast
      refine ⟨hcoming.since, fun now' pending hphase _ => ?_⟩
      cases hphase
      exact mem_outstanding.mpr (Or.inr ⟨hfound written result, List.not_mem_nil⟩)
    | page now found pageOffset changed paging =>
      refine ⟨hcoming.since, fun now' pending hphase hbefore => ?_⟩
      cases hphase
      exact outstanding_page (hcoming.pending now _ (by rw [paging]; rfl) hbefore)
    | lastPage now found pageOffset changed paging done =>
      refine ⟨hcoming.since, fun now' pending hphase hbefore => ?_⟩
      cases hphase
      exact outstanding_done done (hcoming.pending now _ (by rw [paging]; rfl) hbefore)
    | commit now publishing =>
      refine ⟨?_, fun now' pending hphase => by cases hphase⟩
      by_contra hlate
      exact List.not_mem_nil
        (hcoming.pending now [] (by rw [publishing]; rfl) (not_le.mp hlate))

/-- What is registered now is not passed over yet. -/
theorem coming_of_registered {g : EventGenerator.State} (valid : LiveValid selected g)
    (uuid : UUID) :
    Coming { g with registrations := ⟨uuid, g.clock⟩ :: g.registrations } ⟨uuid, g.clock⟩ := by
  have htracks := valid.tracks
  constructor
  · change g.since.instant ≤ g.clock
    cases hlast : g.lastRun with
    | none =>
      rw [State.since, hlast]
      exact valid.clock
    | some lastRun =>
      rw [State.since, hlast]
      exact valid.past lastRun hlast
  · intro now pending hphase hbefore
    have hphase : g.phase.outstanding = .publishing now pending := hphase
    rw [hphase] at htracks
    exact absurd htracks.1 (not_le.mpr hbefore)

/-! ## Every step leaves the class followed -/

/-- Messages about other classes do not matter. -/
theorem Attended.of_queued {w : World σ} {uuid : UUID} {m : Message} (hm : m.uuid ≠ uuid)
    (h : Attended mo kle uuid { w with queue := m :: w.queue }) : Attended mo kle uuid w := by
  cases h with
  | settled hs => exact .settled hs
  | running r hr hu m' hm' hmu h => exact .running r hr hu m' hm' hmu h
  | queued m' hm' hu =>
    cases List.mem_cons.mp hm' with
    | inl heq => exact absurd (heq ▸ hu) hm
    | inr hold => exact .queued m' hold hu

theorem Attended.queue {w : World σ} {uuid : UUID} (h : Attended mo kle uuid w) (m : Message) :
    Attended mo kle uuid { w with queue := m :: w.queue } := by
  cases h with
  | settled hs => exact .settled hs
  | queued m' hm hu => exact .queued m' (List.mem_cons_of_mem m hm) hu
  | running r hr hu m' hm hmu h => exact .running r hr hu m' hm hmu h

variable (mo kle selected) in
/-- What holds of a class at every moment. -/
structure Sound (uuid : UUID) (s : State σ) : Prop where
  valid : LiveValid selected s.generator
  concerns : ∀ r ∈ s.world.runs, r.uuid = uuid → r.rest.Calls FkkAnswers (Call.Concerns uuid)
  followed : Selected selected uuid s → Followed mo kle uuid s

theorem start_sound {uuid : UUID} {s : State σ} (h : Start mo kle uuid s) :
    Sound mo kle selected uuid s where
  valid := start_liveValid h.generator
  concerns r hr := by
    rw [h.runs] at hr
    cases hr
  followed _ := by
    rcases h.known with hsettled | ⟨m, hm, hu⟩ | ⟨r, hr, hu⟩
    · exact .attended (.settled hsettled)
    · exact .attended (.queued m hm hu)
    · refine .coming r hr hu ⟨?_, fun now pending hphase => ?_⟩
      · rw [State.since, h.generator.lastRun]
        exact (h.generator.times r hr).1
      · rw [h.generator.phase] at hphase
        cases hphase

theorem step_sound {uuid : UUID} {s s' : State σ} (h : Step mo kle selected s s')
    (hs : Sound mo kle selected uuid s) : Sound mo kle selected uuid s' := by
  cases h with
  | register uuid' klasse =>
    have hvalid := step_liveValid (.register s.generator uuid') hs.valid
    refine ⟨hvalid, hs.concerns, fun hselected => ?_⟩
    by_cases heq : uuid' = uuid
    · exact .coming _ List.mem_cons_self heq (coming_of_registered hs.valid uuid')
    · cases hs.followed fun r hr => hselected r (List.mem_cons_of_mem _ hr) with
      | attended hattended =>
        have hannounced := step_attended (.change s.world uuid' klasse) hs.concerns hattended
        exact .attended (Attended.of_queued heq hannounced)
      | coming r hr hu hcoming =>
        exact .coming r (List.mem_cons_of_mem _ hr) hu ⟨hcoming.since, hcoming.pending⟩
  | publish now pending uuid' publishing next =>
    have hvalid := step_liveValid (.publish _ now pending uuid' publishing next) hs.valid
    refine ⟨hvalid, hs.concerns, fun hselected => ?_⟩
    by_cases heq : uuid' = uuid
    · exact .attended (.queued _ List.mem_cons_self heq)
    · cases hs.followed hselected with
      | attended hattended => exact .attended (Attended.queue hattended _)
      | coming r hr hu hcoming =>
        refine .coming r hr hu ⟨hcoming.since, fun now' pending' hphase hbefore => ?_⟩
        cases hphase
        have hne : r.uuid ≠ uuid' := fun he => heq (he.symm.trans hu)
        exact (List.mem_erase_of_ne hne).mpr
          (hcoming.pending now pending (by rw [publishing]; rfl) hbefore)
  | generate generator step registrations published =>
    refine ⟨liveStep_valid step hs.valid, hs.concerns, fun hselected => ?_⟩
    have hselected' : Selected selected uuid s := by
      intro r hr
      exact hselected r (registrations ▸ hr)
    cases hs.followed hselected' with
    | attended hattended => exact .attended hattended
    | coming r hr hu hcoming =>
      exact .coming r (registrations ▸ hr) hu
        (step_coming step hs.valid registrations published hr (hselected' r hr hu) hcoming)
  | synchronise e world step inside =>
    refine ⟨hs.valid, step_always step (sync_concerns uuid) (fkk_answers _) hs.concerns,
      fun hselected => ?_⟩
    cases hs.followed hselected with
    | attended hattended => exact .attended (step_attended step hs.concerns hattended)
    | coming r hr hu hcoming => exact .coming r hr hu hcoming

theorem run_sound {uuid : UUID} {s₀ s : State σ}
    (h : Relation.ReflTransGen (Step mo kle selected) s₀ s) (hstart : Start mo kle uuid s₀) :
    Sound mo kle selected uuid s := by
  induction h with
  | refl => exact start_sound hstart
  | tail _ step ih => exact step_sound step ih

/-- Whatever iterations and synchronisations ran, failed and interleaved: once
an iteration has committed a time after the last registration of a class, and no
message about the class is queued and no synchronisation of it is in progress,
MO and the present Klasse agree on it, or nothing is wanted and the class has a
validity outside the facet. -/
theorem settled_when_caught_up {uuid : UUID} {s₀ s : State σ} {lastRun : Datetime}
    (h : Relation.ReflTransGen (Step mo kle selected) s₀ s) (hstart : Start mo kle uuid s₀)
    (hlast : s.generator.lastRun = some lastRun)
    (hpast : ∀ r ∈ s.generator.registrations, r.uuid = uuid → r.time < lastRun.instant)
    (hselected : Selected selected uuid s) (hqueue : ∀ m ∈ s.world.queue, m.uuid ≠ uuid)
    (hquiet : ∀ r ∈ s.world.runs, r.uuid ≠ uuid) : Settled mo kle uuid s.world.systems := by
  have hsound : Sound mo kle selected uuid s := run_sound h hstart
  cases hsound.followed hselected with
  | attended hattended =>
    cases hattended with
    | settled hsettled => exact hsettled
    | queued m hm hu => exact absurd hu (hqueue m hm)
    | running r hr hu => exact absurd hu (hquiet r hr)
  | coming r hr hu hcoming =>
    have hsince := hcoming.since
    rw [State.since, hlast] at hsince
    exact absurd (hpast r hr hu) (not_lt.mpr hsince)

/-- What the synchronisations do while the generator rests. -/
theorem run_synchronise {P : World σ → Prop} {s : State σ} {es : List (Event σ)} {w : World σ}
    (h : Exec mo kle P s.world es w) (inside : ∀ e ∈ es, ∀ uuid, e ≠ .change uuid) :
    Relation.ReflTransGen (Step mo kle selected) s { s with world := w } := by
  induction h with
  | start => exact .refl
  | step run next _ ih =>
    have hrun := ih fun e he => inside e (List.mem_append_left _ he)
    exact hrun.tail (.synchronise _ _ _ next (inside _ (by simp)))

/-- A Klasse that FKK has registered, before anything runs. -/
def registered : State (ClassStates Datetime) where
  generator := ⟨10, [⟨7, 10⟩], none, [], .idle⟩
  world :=
    { systems := .holding ⟨newKlasse, rfl⟩ none
      queue := [], runs := [], returned := [] }

/-- An iteration publishes it at 20, and it is created in MO. -/
theorem settled_when_caught_up_registered : ∃ s : State (ClassStates Datetime),
    Relation.ReflTransGen (Step Keeper.exact.mo 1 fun _ => True) registered s ∧
    s.generator.lastRun = some (utcNow 20) ∧
    s.world.returned = [(7, .upToDate), (7, .createOrUpdate)] ∧
    Settled Keeper.exact.mo 1 7 s.world.systems := by
  have start : Start Keeper.exact.mo 1 7 registered :=
    ⟨⟨by decide, by decide, rfl, rfl⟩, rfl, Or.inr (Or.inr ⟨_, List.mem_cons_self, rfl⟩)⟩
  have found : Found (fun _ => True) registered.generator.registrations 0 [7] := by
    intro uuid
    simp [registered, eq_comm]
  have generate : ∀ (s : State (ClassStates Datetime)) (g : EventGenerator.State),
      EventGenerator.Step (fun _ => True) s.generator g →
      g.registrations = s.generator.registrations → g.published = s.generator.published →
      Step Keeper.exact.mo 1 (fun _ => True) s { s with generator := g } :=
    fun s g h => .generate s g (.step _ _ h)
  have timed : Relation.ReflTransGen (Step Keeper.exact.mo 1 fun _ => True) registered _ :=
    ((Relation.ReflTransGen.single (generate registered _ (.tick _ 20 (by decide)) rfl rfl)).tail
      (generate _ _ (.load _ rfl) rfl rfl)).tail (generate _ _ (.readNow _ _ rfl) rfl rfl)
  have paged := (timed.tail (generate _ _ (.request _ _ _ 0 [7] rfl rfl found) rfl rfl)).tail
    (generate _ _ (.page _ _ _ 0 [] rfl (by decide)) rfl rfl)
  have published := (paged.tail (generate _ _ (.lastPage _ _ _ _ _ rfl (by decide)) rfl rfl)).tail
    (.publish _ _ _ 7 rfl (by decide))
  have committed := published.tail (generate _ _ (.commit _ _ rfl) rfl rfl)
  let w₀ : World (ClassStates Datetime) := { registered.world with queue := [⟨.fkk, 7⟩] }
  have start' : Exec Keeper.exact.mo 1 (fun _ => True) w₀ [] w₀ := .start trivial
  have read := (start'.step (.deliver w₀ [] [] _ .insertion rfl) trivial).step
    (.call _ [] [] 7 _ (.read 7) _ rfl) trivial
  have compared := (read.step (.call _ [] [] 7 _ (.getClass 7) _ rfl) trivial).step
    (.call _ [] [] 7 _ (.getFacet "kle_number") _ rfl) trivial
  have created := (compared.step (.call _ [] [] 7 _ (.mutate _) _ rfl) trivial).step
    (.ret _ [] [] 7 _ .createOrUpdate rfl) trivial
  have reread := (created.step (.deliver _ [] [] _ .insertion rfl) trivial).step
    (.call _ [] [] 7 _ (.read 7) _ rfl) trivial
  have recompared := (reread.step (.call _ [] [] 7 _ (.getClass 7) _ rfl) trivial).step
    (.call _ [] [] 7 _ (.getFacet "kle_number") _ rfl) trivial
  have returned := recompared.step (.ret _ [] [] 7 _ .upToDate rfl) trivial
  have synchronised := committed.trans (run_synchronise returned (by simp))
  refine ⟨_, synchronised, rfl, rfl,
    settled_when_caught_up synchronised start rfl ?_ (fun _ _ _ => trivial) ?_ ?_⟩
  · intro r hr _
    obtain rfl := List.mem_singleton.mp hr
    decide
  · intro m hm
    cases hm
  · intro r hr
    cases hr

end Os2moFkk.Pipeline
