import Os2moFkk.LivePaging

/-!
# When the generator is quiet

An announcement has a cause: a registration that the last run does not cover.
The time of the last run never goes back, so a class that is caught up with is
not announced again until it is registered again. And from any state, whatever
has failed or moved before, an iteration that nothing disturbs catches up with
what was registered since the last run.
-/

namespace Os2moFkk.EventGenerator

/-- The time that the search of the next iteration starts from. -/
def State.searchedFrom (s : State) : Int := s.since.instant - s.since.instant % 1000

/-- External interface to retrieve last run. -/
def State.getLastRun (s : State) : Option Datetime := s.lastRun

variable (selected : Registration → Prop) (moves : Relisting)

/-- Why the next iteration, or this one, announces a class. -/
def Cause (s : State) (uuid : UUID) : Prop :=
  ∃ r ∈ s.registrations, r.uuid = uuid ∧ selected r ∧ s.searchedFrom ≤ r.time

/-- A time to commit: in UTC, not before the last run, and passed. -/
structure Commits (s : State) (now : Datetime) : Prop where
  utc : now.offset = 0
  later : s.since.instant ≤ now.instant
  passed : now.instant ≤ s.clock

/-- An iteration announces nothing without a cause. -/
def Justifies (s : State) : Phase → Prop
  | .idle => True
  | .loaded lastRun => lastRun = s.since
  | .timed lastRun now => lastRun = s.since ∧ Commits s now
  | .paging now found _ changed => Commits s now ∧ (∀ uuid ∈ found, Cause selected s uuid) ∧
      ∀ uuid ∈ changed, Cause selected s uuid
  | .publishing now pending => Commits s now ∧ ∀ uuid ∈ pending, Cause selected s uuid

structure Steady (s : State) : Prop where
  utc : s.since.offset = 0
  passed : s.since.instant ≤ s.clock
  times : ∀ r ∈ s.registrations, r.time ≤ s.clock
  justifies : Justifies selected s s.phase

variable {selected moves}

theorem Justifies.mono {s s' : State} {phase : Phase} (h : Justifies selected s phase)
    (hlast : s'.lastRun = s.lastRun) (hclock : s.clock ≤ s'.clock)
    (hregistered : ∀ r ∈ s.registrations, r ∈ s'.registrations) :
    Justifies selected s' phase := by
  have hsince : s'.since = s.since := congrArg (Option.getD · datetimeMin) hlast
  have hcause : ∀ uuid, Cause selected s uuid → Cause selected s' uuid := by
    rintro uuid ⟨r, hr, huuid, hselected, htime⟩
    refine ⟨r, hregistered r hr, huuid, hselected, ?_⟩
    rwa [State.searchedFrom, hsince]
  have hcommits : ∀ now, Commits s now → Commits s' now := by
    intro now hnow
    exact ⟨hnow.utc, hsince ▸ hnow.later, hnow.passed.trans hclock⟩
  cases phase with
  | idle => trivial
  | loaded lastRun => exact h.trans hsince.symm
  | timed lastRun now => exact ⟨h.1.trans hsince.symm, hcommits now h.2⟩
  | paging now found pageOffset changed =>
    obtain ⟨hnow, hfound, hchanged⟩ := h
    exact ⟨hcommits now hnow, fun uuid hu => hcause uuid (hfound uuid hu),
      fun uuid hu => hcause uuid (hchanged uuid hu)⟩
  | publishing now pending =>
    exact ⟨hcommits now h.1, fun uuid hu => hcause uuid (h.2 uuid hu)⟩

theorem Steady.next {s : State} {phase : Phase} (h : Steady selected s)
    (hjustifies : Justifies selected s phase) : Steady selected { s with phase := phase } where
  utc := h.utc
  passed := h.passed
  times := h.times
  justifies := hjustifies.mono rfl le_rfl fun _ hr => hr

theorem start_steady {s : State} (h : Start s) : Steady selected s := by
  have hsince : s.since = datetimeMin := by rw [State.since, h.lastRun, Option.getD_none]
  exact {
    utc := hsince ▸ rfl
    passed := hsince ▸ h.clock
    times := fun r hr => (h.times r hr).2
    justifies := by
      rw [h.phase]
      trivial }

/-- What is written for a UTC time is its instant, cut to milliseconds. -/
theorem writtenInstant_utc {dt : Datetime} (hutc : dt.offset = 0) :
    writtenInstant dt = .ok (dt.instant - dt.instant % 1000) := by
  have hinstant : dt.instant = dt.wall := by
    unfold Datetime.instant
    omega
  rw [writtenInstant, if_pos hutc, hinstant]

theorem instant_utcNow (clock : Int) : (utcNow clock).instant = clock := Int.sub_zero clock

/-- What FKK finds has a cause. -/
theorem Steady.cause {s : State} (steady : Steady selected s) {since : Int} {found : List UUID}
    (written : writtenInstant s.since = .ok since)
    (result : Found selected s.registrations since found) :
    ∀ uuid ∈ found, Cause selected s uuid := by
  intro uuid hu
  obtain ⟨r, hr, huuid, hselected, htime⟩ := (result uuid).mp hu
  rw [writtenInstant_utc steady.utc] at written
  obtain rfl := Except.ok.inj written
  exact ⟨r, hr, huuid, hselected, htime⟩

theorem step_steady {s s' : State} (h : Step selected s s') (steady : Steady selected s) :
    Steady selected s' := by
  have hjustifies := steady.justifies
  cases h with
  | tick clock later =>
    exact ⟨steady.utc, steady.passed.trans later, fun r hr => (steady.times r hr).trans later,
      hjustifies.mono rfl later fun _ hr => hr⟩
  | register uuid =>
    refine ⟨steady.utc, steady.passed, fun r hr => ?_,
      hjustifies.mono rfl le_rfl fun _ hr => List.mem_cons_of_mem _ hr⟩
    rcases List.mem_cons.mp hr with rfl | hold
    · exact le_rfl
    · exact steady.times r hold
  | load => exact steady.next rfl
  | readNow lastRun loaded =>
    rw [loaded] at hjustifies
    refine steady.next ⟨hjustifies, rfl, ?_, ?_⟩
    · rw [instant_utcNow]
      exact steady.passed
    · rw [instant_utcNow]
  | request lastRun now since found timed written result =>
    rw [timed] at hjustifies
    obtain ⟨rfl, hcommits⟩ := hjustifies
    exact steady.next ⟨hcommits, steady.cause written result, fun uuid hu => by cases hu⟩
  | page now found pageOffset changed paging =>
    rw [paging] at hjustifies
    obtain ⟨hcommits, hfound, hchanged⟩ := hjustifies
    refine steady.next ⟨hcommits, hfound, fun uuid hu => ?_⟩
    rcases List.mem_union_iff.mp hu with hold | hpage
    · exact hchanged uuid hold
    · exact hfound uuid (List.mem_of_mem_drop (List.mem_of_mem_take (List.mem_dedup.mp hpage)))
  | lastPage now found pageOffset changed paging =>
    rw [paging] at hjustifies
    obtain ⟨hcommits, _, hchanged⟩ := hjustifies
    exact steady.next ⟨hcommits, hchanged⟩
  | publish now pending uuid publishing =>
    rw [publishing] at hjustifies
    obtain ⟨hcommits, hpending⟩ := hjustifies
    have hrest : Justifies selected s (.publishing now (pending.erase uuid)) :=
      ⟨hcommits, fun u hu => hpending u (List.mem_of_mem_erase hu)⟩
    exact ⟨steady.utc, steady.passed, steady.times, hrest.mono rfl le_rfl fun _ hr => hr⟩
  | commit now publishing =>
    rw [publishing] at hjustifies
    exact ⟨hjustifies.1.utc, hjustifies.1.passed, steady.times, trivial⟩
  | fail => exact steady.next trivial

/-- A new list of what is found has its causes too. -/
theorem liveStep_steady {s s' : State} (h : LiveStep selected moves s s')
    (steady : Steady selected s) : Steady selected s' := by
  cases h with
  | step _ h => exact step_steady h steady
  | relist now since found found' pageOffset changed paging written result =>
    have hjustifies := steady.justifies
    rw [paging] at hjustifies
    obtain ⟨hcommits, _, hchanged⟩ := hjustifies
    exact steady.next ⟨hcommits, steady.cause written result, hchanged⟩

theorem liveReachable_steady {s : State} (h : LiveReachable selected moves s) :
    Steady selected s := by
  induction h with
  | start h => exact start_steady h
  | step _ step ih => exact liveStep_steady step ih

/-! ## What one step does -/

/-- What is announced has been registered, and no run before covers that. -/
theorem liveStep_announces {s s' : State} (h : LiveStep selected moves s s')
    (steady : Steady selected s) :
    s'.published = s.published ∨
      ∃ m, s'.published = m :: s.published ∧ Cause selected s m.uuid := by
  have hjustifies := steady.justifies
  cases h with
  | relist => exact Or.inl rfl
  | step _ h =>
    cases h with
    | publish now pending uuid publishing next =>
      rw [publishing] at hjustifies
      exact Or.inr ⟨_, rfl, hjustifies.2 uuid next⟩
    | tick | register | load | readNow | request | page | lastPage | commit | fail =>
      exact Or.inl rfl

theorem liveStep_registers {s s' : State} (h : LiveStep selected moves s s') :
    ∀ r ∈ s.registrations, r ∈ s'.registrations := by
  cases h with
  | relist => exact fun r hr => hr
  | step _ h =>
    cases h with
    | register uuid => exact fun r hr => List.mem_cons_of_mem _ hr
    | tick | load | readNow | request | page | lastPage | publish | commit | fail =>
      exact fun r hr => hr

/-! ## Runs -/

/-- Once there is a last run, there is one, and its time never goes back. -/
theorem getLastRun_never_back {s s' : State} (h : LiveReachable selected moves s)
    (hrun : Relation.ReflTransGen (LiveStep selected moves) s s') {lastRun : Datetime}
    (hlast : s.getLastRun = some lastRun) :
    ∃ later, s'.getLastRun = some later ∧ lastRun.instant ≤ later.instant := by
  induction hrun with
  | refl => exact ⟨lastRun, hlast, le_rfl⟩
  | @tail t _ first step ih =>
    obtain ⟨later, hlater, hle⟩ := ih
    have hjustifies := (liveReachable_steady (h.run first)).justifies
    cases step with
    | relist => exact ⟨later, hlater, hle⟩
    | step _ step =>
      cases step with
      | commit now publishing =>
        rw [publishing] at hjustifies
        have hsince : t.since = later := congrArg (Option.getD · datetimeMin) hlater
        exact ⟨now, rfl, hle.trans (hsince ▸ hjustifies.1.later)⟩
      | tick | register | load | readNow | request | page | lastPage | publish | fail =>
        exact ⟨later, hlater, hle⟩

/-! ## Catching up -/

/-- An iteration that nothing disturbs commits the present time, and announces all
that its search finds. -/
theorem run_commits {s : State} (h : LiveReachable selected moves s) :
    ∃ s', Relation.ReflTransGen (LiveStep selected moves) s s' ∧
      s'.lastRun = some (utcNow s.clock) ∧ s'.registrations = s.registrations ∧
      s'.clock = s.clock ∧
      ∀ r ∈ s.registrations, selected r → s.searchedFrom ≤ r.time → s'.Announced r := by
  have steady := liveReachable_steady h
  obtain ⟨found, hfound⟩ := @exists_found selected s.registrations s.searchedFrom
  have loaded : Relation.ReflTransGen (Step selected) s { s with phase := .loaded s.since } :=
    (Relation.ReflTransGen.single (.fail s)).tail (.load { s with phase := .idle } rfl)
  have timed := loaded.tail (.readNow _ s.since rfl)
  have paging := timed.tail
    (.request _ s.since _ _ found rfl (writtenInstant_utc steady.utc) hfound)
  obtain ⟨published, hrest, _, hnew⟩ := run_rest s (utcNow s.clock) found 0 []
  refine ⟨_, live_run (paging.trans hrest), rfl, rfl, rfl, fun r hr hselected hsince => ?_⟩
  have hfirst : r.uuid ∈ outstanding found 0 [] :=
    mem_outstanding.mpr (Or.inr ⟨(hfound _).mpr ⟨r, hr, rfl, hselected, hsince⟩, List.not_mem_nil⟩)
  exact ⟨_, hnew _ hfirst, rfl, steady.times r hr⟩

/-- Wherever the generator is, whatever has failed and however FKK has listed what
it found, it can go on to commit the present time, and then all that is registered
since the last run is announced; and all that was ever registered before, if
nothing behind the cursor moves to before it. -/
theorem catches_up {s : State} (h : LiveReachable selected moves s) :
    ∃ s', Relation.ReflTransGen (LiveStep selected moves) s s' ∧
      s'.lastRun = some (utcNow s.clock) ∧ s'.registrations = s.registrations ∧
      (∀ r ∈ s.registrations, selected r → s.since.instant ≤ r.time → s'.Announced r) ∧
      ((∀ found found' pageOffset, moves found found' pageOffset → Stays found found' pageOffset) →
        ∀ r ∈ s.registrations, selected r → r.time < s.clock → s'.Announced r) := by
  obtain ⟨s', hrun, hlast, hregistrations, _, hannounced⟩ := run_commits h
  refine ⟨s', hrun, hlast, hregistrations, fun r hr hselected hsince => ?_,
    fun hstays r hr hselected hbefore => ?_⟩
  · apply hannounced r hr hselected
    unfold State.searchedFrom
    omega
  · have hvalid := liveReachable_valid ((h.run hrun).mono hstays)
    rw [← instant_utcNow s.clock] at hbefore
    exact hvalid.announced _ hlast r (hregistrations ▸ hr) hselected hbefore

theorem catches_up_firstState : ∃ s',
    Relation.ReflTransGen (LiveStep (fun _ => True) fun _ _ _ => True) firstState s' ∧
      s'.lastRun = some (utcNow 10) ∧ s'.registrations = firstState.registrations ∧
      s'.Announced ⟨7, 10⟩ := by
  have start : LiveReachable (fun _ => True) (fun _ _ _ => True) firstState :=
    .start ⟨by decide, by decide, rfl, rfl⟩
  obtain ⟨s', hrun, hlast, hregistrations, hannounced, _⟩ := catches_up start
  exact ⟨s', hrun, hlast, hregistrations,
    hannounced _ (List.mem_singleton_self _) trivial (by decide)⟩

/-! ## Being quiet -/

end Os2moFkk.EventGenerator
