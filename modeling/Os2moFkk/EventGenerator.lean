import Mathlib.Data.List.Dedup
import Os2moFkk.Klasse

/-!
# The event generator

`_generate` asks FKK for what was registered since the last run and publishes a
`change` for each UUID. The time of the run is read before FKK is asked and
committed after everything is published, so nothing falls between two runs.
-/

namespace Os2moFkk.EventGenerator

/-- `datetime.min` in UTC. -/
def datetimeMin : Datetime := .timestamp 0 utc

/-- `datetime.now(UTC)`. -/
def utcNow (clock : Int) : Datetime := .timestamp clock utc

/-- The instant that is written, which has whole milliseconds: `isoformat` cuts
off the rest. -/
def writtenInstant (dt : Datetime) : Except Error Int :=
  if dt.offset = 0 then .ok (dt.wall - dt.wall % 1000) else .error .assertionError

/-- The search never starts later than asked for. -/
theorem writtenInstant_le {dt : Datetime} {written : Int} (h : writtenInstant dt = .ok written) :
    written ≤ dt.instant := by
  unfold writtenInstant at h
  split at h
  · rename_i hutc
    obtain rfl := Except.ok.inj h
    unfold Datetime.instant
    omega
  · cases h

structure Registration where
  uuid : UUID
  time : Int

/-- A `change` message and when it was published. -/
structure Change where
  uuid : UUID
  time : Int

/-- The endpoint supports a maximum of 500 results per page. -/
def pageLimit : Nat := 500

/-- The set of UUIDs on one page of what FKK found. -/
def search (found : List UUID) (pageOffset : Nat) : List UUID :=
  ((found.drop pageOffset).take pageLimit).dedup

/-- Only a page from the end on is empty. -/
theorem take_of_search_nil {found : List UUID} {pageOffset : Nat}
    (h : search found pageOffset = []) : found.take pageOffset = found := by
  simp only [search, List.dedup_eq_nil, List.take_eq_nil_iff, List.drop_eq_nil_iff] at h
  apply List.take_of_length_le
  exact h.resolve_left (by decide)

/-- A page holds what lies between its offset and the next. -/
theorem mem_take_add {found : List UUID} {pageOffset : Nat} {uuid : UUID} :
    uuid ∈ found.take (pageOffset + pageLimit) ↔
      uuid ∈ found.take pageOffset ∨ uuid ∈ search found pageOffset := by
  simp only [search, List.mem_dedup, List.take_add, List.mem_append]

/-- How far an iteration of `_generate` is: it has loaded the time of the last
run, has read the clock, has added pages to `changed`, has still to publish. -/
inductive Phase where
  | idle
  | loaded (lastRun : Datetime)
  | timed (lastRun now : Datetime)
  | paging (now : Datetime) (found : List UUID) (pageOffset : Nat) (changed : List UUID)
  | publishing (now : Datetime) (pending : List UUID)

/-- `lastRun` is the committed row of the database. -/
structure State where
  clock : Int
  registrations : List Registration
  lastRun : Option Datetime
  published : List Change
  phase : Phase

/-- The last run as `_generate` loads it. -/
def State.since (s : State) : Datetime := s.lastRun.getD datetimeMin

/-- The change has been announced since it was registered. -/
def State.Announced (s : State) (r : Registration) : Prop :=
  ∃ m ∈ s.published, m.uuid = r.uuid ∧ r.time ≤ m.time

/-- A new generator, before some history of registrations. -/
structure Start (s : State) : Prop where
  clock : 0 ≤ s.clock
  times : ∀ r ∈ s.registrations, 0 ≤ r.time ∧ r.time ≤ s.clock
  lastRun : s.lastRun = none
  phase : s.phase = .idle

-- What the search selects by facet and by the user-key filter is fixed.
variable (selected : Registration → Prop)

/-- FKK lists, in any order, the UUIDs with a registration at or after `since`. -/
def Found (registrations : List Registration) (since : Int) (found : List UUID) : Prop :=
  ∀ uuid, uuid ∈ found ↔ ∃ r ∈ registrations, r.uuid = uuid ∧ selected r ∧ since ≤ r.time

/-- A failure can come at any point, and rolls the transaction back. -/
inductive Step : State → State → Prop
  | tick (s : State) (clock : Int) (later : s.clock ≤ clock) : Step s { s with clock := clock }
  | register (s : State) (uuid : UUID) :
      Step s { s with registrations := ⟨uuid, s.clock⟩ :: s.registrations }
  | load (s : State) (idle : s.phase = .idle) : Step s { s with phase := .loaded s.since }
  | readNow (s : State) (lastRun : Datetime) (loaded : s.phase = .loaded lastRun) :
      Step s { s with phase := .timed lastRun (utcNow s.clock) }
  | request (s : State) (lastRun now : Datetime) (since : Int) (found : List UUID)
      (timed : s.phase = .timed lastRun now) (written : writtenInstant lastRun = .ok since)
      (result : Found selected s.registrations since found) :
      Step s { s with phase := .paging now found 0 [] }
  | page (s : State) (now : Datetime) (found : List UUID) (pageOffset : Nat) (changed : List UUID)
      (paging : s.phase = .paging now found pageOffset changed)
      (more : search found pageOffset ≠ []) :
      Step s { s with
        phase := .paging now found (pageOffset + pageLimit) (changed ∪ search found pageOffset) }
  | lastPage (s : State) (now : Datetime) (found : List UUID) (pageOffset : Nat)
      (changed : List UUID) (paging : s.phase = .paging now found pageOffset changed)
      (done : search found pageOffset = []) :
      Step s { s with phase := .publishing now changed }
  | publish (s : State) (now : Datetime) (pending : List UUID) (uuid : UUID)
      (publishing : s.phase = .publishing now pending) (next : uuid ∈ pending) :
      Step s { s with
        published := ⟨uuid, s.clock⟩ :: s.published, phase := .publishing now (pending.erase uuid) }
  | commit (s : State) (now : Datetime) (publishing : s.phase = .publishing now []) :
      Step s { s with lastRun := some now, phase := .idle }
  | fail (s : State) : Step s { s with phase := .idle }

inductive Reachable : State → Prop
  | start {s : State} (h : Start s) : Reachable s
  | step {s s' : State} (h : Reachable s) (step : Step selected s s') : Reachable s'

/-! ## What an iteration keeps track of -/

/-- A registration that an iteration with this time has to announce. -/
structure Due (s : State) (now : Datetime) (r : Registration) : Prop where
  registered : r ∈ s.registrations
  selected : selected r
  since : s.since.instant ≤ r.time
  before : r.time < now.instant

/-- Nothing that is due is lost from one phase to the next. -/
def Tracks (s : State) : Phase → Prop
  | .idle => True
  | .loaded lastRun => lastRun = s.since
  | .timed lastRun now => lastRun = s.since ∧ now.instant ≤ s.clock
  | .paging now found pageOffset changed => now.instant ≤ s.clock ∧
      (∀ r, Due selected s now r → r.uuid ∈ found) ∧ ∀ uuid ∈ found.take pageOffset, uuid ∈ changed
  | .publishing now pending => now.instant ≤ s.clock ∧
      ∀ r, Due selected s now r → r.uuid ∈ pending ∨ s.Announced r

structure Valid (s : State) : Prop where
  clock : 0 ≤ s.clock
  times : ∀ r ∈ s.registrations, 0 ≤ r.time ∧ r.time ≤ s.clock
  past : ∀ lastRun, s.lastRun = some lastRun → lastRun.instant ≤ s.clock
  announced : ∀ lastRun, s.lastRun = some lastRun → ∀ r ∈ s.registrations, selected r →
    r.time < lastRun.instant → s.Announced r
  tracks : Tracks selected s s.phase

variable {selected}

/-- As time goes on, registrations come in and messages go out, an iteration
still tracks what is due: what comes in is not before its time. -/
theorem Tracks.mono {s s' : State} {phase : Phase} (h : Tracks selected s phase)
    (hlast : s'.lastRun = s.lastRun) (hclock : s.clock ≤ s'.clock)
    (hregistered : ∀ r ∈ s'.registrations, r ∈ s.registrations ∨ s.clock ≤ r.time)
    (hpublished : ∀ m ∈ s.published, m ∈ s'.published) : Tracks selected s' phase := by
  have hsince : s'.since = s.since := congrArg (Option.getD · datetimeMin) hlast
  have hdue : ∀ now r, now.instant ≤ s.clock → Due selected s' now r → Due selected s now r := by
    intro now r hnow hr
    have hold := (hregistered r hr.registered).resolve_right fun hnew => by
      have := hr.before
      omega
    exact ⟨hold, hr.selected, hsince ▸ hr.since, hr.before⟩
  have hannounced : ∀ r, s.Announced r → s'.Announced r := by
    rintro r ⟨m, hm, huuid, htime⟩
    exact ⟨m, hpublished m hm, huuid, htime⟩
  cases phase with
  | idle => trivial
  | loaded lastRun => exact h.trans hsince.symm
  | timed lastRun now => exact ⟨h.1.trans hsince.symm, h.2.trans hclock⟩
  | paging now found pageOffset changed =>
    obtain ⟨hnow, hfound, hchanged⟩ := h
    exact ⟨hnow.trans hclock, fun r hr => hfound r (hdue now r hnow hr), hchanged⟩
  | publishing now pending =>
    obtain ⟨hnow, hpending⟩ := h
    exact ⟨hnow.trans hclock, fun r hr => (hpending r (hdue now r hnow hr)).imp id (hannounced r)⟩

/-- A new phase leaves the rest of a valid state as it is. -/
theorem Valid.next {s : State} {phase : Phase} (h : Valid selected s)
    (htracks : Tracks selected s phase) : Valid selected { s with phase := phase } where
  clock := h.clock
  times := h.times
  past := h.past
  announced := h.announced
  tracks := htracks.mono rfl le_rfl (fun _ hr => Or.inl hr) fun _ hm => hm

/-- When everything is published, all that is due is announced, and what was
registered before was announced before. -/
theorem Valid.commit {s : State} {now : Datetime} (h : Valid selected s)
    (hphase : s.phase = .publishing now []) :
    now.instant ≤ s.clock ∧ ∀ r ∈ s.registrations, selected r → r.time < now.instant →
      s.Announced r := by
  have htracks := h.tracks
  rw [hphase] at htracks
  obtain ⟨hnow, hpending⟩ := htracks
  refine ⟨hnow, fun r hr hselected hbefore => ?_⟩
  by_cases hsince : s.since.instant ≤ r.time
  · exact (hpending r ⟨hr, hselected, hsince, hbefore⟩).resolve_left (List.not_mem_nil)
  · cases hlast : s.lastRun with
    | some lastRun =>
      apply h.announced lastRun hlast r hr hselected
      simpa [State.since, hlast] using hsince
    | none =>
      exfalso
      have hzero : s.since.instant = 0 := by
        rw [State.since, hlast]
        rfl
      have := (h.times r hr).1
      omega

theorem start_valid {s : State} (h : Start s) : Valid selected s where
  clock := h.clock
  times := h.times
  past lastRun hlast := by
    rw [h.lastRun] at hlast
    cases hlast
  announced lastRun hlast := by
    rw [h.lastRun] at hlast
    cases hlast
  tracks := by
    rw [h.phase]
    trivial

theorem Valid.tick {s : State} {clock : Int} (h : Valid selected s) (later : s.clock ≤ clock) :
    Valid selected { s with clock := clock } where
  clock := h.clock.trans later
  times r hr := ⟨(h.times r hr).1, (h.times r hr).2.trans later⟩
  past lastRun hlast := (h.past lastRun hlast).trans later
  announced := h.announced
  tracks := h.tracks.mono rfl later (fun _ hr => Or.inl hr) fun _ hm => hm

/-- A registration is made now, so no committed time is later. -/
theorem Valid.register {s : State} (h : Valid selected s) (uuid : UUID) :
    Valid selected { s with registrations := ⟨uuid, s.clock⟩ :: s.registrations } := by
  have hcases : ∀ r ∈ (⟨uuid, s.clock⟩ : Registration) :: s.registrations,
      r ∈ s.registrations ∨ r.time = s.clock := by
    intro r hr
    cases hr with
    | head => exact Or.inr rfl
    | tail _ hold => exact Or.inl hold
  have hclock := h.clock
  exact {
    clock := hclock
    times := fun r hr => by
      cases hcases r hr with
      | inl hold => exact h.times r hold
      | inr hnew => dsimp only; omega
    past := h.past
    announced := fun lastRun hlast r hr hselected hbefore => by
      have hpast := h.past lastRun hlast
      cases hcases r hr with
      | inl hold => exact h.announced lastRun hlast r hold hselected hbefore
      | inr hnew => omega
    tracks := h.tracks.mono rfl le_rfl (fun r hr => (hcases r hr).imp id fun h => h.ge)
      fun _ hm => hm }

/-- What is announced stays so, and so is now what waited under this UUID. -/
theorem Valid.publish {s : State} {now : Datetime} {pending : List UUID} (h : Valid selected s)
    (publishing : s.phase = .publishing now pending) (uuid : UUID) :
    Valid selected { s with
      published := ⟨uuid, s.clock⟩ :: s.published,
      phase := .publishing now (pending.erase uuid) } := by
  have htracks := h.tracks
  rw [publishing] at htracks
  obtain ⟨hnow, hpending⟩ := htracks
  have hkept : ∀ r, s.Announced r → State.Announced { s with
      published := ⟨uuid, s.clock⟩ :: s.published, phase := .publishing now (pending.erase uuid) }
      r := by
    rintro r ⟨m, hm, huuid, htime⟩
    exact ⟨m, List.mem_cons_of_mem _ hm, huuid, htime⟩
  exact {
    clock := h.clock
    times := h.times
    past := h.past
    announced := fun lastRun hlast r hr hselected hbefore =>
      hkept r (h.announced lastRun hlast r hr hselected hbefore)
    tracks := by
      refine ⟨hnow, fun r hr => ?_⟩
      have hdue : Due selected s now r := ⟨hr.registered, hr.selected, hr.since, hr.before⟩
      by_cases heq : r.uuid = uuid
      · have htime := (h.times r hr.registered).2
        exact Or.inr ⟨_, List.mem_cons_self, heq.symm, htime⟩
      · cases hpending r hdue with
        | inl hwaiting => exact Or.inl ((List.mem_erase_of_ne heq).mpr hwaiting)
        | inr hannounced => exact Or.inr (hkept r hannounced) }

theorem step_valid {s s' : State} (h : Step selected s s') (valid : Valid selected s) :
    Valid selected s' := by
  have htracks := valid.tracks
  cases h with
  | tick clock later => exact valid.tick later
  | register uuid => exact valid.register uuid
  | load idle => exact valid.next rfl
  | readNow lastRun loaded =>
    rw [loaded] at htracks
    refine valid.next ⟨htracks, ?_⟩
    change s.clock - 0 ≤ s.clock
    omega
  | request lastRun now since found timed written result =>
    rw [timed] at htracks
    obtain ⟨rfl, hnow⟩ := htracks
    refine valid.next ⟨hnow, fun r hr => ?_, fun uuid hu => ?_⟩
    · have hle := writtenInstant_le written
      exact (result r.uuid).mpr ⟨r, hr.registered, rfl, hr.selected, hle.trans hr.since⟩
    · cases hu
  | page now found pageOffset changed paging more =>
    rw [paging] at htracks
    obtain ⟨hnow, hfound, hchanged⟩ := htracks
    refine valid.next ⟨hnow, hfound, fun uuid hu => ?_⟩
    exact List.mem_union_iff.mpr ((mem_take_add.mp hu).imp (hchanged uuid) id)
  | lastPage now found pageOffset changed paging done =>
    rw [paging] at htracks
    obtain ⟨hnow, hfound, hchanged⟩ := htracks
    rw [take_of_search_nil done] at hchanged
    exact valid.next ⟨hnow, fun r hr => Or.inl (hchanged _ (hfound r hr))⟩
  | publish now pending uuid publishing next => exact valid.publish publishing uuid
  | commit now publishing =>
    obtain ⟨hnow, hannounced⟩ := valid.commit publishing
    exact {
      clock := valid.clock
      times := valid.times
      past := fun lastRun hlast => Option.some.inj hlast ▸ hnow
      announced := fun lastRun hlast => Option.some.inj hlast ▸ hannounced
      tracks := trivial }
  | fail => exact valid.next trivial

theorem reachable_valid {s : State} (h : Reachable selected s) : Valid selected s := by
  induction h with
  | start h => exact start_valid h
  | step _ step ih => exact step_valid step ih

/-- In every reachable state, each registration from before the committed time
has been announced since it was made. -/
theorem no_change_lost {s : State} (h : Reachable selected s) {lastRun : Datetime}
    (hlast : s.lastRun = some lastRun) {r : Registration} (hr : r ∈ s.registrations)
    (hselected : selected r) (hbefore : r.time < lastRun.instant) :
    ∃ m ∈ s.published, m.uuid = r.uuid ∧ r.time ≤ m.time :=
  (reachable_valid h).announced lastRun hlast r hr hselected hbefore

/-- A registration of the first moment, and no run before. -/
def firstState : State where
  clock := 10
  registrations := [⟨7, 10⟩]
  lastRun := none
  published := []
  phase := .idle

/-- The first iteration fails after it has published, the second commits. -/
theorem no_change_lost_firstState : ∃ s : State, Reachable (fun _ => True) s ∧
    s.lastRun = some (utcNow 30) ∧ s.published = [⟨7, 30⟩, ⟨7, 20⟩] ∧
    ∃ m ∈ s.published, m.uuid = 7 ∧ 10 ≤ m.time := by
  have start : Reachable (fun _ => True) firstState := .start ⟨by decide, by decide, rfl, rfl⟩
  have found : Found (fun _ => True) firstState.registrations 0 [7] := by
    intro uuid
    simp [firstState, eq_comm]
  have iterate : ∀ s : State, Reachable (fun _ => True) s → s.phase = .idle → s.lastRun = none →
      s.registrations = firstState.registrations →
      Reachable (fun _ => True) { s with
        published := ⟨7, s.clock⟩ :: s.published, phase := .publishing (utcNow s.clock) [] } := by
    intro s h idle hlast hregs
    have timed := (h.step (.load s idle)).step (.readNow _ _ rfl)
    have paging := (timed.step (.request _ _ _ 0 [7] rfl (by rw [State.since, hlast]; rfl)
      (by rw [hregs]; exact found))).step (.page _ _ _ 0 [] rfl (by decide))
    have publishing := (paging.step (.lastPage _ _ _ _ _ rfl (by decide))).step
      (.publish _ _ _ 7 rfl (by decide))
    exact publishing
  have ticked := start.step (.tick firstState 20 (by decide))
  have failed := (iterate _ ticked rfl rfl rfl).step (.fail _)
  have committed : Reachable (fun _ => True)
      ⟨30, firstState.registrations, some (utcNow 30), [⟨7, 30⟩, ⟨7, 20⟩], .idle⟩ :=
    (iterate _ (failed.step (.tick _ 30 (by decide))) rfl rfl rfl).step (.commit _ _ rfl)
  have first : (⟨7, 10⟩ : Registration) ∈ firstState.registrations := List.mem_singleton_self _
  exact ⟨_, committed, rfl, rfl, no_change_lost committed rfl first trivial (by decide)⟩

end Os2moFkk.EventGenerator
