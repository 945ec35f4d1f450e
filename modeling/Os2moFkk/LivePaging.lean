import Mathlib.Logic.Relation
import Os2moFkk.Paging

/-!
# Iterations over a list that changes

FKK may list what it has found anew for each page. An iteration still announces
all that is due, as long as nothing moves from behind the cursor to before it:
what comes in while pages are read is left for the next iteration anyway.
-/

namespace Os2moFkk.EventGenerator

/-- From which list to which FKK may go over, with the cursor at an offset. -/
abbrev Relisting := List UUID → List UUID → Nat → Prop

/-- What is behind the cursor stays there. -/
def Stays : Relisting := fun found found' pageOffset =>
  ∀ uuid ∈ found, uuid ∉ found.take pageOffset → uuid ∉ found'.take pageOffset

variable (selected : Registration → Prop) (moves : Relisting)

/-- As `Step`, but FKK may list what it finds anew between two pages. -/
inductive LiveStep : State → State → Prop
  | step (s s' : State) (h : Step selected s s') : LiveStep s s'
  | relist (s : State) (now : Datetime) (since : Int) (found found' : List UUID)
      (pageOffset : Nat) (changed : List UUID)
      (paging : s.phase = .paging now found pageOffset changed)
      (written : writtenInstant s.since = .ok since)
      (result : Found selected s.registrations since found')
      (moved : moves found found' pageOffset) :
      LiveStep s { s with phase := .paging now found' pageOffset changed }

inductive LiveReachable : State → Prop
  | start {s : State} (h : Start s) : LiveReachable s
  | step {s s' : State} (h : LiveReachable s) (step : LiveStep selected moves s s') :
      LiveReachable s'

/-- What is to be published in the end: what is on the pages so far, and what is
behind the cursor. -/
def outstanding (found : List UUID) (pageOffset : Nat) (changed : List UUID) : List UUID :=
  changed ++ found.filter (· ∉ found.take pageOffset)

/-- The phase, as if everything outstanding was there to be published. -/
def Phase.outstanding : Phase → Phase
  | .paging now found pageOffset changed =>
    .publishing now (EventGenerator.outstanding found pageOffset changed)
  | phase => phase

/-- Nothing that is due is lost. -/
def LiveValid (s : State) : Prop := Valid selected { s with phase := s.phase.outstanding }

variable {selected moves}

theorem LiveReachable.run {s s' : State} (h : LiveReachable selected moves s)
    (hrun : Relation.ReflTransGen (LiveStep selected moves) s s') :
    LiveReachable selected moves s' := by
  induction hrun with
  | refl => exact h
  | tail _ step ih => exact ih.step step

/-- Where FKK goes over to fewer lists, less is reachable. -/
theorem LiveReachable.mono {moves' : Relisting} (hmoves : ∀ l l' n, moves l l' n → moves' l l' n)
    {s : State} (h : LiveReachable selected moves s) : LiveReachable selected moves' s := by
  induction h with
  | start h => exact .start h
  | step _ step ih =>
    cases step with
    | step _ h => exact ih.step (.step _ _ h)
    | relist now since found found' pageOffset changed paging written result moved =>
      exact ih.step (.relist _ now since found found' pageOffset changed paging written result
        (hmoves _ _ _ moved))

/-- What happens without a new list can happen. -/
theorem live_run {s s' : State} (h : Relation.ReflTransGen (Step selected) s s') :
    Relation.ReflTransGen (LiveStep selected moves) s s' :=
  h.lift id fun _ _ => .step _ _

theorem mem_outstanding {found changed : List UUID} {pageOffset : Nat} {uuid : UUID} :
    uuid ∈ outstanding found pageOffset changed ↔
      uuid ∈ changed ∨ uuid ∈ found ∧ uuid ∉ found.take pageOffset := by
  simp [outstanding]

theorem outstanding_page {found changed : List UUID} {pageOffset : Nat} {uuid : UUID}
    (h : uuid ∈ outstanding found pageOffset changed) :
    uuid ∈ outstanding found (pageOffset + pageLimit) (changed ∪ search found pageOffset) := by
  rw [mem_outstanding] at *
  rw [List.mem_union_iff]
  rcases h with hchanged | ⟨hfound, hbehind⟩
  · exact Or.inl (Or.inl hchanged)
  · by_cases hpage : uuid ∈ search found pageOffset
    · exact Or.inl (Or.inr hpage)
    · exact Or.inr ⟨hfound, fun htake => (mem_take_add.mp htake).elim hbehind hpage⟩

theorem outstanding_done {found changed : List UUID} {pageOffset : Nat}
    (hdone : search found pageOffset = []) {uuid : UUID}
    (h : uuid ∈ outstanding found pageOffset changed) : uuid ∈ changed := by
  rw [mem_outstanding, take_of_search_nil hdone] at h
  exact h.resolve_right fun hbehind => hbehind.2 hbehind.1

/-- What is to be published may become more, for what is due. -/
theorem Valid.publishing {s : State} {now : Datetime} {pending pending' : List UUID}
    (h : Valid selected { s with phase := .publishing now pending })
    (hmore : ∀ r ∈ s.registrations, selected r → s.since.instant ≤ r.time →
      r.uuid ∈ pending → r.uuid ∈ pending') :
    Valid selected { s with phase := .publishing now pending' } := by
  obtain ⟨hnow, hpending⟩ := h.tracks
  have htracks : Tracks selected { s with phase := .publishing now pending }
      (.publishing now pending') := by
    refine ⟨hnow, fun r hr => (hpending r hr).imp (fun hold => ?_) id⟩
    exact hmore r hr.registered hr.selected hr.since hold
  exact h.next htracks

theorem step_liveValid {s s' : State} (h : Step selected s s') (valid : LiveValid selected s) :
    LiveValid selected s' := by
  unfold LiveValid at valid
  have htracks := valid.tracks
  cases h with
  | tick clock later => exact valid.tick later
  | register uuid => exact valid.register uuid
  | load idle =>
    have hloaded : Tracks selected { s with phase := s.phase.outstanding } (.loaded s.since) := rfl
    exact valid.next hloaded
  | readNow lastRun loaded =>
    rw [loaded] at htracks
    have htimed : Tracks selected { s with phase := s.phase.outstanding }
        (.timed lastRun (utcNow s.clock)) := ⟨htracks, (Int.sub_zero s.clock).le⟩
    exact valid.next htimed
  | request lastRun now since found timed written result =>
    rw [timed] at htracks
    obtain ⟨hlast, hnow⟩ := htracks
    have hsince : lastRun = s.since := hlast
    subst hsince
    have hpublishing : Tracks selected { s with phase := s.phase.outstanding }
        (.publishing now (outstanding found 0 [])) := by
      refine ⟨hnow, fun r hr => Or.inl (mem_outstanding.mpr (Or.inr ⟨?_, List.not_mem_nil⟩))⟩
      have hle := writtenInstant_le written
      exact (result r.uuid).mpr ⟨r, hr.registered, rfl, hr.selected, hle.trans hr.since⟩
    exact valid.next hpublishing
  | page now found pageOffset changed paging =>
    rw [paging] at valid
    exact Valid.publishing valid fun r _ _ _ => outstanding_page
  | lastPage now found pageOffset changed paging done =>
    rw [paging] at valid
    exact Valid.publishing valid fun r _ _ _ => outstanding_done done
  | publish now pending uuid publishing =>
    rw [publishing] at valid
    exact valid.publish rfl uuid
  | commit now publishing =>
    rw [publishing] at valid
    obtain ⟨hnow, hannounced⟩ := valid.commit rfl
    exact {
      clock := valid.clock
      times := valid.times
      past := fun lastRun hlast => Option.some.inj hlast ▸ hnow
      announced := fun lastRun hlast => Option.some.inj hlast ▸ hannounced
      tracks := trivial }
  | fail =>
    have hidle : Tracks selected { s with phase := s.phase.outstanding } .idle := trivial
    exact valid.next hidle

theorem liveStep_valid {s s' : State} (h : LiveStep selected Stays s s')
    (valid : LiveValid selected s) : LiveValid selected s' := by
  cases h with
  | step _ h => exact step_liveValid h valid
  | relist now since found found' pageOffset changed paging written result stays =>
    unfold LiveValid at valid
    rw [paging] at valid
    refine Valid.publishing valid fun r hr hselected hsince hold => ?_
    rw [mem_outstanding] at *
    refine hold.imp id fun hbehind => ⟨?_, stays _ hbehind.1 hbehind.2⟩
    exact (result r.uuid).mpr ⟨r, hr, rfl, hselected, (writtenInstant_le written).trans hsince⟩

theorem start_liveValid {s : State} (h : Start s) : LiveValid selected s := by
  have valid : Valid selected s := start_valid h
  have hidle : Tracks selected s .idle := trivial
  rw [LiveValid, h.phase]
  exact valid.next hidle

theorem liveReachable_valid {s : State} (h : LiveReachable selected Stays s) :
    LiveValid selected s := by
  induction h with
  | start h => exact start_liveValid h
  | step _ step ih => exact liveStep_valid step ih

/-! ## Iterations that nothing disturbs -/

/-- With at most so many entries behind the cursor, the pages come to an end, and
all that is outstanding is to be published. -/
theorem run_pages (s : State) (now : Datetime) (found : List UUID) {changed : List UUID}
    {offset : Nat} (n : Nat) (hend : found.length ≤ offset + n) :
    ∃ pending, Relation.ReflTransGen (Step selected)
        { s with phase := .paging now found offset changed }
        { s with phase := .publishing now pending } ∧
      ∀ uuid ∈ outstanding found offset changed, uuid ∈ pending := by
  induction n generalizing offset changed with
  | zero =>
    have hdone : search found offset = [] := by simpa [search] using Or.inr hend
    exact ⟨changed, .single (.lastPage _ now found offset changed rfl hdone),
      fun _ => outstanding_done hdone⟩
  | succ n ih =>
    by_cases hdone : search found offset = []
    · exact ⟨changed, .single (.lastPage _ now found offset changed rfl hdone),
        fun _ => outstanding_done hdone⟩
    · have hpages : found.length ≤ offset + pageLimit + n := by
        unfold pageLimit
        omega
      obtain ⟨pending, hrest, hpending⟩ := ih hpages
      exact ⟨pending, .head (.page _ now found offset changed rfl hdone) hrest,
        fun _ hu => hpending _ (outstanding_page hu)⟩

/-- Everything that is to be published can be. -/
theorem run_publishes (s : State) (now : Datetime) (pending : List UUID) :
    ∃ published, Relation.ReflTransGen (Step selected)
        { s with phase := .publishing now pending }
        { s with published := published, phase := .publishing now [] } ∧
      (∀ m ∈ s.published, m ∈ published) ∧ ∀ uuid ∈ pending, ⟨uuid, s.clock⟩ ∈ published := by
  induction pending generalizing s with
  | nil => exact ⟨s.published, .refl, fun _ hm => hm, fun _ hu => by cases hu⟩
  | cons uuid pending ih =>
    have hstep : Step selected { s with phase := .publishing now (uuid :: pending) } _ :=
      .publish _ now _ uuid rfl List.mem_cons_self
    rw [List.erase_cons_head] at hstep
    obtain ⟨published, hrest, hkept, hnew⟩ :=
      ih { s with published := ⟨uuid, s.clock⟩ :: s.published }
    refine ⟨published, .head hstep hrest, fun m hm => hkept m (List.mem_cons_of_mem _ hm), ?_⟩
    intro u hu
    rcases List.mem_cons.mp hu with rfl | hu
    · exact hkept _ List.mem_cons_self
    · exact hnew u hu

/-- From a page on, an iteration can publish what is outstanding and commit. -/
theorem run_rest (s : State) (now : Datetime) (found : List UUID) (offset : Nat)
    (changed : List UUID) :
    ∃ published, Relation.ReflTransGen (Step selected)
        { s with phase := .paging now found offset changed }
        { s with lastRun := some now, published := published, phase := .idle } ∧
      (∀ m ∈ s.published, m ∈ published) ∧
      ∀ uuid ∈ outstanding found offset changed, ⟨uuid, s.clock⟩ ∈ published := by
  obtain ⟨pending, hpages, hpending⟩ := @run_pages selected s now found changed offset
    found.length (Nat.le_add_left ..)
  obtain ⟨published, hpublishes, hkept, hnew⟩ := @run_publishes selected s now pending
  have hrun := (hpages.trans hpublishes).tail (.commit _ now rfl)
  exact ⟨published, hrun, hkept, fun uuid hu => hnew uuid (hpending uuid hu)⟩

/-- FKK can always list what it has found. -/
theorem exists_found (registrations : List Registration) (since : Int) :
    ∃ found, Found selected registrations since found := by
  classical
  refine ⟨(registrations.filter fun r => selected r ∧ since ≤ r.time).map (·.uuid), fun uuid => ?_⟩
  simp only [List.mem_map, List.mem_filter, decide_eq_true_eq]
  constructor
  · rintro ⟨r, ⟨hr, hselected, hsince⟩, huuid⟩
    exact ⟨r, hr, huuid, hselected, hsince⟩
  · rintro ⟨r, hr, huuid, hselected, hsince⟩
    exact ⟨r, ⟨hr, hselected, hsince⟩, huuid⟩

/-! ## No change is lost -/

/-- While FKK lists anew between pages, each registration from before the
committed time has been announced since it was made. -/
theorem no_change_lost_live {s : State} (h : LiveReachable selected Stays s) {lastRun : Datetime}
    (hlast : s.lastRun = some lastRun) {r : Registration} (hr : r ∈ s.registrations)
    (hselected : selected r) (hbefore : r.time < lastRun.instant) :
    ∃ m ∈ s.published, m.uuid = r.uuid ∧ r.time ≤ m.time :=
  (liveReachable_valid h).announced lastRun hlast r hr hselected hbefore

/-- No run before, and this is registered. -/
def newState (registrations : List Registration) : State where
  clock := 10
  registrations := registrations
  lastRun := none
  published := []
  phase := .idle

/-- When a UUID comes before all others, the last one of a page moves to the next,
and what is behind that stays there. -/
theorem stays_cons {found : List UUID} {uuid : UUID} (hnew : uuid ∉ found) (pageOffset : Nat) :
    Stays found (uuid :: found) pageOffset := by
  intro u hu hbehind hbefore
  cases pageOffset with
  | zero => cases hbefore
  | succ n =>
    rw [List.take_succ_cons] at hbefore
    cases hbefore with
    | head => exact hnew hu
    | tail _ hold => exact hbehind ((List.take_prefix_take_left (Nat.le_succ n)).subset hold)

/-- 501 classes were registered at the start of time. One more is registered
between the first page and the second, and is listed before all others. The one
that was first on the second page is announced from there. -/
theorem no_change_lost_live_uuids : ∃ s : State, LiveReachable (fun _ => True) Stays s ∧
    s.lastRun = some (utcNow 10) ∧ s.registrations = ⟨600, 10⟩ :: firstRegistrations 501 ∧
    ∃ m ∈ s.published, m.uuid = BitVec.ofNat 128 500 ∧ 0 ≤ m.time := by
  have hnew : (600 : UUID) ∉ uuids 501 := by
    rw [show (600 : UUID) = BitVec.ofNat 128 600 from rfl, mem_uuids (by decide) (by decide)]
    decide
  have last : (⟨BitVec.ofNat 128 500, 0⟩ : Registration) ∈ firstRegistrations 501 :=
    List.mem_map_of_mem (List.mem_reverse.mpr ((mem_uuids (by decide) (by decide)).mpr (by decide)))
  have hfound : Found (fun _ => True) (firstRegistrations 501) 0 (uuids 501) := by
    intro uuid
    simp [firstRegistrations]
  have hfound' : Found (fun _ => True) (⟨600, 10⟩ :: firstRegistrations 501) 0
      (600 :: uuids 501) := by
    intro uuid
    simp [firstRegistrations, eq_comm]
  have htimes : ∀ r ∈ firstRegistrations 501, 0 ≤ r.time ∧ r.time ≤ 10 := by
    intro r hr
    obtain ⟨uuid, _, rfl⟩ := List.mem_map.mp hr
    exact ⟨le_rfl, (by decide : (0 : Int) ≤ 10)⟩
  obtain ⟨page, hpage, _⟩ := exists_uuids_cons 500
  have more : search (uuids 501) 0 ≠ [] := by
    apply List.ne_nil_of_mem
    rw [search, hpage]
    exact List.mem_dedup.mpr List.mem_cons_self
  generalize firstRegistrations 501 = registrations at *
  generalize uuids 501 = found at *
  have start : LiveReachable (fun _ => True) Stays (newState registrations) :=
    .start ⟨(by decide : (0 : Int) ≤ 10), htimes, rfl, rfl⟩
  have timed := (start.step (.step _ _ (.load _ rfl))).step (.step _ _ (.readNow _ _ rfl))
  have paging := timed.step (.step _ _ (.request _ _ _ 0 found rfl rfl hfound))
  have paged := (paging.step (.step _ _ (.page _ _ _ _ _ rfl more))).step
    (.step _ _ (.register _ 600))
  have relisted := paged.step
    (.relist _ _ 0 _ (600 :: found) _ _ rfl rfl hfound' (stays_cons hnew _))
  obtain ⟨published, hrun, _, _⟩ := @run_rest (fun _ => True)
    { newState (⟨600, 10⟩ :: registrations) with clock := 10 } (utcNow 10) (600 :: found)
    (0 + pageLimit) ([] ∪ search found 0)
  have committed := relisted.run (live_run hrun)
  exact ⟨_, committed, rfl, rfl, no_change_lost_live committed rfl
    (List.mem_cons_of_mem _ last) trivial (by decide)⟩

end Os2moFkk.EventGenerator
