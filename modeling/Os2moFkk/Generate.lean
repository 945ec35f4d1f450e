import Os2moFkk.Quiescence
import Os2moFkk.SyncOverSoap

/-!
# The generator as a program

`_generate` reads the database and the clock, asks for pages over SOAP, publishes
and commits. At each moment of a run it is in some phase of the generator that
lists what is found anew for each page.
-/

namespace Os2moFkk.EventGenerator
open Itertools Forest Xml Prog

/-- The calls of the API, and those to the database and the exchange. -/
inductive GeneratorCall where
  | api (c : ApiCall)
  | selectLastRun
  | publishMessage (uuid : UUID)
  | commit (lastRun : Datetime)

def GeneratorAnswer : GeneratorCall → Type
  | .api c => ApiAnswer c
  | .selectLastRun => Option Datetime
  | .publishMessage _ => Unit
  | .commit _ => Unit

abbrev GeneratorProg := Prog GeneratorCall GeneratorAnswer Failure

def calling {α : Type} (p : Api α) : GeneratorProg α :=
  p.link (fun c => perform (GeneratorCall.api c)) id

theorem calling_bind {α β : Type} (p : Api α) (f : α → Api β) :
    calling (p >>= f) = calling p >>= fun a => calling (f a) := link_bind p f

/-- The order in which messages are published, which can be any. -/
structure PublishOrder where
  order : List UUID → List UUID
  perm : ∀ l, (order l).Perm l

/-- Publish changes to internal AMQP exchange. -/
def publishAll : List UUID → GeneratorProg Unit
  | [] => return ()
  | uuid :: rest => do
    perform (GeneratorCall.publishMessage uuid)
    publishAll rest

/-- Update last run time in database. -/
def commit (now : Datetime) : GeneratorProg (Option Unit) := do
  perform (GeneratorCall.commit now)
  return some ()

/-- Publish what has changed, and update last run time. -/
def announce (set : PublishOrder) (now : Datetime) :
    Option (List UUID) → GeneratorProg (Option Unit)
  | none => return none
  | some changed => do
    publishAll (set.order changed)
    commit now

variable (api : FKKAPI)

/-- Fetch changed UUIDs from FKK since the last run, which is loaded. -/
def generateSince (set : PublishOrder) (fuel : Nat) (lastRun : Datetime) :
    GeneratorProg (Option Unit) := do
  let clock ← perform (GeneratorCall.api .now)
  let changed ← calling (api.getChangedUuids lastRun fuel 0 [])
  announce set (utcNow clock) changed

/-- One event-generation iteration. Publishes changed UUIDs since last run. Without
`fuel` it is still asking for pages. -/
def generate (set : PublishOrder) (fuel : Nat) : GeneratorProg (Option Unit) := do
  let lastRun ← perform GeneratorCall.selectLastRun
  generateSince api set fuel (lastRun.getD datetimeMin)

/-! ## A search is decided by one answer -/

/-- Which calls a search makes: its request asks for the page. -/
inductive MadeForPage (q : Query) : GeneratorCall → Prop
  | api (c : ApiCall) (asks : ∀ p, c = .post p → p.url = api.serviceUrl → p.Queries q) :
      MadeForPage q (.api c)

/-- The answer that decides what a search returns. -/
inductive DecidesPage : (c : GeneratorCall) → GeneratorAnswer c → List UUID → Prop
  | page (p : Post) (data : Markup) (page : List UUID) (url : p.url = api.serviceUrl)
      (lists : Lists page data.toElement) :
      DecidesPage (.api (.post p)) (Except.ok data) page.dedup

/-- Klassifikation answers a request with a list of what is found. -/
def WellListed : Prog.Answers GeneratorAnswer
  | .api (.post p), (a : Except Failure Markup) =>
    p.url = api.serviceUrl → ∀ data, a = .ok data → ∃ page, Lists page data.toElement
  | _, _ => True

/-- What a search asks for. -/
def queryOf (since : Datetime) (pageOffset : Nat) : Query where
  offset := pageOffset
  limit := pageLimit
  since := since.instant - since.instant % 1000
  userKeyFilter := api.settings.changedUuidsUserKeyFilter

variable {api}

/-- A time that a search can be written for. -/
structure Writable (since : Datetime) : Prop where
  utc : since.offset = 0
  low : 0 ≤ since.wall
  high : since.wall ≤ maxWall

theorem search_undecided {since : Datetime} (h : Writable since) (pageOffset : Nat) :
    (calling (api.search since pageLimit pageOffset)).Undecided (WellListed api)
      (MadeForPage api (queryOf api since pageOffset)) (DecidesPage api) := by
  apply Undecided.perform
  have hother : ∀ c, NoOtherPost api.tokenUrl c →
      MadeForPage api (queryOf api since pageOffset) (.api c) ∧
        ∀ a page, ¬ DecidesPage api (.api c) a page := by
    refine fun c hc => ⟨.api c fun p hp hurl => ?_, fun a page hdecides => ?_⟩
    · subst hp
      exact absurd (hurl.symm.trans hc) (serviceUrl_ne_tokenUrl api)
    · cases hdecides with
      | page p data page url => exact serviceUrl_ne_tokenUrl api (url.symm.trans hc)
  unfold FKKAPI.search
  apply Undecided.ofExcept_bind
  intro body hbody
  refine request_undecided hother fun p hurl henvelope => ?_
  obtain ⟨_, _, _, _, _, henvelope⟩ := henvelope
  have hqueries := queries_searchBody h.low h.high hbody henvelope
  refine ⟨.api _ fun p' hp' _ => ?_, fun answer hanswer => ?_⟩
  · cases hp'
    exact hqueries
  · cases answer with
    | error e => exact ⟨fun page hdecides => (by cases hdecides), fun _ => trivial⟩
    | ok data =>
      obtain ⟨page, hlists⟩ := hanswer hurl data rfl
      refine ⟨fun page' hdecides => ?_, fun hnone => absurd
        (DecidesPage.page p data page hurl hlists) (hnone _)⟩
      cases hdecides with
      | page _ _ page'' _ lists =>
        change ofExcept (foundUuids data.toElement) = ret page''.dedup
        rw [foundUuids_lists lists]
        rfl

/-! ## Iterations over SOAP -/

/-- `listing` is what FKK has listed for the last page that it answered with. -/
structure GeneratorWorld where
  clock : Int
  registrations : List Registration
  lastRun : Option Datetime
  published : List Change
  listing : List UUID
  iteration : Option (GeneratorProg (Option Unit))

/-- The last run as `_generate` loads it. -/
def GeneratorWorld.since (w : GeneratorWorld) : Datetime := w.lastRun.getD datetimeMin

/-- The world without the program, at this phase. -/
def GeneratorWorld.state (w : GeneratorWorld) (phase : Phase) : State :=
  ⟨w.clock, w.registrations, w.lastRun, w.published, phase⟩

-- What FKK selects for a filter.
variable (api) (selected : Option Text → Registration → Prop) (moves : Relisting)

/-- FKK lists for a search what is found now. From the second page on, that is the
list of the page before, or one that it may go over to from there. -/
structure GeneratorWorld.Lists (w : GeneratorWorld) (q : Query) (listing : List UUID) : Prop where
  found : Found (selected q.userKeyFilter) w.registrations q.since listing
  moved : 0 < q.offset → listing = w.listing ∨ moves w.listing listing q.offset

/-- What the API is answered, and what FKK has listed then. -/
def GeneratorWorld.Tells (w : GeneratorWorld) : (c : ApiCall) → ApiAnswer c → List UUID → Prop
  | .now, (clock : Int), listing => clock = w.clock ∧ listing = w.listing
  | .post p, (a : Except Failure Markup), listing =>
    (p.url ≠ api.serviceUrl ∨ (∃ e, a = .error e)) ∧ listing = w.listing ∨
      p.url = api.serviceUrl ∧ ∃ data, a = .ok data ∧ ∀ q, p.Queries q →
        w.Lists selected moves q listing ∧
          Os2moFkk.Lists ((listing.drop q.offset).take q.limit) data.toElement
  | _, _, listing => listing = w.listing

/-- As `Step`, but the iteration is a program. -/
inductive GeneratorStep : GeneratorWorld → GeneratorWorld → Prop
  | tick (w : GeneratorWorld) (clock : Int) (later : w.clock ≤ clock) (possible : clock ≤ maxWall) :
      GeneratorStep w { w with clock := clock }
  | register (w : GeneratorWorld) (uuid : UUID) :
      GeneratorStep w { w with registrations := ⟨uuid, w.clock⟩ :: w.registrations }
  | start (w : GeneratorWorld) (set : PublishOrder) (fuel : Nat) (idle : w.iteration = none) :
      GeneratorStep w { w with iteration := some (generate api set fuel) }
  | callApi (w : GeneratorWorld) (c : ApiCall) (k : ApiAnswer c → GeneratorProg (Option Unit))
      (a : ApiAnswer c) (listing : List UUID) (running : w.iteration = some (.call (.api c) k))
      (told : w.Tells api selected moves c a listing) :
      GeneratorStep w { w with listing := listing, iteration := some (k a) }
  | selectLastRun (w : GeneratorWorld) (k : Option Datetime → GeneratorProg (Option Unit))
      (running : w.iteration = some (.call .selectLastRun k)) :
      GeneratorStep w { w with iteration := some (k w.lastRun) }
  | publish (w : GeneratorWorld) (uuid : UUID) (k : Unit → GeneratorProg (Option Unit))
      (running : w.iteration = some (.call (.publishMessage uuid) k)) :
      GeneratorStep w { w with
        published := ⟨uuid, w.clock⟩ :: w.published, iteration := some (k ()) }
  | commit (w : GeneratorWorld) (lastRun : Datetime) (k : Unit → GeneratorProg (Option Unit))
      (running : w.iteration = some (.call (.commit lastRun) k)) :
      GeneratorStep w { w with lastRun := some lastRun, iteration := some (k ()) }
  | ret (w : GeneratorWorld) (running : w.iteration = some (.ret (some ()))) :
      GeneratorStep w { w with iteration := none }
  | fail (w : GeneratorWorld) : GeneratorStep w { w with iteration := none }

/-- A new generator, before some history of registrations. -/
structure GeneratorStart (w : GeneratorWorld) : Prop where
  state : Start (w.state .idle)
  possible : w.clock ≤ maxWall
  iteration : w.iteration = none

inductive GeneratorReachable : GeneratorWorld → Prop
  | start {w : GeneratorWorld} (h : GeneratorStart w) : GeneratorReachable w
  | step {w w' : GeneratorWorld} (h : GeneratorReachable w)
      (step : GeneratorStep api selected moves w w') : GeneratorReachable w'

/-! ## Where an iteration is -/

/-- What an iteration does with a page. -/
def goOn (set : PublishOrder) (since now : Datetime) (fuel pageOffset : Nat)
    (changed page : List UUID) : GeneratorProg (Option Unit) :=
  calling (if page = [] then return some changed
    else api.getChangedUuids since fuel (pageOffset + pageLimit) (changed ∪ page)) >>=
      announce set now

/-- An iteration that asks for the page at this offset, if it goes on at all. -/
inductive Asking (since now : Datetime) (pageOffset : Nat) (changed : List UUID) :
    GeneratorProg (Option Unit) → Prop
  | starved : Asking since now pageOffset changed (ret none)
  | page (set : PublishOrder) (fuel : Nat) (p : GeneratorProg (List UUID))
      (search : p.Undecided (WellListed api) (MadeForPage api (queryOf api since pageOffset))
        (DecidesPage api)) :
      Asking since now pageOffset changed (p >>= goOn api set since now fuel pageOffset changed)

/-- The phase of an iteration, for the last run and what FKK has listed. -/
inductive At (since : Datetime) (listing : List UUID) :
    Option (GeneratorProg (Option Unit)) → Phase → Prop
  | idle : At since listing none .idle
  | begun (set : PublishOrder) (fuel : Nat) : At since listing (some (generate api set fuel)) .idle
  | loaded (set : PublishOrder) (fuel : Nat) :
      At since listing (some (generateSince api set fuel since)) (.loaded since)
  | timed (now : Datetime) (p : GeneratorProg (Option Unit)) (writable : Writable now)
      (asking : Asking api since now 0 [] p) :
      At since listing (some p) (.timed since now)
  | paging (now : Datetime) (pageOffset : Nat) (changed : List UUID)
      (p : GeneratorProg (Option Unit)) (writable : Writable now) (later : 0 < pageOffset)
      (asking : Asking api since now pageOffset changed p) :
      At since listing (some p) (.paging now listing pageOffset changed)
  | publishing (now : Datetime) (uuid : UUID) (changes pending : List UUID)
      (writable : Writable now) (perm : (uuid :: changes).Perm pending) :
      At since listing (some (.call (.publishMessage uuid) fun _ =>
        publishAll changes >>= fun _ => commit now)) (.publishing now pending)
  | committing (now : Datetime) (writable : Writable now) :
      At since listing (some (commit now)) (.publishing now [])
  | committed : At since listing (some (ret (some ()))) .idle

variable {api selected moves} {w w' : GeneratorWorld} {since now : Datetime} {pageOffset : Nat}
  {changed listing : List UUID}

theorem asking_pages (h : Writable since) (set : PublishOrder) (now : Datetime)
    (fuel pageOffset : Nat) (changed : List UUID) :
    Asking api since now pageOffset changed
      (calling (api.getChangedUuids since fuel pageOffset changed) >>= announce set now) := by
  cases fuel with
  | zero => exact .starved
  | succ fuel =>
    unfold FKKAPI.getChangedUuids
    rw [calling_bind, bind_bind]
    exact .page set fuel _ (search_undecided h pageOffset)

/-- What decides a search is a page of what FKK lists now. -/
theorem told_page {q : Query} {c : ApiCall} {a : ApiAnswer c} (hmade : MadeForPage api q (.api c))
    (told : w.Tells api selected moves c a listing) :
    WellListed api (.api c) a ∧ (listing = w.listing ∧ (∀ page, ¬ DecidesPage api (.api c) a page) ∨
      w.Lists selected moves q listing ∧
        DecidesPage api (.api c) a (((listing.drop q.offset).take q.limit).dedup)) := by
  have hquiet : ∀ {c : ApiCall} {a : ApiAnswer c}, (∀ p, c ≠ .post p) →
      ∀ page, ¬ DecidesPage api (.api c) a page := by
    intro c a hc page hdecides
    cases hdecides with
    | page p => exact hc p rfl
  cases hmade with
  | api _ asks =>
    cases c with
    | now => exact ⟨trivial, Or.inl ⟨told.2, hquiet fun p hp => by cases hp⟩⟩
    | uuid4 | loadToken | storeToken =>
      exact ⟨trivial, Or.inl ⟨told, hquiet fun p hp => by cases hp⟩⟩
    | post p =>
      rcases told with ⟨hother, hlisting⟩ | ⟨hurl, data, rfl, hqueries⟩
      · have hnone : p.url = api.serviceUrl → ∀ data, a ≠ Except.ok data := by
          rintro hurl data rfl
          rcases hother with hne | ⟨e, he⟩
          · exact hne hurl
          · cases he
        refine ⟨fun hurl data hdata => absurd hdata (hnone hurl data), Or.inl ⟨hlisting, ?_⟩⟩
        intro page hdecides
        cases hdecides with
        | page _ data _ url => exact hnone url data rfl
      · obtain ⟨hlists, hpage⟩ := hqueries q (asks p rfl hurl)
        refine ⟨fun _ data' hdata => ?_, Or.inr ⟨hlists, .page p data _ hurl hpage⟩⟩
        cases hdata
        exact ⟨_, hpage⟩

/-- An answer is a page of what FKK lists now, or no page. -/
theorem Asking.answer {c : ApiCall} {k : ApiAnswer c → GeneratorProg (Option Unit)}
    {a : ApiAnswer c} {p : GeneratorProg (Option Unit)}
    (h : Asking api since now pageOffset changed p) (hp : p = .call (.api c) k)
    (told : w.Tells api selected moves c a listing) :
    listing = w.listing ∧ Asking api since now pageOffset changed (k a) ∨
      w.Lists selected moves (queryOf api since pageOffset) listing ∧ ∃ set fuel,
        k a = goOn api set since now fuel pageOffset changed (search listing pageOffset) := by
  cases h with
  | starved => cases hp
  | page set fuel p undecided =>
    obtain ⟨hmade, hanswer⟩ := undecided.answer hp
    obtain ⟨hwell, ⟨hlisting, hnone⟩ | ⟨hlists, hdecides⟩⟩ := told_page hmade told
    · obtain ⟨p', hp', heq⟩ := (hanswer a hwell).2 hnone
      exact Or.inl ⟨hlisting, heq ▸ .page set fuel p' hp'⟩
    · exact Or.inr ⟨hlists, set, fuel, (hanswer a hwell).1 _ hdecides⟩

/-- Only a search is under way, for this page. -/
theorem Asking.searches {c : GeneratorCall} {k : GeneratorAnswer c → GeneratorProg (Option Unit)}
    {p : GeneratorProg (Option Unit)} (h : Asking api since now pageOffset changed p)
    (hp : p = .call c k) : MadeForPage api (queryOf api since pageOffset) c := by
  cases h with
  | starved => cases hp
  | page set fuel p undecided => exact (undecided.answer hp).1

theorem publishAll_at (hnow : Writable now) {changes pending : List UUID}
    (hperm : changes.Perm pending) :
    At api since listing (some (publishAll changes >>= fun _ => commit now))
      (.publishing now pending) := by
  cases changes with
  | nil =>
    obtain rfl := List.nil_perm.mp hperm
    exact .committing now hnow
  | cons uuid changes => exact .publishing now uuid changes pending hnow hperm

/-- With a page, an iteration goes on to the next one, or to publish. -/
theorem goOn_at (s : State) (hsince : Writable since) (hnow : Writable now)
    (set : PublishOrder) (fuel : Nat) (listing : List UUID) :
    ∃ phase, At api since listing
        (some (goOn api set since now fuel pageOffset changed (search listing pageOffset))) phase ∧
      ∀ selected, Step selected { s with phase := .paging now listing pageOffset changed }
        { s with phase := phase } := by
  unfold goOn
  by_cases hempty : search listing pageOffset = []
  · rw [if_pos hempty]
    refine ⟨.publishing now changed, publishAll_at hnow (set.perm changed), ?_⟩
    exact fun selected => .lastPage _ now listing pageOffset changed rfl hempty
  · rw [if_neg hempty]
    refine ⟨_, .paging now _ _ _ hnow ?_ (asking_pages hsince set now fuel _ _), ?_⟩
    · exact Nat.add_pos_right _ (by decide)
    · exact fun selected => .page _ now listing pageOffset changed rfl hempty

/-- The clock and the last run can be written. -/
structure Timely (clock : Int) (since : Datetime) : Prop where
  now : Writable (utcNow clock)
  since : Writable since

/-- Each step of the program is some of the generator, or none. -/
theorem step_at {phase : Phase} (h : GeneratorStep api selected moves w w')
    (timely : Timely w.clock w.since) (hat : At api w.since w.listing w.iteration phase) :
    Timely w'.clock w'.since ∧ ∃ phase', At api w'.since w'.listing w'.iteration phase' ∧
      Relation.ReflTransGen (LiveStep (selected api.settings.changedUuidsUserKeyFilter) moves)
        (w.state phase) (w'.state phase') := by
  cases h with
  | tick clock later possible =>
    have hclock : Writable (utcNow clock) := ⟨rfl, timely.now.low.trans later, possible⟩
    exact ⟨⟨hclock, timely.since⟩, phase, hat, .single (.step _ _ (.tick _ clock later))⟩
  | register uuid =>
    exact ⟨timely, phase, hat, .single (.step _ _ (.register _ uuid))⟩
  | start set fuel idle =>
    rw [idle] at hat
    cases hat with
    | idle => exact ⟨timely, .idle, .begun set fuel, .refl⟩
  | callApi c k a listing running told =>
    refine ⟨timely, ?_⟩
    have hwritten := writtenInstant_utc timely.since.utc
    generalize w.iteration = iteration at hat running
    cases hat with
    | idle | begun | publishing | committing | committed => cases running
    | loaded set fuel =>
      cases running
      obtain ⟨rfl, rfl⟩ := told
      exact ⟨_, .timed _ _ timely.now (asking_pages timely.since set (utcNow w.clock) fuel 0 []),
        .single (.step _ _ (.readNow _ w.since rfl))⟩
    | timed now p writable asking =>
      rcases asking.answer (Option.some.inj running) told with ⟨rfl, hasking⟩ | ⟨hlists, hnext⟩
      · exact ⟨_, .timed now _ writable hasking, .refl⟩
      · obtain ⟨set, fuel, heq⟩ := hnext
        obtain ⟨phase, hphase, hstep⟩ :=
          goOn_at (w.state .idle) timely.since writable set fuel listing
        rw [heq]
        refine ⟨phase, hphase, live_run (.head ?_ (.single (hstep _)))⟩
        exact .request _ w.since now _ listing rfl hwritten hlists.found
    | paging now pageOffset changed p writable later asking =>
      rcases asking.answer (Option.some.inj running) told with ⟨rfl, hasking⟩ | ⟨hlists, hnext⟩
      · exact ⟨_, .paging now pageOffset changed _ writable later hasking, .refl⟩
      · obtain ⟨set, fuel, heq⟩ := hnext
        obtain ⟨phase, hphase, hstep⟩ :=
          goOn_at (w.state .idle) timely.since writable set fuel listing
        rw [heq]
        refine ⟨phase, hphase, ?_⟩
        rcases hlists.moved later with rfl | hmoved
        · exact live_run (.single (hstep _))
        · refine .head ?_ (live_run (.single (hstep _)))
          exact .relist _ now _ _ listing pageOffset changed rfl hwritten hlists.found hmoved
  | selectLastRun k running =>
    refine ⟨timely, ?_⟩
    generalize w.iteration = iteration at hat running
    cases hat with
    | begun set fuel =>
      cases running
      exact ⟨_, .loaded set fuel, .single (.step _ _ (.load _ rfl))⟩
    | timed now p writable asking | paging now pageOffset changed p writable later asking =>
      cases asking.searches (Option.some.inj running)
    | idle | loaded | publishing | committing | committed => cases running
  | publish uuid k running =>
    refine ⟨timely, ?_⟩
    generalize w.iteration = iteration at hat running
    cases hat with
    | publishing now uuid changes pending writable perm =>
      cases running
      have hmem := perm.subset List.mem_cons_self
      have hrest := perm.trans (List.perm_cons_erase hmem)
      exact ⟨_, publishAll_at writable ((List.perm_cons uuid).mp hrest),
        .single (.step _ _ (.publish _ now pending uuid rfl hmem))⟩
    | timed now p writable asking | paging now pageOffset changed p writable later asking =>
      cases asking.searches (Option.some.inj running)
    | idle | begun | loaded | committing | committed => cases running
  | commit lastRun k running =>
    generalize w.iteration = iteration at hat running
    cases hat with
    | committing now writable =>
      cases running
      exact ⟨⟨timely.now, writable⟩, .idle, .committed, .single (.step _ _ (.commit _ lastRun rfl))⟩
    | timed now p writable asking | paging now pageOffset changed p writable later asking =>
      cases asking.searches (Option.some.inj running)
    | idle | begun | loaded | publishing | committed => cases running
  | ret running => exact ⟨timely, .idle, .idle, .single (.step _ _ (.fail _))⟩
  | fail => exact ⟨timely, .idle, .idle, .single (.step _ _ (.fail _))⟩

theorem start_at (h : GeneratorStart w) :
    Timely w.clock w.since ∧ At api w.since w.listing w.iteration .idle := by
  have hclock : 0 ≤ w.clock := h.state.clock
  have hlast : w.lastRun = none := h.state.lastRun
  rw [h.iteration, GeneratorWorld.since, hlast]
  exact ⟨⟨⟨rfl, hclock, h.possible⟩, rfl, le_rfl, by decide⟩, .idle⟩

theorem reachable_at (h : GeneratorReachable api selected moves w) :
    Timely w.clock w.since ∧ ∃ phase, At api w.since w.listing w.iteration phase ∧
      LiveReachable (selected api.settings.changedUuidsUserKeyFilter) moves (w.state phase) := by
  induction h with
  | start h =>
    obtain ⟨timely, hat⟩ := @start_at api _ h
    exact ⟨timely, .idle, hat, .start h.state⟩
  | step _ step ih =>
    obtain ⟨timely, phase, hat, hreachable⟩ := ih
    obtain ⟨timely', phase', hat', hrun⟩ := step_at step timely hat
    exact ⟨timely', phase', hat', hreachable.run hrun⟩

/-- A search asks for what is new since the last run. -/
theorem reachable_queries (h : GeneratorReachable api selected moves w) {p : Post}
    {k : ApiAnswer (.post p) → GeneratorProg (Option Unit)}
    (running : w.iteration = some (.call (.api (.post p)) k)) (hurl : p.url = api.serviceUrl) :
    ∃ pageOffset, p.Queries (queryOf api w.since pageOffset) := by
  obtain ⟨_, phase, hat, _⟩ := reachable_at h
  generalize w.iteration = iteration at hat running
  cases hat with
  | timed now p' writable asking =>
    cases asking.searches (Option.some.inj running) with
    | api _ asks => exact ⟨0, asks p rfl hurl⟩
  | paging now pageOffset changed p' writable later asking =>
    cases asking.searches (Option.some.inj running) with
    | api _ asks => exact ⟨pageOffset, asks p rfl hurl⟩
  | idle | begun | loaded | publishing | committing | committed => cases running

end Os2moFkk.EventGenerator
