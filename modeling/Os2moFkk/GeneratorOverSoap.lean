import Os2moFkk.Generate

/-!
# Generating events over SOAP

The runs of the generator that asks for pages over SOAP are runs of the one that
is told what is found. And whatever has gone before, an iteration that is answered
ends and commits.
-/

namespace Os2moFkk.EventGenerator
open Itertools Forest Xml Prog

variable {api : FKKAPI} {selected : Option Text → Registration → Prop} {moves : Relisting}
  {w w' : GeneratorWorld}

theorem GeneratorReachable.run (h : GeneratorReachable api selected moves w)
    (hrun : Relation.ReflTransGen (GeneratorStep api selected moves) w w') :
    GeneratorReachable api selected moves w' := by
  induction hrun with
  | refl => exact h
  | tail _ step ih => exact ih.step step

/-! ## Iterations that are answered -/

/-- What FKK finds for the next search, in some order. -/
abbrev FoundBy (api : FKKAPI) (selected : Option Text → Registration → Prop) (w : GeneratorWorld)
    (all : List UUID) : Prop :=
  Found (selected api.settings.changedUuidsUserKeyFilter) w.registrations
    (w.since.instant - w.since.instant % 1000) all

/-- The search asks for the first page. -/
def AsksFirst (api : FKKAPI) (since : Datetime) (c : ApiCall) : Prop :=
  ∀ p, c = .post p → p.url = api.serviceUrl → p.Queries (queryOf api since 0)

/-- One answer is told, and leaves FKK's list as it is or makes it what is found. -/
theorem run_answer {c : ApiCall} {k : ApiAnswer c → GeneratorProg (Option Unit)} {all : List UUID}
    (h : GeneratorReachable api selected moves w) (hfound : FoundBy api selected w all)
    (running : w.iteration = some (.call (.api c) k))
    (hstays : w.listing = all ∨ AsksFirst api w.since c) (s : Unit) :
    ∃ listing, GeneratorStep api selected moves w
        { w with listing := listing, iteration := some (k (answering api w.clock all c s).1) } ∧
      (listing = all ∨ listing = w.listing ∧ ∀ p, c = .post p → p.url ≠ api.serviceUrl) := by
  cases c with
  | now =>
    exact ⟨w.listing, .callApi w _ k _ _ running ⟨rfl, rfl⟩, Or.inr ⟨rfl, fun p hp => by cases hp⟩⟩
  | uuid4 | loadToken | storeToken =>
    exact ⟨w.listing, .callApi w _ k _ _ running rfl, Or.inr ⟨rfl, fun p hp => by cases hp⟩⟩
  | post p =>
    by_cases hurl : p.url = api.serviceUrl
    · refine ⟨all, .callApi w _ k _ _ running (Or.inr ⟨hurl, _, answering_post hurl s, ?_⟩),
        Or.inl rfl⟩
      intro q hq
      obtain ⟨pageOffset, hqueries⟩ := reachable_queries h running hurl
      obtain rfl := hq.unique hqueries
      refine ⟨⟨hfound, fun hlater => Or.inl ?_⟩, hqueries.page ▸ lists_outputs _ _⟩
      refine (hstays.resolve_right fun hfirst => ?_).symm
      obtain rfl : 0 = pageOffset :=
        congrArg Query.offset ((hfirst p rfl hurl).unique hqueries)
      exact absurd hlater (lt_irrefl 0)
    · refine ⟨w.listing, .callApi w _ k _ _ running (Or.inl ⟨Or.inl hurl, rfl⟩),
        Or.inr ⟨rfl, fun p' hp => ?_⟩⟩
      cases hp
      exact hurl

/-- A run of the API with such answers is one of the iteration, and leaves FKK's
list as it is only if it asks for no page. -/
theorem run_makes {α : Type} {p q : Api α} {made : History} (hm : Makes p made q)
    {f : α → GeneratorProg (Option Unit)} {all : List UUID}
    (h : GeneratorReachable api selected moves w) (hfound : FoundBy api selected w all)
    (running : w.iteration = some (calling p >>= f))
    (hmade : ∀ e ∈ made, ∃ s, e.2 = (answering api w.clock all e.1 s).1)
    (hstays : w.listing = all ∨ ∀ e ∈ made, AsksFirst api w.since e.1) :
    ∃ listing, Relation.ReflTransGen (GeneratorStep api selected moves) w
        { w with listing := listing, iteration := some (calling q >>= f) } ∧
      (listing = all ∨ listing = w.listing ∧
        ∀ e ∈ made, ∀ p, e.1 = .post p → p.url ≠ api.serviceUrl) := by
  induction hm generalizing w with
  | nil p =>
    obtain ⟨clock, registrations, lastRun, published, listing, iteration⟩ := w
    cases running
    exact ⟨listing, .refl, Or.inr ⟨rfl, by simp⟩⟩
  | @cons c k a made q _ ih =>
    obtain ⟨s, ha⟩ := hmade _ List.mem_cons_self
    obtain ⟨listing, hstep, hlisting⟩ := run_answer h hfound running
      (hstays.imp id fun hfirst => hfirst _ List.mem_cons_self) s
    have hmade' := fun e he => hmade e (List.mem_cons_of_mem _ he)
    have hstays' : listing = all ∨ ∀ e ∈ made, AsksFirst api w.since e.1 := by
      rcases hlisting with hall | ⟨rfl, _⟩
      · exact Or.inl hall
      · exact hstays.imp id fun hfirst e he => hfirst e (List.mem_cons_of_mem _ he)
    rw [← ha] at hstep
    obtain ⟨listing', hrun, hlisting'⟩ := ih (h.step hstep) hfound rfl hmade' hstays'
    refine ⟨listing', .head hstep hrun, ?_⟩
    rcases hlisting' with hall | ⟨rfl, hrest⟩
    · exact Or.inl hall
    · refine hlisting.imp id fun hsame => ⟨hsame.1, fun e he => ?_⟩
      rcases List.mem_cons.mp he with rfl | he
      · exact hsame.2
      · exact hrest e he

/-- The client can sign. -/
def Signs (api : FKKAPI) : Prop :=
  ∀ e references keyInfo, ∃ signature, api.sign e references keyInfo = .ok signature

/-- All pages are answered. -/
theorem run_changed (h : GeneratorReachable api selected moves w) (hsign : Signs api)
    (hclock : w.clock + 600000000 ≤ maxWall)
    {f : Option (List UUID) → GeneratorProg (Option Unit)} {all : List UUID}
    (hfound : FoundBy api selected w all)
    (running : w.iteration = some (calling (api.getChangedUuids w.since
      (all.length / pageLimit + 2) 0 []) >>= f)) :
    ∃ listing changed, Relation.ReflTransGen (GeneratorStep api selected moves) w
        { w with listing := listing, iteration := some (f (some changed)) } ∧
      ∀ uuid ∈ all, uuid ∈ changed := by
  have hsince := (reachable_at h).1.since
  have hpages : all.length + pageLimit ≤ 0 + (all.length / pageLimit + 2) * pageLimit := by
    unfold pageLimit
    omega
  have hnone : ∀ uuid, uuid ∈ ([] : List UUID) ↔ uuid ∈ all.take 0 := by simp
  obtain ⟨_, _, _, hrun, changed, rfl, hchanged⟩ :=
    (reliable_answering hsign hclock all).getChangedUuids_from hsince.utc hsince.low hsince.high rfl
      (Nat.succ_pos _) hpages hnone ()
  obtain ⟨made, hmakes, hmade⟩ := makes_of_run hrun
  -- The first page is asked for alone, for FKK may have listed anything before.
  unfold FKKAPI.getChangedUuids at hmakes running
  obtain ⟨page, first, rest, rfl, hfirst, hrest⟩ := hmakes.bind_ret
  rw [calling_bind, bind_bind] at running
  obtain ⟨before, p, data, rfl, hurl, hqueries, _, hbefore⟩ :=
    search_posts hsince.low hsince.high hfirst
  have hasks : ∀ e ∈ before ++ [⟨.post p, .ok data⟩], AsksFirst api w.since e.1 := by
    intro e he p' hp' hurl'
    rcases List.mem_append.mp he with he | he
    · have hother := hbefore e he
      rw [hp'] at hother
      exact absurd (hurl'.symm.trans hother) (serviceUrl_ne_tokenUrl api)
    · obtain rfl := List.mem_singleton.mp he
      cases hp'
      exact hqueries
  obtain ⟨listing, hrun₁, hlisting⟩ := run_makes hfirst h hfound running
    (fun e he => hmade e (List.mem_append_left _ he)) (Or.inr hasks)
  have hall : listing = all := hlisting.resolve_right fun hsame =>
    hsame.2 _ (List.mem_append_right _ (List.mem_singleton_self _)) p rfl hurl
  obtain ⟨listing', hrun₂, _⟩ := run_makes hrest (h.run hrun₁) hfound rfl
    (fun e he => hmade e (List.mem_append_right _ he)) (Or.inl hall)
  exact ⟨listing', changed, hrun₁.trans hrun₂, fun uuid hu => (hchanged uuid).mpr hu⟩

def publishInOrder : PublishOrder := ⟨id, fun _ => .refl _⟩

/-- All messages are published. -/
theorem run_publishAll (now : Datetime) {changes : List UUID}
    (running : w.iteration = some (publishAll changes >>= fun _ => commit now)) :
    ∃ published, Relation.ReflTransGen (GeneratorStep api selected moves) w
        { w with published := published, iteration := some (commit now) } ∧
      (∀ m ∈ w.published, m ∈ published) ∧ ∀ uuid ∈ changes, ⟨uuid, w.clock⟩ ∈ published := by
  induction changes generalizing w with
  | nil =>
    obtain ⟨clock, registrations, lastRun, published, listing, iteration⟩ := w
    cases running
    exact ⟨published, .refl, fun _ hm => hm, fun _ hu => by cases hu⟩
  | cons uuid changes ih =>
    have hstep : GeneratorStep api selected moves w { w with
        published := ⟨uuid, w.clock⟩ :: w.published,
        iteration := some (publishAll changes >>= fun _ => commit now) } :=
      .publish w uuid _ running
    obtain ⟨published, hrest, hkept, hnew⟩ := @ih { w with
      published := ⟨uuid, w.clock⟩ :: w.published,
      iteration := some (publishAll changes >>= fun _ => commit now) } rfl
    refine ⟨published, .head hstep hrest, fun m hm => hkept m (List.mem_cons_of_mem _ hm), ?_⟩
    intro u hu
    rcases List.mem_cons.mp hu with rfl | hu
    · exact hkept _ List.mem_cons_self
    · exact hnew u hu

/-- An iteration that begins anew and is answered commits the present time, and
announces all that its search finds. -/
theorem run_generate (h : GeneratorReachable api selected moves w) (hsign : Signs api)
    (hclock : w.clock + 600000000 ≤ maxWall) :
    ∃ w', Relation.ReflTransGen (GeneratorStep api selected moves) w w' ∧
      w'.lastRun = some (utcNow w.clock) ∧ w'.registrations = w.registrations ∧
      w'.iteration = none ∧
      ∀ r ∈ w.registrations, selected api.settings.changedUuidsUserKeyFilter r →
        w.since.instant ≤ r.time → ∃ m ∈ w'.published, m.uuid = r.uuid ∧ r.time ≤ m.time := by
  obtain ⟨all, hfound⟩ := @exists_found (selected api.settings.changedUuidsUserKeyFilter)
    w.registrations (w.since.instant - w.since.instant % 1000)
  have failed : Relation.ReflTransGen (GeneratorStep api selected moves) w
      { w with iteration := none } := .single (.fail w)
  have begun : Relation.ReflTransGen (GeneratorStep api selected moves) w { w with
      iteration := some (generateSince api publishInOrder (all.length / pageLimit + 2) w.since) } :=
    (failed.tail (.start _ publishInOrder _ rfl)).tail (.selectLastRun { w with
      iteration := some (generate api publishInOrder (all.length / pageLimit + 2)) } _ rfl)
  have timed : Relation.ReflTransGen (GeneratorStep api selected moves) w { w with
      iteration := some (calling (api.getChangedUuids w.since (all.length / pageLimit + 2) 0 []) >>=
        announce publishInOrder (utcNow w.clock)) } :=
    begun.tail (.callApi { w with iteration := some (generateSince api publishInOrder
      (all.length / pageLimit + 2) w.since) } .now _ w.clock w.listing rfl ⟨rfl, rfl⟩)
  obtain ⟨listing, changed, hpages, hchanged⟩ := run_changed (h.run timed) hsign hclock hfound rfl
  obtain ⟨published, hpublished, _, hnew⟩ := @run_publishAll api selected moves { w with
    listing := listing
    iteration := some (announce publishInOrder (utcNow w.clock) (some changed)) } _ changed rfl
  have committed := ((timed.trans hpages).trans hpublished).tail (.commit _ (utcNow w.clock) _ rfl)
  refine ⟨_, committed.tail (.ret _ rfl), rfl, rfl, rfl, fun r hr hselected hsince => ?_⟩
  have hall : r.uuid ∈ all := (hfound r.uuid).mpr ⟨r, hr, rfl, hselected, by omega⟩
  obtain ⟨_, phase, _, hreachable⟩ := reachable_at h
  exact ⟨_, hnew _ (hchanged _ hall), rfl, (liveReachable_steady hreachable).times r hr⟩

/-! ## What the runs are -/

/-- Whatever the API goes through for its pages, however FKK lists what it has found
for each, and wherever an iteration fails: what is registered, published and
committed is so in a run of the generator that FKK lists for in the same ways. It is
idle when no iteration is under way. -/
theorem generator_over_soap_refines (h : GeneratorReachable api selected moves w) :
    ∃ phase, LiveReachable (selected api.settings.changedUuidsUserKeyFilter) moves
        (w.state phase) ∧
      (w.iteration = none → phase = .idle) := by
  obtain ⟨_, phase, hat, hreachable⟩ := reachable_at h
  refine ⟨phase, hreachable, fun hnone => ?_⟩
  rw [hnone] at hat
  cases hat with
  | idle => rfl

/-- A registration of the first moment, and no run before. -/
def firstWorld : GeneratorWorld := ⟨20, [⟨7, 10⟩], none, [], [], none⟩

theorem firstWorld_reachable :
    GeneratorReachable Tokens.testApi (fun _ _ => True) Stays firstWorld :=
  .start ⟨⟨by decide, by decide, rfl, rfl⟩, by decide, rfl⟩

theorem testApi_signs : Signs Tokens.testApi := fun _ _ _ => ⟨_, rfl⟩

/-- So it is when the first iteration has committed. -/
theorem generator_over_soap_refines_firstWorld :
    ∃ s : State, LiveReachable (fun _ => True) Stays s ∧ s.lastRun = some (utcNow 20) ∧
      s.registrations = [⟨7, 10⟩] ∧ s.phase = .idle := by
  obtain ⟨w, hrun, hlast, hregistrations, hnone, _⟩ :=
    run_generate firstWorld_reachable testApi_signs (by decide)
  obtain ⟨phase, hreachable, hidle⟩ := generator_over_soap_refines (firstWorld_reachable.run hrun)
  exact ⟨_, hreachable, hlast, hregistrations, hidle hnone⟩

/-- Wherever the program is, whatever has failed and however FKK has listed what it
found, it can go on, asking for its pages over SOAP, to commit the present time, and
then all that is registered since the last run is announced; and all that was ever
registered before, if nothing behind the cursor moves to before it. -/
theorem catches_up_over_soap (h : GeneratorReachable api selected moves w) (hsign : Signs api)
    (hclock : w.clock + 600000000 ≤ maxWall) :
    ∃ w', Relation.ReflTransGen (GeneratorStep api selected moves) w w' ∧
      w'.lastRun = some (utcNow w.clock) ∧ w'.registrations = w.registrations ∧
      (∀ r ∈ w.registrations, selected api.settings.changedUuidsUserKeyFilter r →
        w.since.instant ≤ r.time → ∃ m ∈ w'.published, m.uuid = r.uuid ∧ r.time ≤ m.time) ∧
      ((∀ found found' pageOffset, moves found found' pageOffset → Stays found found' pageOffset) →
        ∀ r ∈ w.registrations, selected api.settings.changedUuidsUserKeyFilter r →
          r.time < w.clock → ∃ m ∈ w'.published, m.uuid = r.uuid ∧ r.time ≤ m.time) := by
  obtain ⟨w', hrun, hlast, hregistrations, _, hannounced⟩ := run_generate h hsign hclock
  refine ⟨w', hrun, hlast, hregistrations, hannounced, fun hstays r hr hselected hbefore => ?_⟩
  obtain ⟨_, phase, _, hreachable⟩ := reachable_at (h.run hrun)
  rw [← instant_utcNow w.clock] at hbefore
  rw [← hregistrations] at hr
  exact (liveReachable_valid (hreachable.mono hstays)).announced _ hlast r hr hselected hbefore

theorem catches_up_over_soap_firstWorld : ∃ w',
    Relation.ReflTransGen (GeneratorStep Tokens.testApi (fun _ _ => True) Stays) firstWorld w' ∧
      w'.lastRun = some (utcNow 20) ∧ ∃ m ∈ w'.published, m.uuid = 7 ∧ 10 ≤ m.time := by
  obtain ⟨w', hrun, hlast, _, _, hannounced⟩ :=
    catches_up_over_soap firstWorld_reachable testApi_signs (by decide)
  have first : (⟨7, 10⟩ : Registration) ∈ firstWorld.registrations := List.mem_singleton_self _
  exact ⟨w', hrun, hlast, hannounced (fun _ _ _ h => h) _ first trivial (by decide)⟩

end Os2moFkk.EventGenerator
