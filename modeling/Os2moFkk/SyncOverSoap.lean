import Os2moFkk.Linking
import Os2moFkk.Wire
import Os2moFkk.World

/-!
# Synchronising over SOAP

What `sync` reads from FKK in one call takes the API several: it looks for a token,
may fetch one, and posts a request. Synchronisations that do so behave as if FKK
was read in one call, at the moment when it answers.
-/

namespace Os2moFkk
open Itertools Forest Xml Prog

/-- The calls of the API, and those to MO. -/
inductive WireCall where
  | api (c : ApiCall)
  | mo (c : Call)

def WireAnswer : WireCall → Type
  | .api c => ApiAnswer c
  | .mo c => Answer c

abbrev WireProg := Prog WireCall WireAnswer Failure

def onWire {α : Type} (p : Api α) : WireProg α := p.link (fun c => perform (WireCall.api c)) id

/-- How each call of `sync` is made. -/
def FKKAPI.makes (api : FKKAPI) : (c : Call) → WireProg (Answer c)
  | .read uuid => onWire (api.read uuid)
  | c => perform (WireCall.mo c)

def FKKAPI.sync (api : FKKAPI) (uuid : UUID) (set : SetOrder) : WireProg SyncStatus :=
  (Os2moFkk.sync uuid set).link api.makes .raised

/-- Which answer decides that of a call: MO's own, and what is made of that of
Klassifikation to the request for the Klasse. -/
inductive Decides (api : FKKAPI) : (c : Call) → (c' : WireCall) → WireAnswer c' → Answer c → Prop
  | mo (c : Call) (a : Answer c) : Decides api c (.mo c) a a
  | read (uuid : UUID) (p : Post) (data : Markup) (klasse : Option Klasse)
      (url : p.url = api.serviceUrl) (reads : p.Reads uuid)
      (answer : readAnswer data.toElement = .ok klasse) :
      Decides api (.read uuid) (.api (.post p)) (Except.ok data) klasse

/-- The calls may be answered by anything. -/
def Anything : Answers WireAnswer := fun _ _ => True

/-- Which calls are made for one. -/
inductive MadeFor (api : FKKAPI) : Call → WireCall → Prop
  | read (uuid : UUID) (c : ApiCall)
      (reads : ∀ p, c = .post p → p.url = api.serviceUrl → p.Reads uuid) :
      MadeFor api (.read uuid) (.api c)
  | mo (c : Call) : MadeFor api c (.mo c)

variable {api : FKKAPI}

/-! ## A read is decided by one answer -/

/-- Only the request itself can decide what is made of its answer. -/
theorem request_undecided {α : Type} {ok : Answers ApiAnswer} {P : ApiCall → Prop}
    {decides : (c : ApiCall) → ApiAnswer c → α → Prop} {action : String} {body : Markup}
    {f : Markup → Api α}
    (hother : ∀ c, NoOtherPost api.tokenUrl c → P c ∧ ∀ a b, ¬ decides c a b)
    (h : ∀ p, p.url = api.serviceUrl → (∃ messageId transaction created expires security,
        p.envelope = .soap api.serviceUrl action body messageId transaction created expires
          security) → (post p >>= f).Undecided ok P decides) :
    (api.request api.serviceUrl action body >>= f).Undecided ok P decides := by
  have quiet : ∀ {c : ApiCall} {k : ApiAnswer c → Api α}, NoOtherPost api.tokenUrl c →
      (∀ a, ok c a → (k a).Undecided ok P decides) → (call c k).Undecided ok P decides :=
    fun hc => Undecided.call (hother _ hc).1 (hother _ hc).2
  refine quiet trivial fun (messageId : UUID) _ => quiet trivial fun (transaction : UUID) _ =>
    quiet trivial fun (clock : Int) _ => ?_
  change (ofExcept (soapEnvelope api.serviceUrl action body messageId transaction
    (EventGenerator.utcNow clock)) >>= (fun envelope => api.getToken >>= fun token =>
      ofExcept (addToken api.sign token envelope) >>= fun envelope =>
        post (soapPost api.serviceUrl action envelope)) >>= f).Undecided ok P decides
  rw [bind_bind]
  apply Undecided.ofExcept_bind
  intro envelope henvelope
  obtain ⟨created, expires, _, rfl⟩ := soapEnvelope_eq_ok henvelope
  rw [bind_bind]
  have hcalls : api.getToken.Calls ok (NoOtherPost api.tokenUrl) :=
    getToken_calls.imp (fun _ _ _ => trivial) fun _ => id
  refine Undecided.bind hcalls hother fun token => ?_
  rw [bind_bind]
  apply Undecided.ofExcept_bind
  intro signed hsigned
  obtain ⟨assertion, reference, signature, _, _, rfl⟩ := addToken_eq_ok hsigned
  exact h _ rfl ⟨_, _, _, _, _, rfl⟩

theorem read_undecided (uuid : UUID) :
    (onWire (api.read uuid)).Undecided Anything (MadeFor api (.read uuid))
      (Decides api (.read uuid)) := by
  apply Undecided.perform
  have hother : ∀ c, NoOtherPost api.tokenUrl c → MadeFor api (.read uuid) (.api c) ∧
      ∀ a klasse, ¬ Decides api (.read uuid) (.api c) a klasse := by
    refine fun c hc => ⟨.read uuid c fun p hp hurl => ?_, fun a klasse hdecides => ?_⟩
    · subst hp
      exact absurd (hurl.symm.trans hc) (serviceUrl_ne_tokenUrl api)
    · cases hdecides with
      | read _ p data _ url => exact serviceUrl_ne_tokenUrl api (url.symm.trans hc)
  obtain ⟨body, hbody⟩ : ∃ body, readBody uuid = .ok body := ⟨_, rfl⟩
  rw [read_eq, hbody, ofExcept_ok, ret_bind]
  refine request_undecided hother fun p hurl henvelope => ?_
  obtain ⟨_, _, _, _, _, henvelope⟩ := henvelope
  have hreads := reads_readBody hbody henvelope
  refine ⟨.read uuid _ fun p' hp' _ => ApiCall.post.inj hp' ▸ hreads, fun answer _ => ?_⟩
  cases answer with
  | error e => exact ⟨fun klasse hdecides => (by cases hdecides), fun _ => trivial⟩
  | ok data =>
    change (∀ klasse, _ → ofExcept (readAnswer data.toElement) = ret klasse) ∧
      (_ → (ofExcept (readAnswer data.toElement)).Undecided _ _ _)
    cases hanswer : readAnswer data.toElement with
    | error e =>
      refine ⟨fun klasse hdecides => ?_, fun _ => trivial⟩
      cases hdecides with
      | read _ _ _ _ _ _ answer => cases hanswer.symm.trans answer
    | ok klasse =>
      refine ⟨fun klasse' hdecides => ?_, fun hnone => absurd
        (Decides.read uuid p data klasse hurl hreads hanswer) (hnone klasse)⟩
      cases hdecides with
      | read _ _ _ _ _ _ answer =>
        obtain rfl := Except.ok.inj (hanswer.symm.trans answer)
        rfl

theorem makes_undecided (c : Call) :
    (api.makes c).Undecided Anything (MadeFor api c) (Decides api c) := by
  have hmo : (perform (WireCall.mo c) : WireProg (Answer c)).Undecided Anything
      (MadeFor api c) (Decides api c) := by
    refine ⟨.mo c, fun a _ => ?_⟩
    refine ⟨fun b hb => ?_, fun hnone => absurd (Decides.mo c a) (hnone a)⟩
    cases hb
    rfl
  cases c with
  | read uuid => exact read_undecided uuid
  | getClass | getFacet | mutate => exact hmo

/-! ## Synchronisations that read over SOAP -/

structure SoapRun where
  uuid : UUID
  message : Option Message
  rest : WireProg SyncStatus

structure SoapWorld (σ : Type) where
  systems : Systems σ
  queue : List Message
  runs : List SoapRun
  returned : List (UUID × SyncStatus)

variable {σ : Type}

/-- The bounds of the Klasse are written with their offsets. -/
def KeepsOffsets (klasse : Option Klasse) (data : Element) : Prop :=
  ∀ k k', klasse = some k → readAnswer data = .ok (some k') → k'.offsets = k.offsets

/-- What the API is answered: when Klassifikation answers a request to read a
Klasse, the one that FKK has, and anything otherwise. -/
def Systems.Tells (s : Systems σ) (api : FKKAPI) : Answers ApiAnswer
  | .post p, (a : Except Failure Markup) => p.url = api.serviceUrl → ∀ uuid, p.Reads uuid →
      ∀ data, a = .ok data →
        Holds (s.read uuid) data.toElement ∧ KeepsOffsets (s.read uuid) data.toElement
  | _, _ => True

/-- Klassifikation answers a request to read this Klasse, and something is made of
the answer. -/
def FKKAPI.Reading (api : FKKAPI) (uuid : UUID) : (c : ApiCall) → ApiAnswer c → Prop
  | .post p, (a : Except Failure Markup) => p.url = api.serviceUrl ∧ p.Reads uuid ∧
      ∃ data klasse, a = .ok data ∧ readAnswer data.toElement = .ok klasse
  | _, _ => False

variable (api) in
/-- As `Step`, but for the calls of the API. The read takes place when
Klassifikation answers, and the other answers are no events. -/
inductive SoapStep (mo : MO σ) (kle : UUID) :
    SoapWorld σ → Option (Event σ) → SoapWorld σ → Prop where
  | change (w : SoapWorld σ) (uuid : UUID)
      (klasse : Option { klasse : Klasse // klasse.uuid = uuid }) :
      SoapStep mo kle w (some (.change uuid)) { w with
        systems := { w.systems with fkk := Function.update w.systems.fkk uuid klasse }
        queue := ⟨.fkk, uuid⟩ :: w.queue }
  | edit (w : SoapWorld σ) (uuid : UUID) (states : σ) :
      SoapStep mo kle w (some (.edit uuid states)) { w with
        systems := { w.systems with classes := Function.update w.systems.classes uuid states }
        queue := ⟨.mo, uuid⟩ :: w.queue }
  | deliver (w : SoapWorld σ) (before after : List Message) (m : Message) (set : SetOrder)
      (queued : w.queue = before ++ m :: after) :
      SoapStep mo kle w (some (.deliver m)) { w with
        queue := before ++ after
        runs := ⟨m.uuid, some m, api.sync m.uuid set⟩ :: w.runs }
  | post (w : SoapWorld σ) (uuid : UUID) (set : SetOrder) :
      SoapStep mo kle w (some (.post uuid)) { w with
        runs := ⟨uuid, none, api.sync uuid set⟩ :: w.runs }
  | callMo (w : SoapWorld σ) (before after : List SoapRun) (uuid : UUID)
      (message : Option Message) (c : Call) (k : Answer c → WireProg SyncStatus)
      (running : w.runs = before ++ ⟨uuid, message, .call (.mo c) k⟩ :: after) :
      SoapStep mo kle w (some (.call uuid c)) { w with
        systems := w.systems.after mo c
        queue := c.announced ++ w.queue
        runs := before ++ ⟨uuid, message, k (w.systems.answer mo kle c)⟩ :: after }
  | callApi (w : SoapWorld σ) (before after : List SoapRun) (uuid : UUID)
      (message : Option Message) (c : ApiCall) (k : ApiAnswer c → WireProg SyncStatus)
      (a : ApiAnswer c) (running : w.runs = before ++ ⟨uuid, message, .call (.api c) k⟩ :: after)
      (told : w.systems.Tells api c a) (other : ∀ uuid', ¬ api.Reading uuid' c a) :
      SoapStep mo kle w none { w with runs := before ++ ⟨uuid, message, k a⟩ :: after }
  | read (w : SoapWorld σ) (before after : List SoapRun) (uuid uuid' : UUID)
      (message : Option Message) (c : ApiCall) (k : ApiAnswer c → WireProg SyncStatus)
      (a : ApiAnswer c) (running : w.runs = before ++ ⟨uuid, message, .call (.api c) k⟩ :: after)
      (told : w.systems.Tells api c a) (reading : api.Reading uuid' c a) :
      SoapStep mo kle w (some (.call uuid (.read uuid')))
        { w with runs := before ++ ⟨uuid, message, k a⟩ :: after }
  | ret (w : SoapWorld σ) (before after : List SoapRun) (uuid : UUID) (message : Option Message)
      (status : SyncStatus) (running : w.runs = before ++ ⟨uuid, message, .ret status⟩ :: after) :
      SoapStep mo kle w (some (.ret uuid status)) { w with
        runs := before ++ after
        returned := (uuid, status) :: w.returned }
  | fail (w : SoapWorld σ) (before after : List SoapRun) (r : SoapRun)
      (running : w.runs = before ++ r :: after) :
      SoapStep mo kle w (some (.fail r.uuid)) { w with
        queue := r.message.toList ++ w.queue
        runs := before ++ after }

variable (api) in
/-- The events from one world to another, with `P` holding of the systems at
every moment. -/
inductive SoapExec (mo : MO σ) (kle : UUID) (P : Systems σ → Prop) (w₀ : SoapWorld σ) :
    List (Event σ) → SoapWorld σ → Prop where
  | start (h : P w₀.systems) : SoapExec mo kle P w₀ [] w₀
  | step {es : List (Event σ)} {w w' : SoapWorld σ} {e : Option (Event σ)}
      (run : SoapExec mo kle P w₀ es w) (next : SoapStep api mo kle w e w') (h : P w'.systems) :
      SoapExec mo kle P w₀ (es ++ e.toList) w'

variable (api) in
/-- The same run, at the call that it has not got the answer of yet. -/
structure SoapRun.Matches (r : SoapRun) (r' : Run) : Prop where
  uuid : r'.uuid = r.uuid
  message : r'.message = r.message
  rest : Stage api.makes .raised Anything (MadeFor api) (Decides api) r.rest r'.rest

variable (api) in
structure SoapWorld.Matches (w : SoapWorld σ) (w' : World σ) : Prop where
  systems : w'.systems = w.systems
  queue : w'.queue = w.queue
  runs : List.Forall₂ (SoapRun.Matches api) w.runs w'.runs
  returned : w'.returned = w.returned

theorem sync_matches (uuid : UUID) (message : Option Message) (set : SetOrder) :
    SoapRun.Matches api ⟨uuid, message, api.sync uuid set⟩ ⟨uuid, message, sync uuid set⟩ :=
  ⟨rfl, rfl, stage_link makes_undecided _⟩

/-- Where one run of the one is, there is the matching one of the other. -/
theorem exists_matching {soapRuns before after : List SoapRun} {r : SoapRun} {runs : List Run}
    (h : List.Forall₂ (SoapRun.Matches api) soapRuns runs)
    (running : soapRuns = before ++ r :: after) :
    ∃ before' r' after', runs = before' ++ r' :: after' ∧ r.Matches api r' ∧
      List.Forall₂ (SoapRun.Matches api) before before' ∧
      List.Forall₂ (SoapRun.Matches api) after after' := by
  subst running
  induction before generalizing runs with
  | nil =>
    cases h with
    | cons hr hafter => exact ⟨[], _, _, rfl, hr, .nil, hafter⟩
  | cons b before ih =>
    cases h with
    | cons hb hrest =>
      obtain ⟨before', r', after', rfl, hr, hbefore, hafter⟩ := ih hrest
      exact ⟨_ :: before', r', after', rfl, hr, .cons hb hbefore, hafter⟩

/-- What is read is the Klasse that FKK has. -/
theorem Systems.Tells.read {s : Systems σ} {p : Post} {data : Markup} {uuid : UUID}
    {klasse : Option Klasse} (h : s.Tells api (.post p) (Except.ok data))
    (hurl : p.url = api.serviceUrl) (hreads : p.Reads uuid)
    (hanswer : readAnswer data.toElement = .ok klasse) : klasse = s.read uuid := by
  obtain ⟨hholds, hoffsets⟩ := h hurl uuid hreads data rfl
  have hequals := readAnswer_holds hholds hanswer
  cases klasse with
  | none =>
    generalize s.read uuid = held at hequals
    cases hequals
    rfl
  | some k =>
    cases hheld : s.read uuid with
    | none =>
      rw [hheld] at hequals
      cases hequals
    | some held =>
      rw [hheld] at hequals
      cases hequals with
      | some hequals => rw [hequals.eq_of_offsets (hoffsets held k hheld hanswer)]

/-- Each step of the one is one of the other with the same event, or none. -/
theorem step_simulates {mo : MO σ} {kle : UUID} {w w' : SoapWorld σ} {e : Option (Event σ)}
    (h : SoapStep api mo kle w e w') {v : World σ} (hm : w.Matches api v) :
    ∃ v', w'.Matches api v' ∧ ((e = none ∧ v' = v) ∨ ∃ e', e = some e' ∧ Step mo kle v e' v') := by
  obtain ⟨systems, queue, runs, returned⟩ := v
  obtain ⟨rfl, rfl, hruns, rfl⟩ := hm
  cases h with
  | change uuid klasse =>
    refine ⟨_, ?_, Or.inr ⟨_, rfl, .change _ uuid klasse⟩⟩
    exact ⟨rfl, rfl, hruns, rfl⟩
  | edit uuid states =>
    refine ⟨_, ?_, Or.inr ⟨_, rfl, .edit _ uuid states⟩⟩
    exact ⟨rfl, rfl, hruns, rfl⟩
  | deliver before after m set queued =>
    refine ⟨_, ?_, Or.inr ⟨_, rfl, .deliver _ before after m set queued⟩⟩
    exact ⟨rfl, rfl, .cons (sync_matches _ _ set) hruns, rfl⟩
  | post uuid set =>
    refine ⟨_, ?_, Or.inr ⟨_, rfl, .post _ uuid set⟩⟩
    exact ⟨rfl, rfl, .cons (sync_matches _ _ set) hruns, rfl⟩
  | callMo before after uuid message c k running =>
    obtain ⟨before', ⟨_, _, rest⟩, after', rfl, ⟨rfl, rfl, hstage⟩, hbefore, hafter⟩ :=
      exists_matching hruns running
    obtain ⟨c', k', hrest, hmade, hdecides, _⟩ := hstage.answer makes_undecided
      (show Anything (.mo c) (w.systems.answer mo kle c) from trivial)
    dsimp only at hrest
    subst hrest
    cases hmade with
    | mo =>
      refine ⟨_, ?_, Or.inr ⟨_, rfl, .call _ before' after' _ _ c k' rfl⟩⟩
      have hnext := hdecides _ (Decides.mo c _)
      exact ⟨rfl, rfl, List.rel_append hbefore (.cons ⟨rfl, rfl, hnext⟩ hafter), rfl⟩
  | callApi before after uuid message c k a running told other =>
    obtain ⟨before', ⟨_, _, rest⟩, after', rfl, ⟨rfl, rfl, hstage⟩, hbefore, hafter⟩ :=
      exists_matching hruns running
    obtain ⟨c', k', hrest, hmade, _, hnot⟩ := hstage.answer makes_undecided
      (show Anything (.api c) a from trivial)
    have hundecided : ∀ b, ¬ Decides api c' (.api c) a b := by
      intro b hb
      cases hb with
      | read uuid' p data klasse url reads answer =>
        exact other uuid' ⟨url, reads, data, klasse, rfl, answer⟩
    refine ⟨_, ?_, Or.inl ⟨rfl, rfl⟩⟩
    exact ⟨rfl, rfl, List.rel_append hbefore (.cons ⟨rfl, rfl, hnot hundecided⟩ hafter), rfl⟩
  | read before after uuid uuid' message c k a running told reading =>
    obtain ⟨before', ⟨_, _, rest⟩, after', rfl, ⟨rfl, rfl, hstage⟩, hbefore, hafter⟩ :=
      exists_matching hruns running
    obtain ⟨c', k', hrest, hmade, hdecides, _⟩ := hstage.answer makes_undecided
      (show Anything (.api c) a from trivial)
    dsimp only at hrest
    subst hrest
    cases c with
    | now | uuid4 | loadToken | storeToken => exact reading.elim
    | post p =>
      obtain ⟨hurl, hreads, data, klasse, rfl, hanswer⟩ := reading
      obtain rfl := told.read hurl hreads hanswer
      cases hmade with
      | read uuid'' _ reads =>
        -- the request asks for the Klasse that it is made for
        obtain rfl : uuid'' = uuid' := (reads p rfl hurl).uuid.symm.trans hreads.uuid
        refine ⟨_, ?_, Or.inr ⟨_, rfl, .call _ before' after' _ _ (.read uuid'') k' rfl⟩⟩
        have hnext := hdecides _ (.read uuid'' p data _ hurl hreads hanswer)
        exact ⟨rfl, rfl, List.rel_append hbefore (.cons ⟨rfl, rfl, hnext⟩ hafter), rfl⟩
  | ret before after uuid message status running =>
    obtain ⟨before', ⟨_, _, rest⟩, after', rfl, ⟨rfl, rfl, hstage⟩, hbefore, hafter⟩ :=
      exists_matching hruns running
    obtain rfl := hstage.of_ret
    refine ⟨_, ?_, Or.inr ⟨_, rfl, .ret _ before' after' _ _ status rfl⟩⟩
    exact ⟨rfl, rfl, List.rel_append hbefore hafter, rfl⟩
  | fail before after r running =>
    obtain ⟨before', ⟨_, _, rest⟩, after', rfl, ⟨rfl, rfl, hstage⟩, hbefore, hafter⟩ :=
      exists_matching hruns running
    refine ⟨_, ?_, Or.inr ⟨_, rfl, .fail _ before' after' ⟨r.uuid, r.message, rest⟩ rfl⟩⟩
    exact ⟨rfl, rfl, List.rel_append hbefore hafter, rfl⟩

/-- However synchronisations interleave, whatever happens to tokens and whichever
of them fail, those that read over SOAP bring FKK and MO where such do that read
in one call, with the same messages and results, and through the same events. -/
theorem soap_sync_refines {mo : MO σ} {kle : UUID} {P : Systems σ → Prop} {w₀ w : SoapWorld σ}
    {es : List (Event σ)} (h : SoapExec api mo kle P w₀ es w) (hruns : w₀.runs = []) :
    ∃ v, Exec mo kle (fun v => P v.systems) ⟨w₀.systems, w₀.queue, [], w₀.returned⟩ es v ∧
      w.Matches api v := by
  induction h with
  | start h => exact ⟨_, .start h, rfl, rfl, by rw [hruns]; exact .nil, rfl⟩
  | @step es w w' e run next hP ih =>
    obtain ⟨v, hexec, hmatches⟩ := ih
    obtain ⟨v', hmatches', hcases⟩ := step_simulates next hmatches
    rcases hcases with ⟨rfl, rfl⟩ | ⟨e', rfl, hstep⟩
    · exact ⟨v', by simpa using hexec, hmatches'⟩
    · have hP' : P v'.systems := hmatches'.systems ▸ hP
      exact ⟨v', hexec.step hstep hP', hmatches'⟩

/-! ## Two synchronisations -/

section
open Tokens (testApi tokenAnswer)

/-- The answer to a read of what is not there. -/
def notFoundAnswer : Markup :=
  .element "Envelope" [] [
    .element "Body" [] [
      .element "LaesOutput" [] [
        .element "StandardRetur" [] [
          .leaf "StatusKode" [] "44"]]]]

theorem hasStatus_notFoundAnswer : HasStatus "LaesOutput" "44" notFoundAnswer.toElement :=
  ⟨_, rfl, "44".toList, rfl, Padded.refl _⟩

variable {s : Systems σ} {p : Post}

/-- FKK tells what a request for the Klasse asks for. -/
theorem tells_answer {data : Markup} (hreads : p.Reads 7) (hholds : Holds (s.read 7) data.toElement)
    (hoffsets : KeepsOffsets (s.read 7) data.toElement) :
    s.Tells testApi (.post p) (Except.ok data) := by
  intro _ uuid huuid data' hdata
  obtain rfl := Except.ok.inj hdata
  obtain rfl : uuid = 7 := huuid.uuid.symm.trans hreads.uuid
  exact ⟨hholds, hoffsets⟩

theorem tells_outputs (hread : s.read 7 = some (openSince 7)) (hreads : p.Reads 7) :
    s.Tells testApi (.post p) (Except.ok (outputs [] 7)) := by
  refine tells_answer hreads (hread ▸ holds_outputs [] 7) fun k k' hk hk' => ?_
  obtain rfl := Option.some.inj (hread.symm.trans hk)
  have hsame := (readAnswer_outputs [] 7).symm.trans hk'
  rw [Option.some.inj (Except.ok.inj hsame)]

theorem tells_notFoundAnswer (hread : s.read 7 = none) (hreads : p.Reads 7) :
    s.Tells testApi (.post p) (Except.ok notFoundAnswer) := by
  refine tells_answer hreads (.notFound hread hasStatus_notFoundAnswer) fun k k' hk => ?_
  cases hread.symm.trans hk

/-- A synchronisation that finds a valid token in the cache posts its request, and
goes on by what it is answered. -/
theorem sync_asks {mo : MO σ} {w₀ w : SoapWorld σ} {es : List (Event σ)}
    (h : SoapExec testApi mo 1 (fun _ => True) w₀ es w) {before after : List SoapRun}
    {message : Option Message}
    (running : w.runs = before ++ ⟨7, message, testApi.sync 7 .insertion⟩ :: after) :
    ∃ p k, p.url = testApi.serviceUrl ∧ p.Reads 7 ∧
      SoapExec testApi mo 1 (fun _ => True) w₀ es
        { w with runs := before ++ ⟨7, message, .call (.api (.post p)) k⟩ :: after } ∧
      k (Except.ok (outputs [] 7)) =
        (syncKlasse 7 .insertion (some (openSince 7))).link testApi.makes .raised ∧
      k (Except.ok notFoundAnswer) =
        (syncKlasse 7 .insertion none).link testApi.makes .raised := by
  obtain ⟨systems, queue, runs, returned⟩ := w
  subst running
  have numbered := (h.step (.callApi _ before after 7 message .uuid4 _ (1 : UUID) rfl trivial
    fun _ => id) trivial).step
    (.callApi _ before after 7 message .uuid4 _ (2 : UUID) rfl trivial fun _ => id) trivial
  have loaded := (numbered.step (.callApi _ before after 7 message .now _ (0 : Int) rfl trivial
    fun _ => id) trivial).step (.callApi _ before after 7 message .loadToken _ (some tokenAnswer)
      rfl trivial fun _ => id) trivial
  have checked := loaded.step (.callApi _ before after 7 message .now _ (0 : Int) rfl trivial
    fun _ => id) trivial
  simp only [Option.toList, List.append_nil] at checked
  exact ⟨_, _, rfl, ⟨_, rfl, rfl⟩, checked, rfl, rfl⟩

/-- Two systems without classes. -/
def nowhere : SoapWorld (ClassStates Datetime) where
  systems := ⟨fun _ => none, fun _ => none⟩
  queue := []
  runs := []
  returned := []

/-- FKK has a new Klasse, which one synchronisation reads, and has it no longer when
another one reads. The first creates the class, and the second fails. -/
theorem soap_sync_refines_changed : ∃ m v,
    Exec Keeper.exact.mo 1 (fun _ => True) ⟨nowhere.systems, [], [], []⟩
      [.change 7, .deliver ⟨.fkk, 7⟩, .post 7, .call 7 (.read 7), .change 7, .call 7 (.read 7),
        .call 7 (.getClass 7), .call 7 (.getFacet "kle_number"), .call 7 (.mutate m),
        .ret 7 .createOrUpdate, .call 7 (.getClass 7), .fail 7] v ∧
      v.systems.read 7 = none ∧ v.queue = [⟨.mo, 7⟩, ⟨.fkk, 7⟩] ∧ v.runs = [] ∧
      v.returned = [(7, .createOrUpdate)] := by
  have start : SoapExec testApi Keeper.exact.mo 1 (fun _ => True) nowhere [] nowhere :=
    .start trivial
  have begun := ((start.step (.change nowhere 7 (some ⟨openSince 7, rfl⟩)) trivial).step
    (.deliver _ [] [] ⟨.fkk, 7⟩ .insertion rfl) trivial).step (.post _ 7 .insertion) trivial
  obtain ⟨p, k, hurl, hreads, first, hfound, -⟩ :=
    @sync_asks _ _ _ _ _ begun [⟨7, none, testApi.sync 7 .insertion⟩] [] (some ⟨.fkk, 7⟩) rfl
  obtain ⟨p', k', hurl', hreads', second, -, hmissing⟩ :=
    @sync_asks _ _ _ _ _ first [] _ none rfl
  have read := second.step (.read _ [_] [] 7 7 (some _) (.post p) k (Except.ok (outputs [] 7)) rfl
    (tells_outputs rfl hreads) ⟨hurl, hreads, _, _, rfl, readAnswer_outputs [] 7⟩) trivial
  rw [hfound] at read
  have changed := read.step (.change _ 7 none) trivial
  have reread := changed.step (.read _ [] [_] 7 7 none (.post p') k' (Except.ok notFoundAnswer) rfl
    (tells_notFoundAnswer rfl hreads')
    ⟨hurl', hreads', _, _, rfl, readAnswer_notFound hasStatus_notFoundAnswer⟩) trivial
  rw [hmissing] at reread
  have compared := (reread.step (.callMo _ [_] [] 7 (some _) (.getClass 7) _ rfl) trivial).step
    (.callMo _ [_] [] 7 (some _) (.getFacet "kle_number") _ rfl) trivial
  have created := (compared.step (.callMo _ [_] [] 7 (some _) (.mutate _) _ rfl) trivial).step
    (.ret _ [_] [] 7 (some _) .createOrUpdate rfl) trivial
  have failed := (created.step (.callMo _ [] [] 7 none (.getClass 7) _ rfl) trivial).step
    (.fail _ [] [] _ rfl) trivial
  obtain ⟨v, hexec, hmatches⟩ := soap_sync_refines failed rfl
  have hruns := List.forall₂_nil_left_iff.mp hmatches.runs
  refine ⟨_, v, hexec, ?_, hmatches.queue, hruns, hmatches.returned⟩
  rw [hmatches.systems]
  rfl

end

end Os2moFkk
