import Mathlib.Logic.Relation
import Os2moFkk.Signed

/-!
# Shared tokens

All requests share one cached token, and wait for answers between looking at it
and using it. A request of the whole system goes through the cache as it is at
that moment, together with any number of others.
-/

namespace Os2moFkk
open Prog

/-- A request in progress: what it has called, what is left of it and whether it
waits for the answer to a post. -/
structure Task where
  made : History
  rest : Api Markup
  waiting : Bool

/-- Something posted, and what its request had called by then. -/
structure Sent where
  post : Post
  made : History

/-- A token, and what the token service has answered with it. -/
structure Issued where
  token : Markup
  request : Post

namespace Tokens

structure State where
  clock : Int
  cached : Option Markup
  issued : List Issued
  tasks : List Task
  sent : List Sent

/-- What is answered but for posts. -/
def State.Answers (s : State) : Prog.Answers ApiAnswer
  | .now, (clock : Int) => clock = s.clock
  | .loadToken, (cached : Option Markup) => cached = s.cached
  | .post _, _ => False
  | _, _ => True

/-- The cache after a call. -/
def State.cache (s : State) : ApiCall → Option Markup
  | .storeToken token => some token
  | _ => s.cached

/-- The tokens after an answer to a post. -/
def State.issue (s : State) (tokenUrl : String) (p : Post) : Except Failure Markup → List Issued
  | .ok token => if p.url = tokenUrl then ⟨token, p⟩ :: s.issued else s.issued
  | .error _ => s.issued

/-- A new program, with nothing in the cache. -/
structure Start (s : State) : Prop where
  cached : s.cached = none
  issued : s.issued = []
  tasks : s.tasks = []
  sent : s.sent = []

variable (api : FKKAPI)

/-- Requests begin, and end or are cancelled, at any time. -/
inductive Step : State → State → Prop
  | tick (s : State) (clock : Int) (later : s.clock ≤ clock) : Step s { s with clock := clock }
  | begin (s : State) (url action : String) (body : Markup) (other : url ≠ api.tokenUrl) :
      Step s { s with tasks := ⟨[], api.request url action body, false⟩ :: s.tasks }
  | call (s : State) (before after : List Task) (t : Task) (c : ApiCall)
      (k : ApiAnswer c → Api Markup) (a : ApiAnswer c) (running : s.tasks = before ++ t :: after)
      (next : t.rest = .call c k) (answer : s.Answers c a) :
      Step s { s with
        cached := s.cache c
        tasks := before ++ { t with made := t.made ++ [⟨c, a⟩], rest := k a } :: after }
  | post (s : State) (before after : List Task) (t : Task) (p : Post)
      (k : Except Failure Markup → Api Markup) (running : s.tasks = before ++ t :: after)
      (next : t.rest = .call (.post p) k) (free : t.waiting = false) :
      Step s { s with
        sent := ⟨p, t.made⟩ :: s.sent
        tasks := before ++ { t with waiting := true } :: after }
  | answer (s : State) (before after : List Task) (t : Task) (p : Post)
      (k : Except Failure Markup → Api Markup) (a : Except Failure Markup)
      (running : s.tasks = before ++ t :: after) (next : t.rest = .call (.post p) k)
      (waiting : t.waiting = true) :
      Step s { s with
        issued := s.issue api.tokenUrl p a
        tasks := before ++
          { t with made := t.made ++ [⟨.post p, a⟩], rest := k a, waiting := false } :: after }
  | finish (s : State) (before after : List Task) (t : Task)
      (running : s.tasks = before ++ t :: after) : Step s { s with tasks := before ++ after }

abbrev Steps : State → State → Prop := Relation.ReflTransGen (Step api)

/-! ## What requests have been told -/

/-- The token service has answered with the token. -/
def IssuedIn (s : State) (token : Markup) : Prop := ∃ i ∈ s.issued, i.token = token

/-- It is what is left of a request after what it has been told, and the tokens
that it knows are from the token service. -/
structure Task.Valid (s : State) (t : Task) : Prop where
  made : ∃ url action body, url ≠ api.tokenUrl ∧
    Makes (api.request url action body) t.made t.rest
  loaded : ∀ token, ⟨.loadToken, some token⟩ ∈ t.made → IssuedIn s token
  fetched : ∀ p token, ⟨.post p, .ok token⟩ ∈ t.made → p.url = api.tokenUrl → IssuedIn s token

/-- The token service has been asked as it should. -/
structure Asked (p : Post) : Prop where
  url : p.url = api.tokenUrl
  signed : SignedAsSent api.sign tokenReferences p.envelope

/-- What is posted asks for a token, or carries one that its request may trust. -/
def Permitted (s : State) (p : Sent) : Prop :=
  Asked api p.post ∨
    ∃ i ∈ s.issued, p.post.Carries i.token ∧ Trusted api.tokenUrl p.made i.token

structure Valid (s : State) : Prop where
  cached : ∀ token, s.cached = some token → IssuedIn s token
  issued : ∀ i ∈ s.issued, Asked api i.request
  tasks : ∀ t ∈ s.tasks, Task.Valid api s t
  sent : ∀ p ∈ s.sent, Permitted api s p

variable {api} {s s' : State} {t : Task}

theorem IssuedIn.mono {token : Markup} (h : IssuedIn s token)
    (hissued : ∀ i ∈ s.issued, i ∈ s'.issued) : IssuedIn s' token := by
  obtain ⟨i, hi, htoken⟩ := h
  exact ⟨i, hissued i hi, htoken⟩

theorem Permitted.mono {p : Sent} (h : Permitted api s p)
    (hissued : ∀ i ∈ s.issued, i ∈ s'.issued) : Permitted api s' p := by
  refine h.imp id ?_
  rintro ⟨i, hi, hrest⟩
  exact ⟨i, hissued i hi, hrest⟩

theorem Task.Valid.mono (h : Task.Valid api s t) (hissued : ∀ i ∈ s.issued, i ∈ s'.issued) :
    Task.Valid api s' t where
  made := h.made
  loaded token hmem := (h.loaded token hmem).mono hissued
  fetched p token hmem hurl := (h.fetched p token hmem hurl).mono hissued

theorem Task.Valid.reasonable (h : Task.Valid api s t) :
    Reasonable api (fun _ _ => True) t.made t.rest := by
  obtain ⟨url, action, body, _, hmade⟩ := h.made
  exact (@request_reasonable api [] url action body).makes hmade

theorem Task.Valid.tokenSigned (h : Task.Valid api s t) (hsign : Plain api.sign) :
    Justified (fun _ => TokenSigned api) (fun _ _ => True) t.made t.rest := by
  obtain ⟨url, action, body, hurl, hmade⟩ := h.made
  exact (@request_tokenSigned api [] hsign url action body hurl).makes hmade

/-- A request may trust a token only if the token service has issued it. -/
theorem Task.Valid.issued (h : Task.Valid api s t) {token : Markup}
    (htrusted : Trusted api.tokenUrl t.made token) : IssuedIn s token := by
  cases htrusted with
  | inl hfetched =>
    obtain ⟨p, hurl, hmem⟩ := hfetched
    exact h.fetched p token hmem hurl
  | inr hchecked => exact h.loaded token hchecked.loaded

/-- What a request posts to the token service asks for a token as it should. -/
theorem Task.Valid.asked (h : Task.Valid api s t) (hsign : Plain api.sign) {p : Post}
    {k : Except Failure Markup → Api Markup} (next : t.rest = .call (.post p) k)
    (hurl : p.url = api.tokenUrl) : Asked api p := by
  have hsigned := h.tokenSigned hsign
  rw [next] at hsigned
  exact ⟨hurl, hsigned.1 hurl⟩

theorem Task.Valid.permitted (h : Task.Valid api s t) (hsign : Plain api.sign) {p : Post}
    {k : Except Failure Markup → Api Markup} (next : t.rest = .call (.post p) k) :
    Permitted api s ⟨p, t.made⟩ := by
  have hreason := h.reasonable
  rw [next] at hreason
  cases hreason.1 with
  | inl hurl => exact Or.inl (h.asked hsign next hurl)
  | inr hcarries =>
    obtain ⟨token, hcarries, htrusted⟩ := hcarries
    obtain ⟨i, hi, rfl⟩ := h.issued htrusted
    exact Or.inr ⟨i, hi, hcarries, htrusted⟩

/-- A request that makes one more call has been told one more thing. -/
theorem Task.Valid.call (h : Task.Valid api s t) {c : ApiCall} {k : ApiAnswer c → Api Markup}
    {a : ApiAnswer c} (next : t.rest = .call c k) (hissued : ∀ i ∈ s.issued, i ∈ s'.issued)
    (hload : ∀ token, (⟨c, a⟩ : (c : ApiCall) × ApiAnswer c) = ⟨.loadToken, some token⟩ →
      IssuedIn s' token)
    (hpost : ∀ p token, (⟨c, a⟩ : (c : ApiCall) × ApiAnswer c) = ⟨.post p, .ok token⟩ →
      p.url = api.tokenUrl → IssuedIn s' token)
    (waiting : Bool) :
    Task.Valid api s' { t with made := t.made ++ [⟨c, a⟩], rest := k a, waiting := waiting } := by
  have hold := h.mono hissued
  have hmem : ∀ e : (c : ApiCall) × ApiAnswer c,
      e ∈ t.made ++ [⟨c, a⟩] → e ∈ t.made ∨ ⟨c, a⟩ = e := by
    intro e he
    simpa [eq_comm] using he
  obtain ⟨url, action, body, hurl, hmade⟩ := h.made
  rw [next] at hmade
  exact {
    made := ⟨url, action, body, hurl, hmade.concat⟩
    loaded := fun token he => (hmem _ he).elim (hold.loaded token) (hload token)
    fetched := fun p token he hurl =>
      (hmem _ he).elim (hold.fetched p token · hurl) (hpost p token · hurl) }

/-! ## Steps -/

theorem start_valid (h : Start s) : Valid api s where
  cached token hcached := by
    rw [h.cached] at hcached
    cases hcached
  issued i hi := by
    rw [h.issued] at hi
    cases hi
  tasks t ht := by
    rw [h.tasks] at ht
    cases ht
  sent p hp := by
    rw [h.sent] at hp
    cases hp

/-- What is in the cache has been issued, also when it is new there. -/
theorem Valid.cache (h : Valid api s) {c : ApiCall}
    (hstore : ∀ token, c = .storeToken token → IssuedIn s token) {token : Markup}
    (hcached : s.cache c = some token) : IssuedIn s token := by
  cases c with
  | storeToken token' =>
    obtain rfl := Option.some.inj hcached
    exact hstore _ rfl
  | now | uuid4 | loadToken | post => exact h.cached token hcached

theorem mem_issue {tokenUrl : String} {p : Post} {a : Except Failure Markup} {i : Issued} :
    i ∈ s.issue tokenUrl p a ↔
      i ∈ s.issued ∨ ∃ token, a = .ok token ∧ p.url = tokenUrl ∧ i = ⟨token, p⟩ := by
  cases a with
  | error => simp [State.issue]
  | ok token =>
    by_cases hurl : p.url = tokenUrl
    · simp [State.issue, hurl, or_comm]
    · simp [State.issue, hurl]

/-- The other requests, and the one that has made a step. -/
theorem Valid.others (h : Valid api s) {before after : List Task} {t' : Task}
    (running : s.tasks = before ++ t :: after) (hissued : ∀ i ∈ s.issued, i ∈ s'.issued)
    (ht' : Task.Valid api s' t') : ∀ u ∈ before ++ t' :: after, Task.Valid api s' u := by
  intro u hu
  by_cases heq : u = t'
  · exact heq ▸ ht'
  · have hold : u ∈ before ++ after := by
      simpa [heq] using hu
    refine (h.tasks u ?_).mono hissued
    rw [running]
    rcases List.mem_append.mp hold with hold | hold <;> simp [hold]

theorem step_valid (hsign : Plain api.sign) (h : Step api s s') (valid : Valid api s) :
    Valid api s' := by
  have task : ∀ {before after : List Task} {t : Task}, s.tasks = before ++ t :: after →
      Task.Valid api s t := fun running => valid.tasks _ (by simp [running])
  cases h with
  | tick clock later =>
    exact ⟨valid.cached, valid.issued, fun t ht => (valid.tasks t ht).mono fun _ => id, valid.sent⟩
  | begin url action body other =>
    refine ⟨valid.cached, valid.issued, fun t ht => ?_, valid.sent⟩
    cases ht with
    | head => exact ⟨⟨url, action, body, other, .nil _⟩, by simp, by simp⟩
    | tail _ hold => exact (valid.tasks t hold).mono fun _ => id
  | call before after t c k a running next answer =>
    have hreason := (task running).reasonable
    rw [next] at hreason
    refine ⟨fun token => valid.cache ?_, valid.issued, ?_, valid.sent⟩
    · rintro token rfl
      exact (task running).issued (Or.inl hreason.1)
    · refine valid.others running (fun _ => id) ((task running).call next ?_ ?_ ?_ t.waiting)
      · exact fun _ => id
      · intro token heq
        cases heq
        exact valid.cached token (Eq.symm answer)
      · intro p token heq
        cases heq
        exact answer.elim
  | post before after t p k running next free =>
    have ht := task running
    refine ⟨valid.cached, valid.issued, ?_, fun q hq => ?_⟩
    · exact valid.others running (fun _ => id) ⟨ht.made, ht.loaded, ht.fetched⟩
    · cases hq with
      | head => exact ht.permitted hsign next
      | tail _ hold => exact valid.sent q hold
  | answer before after t p k a running next waiting =>
    have hissued : ∀ i ∈ s.issued, i ∈ s.issue api.tokenUrl p a := fun _ hi =>
      mem_issue.mpr (Or.inl hi)
    refine ⟨fun token hcached => (valid.cached token hcached).mono hissued, fun i hi => ?_, ?_,
      fun q hq => (valid.sent q hq).mono hissued⟩
    · rcases mem_issue.mp hi with hold | ⟨token, rfl, hurl, rfl⟩
      · exact valid.issued i hold
      · exact (task running).asked hsign next hurl
    · refine valid.others running hissued ((task running).call next ?_ ?_ ?_ false)
      · exact hissued
      · intro token heq
        cases heq
      · intro q token heq hurl
        cases heq
        exact ⟨⟨token, p⟩, mem_issue.mpr (Or.inr ⟨token, rfl, hurl, rfl⟩), rfl⟩
  | finish before after t running =>
    refine ⟨valid.cached, valid.issued, fun u hu => ?_, valid.sent⟩
    refine (valid.tasks u ?_).mono fun _ => id
    rw [running]
    rcases List.mem_append.mp hu with hu | hu <;> simp [hu]

theorem steps_valid (hsign : Plain api.sign) (h : Steps api s s') (valid : Valid api s) :
    Valid api s' := by
  induction h with
  | refl => exact valid
  | tail _ step ih => exact step_valid hsign step ih

/-- Whatever the requests do meanwhile: what is posted is a signed request for a
token, or carries a token that the token service has issued for one, and that its
request has been answered with itself or has found in the cache and not expired. -/
theorem sent_with_usable_token (hsign : Plain api.sign) {s₀ : State} (start : Start s₀)
    (h : Steps api s₀ s) {p : Sent} (hp : p ∈ s.sent) :
    Asked api p.post ∨
      ∃ i ∈ s.issued, Asked api i.request ∧ p.post.Carries i.token ∧
        (Fetched api.tokenUrl p.made i.token ∨ Checked p.made i.token) := by
  have valid := steps_valid hsign h (start_valid start)
  refine (valid.sent p hp).imp id ?_
  rintro ⟨i, hi, hcarries, htrusted⟩
  exact ⟨i, hi, valid.issued i hi, hcarries, htrusted⟩

/-- The first request asks for a token, and posts the one that it gets. -/
theorem sent_with_usable_token_first : ∃ s, Steps testApi ⟨0, none, [], [], []⟩ s ∧
    ∃ p ∈ s.sent, p.post.url = testApi.serviceUrl ∧
      ∃ i ∈ s.issued, Asked testApi i.request ∧ p.post.Carries i.token ∧
        (Fetched testApi.tokenUrl p.made i.token ∨ Checked p.made i.token) := by
  have start : Start ⟨0, none, [], [], []⟩ := ⟨rfl, rfl, rfl, rfl⟩
  have begun : Steps testApi ⟨0, none, [], [], []⟩ _ :=
    .single (.begin _ testApi.serviceUrl "laes" (.element "LaesInput" [] []) (by decide))
  have numbered := (begun.tail (.call _ [] [] _ .uuid4 _ (1 : UUID) rfl rfl trivial)).tail
    (.call _ [] [] _ .uuid4 _ (2 : UUID) rfl rfl trivial)
  have loaded := (numbered.tail (.call _ [] [] _ .now _ (0 : Int) rfl rfl rfl)).tail
    (.call _ [] [] _ .loadToken _ none rfl rfl rfl)
  have timed := (loaded.tail (.call _ [] [] _ .uuid4 _ (3 : UUID) rfl rfl trivial)).tail
    (.call _ [] [] _ .now _ (0 : Int) rfl rfl rfl)
  have asked := (timed.tail (.post _ [] [] _ _ _ rfl rfl rfl)).tail
    (.answer _ [] [] _ _ _ (.ok tokenAnswer) rfl rfl rfl)
  have posted := (asked.tail (.call _ [] [] _ (.storeToken tokenAnswer) _ () rfl rfl trivial)).tail
    (.post _ [] [] _ _ _ rfl rfl rfl)
  have sent := sent_with_usable_token plain_testApi start posted List.mem_cons_self
  refine ⟨_, posted, _, List.mem_cons_self, rfl, sent.resolve_left fun hasked => ?_⟩
  exact serviceUrl_ne_tokenUrl testApi hasked.url

/-! ## A token that cannot be read -/

/-- It cannot be told until when the token is valid. -/
def Unreadable (token : Markup) : Prop :=
  ∀ expires tz, expiration token = .ok expires → expires.tz ≠ some tz

/-- The answers as long as this token is in the cache. -/
def CachedAnswers (token : Markup) : Prog.Answers ApiAnswer
  | .loadToken, (cached : Option Markup) => cached = some token
  | _, _ => True

/-- A request that neither returns nor is about to post or to change the cache. -/
def Fruitless : Api Markup → Prop
  | .ret _ => False
  | .raise _ => True
  | .call (.post _) _ => False
  | .call (.storeToken _) _ => False
  | .call _ _ => True

theorem isTokenValid_unreadable {token : Markup} (hbad : Unreadable token) :
    (∃ e, isTokenValid token = raise e) ∨
      isTokenValid token = .call .now fun _ => raise .typeError := by
  unfold isTokenValid
  cases hexpires : expiration token with
  | error e => exact Or.inl ⟨e, rfl⟩
  | ok expires =>
    right
    cases htz : expires.tz with
    | none =>
      simp only [Prog.ofExcept_ok, ret_bind, htz]
      rfl
    | some tz => exact absurd htz (hbad expires tz hexpires)

/-- It raises before it posts: the token is looked at first. -/
theorem request_fruitless {token : Markup} (hbad : Unreadable token) (url action : String)
    (body : Markup) : (api.request url action body).Always (CachedAnswers token) Fruitless := by
  refine ⟨trivial, fun _ _ => ⟨trivial, fun _ _ => ⟨trivial, fun _ _ => ?_⟩⟩⟩
  apply Always.ofExcept_bind fun _ => trivial
  intro envelope _
  refine ⟨trivial, fun (cached : Option Markup) hcached => ?_⟩
  obtain rfl : cached = some token := hcached
  change Always _ _ ((isTokenValid token >>= _) >>= _)
  rcases isTokenValid_unreadable hbad with ⟨e, heq⟩ | heq
  · rw [heq]
    trivial
  · rw [heq]
    exact ⟨trivial, fun _ _ => trivial⟩

/-- From here on, nothing is posted. -/
structure Stuck (token : Markup) (s₀ s : State) : Prop where
  cached : s.cached = some token
  issued : s.issued = s₀.issued
  sent : s.sent = s₀.sent
  tasks : ∀ t ∈ s.tasks, t.rest.Always (CachedAnswers token) Fruitless

theorem step_stuck {token : Markup} {s₀ : State} (hbad : Unreadable token) (h : Step api s s')
    (stuck : Stuck token s₀ s) : Stuck token s₀ s' := by
  have running : ∀ {before after : List Task} {t : Task}, s.tasks = before ++ t :: after →
      t.rest.Always (CachedAnswers token) Fruitless := by
    intro before after t running
    exact stuck.tasks t (by simp [running])
  cases h with
  | tick clock later => exact ⟨stuck.cached, stuck.issued, stuck.sent, stuck.tasks⟩
  | begin url action body other =>
    refine ⟨stuck.cached, stuck.issued, stuck.sent, fun t ht => ?_⟩
    cases ht with
    | head => exact request_fruitless hbad url action body
    | tail _ hold => exact stuck.tasks t hold
  | call before after t c k a hrunning next answer =>
    have ht := running hrunning
    rw [next] at ht
    have hcache : s.cache c = some token := by
      cases c with
      | storeToken => exact ht.now.elim
      | now | uuid4 | loadToken | post => exact stuck.cached
    have hanswer : CachedAnswers token c a := by
      cases c with
      | loadToken => exact Eq.trans answer stuck.cached
      | now | uuid4 | storeToken | post => trivial
    refine ⟨hcache, stuck.issued, stuck.sent, fun u hu => ?_⟩
    simp only [List.mem_append, List.mem_cons] at hu
    rcases hu with hu | rfl | hu
    · exact stuck.tasks u (by simp [hrunning, hu])
    · exact ht.answer hanswer
    · exact stuck.tasks u (by simp [hrunning, hu])
  | post before after t p k hrunning next free =>
    have ht := running hrunning
    rw [next] at ht
    exact ht.now.elim
  | answer before after t p k a hrunning next waiting =>
    have ht := running hrunning
    rw [next] at ht
    exact ht.now.elim
  | finish before after t hrunning =>
    refine ⟨stuck.cached, stuck.issued, stuck.sent, fun u hu => stuck.tasks u ?_⟩
    rcases List.mem_append.mp hu with hu | hu <;> simp [hrunning, hu]

/-- Once an answer from which this cannot be told is in the cache and no request
is in progress, no request is ever posted again, none returns, and the cache stays
as it is: each request looks at the cached token first, and raises. -/
theorem unreadable_token_stays {token : Markup} (hbad : Unreadable token)
    (hcached : s.cached = some token) (hidle : s.tasks = []) (h : Steps api s s') :
    s'.cached = some token ∧ s'.sent = s.sent ∧ s'.issued = s.issued ∧
      ∀ t ∈ s'.tasks, ∀ data, t.rest ≠ ret data := by
  have stuck : Stuck token s s' := by
    induction h with
    | refl => exact ⟨hcached, rfl, rfl, by simp [hidle]⟩
    | tail _ step ih => exact step_stuck hbad step ih
  refine ⟨stuck.cached, stuck.sent, stuck.issued, fun t ht data hreturned => ?_⟩
  have hfruitless := (stuck.tasks t ht).now
  rw [hreturned] at hfruitless
  exact hfruitless

/-- An error, with HTTP status 200. -/
def faultAnswer : Markup :=
  .element "Envelope" [] [
    .element "Body" [] [
      .element "Fault" [] []]]

theorem next_raises (hclock : s.clock = 0) (hcached : s.cached = some faultAnswer)
    (hidle : s.tasks = []) :
    ∃ t, Steps testApi s { s with tasks := [t] } ∧ t.rest = raise (.raised .assertionError) := by
  obtain ⟨clock, cached, issued, tasks, sent⟩ := s
  subst hclock hcached hidle
  have begun : Steps testApi ⟨0, some faultAnswer, issued, [], sent⟩ _ :=
    .single (.begin _ testApi.serviceUrl "laes" (.element "LaesInput" [] []) (by decide))
  have numbered := (begun.tail (.call _ [] [] _ .uuid4 _ (4 : UUID) rfl rfl trivial)).tail
    (.call _ [] [] _ .uuid4 _ (5 : UUID) rfl rfl trivial)
  have loaded := (numbered.tail (.call _ [] [] _ .now _ (0 : Int) rfl rfl rfl)).tail
    (.call _ [] [] _ .loadToken _ (some faultAnswer) rfl rfl rfl)
  exact ⟨_, loaded, rfl⟩

/-- The first request is answered with it, and raises. -/
theorem fault_cached : ∃ s, Steps testApi ⟨0, none, [], [], []⟩ s ∧
    s.clock = 0 ∧ s.cached = some faultAnswer ∧ s.tasks = [] := by
  have begun : Steps testApi ⟨0, none, [], [], []⟩ _ :=
    .single (.begin _ testApi.serviceUrl "laes" (.element "LaesInput" [] []) (by decide))
  have numbered := (begun.tail (.call _ [] [] _ .uuid4 _ (1 : UUID) rfl rfl trivial)).tail
    (.call _ [] [] _ .uuid4 _ (2 : UUID) rfl rfl trivial)
  have loaded := (numbered.tail (.call _ [] [] _ .now _ (0 : Int) rfl rfl rfl)).tail
    (.call _ [] [] _ .loadToken _ none rfl rfl rfl)
  have timed := (loaded.tail (.call _ [] [] _ .uuid4 _ (3 : UUID) rfl rfl trivial)).tail
    (.call _ [] [] _ .now _ (0 : Int) rfl rfl rfl)
  have asked := (timed.tail (.post _ [] [] _ _ _ rfl rfl rfl)).tail
    (.answer _ [] [] _ _ _ (.ok faultAnswer) rfl rfl rfl)
  have idle := (asked.tail (.call _ [] [] _ (.storeToken faultAnswer) _ () rfl rfl trivial)).tail
    (.finish _ [] [] _ rfl)
  exact ⟨_, idle, rfl, rfl, rfl⟩

/-- No request gets past it. -/
theorem unreadable_token_stays_fault :
    ∃ s t, Steps testApi ⟨0, none, [], [], []⟩ s ∧ s.cached = some faultAnswer ∧
      Steps testApi s { s with tasks := [t] } ∧ t.rest = raise (.raised .assertionError) ∧
      ∀ s', Steps testApi s s' →
        s'.cached = some faultAnswer ∧ s'.sent = s.sent ∧ s'.issued = s.issued ∧
          ∀ t ∈ s'.tasks, ∀ data, t.rest ≠ ret data := by
  have bad : Unreadable faultAnswer := by
    intro expires tz h
    cases h
  obtain ⟨s, steps, hclock, hcached, hidle⟩ := fault_cached
  obtain ⟨t, next, hraised⟩ := next_raises hclock hcached hidle
  exact ⟨s, t, steps, hcached, next, hraised, fun s' => unreadable_token_stays bad hcached hidle⟩

end Tokens

end Os2moFkk
