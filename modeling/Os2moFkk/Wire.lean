import Os2moFkk.Paging
import Os2moFkk.Rendering
import Os2moFkk.Tokens

/-!
# What is asked and answered

Klassifikation reads from the envelope what it is asked for and answers with an
envelope of its own. However a request gets its token, what it returns is what
Klassifikation has.
-/

namespace Os2moFkk
open Itertools Forest Xml Prog

/-! ## Texts of numbers -/

theorem number_toDigits (n : Nat) : IsoFormat.number (Nat.toDigits 10 n) = n :=
  Nat.ofDigitChars_ten_toDigits

theorem natOfText_toDigits (n : Nat) : natOfText (Nat.toDigits 10 n) = .ok n := by
  have hdigit : ∀ c ∈ Nat.toDigits 10 n, c.isDigit = true := fun c hc =>
    Nat.isDigit_of_mem_toDigits (by decide) (by decide) hc
  have hall : (Nat.toDigits 10 n).all Char.isDigit = true := List.all_eq_true.mpr hdigit
  rw [natOfText, List.splitOn_eq_singleton Nat.underscore_not_in_toDigits]
  simp [hall, Nat.toDigits_ne_nil, number_toDigits, -List.all_eq_true]

theorem intOfText_toDigits (n : Nat) : intOfText (Nat.toDigits 10 n) = .ok n := by
  have hsign : ∀ c ∈ Nat.toDigits 10 n, c ≠ '-' ∧ c ≠ '+' := by
    intro c hc
    have hdigit := Nat.isDigit_of_mem_toDigits (by decide) (by decide) hc
    constructor <;> rintro rfl <;> cases hdigit
  have hnat := natOfText_toDigits n
  cases htext : Nat.toDigits 10 n with
  | nil => exact absurd htext Nat.toDigits_ne_nil
  | cons c rest =>
    rw [htext] at hsign hnat
    obtain ⟨hminus, hplus⟩ := hsign c List.mem_cons_self
    rw [intOfText, hnat]
    · rfl
    · simp [hminus]
    · simp [hplus]

theorem hexNumber_concat (s : Text) (c : Char) :
    hexNumber (s ++ [c]) = 16 * hexNumber s + (hexDigit c).getD 0 := by
  rw [hexNumber, List.foldl_append]
  rfl

theorem hexDigit_digitChar : ∀ d < 16, hexDigit (Nat.digitChar d) = some d := by decide

@[simp] theorem length_hexText (n k : Nat) : (hexText n k).length = n := by
  induction n generalizing k with
  | zero => rfl
  | succ n ih => simp [hexText, ih]

theorem hexNumber_hexText {n k : Nat} (h : k < 16 ^ n) : hexNumber (hexText n k) = k := by
  induction n generalizing k with
  | zero =>
    obtain rfl : k = 0 := by simpa using h
    rfl
  | succ n ih =>
    have hdiv : k / 16 < 16 ^ n := Nat.div_lt_of_lt_mul (by rwa [Nat.mul_comm, ← Nat.pow_succ])
    rw [hexText, hexNumber_concat, ih hdiv, hexDigit_digitChar _ (Nat.mod_lt k (by decide))]
    simp [Nat.div_add_mod]

theorem isSome_hexText {n k : Nat} : ∀ c ∈ hexText n k, (hexDigit c).isSome = true := by
  induction n generalizing k with
  | zero => simp [hexText]
  | succ n ih =>
    intro c hc
    rcases List.mem_append.mp hc with hc | hc
    · exact ih c hc
    · rw [List.mem_singleton.mp hc, hexDigit_digitChar _ (Nat.mod_lt k (by decide))]
      rfl

/-- A UUID is written as it is read. -/
theorem uuidText_spec (uuid : UUID) : UuidText (uuidText uuid) uuid := by
  have hsplit : ∀ text : Text, text.take 8 ++ (text.drop 8).take 4 ++ (text.drop 12).take 4 ++
      (text.drop 16).take 4 ++ text.drop 20 = text := by
    intro text
    have hpart : ∀ i n, (text.drop i).take n ++ text.drop (i + n) = text.drop i := by
      intro i n
      rw [← List.drop_drop, List.take_append_drop]
    simp only [List.append_assoc]
    rw [hpart 16 4, hpart 12 4, hpart 8 4, List.take_append_drop]
  have htext := UuidText.mk (a := (hexText 32 uuid.toNat).take 8)
    (b := ((hexText 32 uuid.toNat).drop 8).take 4) (c := ((hexText 32 uuid.toNat).drop 12).take 4)
    (d := ((hexText 32 uuid.toNat).drop 16).take 4) (e := (hexText 32 uuid.toNat).drop 20)
    (by simp) (by rw [hsplit]; exact List.all_eq_true.mpr isSome_hexText)
  rw [hsplit, hexNumber_hexText (by have := uuid.isLt; omega), BitVec.ofNat_toNat] at htext
  simpa [uuidText] using htext

/-! ## What an envelope asks for -/

/-- The text at a path under the body. -/
def Post.textAt (p : Post) (path : List String) : Option Text :=
  (p.envelope.find ("Body" :: path)).bind fun e => e.content.text

/-- What a search asks for: a page of what was registered since then. -/
structure Query where
  offset : Nat
  limit : Nat
  since : Int
  userKeyFilter : Option Text

/-- The envelope asks for the page, in the only facet that is searched. -/
structure Post.Queries (p : Post) (q : Query) : Prop where
  offset : ∃ text, p.textAt ["SoegInput", "FoersteResultatReference"] = some text ∧
    intOfText text = .ok q.offset
  limit : ∃ text, p.textAt ["SoegInput", "MaksimalAntalKvantitet"] = some text ∧
    intOfText text = .ok q.limit
  since : ∃ text d tz, p.textAt ["SoegInput", "SoegRegistrering", "FraTidspunkt",
    "TidsstempelDatoTid"] = some text ∧ IsoFormat.fromisoformat text = .ok d ∧ d.tz = some tz ∧
      d.wall - tz.micros = q.since
  userKeyFilter : p.textAt ["SoegInput", "AttributListe", "Egenskab", "BrugervendtNoegleTekst"] =
    q.userKeyFilter
  facet : p.textAt ["SoegInput", "RelationListe", "Facet", "ReferenceID", "UUIDIdentifikator"] =
    some "00000c7e-face-4001-8000-000000000000".toList

/-- An envelope asks for one thing. -/
theorem Post.Queries.unique {p : Post} {q q' : Query} (h : p.Queries q) (h' : p.Queries q') :
    q = q' := by
  have hnumber : ∀ {path : List String} {n n' : Nat},
      (∃ text, p.textAt path = some text ∧ intOfText text = .ok n) →
      (∃ text, p.textAt path = some text ∧ intOfText text = .ok n') → n = n' := by
    rintro path n n' ⟨text, htext, hn⟩ ⟨text', htext', hn'⟩
    obtain rfl := Option.some.inj (htext.symm.trans htext')
    exact Int.ofNat.inj (Except.ok.inj (hn.symm.trans hn'))
  have hsince : q.since = q'.since := by
    obtain ⟨text, d, tz, htext, hd, htz, heq⟩ := h.since
    obtain ⟨text', d', tz', htext', hd', htz', heq'⟩ := h'.since
    obtain rfl := Option.some.inj (htext.symm.trans htext')
    obtain rfl := Except.ok.inj (hd.symm.trans hd')
    obtain rfl := Option.some.inj (htz.symm.trans htz')
    exact heq.symm.trans heq'
  have hfilter := h.userKeyFilter.symm.trans h'.userKeyFilter
  have hoffset := hnumber h.offset h'.offset
  have hlimit := hnumber h.limit h'.limit
  cases q
  cases q'
  simp_all only

/-- The envelope asks for a Klasse. -/
def Post.Reads (p : Post) (uuid : UUID) : Prop :=
  ∃ text, p.textAt ["LaesInput", "UUIDIdentifikator"] = some text ∧ uuidOfText text = .ok uuid

namespace Markup

def searchInput (offset limit since : Text) (filters : List Markup) : Markup :=
  .element "SoegInput" [] [
    filled "FoersteResultatReference" [] offset,
    filled "MaksimalAntalKvantitet" [] limit,
    .element "SoegRegistrering" [] [
      .element "FraTidspunkt" [] [
        filled "TidsstempelDatoTid" [] since]],
    .element "AttributListe" [] filters,
    .element "TilstandListe" [] [],
    .element "RelationListe" [] [
      .element "Facet" [] [
        .element "ReferenceID" [] [
          .leaf "UUIDIdentifikator" [] "00000c7e-face-4001-8000-000000000000"]]]]

def userKeyFilter (userKey : Text) : Markup :=
  .element "Egenskab" [] [
    filled "BrugervendtNoegleTekst" [] userKey]

end Markup

theorem searchBody_eq (since : Datetime) (limit offset : Nat) (filter : Option Text) :
    searchBody since limit offset filter = (do
      let time ← failing (formatTime since)
      return .searchInput (Nat.toDigits 10 offset) (Nat.toDigits 10 limit) time
        (filter.map Markup.userKeyFilter).toList) := by
  unfold searchBody
  cases failing (formatTime since) with
  | error => rfl
  | ok time => cases filter <;> rfl

/-- What stands under the body is what the request was made with. -/
theorem textAt_soap {p : Post} {url action : String} {body : Markup} {messageId transaction : UUID}
    {created expires : Text} {security : List Markup}
    (hp : p.envelope = .soap url action body messageId transaction created expires security)
    (path : List String) :
    p.textAt (body.name :: path) = (body.find path).bind fun e => e.content.text := by
  simp [Post.textAt, hp, Markup.soap, Markup.element, Markup.filled, Tree.find, ofList, trees]

theorem queries_searchBody {since : Datetime} {limit offset : Nat} {filter : Option Text}
    {body : Markup} (hlo : 0 ≤ since.wall) (hhi : since.wall ≤ maxWall)
    (h : searchBody since limit offset filter = .ok body) {p : Post} {url action : String}
    {messageId transaction : UUID} {created expires : Text} {security : List Markup}
    (hp : p.envelope = .soap url action body messageId transaction created expires security) :
    p.Queries ⟨offset, limit, since.instant - since.instant % 1000, filter⟩ := by
  rw [searchBody_eq, bind_eq_ok] at h
  obtain ⟨time, htime, hbody⟩ := h
  obtain rfl := Except.ok.inj hbody
  obtain ⟨d, tz, hread, htz, hsince⟩ :=
    (instantText_formatTime hlo hhi (failing_eq_ok htime)).parse
  have htext := textAt_soap hp
  refine ⟨⟨_, htext _, intOfText_toDigits offset⟩, ⟨_, htext _, intOfText_toDigits limit⟩,
    ⟨time, d, tz, htext _, hread, htz, hsince⟩, (htext _).trans ?_, htext _⟩
  cases filter <;> rfl

theorem reads_readBody {uuid : UUID} {body : Markup} (h : readBody uuid = .ok body) {p : Post}
    {url action : String} {messageId transaction : UUID} {created expires : Text}
    {security : List Markup}
    (hp : p.envelope = .soap url action body messageId transaction created expires security) :
    p.Reads uuid := by
  obtain rfl := Except.ok.inj h
  exact ⟨_, textAt_soap hp _, (uuidText_spec uuid).parse⟩

/-! ## What a request goes through -/

variable {api : FKKAPI} {made : History}

/-- A call that posts nothing but requests for a token. -/
def NoOtherPost (tokenUrl : String) : ApiCall → Prop
  | .post p => p.url = tokenUrl
  | _ => True

theorem fetchToken_calls :
    api.fetchToken.Calls (fun _ _ => True) (NoOtherPost api.tokenUrl) := by
  refine ⟨trivial, fun _ _ => ⟨trivial, fun _ _ => ?_⟩⟩
  apply Always.ofExcept_bind fun _ => trivial
  intro envelope _
  apply Always.ofExcept_bind fun _ => trivial
  intro signed _
  refine ⟨rfl, fun answer _ => ?_⟩
  cases answer <;> trivial

theorem isTokenValid_calls (token : Markup) :
    (isTokenValid token).Calls (fun _ _ => True) (NoOtherPost api.tokenUrl) := by
  apply Always.ofExcept_bind fun _ => trivial
  intro expires _
  refine ⟨trivial, fun clock _ => ?_⟩
  cases htz : expires.tz <;> trivial

theorem getToken_calls : api.getToken.Calls (fun _ _ => True) (NoOtherPost api.tokenUrl) := by
  have renew : api.renewToken.Calls (fun _ _ => True) (NoOtherPost api.tokenUrl) :=
    fetchToken_calls.bind fun token => ⟨trivial, fun _ _ => trivial⟩
  refine ⟨trivial, fun cached _ => ?_⟩
  cases cached with
  | none => exact renew
  | some token =>
    refine (isTokenValid_calls token).bind fun valid => ?_
    cases valid with
    | true => trivial
    | false => exact renew

/-- However it gets its token, a request that returns has posted an envelope with
its body, and returns what it was answered. -/
theorem request_makes {url action : String} {body data : Markup}
    (h : Makes (api.request url action body) made (ret data)) :
    ∃ before p, made = before ++ [⟨.post p, .ok data⟩] ∧ p.url = url ∧
      (∃ messageId transaction created expires security,
        p.envelope = .soap url action body messageId transaction created expires security) ∧
      ∀ e ∈ before, NoOtherPost api.tokenUrl e.1 := by
  obtain ⟨messageId, _, rfl, h₁⟩ := h.call_ret
  obtain ⟨transaction, _, rfl, h₂⟩ := h₁.call_ret
  obtain ⟨clock, _, rfl, h₃⟩ := h₂.call_ret
  obtain ⟨envelope, henvelope, h₄⟩ := h₃.ofExcept_bind_ret
  obtain ⟨token, first, _, rfl, htoken, h₅⟩ := h₄.bind_ret
  obtain ⟨signed, hsigned, h₆⟩ := h₅.ofExcept_bind_ret
  obtain ⟨answer, _, rfl, h₇⟩ := h₆.call_ret
  obtain ⟨rfl, rfl⟩ := h₇.ofExcept_ret
  obtain ⟨created, expires, _, rfl⟩ := soapEnvelope_eq_ok henvelope
  obtain ⟨assertion, reference, signature, _, _, rfl⟩ := addToken_eq_ok hsigned
  refine ⟨⟨.uuid4, messageId⟩ :: ⟨.uuid4, transaction⟩ :: ⟨.now, clock⟩ :: first, _, rfl, rfl,
    ⟨_, _, _, _, _, rfl⟩, ?_⟩
  have hcalls := getToken_calls.makes htoken fun _ _ => trivial
  simpa [NoOtherPost] using hcalls

/-! ## What Klassifikation answers -/

def HasStatus (output code : String) (data : Element) : Prop :=
  ∃ leaf, data.find ["Body", output, "StandardRetur", "StatusKode"] = some leaf ∧
    HasText code.toList leaf

/-- The answer to a search that finds these UUIDs. Nothing found is no success. -/
inductive Lists (page : List UUID) (data : Element) : Prop
  | notFound (empty : page = []) (status : HasStatus "SoegOutput" "44" data)
  | success (status : HasStatus "SoegOutput" "20" data)
      (uuids : List.Forall₂ (fun uuid e => ∃ text, UuidText text uuid ∧ e.text = some text) page
        (data.findall idPath))

/-- The answer to a read of a Klasse, if there is one, is laid out as the Klasse. -/
inductive Holds (klasse : Option Klasse) (data : Element) : Prop
  | notFound (missing : klasse = none) (status : HasStatus "LaesOutput" "44" data)
  | success (k : Klasse) (present : klasse = some k) (status : HasStatus "LaesOutput" "20" data)
      (raw : Element) (output : data.find ["Body", "LaesOutput"] = some raw)
      (stripped : ∀ obj ∈ k.attributEgenskab, obj.Stripped) (rendered : RendersKlasse k raw)

/-- What Klassifikation has: what is registered since a time and matches the
filter, in some order, and the Klasser. -/
structure Holding where
  found : Int → Option Text → List UUID
  klasse : UUID → Option Klasse

/-- The answer to this request is right. -/
structure Holding.Answers (holding : Holding) (p : Post) (data : Markup) : Prop where
  search : ∀ q, p.Queries q →
    Lists (((holding.found q.since q.userKeyFilter).drop q.offset).take q.limit) data.toElement
  read : ∀ uuid, p.Reads uuid → Holds (holding.klasse uuid) data.toElement

/-- The answers to the requests from this one on are right, by what Klassifikation
has at each. -/
def Serves (service : Nat → Holding) (url : String) : Nat → History → Prop
  | _, [] => True
  | request, ⟨.post p, a⟩ :: made =>
    if p.url = url then
      (∀ data, a = .ok data → (service request).Answers p data) ∧
        Serves service url (request + 1) made
    else Serves service url request made
  | request, _ :: made => Serves service url request made

/-- Answers that are right at any time. -/
theorem serves_of_forall {holding : Holding} {url : String}
    (h : ∀ p data, ⟨.post p, .ok data⟩ ∈ made → p.url = url → holding.Answers p data)
    (request : Nat) : Serves (fun _ => holding) url request made := by
  induction made generalizing request with
  | nil => trivial
  | cons e made ih =>
    have hrest := ih fun p data hmem => h p data (List.mem_cons_of_mem _ hmem)
    obtain ⟨c, a⟩ := e
    cases c with
    | post p =>
      unfold Serves
      by_cases hurl : p.url = url
      · rw [if_pos hurl]
        refine ⟨fun data heq => ?_, hrest _⟩
        subst heq
        exact h p data List.mem_cons_self hurl
      · rw [if_neg hurl]
        exact hrest _
    | now | uuid4 | loadToken | storeToken => exact hrest request

theorem serviceUrl_ne_tokenUrl (api : FKKAPI) : api.serviceUrl ≠ api.tokenUrl := by
  unfold FKKAPI.serviceUrl FKKAPI.tokenUrl
  cases api.settings.environment <;> decide

theorem serves_post {service : Nat → Holding} {url : String} {request : Nat} {p : Post}
    {data : Markup} (hurl : p.url = url) :
    Serves service url request (⟨.post p, .ok data⟩ :: made) ↔
      (service request).Answers p data ∧ Serves service url (request + 1) made := by
  constructor
  · intro h
    obtain ⟨hanswer, hrest⟩ := (if_pos hurl).mp h
    exact ⟨hanswer data rfl, hrest⟩
  · rintro ⟨hanswer, hrest⟩
    refine (if_pos hurl).mpr ⟨fun data' heq => ?_, hrest⟩
    cases heq
    exact hanswer

/-- Requests for tokens do not count. -/
theorem serves_append {service : Nat → Holding} {request : Nat} {before made : History}
    (hbefore : ∀ e ∈ before, NoOtherPost api.tokenUrl e.1) :
    Serves service api.serviceUrl request (before ++ made) ↔
      Serves service api.serviceUrl request made := by
  induction before with
  | nil => rfl
  | cons e before ih =>
    have hrest := ih fun x hx => hbefore x (List.mem_cons_of_mem _ hx)
    obtain ⟨c, a⟩ := e
    cases c with
    | post p =>
      have hurl : p.url = api.tokenUrl := hbefore _ List.mem_cons_self
      have hne : p.url ≠ api.serviceUrl := hurl ▸ (serviceUrl_ne_tokenUrl api).symm
      rw [List.cons_append, Serves, if_neg hne, hrest]
    | now | uuid4 | loadToken | storeToken => exact hrest

theorem statusCode_hasStatus {output code : String} {data : Element}
    (h : HasStatus output code data) (htrimmed : Trimmed isSpace code.toList) {status : Int}
    (hcode : intOfText code.toList = .ok status) : statusCode output data = .ok status := by
  obtain ⟨leaf, hfind, htext⟩ := h
  rw [statusCode, findtext_hasText hfind htext htrimmed]
  simp [parsing, Except.mapError, hcode, failing]

theorem mapM_uuidOfElement {page : List UUID} {es : List Element}
    (h : List.Forall₂ (fun uuid e => ∃ text, UuidText text uuid ∧ e.text = some text) page es) :
    es.mapM uuidOfElement = .ok page := by
  induction h with
  | nil => rfl
  | @cons uuid e page es hhead _ ih =>
    obtain ⟨text, hread, htext⟩ := hhead
    have hfirst : uuidOfElement e = .ok uuid := by
      rw [uuidOfElement, htext]
      exact congrArg failing hread.parse
    rw [List.mapM_cons, hfirst, ok_bind, ih, ok_bind]
    rfl

/-- What is found is what the answer lists. -/
theorem foundUuids_lists {page : List UUID} {data : Element} (h : Lists page data) :
    foundUuids data = .ok page.dedup := by
  cases h with
  | notFound empty status =>
    have hstatus : statusCode "SoegOutput" data = .ok 44 :=
      statusCode_hasStatus status (Trimmed.of_all (by decide)) (by decide)
    simp [foundUuids, hstatus, empty]
  | success status uuids =>
    have hstatus : statusCode "SoegOutput" data = .ok 20 :=
      statusCode_hasStatus status (Trimmed.of_all (by decide)) (by decide)
    simp [foundUuids, hstatus, mapM_uuidOfElement uuids]

/-- What is made of the answer to a read. -/
def readAnswer (data : Element) : Except Failure (Option Klasse) := do
  match ← foundKlasse data with
  | none => return none
  | some raw => return some (← parsing (parseKlasse raw))

theorem read_eq (uuid : UUID) : api.read uuid = (do
    let body ← ofExcept (readBody uuid)
    let data ← api.request api.serviceUrl "http://kombit.dk/sts/klassifikation/klasse/laes" body
    ofExcept (readAnswer data.toElement)) := by
  unfold FKKAPI.read FKKAPI.readRaw
  simp only [bind_bind]
  refine congrArg _ (funext fun body => congrArg _ (funext fun data => ?_))
  unfold readAnswer
  cases foundKlasse data.toElement with
  | error e => rfl
  | ok found =>
    cases found with
    | none => rfl
    | some raw =>
      simp only [Prog.ofExcept_ok, ret_bind, ok_bind]
      cases parsing (parseKlasse raw) <;> rfl

theorem readAnswer_notFound {data : Element} (h : HasStatus "LaesOutput" "44" data) :
    readAnswer data = .ok none := by
  have hstatus : statusCode "LaesOutput" data = .ok 44 :=
    statusCode_hasStatus h (Trimmed.of_all (by decide)) (by decide)
  simp [readAnswer, foundKlasse, hstatus]

theorem readAnswer_success {data raw : Element} (h : HasStatus "LaesOutput" "20" data)
    (output : data.find ["Body", "LaesOutput"] = some raw) :
    readAnswer data = (parsing (parseKlasse raw)).map some := by
  have hstatus : statusCode "LaesOutput" data = .ok 20 :=
    statusCode_hasStatus h (Trimmed.of_all (by decide)) (by decide)
  have hfound : foundKlasse data = .ok (some raw) := by
    simp [foundKlasse, hstatus, find, output, parsing, Except.mapError]
  rw [readAnswer, hfound, ok_bind]
  dsimp only
  cases parsing (parseKlasse raw) <;> rfl

/-- What is read, if anything is, is what the answer holds. -/
theorem readAnswer_holds {klasse klasse' : Option Klasse} {data : Element} (h : Holds klasse data)
    (hread : readAnswer data = .ok klasse') : Option.Rel Klasse.Equals klasse' klasse := by
  cases h with
  | notFound missing status =>
    rw [readAnswer_notFound status] at hread
    obtain rfl := Except.ok.inj hread
    subst missing
    exact .none
  | success k present status raw output stripped rendered =>
    rw [readAnswer_success status output] at hread
    have hparse := parseKlasse_rendered stripped rendered
    cases hresult : parseKlasse raw with
    | error e =>
      rw [hresult] at hread
      cases e <;> cases hread
    | ok k' =>
      rw [hresult] at hread hparse
      obtain rfl := Except.ok.inj hread
      subst present
      exact .some hparse.2

/-! ## When all answer -/

/-- A request can use the token. -/
def Usable (token : Markup) : Prop :=
  (∃ assertion reference, Attached token assertion reference) ∧
    ∃ expires tz, expiration token = .ok expires ∧ expires.tz = some tz

/-- Everything is answered, and what Klassifikation has stays as it is. -/
structure Reliable {S : Type} (api : FKKAPI) (holding : Holding)
    (handle : (c : ApiCall) → S → ApiAnswer c × S) : Prop where
  clock : ∀ s, ∃ clock : Int, (handle .now s).1 = clock ∧ clock + 600000000 ≤ maxWall
  cached : ∀ s token, (handle .loadToken s).1 = some token → Usable token
  token : ∀ p s, p.url = api.tokenUrl → ∃ token, (handle (.post p) s).1 = .ok token ∧ Usable token
  answers : ∀ p s, p.url = api.serviceUrl → ∃ data, (handle (.post p) s).1 = .ok data ∧
    holding.Answers p data
  sign : ∀ e references keyInfo, ∃ signature, api.sign e references keyInfo = .ok signature

section
variable {S : Type} {holding : Holding} {handle : (c : ApiCall) → S → ApiAnswer c × S}

/-- By the clock, a request can be given its time. -/
theorem stamped_utcNow {clock : Int} (h : clock + 600000000 ≤ maxWall) :
    ∃ created expires, Stamped (EventGenerator.utcNow clock) created expires := by
  have hlater : tenMinutesAfter (EventGenerator.utcNow clock) =
      .ok (EventGenerator.utcNow (clock + 600000000)) := if_pos h
  exact ⟨_, _, ⟨rfl, _, hlater, rfl⟩⟩

theorem Reliable.fetchToken (h : Reliable api holding handle) :
    Returns handle Usable api.fetchToken := by
  refine Returns.call fun s => Returns.call fun s' => ?_
  obtain ⟨clock, hclock, hhi⟩ := h.clock s'
  obtain ⟨created, expires, hstamped⟩ := stamped_utcNow hhi
  rw [hclock]
  refine Returns.ofExcept_bind (hstamped.tokenEnvelope _ _ _) ?_
  have hsigned : ∃ signed, addSignature api.sign tokenReferences tokenKeyInfo
      (.tokenRequest api.tokenUrl api.certBase64 api.settings.authorityContextCvr
        (handle .uuid4 s).1 created expires []) = .ok signed := by
    obtain ⟨signature, hsignature⟩ := h.sign (.tokenRequest api.tokenUrl api.certBase64
      api.settings.authorityContextCvr (handle .uuid4 s).1 created expires [])
      tokenReferences tokenKeyInfo
    rw [addSignature, hsignature]
    exact ⟨_, rfl⟩
  obtain ⟨signed, hsigned⟩ := hsigned
  refine Returns.ofExcept_bind hsigned (Returns.call fun s'' => ?_)
  obtain ⟨token, htoken, husable⟩ := h.token (api.tokenPost signed) s'' rfl
  rw [htoken]
  exact Returns.ret husable

theorem Reliable.getToken (h : Reliable api holding handle) :
    Returns handle Usable api.getToken := by
  have renew : Returns handle Usable api.renewToken :=
    h.fetchToken.bind fun token husable => Returns.call fun s => Returns.ret husable
  refine Returns.call fun s => ?_
  cases hcached : (handle .loadToken s).1 with
  | none => exact renew
  | some token =>
    have husable := h.cached s token hcached
    obtain ⟨expires, tz, hexpires, htz⟩ := husable.2
    have hvalid : Returns handle (fun _ => True) (isTokenValid token) := by
      refine Returns.ofExcept_bind hexpires (Returns.call fun s => ?_)
      rw [htz]
      exact Returns.ret trivial
    refine hvalid.bind fun valid _ => ?_
    cases valid with
    | true => exact Returns.ret husable
    | false => exact renew

/-- A request for its body is answered. -/
theorem Reliable.request (h : Reliable api holding handle) (action : String) (body : Markup) :
    Returns handle (fun data => ∃ p s, p.url = api.serviceUrl ∧ (handle (.post p) s).1 = .ok data ∧
        ∃ messageId transaction created expires security, p.envelope =
          .soap api.serviceUrl action body messageId transaction created expires security)
      (api.request api.serviceUrl action body) := by
  refine Returns.call fun s₁ => Returns.call fun s₂ => Returns.call fun s₃ => ?_
  obtain ⟨clock, hclock, hhi⟩ := h.clock s₃
  obtain ⟨created, expires, hstamped⟩ := stamped_utcNow hhi
  rw [hclock]
  refine Returns.ofExcept_bind (hstamped.soapEnvelope _ _ _ _ _) (h.getToken.bind ?_)
  intro token husable
  obtain ⟨⟨assertion, reference, hattached⟩, _⟩ := husable
  obtain ⟨signature, hsigned⟩ := addToken_ok h.sign hattached api.serviceUrl action
    (handle .uuid4 s₁).1 (handle .uuid4 s₂).1 created expires
  refine Returns.ofExcept_bind hsigned (Returns.call fun s => ?_)
  obtain ⟨data, hdata, _⟩ := h.answers (soapPost api.serviceUrl action (.soap api.serviceUrl
    action body (handle .uuid4 s₁).1 (handle .uuid4 s₂).1 created expires
    [assertion, withReferenceId reference, signature])) s rfl
  rw [hdata]
  exact Returns.ret ⟨_, s, rfl, hdata, _, _, _, _, _, rfl⟩

/-- A search returns its page. -/
theorem Reliable.search_returns (h : Reliable api holding handle) {since : Datetime}
    (hutc : since.offset = 0) (hlo : 0 ≤ since.wall) (hhi : since.wall ≤ maxWall)
    (limit offset : Nat) :
    Returns handle (fun page => page = (((holding.found (since.instant - since.instant % 1000)
        api.settings.changedUuidsUserKeyFilter).drop offset).take limit).dedup)
      (api.search since limit offset) := by
  have hbody : ∃ body,
      searchBody since limit offset api.settings.changedUuidsUserKeyFilter = .ok body := by
    simp [searchBody_eq, formatTime, hutc, failing, Except.mapError]
  obtain ⟨body, hbody⟩ := hbody
  refine Returns.ofExcept_bind hbody ((h.request _ body).bind fun data hdata => ?_)
  obtain ⟨p, s, hurl, hposted, _, _, _, _, _, henvelope⟩ := hdata
  obtain ⟨data', hdata', hanswer⟩ := h.answers p s hurl
  obtain rfl := Except.ok.inj (hdata'.symm.trans hposted)
  have hlists := hanswer.search _ (queries_searchBody hlo hhi hbody henvelope)
  exact Returns.ofExcept_ret (foundUuids_lists hlists) rfl

/-- A read returns what is made of every answer to it. -/
theorem Reliable.read_returns (h : Reliable api holding handle) {uuid : UUID}
    {klasse : Option Klasse} (hread : ∀ p s data, p.url = api.serviceUrl → p.Reads uuid →
      (handle (.post p) s).1 = .ok data → readAnswer data.toElement = .ok klasse) :
    Returns handle (fun result => result = klasse) (api.read uuid) := by
  obtain ⟨body, hbody⟩ : ∃ body, readBody uuid = .ok body := ⟨_, rfl⟩
  rw [read_eq]
  refine Returns.ofExcept_bind hbody ((h.request _ body).bind fun data hdata => ?_)
  obtain ⟨p, s, hurl, hposted, _, _, _, _, _, henvelope⟩ := hdata
  exact Returns.ofExcept_ret (hread p s data hurl (reads_readBody hbody henvelope) hposted) rfl

/-- With enough requests left for the pages, and one to find none, the loop over
pages returns what is found. -/
theorem Reliable.getChangedUuids_from (h : Reliable api holding handle) {since : Datetime}
    (hutc : since.offset = 0) (hlo : 0 ≤ since.wall) (hhi : since.wall ≤ maxWall)
    {all : List UUID} (hall : holding.found (since.instant - since.instant % 1000)
      api.settings.changedUuidsUserKeyFilter = all) {fuel offset : Nat} {changed : List UUID}
    (hfuel : 0 < fuel) (hpages : all.length + EventGenerator.pageLimit ≤
      offset + fuel * EventGenerator.pageLimit)
    (hchanged : ∀ uuid, uuid ∈ changed ↔ uuid ∈ all.take offset) :
    Returns handle (fun result => ∃ uuids, result = some uuids ∧ ∀ uuid, uuid ∈ uuids ↔ uuid ∈ all)
      (api.getChangedUuids since fuel offset changed) := by
  induction fuel generalizing offset changed with
  | zero => exact absurd hfuel (Nat.lt_irrefl 0)
  | succ fuel ih =>
    refine (h.search_returns hutc hlo hhi EventGenerator.pageLimit offset).bind fun page hpage => ?_
    rw [hall] at hpage
    by_cases hempty : page = []
    · rw [if_pos hempty]
      have htake : all.take offset = all :=
        EventGenerator.take_of_search_nil (hpage.symm.trans hempty)
      rw [htake] at hchanged
      exact Returns.ret ⟨changed, rfl, hchanged⟩
    · rw [if_neg hempty]
      have hoffset : offset < all.length := by
        by_contra hend
        rw [List.drop_eq_nil_iff.mpr (not_lt.mp hend), List.take_nil, List.dedup_nil] at hpage
        exact hempty hpage
      rw [Nat.succ_mul] at hpages
      have hrest : 0 < fuel := by
        rcases Nat.eq_zero_or_pos fuel with rfl | hpos
        · omega
        · exact hpos
      refine ih hrest (by omega) fun uuid => ?_
      rw [List.mem_union_iff, hchanged, hpage]
      exact EventGenerator.mem_take_add.symm

end

/-! ## A service -/

open Tokens (testApi tokenAnswer)

/-- The page that the envelope asks for, of these. -/
def Post.page (all : List UUID) (p : Post) : List UUID :=
  match (p.textAt ["SoegInput", "FoersteResultatReference"]).map intOfText,
    (p.textAt ["SoegInput", "MaksimalAntalKvantitet"]).map intOfText with
  | some (.ok offset), some (.ok limit) => (all.drop offset.toNat).take limit.toNat
  | _, _ => []

theorem Post.Queries.page {all : List UUID} {p : Post} {q : Query} (h : p.Queries q) :
    p.page all = (all.drop q.offset).take q.limit := by
  obtain ⟨offset, hoffset, hreadOffset⟩ := h.offset
  obtain ⟨limit, hlimit, hreadLimit⟩ := h.limit
  simp [Post.page, hoffset, hlimit, hreadOffset, hreadLimit]

/-- The Klasse that the envelope asks for. -/
def Post.uuid (p : Post) : UUID :=
  match (p.textAt ["LaesInput", "UUIDIdentifikator"]).map uuidOfText with
  | some (.ok uuid) => uuid
  | _ => 0

theorem Post.Reads.uuid {p : Post} {uuid : UUID} (h : p.Reads uuid) : p.uuid = uuid := by
  obtain ⟨text, htext, hread⟩ := h
  simp [Post.uuid, htext, hread]

def uuidLeaf (uuid : UUID) : Markup := .filled "UUIDIdentifikator" [] (uuidText uuid)

def success : Markup :=
  .element "StandardRetur" [] [.leaf "StatusKode" [] "\n20\n"]

def searchOutput (page : List UUID) : Markup :=
  .element "SoegOutput" [] [success, .element "IdListe" [] (page.map uuidLeaf)]

mutual
/-- An element without attributes. -/
def Markup.ofElement : Element → Markup
  | .element tag text children => ⟨tag, ⟨[], text⟩, Markup.ofElements children⟩

def Markup.ofElements : List Element → Forest String Content
  | [] => .nil
  | e :: rest =>
    let ⟨name, content, children⟩ := Markup.ofElement e
    .cons name content children (Markup.ofElements rest)
end

/-- Any Klasse is published since June 2014. -/
def openSince (uuid : UUID) : Klasse := { openKlasse with uuid := uuid }

def readOutput (uuid : UUID) : Markup :=
  .element "LaesOutput" [] [success,
    .element "FiltreretOejebliksbillede" [] [
      .element "ObjektID" [] [uuidLeaf uuid],
      .ofElement (registreringElement (booleanText true))]]

/-- An answer with both outputs, whichever is asked for. -/
def outputs (page : List UUID) (uuid : UUID) : Markup :=
  .element "Envelope" [] [
    .element "Body" [] [searchOutput page, readOutput uuid]]

theorem toElements_ofList (es : List Markup) :
    Markup.toElements (ofList es) = es.map Markup.toElement := by
  induction es with
  | nil => rfl
  | cons e es ih => simp [ofList, Markup.toElements, Markup.toElement, ih]

theorem findall_outputs (page : List UUID) (uuid : UUID) :
    (outputs page uuid).toElement.findall idPath = page.map fun u => (uuidLeaf u).toElement := by
  have hbody : (outputs page uuid).toElement.Only "Body"
    (Markup.element "Body" [] [searchOutput page, readOutput uuid]).toElement := rfl
  have houtput : (Markup.element "Body" [] [searchOutput page, readOutput uuid]).toElement.Only
    "SoegOutput" (searchOutput page).toElement := rfl
  have hlist : (searchOutput page).toElement.Only "IdListe"
    (Markup.element "IdListe" [] (page.map uuidLeaf)).toElement := rfl
  rw [idPath, hbody.findall, houtput.findall, hlist.findall, Element.findall_single]
  have hchildren : (Markup.element "IdListe" [] (page.map uuidLeaf)).toElement.children =
      page.map fun u => (uuidLeaf u).toElement :=
    (toElements_ofList _).trans (List.map_map ..)
  rw [Element.named, hchildren]
  apply List.filter_eq_self.mpr
  intro e he
  obtain ⟨u, _, rfl⟩ := List.mem_map.mp he
  rfl

theorem lists_outputs (page : List UUID) (uuid : UUID) :
    Lists page (outputs page uuid).toElement := by
  refine .success ⟨_, rfl, "\n20\n".toList, rfl, ['\n'], ['\n'], rfl, rfl, rfl⟩ ?_
  rw [findall_outputs, List.forall₂_map_right_iff, List.forall₂_same]
  exact fun u _ => ⟨uuidText u, uuidText_spec u, rfl⟩

theorem renders_readOutput (uuid : UUID) :
    RendersKlasse (openSince uuid) (readOutput uuid).toElement := by
  refine ⟨_, rfl, ⟨_, rfl, _, rfl, _, uuidText_spec uuid, _, rfl, Padded.refl _⟩, ⟨_, rfl, ?_⟩⟩
  have hregistrering := renders_registreringElement (Padded.refl (booleanText true))
  exact ⟨hregistrering.attributEgenskab, hregistrering.tilstandPubliceret,
    hregistrering.relationOverordnet⟩

theorem holds_outputs (page : List UUID) (uuid : UUID) :
    Holds (some (openSince uuid)) (outputs page uuid).toElement :=
  .success _ rfl ⟨_, rfl, "\n20\n".toList, rfl, ['\n'], ['\n'], rfl, rfl, rfl⟩
    (readOutput uuid).toElement rfl stripped_openKlasse (renders_readOutput uuid)

theorem readAnswer_outputs (page : List UUID) (uuid : UUID) :
    readAnswer (outputs page uuid).toElement = .ok (some (openSince uuid)) := by
  have htext : findtext (readOutput uuid).toElement
      ["FiltreretOejebliksbillede", "ObjektID", "UUIDIdentifikator"] = .ok (uuidText uuid) :=
    findtext_hasText (show _ = some (uuidLeaf uuid).toElement from rfl) ⟨_, rfl, Padded.refl _⟩
      (uuidText_spec uuid).trimmed
  have hparse : parseKlasse (readOutput uuid).toElement = .ok (openSince uuid) := by
    rw [parseKlasse, htext, ok_bind, (uuidText_spec uuid).parse]
    rfl
  rw [@readAnswer_success _ (readOutput uuid).toElement
    ⟨_, rfl, "\n20\n".toList, rfl, ['\n'], ['\n'], rfl, rfl, rfl⟩ rfl, hparse]
  rfl

/-- The clock stands still, the token service always has a token and nothing is
cached. -/
def answering (api : FKKAPI) (clock : Int) (all : List UUID) :
    (c : ApiCall) → Unit → ApiAnswer c × Unit
  | .now, s => (clock, s)
  | .uuid4, s => ((0 : UUID), s)
  | .loadToken, s => (none, s)
  | .storeToken _, s => ((), s)
  | .post p, s =>
    (.ok (if p.url = api.tokenUrl then tokenAnswer else outputs (p.page all) p.uuid), s)

/-- These UUIDs are listed, and any Klasse can be read. -/
def listed (all : List UUID) : Holding := ⟨fun _ _ => all, fun uuid => some (openSince uuid)⟩

theorem answers_outputs (all : List UUID) (p : Post) :
    (listed all).Answers p (outputs (p.page all) p.uuid) where
  search _ hq := hq.page ▸ lists_outputs _ _
  read _ hr := hr.uuid ▸ holds_outputs _ _

theorem answering_post {clock : Int} {all : List UUID} {p : Post} (hurl : p.url = api.serviceUrl)
    (s : Unit) : (answering api clock all (.post p) s).1 = .ok (outputs (p.page all) p.uuid) := by
  have hne : p.url ≠ api.tokenUrl := hurl ▸ serviceUrl_ne_tokenUrl api
  exact congrArg Except.ok (if_neg hne)

theorem reliable_answering
    (hsign : ∀ e references keyInfo, ∃ signature, api.sign e references keyInfo = .ok signature)
    {clock : Int} (hclock : clock + 600000000 ≤ maxWall) (all : List UUID) :
    Reliable api (listed all) (answering api clock all) where
  clock s := ⟨clock, rfl, hclock⟩
  cached s token h := by cases h
  token p s hurl := ⟨tokenAnswer, congrArg Except.ok (if_pos hurl), ⟨_, _, _, rfl, rfl⟩, _, _,
    rfl, rfl⟩
  answers p s hurl := ⟨_, answering_post hurl s, answers_outputs all p⟩
  sign := hsign

/-- What the test client is answered at the first moment. -/
theorem reliable_first (all : List UUID) :
    Reliable testApi (listed all) (answering testApi 0 all) :=
  reliable_answering (fun _ _ _ => ⟨_, rfl⟩) (by decide) all

theorem serves_answering {clock : Int} {all : List UUID}
    (h : ∀ e ∈ made, ∃ s, e.2 = (answering api clock all e.1 s).1) (request : Nat) :
    Serves (fun _ => listed all) api.serviceUrl request made := by
  refine serves_of_forall (fun p data hmem hurl => ?_) request
  obtain ⟨s, hdata⟩ := h _ hmem
  obtain rfl := Except.ok.inj (hdata.trans (answering_post hurl s))
  exact answers_outputs all p

/-! ## What a call returns -/

/-- A search makes one request to Klassifikation, which asks for the page, and
returns what is found in the answer. -/
theorem search_posts {since : Datetime} {limit offset : Nat} {page : List UUID}
    (hlo : 0 ≤ since.wall) (hhi : since.wall ≤ maxWall)
    (h : Makes (api.search since limit offset) made (ret page)) :
    ∃ before p data, made = before ++ [⟨.post p, .ok data⟩] ∧ p.url = api.serviceUrl ∧
      p.Queries ⟨offset, limit, since.instant - since.instant % 1000,
        api.settings.changedUuidsUserKeyFilter⟩ ∧
      foundUuids data.toElement = .ok page ∧ ∀ e ∈ before, NoOtherPost api.tokenUrl e.1 := by
  obtain ⟨body, hbody, h₁⟩ := h.ofExcept_bind_ret
  obtain ⟨data, _, rest, rfl, hrequest, h₂⟩ := h₁.bind_ret
  obtain ⟨hpage, rfl⟩ := h₂.ofExcept_ret
  obtain ⟨before, p, rfl, hurl, ⟨_, _, _, _, _, henvelope⟩, hbefore⟩ := request_makes hrequest
  exact ⟨before, p, data, List.append_nil _, hurl, queries_searchBody hlo hhi hbody henvelope,
    hpage, hbefore⟩

/-- When Klassifikation answers right, that is the page. -/
theorem search_makes {service : Nat → Holding} {since : Datetime} {limit offset request : Nat}
    {page : List UUID} {later : History} (hlo : 0 ≤ since.wall) (hhi : since.wall ≤ maxWall)
    (h : Makes (api.search since limit offset) made (ret page))
    (hserves : Serves service api.serviceUrl request (made ++ later)) :
    page = ((((service request).found (since.instant - since.instant % 1000)
        api.settings.changedUuidsUserKeyFilter).drop offset).take limit).dedup ∧
      Serves service api.serviceUrl (request + 1) later := by
  obtain ⟨before, p, data, rfl, hurl, hqueries, hpage, hbefore⟩ := search_posts hlo hhi h
  simp only [List.append_assoc, List.cons_append, List.nil_append] at hserves
  rw [serves_append hbefore, serves_post hurl] at hserves
  obtain ⟨hanswer, hlater⟩ := hserves
  rw [foundUuids_lists (hanswer.search _ hqueries)] at hpage
  exact ⟨(Except.ok.inj hpage).symm, hlater⟩

theorem getChangedUuids_makes {service : Nat → Holding} {since : Datetime} (hlo : 0 ≤ since.wall)
    (hhi : since.wall ≤ maxWall) {fuel request : Nat} {changed result : List UUID}
    (h : Makes (api.getChangedUuids since fuel (request * EventGenerator.pageLimit) changed) made
      (ret (some result)))
    (hserves : Serves service api.serviceUrl request made) :
    EventGenerator.getChangedUuids (fun i => (service i).found
        (since.instant - since.instant % 1000) api.settings.changedUuidsUserKeyFilter)
      fuel request changed = some result := by
  induction fuel generalizing request changed made with
  | zero => cases h
  | succ fuel ih =>
    obtain ⟨page, first, rest, rfl, hsearch, h₁⟩ := h.bind_ret
    obtain ⟨hpage, hrest⟩ := search_makes hlo hhi hsearch hserves
    rw [EventGenerator.getChangedUuids, EventGenerator.search, ← hpage]
    by_cases hempty : page = []
    · rw [if_pos hempty] at h₁ ⊢
      cases h₁
      rfl
    · rw [if_neg hempty] at h₁ ⊢
      rw [← Nat.succ_mul] at h₁
      exact ih h₁ hrest

/-- Asking for one page after another, `get_changed_uuids` returns what the loop
over pages makes of what Klassifikation has at each request, whatever happens to
the tokens meanwhile. -/
theorem changed_uuids_refine_paging {service : Nat → Holding} {since : Datetime}
    (hlo : 0 ≤ since.wall) (hhi : since.wall ≤ maxWall) {fuel : Nat} {result : List UUID}
    (h : Makes (api.getChangedUuids since fuel 0 []) made (ret (some result)))
    (hserves : Serves service api.serviceUrl 0 made) :
    EventGenerator.getChangedUuids (fun i => (service i).found
        (since.instant - since.instant % 1000) api.settings.changedUuidsUserKeyFilter)
      fuel 0 [] = some result := by
  rw [← Nat.zero_mul EventGenerator.pageLimit] at h
  exact getChangedUuids_makes hlo hhi h hserves

theorem changed_uuids_refine_paging_pair :
    ∃ made result,
      Makes (testApi.getChangedUuids EventGenerator.datetimeMin 2 0 []) made (ret (some result)) ∧
        EventGenerator.getChangedUuids (fun _ => [7, 8]) 2 0 [] = some result := by
  have hreturns : Returns (answering testApi 0 [7, 8])
      (fun result => ∃ uuids, result = some uuids ∧ ∀ uuid, uuid ∈ uuids ↔ uuid ∈ [7, 8])
      (testApi.getChangedUuids EventGenerator.datetimeMin 2 0 []) :=
    (reliable_first [7, 8]).getChangedUuids_from rfl (by decide) (by decide) rfl
      (by decide) (by decide) (by simp)
  obtain ⟨_, _, _, hrun, result, rfl, _⟩ := hreturns ()
  obtain ⟨made, hmade, hanswers⟩ := makes_of_run hrun
  exact ⟨made, result, hmade, changed_uuids_refine_paging (by decide) (by decide) hmade
    (serves_answering hanswers 0)⟩

/-- However it gets its token, what `read` returns is equal to the Klasse that
Klassifikation has. -/
theorem read_returns_held {service : Nat → Holding} {uuid : UUID} {request : Nat}
    {klasse : Option Klasse} (h : Makes (api.read uuid) made (ret klasse))
    (hserves : Serves service api.serviceUrl request made) :
    Option.Rel Klasse.Equals klasse ((service request).klasse uuid) := by
  rw [read_eq] at h
  obtain ⟨body, hbody, h₁⟩ := h.ofExcept_bind_ret
  obtain ⟨data, _, last, rfl, hrequest, h₂⟩ := h₁.bind_ret
  obtain ⟨hread, rfl⟩ := h₂.ofExcept_ret
  obtain ⟨before, p, rfl, hurl, ⟨_, _, _, _, _, henvelope⟩, hbefore⟩ := request_makes hrequest
  simp only [List.append_nil] at hserves
  rw [serves_append hbefore, serves_post hurl] at hserves
  exact readAnswer_holds (hserves.1.read uuid (reads_readBody hbody henvelope)) hread

theorem read_returns_held_openSince :
    ∃ made klasse, Makes (testApi.read 7) made (ret (some klasse)) ∧
      Option.Rel Klasse.Equals (some klasse) (some (openSince 7)) := by
  have hreturns : Returns (answering testApi 0 []) (fun result => result = some (openSince 7))
      (testApi.read 7) := by
    refine (reliable_first []).read_returns fun p s data hurl hreads hdata => ?_
    obtain rfl := Except.ok.inj (hdata.symm.trans (answering_post hurl s))
    rw [hreads.uuid, readAnswer_outputs]
  obtain ⟨_, _, _, hrun, rfl⟩ := hreturns ()
  obtain ⟨made, hmade, hanswers⟩ := makes_of_run hrun
  exact ⟨made, _, hmade, read_returns_held hmade (serves_answering hanswers 0)⟩

/-- When everything is answered, `get_changed_uuids` needs at most two requests
more than there are full pages, and returns what is found. -/
theorem changed_uuids_returned {S : Type} {holding : Holding}
    {handle : (c : ApiCall) → S → ApiAnswer c × S} (h : Reliable api holding handle)
    {since : Datetime} (hutc : since.offset = 0) (hlo : 0 ≤ since.wall) (hhi : since.wall ≤ maxWall)
    {all : List UUID} (hall : holding.found (since.instant - since.instant % 1000)
      api.settings.changedUuidsUserKeyFilter = all) (s : S) :
    ∃ uuids s' calls,
      (api.getChangedUuids since (all.length / EventGenerator.pageLimit + 2) 0 []).run handle s =
        (.ok (some uuids), s', calls) ∧ ∀ uuid, uuid ∈ uuids ↔ uuid ∈ all := by
  have hpages : all.length + EventGenerator.pageLimit ≤
      0 + (all.length / EventGenerator.pageLimit + 2) * EventGenerator.pageLimit := by
    unfold EventGenerator.pageLimit
    omega
  have hnone : ∀ uuid, uuid ∈ ([] : List UUID) ↔ uuid ∈ all.take 0 := by simp
  obtain ⟨_, s', calls, hrun, uuids, rfl, huuids⟩ :=
    h.getChangedUuids_from hutc hlo hhi hall (Nat.succ_pos _) hpages hnone s
  exact ⟨uuids, s', calls, hrun, huuids⟩

theorem changed_uuids_returned_pair :
    ∃ uuids s' calls, (testApi.getChangedUuids EventGenerator.datetimeMin 2 0 []).run
      (answering testApi 0 [7, 8]) () = (.ok (some uuids), s', calls) ∧
        ∀ uuid, uuid ∈ uuids ↔ uuid ∈ ([7, 8] : List UUID) :=
  changed_uuids_returned (reliable_first [7, 8]) rfl (by decide) (by decide) rfl ()

end Os2moFkk
