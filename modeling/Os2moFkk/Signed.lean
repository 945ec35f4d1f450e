import Os2moFkk.Wire

/-!
# What is signed is what is sent

A signature refers to elements by their `Id`s, and is added to the envelope when
it has been made. Each reference has to lead to one element then, and to the same
element in what is sent.
-/

namespace Os2moFkk
open Itertools Forest Xml Prog

/-! ## Elements by their Id -/

/-- An attribute `Id`, with any prefix. -/
def isId (name : String) : Bool := ":Id".toList.isSuffixOf (':' :: name.toList)

def Content.hasId (id : String) (c : Content) : Bool :=
  c.attributes.any fun a => isId a.1 && a.2 == id

namespace Markup

/-- The elements that `#id` refers to. -/
def byId (id : String) (e : Markup) : List Markup := (single e).select fun u => u.content.hasId id

/-- No element has one of these `Id`s. -/
def Free (ids : List String) (e : Markup) : Prop := ∀ id ∈ ids, e.byId id = []

theorem byId_eq (id : String) (e : Markup) : e.byId id =
    (if e.content.hasId id then [e] else []) ++ e.children.select fun u => u.content.hasId id :=
  List.append_nil _

theorem byId_element (id tag : String) (attributes : List (String × String))
    (children : List Markup) : byId id (element tag attributes children) =
      (if Content.hasId id ⟨attributes, none⟩ then [element tag attributes children] else []) ++
        children.flatMap (byId id) := by
  rw [byId_eq, element, select_ofList]
  rfl

theorem byId_filled (id tag : String) (attributes : List (String × String)) (text : Text) :
    byId id (filled tag attributes text) =
      if Content.hasId id ⟨attributes, some text⟩ then [filled tag attributes text] else [] :=
  (byId_eq ..).trans (List.append_nil _)

theorem byId_leaf (id tag : String) (attributes : List (String × String)) (text : String) :
    byId id (leaf tag attributes text) = byId id (filled tag attributes text.toList) := rfl

end Markup

/-! ## References -/

/-- A signature has none of the `Id`s that it refers to, unless they are in the
`KeyInfo` that it was made with. -/
def Plain (sign : Signer) : Prop :=
  ∀ e references keyInfo signature, sign e references keyInfo = .ok signature →
    keyInfo.Free references → signature.Free references

/-- The envelope has been signed, each reference leads to one element, and the
same is in the envelope with the signature. -/
def SignedAsSent (sign : Signer) (references : List String) (sent : Markup) : Prop :=
  ∃ e keyInfo signature, sign e references keyInfo = .ok signature ∧
    appendTo securityPath signature e = .ok sent ∧
    ∀ id ∈ references, ∃ part, e.byId id = [part] ∧ sent.byId id = [part]

theorem tokenReferences_subset : tokenReferences ⊆ soapReferences := by decide

@[simp] theorem isId_id : isId "u:Id" = true := by decide

@[simp] theorem isId_mustUnderstand : isId "s:mustUnderstand" = false := by decide

section
variable {url action : String} {body : Markup} {messageId transaction : UUID}
  {certBase64 cvr created expires : Text}

/-- Each of these is in a request to Klassifikation once, if nothing else under
Security or in the body has its `Id`. -/
theorem byId_soap (hbody : body.Free soapReferences) {id : String} (hid : id ∈ tokenReferences) :
    ∃ part, ∀ security, security.flatMap (Markup.byId id) = [] →
      (Markup.soap url action body messageId transaction created expires security).byId id =
        [part] := by
  have hfree : body.byId id = [] := hbody id (tokenReferences_subset hid)
  simp only [tokenReferences, List.mem_cons, List.not_mem_nil, or_false] at hid
  rcases hid with rfl | rfl | rfl | rfl | rfl
  all_goals
    apply Exists.intro
    intro security hsecurity
    simp [Markup.soap, Markup.filledTimestamp, Markup.byId_element, Markup.byId_filled,
      Content.hasId, hfree, hsecurity]
    rfl

theorem byId_soap_reference (hbody : body.Free soapReferences) (security : List Markup) :
    (Markup.soap url action body messageId transaction created expires security).byId
        "token-reference" = security.flatMap (Markup.byId "token-reference") := by
  have hfree := hbody "token-reference" (by decide)
  simp [Markup.soap, Markup.filledTimestamp, Markup.byId_element, Markup.byId_filled,
    Content.hasId, hfree]

theorem byId_certificate (id id' : String) :
    (Markup.setText certBase64 (binarySecurityToken id')).byId id =
      if id' = id then [Markup.setText certBase64 (binarySecurityToken id')] else [] := by
  rw [Markup.byId_eq]
  simp +decide [Markup.setText, binarySecurityToken, Markup.element, Content.hasId, ofList, select]

theorem byId_tokenRequest {id : String} (hid : id ∈ tokenReferences) :
    ∃ part, ∀ security, security.flatMap (Markup.byId id) = [] →
      (Markup.tokenRequest url certBase64 cvr messageId created expires security).byId id =
        [part] := by
  simp only [tokenReferences, List.mem_cons, List.not_mem_nil, or_false] at hid
  rcases hid with rfl | rfl | rfl | rfl | rfl
  all_goals
    apply Exists.intro
    intro security hsecurity
    simp +decide [Markup.tokenRequest, Markup.filledTimestamp, Markup.byId_element,
      Markup.byId_filled, Markup.byId_leaf, byId_certificate, Content.hasId, hsecurity]
    rfl

theorem appendTo_security_tokenRequest (security : List Markup) (child : Markup) :
    appendTo securityPath child
        (.tokenRequest url certBase64 cvr messageId created expires security) =
      .ok (.tokenRequest url certBase64 cvr messageId created expires (security ++ [child])) := by
  simp only [Markup.tokenRequest, Markup.element, ofList, ofList_concat]
  rfl

end

/-! ## The reference with an Id of its own -/

theorem Markup.Free.content {ids : List String} {e : Markup} (h : e.Free ids) {id : String}
    (hid : id ∈ ids) : e.content.hasId id = false := by
  have hnone := h id hid
  rw [Markup.byId_eq, List.append_eq_nil_iff] at hnone
  simpa using hnone.1

theorem Markup.Free.children {ids : List String} {e : Markup} (h : e.Free ids) {id : String}
    (hid : id ∈ ids) : (e.children.select fun u => u.content.hasId id) = [] := by
  have hnone := h id hid
  rw [Markup.byId_eq, List.append_eq_nil_iff] at hnone
  exact hnone.2

theorem hasId_set {c : Content} {id value : String} (h : c.hasId id = false) :
    (c.set "u:Id" value).hasId id = (value == id) := by
  have hothers : ∀ a ∈ c.attributes, isId a.1 = true → a.2 ≠ id := by
    simpa [Content.hasId] using h
  rw [Bool.eq_iff_iff, beq_iff_eq]
  unfold Content.set
  split
  · rename_i hset
    simp only [Content.hasId, List.any_map, List.any_eq_true, Function.comp_apply,
      Bool.and_eq_true, beq_iff_eq]
    constructor
    · rintro ⟨a, ha, hid, hvalue⟩
      by_cases hname : a.1 = "u:Id"
      · simpa [hname] using hvalue
      · rw [if_neg hname] at hid hvalue
        exact absurd hvalue (hothers a ha hid)
    · rintro rfl
      obtain ⟨a, ha, hname⟩ := List.any_eq_true.mp hset
      exact ⟨a, ha, by simp [of_decide_eq_true hname]⟩
  · simp only [Content.hasId, List.any_append, List.any_cons, List.any_nil, isId_id]
    rw [List.any_eq_false.mpr (by simpa using hothers)]
    simp

theorem byId_withReferenceId {reference : Markup} (h : reference.Free soapReferences) {id : String}
    (hid : id ∈ soapReferences) : (withReferenceId reference).byId id =
      if id = "token-reference" then [withReferenceId reference] else [] := by
  have hcontent : (withReferenceId reference).content.hasId id = ("token-reference" == id) :=
    hasId_set (h.content hid)
  have hchildren : ((withReferenceId reference).children.select fun u => u.content.hasId id) = [] :=
    h.children hid
  rw [Markup.byId_eq, hcontent, hchildren, List.append_nil]
  by_cases heq : id = "token-reference"
  · rw [if_pos heq, if_pos (beq_iff_eq.mpr heq.symm)]
  · rw [if_neg heq, if_neg fun hbeq => heq (beq_iff_eq.mp hbeq).symm]

/-! ## What requests post -/

/-- A request takes nothing from the token that has one of these `Id`s. -/
def Clean (token : Markup) : Prop :=
  ∀ assertion reference, Attached token assertion reference →
    assertion.Free soapReferences ∧ reference.Free soapReferences

variable {api : FKKAPI} {made : History}

/-- What is posted is signed, if the tokens that the request may trust are clean. -/
def PostsSigned (api : FKKAPI) (made : History) : ApiCall → Prop
  | .post p =>
    (p.url = api.tokenUrl ∧ SignedAsSent api.sign tokenReferences p.envelope) ∨
      p.url = api.serviceUrl ∧ ((∀ token, Trusted api.tokenUrl made token → Clean token) →
        SignedAsSent api.sign soapReferences p.envelope)
  | _ => True

theorem tokenEnvelope_eq_ok {settings : FKKSettings} {certBase64 : Text} {messageId : UUID}
    {now : Datetime} {e : Markup} (h : tokenEnvelope settings certBase64 messageId now = .ok e) :
    ∃ created expires, e = .tokenRequest settings.environment.tokenUrl certBase64
      settings.authorityContextCvr messageId created expires [] := by
  rw [tokenEnvelope_eq] at h
  simp only [bind_eq_ok] at h
  obtain ⟨created, _, _, _, expires, _, he⟩ := h
  exact ⟨created, expires, (Except.ok.inj he).symm⟩

theorem free_tokenKeyInfo : tokenKeyInfo.Free tokenReferences := by
  unfold Markup.Free
  decide

theorem fetchToken_signed (hsign : Plain api.sign) :
    Justified (PostsSigned api) (fun _ _ => True) made api.fetchToken := by
  refine ⟨trivial, fun (messageId : UUID) => ⟨trivial, fun (clock : Int) => ?_⟩⟩
  apply Justified.ofExcept_bind
  intro envelope henvelope
  obtain ⟨created, expires, rfl⟩ := tokenEnvelope_eq_ok henvelope
  apply Justified.ofExcept_bind
  intro signed hsigned
  refine ⟨Or.inl ⟨rfl, ?_⟩, fun answer => by cases answer <;> trivial⟩
  obtain ⟨signature, hsignature, hsent⟩ := bind_eq_ok.mp hsigned
  refine ⟨_, tokenKeyInfo, signature, hsignature, hsent, fun id hid => ?_⟩
  rw [appendTo_security_tokenRequest] at hsent
  obtain rfl := Except.ok.inj hsent
  have hfree : signature.byId id = [] := hsign _ _ _ _ hsignature free_tokenKeyInfo id hid
  obtain ⟨part, hpart⟩ := byId_tokenRequest hid
  exact ⟨part, hpart [] rfl, hpart [signature] (by simp [hfree])⟩

theorem getToken_signed (hsign : Plain api.sign) :
    Justified (PostsSigned api) (fun _ _ => True) made api.getToken := by
  have renew : ∀ made, Justified (PostsSigned api) (fun _ _ => True) made api.renewToken :=
    fun made => (fetchToken_signed hsign).bind fun made token _ => ⟨trivial, fun _ => trivial⟩
  refine ⟨trivial, fun cached => ?_⟩
  cases cached with
  | none => exact renew _
  | some token =>
    have hvalid : ∀ made,
        Justified (PostsSigned api) (fun _ _ => True) made (isTokenValid token) := by
      intro made
      apply Justified.ofExcept_bind
      intro expires _
      refine ⟨trivial, fun clock => ?_⟩
      cases htz : expires.tz <;> trivial
    refine (hvalid _).bind fun made valid _ => ?_
    cases valid with
    | true => trivial
    | false => exact renew made

theorem request_signed (hsign : Plain api.sign) {action : String} {body : Markup}
    (hbody : body.Free soapReferences) :
    Justified (PostsSigned api) (fun _ _ => True) made
      (api.request api.serviceUrl action body) := by
  refine ⟨trivial, fun (messageId : UUID) => ⟨trivial, fun (transaction : UUID) =>
    ⟨trivial, fun (clock : Int) => ?_⟩⟩⟩
  apply Justified.ofExcept_bind
  intro envelope henvelope
  obtain ⟨created, expires, _, rfl⟩ := soapEnvelope_eq_ok henvelope
  have htoken : ∀ made, Justified (PostsSigned api) (Trusted api.tokenUrl) made api.getToken :=
    fun made => getToken_reasonable.returning (getToken_signed hsign)
  refine (htoken _).bind fun made token htrusted => ?_
  apply Justified.ofExcept_bind
  intro signed hsigned
  obtain ⟨assertion, reference, signature, hattached, hsignature, rfl⟩ := addToken_eq_ok hsigned
  refine ⟨Or.inr ⟨rfl, fun hclean => ?_⟩, fun answer => by cases answer <;> trivial⟩
  obtain ⟨hassertion, hreference⟩ := hclean token htrusted assertion reference hattached
  have hkeyInfo : (Markup.element "KeyInfo" [] [reference]).Free soapReferences := by
    intro id hid
    simp [Markup.byId_element, Content.hasId, hreference id hid]
  have hsignature' := hsign _ _ _ _ hsignature hkeyInfo
  refine ⟨_, _, signature, hsignature, appendTo_security .., fun id hid => ?_⟩
  by_cases heq : id = "token-reference"
  · subst heq
    refine ⟨withReferenceId reference, ?_, ?_⟩ <;>
      simp [soapPost, byId_soap_reference hbody, hassertion _ hid, hsignature' _ hid,
        byId_withReferenceId hreference hid]
  · have hother : id ∈ tokenReferences := by
      simpa [soapReferences, tokenReferences, heq] using hid
    obtain ⟨part, hpart⟩ := byId_soap hbody hother
    refine ⟨part, hpart _ ?_, hpart _ ?_⟩ <;>
      simp [hassertion _ hid, hsignature' _ hid, byId_withReferenceId hreference hid, heq]

/-- What is posted to the token service is signed. -/
def TokenSigned (api : FKKAPI) : ApiCall → Prop
  | .post p => p.url = api.tokenUrl → SignedAsSent api.sign tokenReferences p.envelope
  | _ => True

theorem getToken_tokenSigned (hsign : Plain api.sign) :
    Justified (fun _ => TokenSigned api) (fun _ _ => True) made api.getToken := by
  refine (getToken_signed hsign).weaken fun made c h => ?_
  cases c with
  | post p =>
    intro hurl
    refine (h.resolve_right fun hservice => ?_).2
    exact serviceUrl_ne_tokenUrl api (hservice.1.symm.trans hurl)
  | now | uuid4 | loadToken | storeToken => trivial

/-- Whatever a request asks of another service, it asks for tokens as it should. -/
theorem request_tokenSigned (hsign : Plain api.sign) {url action : String} {body : Markup}
    (hurl : url ≠ api.tokenUrl) :
    Justified (fun _ => TokenSigned api) (fun _ _ => True) made (api.request url action body) := by
  refine ⟨trivial, fun messageId => ⟨trivial, fun transaction => ⟨trivial, fun clock => ?_⟩⟩⟩
  apply Justified.ofExcept_bind
  intro envelope _
  refine (getToken_tokenSigned hsign).bind fun made token _ => ?_
  apply Justified.ofExcept_bind
  intro signed _
  exact ⟨fun hsame => absurd hsame hurl, fun answer => by cases answer <;> trivial⟩

/-! ## What is asked of Klassifikation -/

theorem free_searchBody {since : Datetime} {limit offset : Nat} {filter : Option Text}
    {body : Markup} (h : searchBody since limit offset filter = .ok body) :
    body.Free soapReferences := by
  rw [searchBody_eq, bind_eq_ok] at h
  obtain ⟨time, _, hbody⟩ := h
  obtain rfl := Except.ok.inj hbody
  intro id _
  cases filter <;>
    simp [Markup.searchInput, Markup.userKeyFilter, Markup.byId_element, Markup.byId_filled,
      Markup.byId_leaf, Content.hasId]

theorem free_readBody {uuid : UUID} {body : Markup} (h : readBody uuid = .ok body) :
    body.Free soapReferences := by
  have hbody : readBody uuid = .ok (.element "LaesInput" [] [
      .filled "UUIDIdentifikator" [] (uuidText uuid),
      .element "VirkningFraFilter" [] [.leaf "GraenseIndikator" [] "true"],
      .element "VirkningTilFilter" [] [.leaf "GraenseIndikator" [] "true"]]) := rfl
  rw [hbody] at h
  obtain rfl := Except.ok.inj h
  intro id _
  simp [Markup.byId_element, Markup.byId_filled, Markup.byId_leaf, Content.hasId]

theorem search_signed (hsign : Plain api.sign) (since : Datetime) (limit offset : Nat) :
    Justified (PostsSigned api) (fun _ _ => True) made (api.search since limit offset) := by
  apply Justified.ofExcept_bind
  intro body hbody
  refine (request_signed hsign (free_searchBody hbody)).bind fun made data _ => ?_
  cases foundUuids data.toElement <;> trivial

theorem getChangedUuids_signed (hsign : Plain api.sign) (since : Datetime) {fuel offset : Nat}
    {changed : List UUID} : Justified (PostsSigned api) (fun _ _ => True) made
      (api.getChangedUuids since fuel offset changed) := by
  induction fuel generalizing offset changed made with
  | zero => trivial
  | succ fuel ih =>
    refine (search_signed hsign since _ offset).bind fun made page _ => ?_
    by_cases hempty : page = []
    · rw [if_pos hempty]
      trivial
    · rw [if_neg hempty]
      exact ih

theorem readRaw_signed (hsign : Plain api.sign) (uuid : UUID) :
    Justified (PostsSigned api) (fun _ _ => True) made (api.readRaw uuid) := by
  apply Justified.ofExcept_bind
  intro body hbody
  refine (request_signed hsign (free_readBody hbody)).bind fun made data _ => ?_
  cases foundKlasse data.toElement <;> trivial

theorem read_signed (hsign : Plain api.sign) (uuid : UUID) :
    Justified (PostsSigned api) (fun _ _ => True) made (api.read uuid) := by
  refine (readRaw_signed hsign uuid).bind fun made raw _ => ?_
  cases raw with
  | none => trivial
  | some e => exact Justified.ofExcept_bind fun _ _ => trivial

/-- What is called of the API. -/
inductive FKKAPI.Calls (api : FKKAPI) : {α : Type} → Api α → Prop
  | getChangedUuids (since : Datetime) (fuel : Nat) :
      api.Calls (api.getChangedUuids since fuel 0 [])
  | readRaw (uuid : UUID) : api.Calls (api.readRaw uuid)
  | read (uuid : UUID) : api.Calls (api.read uuid)

/-- Whenever anything is posted, each reference of its signature leads to one
element, and to the same one in what was signed, if the tokens that may be used
have none of these `Id`s in what is taken from them. -/
theorem signed_as_sent {α : Type} {p : Api α} (hp : api.Calls p) (hsign : Plain api.sign)
    {posted : Post} {k : Except Failure Markup → Api α} (h : Makes p made (call (.post posted) k))
    (hclean : ∀ token, Trusted api.tokenUrl made token → Clean token) :
    (posted.url = api.tokenUrl ∧ SignedAsSent api.sign tokenReferences posted.envelope) ∨
      posted.url = api.serviceUrl ∧ SignedAsSent api.sign soapReferences posted.envelope := by
  have hjustified : Justified (PostsSigned api) (fun _ _ => True) [] p := by
    cases hp with
    | getChangedUuids since fuel => exact getChangedUuids_signed hsign since
    | readRaw uuid => exact readRaw_signed hsign uuid
    | read uuid => exact read_signed hsign uuid
  have hposts := (hjustified.makes h).1
  rw [List.nil_append] at hposts
  rcases hposts with htoken | ⟨hurl, hservice⟩
  · exact Or.inl htoken
  · exact Or.inr ⟨hurl, hservice hclean⟩

section
open Tokens (testApi tokenAnswer)

theorem clean_tokenAnswer : Clean tokenAnswer := by
  rintro assertion reference ⟨rest, hdetach, hreference⟩
  have hassertion : some assertion = some (.element "Assertion" [] []) :=
    (Tree.find_of_detach hdetach).symm.trans rfl
  have hrest := congrArg (Option.map Prod.snd) hdetach
  obtain rfl := Option.some.inj hassertion
  obtain rfl := Option.some.inj hrest
  obtain rfl := Option.some.inj hreference
  constructor <;> intro id _ <;> exact Markup.byId_element id _ [] []

theorem plain_testApi : Plain testApi.sign := by
  intro e references keyInfo signature h hfree id hid
  obtain rfl := Except.ok.inj h
  simp [Markup.byId_element, Content.hasId, hfree id hid]

/-- What a read has been answered that finds a valid token in the cache. -/
def cachedAnswers : History :=
  [⟨.uuid4, (1 : UUID)⟩, ⟨.uuid4, (2 : UUID)⟩, ⟨.now, (0 : Int)⟩, ⟨.loadToken, some tokenAnswer⟩,
    ⟨.now, (0 : Int)⟩]

theorem signed_as_sent_cached : ∃ posted k,
    Makes (testApi.read 7) cachedAnswers (call (.post posted) k) ∧
      SignedAsSent testApi.sign soapReferences posted.envelope := by
  obtain ⟨posted, k, hmakes, hurl⟩ : ∃ posted k,
      Makes (testApi.read 7) cachedAnswers (call (.post posted) k) ∧
        posted.url = testApi.serviceUrl :=
    ⟨_, _, .cons (.cons (.cons (.cons (.cons (.nil _))))), rfl⟩
  have hclean : ∀ token, Trusted testApi.tokenUrl cachedAnswers token → Clean token := by
    rintro token (⟨p, _, hfetched⟩ | hchecked)
    · simp only [cachedAnswers, List.mem_cons, List.not_mem_nil, or_false] at hfetched
      rcases hfetched with h | h | h | h | h <;> cases h
    · have hloaded := hchecked.loaded
      simp only [cachedAnswers, List.mem_cons, List.not_mem_nil, or_false] at hloaded
      rcases hloaded with h | h | h | h | h <;> cases h
      exact clean_tokenAnswer
  have hsigned := signed_as_sent (.read 7) plain_testApi hmakes hclean
  refine ⟨posted, k, hmakes, (hsigned.resolve_left fun htoken => ?_).2⟩
  exact serviceUrl_ne_tokenUrl testApi (hurl.symm.trans htoken.1)

end

end Os2moFkk
