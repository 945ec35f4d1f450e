import Os2moFkk.FkkApi

/-!
# What a request goes by

A request posts an envelope with a token that it has been answered with by the
token service, or that it has found in the cache and compared with the clock.
-/

namespace Os2moFkk
open Itertools Forest Prog

/-- The envelope contains the Assertion of this token. -/
def Post.Carries (p : Post) (token : Markup) : Prop :=
  ∃ assertion, token.find assertionPath = some assertion ∧
    p.envelope.find (securityPath ++ ["Assertion"]) = some assertion

/-- The token is valid at this time. -/
def ValidAt (token : Markup) (clock : Int) : Prop :=
  ∃ expires tz, expiration token = .ok expires ∧ expires.tz = some tz ∧
    clock < expires.wall - tz.micros

/-- The token service has answered with this token. -/
def Fetched (tokenUrl : String) (made : History) (token : Markup) : Prop :=
  ∃ p, p.url = tokenUrl ∧ ⟨.post p, .ok token⟩ ∈ made

/-- The token was in the cache and valid by the clock, which was looked at next. -/
def Checked (made : History) (token : Markup) : Prop :=
  ∃ clock : Int, [⟨.loadToken, some token⟩, ⟨.now, clock⟩] <:+: made ∧ ValidAt token clock

theorem Checked.loaded {made : History} {token : Markup} (h : Checked made token) :
    ⟨.loadToken, some token⟩ ∈ made := by
  obtain ⟨clock, hinfix, _⟩ := h
  exact hinfix.subset List.mem_cons_self

def Trusted (tokenUrl : String) (made : History) (token : Markup) : Prop :=
  Fetched tokenUrl made token ∨ Checked made token

/-- A request posts no token but one that it may trust, and caches only what the
token service has answered it with. -/
def Reason (tokenUrl : String) (made : History) : ApiCall → Prop
  | .post p => p.url = tokenUrl ∨ ∃ token, p.Carries token ∧ Trusted tokenUrl made token
  | .storeToken token => Fetched tokenUrl made token
  | _ => True

/-- Such a program. -/
abbrev Reasonable {α : Type} (api : FKKAPI) (R : History → α → Prop) (made : History)
    (p : Api α) : Prop :=
  p.Justified (Reason api.tokenUrl) R made

variable {api : FKKAPI} {made : History}

theorem fetchToken_reasonable :
    Reasonable api (Fetched api.tokenUrl) made api.fetchToken := by
  refine ⟨trivial, fun messageId => ⟨trivial, fun clock => ?_⟩⟩
  apply Justified.ofExcept_bind
  intro envelope _
  apply Justified.ofExcept_bind
  intro signed _
  refine ⟨Or.inl rfl, fun answer => ?_⟩
  cases answer with
  | error e => trivial
  | ok token => exact ⟨_, rfl, List.mem_append_right _ (List.mem_singleton_self _)⟩

theorem Fetched.append {tokenUrl : String} {token : Markup} (h : Fetched tokenUrl made token)
    (later : History) : Fetched tokenUrl (made ++ later) token := by
  obtain ⟨p, hurl, hmem⟩ := h
  exact ⟨p, hurl, List.mem_append_left _ hmem⟩

theorem renewToken_reasonable :
    Reasonable api (Fetched api.tokenUrl) made api.renewToken := by
  refine fetchToken_reasonable.bind fun made token h => ?_
  exact ⟨h, fun _ => h.append _⟩

theorem isTokenValid_reasonable (token : Markup) :
    Reasonable api (fun made valid => valid = true → Checked made token)
      (made ++ [⟨.loadToken, some token⟩]) (isTokenValid token) := by
  apply Justified.ofExcept_bind
  intro expires hexpires
  refine ⟨trivial, fun (clock : Int) => ?_⟩
  cases htz : expires.tz with
  | none => trivial
  | some tz =>
    intro hvalid
    have hclock : clock < expires.wall - tz.micros := of_decide_eq_true hvalid
    exact ⟨clock, ⟨made, [], by simp⟩, expires, tz, hexpires, htz, hclock⟩

theorem getToken_reasonable :
    Reasonable api (Trusted api.tokenUrl) made api.getToken := by
  have renew : ∀ made, Reasonable api (Trusted api.tokenUrl) made api.renewToken :=
    fun made => renewToken_reasonable.imp fun _ _ => Or.inl
  refine ⟨trivial, fun cached => ?_⟩
  cases cached with
  | none => exact renew _
  | some token =>
    refine (isTokenValid_reasonable token).bind fun made valid h => ?_
    cases valid with
    | true => exact Or.inr (h rfl)
    | false => exact renew made

theorem request_reasonable {url action : String} {body : Markup} :
    Reasonable api (fun _ _ => True) made (api.request url action body) := by
  refine ⟨trivial, fun messageId => ⟨trivial, fun transaction => ⟨trivial, fun clock => ?_⟩⟩⟩
  apply Justified.ofExcept_bind
  intro envelope henvelope
  obtain ⟨created, expires, _, rfl⟩ := soapEnvelope_eq_ok henvelope
  refine getToken_reasonable.bind fun made token htoken => ?_
  apply Justified.ofExcept_bind
  intro signed hsigned
  obtain ⟨assertion, reference, signature, hattached, _, rfl⟩ := addToken_eq_ok hsigned
  have hassertion := hattached.assertion
  refine ⟨Or.inr ⟨token, ⟨assertion, hassertion, ?_⟩, htoken⟩, fun answer => ?_⟩
  · have hname : assertion.name = "Assertion" :=
      @Tree.name_of_find _ _ _ _ (tokenPath ["RequestedSecurityToken"]) _ _ hassertion
    obtain ⟨name, content, children⟩ := assertion
    subst hname
    simp [soapPost, Markup.soap, Markup.element, Markup.filled, Markup.filledTimestamp,
      securityPath, Tree.find, ofList, trees]
  · cases answer <;> trivial

namespace Tokens

/-- A stub of a signature, with the KeyInfo it is given. -/
def testApi : FKKAPI where
  settings := ⟨.test, "29189846".toList, none⟩
  certBase64 := []
  sign := fun _ _ keyInfo => .ok (.element "Signature" [] [keyInfo])

/-- What the token service answers with. -/
def tokenAnswer : Markup :=
  .element "Envelope" [] [
    .element "Body" [] [
      .element "RequestSecurityTokenResponseCollection" [] [
        .element "RequestSecurityTokenResponse" [] [
          .element "Lifetime" [] [
            .leaf "Expires" [] "2019-03-01T08:00:00.000Z"],
          .element "RequestedSecurityToken" [] [
            .element "Assertion" [] []],
          .element "RequestedAttachedReference" [] [
            .element "SecurityTokenReference" [] []]]]]]

end Tokens

end Os2moFkk
