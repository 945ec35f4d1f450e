import Os2moFkk.FormatTime
import Os2moFkk.Forest
import Os2moFkk.ParseKlasse

/-!
# SOAP requests

The requests to the token service and to Klassifikation. Each starts as a
template, in which elements are looked up and filled in.
-/

namespace Os2moFkk
open Itertools Forest Xml

/-- What an element has besides its tag and its children. -/
structure Content where
  attributes : List (String × String)
  text : Option Text
  deriving DecidableEq

/-- `element.set(name, value)`. -/
def Content.set (name value : String) (c : Content) : Content :=
  if c.attributes.any (·.1 = name) then
    { c with attributes := c.attributes.map fun a => if a.1 = name then (name, value) else a }
  else { c with attributes := c.attributes ++ [(name, value)] }

/-- An element, with its attributes. -/
abbrev Markup := Forest.Tree String Content

namespace Markup

def element (tag : String) (attributes : List (String × String)) (children : List Markup) :
    Markup :=
  ⟨tag, ⟨attributes, none⟩, ofList children⟩

def leaf (tag : String) (attributes : List (String × String)) (text : String) : Markup :=
  ⟨tag, ⟨attributes, some text.toList⟩, nil⟩

def setText (text : Text) (e : Markup) : Markup :=
  { e with content := { e.content with text := some text } }

/-- An element as the parser looks at it. -/
def toElements : Forest String Content → List Element
  | nil => []
  | cons tag content children rest =>
    .element tag content.text (toElements children) :: toElements rest

def toElement (e : Markup) : Element := .element e.name e.content.text (toElements e.children)

end Markup

/-! ## The templates -/

def x509v3 : String :=
  "http://docs.oasis-open.org/wss/2004/01/oasis-200401-wss-x509-token-profile-1.0#X509v3"

def base64Binary : String :=
  "http://docs.oasis-open.org/wss/2004/01/" ++
    "oasis-200401-wss-soap-message-security-1.0#Base64Binary"

def binarySecurityToken (id : String) : Markup :=
  .element "BinarySecurityToken"
    [("u:Id", id), ("ValueType", x509v3), ("EncodingType", base64Binary)] []

def timestamp : Markup :=
  .element "Timestamp" [("u:Id", "timestamp")] [
    .element "Created" [] [],
    .element "Expires" [] []]

def tokenRequest : Markup :=
  .element "Envelope" [] [
    .element "Header" [] [
      .leaf "Action" [("u:Id", "action"), ("s:mustUnderstand", "1")]
        "http://docs.oasis-open.org/ws-sx/ws-trust/200512/RST/Issue",
      .element "MessageID" [("u:Id", "message-id")] [],
      .element "To" [("u:Id", "to"), ("s:mustUnderstand", "1")] [],
      .element "Security" [("s:mustUnderstand", "1")] [
        timestamp,
        binarySecurityToken "security-binary-security-token"]],
    .element "Body" [("u:Id", "body")] [
      .element "RequestSecurityToken" [] [
        .element "AppliesTo" [] [
          .element "EndpointReference" [] [
            .leaf "Address" [] "http://entityid.kombit.dk/service/klassifikation/7"]],
        .element "Claims"
          [("Dialect", "http://docs.oasis-open.org/wsfed/authorization/200706/authclaims")] [
          .element "ClaimType"
            [("Uri", "dk:gov:saml:attribute:CvrNumberIdentifier"), ("Optional", "false")] [
            .element "Value" [] []]],
        .leaf "KeyType" [] "http://docs.oasis-open.org/ws-sx/ws-trust/200512/PublicKey",
        .leaf "RequestType" [] "http://docs.oasis-open.org/ws-sx/ws-trust/200512/Issue",
        .leaf "TokenType" []
          "http://docs.oasis-open.org/wss/oasis-wss-saml-token-profile-1.1#SAMLV2.0",
        .element "UseKey" [] [
          binarySecurityToken "usekey-binary-security-token"]]]]

def tokenKeyInfo : Markup :=
  .element "KeyInfo" [] [
    .element "SecurityTokenReference" [] [
      .element "Reference" [("ValueType", x509v3), ("URI", "#security-binary-security-token")] []]]

def soapRequest : Markup :=
  .element "Envelope" [] [
    .element "Header" [] [
      .element "Action" [("u:Id", "action"), ("s:mustUnderstand", "1")] [],
      .element "RequestHeader" [] [
        .element "TransactionUUID" [] []],
      .element "MessageID" [("u:Id", "message-id")] [],
      .element "To" [("u:Id", "to"), ("s:mustUnderstand", "1")] [],
      .element "Security" [("s:mustUnderstand", "1")] [
        timestamp]],
    .element "Body" [("u:Id", "body")] []]

def searchInput : Markup :=
  .element "SoegInput" [] [
    .element "FoersteResultatReference" [] [],
    .element "MaksimalAntalKvantitet" [] [],
    .element "SoegRegistrering" [] [
      .element "FraTidspunkt" [] [
        .element "TidsstempelDatoTid" [] []]],
    .element "AttributListe" [] [],
    .element "TilstandListe" [] [],
    .element "RelationListe" [] [
      .element "Facet" [] [
        .element "ReferenceID" [] [
          .leaf "UUIDIdentifikator" [] "00000c7e-face-4001-8000-000000000000"]]]]

/-- The filter by user key. -/
def bvnText : Markup :=
  .element "Egenskab" [] [
    .element "BrugervendtNoegleTekst" [] []]

def readInput : Markup :=
  .element "LaesInput" [] [
    .element "UUIDIdentifikator" [] [],
    .element "VirkningFraFilter" [] [
      .leaf "GraenseIndikator" [] "true"],
    .element "VirkningTilFilter" [] [
      .leaf "GraenseIndikator" [] "true"]]

/-! ## Filling them in -/

/-- What a request can end with instead of an answer. -/
inductive Failure where
  | raised (e : Error)
  | typeError
  /-- FKK has answered with another status. -/
  | lookupError (statusCode : Int) (message : Option Text)
  /-- There is no answer, it has an HTTP error status or it is not XML. -/
  | post
  /-- The parser has read a time without an offset. -/
  | naive
  deriving DecidableEq

def failing {α : Type} (x : Except Error α) : Except Failure α := x.mapError .raised

/-- The value, or an `AssertionError` when there is none. -/
def asserted {α : Type} : Option α → Except Failure α
  | some a => .ok a
  | none => .error (.raised .assertionError)

/-- `_find(element, path).text = text`. -/
def fill (path : List String) (text : Text) (e : Markup) : Except Failure Markup :=
  asserted (e.modify (Markup.setText text) path)

/-- `_find(element, path).append(child)`. -/
def appendTo (path : List String) (child e : Markup) : Except Failure Markup :=
  asserted (e.modify (Tree.addChild child) path)

/-- `str(uuid)`: five groups of hexadecimal digits. -/
def hexText : Nat → Nat → Text
  | 0, _ => []
  | n + 1, k => hexText n (k / 16) ++ [Nat.digitChar (k % 16)]

def uuidText (uuid : UUID) : Text :=
  let hex := hexText 32 uuid.toNat
  hex.take 8 ++ '-' :: ((hex.drop 8).take 4 ++ '-' :: ((hex.drop 12).take 4 ++
    '-' :: ((hex.drop 16).take 4 ++ '-' :: hex.drop 20)))

/-- `now + timedelta(minutes=10)`. -/
def tenMinutesAfter (d : Datetime) : Except Error Datetime :=
  let wall := d.wall + 600000000
  if wall ≤ maxWall then .ok (.timestamp wall d.tz) else .error .overflowError

inductive Environment where
  | production
  | test

def Environment.baseUrl : Environment → String
  | production => "https://klassifikation.stoettesystemerne.dk"
  | test => "https://klassifikation.eksterntest-stoettesystemerne.dk"

def Environment.tokenUrl : Environment → String
  | production =>
    "https://adgangsstyring.stoettesystemerne.dk/runtime/services/kombittrust/14/certificatemixed"
  | test =>
    "https://adgangsstyring.eksterntest-stoettesystemerne.dk/runtime/services/kombittrust/14/" ++
      "certificatemixed"

structure FKKSettings where
  environment : Environment
  authorityContextCvr : Text
  changedUuidsUserKeyFilter : Option Text

/-- The time of a request and how long it is good for. -/
def fillTimestamp (now : Datetime) (e : Markup) : Except Failure Markup := do
  let e ← fill ["Header", "Security", "Timestamp", "Created"] (← failing (formatTime now)) e
  let expires ← failing (tenMinutesAfter now)
  fill ["Header", "Security", "Timestamp", "Expires"] (← failing (formatTime expires)) e

def urn (uuid : UUID) : Text := "urn:uuid:".toList ++ uuidText uuid

/-- The request for a token, as far as it is signed. -/
def tokenEnvelope (settings : FKKSettings) (certBase64 : Text) (messageId : UUID)
    (now : Datetime) : Except Failure Markup := do
  let e ← fill ["Header", "MessageID"] (urn messageId) tokenRequest
  let e ← fill ["Header", "To"] settings.environment.tokenUrl.toList e
  let e ← fillTimestamp now e
  let e ← fill ["Header", "Security", "BinarySecurityToken"] certBase64 e
  let e ← fill ["Body", "RequestSecurityToken", "Claims", "ClaimType", "Value"]
    settings.authorityContextCvr e
  fill ["Body", "RequestSecurityToken", "UseKey", "BinarySecurityToken"] certBase64 e

/-- A request to Klassifikation, before the token is added. -/
def soapEnvelope (url action : String) (body : Markup) (messageId transaction : UUID)
    (now : Datetime) : Except Failure Markup := do
  let e ← fill ["Header", "MessageID"] (urn messageId) soapRequest
  let e ← fill ["Header", "To"] url.toList e
  let e ← fill ["Header", "Action"] action.toList e
  let e ← fill ["Header", "RequestHeader", "TransactionUUID"] (uuidText transaction) e
  let e ← fillTimestamp now e
  appendTo ["Body"] body e

/-- How an envelope is signed: the elements with these `Id`s, and the `KeyInfo`
that goes into the signature. -/
abbrev Signer := Markup → List String → Markup → Except Failure Markup

def securityPath : List String := ["Header", "Security"]

def addSignature (sign : Signer) (references : List String) (keyInfo e : Markup) :
    Except Failure Markup := do
  appendTo securityPath (← sign e references keyInfo) e

/-- Where the answer of the token service has what it answers with. -/
def tokenPath (path : List String) : List String :=
  ["Body", "RequestSecurityTokenResponseCollection", "RequestSecurityTokenResponse"] ++ path

def assertionPath : List String := tokenPath ["RequestedSecurityToken", "Assertion"]

def referencePath : List String :=
  tokenPath ["RequestedAttachedReference", "SecurityTokenReference"]

/-- The reference with an `Id` to select it by. -/
def withReferenceId (e : Markup) : Markup :=
  { e with content := e.content.set "u:Id" "token-reference" }

def tokenReferences : List String := ["action", "message-id", "to", "timestamp", "body"]

def soapReferences : List String :=
  ["action", "message-id", "to", "timestamp", "token-reference", "body"]

/-- Add the Assertion from the token, which moves it there, the reference with an
`Id` of its own, and the signature. -/
def addToken (sign : Signer) (token e : Markup) : Except Failure Markup := do
  let (assertion, token) ← asserted (token.detach assertionPath)
  let e ← appendTo securityPath assertion e
  let tokenReference ← asserted (token.find referencePath)
  let e ← appendTo securityPath (withReferenceId tokenReference) e
  let keyInfo := Markup.element "KeyInfo" [] [tokenReference]
  addSignature sign soapReferences keyInfo e

/-! ## The finished envelopes -/

namespace Markup

def filled (tag : String) (attributes : List (String × String)) (text : Text) : Markup :=
  ⟨tag, ⟨attributes, some text⟩, nil⟩

def filledTimestamp (created expires : Text) : Markup :=
  .element "Timestamp" [("u:Id", "timestamp")] [
    filled "Created" [] created,
    filled "Expires" [] expires]

/-- A request to Klassifikation with these elements under Security after the time. -/
def soap (url action : String) (body : Markup) (messageId transaction : UUID)
    (created expires : Text) (security : List Markup) : Markup :=
  .element "Envelope" [] [
    .element "Header" [] [
      filled "Action" [("u:Id", "action"), ("s:mustUnderstand", "1")] action.toList,
      .element "RequestHeader" [] [
        filled "TransactionUUID" [] (uuidText transaction)],
      filled "MessageID" [("u:Id", "message-id")] (urn messageId),
      filled "To" [("u:Id", "to"), ("s:mustUnderstand", "1")] url.toList,
      .element "Security" [("s:mustUnderstand", "1")]
        (filledTimestamp created expires :: security)],
    .element "Body" [("u:Id", "body")] [body]]

/-- A request for a token with these elements under Security after the certificate. -/
def tokenRequest (url : String) (certBase64 cvr : Text) (messageId : UUID)
    (created expires : Text) (security : List Markup) : Markup :=
  let certificate (id : String) : Markup := setText certBase64 (binarySecurityToken id)
  .element "Envelope" [] [
    .element "Header" [] [
      .leaf "Action" [("u:Id", "action"), ("s:mustUnderstand", "1")]
        "http://docs.oasis-open.org/ws-sx/ws-trust/200512/RST/Issue",
      filled "MessageID" [("u:Id", "message-id")] (urn messageId),
      filled "To" [("u:Id", "to"), ("s:mustUnderstand", "1")] url.toList,
      .element "Security" [("s:mustUnderstand", "1")]
        (filledTimestamp created expires :: certificate "security-binary-security-token" ::
          security)],
    .element "Body" [("u:Id", "body")] [
      .element "RequestSecurityToken" [] [
        .element "AppliesTo" [] [
          .element "EndpointReference" [] [
            .leaf "Address" [] "http://entityid.kombit.dk/service/klassifikation/7"]],
        .element "Claims"
          [("Dialect", "http://docs.oasis-open.org/wsfed/authorization/200706/authclaims")] [
          .element "ClaimType"
            [("Uri", "dk:gov:saml:attribute:CvrNumberIdentifier"), ("Optional", "false")] [
            filled "Value" [] cvr]],
        .leaf "KeyType" [] "http://docs.oasis-open.org/ws-sx/ws-trust/200512/PublicKey",
        .leaf "RequestType" [] "http://docs.oasis-open.org/ws-sx/ws-trust/200512/Issue",
        .leaf "TokenType" []
          "http://docs.oasis-open.org/wss/oasis-wss-saml-token-profile-1.1#SAMLV2.0",
        .element "UseKey" [] [
          certificate "usekey-binary-security-token"]]]]

end Markup

theorem asserted_eq_ok {α : Type} {x : Option α} {a : α} (h : asserted x = .ok a) : x = some a := by
  cases x with
  | none => cases h
  | some _ => rw [Except.ok.inj h]

/-- How long a request is good for: its time, and ten minutes later. -/
structure Stamped (now : Datetime) (created expires : Text) : Prop where
  created : formatTime now = .ok created
  expires : ∃ later, tenMinutesAfter now = .ok later ∧ formatTime later = .ok expires

theorem failing_eq_ok {α : Type} {x : Except Error α} {a : α} (h : failing x = .ok a) :
    x = .ok a := by
  cases x with
  | error => cases h
  | ok _ => exact congrArg Except.ok (Except.ok.inj h)

theorem soapEnvelope_eq (url action : String) (body : Markup) (messageId transaction : UUID)
    (now : Datetime) : soapEnvelope url action body messageId transaction now = (do
      let created ← failing (formatTime now)
      let later ← failing (tenMinutesAfter now)
      let expires ← failing (formatTime later)
      return .soap url action body messageId transaction created expires []) := by
  unfold soapEnvelope fillTimestamp
  cases failing (formatTime now) with
  | error => rfl
  | ok created =>
    cases failing (tenMinutesAfter now) with
    | error => rfl
    | ok later =>
      simp only [ok_bind]
      cases failing (formatTime later) <;> rfl

theorem tokenEnvelope_eq (settings : FKKSettings) (certBase64 : Text) (messageId : UUID)
    (now : Datetime) : tokenEnvelope settings certBase64 messageId now = (do
      let created ← failing (formatTime now)
      let later ← failing (tenMinutesAfter now)
      let expires ← failing (formatTime later)
      return .tokenRequest settings.environment.tokenUrl certBase64 settings.authorityContextCvr
        messageId created expires []) := by
  unfold tokenEnvelope fillTimestamp
  cases failing (formatTime now) with
  | error => rfl
  | ok created =>
    cases failing (tenMinutesAfter now) with
    | error => rfl
    | ok later =>
      simp only [ok_bind]
      cases failing (formatTime later) <;> rfl

/-- With the time of a request, both envelopes can be filled in. -/
theorem Stamped.tokenEnvelope {now : Datetime} {created expires : Text}
    (h : Stamped now created expires) (settings : FKKSettings) (certBase64 : Text)
    (messageId : UUID) : tokenEnvelope settings certBase64 messageId now =
      .ok (.tokenRequest settings.environment.tokenUrl certBase64 settings.authorityContextCvr
        messageId created expires []) := by
  obtain ⟨hcreated, later, hlater, hexpires⟩ := h
  simp [tokenEnvelope_eq, failing, Except.mapError, hcreated, hlater, hexpires]

theorem Stamped.soapEnvelope {now : Datetime} {created expires : Text}
    (h : Stamped now created expires) (url action : String) (body : Markup)
    (messageId transaction : UUID) : soapEnvelope url action body messageId transaction now =
      .ok (.soap url action body messageId transaction created expires []) := by
  obtain ⟨hcreated, later, hlater, hexpires⟩ := h
  simp [soapEnvelope_eq, failing, Except.mapError, hcreated, hlater, hexpires]

theorem soapEnvelope_eq_ok {url action : String} {body e : Markup} {messageId transaction : UUID}
    {now : Datetime} (h : soapEnvelope url action body messageId transaction now = .ok e) :
    ∃ created expires, Stamped now created expires ∧
      e = .soap url action body messageId transaction created expires [] := by
  rw [soapEnvelope_eq] at h
  simp only [bind_eq_ok] at h
  obtain ⟨created, hcreated, later, hlater, expires, hexpires, he⟩ := h
  exact ⟨created, expires, ⟨failing_eq_ok hcreated, later, failing_eq_ok hlater,
    failing_eq_ok hexpires⟩, (Except.ok.inj he).symm⟩

theorem appendTo_security (url action : String) (body : Markup) (messageId transaction : UUID)
    (created expires : Text) (security : List Markup) (child : Markup) :
    appendTo securityPath child
        (.soap url action body messageId transaction created expires security) =
      .ok (.soap url action body messageId transaction created expires (security ++ [child])) := by
  simp only [Markup.soap, Markup.element, ofList, ofList_concat]
  rfl

/-- What a request takes from the token. -/
def Attached (token assertion reference : Markup) : Prop :=
  ∃ rest, token.detach assertionPath = some (assertion, rest) ∧
    rest.find referencePath = some reference

theorem Attached.assertion {token assertion reference : Markup}
    (h : Attached token assertion reference) : token.find assertionPath = some assertion := by
  obtain ⟨rest, hdetach, _⟩ := h
  exact Tree.find_of_detach hdetach

theorem addToken_ok {sign : Signer}
    (hsign : ∀ e references keyInfo, ∃ signature, sign e references keyInfo = .ok signature)
    {token assertion reference body : Markup} (h : Attached token assertion reference)
    (url action : String) (messageId transaction : UUID) (created expires : Text) :
    ∃ signature, addToken sign token
        (.soap url action body messageId transaction created expires []) =
      .ok (.soap url action body messageId transaction created expires
        [assertion, withReferenceId reference, signature]) := by
  obtain ⟨rest, hassertion, hreference⟩ := h
  obtain ⟨signature, hsignature⟩ := hsign (.soap url action body messageId transaction created
    expires [assertion, withReferenceId reference]) soapReferences
    (.element "KeyInfo" [] [reference])
  refine ⟨signature, ?_⟩
  simp only [addToken, addSignature, hassertion, hreference, asserted, ok_bind, appendTo_security,
    List.nil_append, List.cons_append, hsignature]

/-- The Assertion, the reference and the signature of all that stands before it end
up under Security. -/
theorem addToken_eq_ok {sign : Signer} {token e body : Markup} {url action : String}
    {messageId transaction : UUID} {created expires : Text}
    (h : addToken sign token
      (.soap url action body messageId transaction created expires []) = .ok e) :
    ∃ assertion reference signature, Attached token assertion reference ∧
      sign (.soap url action body messageId transaction created expires
        [assertion, withReferenceId reference]) soapReferences
        (.element "KeyInfo" [] [reference]) = .ok signature ∧
      e = .soap url action body messageId transaction created expires
        [assertion, withReferenceId reference, signature] := by
  unfold addToken addSignature at h
  simp only [bind_eq_ok] at h
  obtain ⟨⟨assertion, rest⟩, hdetach, _, he₁, reference, hreference, _, he₂, signature,
    hsignature, he₃⟩ := h
  rw [appendTo_security] at he₁
  cases he₁
  rw [appendTo_security] at he₂
  cases he₂
  rw [appendTo_security] at he₃
  cases he₃
  exact ⟨assertion, reference, signature,
    ⟨rest, asserted_eq_ok hdetach, asserted_eq_ok hreference⟩, hsignature, rfl⟩

end Os2moFkk
