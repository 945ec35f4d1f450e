import Os2moFkk.EventGenerator
import Os2moFkk.Program
import Os2moFkk.Soap

/-!
# The Klassifikation API

The calls to Klassifikation as interactive programs. Each gets a token first,
which all of them share: a cached one that has not expired, or else a new one.
-/

namespace Os2moFkk
open Itertools Forest Xml Prog

structure Post where
  url : String
  contentType : String
  envelope : Markup

/-- What a request needs from outside: the clock, new UUIDs, the cached token
and the services. -/
inductive ApiCall where
  | now
  | uuid4
  | loadToken
  | storeToken (token : Markup)
  | post (p : Post)

def ApiAnswer : ApiCall → Type
  | .now => Int
  | .uuid4 => UUID
  | .loadToken => Option Markup
  | .storeToken _ => Unit
  | .post _ => Except Failure Markup

/-- What has been called and answered. -/
abbrev History := List ((c : ApiCall) × ApiAnswer c)

abbrev Api := Prog ApiCall ApiAnswer Failure

def now : Api Int := perform ApiCall.now

def uuid4 : Api UUID := perform ApiCall.uuid4

def loadToken : Api (Option Markup) := perform ApiCall.loadToken

def storeToken (token : Markup) : Api Unit := perform (ApiCall.storeToken token)

/-- The document that a service answers with. -/
def post (p : Post) : Api Markup := do ofExcept (← perform (ApiCall.post p))

def soapPost (url action : String) (envelope : Markup) : Post :=
  ⟨url, "application/soap+xml; charset=utf-8; action=\"" ++ action ++ "\"", envelope⟩

structure FKKAPI where
  settings : FKKSettings
  certBase64 : Text
  sign : Signer

/-- What the parser raises. -/
def parsing {α : Type} (x : Except Unparsed α) : Except Failure α :=
  x.mapError fun
    | .raised e => .raised e
    | .naive => .naive

/-! ## Tokens -/

def expiresPath : List String := tokenPath ["Lifetime", "Expires"]

/-- Until when a token is valid, unless the time lacks an offset. -/
def expiration (token : Markup) : Except Failure IsoFormat.IsoDatetime := do
  match (← parsing (find token.toElement expiresPath)).text with
  | none => .error (.raised .assertionError)
  | some text => failing (IsoFormat.fromisoformat text)

/-- Get SAML token expiration time, and compare it with the clock. -/
def isTokenValid (token : Markup) : Api Bool := do
  let expires ← ofExcept (expiration token)
  let clock ← now
  match expires.tz with
  | none => raise .typeError
  | some tz => return decide (clock < expires.wall - tz.micros)

namespace FKKAPI
variable (api : FKKAPI)

def tokenUrl : String := api.settings.environment.tokenUrl

def serviceUrl : String := api.settings.environment.baseUrl ++ "/klasse/7"

def tokenPost (envelope : Markup) : Post :=
  ⟨api.tokenUrl, "application/soap+xml; charset=utf-8", envelope⟩

/-- Fetch SAML token assertions. -/
def fetchToken : Api Markup := do
  let messageId ← uuid4
  let clock ← now
  let envelope ← ofExcept
    (tokenEnvelope api.settings api.certBase64 messageId (EventGenerator.utcNow clock))
  let envelope ← ofExcept
    (addSignature api.sign tokenReferences tokenKeyInfo envelope)
  post (api.tokenPost envelope)

/-- A new token, which others find in the cache from now on. -/
def renewToken : Api Markup := do
  let token ← api.fetchToken
  storeToken token
  return token

/-- Return cached token or fetch a new one if expired. -/
def getToken : Api Markup := do
  match ← loadToken with
  | none => api.renewToken
  | some token => if ← isTokenValid token then return token else api.renewToken

/-- Perform SOAP request. -/
def request (url action : String) (body : Markup) : Api Markup := do
  let messageId ← uuid4
  let transaction ← uuid4
  let clock ← now
  let envelope ← ofExcept
    (soapEnvelope url action body messageId transaction (EventGenerator.utcNow clock))
  let token ← api.getToken
  let envelope ← ofExcept (addToken api.sign token envelope)
  post (soapPost url action envelope)

end FKKAPI

/-! ## Klassifikation -/

/-- Digits, with single underscores between them. -/
def natOfText (digits : Text) : Except Error Nat :=
  let groups := digits.splitOn '_'
  if groups.all fun g => !g.isEmpty && g.all Char.isDigit then
    .ok (IsoFormat.number groups.flatten)
  else .error .valueError

/-- `int(text)`. -/
def intOfText : Text → Except Error Int
  | '-' :: digits => (natOfText digits).map fun n => -n
  | '+' :: digits => (natOfText digits).map fun n => n
  | digits => (natOfText digits).map fun n => n

/-- The status of an answer with this kind of output. -/
def statusCode (output : String) (data : Element) : Except Failure Int := do
  let text ← parsing (findtext data ["Body", output, "StandardRetur", "StatusKode"])
  failing (intOfText text)

/-- A status for which there is no other case. Both kinds of calls look for the
message in the output of a search. -/
def reportStatus {α : Type} (status : Int) (data : Element) : Except Failure α := do
  let message ← parsing (find data ["Body", "SoegOutput", "StandardRetur", "FejlbeskedTekst"])
  .error (.lookupError status message.text)

/-- A page of registrations since then. -/
def searchBody (since : Datetime) (pageLimit pageOffset : Nat) (userKeyFilter : Option Text) :
    Except Failure Markup := do
  let body ← fill ["FoersteResultatReference"] (Nat.toDigits 10 pageOffset) searchInput
  let body ← fill ["MaksimalAntalKvantitet"] (Nat.toDigits 10 pageLimit) body
  let body ← fill ["SoegRegistrering", "FraTidspunkt", "TidsstempelDatoTid"]
    (← failing (formatTime since)) body
  match userKeyFilter with
  | none => return body
  | some userKey =>
    appendTo ["AttributListe"] (← fill ["BrugervendtNoegleTekst"] userKey bvnText) body

/-- `UUID(u.text)`. -/
def uuidOfElement (u : Element) : Except Failure UUID :=
  match u.text with
  | none => .error .typeError
  | some text => failing (uuidOfText text)

def idPath : List String := ["Body", "SoegOutput", "IdListe", "UUIDIdentifikator"]

/-- The UUIDs that the answer to a search lists. -/
def foundUuids (data : Element) : Except Failure (List UUID) := do
  let status ← statusCode "SoegOutput" data
  if status = 44 then return []
  if status ≠ 20 then reportStatus status data
  let uuids ← (data.findall idPath).mapM uuidOfElement
  return uuids.dedup

def readBody (uuid : UUID) : Except Failure Markup :=
  fill ["UUIDIdentifikator"] (uuidText uuid) readInput

/-- The element that the answer to a read has the Klasse in, if there is one. -/
def foundKlasse (data : Element) : Except Failure (Option Element) := do
  let status ← statusCode "LaesOutput" data
  if status = 44 then return none
  if status ≠ 20 then reportStatus status data
  return some (← parsing (find data ["Body", "LaesOutput"]))

namespace FKKAPI
variable (api : FKKAPI)

def search (since : Datetime) (pageLimit pageOffset : Nat) : Api (List UUID) := do
  let body ← ofExcept
    (searchBody since pageLimit pageOffset api.settings.changedUuidsUserKeyFilter)
  let data ← api.request api.serviceUrl "http://kombit.dk/sts/klassifikation/klasse/soeg" body
  ofExcept (foundUuids data.toElement)

/-- Get the set of UUIDs which have been changed since the provided datetime.
Without `fuel` it is still asking for pages. -/
def getChangedUuids (since : Datetime) : Nat → Nat → List UUID → Api (Option (List UUID))
  | 0, _, _ => return none
  | fuel + 1, pageOffset, changed => do
    let page ← api.search since EventGenerator.pageLimit pageOffset
    if page = [] then return some changed
    else getChangedUuids since fuel (pageOffset + EventGenerator.pageLimit) (changed ∪ page)

/-- Read a single object. -/
def readRaw (uuid : UUID) : Api (Option Element) := do
  let body ← ofExcept (readBody uuid)
  let data ← api.request api.serviceUrl "http://kombit.dk/sts/klassifikation/klasse/laes" body
  ofExcept (foundKlasse data.toElement)

/-- Read and parse a single object. -/
def read (uuid : UUID) : Api (Option Klasse) := do
  match ← api.readRaw uuid with
  | none => return none
  | some raw => return some (← ofExcept (parsing (parseKlasse raw)))

end FKKAPI

end Os2moFkk
