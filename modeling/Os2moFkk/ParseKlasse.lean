import Os2moFkk.IsoFormat
import Os2moFkk.Klasse
import Os2moFkk.Xml

/-!
# Parsing a Klasse

`parse_klasse` reads the element that Klassifikation answers with. It looks up
each part by its path and reads the texts of the leaves.
-/

namespace Os2moFkk
open Itertools Xml

/-- Why there is no Klasse. A text without an offset gives a naive datetime,
which the parser puts in the Klasse and this model has no room for. -/
inductive Unparsed where
  | raised (e : Error)
  | naive
  deriving DecidableEq

def raising {α : Type} (x : Except Error α) : Except Unparsed α := x.mapError .raised

/-! ## UUIDs -/

def hexDigit (c : Char) : Option Nat :=
  let n := c.toNat
  if 48 ≤ n ∧ n ≤ 57 then some (n - 48)
  else if 97 ≤ n ∧ n ≤ 102 then some (n - 87)
  else if 65 ≤ n ∧ n ≤ 70 then some (n - 55)
  else none

/-- `int(s, 16)` of hexadecimal digits. -/
def hexNumber (s : Text) : Nat := s.foldl (fun value c => 16 * value + (hexDigit c).getD 0) 0

def isBrace (c : Char) : Bool := c = '\x7b' || c = '\x7d'

/-- `UUID(text)`, which is documented to take 32 hexadecimal digits, with
optional braces, hyphens and URN prefix. -/
def uuidOfText (text : Text) : Except Error UUID :=
  let bare := removeFrom "uuid:".toList 0 (removeFrom "urn:".toList 0 text)
  let hex := (stripWith isBrace bare).filter (· != '-')
  if hex.length = 32 ∧ hex.all fun c => (hexDigit c).isSome then
    .ok (BitVec.ofNat 128 (hexNumber hex))
  else .error .valueError

/-! ## Elements and texts -/

/-- lxml find() but cannot return None. -/
def find (element : Element) (path : List String) : Except Unparsed Element :=
  match element.find path with
  | some subelement => .ok subelement
  | none => .error (.raised .assertionError)

/-- lxml findtext() but cannot return None. -/
def findtext (element : Element) (path : List String) : Except Unparsed Text := do
  match (← find element path).text with
  | some text => .ok (strip text)
  | none => .error (.raised .assertionError)

/-- `BOOLEANS[text]`. -/
def booleans (text : Text) : Except Unparsed Bool :=
  if text = "false".toList then .ok false
  else if text = "true".toList then .ok true
  else .error (.raised .keyError)

/-! ## The parser -/

/-- A bound of a `Virkning`. -/
abbrev Tidspunkt := { d : Datetime // d.Aware }

def IsoFormat.IsoDatetime.tidspunkt (d : IsoDatetime) : Except Unparsed Tidspunkt :=
  match d.tz with
  | some offset => .ok ⟨.timestamp d.wall (.fixed offset), d.lower, d.upper⟩
  | none => .error .naive

def parseTidspunkt (tidspunkt : Element) (limit : Tidspunkt) : Except Unparsed Tidspunkt :=
  match tidspunkt.find ["GraenseIndikator"] with
  | none => do
    let d ← raising (IsoFormat.fromisoformat (← findtext tidspunkt ["TidsstempelDatoTid"]))
    d.tidspunkt
  | some limitIndicator =>
    match limitIndicator.text with
    | none => .error (.raised .valueError)
    | some text => do
      if ← booleans text then .ok limit else .error (.raised .valueError)

def parseVirkning (virkning : Element) : Except Unparsed Virkning := do
  let fra ← parseTidspunkt (← find virkning ["FraTidspunkt"]) ⟨.negativeInfinity, trivial⟩
  let til ← parseTidspunkt (← find virkning ["TilTidspunkt"]) ⟨.positiveInfinity, trivial⟩
  return ⟨fra, til, fra.property, til.property⟩

def parseEgenskab (egenskab : Element) : Except Unparsed Egenskab := do
  let virkning ← parseVirkning (← find egenskab ["Virkning"])
  let brugervendtnoegle ← findtext egenskab ["BrugervendtNoegleTekst"]
  let titel ← findtext egenskab ["TitelTekst"]
  return ⟨virkning, .ofList brugervendtnoegle, .ofList titel⟩

def parsePubliceret (publiceret : Element) : Except Unparsed PubliceretTilstand := do
  let virkning ← parseVirkning (← find publiceret ["Virkning"])
  let erPubliceret ← booleans (← findtext publiceret ["ErPubliceretIndikator"])
  return ⟨virkning, erPubliceret⟩

def parseOverordnet (overordnet : Element) : Except Unparsed OverordnetRelation := do
  let virkning ← parseVirkning (← find overordnet ["Virkning"])
  let uuid ← findtext overordnet ["ReferenceID", "UUIDIdentifikator"]
  return ⟨virkning, ← raising (uuidOfText uuid)⟩

def parseKlasse (element : Element) : Except Unparsed Klasse := do
  let uuid ← findtext element ["FiltreretOejebliksbillede", "ObjektID", "UUIDIdentifikator"]
  let registrering ← find element ["FiltreretOejebliksbillede", "Registrering"]
  let attributEgenskab ← (registrering.findall ["AttributListe", "Egenskab"]).mapM parseEgenskab
  let tilstandPubliceret ←
    (registrering.findall ["TilstandListe", "PubliceretStatus"]).mapM parsePubliceret
  let relationOverordnet ←
    (registrering.findall ["RelationListe", "OverordnetKlasse"]).mapM parseOverordnet
  return ⟨← raising (uuidOfText uuid), attributEgenskab, tilstandPubliceret, relationOverordnet⟩

end Os2moFkk
