import Mathlib.Data.List.Forall2
import Os2moFkk.IsoText
import Os2moFkk.ParseKlasse

/-!
# Rendered Klasser

How a Klasse is laid out in the answer from Klassifikation, and that the parser
gets it back. The texts of all leaves but one are stripped: whitespace around a
GraenseIndikator raises (`rendered_parsed_iff`).
-/

namespace Os2moFkk
open Itertools Xml IsoFormat

/-! ## Texts -/

/-- Five groups of hexadecimal digits, 8-4-4-4-12. -/
inductive UuidText : Text → UUID → Prop
  | mk {a b c d e : Text} (lengths : [a, b, c, d, e].map List.length = [8, 4, 4, 4, 12])
      (hex : ((a ++ b ++ c ++ d ++ e).all fun x => (hexDigit x).isSome) = true) :
      UuidText (a ++ '-' :: (b ++ '-' :: (c ++ '-' :: (d ++ '-' :: e))))
        (BitVec.ofNat 128 (hexNumber (a ++ b ++ c ++ d ++ e)))

def booleanText (b : Bool) : Text := if b then "true".toList else "false".toList

/-- The leaf holds the text, with any whitespace before and after it. -/
def HasText (text : Text) (leaf : Element) : Prop :=
  ∃ padded, leaf.text = some padded ∧ Padded isSpace padded text

def HasUuid (uuid : UUID) (leaf : Element) : Prop := ∃ text, UuidText text uuid ∧ HasText text leaf

/-! ## The layout -/

/-- A bound equal to the limit is marked, any other written as its instant. -/
inductive RendersTidspunkt (limit d : Datetime) (e : Element) : Prop
  | limit (equal : d.instant = limit.instant)
      (indicator : e.One "GraenseIndikator" (HasText (booleanText true)))
  | timestamp {text : Text} (finite : d.instant ≠ limit.instant)
      (unmarked : e.named "GraenseIndikator" = []) (instant : InstantText text d.instant)
      (timestamp : e.One "TidsstempelDatoTid" (HasText text))

structure RendersVirkning (v : Virkning) (e : Element) : Prop where
  fra : e.One "FraTidspunkt" (RendersTidspunkt .negativeInfinity v.fra)
  til : e.One "TilTidspunkt" (RendersTidspunkt .positiveInfinity v.til)

structure RendersEgenskab (obj : Egenskab) (e : Element) : Prop where
  virkning : e.One "Virkning" (RendersVirkning obj.virkning)
  brugervendtnoegle : e.One "BrugervendtNoegleTekst" (HasText obj.brugervendtnoegle.toList)
  titel : e.One "TitelTekst" (HasText obj.titel.toList)

structure RendersPubliceret (obj : PubliceretTilstand) (e : Element) : Prop where
  virkning : e.One "Virkning" (RendersVirkning obj.virkning)
  erPubliceret : e.One "ErPubliceretIndikator" (HasText (booleanText obj.erPubliceret))

structure RendersOverordnet (obj : OverordnetRelation) (e : Element) : Prop where
  virkning : e.One "Virkning" (RendersVirkning obj.virkning)
  uuid : e.One "ReferenceID" (·.One "UUIDIdentifikator" (HasUuid obj.uuid))

/-- One element for each entry, in the order of the lists. -/
structure RendersRegistrering (klasse : Klasse) (e : Element) : Prop where
  attributEgenskab : List.Forall₂ RendersEgenskab klasse.attributEgenskab
    (e.findall ["AttributListe", "Egenskab"])
  tilstandPubliceret : List.Forall₂ RendersPubliceret klasse.tilstandPubliceret
    (e.findall ["TilstandListe", "PubliceretStatus"])
  relationOverordnet : List.Forall₂ RendersOverordnet klasse.relationOverordnet
    (e.findall ["RelationListe", "OverordnetKlasse"])

structure RendersOejebliksbillede (klasse : Klasse) (e : Element) : Prop where
  objektID : e.One "ObjektID" (·.One "UUIDIdentifikator" (HasUuid klasse.uuid))
  registrering : e.One "Registrering" (RendersRegistrering klasse)

def RendersKlasse (klasse : Klasse) (e : Element) : Prop :=
  e.One "FiltreretOejebliksbillede" (RendersOejebliksbillede klasse)

/-! ## What the parser gets back -/

/-- No whitespace stands before or after the user key and the title. -/
def Egenskab.Stripped (obj : Egenskab) : Prop :=
  Trimmed isSpace obj.brugervendtnoegle.toList ∧ Trimmed isSpace obj.titel.toList

/-- `klasse == klasse'`. -/
structure Klasse.Equals (klasse klasse' : Klasse) : Prop where
  uuid : klasse.uuid = klasse'.uuid
  attributEgenskab :
    klasse.attributEgenskab.map (entryMeaning fun e => (e.brugervendtnoegle, e.titel)) =
      klasse'.attributEgenskab.map (entryMeaning fun e => (e.brugervendtnoegle, e.titel))
  tilstandPubliceret : klasse.tilstandPubliceret.map (entryMeaning (·.erPubliceret)) =
    klasse'.tilstandPubliceret.map (entryMeaning (·.erPubliceret))
  relationOverordnet : klasse.relationOverordnet.map (entryMeaning (·.uuid)) =
    klasse'.relationOverordnet.map (entryMeaning (·.uuid))

/-! ## Offsets

Equal bounds are the same instants, but may be written with different offsets. -/

def Datetime.writtenOffset : Datetime → Option Offset
  | .timestamp _ (.fixed offset) => some offset
  | _ => none

def Virkning.offsets (v : Virkning) : Option Offset × Option Offset :=
  (v.fra.writtenOffset, v.til.writtenOffset)

def Klasse.offsets (klasse : Klasse) : List (Option Offset × Option Offset) :=
  klasse.virkninger.map Virkning.offsets

theorem Datetime.eq_of_instant {d d' : Datetime} (h : d.Aware) (h' : d'.Aware)
    (hinstant : d.instant = d'.instant) (hoffset : d.writtenOffset = d'.writtenOffset) :
    d = d' := by
  rcases d with _ | _ | ⟨wall, offset | zone⟩ <;> rcases d' with _ | _ | ⟨wall', offset' | zone'⟩
  -- two limits, a limit and a timestamp, a time zone that no text gives
  all_goals first
    | rfl
    | exact h.elim
    | exact h'.elim
    | exact absurd hinstant (by decide)
    | cases hoffset
  have hwall : wall - offset.micros = wall' - offset.micros := hinstant
  obtain rfl : wall = wall' := by omega
  rfl

theorem Virkning.eq_of_offsets {v v' : Virkning} (hfra : v.fra.instant = v'.fra.instant)
    (htil : v.til.instant = v'.til.instant) (hoffsets : v.offsets = v'.offsets) : v = v' := by
  obtain ⟨hfraOffset, htilOffset⟩ := Prod.mk.inj hoffsets
  have hfra' := Datetime.eq_of_instant v.fra_aware v'.fra_aware hfra hfraOffset
  have htil' := Datetime.eq_of_instant v.til_aware v'.til_aware htil htilOffset
  cases v
  cases v'
  cases hfra'
  cases htil'
  rfl

/-- Equal lists with the same offsets are the same. -/
theorem eq_of_entryMeaning {α κ : Type} [HasVirkning α] {rest : α → κ}
    (hext : ∀ a b : α, virkning a = virkning b → rest a = rest b → a = b) {l l' : List α}
    (h : l.map (entryMeaning rest) = l'.map (entryMeaning rest))
    (hoffsets : l.map (fun a => (virkning a).offsets) = l'.map fun a => (virkning a).offsets) :
    l = l' := by
  induction l generalizing l' with
  | nil =>
    cases l' with
    | nil => rfl
    | cons => cases h
  | cons a l ih =>
    cases l' with
    | nil => cases h
    | cons b l' =>
      simp only [List.map_cons, List.cons.injEq, entryMeaning, Prod.mk.injEq] at h hoffsets
      obtain ⟨⟨⟨hfra, htil⟩, hrest⟩, htail⟩ := h
      have hvirkning := Virkning.eq_of_offsets hfra htil hoffsets.1
      rw [hext a b hvirkning hrest, ih htail hoffsets.2]

theorem Klasse.Equals.eq_of_offsets {klasse klasse' : Klasse} (h : klasse.Equals klasse')
    (hoffsets : klasse.offsets = klasse'.offsets) : klasse = klasse' := by
  have hlength : ∀ {α κ : Type} {f : α → κ} {l l' : List α}, l.map f = l'.map f →
      l.length = l'.length := fun hmap => by simpa using congrArg List.length hmap
  simp only [Klasse.offsets, Klasse.virkninger, List.map_append, List.map_map] at hoffsets
  obtain ⟨hfirst, hrelationer⟩ := List.append_inj hoffsets
    (by simp [hlength h.attributEgenskab, hlength h.tilstandPubliceret])
  obtain ⟨hegenskaber, htilstande⟩ := List.append_inj hfirst (by simp [hlength h.attributEgenskab])
  obtain ⟨uuid, egenskaber, tilstande, relationer⟩ := klasse
  obtain ⟨uuid', egenskaber', tilstande', relationer'⟩ := klasse'
  obtain rfl : uuid = uuid' := h.uuid
  have egenskabExt : ∀ a b : Egenskab, virkning a = virkning b →
      (a.brugervendtnoegle, a.titel) = (b.brugervendtnoegle, b.titel) → a = b := by
    rintro ⟨v, key, titel⟩ ⟨v', key', titel'⟩ hv hrest
    obtain ⟨rfl, rfl⟩ := Prod.mk.inj hrest
    exact congrArg (Egenskab.mk · key titel) hv
  have publiceretExt : ∀ a b : PubliceretTilstand, virkning a = virkning b →
      a.erPubliceret = b.erPubliceret → a = b := by
    rintro ⟨v, published⟩ ⟨v', published'⟩ hv rfl
    exact congrArg (PubliceretTilstand.mk · published) hv
  have overordnetExt : ∀ a b : OverordnetRelation, virkning a = virkning b →
      a.uuid = b.uuid → a = b := by
    rintro ⟨v, parent⟩ ⟨v', parent'⟩ hv rfl
    exact congrArg (OverordnetRelation.mk · parent) hv
  obtain rfl : egenskaber = egenskaber' :=
    eq_of_entryMeaning egenskabExt h.attributEgenskab hegenskaber
  obtain rfl : tilstande = tilstande' :=
    eq_of_entryMeaning publiceretExt h.tilstandPubliceret htilstande
  obtain rfl : relationer = relationer' :=
    eq_of_entryMeaning overordnetExt h.relationOverordnet hrelationer
  rfl

/-! ## Limits -/

/-- Whatever stands along the path holds the text true and nothing else. -/
def ExactAt (path : List String) (e : Element) : Prop :=
  ∀ indicator ∈ e.findall path, indicator.text = some "true".toList

instance (path : List String) (e : Element) : Decidable (ExactAt path e) :=
  inferInstanceAs (Decidable (∀ indicator ∈ _, _))

/-- Where the bounds of entries are marked as limits. -/
def limitPaths : List (List String) :=
  [["AttributListe", "Egenskab"], ["TilstandListe", "PubliceretStatus"],
    ["RelationListe", "OverordnetKlasse"]].flatMap fun entry =>
      ["FraTidspunkt", "TilTidspunkt"].map fun tidspunkt =>
        ["FiltreretOejebliksbillede", "Registrering"] ++ entry ++
          ["Virkning", tidspunkt, "GraenseIndikator"]

/-! ## Reading texts -/

theorem booleans_booleanText (b : Bool) : booleans (booleanText b) = .ok b := by
  cases b <;> rfl

theorem trimmed_booleanText (b : Bool) : Trimmed isSpace (booleanText b) := by
  cases b <;> exact Trimmed.of_all (by decide)

theorem IsoFormat.InstantText.trimmed {text : Text} {instant : Int} (h : InstantText text instant) :
    Trimmed isSpace text := by
  have hdigit : ∀ c : Char, c.isDigit = true → (!isSpace c) = true := by
    intro c hc
    have := isDigit_range hc
    rw [isSpace_printable (by omega)]
    rfl
  exact Trimmed.of_all (h.all hdigit (by decide))

theorem hexDigit_range {c : Char} (h : (hexDigit c).isSome = true) :
    48 ≤ c.toNat ∧ c.toNat ≤ 102 := by
  unfold hexDigit at h
  grind

theorem hexDigit_ne {c d : Char} (h : (hexDigit c).isSome = true) (hd : hexDigit d = none) :
    c ≠ d := by
  rintro rfl
  rw [hd] at h
  cases h

theorem UuidText.all {p : Char → Bool} {text : Text} {uuid : UUID} (h : UuidText text uuid)
    (hdigit : ∀ c : Char, (hexDigit c).isSome = true → p c = true) (hhyphen : p '-' = true) :
    text.all p = true := by
  obtain ⟨_, hex⟩ := h
  have hall : ∀ {s : Text}, (s.all fun x => (hexDigit x).isSome) = true → s.all p = true :=
    fun hs => List.all_eq_true.mpr fun x hx => hdigit x (List.all_eq_true.mp hs x hx)
  simp only [List.all_append, Bool.and_eq_true] at hex
  obtain ⟨⟨⟨⟨ha, hb⟩, hc⟩, hd⟩, he⟩ := hex
  simp [hhyphen, hall ha, hall hb, hall hc, hall hd, hall he, -List.all_eq_true]

theorem UuidText.trimmed {text : Text} {uuid : UUID} (h : UuidText text uuid) :
    Trimmed isSpace text := by
  refine Trimmed.of_all (h.all (fun c hc => ?_) (by decide))
  have := hexDigit_range hc
  rw [isSpace_printable (by omega)]
  rfl

/-- No character of the text is one that is neither a hexadecimal digit nor a hyphen. -/
theorem UuidText.not_mem {c : Char} {text : Text} {uuid : UUID} (h : UuidText text uuid)
    (hc : hexDigit c = none) (hhyphen : ('-' != c) = true) : c ∉ text := by
  intro hmem
  have hall : (text.all (· != c)) = true :=
    h.all (fun d hd => bne_iff_ne.mpr (hexDigit_ne hd hc)) hhyphen
  exact absurd rfl (bne_iff_ne.mp (List.all_eq_true.mp hall c hmem))

/-- Without hyphens, the digits are left. -/
theorem filter_hyphens {a b c d e : Text}
    (hex : ((a ++ b ++ c ++ d ++ e).all fun x => (hexDigit x).isSome) = true) :
    (a ++ '-' :: (b ++ '-' :: (c ++ '-' :: (d ++ '-' :: e)))).filter (· != '-') =
      a ++ b ++ c ++ d ++ e := by
  have hkeep : (a ++ b ++ c ++ d ++ e).filter (· != '-') = a ++ b ++ c ++ d ++ e :=
    List.filter_eq_self.mpr fun x hx =>
      bne_iff_ne.mpr (hexDigit_ne (List.all_eq_true.mp hex x hx) rfl)
  simp only [List.filter_append] at hkeep
  simpa [List.filter_append, List.filter_cons] using hkeep

theorem UuidText.parse {text : Text} {uuid : UUID} (h : UuidText text uuid) :
    uuidOfText text = .ok uuid := by
  have hu : 'u' ∉ text := h.not_mem rfl rfl
  have hbrace : Trimmed isBrace text := by
    refine Trimmed.of_all (h.all (fun c hc => ?_) rfl)
    have hopen : c ≠ '\x7b' := hexDigit_ne hc rfl
    have hclose : c ≠ '\x7d' := hexDigit_ne hc rfl
    simp [isBrace, hopen, hclose]
  have hbare : removeFrom "uuid:".toList 0 (removeFrom "urn:".toList 0 text) = text :=
    (congrArg _ (removeFrom_eq hu)).trans (removeFrom_eq hu)
  rw [uuidOfText, hbare, (Padded.refl text).stripWith hbrace]
  obtain @⟨a, b, c, d, e, lengths, hex⟩ := h
  have hlength : (a ++ b ++ c ++ d ++ e).length = 32 := by
    simp at lengths ⊢
    omega
  rw [filter_hyphens hex]
  exact if_pos ⟨hlength, hex⟩

/-! ## Looking up elements -/

theorem find_one {e : Element} {tag : String} {like : Element → Prop} (h : e.One tag like) :
    ∃ child, e.Only tag child ∧ like child ∧ find e [tag] = .ok child := by
  obtain ⟨child, honly, hlike⟩ := h
  refine ⟨child, honly, hlike, ?_⟩
  rw [find, honly.find]

theorem findtext_hasText {e leaf : Element} {path : List String} {text : Text}
    (h : e.find path = some leaf) (htext : HasText text leaf) (htrimmed : Trimmed isSpace text) :
    findtext e path = .ok text := by
  obtain ⟨padded, hpadded, hpadding⟩ := htext
  rw [findtext, find, h, ok_bind, hpadded]
  exact congrArg Except.ok (hpadding.stripWith htrimmed)

theorem findtext_one {e : Element} {tag : String} {text : Text} (h : e.One tag (HasText text))
    (htrimmed : Trimmed isSpace text) : findtext e [tag] = .ok text := by
  obtain ⟨leaf, honly, htext⟩ := h
  exact findtext_hasText honly.find htext htrimmed

theorem findtext_only {e child : Element} {tag : String} (h : e.Only tag child)
    (path : List String) : findtext e (tag :: path) = findtext child path := by
  rw [findtext, find, h.find_cons]
  rfl

/-- The UUID of a leaf is read once its text is found. -/
theorem findtext_uuid {e : Element} {tag tag' : String} {uuid : UUID}
    (h : e.One tag (·.One tag' (HasUuid uuid))) :
    ∃ text, findtext e [tag, tag'] = .ok text ∧ uuidOfText text = .ok uuid := by
  obtain ⟨child, honly, leaf, honly', text, huuid, htext⟩ := h
  have hfind : e.find [tag, tag'] = some leaf := by rw [honly.find_cons, honly'.find]
  exact ⟨text, findtext_hasText hfind htext huuid.trimmed, huuid.parse⟩

theorem exactAt_only {e child : Element} {tag : String} {path : List String}
    (h : e.Only tag child) : ExactAt (tag :: path) e ↔ ExactAt path child := by
  rw [ExactAt, h.findall, ExactAt]

theorem exactAt_append {e : Element} {path path' : List String} :
    ExactAt (path ++ path') e ↔ ∀ x ∈ e.findall path, ExactAt path' x := by
  simp only [ExactAt, Element.findall_append, List.mem_flatMap]
  exact ⟨fun h x hx l hl => h l ⟨x, hx, hl⟩, fun h l ⟨x, hx, hl⟩ => h x hx l hl⟩

/-! ## The parser on a rendered Klasse -/

/-- A limit is read as such if nothing stands around the text true. -/
theorem booleans_padded {padded : Text} (h : Padded isSpace padded (booleanText true)) :
    ReturnsIff (padded = "true".toList) (· = true) (booleans padded) := by
  have hstrip := h.stripWith (trimmed_booleanText true)
  by_cases htrue : padded = "true".toList
  · rw [htrue]
    exact ⟨rfl, rfl⟩
  · have hfalse : padded ≠ "false".toList := by
      rintro rfl
      revert hstrip
      decide
    rw [booleans, if_neg hfalse, if_neg htrue]
    exact htrue

theorem parseTidspunkt_rendered {limit : Tidspunkt} {d : Datetime} {e : Element}
    (h : RendersTidspunkt limit.val d e) :
    ReturnsIff (ExactAt ["GraenseIndikator"] e) (fun t : Tidspunkt => t.val.instant = d.instant)
      (parseTidspunkt e limit) := by
  cases h with
  | limit equal indicator =>
    obtain ⟨child, honly, padded, htext, hpadded⟩ := indicator
    have hexact : padded = "true".toList ↔ ExactAt ["GraenseIndikator"] e := by
      rw [exactAt_only honly]
      simp [ExactAt, Element.findall, htext]
    rw [parseTidspunkt, honly.find]
    dsimp only
    rw [htext]
    refine ((booleans_padded hpadded).bind_ok fun b hb => ?_).congr hexact
    rw [hb]
    exact ⟨limit, rfl, equal.symm⟩
  | timestamp finite unmarked instant timestamp =>
    obtain ⟨x, tz, hx, htz, hinstant⟩ := instant.parse
    have hexact : ExactAt ["GraenseIndikator"] e := by
      simp [ExactAt, Element.findall_single, unmarked]
    have htidspunkt : parseTidspunkt e limit =
        .ok ⟨.timestamp x.wall (.fixed tz), x.lower, x.upper⟩ := by
      rw [parseTidspunkt, Element.find_eq_none unmarked]
      dsimp only
      rw [findtext_one timestamp instant.trimmed, ok_bind, hx]
      simp [raising, IsoDatetime.tidspunkt, htz, Except.mapError]
    exact (ReturnsIff.of_ok htidspunkt hinstant).congr (iff_of_true trivial hexact)

/-- Both bounds are read if neither has anything around a limit. -/
theorem parseVirkning_rendered {v : Virkning} {e : Element} (h : RendersVirkning v e) :
    ReturnsIff (ExactAt ["FraTidspunkt", "GraenseIndikator"] e ∧
        ExactAt ["TilTidspunkt", "GraenseIndikator"] e)
      (fun w : Virkning => w.fra.instant = v.fra.instant ∧ w.til.instant = v.til.instant)
      (parseVirkning e) := by
  obtain ⟨fra, honlyFra, hfra, hfindFra⟩ := find_one h.fra
  obtain ⟨til, honlyTil, htil, hfindTil⟩ := find_one h.til
  rw [parseVirkning, hfindFra, ok_bind, hfindTil, exactAt_only honlyFra, exactAt_only honlyTil]
  refine (parseTidspunkt_rendered hfra).bind fun f hf => ?_
  rw [ok_bind]
  exact (parseTidspunkt_rendered htil).bind_ok fun t ht => ⟨_, rfl, hf, ht⟩

/-- No limit of the entry has anything around it. -/
def ExactEntry (e : Element) : Prop :=
  ExactAt ["Virkning", "FraTidspunkt", "GraenseIndikator"] e ∧
    ExactAt ["Virkning", "TilTidspunkt", "GraenseIndikator"] e

/-- An entry starts with its bounds and goes on with leaves. -/
theorem parseEntry_rendered {α κ : Type} [HasVirkning α] {rest : α → κ} {obj : α} {e : Element}
    {build : Virkning → Except Unparsed α} (h : e.One "Virkning" (RendersVirkning (virkning obj)))
    (hbuild : ∀ v, ∃ a, build v = .ok a ∧ virkning a = v ∧ rest a = rest obj) :
    ReturnsIff (ExactEntry e) (fun a => entryMeaning rest obj = entryMeaning rest a)
      (find e ["Virkning"] >>= fun v => parseVirkning v >>= build) := by
  obtain ⟨child, honly, hv, hfind⟩ := find_one h
  rw [hfind, ok_bind, ExactEntry, exactAt_only honly, exactAt_only honly]
  refine (parseVirkning_rendered hv).bind_ok fun v hbounds => ?_
  obtain ⟨a, ha, hvirkning, hrest⟩ := hbuild v
  refine ⟨a, ha, ?_⟩
  rw [entryMeaning, entryMeaning, hvirkning, hrest, hbounds.1, hbounds.2]

theorem parseEgenskab_rendered {obj : Egenskab} {e : Element}
    (h : obj.Stripped ∧ RendersEgenskab obj e) :
    ReturnsIff (ExactEntry e) (fun a => entryMeaning (fun e => (e.brugervendtnoegle, e.titel)) obj =
      entryMeaning (fun e => (e.brugervendtnoegle, e.titel)) a) (parseEgenskab e) := by
  obtain ⟨⟨hkey, htitle⟩, h⟩ := h
  refine parseEntry_rendered h.virkning fun v => ?_
  rw [findtext_one h.brugervendtnoegle hkey, ok_bind, findtext_one h.titel htitle, ok_bind,
    String.ofList_toList, String.ofList_toList]
  exact ⟨_, rfl, rfl, rfl⟩

theorem parsePubliceret_rendered {obj : PubliceretTilstand} {e : Element}
    (h : RendersPubliceret obj e) :
    ReturnsIff (ExactEntry e) (fun a => entryMeaning PubliceretTilstand.erPubliceret obj =
      entryMeaning PubliceretTilstand.erPubliceret a) (parsePubliceret e) := by
  refine parseEntry_rendered h.virkning fun v => ?_
  rw [findtext_one h.erPubliceret (trimmed_booleanText _), ok_bind, booleans_booleanText, ok_bind]
  exact ⟨_, rfl, rfl, rfl⟩

theorem parseOverordnet_rendered {obj : OverordnetRelation} {e : Element}
    (h : RendersOverordnet obj e) :
    ReturnsIff (ExactEntry e) (fun a => entryMeaning OverordnetRelation.uuid obj =
      entryMeaning OverordnetRelation.uuid a) (parseOverordnet e) := by
  obtain ⟨text, htext, huuid⟩ := findtext_uuid h.uuid
  refine parseEntry_rendered h.virkning fun v => ?_
  rw [htext, ok_bind, huuid]
  exact ⟨_, rfl, rfl, rfl⟩

/-- Lists that are equal entry by entry. -/
theorem map_entryMeaning {α κ : Type} [HasVirkning α] {rest : α → κ} {l l' : List α}
    (h : List.Forall₂ (fun a b => entryMeaning rest a = entryMeaning rest b) l l') :
    l'.map (entryMeaning rest) = l.map (entryMeaning rest) := by
  induction h with
  | nil => rfl
  | cons hhead _ ih => rw [List.map_cons, List.map_cons, hhead, ih]

/-- The limits of the entries are the ones along the paths. -/
theorem exactEntries_iff {e oejebliksbillede registrering : Element}
    (honly : e.Only "FiltreretOejebliksbillede" oejebliksbillede)
    (honly' : oejebliksbillede.Only "Registrering" registrering) :
    (∀ path ∈ limitPaths, ExactAt path e) ↔
      (∀ x ∈ registrering.findall ["AttributListe", "Egenskab"], ExactEntry x) ∧
      (∀ x ∈ registrering.findall ["TilstandListe", "PubliceretStatus"], ExactEntry x) ∧
      ∀ x ∈ registrering.findall ["RelationListe", "OverordnetKlasse"], ExactEntry x := by
  have hentry : ∀ liste entry tidspunkt,
      ExactAt ["FiltreretOejebliksbillede", "Registrering", liste, entry, "Virkning", tidspunkt,
        "GraenseIndikator"] e ↔ ∀ x ∈ registrering.findall [liste, entry],
          ExactAt ["Virkning", tidspunkt, "GraenseIndikator"] x := by
    intro liste entry tidspunkt
    rw [exactAt_only honly, exactAt_only honly']
    exact @exactAt_append registrering [liste, entry] _
  simp only [limitPaths, List.flatMap_cons, List.flatMap_nil, List.map_cons, List.map_nil,
    List.cons_append, List.nil_append, List.append_nil, List.forall_mem_cons, hentry, ExactEntry,
    forall_and, and_assoc]
  simp

/-- What is parsed of a rendered Klasse is that Klasse. -/
theorem parseKlasse_rendered {klasse : Klasse} {e : Element}
    (hstripped : ∀ obj ∈ klasse.attributEgenskab, obj.Stripped) (h : RendersKlasse klasse e) :
    ReturnsIff (∀ path ∈ limitPaths, ExactAt path e) (·.Equals klasse) (parseKlasse e) := by
  obtain ⟨oejebliksbillede, honly, hoejebliksbillede⟩ := h
  obtain ⟨text, htext, huuid⟩ := findtext_uuid hoejebliksbillede.objektID
  obtain ⟨registrering, honly', hregistrering⟩ := hoejebliksbillede.registrering
  have hfind : find e ["FiltreretOejebliksbillede", "Registrering"] = .ok registrering := by
    rw [find, honly.find_cons, honly'.find]
  have hegenskaber := ReturnsIff.mapM
    (((List.forall₂_and_left _ _).mpr ⟨hstripped, hregistrering.attributEgenskab⟩).imp
      fun _ _ => parseEgenskab_rendered)
  have htilstande := ReturnsIff.mapM
    (hregistrering.tilstandPubliceret.imp fun _ _ => parsePubliceret_rendered)
  have hrelationer := ReturnsIff.mapM
    (hregistrering.relationOverordnet.imp fun _ _ => parseOverordnet_rendered)
  rw [exactEntries_iff honly honly', parseKlasse, findtext_only honly, htext, ok_bind, hfind,
    ok_bind]
  refine hegenskaber.bind fun egenskaber he => htilstande.bind fun tilstande ht => ?_
  refine hrelationer.bind_ok fun relationer hr => ?_
  rw [huuid]
  exact ⟨_, rfl, rfl, map_entryMeaning he, map_entryMeaning ht, map_entryMeaning hr⟩

/-- A rendered Klasse is parsed, and as itself, exactly when nothing stands
around the text of any GraenseIndikator. -/
theorem rendered_parsed_iff {klasse : Klasse} {e : Element}
    (hstripped : ∀ obj ∈ klasse.attributEgenskab, obj.Stripped) (h : RendersKlasse klasse e) :
    (∃ klasse', parseKlasse e = .ok klasse' ∧ klasse'.Equals klasse) ↔
      ∀ path ∈ limitPaths, ExactAt path e :=
  (parseKlasse_rendered hstripped h).exists_iff

/-- From June 2014 on. -/
def openVirkning : Virkning where
  fra := .ofDate 2014 6 1 0 cest
  til := .positiveInfinity
  fra_aware := by decide
  til_aware := trivial

def openKlasse : Klasse where
  uuid := 0x0095665f3685498b8ba72339d05a5bda#128
  attributEgenskab := [⟨openVirkning, "85.15.02", "IT-sikkerhed"⟩]
  tilstandPubliceret := [⟨openVirkning, true⟩]
  relationOverordnet := [⟨openVirkning, 0x8f847ae9cc68414a81b36444b46d8480#128⟩]

def virkningElement (limit : Text) : Element :=
  .node "Virkning" [
    .node "FraTidspunkt" [
      .leaf "TidsstempelDatoTid" "\n 2014-06-01T00:00:00.000+02:00\n".toList],
    .node "TilTidspunkt" [.leaf "GraenseIndikator" limit],
    .leaf "AktoerTypeKode" "Organisation".toList]

def registreringElement (limit : Text) : Element :=
  .node "Registrering" [
    .node "AktoerRef" [.leaf "UUIDIdentifikator" "f86aa398-a992-4a03-9ce1-639063b7f9c6".toList],
    .node "AttributListe" [
      .node "Egenskab" [
        virkningElement limit,
        .leaf "BrugervendtNoegleTekst" " 85.15.02 ".toList,
        .leaf "TitelTekst" "IT-sikkerhed\n".toList]],
    .node "TilstandListe" [
      .node "PubliceretStatus" [
        virkningElement limit,
        .leaf "ErPubliceretIndikator" "\ttrue".toList]],
    .node "RelationListe" [
      .node "OverordnetKlasse" [
        virkningElement limit,
        .node "ReferenceID" [
          .leaf "UUIDIdentifikator" " 8F847AE9-CC68-414A-81B3-6444B46D8480".toList]]]]

def openElement (limit : Text) : Element :=
  .node "LaesOutput" [
    .node "StandardRetur" [.leaf "StatusKode" "20".toList],
    .node "FiltreretOejebliksbillede" [
      .node "ObjektID" [
        .leaf "UUIDIdentifikator" "\n 0095665f-3685-498b-8ba7-2339d05a5bda\n".toList],
      registreringElement limit]]

theorem text_openVirkning :
    InstantText "2014-06-01T00:00:00.000+02:00".toList openVirkning.fra.instant := by
  have hdate : DateText "2014-06-01".toList ⟨toOrdinal 2014 6 1, by decide, by decide⟩ :=
    @DateText.calendar 2014 6 1 _ true rfl
  have hfraction : FractionText "000".toList 0 := ⟨by decide, by decide, by decide⟩
  have hclock : ClockText "00:00:00.000".toList ⟨0, 0, 0, 0⟩ :=
    @ClockText.fraction 0 0 0 0 '.' _ true (by decide) (by decide) (by decide) (Or.inl rfl)
      hfraction
  have hoffset : ClockText "02:00".toList ⟨2, 0, 0, 0⟩ :=
    @ClockText.minutes 2 0 true (by decide) (by decide)
  have hinstant : dateStart (toOrdinal 2014 6 1) + (Clock.mk 0 0 0 0).micros -
      (Clock.mk 2 0 0 0).micros = openVirkning.fra.instant := by decide
  have htext := InstantText.mk hdate hclock (ZoneText.ahead hoffset)
  rw [← hinstant]
  exact htext

theorem renders_openVirkning {limit : Text} (h : Padded isSpace limit (booleanText true)) :
    RendersVirkning openVirkning (virkningElement limit) where
  fra := ⟨_, rfl, RendersTidspunkt.timestamp (by decide) rfl text_openVirkning
    ⟨_, rfl, _, rfl, "\n ".toList, "\n".toList, by decide, by decide, by decide⟩⟩
  til := ⟨_, rfl, RendersTidspunkt.limit rfl ⟨_, rfl, limit, rfl, h⟩⟩

theorem renders_registreringElement {limit : Text} (h : Padded isSpace limit (booleanText true)) :
    RendersRegistrering openKlasse (registreringElement limit) := by
  have hv := renders_openVirkning h
  have hparent : UuidText "8F847AE9-CC68-414A-81B3-6444B46D8480".toList
      0x8f847ae9cc68414a81b36444b46d8480#128 :=
    @UuidText.mk "8F847AE9".toList "CC68".toList "414A".toList "81B3".toList
      "6444B46D8480".toList rfl (by decide)
  exact {
    attributEgenskab := List.Forall₂.cons {
      virkning := ⟨_, rfl, hv⟩
      brugervendtnoegle := ⟨_, rfl, _, rfl, [' '], [' '], by decide, by decide, by decide⟩
      titel := ⟨_, rfl, _, rfl, [], ['\n'], by decide, by decide, by decide⟩ } List.Forall₂.nil
    tilstandPubliceret := List.Forall₂.cons {
      virkning := ⟨_, rfl, hv⟩
      erPubliceret := ⟨_, rfl, _, rfl, ['\t'], [], by decide, by decide, by decide⟩ }
      List.Forall₂.nil
    relationOverordnet := List.Forall₂.cons {
      virkning := ⟨_, rfl, hv⟩
      uuid := ⟨_, rfl, _, rfl, _, hparent, _, rfl, [' '], [], by decide, by decide, by decide⟩ }
      List.Forall₂.nil }

/-- Padding the limits leaves it a rendering of the same Klasse. -/
theorem renders_openKlasse {limit : Text} (h : Padded isSpace limit (booleanText true)) :
    RendersKlasse openKlasse (openElement limit) := by
  have huuid : UuidText "0095665f-3685-498b-8ba7-2339d05a5bda".toList openKlasse.uuid :=
    @UuidText.mk "0095665f".toList "3685".toList "498b".toList "8ba7".toList
      "2339d05a5bda".toList rfl (by decide)
  exact ⟨_, rfl, ⟨_, rfl, _, rfl, _, huuid, _, rfl, "\n ".toList, ['\n'], by decide, by decide,
    by decide⟩, ⟨_, rfl, renders_registreringElement h⟩⟩

theorem stripped_openKlasse : ∀ obj ∈ openKlasse.attributEgenskab, obj.Stripped := by
  intro obj hobj
  rw [List.mem_singleton.mp hobj]
  exact ⟨Trimmed.of_all (by decide), Trimmed.of_all (by decide)⟩

theorem rendered_parsed_iff_openKlasse :
    ∃ klasse', parseKlasse (openElement "true".toList) = .ok klasse' ∧ klasse'.Equals openKlasse :=
  (rendered_parsed_iff stripped_openKlasse (renders_openKlasse (Padded.refl _))).mpr (by decide)

/-- A line break before the text of the limits raises. -/
theorem padded_limit_raises :
    (∀ obj ∈ openKlasse.attributEgenskab, obj.Stripped) ∧
      RendersKlasse openKlasse (openElement "\n true".toList) ∧
      parseKlasse (openElement "\n true".toList) = .error (.raised .keyError) :=
  ⟨stripped_openKlasse, renders_openKlasse ⟨"\n ".toList, [], rfl, by decide, by decide⟩, rfl⟩

end Os2moFkk
