import Os2moFkk.Pieces

/-!
# Klasser that mean the same

Two Klasser can list the same entries in another order and write the same
instants at other offsets. The split sees no difference. Truncation goes by the
clock of the timestamp that is mentioned first, and MO's null is written for the
very objects that stand for infinity (`same_outcome_iff`).
-/

namespace Os2moFkk
open Itertools

/-- Permutations of each other up to equality of entries. -/
def SameEntries {α κ : Type} [HasVirkning α] (rest : α → κ) (l l' : List α) : Prop :=
  (l.map (entryMeaning rest)).Perm (l'.map (entryMeaning rest))

/-- The same UUID, and lists that are permutations up to equality. -/
structure Klasse.Same (klasse klasse' : Klasse) : Prop where
  uuid : klasse.uuid = klasse'.uuid
  attributEgenskab : SameEntries (fun e : Egenskab => (e.brugervendtnoegle, e.titel))
    klasse.attributEgenskab klasse'.attributEgenskab
  tilstandPubliceret : SameEntries PubliceretTilstand.erPubliceret
    klasse.tilstandPubliceret klasse'.tilstandPubliceret
  relationOverordnet : SameEntries OverordnetRelation.uuid
    klasse.relationOverordnet klasse'.relationOverordnet

/-- A MO input, with its bounds as instants or null. -/
def ClassInput.meaning (input : ClassInput) :
    UUID × Option Int × Option Int × UUID × String × String × Option UUID :=
  (input.facetUuid, input.validity.from_.map Datetime.instant,
    input.validity.to_.map Datetime.instant, input.uuid, input.userKey, input.name,
    input.parentUuid)

/-- Both raise, or the same set of inputs is written for both. -/
def SameOutcome (facet : UUID) (klasse klasse' : Klasse) : Prop :=
  (∃ e e', desiredStates (some klasse) facet = .error e ∧
    desiredStates (some klasse') facet = .error e') ∨
  ∃ desired desired', desiredStates (some klasse) facet = .ok desired ∧
    desiredStates (some klasse') facet = .ok desired' ∧
    KeyedSet.Same ClassInput.meaning (desired.map classValidityToCreateInput)
      (desired'.map classValidityToCreateInput) ∧
    KeyedSet.Same ClassInput.meaning (desired.map classValidityToUpdateInput)
      (desired'.map classValidityToUpdateInput)

/-- The conversion is undefined somewhere between the bounds of the Klasse. -/
def UndefinedWithin (klasse : Klasse) : Prop :=
  ∃ t, (∃ a ∈ klasse.bounds, a.instant ≤ t) ∧ (∃ b ∈ klasse.bounds, t < b.instant) ∧
    Undefined klasse t

/-- Both or neither are the object that stands for infinity, and they show the
same time of day unless they equal an infinity. -/
def WrittenAlike (infinity d d' : Datetime) : Prop :=
  (d = infinity ↔ d' = infinity) ∧ (¬ d.Infinite → d.wall % day = d'.wall % day)

/-- Wherever either has a long piece, the timestamps at its ends that the two
mention first are written alike. -/
def PiecesAlike (klasse klasse' : Klasse) : Prop :=
  ∀ a b a' b', FirstMentioned klasse a → FirstMentioned klasse b →
    FirstMentioned klasse' a' → FirstMentioned klasse' b' →
    a.instant = a'.instant → b.instant = b'.instant →
    LongPiece klasse a b ∨ LongPiece klasse' a' b' →
    WrittenAlike .negativeInfinity a a' ∧ WrittenAlike .positiveInfinity b b'

/-! ## Entries -/

section
variable {α κ : Type} [HasVirkning α] {rest : α → κ} {l l' : List α}

theorem SameEntries.symm (h : SameEntries rest l l') : SameEntries rest l' l := List.Perm.symm h

/-- The same entries are in force at an instant. -/
theorem SameEntries.inForce (h : SameEntries rest l l') (t : Int) :
    SameEntries rest (inForce l t) (inForce l' t) := by
  have hfilter : ∀ l : List α, (Os2moFkk.inForce l t).map (entryMeaning rest) =
      (l.map (entryMeaning rest)).filter fun m => m.1.1 ≤ t ∧ t < m.1.2 := by
    intro l
    rw [List.filter_map]
    rfl
  unfold SameEntries
  rw [hfilter, hfilter]
  exact h.filter _

theorem SameEntries.length_eq (h : SameEntries rest l l') : l.length = l'.length := by
  simpa using List.Perm.length_eq h

theorem SameEntries.exists_mem (h : SameEntries rest l l') {a : α} (ha : a ∈ l) :
    ∃ a' ∈ l', entryMeaning rest a' = entryMeaning rest a :=
  List.mem_map.mp (h.mem_iff.mp (List.mem_map_of_mem ha))

theorem SameEntries.exists_virkning (h : SameEntries rest l l') {v : Virkning}
    (hv : v ∈ l.map virkning) : ∃ v' ∈ l'.map virkning,
      v'.fra.instant = v.fra.instant ∧ v'.til.instant = v.til.instant := by
  obtain ⟨a, ha, rfl⟩ := List.mem_map.mp hv
  obtain ⟨a', ha', heq⟩ := h.exists_mem ha
  exact ⟨_, List.mem_map_of_mem ha', congrArg (·.1.1) heq, congrArg (·.1.2) heq⟩

theorem SameEntries.singleton {a : α} (h : SameEntries rest [a] l') :
    ∃ a', l' = [a'] ∧ rest a' = rest a := by
  obtain ⟨a', rfl⟩ := List.length_eq_one_iff.mp h.length_eq.symm
  obtain ⟨b, hb, heq⟩ := h.exists_mem (List.mem_singleton_self a)
  obtain rfl := List.mem_singleton.mp hb
  exact ⟨b, rfl, congrArg Prod.snd heq⟩

end

/-! ## What the split sees -/

namespace Klasse.Same

variable {klasse klasse' : Klasse} (h : klasse.Same klasse')
include h

theorem symm : klasse'.Same klasse where
  uuid := h.uuid.symm
  attributEgenskab := h.attributEgenskab.symm
  tilstandPubliceret := h.tilstandPubliceret.symm
  relationOverordnet := h.relationOverordnet.symm

/-- Both mention the same instants. -/
theorem exists_bound {d : Datetime} (hd : d ∈ klasse.bounds) :
    ∃ d' ∈ klasse'.bounds, d'.instant = d.instant := by
  obtain ⟨v, hv, hbound⟩ := mem_bounds.mp hd
  obtain ⟨v', hv', hfra, htil⟩ : ∃ v' ∈ klasse'.virkninger,
      v'.fra.instant = v.fra.instant ∧ v'.til.instant = v.til.instant := by
    unfold virkninger at hv ⊢
    rcases List.mem_append.mp hv with hv | hv
    · rcases List.mem_append.mp hv with hv | hv
      · obtain ⟨v', hv', hbounds⟩ := h.attributEgenskab.exists_virkning hv
        exact ⟨v', List.mem_append_left _ (List.mem_append_left _ hv'), hbounds⟩
      · obtain ⟨v', hv', hbounds⟩ := h.tilstandPubliceret.exists_virkning hv
        exact ⟨v', List.mem_append_left _ (List.mem_append_right _ hv'), hbounds⟩
    · obtain ⟨v', hv', hbounds⟩ := h.relationOverordnet.exists_virkning hv
      exact ⟨v', List.mem_append_right _ hv', hbounds⟩
  rcases hbound with rfl | rfl
  · exact ⟨v'.fra, mem_bounds.mpr ⟨v', hv', Or.inl rfl⟩, hfra⟩
  · exact ⟨v'.til, mem_bounds.mpr ⟨v', hv', Or.inr rfl⟩, htil⟩

theorem neighbours {a b a' b' : Datetime} (ha : a.instant = a'.instant)
    (hb : b.instant = b'.instant) (hn : Neighbours klasse a b) : Neighbours klasse' a' b' := by
  obtain ⟨hlt, hout⟩ := hn
  rw [ha, hb] at hlt hout
  refine ⟨hlt, fun c hc => ?_⟩
  obtain ⟨d, hd, heq⟩ := h.symm.exists_bound hc
  exact heq ▸ hout d hd

/-- Both are published at the same instants. -/
theorem published {t : Int} (hp : Published klasse t) : Published klasse' t := by
  obtain ⟨⟨p, hp, her⟩, a, ha⟩ := hp
  obtain ⟨p', hp', heq⟩ := (h.tilstandPubliceret.inForce t).exists_mem hp
  obtain ⟨a', ha', _⟩ := (ha ▸ h.attributEgenskab.inForce t).singleton
  exact ⟨⟨p', hp', (congrArg Prod.snd heq).trans her⟩, a', ha'⟩

theorem undefined {t : Int} (hu : Undefined klasse t) : Undefined klasse' t := by
  rcases hu with hlength | ⟨⟨p, hp, her⟩, ha, ho⟩
  · exact Or.inl ((h.tilstandPubliceret.inForce t).length_eq ▸ hlength)
  · obtain ⟨p', hp', heq⟩ := (hp ▸ h.tilstandPubliceret.inForce t).singleton
    exact Or.inr ⟨⟨p', hp', heq.trans her⟩, (h.attributEgenskab.inForce t).length_eq ▸ ha,
      (h.relationOverordnet.inForce t).length_eq ▸ ho⟩

/-- Both have the same class at an instant. -/
theorem stateAt_values {t : Int} {entries : Egenskab × Option OverordnetRelation}
    (hs : stateAt klasse t = .ok (some entries)) (facet : UUID) (validity validity' : Validity) :
    ∃ entries', stateAt klasse' t = .ok (some entries') ∧
      (classOf klasse' facet validity' entries').values =
        (classOf klasse facet validity entries).values := by
  obtain ⟨attr, parent⟩ := entries
  obtain ⟨⟨p, hp, her⟩, ha, ho⟩ := stateAt_eq_some.mp hs
  obtain ⟨p', hp', heq⟩ := (hp ▸ h.tilstandPubliceret.inForce t).singleton
  obtain ⟨a', ha', htexts⟩ := (ha ▸ h.attributEgenskab.inForce t).singleton
  have hkey : a'.brugervendtnoegle = attr.brugervendtnoegle := congrArg Prod.fst htexts
  have htitle : a'.titel = attr.titel := congrArg Prod.snd htexts
  have hrelation := h.relationOverordnet.inForce t
  rw [ho] at hrelation
  obtain ⟨parent', ho', hparent⟩ : ∃ parent' : Option OverordnetRelation,
      inForce klasse'.relationOverordnet t = parent'.toList ∧
        parent'.map OverordnetRelation.uuid = parent.map OverordnetRelation.uuid := by
    cases parent with
    | none =>
      exact ⟨none, List.length_eq_zero_iff.mp hrelation.length_eq.symm, rfl⟩
    | some o =>
      obtain ⟨o', ho', huuid⟩ := hrelation.singleton
      exact ⟨some o', ho', congrArg some huuid⟩
  refine ⟨(a', parent'), stateAt_eq_some.mpr ⟨⟨p', hp', heq.trans her⟩, ha', ho'⟩, ?_⟩
  simp only [classOf, ClassValidity.values, h.uuid, hparent, hkey, htitle]

end Klasse.Same

/-! ## What truncation and MO's null see -/

section
variable {d d' : Datetime}

theorem truncateTime_eq_negativeInfinity :
    d.truncateTime = .negativeInfinity ↔ d = .negativeInfinity := by
  cases d with
  | negativeInfinity | positiveInfinity => rfl
  | timestamp wall tz =>
    unfold Datetime.truncateTime
    split <;> simp

theorem truncateTime_eq_positiveInfinity :
    d.truncateTime = .positiveInfinity ↔ d = .positiveInfinity := by
  cases d with
  | negativeInfinity | positiveInfinity => rfl
  | timestamp wall tz =>
    unfold Datetime.truncateTime
    split <;> simp

/-- Equal timestamps are truncated alike when they show the same time of day. -/
theorem truncateTime_eq_iff (h : d.Aware) (h' : d'.Aware) (heq : d.instant = d'.instant) :
    d.truncateTime.instant = d'.truncateTime.instant ↔
      (¬ d.Infinite → d.wall % day = d'.wall % day) := by
  by_cases hf : d.Infinite
  · have hf' : d'.Infinite := hf.congr heq
    rw [Datetime.truncateTime_infinite hf, Datetime.truncateTime_infinite hf']
    exact iff_of_true heq fun hnot => absurd hf hnot
  · have hf' : ¬ d'.Infinite := fun hinf => hf (hinf.congr heq.symm)
    have hwall : d.instant + d.offset = d.wall := Int.sub_add_cancel _ _
    have hwall' : d'.instant + d'.offset = d'.wall := Int.sub_add_cancel _ _
    rw [Datetime.instant_truncateTime h hf, Datetime.instant_truncateTime h' hf', hwall, hwall',
      imp_iff_right hf]
    unfold floorDay
    omega

theorem toMo_from_eq_iff {v w : Validity} :
    v.toMo.from_.map Datetime.instant = w.toMo.from_.map Datetime.instant ↔
      (v.start = .negativeInfinity ↔ w.start = .negativeInfinity) ∧
        v.start.instant = w.start.instant := by
  obtain ⟨start, stop⟩ := v
  obtain ⟨start', stop'⟩ := w
  cases start <;> cases start' <;> simp [Validity.toMo]

theorem toMo_to_eq_iff {v w : Validity} :
    v.toMo.to_.map Datetime.instant = w.toMo.to_.map Datetime.instant ↔
      (v.stop = .positiveInfinity ↔ w.stop = .positiveInfinity) ∧
        v.stop.instant = w.stop.instant := by
  obtain ⟨start, stop⟩ := v
  obtain ⟨start', stop'⟩ := w
  cases stop <;> cases stop' <;> simp [Validity.toMo]

end

theorem meaning_eq_iff {v w : ClassValidity} :
    (classValidityToCreateInput v).meaning = (classValidityToCreateInput w).meaning ↔
      v.values = w.values ∧
      v.validity.toMo.from_.map Datetime.instant = w.validity.toMo.from_.map Datetime.instant ∧
      v.validity.toMo.to_.map Datetime.instant = w.validity.toMo.to_.map Datetime.instant := by
  simp only [ClassInput.meaning, classValidityToCreateInput, ClassValidity.values, Prod.mk.injEq]
  constructor
  · rintro ⟨hfacet, hfrom, hto, hrest⟩
    exact ⟨⟨hfacet, hrest⟩, hfrom, hto⟩
  · rintro ⟨⟨hfacet, hrest⟩, hfrom, hto⟩
    exact ⟨hfacet, hfrom, hto, hrest⟩

/-- Two truncated states are the same input when they have the same values and
their untruncated bounds, which are equal, are written alike. -/
theorem meaning_truncated_iff {u u' : ClassValidity}
    (haware : u.validity.start.Aware ∧ u.validity.stop.Aware)
    (haware' : u'.validity.start.Aware ∧ u'.validity.stop.Aware)
    (hstart : u.start = u'.start) (hstop : u.stop = u'.stop) :
    (classValidityToCreateInput u.withValidityAsDates).meaning =
        (classValidityToCreateInput u'.withValidityAsDates).meaning ↔
      u.values = u'.values ∧
      WrittenAlike .negativeInfinity u.validity.start u'.validity.start ∧
      WrittenAlike .positiveInfinity u.validity.stop u'.validity.stop := by
  rw [meaning_eq_iff, toMo_from_eq_iff, toMo_to_eq_iff]
  have hfirst := truncateTime_eq_iff haware.1 haware'.1 hstart
  have hlast := truncateTime_eq_iff haware.2 haware'.2 hstop
  exact and_congr_right' (and_congr
    (and_congr (iff_congr truncateTime_eq_negativeInfinity truncateTime_eq_negativeInfinity) hfirst)
    (and_congr (iff_congr truncateTime_eq_positiveInfinity truncateTime_eq_positiveInfinity) hlast))

/-! ## Two conversions -/

/-- There is a first mention of each instant that is mentioned. -/
theorem exists_firstMentioned {klasse : Klasse} {d : Datetime} (hd : d ∈ klasse.bounds) :
    ∃ c, FirstMentioned klasse c ∧ c.instant = d.instant := by
  obtain ⟨c, hc, heq⟩ : ∃ c ∈ timestamps klasse, c.instant = d.instant :=
    KeyedSet.exists_mem_ofList hd
  exact ⟨c, mem_timestamps.mp hc, heq⟩

section
variable {klasse klasse' : Klasse} {facet : UUID} {l l' : List ClassValidity}
  (hsame : klasse.Same klasse')
  (h : fkkKlasseToClassValidities klasse facet = .ok l)
  (h' : fkkKlasseToClassValidities klasse' facet = .ok l')

include hsame in
/-- Long pieces that start alike after truncation are the same piece. -/
theorem same_piece {a b c d : Datetime} (hpiece : LongPiece klasse a b)
    (hpiece' : LongPiece klasse' c d)
    (hstart : a.truncateTime.instant = c.truncateTime.instant) :
    a.instant = c.instant ∧ b.instant = d.instant := by
  obtain ⟨c', hc, hceq⟩ := hsame.symm.exists_bound hpiece'.first.mem_bounds
  obtain ⟨d', hd, hdeq⟩ := hsame.symm.exists_bound hpiece'.last.mem_bounds
  have hneighbours := hsame.symm.neighbours hceq.symm hdeq.symm hpiece'.neighbours
  have hcases := hpiece.neighbours.eq_or_apart hneighbours hpiece.first.mem_bounds
    hpiece.last.mem_bounds hc hd
  rw [hceq, hdeq] at hcases
  rcases hcases with heq | hle | hle
  · exact heq
  · exact absurd hstart (hpiece.truncated_ne hpiece' hle)
  · exact absurd hstart.symm (hpiece'.truncated_ne hpiece hle)

include hsame h h' in
/-- States that start together have the same values. -/
theorem values_eq {u u' : ClassValidity} (hu : u ∈ l) (hu' : u' ∈ l') (heq : u.start = u'.start) :
    u.values = u'.values := by
  obtain ⟨entries, hs, hval⟩ := (yielded h hu).2 u.start le_rfl (start_lt_stop_of_yielded h hu)
  obtain ⟨entries', hs', hval'⟩ :=
    (yielded h' hu').2 u'.start le_rfl (start_lt_stop_of_yielded h' hu')
  obtain ⟨entries'', hs'', hvalues⟩ := hsame.stateAt_values hs facet u.validity u'.validity
  rw [heq, hs'] at hs''
  obtain rfl : entries' = entries'' := Option.some.inj (Except.ok.inj hs'')
  rw [← hval, ← hval'] at hvalues
  exact hvalues.symm

include hsame in
/-- A long piece whose bounds are written alike is long in the other Klasse. -/
theorem LongPiece.alike {a b a' b' : Datetime} (hpiece : LongPiece klasse a b)
    (ha : FirstMentioned klasse' a') (hb : FirstMentioned klasse' b')
    (haeq : a.instant = a'.instant) (hbeq : b.instant = b'.instant)
    (hstart : WrittenAlike .negativeInfinity a a') (hstop : WrittenAlike .positiveInfinity b b') :
    LongPiece klasse' a' b' where
  first := ha
  last := hb
  neighbours := hsame.neighbours haeq hbeq hpiece.neighbours
  published := haeq ▸ hsame.published hpiece.published
  lasts := by
    rw [← (truncateTime_eq_iff hpiece.first.aware ha.aware haeq).mpr hstart.2,
      ← (truncateTime_eq_iff hpiece.last.aware hb.aware hbeq).mpr hstop.2]
    exact hpiece.lasts

include hsame h h' in
/-- When pieces are written alike, what one Klasse writes the other one does. -/
theorem exists_input_of_alike (halike : PiecesAlike klasse klasse') {v : ClassValidity}
    (hv : v ∈ datedStates l) : ∃ v' ∈ datedStates l',
      (classValidityToCreateInput v).meaning = (classValidityToCreateInput v').meaning := by
  obtain ⟨u, hu, rfl, hpiece⟩ := longPiece_of_dated h hv
  obtain ⟨a, ha, haeq⟩ := hsame.exists_bound hpiece.first.mem_bounds
  obtain ⟨b, hb, hbeq⟩ := hsame.exists_bound hpiece.last.mem_bounds
  obtain ⟨a', ha', haeq'⟩ := exists_firstMentioned ha
  obtain ⟨b', hb', hbeq'⟩ := exists_firstMentioned hb
  have hstart := (haeq'.trans haeq).symm
  have hstop := (hbeq'.trans hbeq).symm
  obtain ⟨hfirst, hlast⟩ := halike _ _ _ _ hpiece.first hpiece.last ha' hb' hstart hstop
    (Or.inl hpiece)
  have hpiece' := hpiece.alike hsame ha' hb' hstart hstop hfirst hlast
  obtain ⟨u', hu', hval⟩ := exists_yielded_of_long h' hpiece'
  have hstart' : u.start = u'.start := by
    rw [ClassValidity.start, ClassValidity.start, hval, hstart]
  have hstop' : u.stop = u'.stop := by
    rw [ClassValidity.stop, ClassValidity.stop, hval, hstop]
  refine ⟨_, mem_dated_of_long h' hu' (by rwa [hval]), ?_⟩
  rw [meaning_truncated_iff (aware_of_yielded h hu) (aware_of_yielded h' hu') hstart' hstop', hval]
  exact ⟨values_eq hsame h h' hu hu' hstart', hfirst, hlast⟩

include hsame h h' in
/-- When what one Klasse writes the other one does, its long pieces are written
alike. -/
theorem alike_of_exists_input
    (hinput : ∀ v ∈ datedStates l, ∃ v' ∈ datedStates l',
      (classValidityToCreateInput v).meaning = (classValidityToCreateInput v').meaning)
    {a b a' b' : Datetime} (hpiece : LongPiece klasse a b) (ha : FirstMentioned klasse' a')
    (hb : FirstMentioned klasse' b') (haeq : a.instant = a'.instant)
    (hbeq : b.instant = b'.instant) :
    WrittenAlike .negativeInfinity a a' ∧ WrittenAlike .positiveInfinity b b' := by
  obtain ⟨u, hu, hval⟩ := exists_yielded_of_long h hpiece
  obtain ⟨v', hv', hmeaning⟩ := hinput _ (mem_dated_of_long h hu (by rwa [hval]))
  obtain ⟨u', hu', rfl, hpiece'⟩ := longPiece_of_dated h' hv'
  obtain ⟨_, hfrom, _⟩ := meaning_eq_iff.mp hmeaning
  have htruncated : u.validity.start.truncateTime.instant =
      u'.validity.start.truncateTime.instant := (toMo_from_eq_iff.mp hfrom).2
  have hpieceu : LongPiece klasse u.validity.start u.validity.stop := by rwa [hval]
  obtain ⟨hstart, hstop⟩ := same_piece hsame hpieceu hpiece' htruncated
  obtain ⟨_, hfirst, hlast⟩ := (meaning_truncated_iff (aware_of_yielded h hu)
    (aware_of_yielded h' hu') hstart hstop).mp hmeaning
  rw [hval] at hstart hstop hfirst hlast
  obtain rfl := hpiece'.first.eq_of_instant ha (hstart.symm.trans haeq)
  obtain rfl := hpiece'.last.eq_of_instant hb (hstop.symm.trans hbeq)
  exact ⟨hfirst, hlast⟩

end

theorem WrittenAlike.symm {infinity d d' : Datetime} (heq : d.instant = d'.instant)
    (h : WrittenAlike infinity d d') : WrittenAlike infinity d' d :=
  ⟨h.1.symm, fun hfin => (h.2 fun hinf => hfin (hinf.congr heq)).symm⟩

theorem PiecesAlike.symm {klasse klasse' : Klasse} (h : PiecesAlike klasse klasse') :
    PiecesAlike klasse' klasse := by
  intro a b a' b' ha hb ha' hb' haeq hbeq hpiece
  obtain ⟨hstart, hstop⟩ := h a' b' a b ha' hb' ha hb haeq.symm hbeq.symm hpiece.symm
  exact ⟨hstart.symm haeq.symm, hstop.symm hbeq.symm⟩

theorem desiredStates_error {klasse : Klasse} {facet : UUID} {e : Error} :
    desiredStates (some klasse) facet = .error e ↔ e = .valueError ∧ UndefinedWithin klasse := by
  rw [UndefinedWithin, ← conversion_raises_iff klasse facet, desiredStates]
  cases fkkKlasseToClassValidities klasse facet <;> simp [Except.map]

theorem Klasse.Same.undefinedWithin {klasse klasse' : Klasse} (h : klasse.Same klasse')
    (hu : UndefinedWithin klasse) : UndefinedWithin klasse' := by
  obtain ⟨t, ⟨a, ha, hat⟩, ⟨b, hb, htb⟩, hu⟩ := hu
  obtain ⟨a', ha', haeq⟩ := h.exists_bound ha
  obtain ⟨b', hb', hbeq⟩ := h.exists_bound hb
  exact ⟨t, ⟨a', ha', haeq.trans_le hat⟩, ⟨b', hb', htb.trans_eq hbeq.symm⟩, h.undefined hu⟩

/-- The same inputs are written, whether by creates or by updates. -/
theorem same_inputs_iff {d d' : List ClassValidity} :
    (KeyedSet.Same ClassInput.meaning (d.map classValidityToCreateInput)
        (d'.map classValidityToCreateInput) ∧
      KeyedSet.Same ClassInput.meaning (d.map classValidityToUpdateInput)
        (d'.map classValidityToUpdateInput)) ↔
      (∀ v ∈ d, ∃ v' ∈ d', (classValidityToCreateInput v).meaning =
        (classValidityToCreateInput v').meaning) ∧
      ∀ v' ∈ d', ∃ v ∈ d, (classValidityToCreateInput v').meaning =
        (classValidityToCreateInput v).meaning := by
  have hupdate : classValidityToUpdateInput = classValidityToCreateInput := rfl
  rw [hupdate, and_self, KeyedSet.same_iff_subset]
  simp only [List.mem_map, forall_exists_index, and_imp, forall_apply_eq_imp_iff₂,
    exists_exists_and_eq_and]

/-- Two Klasser that mean the same have the same outcome if and only if both
raise or their long pieces are written alike. -/
theorem same_outcome_iff {klasse klasse' : Klasse} (hsame : klasse.Same klasse') (facet : UUID) :
    SameOutcome facet klasse klasse' ↔ UndefinedWithin klasse ∨ PiecesAlike klasse klasse' := by
  by_cases hu : UndefinedWithin klasse
  · exact iff_of_true (Or.inl ⟨_, _, desiredStates_error.mpr ⟨rfl, hu⟩,
      desiredStates_error.mpr ⟨rfl, hsame.undefinedWithin hu⟩⟩) (Or.inl hu)
  have hu' : ¬ UndefinedWithin klasse' := fun hu' => hu (hsame.symm.undefinedWithin hu')
  cases hdesired : desiredStates (some klasse) facet with
  | error e => exact absurd (desiredStates_error.mp hdesired).2 hu
  | ok desired =>
    cases hdesired' : desiredStates (some klasse') facet with
    | error e => exact absurd (desiredStates_error.mp hdesired').2 hu'
    | ok desired' =>
      obtain ⟨l, h, rfl⟩ := desiredStates_some.mp hdesired
      obtain ⟨l', h', rfl⟩ := desiredStates_some.mp hdesired'
      rw [or_iff_right hu]
      constructor
      · rintro (⟨e, _, herror, _⟩ | ⟨d, d', hd, hd', hinputs⟩)
        · rw [hdesired] at herror
          cases herror
        obtain rfl := Except.ok.inj (hdesired.symm.trans hd)
        obtain rfl := Except.ok.inj (hdesired'.symm.trans hd')
        obtain ⟨hinput, hinput'⟩ := same_inputs_iff.mp hinputs
        rintro a b a' b' ha hb ha' hb' haeq hbeq (hpiece | hpiece)
        · exact alike_of_exists_input hsame h h' hinput hpiece ha' hb' haeq hbeq
        · obtain ⟨hstart, hstop⟩ := alike_of_exists_input hsame.symm h' h hinput' hpiece ha hb
            haeq.symm hbeq.symm
          exact ⟨hstart.symm haeq.symm, hstop.symm hbeq.symm⟩
      · intro halike
        exact Or.inr ⟨_, _, hdesired, hdesired', same_inputs_iff.mpr
          ⟨fun v hv => exists_input_of_alike hsame h h' halike hv,
            fun v hv => exists_input_of_alike hsame.symm h' h halike.symm hv⟩⟩

/-- A Klasse that changes its title once, with its Egenskaber in either order. -/
def retitled (swapped : Bool) : Klasse :=
  let y2012 := Datetime.ofDate 2012 1 1 0 cet
  let y2013 := Datetime.ofDate 2013 1 1 0 cet
  let before : Egenskab := ⟨⟨y2012, y2013, by decide, by decide⟩, "85.15.02", "IT-sikkerhed"⟩
  let after : Egenskab := ⟨⟨y2013, .positiveInfinity, by decide, trivial⟩, "85.15.02", "Sikkerhed"⟩
  { uuid := 10
    attributEgenskab := if swapped then [after, before] else [before, after]
    tilstandPubliceret := [⟨⟨y2012, .positiveInfinity, by decide, trivial⟩, true⟩]
    relationOverordnet := [] }

theorem same_outcome_iff_retitled : SameOutcome 1 (retitled false) (retitled true) := by
  have hsame : (retitled false).Same (retitled true) := {
    uuid := rfl
    attributEgenskab := List.Perm.swap _ _ _
    tilstandPubliceret := List.Perm.refl _
    relationOverordnet := List.Perm.refl _ }
  have hbounds : ∀ swapped, ∀ d ∈ (retitled swapped).bounds, d = .ofDate 2012 1 1 0 cet ∨
      d = .ofDate 2013 1 1 0 cet ∨ d = .positiveInfinity := by
    intro swapped d hd
    cases swapped <;>
      simp [retitled, Klasse.bounds, Klasse.virkninger, virkning] at hd <;> tauto
  have hone : ∀ d ∈ (retitled false).bounds, ∀ d' ∈ (retitled true).bounds,
      d.instant = d'.instant → d = d' := by
    intro d hd d' hd' heq
    rcases hbounds _ d hd with rfl | rfl | rfl <;> rcases hbounds _ d' hd' with rfl | rfl | rfl <;>
      first | rfl | exact absurd heq (by decide)
  refine (same_outcome_iff hsame 1).mpr (Or.inr ?_)
  intro a b a' b' ha hb ha' hb' haeq hbeq _
  rw [hone a ha.mem_bounds a' ha'.mem_bounds haeq, hone b hb.mem_bounds b' hb'.mem_bounds hbeq]
  exact ⟨⟨Iff.rfl, fun _ => rfl⟩, ⟨Iff.rfl, fun _ => rfl⟩⟩

/-- A Klasse from the start of a Danish year on. -/
def fromNewYear : Klasse :=
  .single 10 "85.15.02" "IT-sikkerhed"
    ⟨.ofDate 2012 1 1 0 cet, .positiveInfinity, by decide, trivial⟩

/-- The same Klasse, with its start written in UTC. -/
def fromNewYearUtc : Klasse :=
  .single 10 "85.15.02" "IT-sikkerhed"
    ⟨.timestamp (dateStart (toOrdinal 2011 12 31) + 23 * hour) utc, .positiveInfinity, by decide,
      trivial⟩

/-- The same Klasse, until a datetime that equals `POSITIVE_INFINITY`. -/
def untilInfinity : Klasse :=
  .single 10 "85.15.02" "IT-sikkerhed"
    ⟨.ofDate 2012 1 1 0 cet, .timestamp maxWall utc, by decide, by decide⟩

/-- The first is written to start a day earlier in UTC, the second to end at the
last microsecond instead of never. -/
theorem same_meaning_differs :
    (fromNewYear.Same fromNewYearUtc ∧ ¬ SameOutcome 1 fromNewYear fromNewYearUtc) ∧
      fromNewYear.Same untilInfinity ∧ ¬ SameOutcome 1 fromNewYear untilInfinity := by
  have hdesired : desiredStates (some fromNewYear) 1 = .ok _ := rfl
  have hutc : desiredStates (some fromNewYearUtc) 1 = .ok _ := rfl
  have huntil : desiredStates (some untilInfinity) 1 = .ok _ := rfl
  refine ⟨⟨⟨rfl, List.Perm.refl _, List.Perm.refl _, List.Perm.refl _⟩, ?_⟩,
    ⟨rfl, List.Perm.refl _, List.Perm.refl _, List.Perm.refl _⟩, ?_⟩
  · rintro (⟨e, _, herror, _⟩ | ⟨d, d', hd, hd', hcreate, _⟩)
    · cases hdesired.symm.trans herror
    · obtain rfl := Except.ok.inj (hdesired.symm.trans hd)
      obtain rfl := Except.ok.inj (hutc.symm.trans hd')
      have hinput := List.mem_singleton.mp ((hcreate _).mp List.mem_cons_self)
      exact absurd (congrArg (·.2.1) hinput) (by decide)
  · rintro (⟨e, _, herror, _⟩ | ⟨d, d', hd, hd', hcreate, _⟩)
    · cases hdesired.symm.trans herror
    · obtain rfl := Except.ok.inj (hdesired.symm.trans hd)
      obtain rfl := Except.ok.inj (huntil.symm.trans hd')
      have hinput := List.mem_singleton.mp ((hcreate _).mp List.mem_cons_self)
      exact absurd (congrArg (·.2.2.1) hinput) (by decide)

end Os2moFkk
