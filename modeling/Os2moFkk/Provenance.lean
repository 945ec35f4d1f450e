import Os2moFkk.Agreement

/-!
# Where a state in MO comes from

Synchronisations may act on Klasser that are out of date, overlap, and stop
halfway. Still, at no moment does MO show a class at an instant that it was not
given there by FKK, or held at first, or got from another user.
-/

namespace Os2moFkk
open Itertools Prog Timeline

/-- A MO that keeps bounds as they are written, whatever a truncation covers. -/
def Keeper.truncating (truncated : Period Datetime) : Keeper Datetime :=
  { Keeper.exact with truncated := truncated }

/-- The Klasse has this class at an instant. -/
def Says (kle : UUID) (klasse : Klasse) (t : Int) (x : ClassValues) : Prop :=
  ∃ entries : Egenskab × Option OverordnetRelation, stateAt klasse t = .ok (some entries) ∧
    x = (kle, klasse.uuid, entries.1.brugervendtnoegle, entries.1.titel,
      entries.2.map OverordnetRelation.uuid)

/-- Some Klasse that FKK has had is to be written with this class at an instant. -/
def Wanted (held : Option Klasse → Prop) (kle : UUID) (t : Int) (x : ClassValues) : Prop :=
  ∃ klasse desired, held klasse ∧ desiredStates klasse kle = .ok desired ∧
    Holds Datetime.instant (desired.map Keeper.exact.wanted) t x

/-- The answers while FKK has only had such Klasser of a class. -/
def HeldAnswers (held : Option Klasse → Prop) (uuid kle : UUID) : Answers Answer
  | .read uuid', (klasse : Option Klasse) => uuid' = uuid → held klasse
  | .getFacet userKey, (facets : List UUID) => userKey = "kle_number" → facets = [kle]
  | _, _ => True

/-- What is written is desired of a Klasse that FKK has had. -/
def WritesHeld (held : Option Klasse → Prop) (kle : UUID) : Call → Prop
  | .mutate (.createClass input) | .mutate (.updateClass input) =>
    ∃ klasse desired, held klasse ∧ desiredStates klasse kle = .ok desired ∧
      ∃ v ∈ desired, input = classValidityToUpdateInput v
  | _ => True

section
variable {held : Option Klasse → Prop} {uuid kle : UUID}

theorem sync_writesHeld (set : SetOrder) :
    (sync uuid set).Calls (HeldAnswers held uuid kle) (WritesHeld held kle) := by
  apply sync_always
  · intro e
    trivial
  · intro c k hc
    cases c with
    | mutate => exact hc.elim
    | read | getClass | getFacet => trivial
  · intro fkkKlasse _ facets moClass facet actual desired p hk _ hf _ hfacet _ hdesired plan
    obtain rfl : kle = facet := by
      rw [hf rfl] at hfacet
      exact Except.ok.inj hfacet
    have written : ∀ v ∈ desired, ∃ klasse desired, held klasse ∧
        desiredStates klasse kle = .ok desired ∧
        ∃ v' ∈ desired, classValidityToUpdateInput v = classValidityToUpdateInput v' :=
      fun v hv => ⟨fkkKlasse, desired, hk rfl, hdesired, v, hv, rfl⟩
    have updates : ∀ l, (∀ v ∈ l, v ∈ desired) →
        (updateAll l).Calls (HeldAnswers held uuid kle) (WritesHeld held kle) := by
      intro l hl
      apply updateAll_always trivial
      intro v rest hv
      exact written v (hl v hv)
    cases plan with
    | upToDate | assertion | wontDelete => trivial
    | delete => exact ⟨trivial, fun _ _ => trivial⟩
    | create _ v rest order =>
      have hmem : ∀ x ∈ v :: rest, x ∈ desired := fun x hx => set.mem_order.mp (order ▸ hx)
      exact ⟨written v (hmem v List.mem_cons_self),
        fun _ _ => updates rest fun x hx => hmem x (List.mem_cons_of_mem v hx)⟩
    | truncate => exact ⟨trivial, fun _ _ => updates _ fun x hx => set.mem_order.mp hx⟩

/-- A mutation shows nothing new but what it writes. -/
theorem holds_apply {truncated : Period Datetime} {m : Mutation} {s : ClassStates Datetime}
    {t : Int} {x : ClassValues} (hm : WritesHeld held kle (.mutate m))
    (h : Holds Datetime.instant (((Keeper.truncating truncated).mo.apply m s).getD []) t x) :
    Holds Datetime.instant (s.getD []) t x ∨ Wanted held kle t x := by
  have overwritten : ∀ input, WritesHeld held kle (.mutate (.updateClass input)) →
      Holds Datetime.instant
        (overwrite Datetime.instant (s.getD []) (Keeper.exact.entry input)) t x →
      Holds Datetime.instant (s.getD []) t x ∨ Wanted held kle t x := by
    rintro input ⟨klasse, desired, hheld, hdesired, v, hv, rfl⟩ h
    by_cases ht : (Keeper.exact.wanted v).period.Contains Datetime.instant t
    · refine Or.inr ⟨klasse, desired, hheld, hdesired, Keeper.exact.wanted v,
        List.mem_map_of_mem hv, ht, (holds_overwrite ht).mp h⟩
    · obtain ⟨e, he, het, rfl⟩ := h
      cases List.mem_append.mp he with
      | inl herased => exact Or.inl (holds_erase.mp ⟨e, herased, het, rfl⟩).1
      | inr hnew =>
        obtain rfl := List.mem_singleton.mp hnew
        exact absurd het ht
  cases m with
  | createClass input => exact overwritten input hm h
  | updateClass input => exact overwritten input hm h
  | deleteClass uuid' =>
    obtain ⟨e, he, _⟩ := h
    cases he
  | truncateClass uuid' =>
    cases s with
    | none =>
      obtain ⟨e, he, _⟩ := h
      cases he
    | some es => exact Or.inl (holds_erase.mp h).1

/-- A desired state says at each instant what the Klasse says then, or within
the day after. -/
theorem says_of_wanted {t : Int} {x : ClassValues} (h : Wanted held kle t x) (hlo : 0 ≤ t)
    (hhi : t < maxWall) :
    ∃ klasse t', held (some klasse) ∧ t ≤ t' ∧ t' < t + day ∧ Says kle klasse t' x := by
  obtain ⟨klasse, desired, hheld, hdesired, e, he, ⟨hfrom, hto⟩, rfl⟩ := h
  obtain ⟨v, hv, rfl⟩ := List.mem_map.mp he
  obtain ⟨k, l, u, rfl, hconv, hu, rfl, _⟩ := exists_yielded hdesired hv
  obtain ⟨hstart, hstop⟩ := aware_of_yielded hconv hu
  have hbegun : u.validity.start.truncateTime.instant ≤ t := by
    by_cases heq : u.validity.start.truncateTime = .negativeInfinity
    · rw [heq]
      exact hlo
    · exact hfrom _ (Option.map_id_apply.trans (Validity.toMo_from.mpr ⟨rfl, heq⟩))
  have hending : t < u.validity.stop.truncateTime.instant := by
    by_cases heq : u.validity.stop.truncateTime = .positiveInfinity
    · rw [heq]
      exact hhi
    · exact hto _ (Option.map_id_apply.trans (Validity.toMo_to.mpr ⟨rfl, heq⟩))
  have hfirst : u.start < t + day := by
    have : u.start < u.validity.start.truncateTime.instant + day :=
      Datetime.lt_truncateTime_add hstart
    omega
  have hlast : t < u.stop := hending.trans_le (Datetime.truncateTime_le hstop)
  have hlt := start_lt_stop_of_yielded hconv hu
  have hpos := day_pos
  obtain ⟨entries, hsays, hval⟩ := (yielded hconv hu).2 (max t u.start) (le_max_right _ _)
    (max_lt hlast hlt)
  exact ⟨k, max t u.start, hheld, le_max_left _ _, max_lt (by omega) hfirst, entries, hsays,
    congrArg ClassValidity.values hval⟩

/-- Whatever synchronisations of any classes run, overlap and fail: what MO shows
of a class at an instant was there at first, or another user wrote it, or some
Klasse that FKK has had says so for that instant or within the day after. -/
theorem shows_only_held {truncated : Period Datetime} {P : World (ClassStates Datetime) → Prop}
    {w₀ w : World (ClassStates Datetime)} {es : List (Event (ClassStates Datetime))}
    (h : Exec (Keeper.truncating truncated).mo kle P w₀ es w) (hruns : w₀.runs = [])
    (hheld : ∀ w, P w → held (w.systems.read uuid)) {t : Int} (hlo : 0 ≤ t) (hhi : t < maxWall)
    {x : ClassValues} (hshows : Holds Datetime.instant (statesOf uuid w.systems) t x) :
    Holds Datetime.instant (statesOf uuid w₀.systems) t x ∨
      (∃ states, .edit uuid states ∈ es ∧ Holds Datetime.instant (states.getD []) t x) ∨
      ∃ klasse t', held (some klasse) ∧ t ≤ t' ∧ t' < t + day ∧ Says kle klasse t' x := by
  have hok : ∀ {w : World (ClassStates Datetime)}, P w → ∀ c, HeldAnswers held uuid kle c
      (w.systems.answer (Keeper.truncating truncated).mo kle c) := by
    intro w hP c
    cases c with
    | read uuid' => exact fun hu => hu ▸ hheld w hP
    | getFacet userKey => exact fun hk => if_pos hk
    | getClass | mutate => trivial
  have own : ∀ uuid' m, .call uuid' (.mutate m) ∈ es → m.uuid = uuid' := fun uuid' m hm =>
    h.calls hruns (sync_concerns uuid') (fun _ => fkk_answers _) _ hm
  have writes : ∀ c, .call uuid c ∈ es → WritesHeld held kle c :=
    h.calls hruns sync_writesHeld hok
  induction h with
  | start => exact Or.inl hshows
  | step run next hP ih =>
    rename_i es w w' e
    have before : Holds Datetime.instant (statesOf uuid w.systems) t x →
        Holds Datetime.instant (statesOf uuid w₀.systems) t x ∨
          (∃ states, .edit uuid states ∈ es ++ [e] ∧
            Holds Datetime.instant (states.getD []) t x) ∨
          ∃ klasse t', held (some klasse) ∧ t ≤ t' ∧ t' < t + day ∧ Says kle klasse t' x := by
      intro hs
      apply (ih hs (fun u m hm => own u m (List.mem_append_left _ hm))
        fun c hc => writes c (List.mem_append_left _ hc)).imp_right
      apply Or.imp_left
      rintro ⟨states, he, hs⟩
      exact ⟨states, List.mem_append_left _ he, hs⟩
    rw [statesOf, step_classes next] at hshows
    cases e with
    | change | deliver | post | ret | fail => exact before hshows
    | edit uuid' states =>
      by_cases hu : uuid' = uuid
      · subst hu
        simp only [Event.states, if_true] at hshows
        exact Or.inr (Or.inl ⟨states, by simp, hshows⟩)
      · simp only [Event.states, hu, if_false] at hshows
        exact before hshows
    | call uuid' c =>
      cases c with
      | read | getClass | getFacet => exact before hshows
      | mutate m =>
        by_cases hu : m.uuid = uuid
        · simp only [Event.states, hu, if_true] at hshows
          have huuid' : uuid' = uuid := (own uuid' m (by simp)).symm.trans hu
          subst huuid'
          cases holds_apply (writes (.mutate m) (by simp)) hshows with
          | inl hs => exact before hs
          | inr hwanted => exact Or.inr (Or.inr (says_of_wanted hwanted hlo hhi))
        · simp only [Event.states, hu, if_false] at hshows
          exact before hshows

end

/-- A Klasse that FKK renames. -/
def titled (titel : String) : Klasse :=
  .single 7 "85.15.02" titel
    ⟨Datetime.ofDate 2021 1 1 0 cet, .positiveInfinity, by decide, trivial⟩

def TitledAOrB (klasse : Option Klasse) : Prop :=
  klasse = some (titled "a") ∨ klasse = some (titled "b")

/-- It is renamed after a synchronisation has read it, which then writes the
title that it had. -/
theorem shows_only_held_renamed :
    ∃ (w₀ w : World (ClassStates Datetime)) (es : List (Event (ClassStates Datetime))),
      w₀.systems.classes 7 = none ∧ w.systems.read 7 = some (titled "b") ∧
      Exec (Keeper.truncating ⟨none, none⟩).mo 1 (fun w => TitledAOrB (w.systems.read 7)) w₀ es w ∧
      (Holds Datetime.instant (statesOf 7 w₀.systems) (dateStart (toOrdinal 2021 6 1))
          (1, 7, "85.15.02", "a", none) ∨
        (∃ states, .edit 7 states ∈ es ∧ Holds Datetime.instant (states.getD [])
          (dateStart (toOrdinal 2021 6 1)) (1, 7, "85.15.02", "a", none)) ∨
        ∃ klasse t', TitledAOrB (some klasse) ∧ dateStart (toOrdinal 2021 6 1) ≤ t' ∧
          t' < dateStart (toOrdinal 2021 6 1) + day ∧
          Says 1 klasse t' (1, 7, "85.15.02", "a", none)) := by
  let w₀ : World (ClassStates Datetime) :=
    { systems := .holding ⟨titled "a", rfl⟩ none
      queue := [⟨.fkk, 7⟩], runs := [], returned := [] }
  have start : Exec (Keeper.truncating ⟨none, none⟩).mo 1 (fun w => TitledAOrB (w.systems.read 7))
      w₀ [] w₀ := .start (Or.inl rfl)
  have read := (start.step (.deliver w₀ [] [] _ .insertion rfl) (Or.inl rfl)).step
    (.call _ [] [] 7 _ (.read 7) _ rfl) (Or.inl rfl)
  have renamed := read.step (.change _ 7 (some ⟨titled "b", rfl⟩)) (Or.inr rfl)
  have compared := (renamed.step (.call _ [] [] 7 _ (.getClass 7) _ rfl) (Or.inr rfl)).step
    (.call _ [] [] 7 _ (.getFacet "kle_number") _ rfl) (Or.inr rfl)
  have created := compared.step (.call _ [] [] 7 _ (.mutate _) _ rfl) (Or.inr rfl)
  have hlo : 0 ≤ dateStart (toOrdinal 2021 6 1) := by decide
  have hhi : dateStart (toOrdinal 2021 6 1) < maxWall := by decide
  have hbegun : (Datetime.ofDate 2021 1 1 0 cet).instant ≤ dateStart (toOrdinal 2021 6 1) := by
    decide
  refine ⟨w₀, _, _, rfl, rfl, created, ?_⟩
  apply shows_only_held created rfl (fun _ h => h) hlo hhi
  refine ⟨_, List.mem_cons_self, ⟨?_, ?_⟩, rfl⟩
  · rintro a ⟨⟩
    exact hbegun
  · rintro b ⟨⟩

end Os2moFkk
