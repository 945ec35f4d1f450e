import Os2moFkk.Copenhagen
import Os2moFkk.Mo

/-!
# Reading what was written

What is written carries the offsets of FKK, what is read is in MO's time zone.
At the midnights of that zone they are the same instants, and a day that is
taken away and added again on the wall clock leaves a midnight where it was.
-/

namespace Os2moFkk
open Itertools Timeline

/-- `d.astimezone(z)`. -/
def Datetime.astimezone (d : Datetime) (z : Zone) : Datetime :=
  .timestamp (d.instant + z.offsetAt d.instant) (.zone z)

/-- A MO that keeps instants and reports them in a time zone. -/
def Keeper.zoned (z : Zone) : Keeper Datetime where
  keep := id
  key := Datetime.instant
  reportFrom d := d.astimezone z
  reportTo d := .timestamp ((d.astimezone z).wall - day) (.zone z)
  truncated := ⟨none, none⟩

/-- In the zone, a date begins at this datetime. -/
def Zone.Midnight (z : Zone) (d : Datetime) : Prop :=
  ∃ ordinal, toOrdinal 2 1 1 ≤ ordinal ∧ ordinal ≤ toOrdinal 9999 12 30 ∧
    (d.astimezone z).wall = dateStart ordinal

/-- Each bound is open or a midnight of the zone. -/
def Validity.OnMidnights (z : Zone) (v : Validity) : Prop :=
  (v.start = .negativeInfinity ∨ z.Midnight v.start) ∧
    (v.stop = .positiveInfinity ∨ z.Midnight v.stop)

variable {z : Zone}

/-- A midnight is the same instant when it is written in the zone. -/
theorem Zone.Midnight.instant_astimezone {d : Datetime} (h : z.Midnight d) :
    (d.astimezone z).instant = d.instant := by
  obtain ⟨ordinal, _, _, hwall⟩ := h
  change d.instant + z.offsetAt d.instant = dateStart ordinal at hwall
  have hmidnight := (z.midnight_iff d.instant (ordinal - 1)).mp hwall
  change d.instant + z.offsetAt d.instant - z.utcoffset (d.instant + z.offsetAt d.instant) = _
  rw [hwall]
  exact hmidnight.symm

/-- The end that is reported for a midnight can be read. -/
theorem Zone.Midnight.readable {d : Datetime} (h : z.Midnight d) :
    ((Keeper.zoned z).reportTo d).IsMidnight ∧ 0 ≤ ((Keeper.zoned z).reportTo d).wall + day ∧
      ((Keeper.zoned z).reportTo d).wall + day ≤ maxWall := by
  obtain ⟨ordinal, hlo, hhi, hwall⟩ := h
  have hmax := maxWall_eq
  have hfirst : toOrdinal 2 1 1 = 366 := by decide
  have hlast : toOrdinal 9999 12 30 = 3652058 := by decide
  change ((d.astimezone z).wall - day) % day = 0 ∧ 0 ≤ (d.astimezone z).wall - day + day ∧
    (d.astimezone z).wall - day + day ≤ maxWall
  rw [hwall]
  unfold dateStart day at *
  omega

theorem readable_of_onMidnights {v : ClassValidity} (h : v.validity.OnMidnights z) :
    (Keeper.zoned z).Readable ((Keeper.zoned z).wanted v) := by
  intro b hb
  obtain ⟨rfl, hne⟩ := Validity.toMo_to.mp (Option.map_id_apply.symm.trans hb)
  exact (h.2.resolve_left hne).readable

/-- A state on midnights is read as it was written. -/
theorem value_readBack_zoned {v : ClassValidity} (h : v.validity.OnMidnights z) :
    ((Keeper.zoned z).readBack ((Keeper.zoned z).wanted v)).value = v.value := by
  apply Keeper.value_readBack
  · intro d hd
    obtain ⟨rfl, hne⟩ := Validity.toMo_from.mp hd
    exact (h.1.resolve_left hne).instant_astimezone
  · intro d hd
    obtain ⟨rfl, hne⟩ := Validity.toMo_to.mp hd
    change (Datetime.timestamp ((v.validity.stop.astimezone z).wall - day + day)
      (.zone z)).instant = _
    rw [Int.sub_add_cancel]
    exact (h.2.resolve_left hne).instant_astimezone

/-- Creating and updating write the same state. -/
theorem map_entry_inputs {β : Type} (k : Keeper β) {vs : List ClassValidity}
    {inputs : List ClassInput} (h : List.Forall₂ (fun v input =>
      input = classValidityToCreateInput v ∨ input = classValidityToUpdateInput v) vs inputs) :
    inputs.map k.entry = vs.map k.wanted := by
  induction h with
  | nil => rfl
  | cons hinput _ ih =>
    rw [List.map_cons, List.map_cons, ih]
    rcases hinput with rfl | rfl <;> rfl

/-- When states on midnights are written, each by a create or an update, and MO
answers with them in any order, reading raises nothing and gives equal states. -/
theorem read_undoes_write (z : Zone) {vs : List ClassValidity}
    (hvs : ∀ v ∈ vs, v.validity.OnMidnights z) {inputs : List ClassInput}
    (hinputs : List.Forall₂ (fun v input =>
      input = classValidityToCreateInput v ∨ input = classValidityToUpdateInput v) vs inputs)
    {es : List (Entry Datetime ClassValues)}
    (hes : es.Perm (inputs.map (Keeper.zoned z).entry)) :
    ∃ l, moClassReadToClassValidities ⟨es.map (Keeper.zoned z).report⟩ = .ok l ∧
      KeyedSet.Same ClassValidity.value l vs := by
  rw [map_entry_inputs _ hinputs] at hes
  have hreadable : ∀ e ∈ es, (Keeper.zoned z).Readable e := by
    intro e he
    obtain ⟨v, hv, rfl⟩ := List.mem_map.mp (hes.mem_iff.mp he)
    exact readable_of_onMidnights (hvs v hv)
  obtain ⟨l, hread⟩ := Keeper.exists_read hreadable
  refine ⟨l, hread, ?_⟩
  have hl : KeyedSet.Same ClassValidity.value l (es.map (Keeper.zoned z).readBack) :=
    KeyedSet.Same.of_mem (Keeper.mem_read hread)
  have hperm : KeyedSet.Same ClassValidity.value (es.map (Keeper.zoned z).readBack)
      ((vs.map (Keeper.zoned z).wanted).map (Keeper.zoned z).readBack) :=
    KeyedSet.Same.of_mem fun v => (hes.map _).mem_iff
  apply (hl.trans hperm).trans
  rw [List.map_map]
  exact KeyedSet.Same.map_self fun v hv => value_readBack_zoned (hvs v hv)

/-- The class of 28 March 2004, a day of 23 hours, and of the two weeks that end
with a day of 25 hours. -/
def summerStates : List ClassValidity :=
  let at_ (month : Nat) (dayOfMonth : Int) (o : Offset) : Datetime :=
    .ofDate 2004 month dayOfMonth 0 o
  let state (start stop : Datetime) : ClassValidity :=
    ⟨5, ⟨start, stop⟩, 6, "85.15.02", "IT-sikkerhed", none⟩
  [state .negativeInfinity (at_ 3 28 cet), state (at_ 3 28 cet) (at_ 3 29 cest),
    state (at_ 10 18 cest) (at_ 11 1 cet), state (at_ 11 1 cet) .positiveInfinity]

theorem read_undoes_write_summerStates :
    ∃ l, moClassReadToClassValidities ⟨(summerStates.map classValidityToUpdateInput).map
        (Keeper.zoned copenhagen).entry |>.map (Keeper.zoned copenhagen).report⟩ = .ok l ∧
      KeyedSet.Same ClassValidity.value l summerStates := by
  have hmidnight : ∀ v ∈ summerStates, v.validity.OnMidnights copenhagen := by
    intro v hv
    simp only [summerStates, List.mem_cons, List.not_mem_nil, or_false] at hv
    rcases hv with rfl | rfl | rfl | rfl
    · exact ⟨Or.inl rfl, Or.inr ⟨toOrdinal 2004 3 28, by decide, by decide, by decide⟩⟩
    · exact ⟨Or.inr ⟨toOrdinal 2004 3 28, by decide, by decide, by decide⟩,
        Or.inr ⟨toOrdinal 2004 3 29, by decide, by decide, by decide⟩⟩
    · exact ⟨Or.inr ⟨toOrdinal 2004 10 18, by decide, by decide, by decide⟩,
        Or.inr ⟨toOrdinal 2004 11 1, by decide, by decide, by decide⟩⟩
    · exact ⟨Or.inr ⟨toOrdinal 2004 11 1, by decide, by decide, by decide⟩, Or.inl rfl⟩
  have hinputs : List.Forall₂ (fun v input =>
      input = classValidityToCreateInput v ∨ input = classValidityToUpdateInput v) summerStates
      (summerStates.map classValidityToUpdateInput) :=
    List.forall₂_map_right_iff.mpr (List.forall₂_same.mpr fun v _ => Or.inr rfl)
  exact read_undoes_write copenhagen hmidnight hinputs (List.Perm.refl _)

end Os2moFkk
