import Os2moFkk.Mo
import Os2moFkk.Pieces

/-!
# Disjoint desired states

Neighbouring states share a timestamp, so truncation moves both alike. Where a
piece that is not desired lies between two states, the end of one and the start
of the next are truncated on their own clocks, and on a day on which the clock
is moved forward the next date begins first (`desired_disjoint_iff`).
-/

namespace Os2moFkk
open Itertools Timeline

/-- No instant is in both. -/
def NoOverlap (v w : ClassValidity) : Prop :=
  ∀ t, ¬ ((v.start ≤ t ∧ t < v.stop) ∧ w.start ≤ t ∧ t < w.stop)

/-- Whatever MO held before, each instant has the same class after the states
are written, in any order. -/
def OrderFree (desired : List ClassValidity) : Prop :=
  ∀ (set set' : SetOrder) (s : List (Entry Datetime ClassValues)) (t : Int) (x : ClassValues),
    Holds Datetime.instant
        (((set.order desired).map Keeper.exact.wanted).foldl (overwrite Datetime.instant) s) t x ↔
      Holds Datetime.instant
        (((set'.order desired).map Keeper.exact.wanted).foldl (overwrite Datetime.instant) s) t x

/-- The date that `c` shows begins, at the offset of `c`, before the one that
`b` shows does at the offset of `b`. -/
def DateBeginsBefore (c b : Datetime) : Prop :=
  (c.wall / day - b.wall / day) * day < c.offset - b.offset

instance (c b : Datetime) : Decidable (DateBeginsBefore c b) := inferInstanceAs (Decidable (_ < _))

/-- A long piece starts after another has ended, and the date of its start
begins before the date of that end. -/
def DatesCross (klasse : Klasse) : Prop :=
  ∃ a b c d, LongPiece klasse a b ∧ LongPiece klasse c d ∧ b.instant < c.instant ∧
    DateBeginsBefore c b

theorem noOverlap_iff {v w : ClassValidity} (hv : v.start < v.stop) (hw : w.start < w.stop) :
    NoOverlap v w ↔ v.stop ≤ w.start ∨ w.stop ≤ v.start := by
  constructor
  · intro h
    by_contra hnot
    obtain ⟨hvw, hwv⟩ := not_or.mp hnot
    by_cases hle : v.start ≤ w.start
    · exact h w.start ⟨⟨hle, not_le.mp hvw⟩, le_rfl, hw⟩
    · exact h v.start ⟨⟨le_rfl, hv⟩, (not_le.mp hle).le, not_le.mp hwv⟩
  · rintro hor t ⟨⟨_, _⟩, _, _⟩
    omega

/-! ## Long pieces -/

namespace LongPiece

variable {klasse : Klasse} {a b c d : Datetime}

/-- A long piece ends after `NEGATIVE_INFINITY`. -/
theorem stop_pos (h : LongPiece klasse a b) : 0 < b.instant := by
  have hstart := h.first.aware.truncateTime.bounds.1
  have hstop := Datetime.truncateTime_le h.last.aware
  have hlasts := h.lasts
  omega

/-- A long piece starts before `POSITIVE_INFINITY`. -/
theorem start_lt_max (h : LongPiece klasse a b) : a.instant < maxWall := by
  have hstart := Datetime.lt_truncateTime_add h.first.aware
  have hstop := h.last.aware.truncateTime_le_max
  have hlasts := h.lasts
  omega

/-- Of two long pieces, the end of the first and the start of the second are
finite. -/
theorem finite_between (h : LongPiece klasse a b) (h' : LongPiece klasse c d)
    (hlt : b.instant < c.instant) : ¬ b.Infinite ∧ ¬ c.Infinite := by
  have hpos := h.stop_pos
  have hmax := h'.start_lt_max
  unfold Datetime.Infinite
  rw [Datetime.instant_negativeInfinity, Datetime.instant_positiveInfinity]
  omega

/-- Truncation turns the end of one and the start of the next around when the
date of the start begins before that of the end. -/
theorem truncated_lt_iff (h : LongPiece klasse a b) (h' : LongPiece klasse c d)
    (hlt : b.instant < c.instant) :
    c.truncateTime.instant < b.truncateTime.instant ↔ DateBeginsBefore c b := by
  obtain ⟨hbfin, hcfin⟩ := h.finite_between h' hlt
  have hfloor : ∀ wall, floorDay wall = wall / day * day := by
    intro wall
    unfold floorDay day
    omega
  rw [Datetime.instant_truncateTime h.last.aware hbfin,
    Datetime.instant_truncateTime h'.first.aware hcfin, hfloor, hfloor]
  have hb : b.instant + b.offset = b.wall := Int.sub_add_cancel _ _
  have hc : c.instant + c.offset = c.wall := Int.sub_add_cancel _ _
  rw [hb, hc, DateBeginsBefore]
  unfold day
  omega

/-- Of two long pieces, the truncated ones overlap only when truncation turns
the end of the first and the start of the second around. -/
theorem truncated_apart_iff (h : LongPiece klasse a b) (h' : LongPiece klasse c d)
    (hle : b.instant ≤ c.instant) :
    (b.truncateTime.instant ≤ c.truncateTime.instant ∨
        d.truncateTime.instant ≤ a.truncateTime.instant) ↔
      b.truncateTime.instant ≤ c.truncateTime.instant := by
  apply or_iff_left
  have hstop := Datetime.truncateTime_le h.last.aware
  have hstart := Datetime.lt_truncateTime_add h'.first.aware
  have hlasts := h.lasts
  have hlasts' := h'.lasts
  have hpos := day_pos
  omega

/-- Truncation keeps long pieces apart unless dates cross. -/
theorem truncated_le (h : LongPiece klasse a b) (h' : LongPiece klasse c d)
    (hcross : ¬ DatesCross klasse) (hle : b.instant ≤ c.instant) :
    b.truncateTime.instant ≤ c.truncateTime.instant := by
  rcases hle.lt_or_eq with hlt | heq
  · by_contra hnot
    exact hcross ⟨_, _, _, _, h, h', hlt, (h.truncated_lt_iff h' hlt).mp (not_le.mp hnot)⟩
  · rw [h.last.eq_of_instant h'.first heq]

end LongPiece

/-! ## The desired states -/

section
variable {klasse : Klasse} {facet : UUID} {l : List ClassValidity}
  (h : fkkKlasseToClassValidities klasse facet = .ok l)
include h

theorem pairwise_apart_iff :
    ((datedStates l).Pairwise fun v w => v.stop ≤ w.start ∨ w.stop ≤ v.start) ↔
      ¬ DatesCross klasse := by
  constructor
  · rintro hpairwise ⟨a, b, c, d, hpiece, hpiece', hlt, hbefore⟩
    obtain ⟨v, hv, hva, hvb⟩ := exists_dated_of_long h hpiece
    obtain ⟨w, hw, hwc, hwd⟩ := exists_dated_of_long h hpiece'
    have hturned := (hpiece.truncated_lt_iff hpiece' hlt).mpr hbefore
    have hapart := hpiece.truncated_apart_iff hpiece' hlt.le
    rw [← hva, ← hvb, ← hwc, ← hwd] at hapart
    rw [← hvb, ← hwc] at hturned
    rcases Sweep.eq_or_rel_of_mem hpairwise hv hw with rfl | hor | hor
    · exact hpiece.truncated_ne hpiece' hlt.le (hva.symm.trans hwc)
    · exact not_le.mpr hturned (hapart.mp hor)
    · exact not_le.mpr hturned (hapart.mp hor.symm)
  · intro hcross
    apply (distinct_datedStates l).imp_of_mem
    intro v w hv hw hne
    obtain ⟨u, hu, rfl, hpiece⟩ := longPiece_of_dated h hv
    obtain ⟨u', hu', rfl, hpiece'⟩ := longPiece_of_dated h hw
    by_cases hafter : u'.stop ≤ u.start
    · exact Or.inr (hpiece'.truncated_le hpiece hcross hafter)
    · left
      apply hpiece.truncated_le hpiece' hcross
      by_contra hbefore
      apply hne
      rw [eq_of_overlap h hu hu' (not_le.mp hafter) (not_le.mp hbefore)]

/-- The desired states are disjoint, and can be written in any order, if and only
if no dates cross. -/
theorem desired_disjoint_iff {desired : List ClassValidity}
    (hdesired : desiredStates (some klasse) facet = .ok desired) :
    (desired.Pairwise NoOverlap ∧ OrderFree desired) ↔ ¬ DatesCross klasse := by
  obtain ⟨l', h', rfl⟩ := desiredStates_some.mp hdesired
  obtain rfl : l = l' := Except.ok.inj (h.symm.trans h')
  have hproper : ∀ v ∈ datedStates l, v.start < v.stop := by
    intro v hv
    obtain ⟨_, _, hday⟩ := bounds_of_desired hdesired hv
    have hpos := day_pos
    omega
  rw [← pairwise_apart_iff h]
  constructor
  · rintro ⟨hpairwise, _⟩
    exact hpairwise.imp_of_mem fun hv hw hno =>
      (noOverlap_iff (hproper _ hv) (hproper _ hw)).mp hno
  · intro hapart
    have hdisjoint := Keeper.disjoint_wanted hdesired hapart
    have horder : ∀ set : SetOrder, ((datedStates l).map Keeper.exact.wanted).Perm
        ((set.order (datedStates l)).map Keeper.exact.wanted) :=
      fun set => (set.perm _).symm.map _
    constructor
    · exact hapart.imp_of_mem fun hv hw hor =>
        (noOverlap_iff (hproper _ hv) (hproper _ hw)).mpr hor
    · intro set set' s t x
      rw [← holds_foldl_overwrite_perm hdisjoint (horder set),
        ← holds_foldl_overwrite_perm hdisjoint (horder set')]

end

/-- A Klasse that changes its title while it is not published. -/
def paused (pause resume : Datetime) (hpause : pause.Aware) (hresume : resume.Aware) : Klasse :=
  let y2007 := Datetime.ofDate 2007 1 1 0 cet
  { uuid := 9
    attributEgenskab := [
      ⟨⟨y2007, pause, by decide, hpause⟩, "85.15.02", "IT-sikkerhed"⟩,
      ⟨⟨pause, .positiveInfinity, hpause, trivial⟩, "85.15.02", "Sikkerhed"⟩]
    tilstandPubliceret := [
      ⟨⟨y2007, pause, by decide, hpause⟩, true⟩,
      ⟨⟨pause, resume, hpause, hresume⟩, false⟩,
      ⟨⟨resume, .positiveInfinity, hresume, trivial⟩, true⟩]
    relationOverordnet := [] }

/-- It is published again on the next day, when the clocks have moved. -/
def overnight : Klasse :=
  paused (.ofDate 2007 3 24 (10 * hour) cet) (.ofDate 2007 3 25 (10 * hour) cest) (by decide)
    (by decide)

theorem desired_disjoint_iff_overnight :
    ∃ desired, desiredStates (some overnight) 1 = .ok desired ∧ desired.length = 2 ∧
      desired.Pairwise NoOverlap ∧ OrderFree desired := by
  have h : fkkKlasseToClassValidities overnight 1 = .ok _ := rfl
  have hdesired : desiredStates (some overnight) 1 = .ok _ := rfl
  have hbefore : ∀ b ∈ overnight.bounds, ∀ c ∈ overnight.bounds, b.instant < c.instant →
      ¬ DateBeginsBefore c b := by decide
  refine ⟨_, hdesired, rfl, (desired_disjoint_iff h hdesired).mpr ?_⟩
  rintro ⟨_, b, c, _, hpiece, hpiece', hlt, hcross⟩
  exact hbefore b hpiece.last.mem_bounds c hpiece'.first.mem_bounds hlt hcross

/-- It is published again an hour later, when the clocks have just moved. -/
def springForward : Klasse :=
  paused (.ofDate 2007 3 25 (3 * hour / 2) cet) (.ofDate 2007 3 25 (7 * hour / 2) cest) (by decide)
    (by decide)

/-- The two states of it overlap, and the one that is written last holds where
they do. -/
theorem spring_forward_overlaps :
    ∃ desired, desiredStates (some springForward) 1 = .ok desired ∧
      ¬ desired.Pairwise NoOverlap ∧ ¬ OrderFree desired := by
  have hdesired : desiredStates (some springForward) 1 = .ok _ := rfl
  refine ⟨_, hdesired, ?_, ?_⟩
  · intro hpairwise
    have hno := List.rel_of_pairwise_cons hpairwise List.mem_cons_self
    exact hno (Datetime.ofDate 2007 3 25 0 cest).instant
      ⟨⟨by decide, by decide⟩, by decide, by decide⟩
  · intro hfree
    have horders := hfree .insertion ⟨List.reverse, List.reverse_perm⟩ []
      (Datetime.ofDate 2007 3 25 0 cest).instant (1, 9, "85.15.02", "Sikkerhed", none)
    have hlast := (holds_overwrite ⟨?_, ?_⟩).mp (horders.mp ((holds_overwrite ⟨?_, ?_⟩).mpr rfl))
    · exact absurd hlast (by decide)
    -- the instant is in both states
    all_goals
      intro d hd
      cases hd <;> decide

end Os2moFkk
