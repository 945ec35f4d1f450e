import Mathlib.Data.List.Sort
import Os2moFkk.Itertools
import Os2moFkk.KeyedSet

/-!
# Sweeping a line that half-open entries divide

The bounds of all entries, sorted, cut a linear order into elementary
intervals. No bound lies inside one of them (`not_between`), together they
cover the line from the first bound to the last (`exists_interval`), and an
entry that overlaps one of them is in force throughout it (`overlap_iff`). So
what is found by comparing an entry with an interval is what is found by
looking at any single point of that interval.
-/

namespace Os2moFkk.Sweep
open Itertools

variable {α τ : Type} [LinearOrder τ]

def Ascending (key : α → τ) (l : List α) : Prop := l.Pairwise (key · < key ·)

/-- The bounds without repetitions, in ascending order. -/
def sorted (key : α → τ) (set : List α) : List α := set.insertionSort (key · ≤ key ·)

theorem mem_sorted {key : α → τ} {set : List α} {a : α} : a ∈ sorted key set ↔ a ∈ set :=
  List.mem_insertionSort _

theorem ascending_sorted {key : α → τ} {set : List α} (h : KeyedSet.Distinct key set) :
    Ascending key (sorted key set) := by
  have hle : (sorted key set).Pairwise (key · ≤ key ·) := by
    have : Std.Total (fun a b : α => key a ≤ key b) := ⟨fun a b => le_total (key a) (key b)⟩
    have : IsTrans α (fun a b : α => key a ≤ key b) := ⟨fun _ _ _ => le_trans⟩
    exact List.pairwise_insertionSort _ set
  have hne : (sorted key set).Pairwise (key · ≠ key ·) :=
    (List.perm_insertionSort _ set).symm.pairwise h fun hab => hab.symm
  exact hle.imp₂ (fun _ _ => lt_of_le_of_ne) hne

section
variable {key : α → τ} {l : List α}

theorem lt_of_mem_pairwise (h : Ascending key l) {p : α × α} (hp : p ∈ pairwise l) :
    key p.1 < key p.2 := by
  induction l with
  | nil => cases hp
  | cons a l ih =>
    cases l with
    | nil => cases hp
    | cons b l =>
      obtain ⟨hhead, htail⟩ := List.pairwise_cons.mp h
      rw [pairwise_cons_cons, List.mem_cons] at hp
      rcases hp with rfl | hp
      · exact hhead b List.mem_cons_self
      · exact ih htail hp

theorem not_between (h : Ascending key l) {p : α × α} (hp : p ∈ pairwise l) {x : α} (hx : x ∈ l) :
    key x ≤ key p.1 ∨ key p.2 ≤ key x := by
  induction l with
  | nil => cases hp
  | cons a l ih =>
    cases l with
    | nil => cases hp
    | cons b l =>
      obtain ⟨hhead, htail⟩ := List.pairwise_cons.mp h
      have hb : ∀ y ∈ b :: l, key b ≤ key y := by
        intro y hy
        rcases List.mem_cons.mp hy with rfl | hy
        · exact le_rfl
        · exact ((List.pairwise_cons.mp htail).1 y hy).le
      rw [pairwise_cons_cons, List.mem_cons] at hp
      rcases hp with rfl | hp
      · rcases List.mem_cons.mp hx with rfl | hx
        · exact Or.inl le_rfl
        · exact Or.inr (hb x hx)
      · rcases List.mem_cons.mp hx with rfl | hx
        · exact Or.inl (hhead p.1 (mem_of_mem_pairwise hp).1).le
        · exact ih htail hp hx

theorem exists_interval (h : Ascending key l) {a b : α} (ha : a ∈ l) (hb : b ∈ l) {t : τ}
    (hat : key a ≤ t) (htb : t < key b) : ∃ p ∈ pairwise l, key p.1 ≤ t ∧ t < key p.2 := by
  induction l generalizing a with
  | nil => cases ha
  | cons c l ih =>
    cases l with
    | nil =>
      obtain rfl := List.mem_singleton.mp ha
      obtain rfl := List.mem_singleton.mp hb
      exact absurd (lt_of_le_of_lt hat htb) (lt_irrefl _)
    | cons d l =>
      obtain ⟨hhead, htail⟩ := List.pairwise_cons.mp h
      by_cases hd : t < key d
      · have hc : key c ≤ t := by
          rcases List.mem_cons.mp ha with rfl | ha
          · exact hat
          · exact (hhead a ha).le.trans hat
        exact ⟨(c, d), List.mem_cons_self, hc, hd⟩
      · have hbt : b ∈ d :: l := by
          rcases List.mem_cons.mp hb with rfl | hb
          · exact absurd (htb.trans (hhead d List.mem_cons_self)) hd
          · exact hb
        obtain ⟨p, hp, ht⟩ := ih htail List.mem_cons_self hbt (le_of_not_gt hd)
        exact ⟨p, List.mem_cons_of_mem _ hp, ht⟩

/-- The elementary intervals follow one another. -/
theorem pairwise_pairwise (h : Ascending key l) :
    (pairwise l).Pairwise fun p q => key p.2 ≤ key q.1 := by
  induction l with
  | nil => exact List.Pairwise.nil
  | cons a l ih =>
    cases l with
    | nil => exact List.Pairwise.nil
    | cons b l =>
      obtain ⟨_, htail⟩ := List.pairwise_cons.mp h
      refine List.pairwise_cons.mpr ⟨fun q hq => ?_, ih htail⟩
      rcases List.mem_cons.mp (mem_of_mem_pairwise hq).1 with hb | hb
      · exact (congrArg key hb).ge
      · exact ((List.pairwise_cons.mp htail).1 q.1 hb).le

end

/-- Two elements of an ordered list are the same or ordered one way. -/
theorem eq_or_rel_of_mem {R : α → α → Prop} {l : List α} (h : l.Pairwise R) {a b : α} (ha : a ∈ l)
    (hb : b ∈ l) : a = b ∨ R a b ∨ R b a := by
  induction l with
  | nil => cases ha
  | cons c l ih =>
    obtain ⟨hhead, htail⟩ := List.pairwise_cons.mp h
    rw [List.mem_cons] at ha hb
    rcases ha with rfl | ha <;> rcases hb with rfl | hb
    · exact Or.inl rfl
    · exact Or.inr (Or.inl (hhead b hb))
    · exact Or.inr (Or.inr (hhead a ha))
    · exact ih htail ha hb

/-- An entry from `fra` to `til` with no bound inside the interval overlaps it
exactly when it is in force at a point of it, also when it is empty or turned
around. -/
theorem overlap_iff {lo hi fra til t : τ} (hlo : lo ≤ t) (hhi : t < hi)
    (hfra : fra ≤ lo ∨ hi ≤ fra) (htil : til ≤ lo ∨ hi ≤ til) :
    (fra < hi ∧ lo < til) ↔ (fra ≤ t ∧ t < til) := by
  constructor
  · rintro ⟨hf, ht⟩
    exact ⟨(hfra.resolve_right (not_le.mpr hf)).trans hlo,
      lt_of_lt_of_le hhi (htil.resolve_left (not_le.mpr ht))⟩
  · rintro ⟨hf, ht⟩
    exact ⟨lt_of_le_of_lt hf hhi, lt_of_le_of_lt hlo ht⟩

end Os2moFkk.Sweep
