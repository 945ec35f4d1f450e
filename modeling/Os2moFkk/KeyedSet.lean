import Mathlib.Data.List.Induction
import Mathlib.Data.List.Nodup

/-!
# Sets of values that are equal when their keys are

A set whose elements have an identity of their own, but count as equal when a
key agrees, keeps the element that was added first. It is a list here, in the
order of adding.
-/

namespace Os2moFkk.KeyedSet

variable {α κ : Type}

/-- Adding an element leaves a set that has an equal one as it is. -/
def add [DecidableEq κ] (key : α → κ) (set : List α) (a : α) : List α :=
  if ∃ b ∈ set, key b = key a then set else set ++ [a]

def ofList [DecidableEq κ] (key : α → κ) (l : List α) : List α := l.foldl (add key) []

/-- No two elements are equal. -/
def Distinct (key : α → κ) (set : List α) : Prop := set.Pairwise (key · ≠ key ·)

/-- Two sets are equal when each element of one has an equal element in the other. -/
def Same (key : α → κ) (a b : List α) : Prop := ∀ k, k ∈ a.map key ↔ k ∈ b.map key

theorem Same.refl (key : α → κ) (a : List α) : Same key a a := fun _ => Iff.rfl

theorem Same.symm {key : α → κ} {a b : List α} (h : Same key a b) : Same key b a :=
  fun k => (h k).symm

theorem Same.trans {key : α → κ} {a b c : List α} (hab : Same key a b) (hbc : Same key b c) :
    Same key a c := fun k => (hab k).trans (hbc k)

/-- Lists with the same elements are equal sets. -/
theorem Same.of_mem {key : α → κ} {a b : List α} (h : ∀ x, x ∈ a ↔ x ∈ b) : Same key a b := by
  intro k
  simp only [List.mem_map, h]

/-- Changing elements without changing their keys gives an equal set. -/
theorem Same.map_self {key : α → κ} {f : α → α} {l : List α} (h : ∀ x ∈ l, key (f x) = key x) :
    Same key (l.map f) l := by
  have hkeys : (l.map f).map key = l.map key := by
    rw [List.map_map]
    exact List.map_congr_left h
  intro k
  rw [hkeys]

/-- Two sets are equal when each has the elements of the other. -/
theorem same_iff_subset {key : α → κ} {a b : List α} :
    Same key a b ↔ (∀ x ∈ a, ∃ y ∈ b, key x = key y) ∧ ∀ y ∈ b, ∃ x ∈ a, key y = key x := by
  constructor
  · intro h
    constructor
    · intro x hx
      obtain ⟨y, hy, heq⟩ := List.mem_map.mp ((h _).mp (List.mem_map_of_mem hx))
      exact ⟨y, hy, heq.symm⟩
    · intro y hy
      obtain ⟨x, hx, heq⟩ := List.mem_map.mp ((h _).mpr (List.mem_map_of_mem hy))
      exact ⟨x, hx, heq.symm⟩
  · rintro ⟨hab, hba⟩ k
    simp only [List.mem_map]
    constructor
    · rintro ⟨x, hx, rfl⟩
      obtain ⟨y, hy, heq⟩ := hab x hx
      exact ⟨y, hy, heq.symm⟩
    · rintro ⟨y, hy, rfl⟩
      obtain ⟨x, hx, heq⟩ := hba y hy
      exact ⟨x, hx, heq.symm⟩

instance [DecidableEq κ] (key : α → κ) (a b : List α) : Decidable (Same key a b) :=
  decidable_of_iff ((∀ x ∈ a, ∃ y ∈ b, key x = key y) ∧ ∀ y ∈ b, ∃ x ∈ a, key y = key x)
    same_iff_subset.symm

theorem Same.nil_left {key : α → κ} {b : List α} (h : Same key [] b) : b = [] := by
  cases b with
  | nil => rfl
  | cons x b => simpa using h (key x)

section
variable [DecidableEq κ]

theorem mem_keys_add (key : α → κ) (set : List α) (a : α) (k : κ) :
    k ∈ (add key set a).map key ↔ k ∈ set.map key ∨ k = key a := by
  unfold add
  split
  · rename_i h
    obtain ⟨b, hb, he⟩ := h
    constructor
    · exact Or.inl
    · rintro (h | rfl)
      · exact h
      · exact List.mem_map.mpr ⟨b, hb, he⟩
  · simp [eq_comm]

theorem mem_add {key : α → κ} {set : List α} {a x : α} (h : x ∈ add key set a) :
    x ∈ set ∨ x = a := by
  unfold add at h
  split at h
  · exact Or.inl h
  · simpa using h

theorem distinct_add {key : α → κ} {set : List α} (h : Distinct key set) (a : α) :
    Distinct key (add key set a) := by
  unfold add
  split
  · exact h
  · rename_i hn
    refine List.pairwise_append.mpr ⟨h, List.pairwise_singleton _ _, ?_⟩
    intro b hb c hc he
    obtain rfl := List.mem_singleton.mp hc
    exact hn ⟨b, hb, he⟩

private theorem fold_add (key : α → κ) (l set : List α) :
    (∀ k, k ∈ (l.foldl (add key) set).map key ↔ k ∈ set.map key ∨ k ∈ l.map key) ∧
    (∀ x ∈ l.foldl (add key) set, x ∈ set ∨ x ∈ l) ∧
    (Distinct key set → Distinct key (l.foldl (add key) set)) := by
  induction l generalizing set with
  | nil => exact ⟨by simp, by simp, id⟩
  | cons a l ih =>
    obtain ⟨keys, members, distinct⟩ := ih (add key set a)
    refine ⟨fun k => ?_, fun x hx => ?_, fun h => distinct (distinct_add h a)⟩
    · simp only [List.foldl_cons, keys, mem_keys_add, List.map_cons, List.mem_cons, or_assoc]
    · rcases members x hx with h | h
      · rcases mem_add h with h | rfl
        · exact Or.inl h
        · exact Or.inr List.mem_cons_self
      · exact Or.inr (List.mem_cons_of_mem a h)

theorem mem_keys_ofList (key : α → κ) (l : List α) (k : κ) :
    k ∈ (ofList key l).map key ↔ k ∈ l.map key := by
  rw [ofList, (fold_add key l []).1 k]; simp

theorem same_ofList (key : α → κ) (l : List α) : Same key (ofList key l) l :=
  mem_keys_ofList key l

theorem mem_of_mem_ofList {key : α → κ} {l : List α} {x : α} (h : x ∈ ofList key l) : x ∈ l := by
  simpa using (fold_add key l []).2.1 x h

theorem distinct_ofList (key : α → κ) (l : List α) : Distinct key (ofList key l) :=
  (fold_add key l []).2.2 List.Pairwise.nil

/-- Every element has a representative with its key. -/
theorem exists_mem_ofList {key : α → κ} {l : List α} {x : α} (h : x ∈ l) :
    ∃ y ∈ ofList key l, key y = key x :=
  List.mem_map.mp ((mem_keys_ofList key l _).mpr (List.mem_map_of_mem h))

/-- Of equal elements, the first is kept. -/
theorem mem_ofList_iff {key : α → κ} {l : List α} {x : α} :
    x ∈ ofList key l ↔ l.find? (key · = key x) = some x := by
  induction l using List.reverseRecOn with
  | nil => simp [ofList]
  | append_singleton l a ih =>
    have hsnoc : ofList key (l ++ [a]) = add key (ofList key l) a := by
      rw [ofList, List.foldl_append]
      rfl
    rw [hsnoc, List.find?_append, add]
    by_cases hex : ∃ b ∈ ofList key l, key b = key a
    · rw [if_pos hex, ih]
      obtain ⟨b, hb, heq⟩ := hex
      cases hfind : l.find? (key · = key x) with
      | some y => simp
      | none =>
        have hnone := List.find?_eq_none.mp hfind b (mem_of_mem_ofList hb)
        simp_all
    · rw [if_neg hex, List.mem_append, ih, List.mem_singleton]
      have hnone : ∀ b ∈ l, key b ≠ key a := by
        intro b hb heq
        obtain ⟨y, hy, hkey⟩ : ∃ y ∈ ofList key l, key y = key b := exists_mem_ofList hb
        exact hex ⟨y, hy, hkey.trans heq⟩
      cases hfind : l.find? (key · = key x) with
      | some y =>
        have hy := List.mem_of_find?_eq_some hfind
        have hkey : key y = key x := by simpa using List.find?_some hfind
        rw [Option.some_or]
        constructor
        · rintro (h | rfl)
          · exact h
          · exact absurd hkey (hnone y hy)
        · exact Or.inl
      | none =>
        by_cases hxa : x = a
        · simp [hxa]
        · simp [hxa, Ne.symm hxa]

theorem ofList_of_distinct {key : α → κ} {l : List α} (h : Distinct key l) : ofList key l = l := by
  have fold : ∀ (rest seen : List α), Distinct key (seen ++ rest) →
      rest.foldl (add key) seen = seen ++ rest := by
    intro rest
    induction rest with
    | nil => intro seen _; simp
    | cons a rest ih =>
      intro seen hd
      have hnew : ¬ ∃ b ∈ seen, key b = key a := by
        rintro ⟨b, hb, he⟩
        exact (List.pairwise_append.mp hd).2.2 b hb a List.mem_cons_self he
      rw [List.foldl_cons, add, if_neg hnew, ih (seen ++ [a]) (by simpa using hd)]
      simp
  simpa [ofList] using fold l [] h

theorem ofList_eq_nil {key : α → κ} {l : List α} : ofList key l = [] ↔ l = [] := by
  constructor
  · intro h
    cases l with
    | nil => rfl
    | cons a l =>
      have hkey : key a ∈ (ofList key (a :: l)).map key :=
        (mem_keys_ofList key _ _).mpr (List.mem_map_of_mem List.mem_cons_self)
      simp [h] at hkey
  · rintro rfl; rfl

end

end Os2moFkk.KeyedSet
