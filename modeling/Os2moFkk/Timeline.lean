import Mathlib.Order.Max
import Mathlib.Order.Lattice

/-!
# Overwriting periods of a timeline

Entries hold a value for a half-open period each, of which a missing bound is
infinity. Erasing a period keeps what lies before and after it
(`holds_erase`); overwriting an entry erases its period first. Entries that
are apart from one another can be overwritten in any order (`foldl_overwrite`).
-/

namespace Os2moFkk.Timeline

structure Period (β : Type) where
  from_ : Option β
  to_ : Option β
  deriving DecidableEq

structure Entry (β ν : Type) where
  period : Period β
  value : ν

variable {β ν τ : Type} [LinearOrder τ] (key : β → τ)

namespace Period

def Contains (p : Period β) (t : τ) : Prop :=
  (∀ a, p.from_ = some a → key a ≤ t) ∧ ∀ b, p.to_ = some b → t < key b

/-- The period starts before it stops. -/
def Proper : Period β → Prop
  | ⟨some a, some b⟩ => key a < key b
  | _ => True

instance (p : Period β) : Decidable (p.Proper key) :=
  match p with
  | ⟨some a, some b⟩ => inferInstanceAs (Decidable (key a < key b))
  | ⟨none, _⟩ => isTrue trivial
  | ⟨some _, none⟩ => isTrue trivial

/-- One period stops before or when another starts. -/
def Ends (p q : Period β) : Prop :=
  ∃ b a, p.to_ = some b ∧ q.from_ = some a ∧ key b ≤ key a

def Apart (p q : Period β) : Prop := Ends key p q ∨ Ends key q p

def earlier : Option β → β → β
  | none, a => a
  | some b, a => if key b ≤ key a then b else a

def later : Option β → β → β
  | none, b => b
  | some a, b => if key b ≤ key a then a else b

/-- The period, unless it is empty. -/
def nonempty (p : Period β) : Option (Period β) := if p.Proper key then some p else none

/-- What is left of a period before another starts. -/
def before (p q : Period β) : Option (Period β) :=
  match q.from_ with
  | none => none
  | some a => nonempty key ⟨p.from_, some (earlier key p.to_ a)⟩

/-- What is left of a period after another stops. -/
def after (p q : Period β) : Option (Period β) :=
  match q.to_ with
  | none => none
  | some b => nonempty key ⟨some (later key p.from_ b), p.to_⟩

def minus (p q : Period β) : List (Period β) := (before key p q).toList ++ (after key p q).toList

/-- Each bound that the period has satisfies `P`. -/
def Bounds (P : β → Prop) (p : Period β) : Prop :=
  (∀ a, p.from_ = some a → P a) ∧ ∀ b, p.to_ = some b → P b

variable {key}

theorem proper_iff {p : Period β} :
    p.Proper key ↔ ∀ a b, p.from_ = some a → p.to_ = some b → key a < key b := by
  obtain ⟨from_, to_⟩ := p
  cases from_ <;> cases to_ <;> simp [Proper]

theorem Contains.proper {p : Period β} {t : τ} (h : p.Contains key t) : p.Proper key := by
  obtain ⟨from_, to_⟩ := p
  cases from_ with
  | none => trivial
  | some a =>
    cases to_ with
    | none => trivial
    | some b => exact lt_of_le_of_lt (h.1 a rfl) (h.2 b rfl)

/-- A period that starts before it stops has a point. -/
theorem Proper.exists_contains [NoMinOrder τ] [Nonempty τ] {p : Period β} (h : p.Proper key) :
    ∃ t, p.Contains key t := by
  obtain ⟨from_, to_⟩ := p
  cases from_ with
  | some a =>
    refine ⟨key a, fun a' ha => ?_, fun b hb => ?_⟩
    · cases ha
      exact le_rfl
    · obtain rfl : to_ = some b := hb
      exact h
  | none =>
    have unbounded : ∀ t (a : β), (none : Option β) = some a → key a ≤ t := by
      intro t a ha
      cases ha
    cases to_ with
    | none => exact ⟨Classical.arbitrary τ, unbounded _, fun b hb => by cases hb⟩
    | some b =>
      obtain ⟨t, ht⟩ := exists_lt (key b)
      refine ⟨t, unbounded t, fun b' hb => ?_⟩
      cases hb
      exact ht

theorem Apart.symm {p q : Period β} (h : p.Apart key q) : q.Apart key p := Or.symm h

theorem lt_earlier {to_ : Option β} {a : β} {t : τ} :
    t < key (earlier key to_ a) ↔ (∀ b, to_ = some b → t < key b) ∧ t < key a := by
  cases to_ with
  | none => simp [earlier]
  | some b =>
    simp only [earlier, Option.some.injEq, forall_eq']
    split
    · rename_i hle
      exact ⟨fun h => ⟨h, h.trans_le hle⟩, And.left⟩
    · rename_i hlt
      exact ⟨fun h => ⟨h.trans (not_le.mp hlt), h⟩, And.right⟩

theorem later_le {from_ : Option β} {b : β} {t : τ} :
    key (later key from_ b) ≤ t ↔ (∀ a, from_ = some a → key a ≤ t) ∧ key b ≤ t := by
  cases from_ with
  | none => simp [later]
  | some a =>
    simp only [later, Option.some.injEq, forall_eq']
    split
    · rename_i hle
      exact ⟨fun h => ⟨h, hle.trans h⟩, And.left⟩
    · rename_i hlt
      exact ⟨fun h => ⟨(not_le.mp hlt).le.trans h, h⟩, And.right⟩

theorem contains_nonempty {p : Period β} {t : τ} :
    (∃ r ∈ (nonempty key p).toList, r.Contains key t) ↔ p.Contains key t := by
  unfold nonempty
  split
  · simp
  · rename_i hnot
    constructor
    · rintro ⟨r, hr, _⟩
      cases hr
    · intro h
      exact absurd h.proper hnot

theorem contains_before {p q : Period β} {t : τ} :
    (∃ r ∈ (before key p q).toList, r.Contains key t) ↔
      p.Contains key t ∧ ∃ a, q.from_ = some a ∧ t < key a := by
  unfold before
  cases q.from_ with
  | none => simp
  | some a =>
    dsimp only
    rw [contains_nonempty]
    simp only [Contains, Option.some.injEq, forall_eq', exists_eq_left', lt_earlier, and_assoc]

theorem contains_after {p q : Period β} {t : τ} :
    (∃ r ∈ (after key p q).toList, r.Contains key t) ↔
      p.Contains key t ∧ ∃ b, q.to_ = some b ∧ key b ≤ t := by
  unfold after
  cases q.to_ with
  | none => simp
  | some b =>
    dsimp only
    rw [contains_nonempty]
    simp only [Contains, Option.some.injEq, forall_eq', exists_eq_left', later_le, and_right_comm]

theorem not_contains {q : Period β} {t : τ} :
    ¬ q.Contains key t ↔
      (∃ a, q.from_ = some a ∧ t < key a) ∨ ∃ b, q.to_ = some b ∧ key b ≤ t := by
  simp only [Contains, not_and_or, not_forall, not_le, not_lt, exists_prop]

theorem contains_minus {p q : Period β} {t : τ} :
    (∃ r ∈ minus key p q, r.Contains key t) ↔ p.Contains key t ∧ ¬ q.Contains key t := by
  simp only [minus, List.mem_append, or_and_right, exists_or, contains_before, contains_after,
    not_contains, and_or_left]

theorem proper_of_nonempty {p r : Period β} (h : nonempty key p = some r) :
    r = p ∧ p.Proper key := by
  unfold nonempty at h
  split at h
  · exact ⟨(Option.some.inj h).symm, by assumption⟩
  · cases h

theorem proper_of_mem_minus {p q r : Period β} (h : r ∈ minus key p q) : r.Proper key := by
  simp only [minus, before, after, List.mem_append, Option.mem_toList] at h
  cases h with
  | inl h =>
    cases hq : q.from_ with
    | none => rw [hq] at h; cases h
    | some a =>
      rw [hq] at h
      obtain ⟨rfl, hr⟩ := proper_of_nonempty h
      exact hr
  | inr h =>
    cases hq : q.to_ with
    | none => rw [hq] at h; cases h
    | some b =>
      rw [hq] at h
      obtain ⟨rfl, hr⟩ := proper_of_nonempty h
      exact hr

theorem bounds_earlier {P : β → Prop} {to_ : Option β} {a : β} (hto : ∀ b, to_ = some b → P b)
    (ha : P a) : P (earlier key to_ a) := by
  cases to_ with
  | none => exact ha
  | some b =>
    simp only [earlier]
    split
    · exact hto b rfl
    · exact ha

theorem bounds_later {P : β → Prop} {from_ : Option β} {b : β} (hfrom : ∀ a, from_ = some a → P a)
    (hb : P b) : P (later key from_ b) := by
  cases from_ with
  | none => exact hb
  | some a =>
    simp only [later]
    split
    · exact hfrom a rfl
    · exact hb

/-- What is left of a period has bounds of the two. -/
theorem bounds_of_mem_minus {P : β → Prop} {p q r : Period β} (hp : p.Bounds P) (hq : q.Bounds P)
    (h : r ∈ minus key p q) : r.Bounds P := by
  simp only [minus, before, after, List.mem_append, Option.mem_toList] at h
  cases h with
  | inl h =>
    cases hfrom : q.from_ with
    | none => rw [hfrom] at h; cases h
    | some a =>
      rw [hfrom] at h
      obtain ⟨rfl, _⟩ := proper_of_nonempty h
      refine ⟨hp.1, fun b hb => ?_⟩
      cases hb
      exact bounds_earlier hp.2 (hq.1 a hfrom)
  | inr h =>
    cases hto : q.to_ with
    | none => rw [hto] at h; cases h
    | some b =>
      rw [hto] at h
      obtain ⟨rfl, _⟩ := proper_of_nonempty h
      refine ⟨fun a ha => ?_, hp.2⟩
      cases ha
      exact bounds_later hp.1 (hq.2 b hto)

/-- What is left of a period is unbounded only where the period was. -/
theorem unbounded_of_mem_minus {p q r : Period β} (h : r ∈ minus key p q) :
    (r.from_ = none → p.from_ = none) ∧ (r.to_ = none → p.to_ = none) := by
  simp only [minus, before, after, List.mem_append, Option.mem_toList] at h
  cases h with
  | inl h =>
    cases hfrom : q.from_ with
    | none => rw [hfrom] at h; cases h
    | some a =>
      rw [hfrom] at h
      obtain ⟨rfl, _⟩ := proper_of_nonempty h
      exact ⟨id, fun hnone => by cases hnone⟩
  | inr h =>
    cases hto : q.to_ with
    | none => rw [hto] at h; cases h
    | some b =>
      rw [hto] at h
      obtain ⟨rfl, _⟩ := proper_of_nonempty h
      exact ⟨fun hnone => (by cases hnone), id⟩

theorem nonempty_of_proper {p : Period β} (h : p.Proper key) : nonempty key p = some p := if_pos h

theorem nonempty_eq_none {p : Period β} (h : ¬ p.Proper key) : nonempty key p = none := if_neg h

/-- Nothing is left of a period without itself. -/
theorem minus_self (p : Period β) : minus key p p = [] := by
  obtain ⟨from_, to_⟩ := p
  have hbefore : before key ⟨from_, to_⟩ ⟨from_, to_⟩ = none := by
    cases from_ with
    | none => rfl
    | some a =>
      apply nonempty_eq_none
      intro h
      exact absurd (lt_earlier.mp h).2 (lt_irrefl _)
  have hafter : after key ⟨from_, to_⟩ ⟨from_, to_⟩ = none := by
    cases to_ with
    | none => rfl
    | some b =>
      apply nonempty_eq_none
      intro h
      exact absurd h (not_lt.mpr (later_le.mp le_rfl).2)
  rw [minus, hbefore, hafter]
  rfl

/-- Erasing a period leaves one that is apart from it as it is. -/
theorem minus_of_apart {p q : Period β} (hp : p.Proper key) (hq : q.Proper key)
    (h : p.Apart key q) : minus key p q = [p] := by
  obtain ⟨pfrom, pto⟩ := p
  obtain ⟨qfrom, qto⟩ := q
  cases h with
  | inl h =>
    obtain ⟨b, a, rfl, rfl, hle⟩ : ∃ b a, pto = some b ∧ qfrom = some a ∧ key b ≤ key a := h
    have hbefore : before key ⟨pfrom, some b⟩ ⟨some a, qto⟩ = some ⟨pfrom, some b⟩ := by
      simp only [before, earlier, if_pos hle]
      exact nonempty_of_proper hp
    have hafter : after key ⟨pfrom, some b⟩ ⟨some a, qto⟩ = none := by
      cases qto with
      | none => rfl
      | some d =>
        apply nonempty_eq_none
        intro hlt
        have hd : key d ≤ key (later key pfrom d) := (later_le.mp le_rfl).2
        exact absurd ((hd.trans_lt hlt).trans_le hle) (not_lt.mpr (le_of_lt hq))
    rw [minus, hbefore, hafter]
    rfl
  | inr h =>
    obtain ⟨b, a, rfl, rfl, hle⟩ : ∃ b a, qto = some b ∧ pfrom = some a ∧ key b ≤ key a := h
    have hafter : after key ⟨some a, pto⟩ ⟨qfrom, some b⟩ = some ⟨some a, pto⟩ := by
      simp only [after, later, if_pos hle]
      exact nonempty_of_proper hp
    have hbefore : before key ⟨some a, pto⟩ ⟨qfrom, some b⟩ = none := by
      cases qfrom with
      | none => rfl
      | some d =>
        apply nonempty_eq_none
        intro hlt
        have hd : key a < key d := (lt_earlier.mp hlt).2
        exact absurd (hle.trans_lt hd) (not_lt.mpr (le_of_lt hq))
    rw [minus, hbefore, hafter]
    rfl

end Period

/-! ## Timelines of entries -/

open Period

/-- Leave no part of an entry within the period. -/
def erase (q : Period β) (s : List (Entry β ν)) : List (Entry β ν) :=
  s.flatMap fun e => (minus key e.period q).map fun p => ⟨p, e.value⟩

/-- Replace what the timeline holds during the entry's period. -/
def overwrite (s : List (Entry β ν)) (e : Entry β ν) : List (Entry β ν) :=
  erase key e.period s ++ [e]

/-- Entries of non-empty periods, each apart from all others. -/
structure Disjoint (s : List (Entry β ν)) : Prop where
  proper : ∀ e ∈ s, e.period.Proper key
  apart : s.Pairwise fun e f => e.period.Apart key f.period

/-- The timeline has this value at this point. -/
def Holds (s : List (Entry β ν)) (t : τ) (x : ν) : Prop :=
  ∃ e ∈ s, e.period.Contains key t ∧ e.value = x

variable {key}

theorem Disjoint.perm {s s' : List (Entry β ν)} (h : Disjoint key s) (hp : s.Perm s') :
    Disjoint key s' where
  proper e he := h.proper e (hp.mem_iff.mpr he)
  apart := hp.pairwise h.apart fun ha => ha.symm

theorem mem_erase {q : Period β} {s : List (Entry β ν)} {e : Entry β ν} :
    e ∈ erase key q s ↔ ∃ f ∈ s, e.value = f.value ∧ e.period ∈ minus key f.period q := by
  simp only [erase, List.mem_flatMap, List.mem_map]
  constructor
  · rintro ⟨f, hf, p, hp, rfl⟩
    exact ⟨f, hf, rfl, hp⟩
  · rintro ⟨f, hf, hv, hp⟩
    exact ⟨f, hf, e.period, hp, by rw [← hv]⟩

theorem proper_of_mem_erase {q : Period β} {s : List (Entry β ν)} {e : Entry β ν}
    (h : e ∈ erase key q s) : e.period.Proper key := by
  obtain ⟨f, _, _, hp⟩ := mem_erase.mp h
  exact proper_of_mem_minus hp

/-- What is left is what was there outside the period. -/
theorem holds_erase {q : Period β} {s : List (Entry β ν)} {t : τ} {x : ν} :
    Holds key (erase key q s) t x ↔ Holds key s t x ∧ ¬ q.Contains key t := by
  constructor
  · rintro ⟨e, he, ht, rfl⟩
    obtain ⟨f, hf, hv, hp⟩ := mem_erase.mp he
    obtain ⟨hft, hq⟩ := contains_minus.mp ⟨_, hp, ht⟩
    exact ⟨⟨f, hf, hft, hv.symm⟩, hq⟩
  · rintro ⟨⟨f, hf, hft, rfl⟩, hq⟩
    obtain ⟨p, hp, ht⟩ := contains_minus.mpr ⟨hft, hq⟩
    exact ⟨⟨p, f.value⟩, mem_erase.mpr ⟨f, hf, rfl, hp⟩, ht, rfl⟩

/-- Within the period of the last entry, its value holds. -/
theorem holds_overwrite {s : List (Entry β ν)} {e : Entry β ν} {t : τ}
    (he : e.period.Contains key t) {x : ν} : Holds key (overwrite key s e) t x ↔ e.value = x := by
  constructor
  · rintro ⟨f, hf, hft, rfl⟩
    cases List.mem_append.mp hf with
    | inl hrest => exact absurd he (holds_erase.mp ⟨f, hrest, hft, rfl⟩).2
    | inr hlast => rw [List.mem_singleton.mp hlast]
  · rintro rfl
    exact ⟨e, List.mem_append_right _ (List.mem_singleton_self e), he, rfl⟩

theorem erase_of_apart {q : Period β} (hq : q.Proper key) {s : List (Entry β ν)}
    (h : ∀ e ∈ s, e.period.Proper key ∧ e.period.Apart key q) : erase key q s = s := by
  induction s with
  | nil => rfl
  | cons e s ih =>
    obtain ⟨hp, ha⟩ := h e List.mem_cons_self
    have hs := ih fun f hf => h f (List.mem_cons_of_mem e hf)
    rw [erase, List.flatMap_cons, minus_of_apart hp hq ha]
    exact congrArg (e :: ·) hs

theorem erase_append (q : Period β) (s s' : List (Entry β ν)) :
    erase key q (s ++ s') = erase key q s ++ erase key q s' := List.flatMap_append

/-- Erasing all of time leaves nothing. -/
theorem erase_all (s : List (Entry β ν)) : erase key ⟨none, none⟩ s = [] :=
  List.flatMap_eq_nil_iff.mpr fun _ _ => rfl

/-- Overwriting with an entry that each other entry is equal to or apart from
only adds it. -/
theorem mem_overwrite {s : List (Entry β ν)} {e : Entry β ν} (he : e.period.Proper key)
    (h : ∀ f ∈ s, f = e ∨ f.period.Proper key ∧ f.period.Apart key e.period) (x : Entry β ν) :
    x ∈ overwrite key s e ↔ x ∈ s ∨ x = e := by
  have herase : ∀ f ∈ s, f ≠ e → minus key f.period e.period = [f.period] := by
    intro f hf hne
    obtain ⟨hp, ha⟩ := (h f hf).resolve_left hne
    exact minus_of_apart hp he ha
  rw [overwrite, List.mem_append, List.mem_singleton, mem_erase]
  by_cases hx : x = e
  · simp only [hx, or_true]
  simp only [hx, or_false]
  constructor
  · rintro ⟨f, hf, hv, hp⟩
    by_cases hfe : f = e
    · rw [hfe, minus_self] at hp
      cases hp
    · rw [herase f hf hfe, List.mem_singleton] at hp
      have hxf : x = f := by
        cases x
        cases f
        simp_all
      exact hxf ▸ hf
  · intro hxs
    exact ⟨x, hxs, rfl, by rw [herase x hxs hx]; exact List.mem_singleton_self _⟩

/-- Disjoint entries are kept as they are, before them what they leave of the
earlier timeline. -/
theorem foldl_overwrite {es : List (Entry β ν)} (h : Disjoint key es) (s : List (Entry β ν)) :
    es.foldl (overwrite key) s = es.foldl (fun s e => erase key e.period s) s ++ es := by
  have fold : ∀ (rest done s : List (Entry β ν)), Disjoint key (done ++ rest) →
      rest.foldl (overwrite key) (s ++ done) =
        rest.foldl (fun s e => erase key e.period s) s ++ (done ++ rest) := by
    intro rest
    induction rest with
    | nil => intro done s _; simp
    | cons e rest ih =>
      intro done s hd
      have hproper : e.period.Proper key := hd.proper e (by simp)
      have hdone : erase key e.period done = done := by
        apply erase_of_apart hproper
        intro f hf
        exact ⟨hd.proper f (List.mem_append_left _ hf),
          (List.pairwise_append.mp hd.apart).2.2 f hf e List.mem_cons_self⟩
      have happend : overwrite key (s ++ done) e = erase key e.period s ++ (done ++ [e]) := by
        rw [overwrite, erase_append, hdone, List.append_assoc]
      have hassoc : done ++ e :: rest = (done ++ [e]) ++ rest := by simp
      rw [List.foldl_cons, List.foldl_cons, happend, ih, hassoc]
      rwa [← hassoc]
  simpa using fold es [] s h

theorem foldl_overwrite_nil {es : List (Entry β ν)} (h : Disjoint key es) :
    es.foldl (overwrite key) [] = es := by
  have hnone : ∀ l : List (Entry β ν),
      l.foldl (fun s e => erase key e.period s) ([] : List (Entry β ν)) = [] := by
    intro l
    induction l with
    | nil => rfl
    | cons e l ih => exact ih
  rw [foldl_overwrite h, hnone, List.nil_append]

/-- What the earlier timeline holds outside all entries. -/
theorem holds_foldl_erase {es s : List (Entry β ν)} {t : τ} {x : ν} :
    Holds key (es.foldl (fun s e => erase key e.period s) s) t x ↔
      Holds key s t x ∧ ∀ e ∈ es, ¬ e.period.Contains key t := by
  induction es generalizing s with
  | nil => simp
  | cons e es ih =>
    rw [List.foldl_cons, ih, holds_erase, and_assoc]
    simp only [List.mem_cons, forall_eq_or_imp]

/-- Disjoint entries can be written in any order. -/
theorem holds_foldl_overwrite_perm {es es' : List (Entry β ν)} (h : Disjoint key es)
    (hperm : es.Perm es') {s : List (Entry β ν)} {t : τ} {x : ν} :
    Holds key (es.foldl (overwrite key) s) t x ↔ Holds key (es'.foldl (overwrite key) s) t x := by
  have hholds : ∀ l, Disjoint key l → (Holds key (l.foldl (overwrite key) s) t x ↔
      (Holds key s t x ∧ ∀ e ∈ l, ¬ e.period.Contains key t) ∨ Holds key l t x) := by
    intro l hl
    rw [foldl_overwrite hl, ← holds_foldl_erase]
    simp only [Holds, List.mem_append, or_and_right, exists_or]
  rw [hholds es h, hholds es' (h.perm hperm)]
  simp only [Holds, hperm.mem_iff]

theorem proper_of_mem_foldl_erase {es s : List (Entry β ν)} (hs : ∀ e ∈ s, e.period.Proper key) :
    ∀ e ∈ es.foldl (fun s e => erase key e.period s) s, e.period.Proper key := by
  induction es generalizing s with
  | nil => exact hs
  | cons e es ih => exact ih fun f hf => proper_of_mem_erase hf

/-- Overwriting brings no bounds but those of the entries. -/
theorem bounds_of_mem_foldl_overwrite {P : β → Prop} {es s : List (Entry β ν)}
    (hs : ∀ e ∈ s, e.period.Bounds P) (hes : ∀ e ∈ es, e.period.Bounds P) :
    ∀ e ∈ es.foldl (overwrite key) s, e.period.Bounds P := by
  induction es generalizing s with
  | nil => exact hs
  | cons e es ih =>
    have he := hes e List.mem_cons_self
    apply ih
    · intro f hf
      cases List.mem_append.mp hf with
      | inl herased =>
        obtain ⟨g, hg, _, hp⟩ := mem_erase.mp herased
        exact bounds_of_mem_minus (hs g hg) he hp
      | inr hnew => exact List.mem_singleton.mp hnew ▸ he
    · intro f hf
      exact hes f (List.mem_cons_of_mem e hf)

/-- An unbounded entry of a timeline that was overwritten is part of one that
was there or was written. -/
theorem unbounded_of_mem_foldl_overwrite {es s : List (Entry β ν)} {e : Entry β ν}
    (he : e ∈ es.foldl (overwrite key) s) :
    (e.period.from_ = none → ∃ f ∈ s ++ es, f.period.from_ = none) ∧
      (e.period.to_ = none → ∃ f ∈ s ++ es, f.period.to_ = none) := by
  induction es generalizing s with
  | nil =>
    rw [List.append_nil]
    exact ⟨fun h => ⟨e, he, h⟩, fun h => ⟨e, he, h⟩⟩
  | cons f es ih =>
    have step : ∀ g ∈ overwrite key s f ++ es, ∃ g' ∈ s ++ f :: es,
        (g.period.from_ = none → g'.period.from_ = none) ∧
          (g.period.to_ = none → g'.period.to_ = none) := by
      intro g hg
      simp only [overwrite, List.mem_append, List.mem_singleton] at hg
      rcases hg with (herased | rfl) | hrest
      · obtain ⟨g', hg', _, hp⟩ := mem_erase.mp herased
        exact ⟨g', List.mem_append_left _ hg', unbounded_of_mem_minus hp⟩
      · exact ⟨g, by simp, id, id⟩
      · exact ⟨g, by simp [hrest], id, id⟩
    obtain ⟨hfrom, hto⟩ := ih he
    constructor
    · intro h
      obtain ⟨g, hg, hnone⟩ := hfrom h
      obtain ⟨g', hg', hkeeps, _⟩ := step g hg
      exact ⟨g', hg', hkeeps hnone⟩
    · intro h
      obtain ⟨g, hg, hnone⟩ := hto h
      obtain ⟨g', hg', _, hkeeps⟩ := step g hg
      exact ⟨g', hg', hkeeps hnone⟩

end Os2moFkk.Timeline
