import Mathlib.Data.List.Basic

/-!
# Iterating and raising

The iteration helpers of the standard library and of `more_itertools`, and the
exceptions the program can raise.
-/

namespace Os2moFkk

inductive Error where
  | valueError
  | assertionError
  | overflowError
  | keyError
  deriving DecidableEq, Repr

namespace Itertools

variable {α β ε : Type}

/-- The only element, or a `ValueError` when there are too few or too many. -/
def one : List α → Except Error α
  | [a] => .ok a
  | _ => .error .valueError

/-- The only element if there is one, or a `ValueError` when there are too many. -/
def only : List α → Except Error (Option α)
  | [] => .ok none
  | [a] => .ok (some a)
  | _ => .error .valueError

/-- Each element with the one after it. -/
def pairwise (l : List α) : List (α × α) := l.zip l.tail

/-- A generator run to its end: each element is skipped (`none`), yielded, or
raises, and nothing after a raise is looked at. -/
def collect (f : α → Except ε (Option β)) : List α → Except ε (List β)
  | [] => .ok []
  | a :: l =>
    match f a with
    | .error e => .error e
    | .ok none => collect f l
    | .ok (some b) => (collect f l).map (b :: ·)

@[simp] theorem ok_bind (a : α) (f : α → Except ε β) : (Except.ok a >>= f) = f a := rfl

@[simp] theorem error_bind (e : ε) (f : α → Except ε β) : (Except.error e >>= f) = .error e := rfl

@[simp] theorem pure_eq_ok (a : α) : (pure a : Except ε α) = .ok a := rfl

theorem bind_eq_ok {x : Except ε α} {f : α → Except ε β} {b : β} :
    (x >>= f) = .ok b ↔ ∃ a, x = .ok a ∧ f a = .ok b := by
  cases x <;> simp [bind, Except.bind]

theorem one_eq_ok {l : List α} {a : α} : one l = .ok a ↔ l = [a] := by
  unfold one
  split <;> simp_all

theorem one_eq_error {l : List α} {e : Error} :
    one l = .error e ↔ e = .valueError ∧ l.length ≠ 1 := by
  unfold one
  split
  · simp
  · rename_i h
    have hl : l.length ≠ 1 := by
      intro h1
      obtain ⟨a, rfl⟩ := List.length_eq_one_iff.mp h1
      exact h a rfl
    simp [hl, eq_comm]

theorem only_eq_ok {l : List α} {a : Option α} : only l = .ok a ↔ l = a.toList := by
  unfold only
  split
  · cases a <;> simp
  · cases a <;> simp
  · cases a <;> simp_all

theorem only_eq_error {l : List α} {e : Error} :
    only l = .error e ↔ e = .valueError ∧ 1 < l.length := by
  unfold only
  split
  · simp
  · simp
  · rename_i h0 h1
    have hl : 1 < l.length := by
      match l with
      | [] => exact absurd rfl h0
      | [a] => exact absurd rfl (h1 a)
      | _ :: _ :: _ => simp
    simp [hl, eq_comm]

@[simp] theorem pairwise_cons_cons (a b : α) (l : List α) :
    pairwise (a :: b :: l) = (a, b) :: pairwise (b :: l) := rfl

@[simp] theorem pairwise_singleton (a : α) : pairwise [a] = [] := rfl

theorem mem_of_mem_pairwise {l : List α} {p : α × α} (h : p ∈ pairwise l) : p.1 ∈ l ∧ p.2 ∈ l := by
  have hp := List.of_mem_zip h
  exact ⟨hp.1, List.mem_of_mem_tail hp.2⟩

theorem collect_cons_ok {f : α → Except ε (Option β)} {a : α} {l : List α} {r : List β} :
    collect f (a :: l) = .ok r ↔
      ∃ y r', f a = .ok y ∧ collect f l = .ok r' ∧ r = y.toList ++ r' := by
  simp only [collect]
  cases f a with
  | error e => simp
  | ok y => cases y <;> cases collect f l <;> simp [Except.map, eq_comm]

/-- What a generator that ends normally has yielded. -/
theorem mem_collect {f : α → Except ε (Option β)} {l : List α} {r : List β}
    (h : collect f l = .ok r) (b : β) : b ∈ r ↔ ∃ a ∈ l, f a = .ok (some b) := by
  induction l generalizing r with
  | nil => cases h; simp
  | cons a l ih =>
    obtain ⟨y, r', hy, hr', rfl⟩ := collect_cons_ok.mp h
    simp only [List.mem_append, Option.mem_toList, ih hr', List.mem_cons,
      exists_eq_or_imp, hy, Except.ok.injEq]

/-- Nothing raises for the elements of a generator that ends normally. -/
theorem collect_each_ok {f : α → Except ε (Option β)} {l : List α} {r : List β}
    (h : collect f l = .ok r) {a : α} (ha : a ∈ l) : ∃ y, f a = .ok y := by
  induction l generalizing r with
  | nil => cases ha
  | cons b l ih =>
    obtain ⟨y, r', hy, hr', _⟩ := collect_cons_ok.mp h
    rcases List.mem_cons.mp ha with rfl | ha
    · exact ⟨y, hy⟩
    · exact ih hr' ha

/-- A generator raises what one of its elements raises. -/
theorem collect_error {f : α → Except ε (Option β)} {l : List α} {e : ε}
    (h : collect f l = .error e) : ∃ a ∈ l, f a = .error e := by
  induction l with
  | nil => cases h
  | cons a l ih =>
    simp only [collect] at h
    cases hf : f a with
    | error e' =>
      rw [hf] at h
      cases h
      exact ⟨a, List.mem_cons_self, hf⟩
    | ok y =>
      have htail : collect f l = .error e := by
        rw [hf] at h
        cases y with
        | none => exact h
        | some b =>
          cases hc : collect f l with
          | error e' => rw [hc] at h; exact h
          | ok r => rw [hc] at h; cases h
      obtain ⟨b, hb, he⟩ := ih htail
      exact ⟨b, List.mem_cons_of_mem a hb, he⟩

/-- Yielding keeps the order of the elements. -/
theorem pairwise_collect {f : α → Except ε (Option β)} {l : List α} {r : List β}
    (h : collect f l = .ok r) {R : α → α → Prop} {S : β → β → Prop} (hl : l.Pairwise R)
    (hS : ∀ a ∈ l, ∀ a' ∈ l, R a a' → ∀ b b', f a = .ok (some b) → f a' = .ok (some b') → S b b') :
    r.Pairwise S := by
  induction l generalizing r with
  | nil => cases h; exact List.Pairwise.nil
  | cons a l ih =>
    obtain ⟨y, r', hy, hr', rfl⟩ := collect_cons_ok.mp h
    obtain ⟨hhead, htail⟩ := List.pairwise_cons.mp hl
    have hrest := ih hr' htail fun b hb b' hb' =>
      hS b (List.mem_cons_of_mem a hb) b' (List.mem_cons_of_mem a hb')
    cases y with
    | none => exact hrest
    | some b =>
      refine List.pairwise_cons.mpr ⟨fun b' hb' => ?_, hrest⟩
      obtain ⟨a', ha', hf'⟩ := (mem_collect hr' b').mp hb'
      exact hS a List.mem_cons_self a' (List.mem_cons_of_mem a ha') (hhead a' ha') b b' hy hf'

/-! ## Returning on a condition -/

/-- Something good is returned if the condition holds, and nothing otherwise. -/
def ReturnsIff (condition : Prop) (good : α → Prop) : Except ε α → Prop
  | .ok a => condition ∧ good a
  | .error _ => ¬ condition

section
variable {p q : Prop} {good : α → Prop} {good' : β → Prop} {x : Except ε α}

theorem ReturnsIff.of_ok {a : α} (h : x = .ok a) (ha : good a) : ReturnsIff True good x := by
  rw [h]
  exact ⟨trivial, ha⟩

theorem ReturnsIff.congr (h : ReturnsIff p good x) (hpq : p ↔ q) : ReturnsIff q good x := by
  cases x with
  | ok a => exact ⟨hpq.mp h.1, h.2⟩
  | error e => exact fun hq => h (hpq.mpr hq)

theorem ReturnsIff.bind {f : α → Except ε β} (h : ReturnsIff p good x)
    (hf : ∀ a, good a → ReturnsIff q good' (f a)) : ReturnsIff (p ∧ q) good' (x >>= f) := by
  cases x with
  | ok a =>
    rw [ok_bind]
    exact (hf a h.2).congr ⟨fun hq => ⟨h.1, hq⟩, And.right⟩
  | error e =>
    rw [error_bind]
    exact fun hpq => h hpq.1

/-- What cannot fail adds nothing to the condition. -/
theorem ReturnsIff.bind_ok {f : α → Except ε β} (h : ReturnsIff p good x)
    (hf : ∀ a, good a → ∃ b, f a = .ok b ∧ good' b) : ReturnsIff p good' (x >>= f) := by
  have hbind : ReturnsIff (p ∧ True) good' (x >>= f) := by
    refine h.bind fun a ha => ?_
    obtain ⟨b, hb, hgood⟩ := hf a ha
    exact ReturnsIff.of_ok hb hgood
  exact hbind.congr (Iff.of_eq (and_true p))

/-- A list is run through when each of its elements is. -/
theorem ReturnsIff.mapM {γ : Type} {f : α → Except ε β} {condition : α → Prop}
    {good : γ → β → Prop} {cs : List γ} {as : List α}
    (h : List.Forall₂ (fun c a => ReturnsIff (condition a) (good c) (f a)) cs as) :
    ReturnsIff (∀ a ∈ as, condition a) (List.Forall₂ good cs) (as.mapM f) := by
  induction h with
  | nil =>
    rw [List.mapM_nil]
    exact (ReturnsIff.of_ok rfl List.Forall₂.nil).congr (by simp)
  | @cons c a cs as hhead _ ih =>
    have hrest : ∀ b, good c b → ReturnsIff (∀ a ∈ as, condition a)
        (List.Forall₂ good (c :: cs)) (as.mapM f >>= fun bs => pure (b :: bs)) :=
      fun b hb => ih.bind_ok fun bs hbs => ⟨b :: bs, rfl, List.Forall₂.cons hb hbs⟩
    rw [List.mapM_cons]
    exact (hhead.bind hrest).congr List.forall_mem_cons.symm

theorem ReturnsIff.exists_iff (h : ReturnsIff p good x) : (∃ a, x = .ok a ∧ good a) ↔ p := by
  cases x with
  | ok a => exact iff_of_true ⟨a, rfl, h.2⟩ h.1
  | error e => exact iff_of_false (by simp) h

end

end Itertools

end Os2moFkk
