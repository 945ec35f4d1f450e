import Os2moFkk.Program

/-!
# Linking programs

A program whose calls are made by programs of another kind. Such a program may
make many calls for one, as long as one answer among theirs decides what it
returns: then the linked program goes through the calls of the original one, each
at the moment of that answer (`Stage.answer`).
-/

namespace Os2moFkk.Prog

variable {C C' : Type} {A : C → Type} {A' : C' → Type} {ε ε' α β : Type}

/-- Each call is made by `impl`. -/
def link (impl : (c : C) → Prog C' A' ε' (A c)) (fault : ε → ε') :
    Prog C A ε α → Prog C' A' ε' α
  | ret a => ret a
  | raise e => raise (fault e)
  | call c k => impl c >>= fun a => (k a).link impl fault

theorem link_bind {impl : (c : C) → Prog C' A' ε' (A c)} {fault : ε → ε'} (p : Prog C A ε α)
    (f : α → Prog C A ε β) :
    (p >>= f).link impl fault = p.link impl fault >>= fun a => (f a).link impl fault := by
  induction p with
  | ret a => rfl
  | raise e => rfl
  | call c k ih =>
    have hrest : (fun a => (k a >>= f).link impl fault) =
        fun a => (k a).link impl fault >>= fun b => (f b).link impl fault := funext ih
    rw [call_bind, link, hrest, link, bind_bind]

/-- The program makes such calls, does not return before an answer decides what it
returns, and returns that then. -/
def Undecided (ok : Answers A') (P : C' → Prop) (decides : (c : C') → A' c → α → Prop) :
    Prog C' A' ε' α → Prop
  | ret _ => False
  | raise _ => True
  | call c k => P c ∧ ∀ a, ok c a → (∀ b, decides c a b → k a = ret b) ∧
      ((∀ b, ¬ decides c a b) → (k a).Undecided ok P decides)

section
variable {ok : Answers A'} {P : C' → Prop} {decides : (c : C') → A' c → α → Prop}

/-- A call whose answer decides nothing. -/
theorem Undecided.call {c : C'} {k : A' c → Prog C' A' ε' α} (hP : P c)
    (hc : ∀ a b, ¬ decides c a b) (h : ∀ a, ok c a → (k a).Undecided ok P decides) :
    (call c k).Undecided ok P decides :=
  ⟨hP, fun a ha => ⟨fun b hb => absurd hb (hc a b), fun _ => h a ha⟩⟩

theorem Undecided.ofExcept_bind {x : Except ε' β} {f : β → Prog C' A' ε' α}
    (h : ∀ b, x = .ok b → (f b).Undecided ok P decides) :
    (ofExcept x >>= f).Undecided ok P decides := by
  cases x with
  | error e => trivial
  | ok b => exact h b rfl

/-- A program that makes only such calls, and what follows. -/
theorem Undecided.bind {Q : C' → Prop} {p : Prog C' A' ε' β} {f : β → Prog C' A' ε' α}
    (hp : p.Calls ok Q) (hQ : ∀ c, Q c → P c ∧ ∀ a b, ¬ decides c a b)
    (h : ∀ b, (f b).Undecided ok P decides) : (p >>= f).Undecided ok P decides := by
  induction p with
  | ret b => exact h b
  | raise e => trivial
  | call c k ih =>
    obtain ⟨hP, hc⟩ := hQ c hp.now
    exact .call hP hc fun a ha => ih a (hp.answer ha)

/-- An answer decides what is returned to the rest of the program, or nothing yet. -/
theorem Undecided.answer {c : C'} {k : A' c → Prog C' A' ε' β} {p : Prog C' A' ε' α}
    {f : α → Prog C' A' ε' β} (h : p.Undecided ok P decides) (heq : p >>= f = .call c k) :
    P c ∧ ∀ a, ok c a → (∀ b, decides c a b → k a = f b) ∧
      ((∀ b, ¬ decides c a b) → ∃ p' : Prog C' A' ε' α, p'.Undecided ok P decides ∧
        k a = (p' >>= f)) := by
  cases p with
  | ret b => exact h.elim
  | raise e => cases heq
  | call c' k' =>
    cases heq
    refine ⟨h.1, fun a ha => ?_⟩
    obtain ⟨hdecides, hnot⟩ := h.2 a ha
    refine ⟨fun b hb => ?_, fun hnone => ⟨k' a, hnot hnone, rfl⟩⟩
    exact congrArg (· >>= f) (hdecides b hb)

/-- A program is as undecided when its calls are taken for others. -/
theorem Undecided.perform {name : C → C'} {p : Prog C (fun c => A' (name c)) ε' α}
    (h : p.Undecided (fun c => ok (name c)) (fun c => P (name c)) fun c => decides (name c)) :
    (p.link (fun c => Prog.perform (name c)) id).Undecided ok P decides := by
  induction p with
  | ret a => exact h
  | raise e => trivial
  | call c k ih =>
    refine ⟨h.1, fun a ha => ?_⟩
    obtain ⟨hdecides, hnot⟩ := h.2 a ha
    refine ⟨fun b hb => ?_, fun hnone => ih a (hnot hnone)⟩
    change (k a).link (fun c => Prog.perform (name c)) id = ret b
    rw [hdecides b hb]
    rfl

end

/-! ## Where the linked program is -/

section
variable {impl : (c : C) → Prog C' A' ε' (A c)} {fault : ε → ε'} {ok : Answers A'}
  {madeFor : C → C' → Prop} {decides : (c : C) → (c' : C') → A' c' → A c → Prop}

variable (impl fault ok madeFor decides) in
/-- The linked program, when the original one has become this. -/
def Stage (q : Prog C' A' ε' α) : Prog C A ε α → Prop
  | ret a => q = ret a
  | raise e => q = raise (fault e)
  | call c k => ∃ r : Prog C' A' ε' (A c), r.Undecided ok (madeFor c) (decides c) ∧
      q = (r >>= fun a => (k a).link impl fault)

theorem stage_link (himpl : ∀ c, (impl c).Undecided ok (madeFor c) (decides c)) (p : Prog C A ε α) :
    Stage impl fault ok madeFor decides (p.link impl fault) p := by
  cases p with
  | ret a => rfl
  | raise e => rfl
  | call c k => exact ⟨impl c, himpl c, rfl⟩

/-- It returns only when the original one does. -/
theorem Stage.of_ret {a : α} {p : Prog C A ε α}
    (h : Stage impl fault ok madeFor decides (ret a) p) : p = ret a := by
  cases p with
  | ret b => exact congrArg ret (by cases h; rfl)
  | raise e => cases h
  | call c k =>
    obtain ⟨r, hr, heq⟩ := h
    cases r with
    | ret b => exact hr.elim
    | raise e => cases heq
    | call c' k' => cases heq

/-- An answer decides that of the call that the original program makes, or
nothing yet. -/
theorem Stage.answer (himpl : ∀ c, (impl c).Undecided ok (madeFor c) (decides c)) {c' : C'}
    {k' : A' c' → Prog C' A' ε' α} {p : Prog C A ε α}
    (h : Stage impl fault ok madeFor decides (call c' k') p) {a' : A' c'} (ha : ok c' a') :
    ∃ c k, p = call c k ∧ madeFor c c' ∧
      (∀ a, decides c c' a' a → Stage impl fault ok madeFor decides (k' a') (k a)) ∧
      ((∀ a, ¬ decides c c' a' a) → Stage impl fault ok madeFor decides (k' a') p) := by
  cases p with
  | ret b => cases h
  | raise e => cases h
  | call c k =>
    obtain ⟨r, hr, heq⟩ := h
    obtain ⟨hmade, hanswer⟩ := hr.answer heq.symm
    obtain ⟨hdecides, hnot⟩ := hanswer a' ha
    refine ⟨c, k, rfl, hmade, fun a hd => ?_, hnot⟩
    rw [hdecides a hd]
    exact stage_link himpl (k a)

end

end Os2moFkk.Prog
