import Mathlib.Logic.Basic

/-!
# Programs that talk to their environment

A program returns, raises, or makes a call and goes on with the answer. What it
does is said without fixing the environment:

* `Always`: every program it can become has a property, as long as the answers
  are as assumed;
* `Eventually`: whatever the answers, it makes a certain call before it returns;
* `First`: with given answers, the first call of a kind is as required;
* `AtMost`: whatever the answers, it makes that many calls of a kind;
* `Justified`: whatever the answers, each call has a reason in what was said
  before it;
* `run`: it runs alone in an environment that answers and changes.

Since these follow the program's structure, a step of one program among many
keeps them (`Always.answer`, `Eventually.answer`, `First.answer`).
-/

namespace Os2moFkk

inductive Prog (C : Type) (A : C → Type) (ε α : Type) where
  | ret (a : α)
  | raise (e : ε)
  | call (c : C) (k : A c → Prog C A ε α)

namespace Prog

variable {C : Type} {A : C → Type} {ε α β : Type}

protected def bind : Prog C A ε α → (α → Prog C A ε β) → Prog C A ε β
  | ret a, f => f a
  | raise e, _ => raise e
  | call c k, f => call c fun a => (k a).bind f

instance : Monad (Prog C A ε) where
  pure := ret
  bind := Prog.bind

/-- Make one call and return its answer. -/
def perform (c : C) : Prog C A ε (A c) := call c ret

def ofExcept : Except ε α → Prog C A ε α
  | .ok a => ret a
  | .error e => raise e

@[simp] theorem pure_eq (a : α) : (pure a : Prog C A ε α) = ret a := rfl

@[simp] theorem ret_bind (a : α) (f : α → Prog C A ε β) : (ret a >>= f) = f a := rfl

@[simp] theorem raise_bind (e : ε) (f : α → Prog C A ε β) : (raise e >>= f) = raise e := rfl

@[simp] theorem call_bind (c : C) (k : A c → Prog C A ε α) (f : α → Prog C A ε β) :
    (call c k >>= f) = call c fun a => k a >>= f := rfl

@[simp] theorem perform_bind (c : C) (f : A c → Prog C A ε β) : (perform c >>= f) = call c f := rfl

@[simp] theorem ofExcept_ok (a : α) : (ofExcept (.ok a) : Prog C A ε α) = ret a := rfl

@[simp] theorem ofExcept_error (e : ε) : (ofExcept (.error e) : Prog C A ε α) = raise e := rfl

theorem bind_bind {γ : Type} (p : Prog C A ε α) (f : α → Prog C A ε β) (g : β → Prog C A ε γ) :
    p >>= f >>= g = p >>= fun a => f a >>= g := by
  induction p with
  | ret a => rfl
  | raise e => rfl
  | call c k ih => exact congrArg (call c) (funext ih)

/-- What the environment may answer. -/
abbrev Answers (A : C → Type) := (c : C) → A c → Prop

/-! ## What holds throughout -/

def Always (ok : Answers A) (Q : Prog C A ε α → Prop) : Prog C A ε α → Prop
  | ret a => Q (ret a)
  | raise e => Q (raise e)
  | call c k => Q (call c k) ∧ ∀ a, ok c a → (k a).Always ok Q

/-- The next call, if there is one, satisfies `P`. -/
def Next (P : C → Prop) : Prog C A ε α → Prop
  | call c _ => P c
  | _ => True

/-- Every call satisfies `P`. -/
abbrev Calls (ok : Answers A) (P : C → Prop) (p : Prog C A ε α) : Prop := p.Always ok (Next P)

/-- The program does not raise. -/
def NotRaised : Prog C A ε α → Prop
  | raise _ => False
  | _ => True

theorem Always.now {ok : Answers A} {Q : Prog C A ε α → Prop} {p : Prog C A ε α}
    (h : p.Always ok Q) : Q p := by
  cases p with
  | ret a => exact h
  | raise e => exact h
  | call c k => exact h.1

theorem Always.answer {ok : Answers A} {Q : Prog C A ε α → Prop} {c : C} {k : A c → Prog C A ε α}
    (h : (call c k).Always ok Q) {a : A c} (ha : ok c a) : (k a).Always ok Q :=
  h.2 a ha

theorem Always.imp {ok ok' : Answers A} {Q Q' : Prog C A ε α → Prop} {p : Prog C A ε α}
    (h : p.Always ok Q) (hok : ∀ c a, ok' c a → ok c a) (hQ : ∀ p, Q p → Q' p) :
    p.Always ok' Q' := by
  induction p with
  | ret a => exact hQ _ h
  | raise e => exact hQ _ h
  | call c k ih => exact ⟨hQ _ h.1, fun a ha => ih a (h.2 a (hok c a ha))⟩

theorem Always.ofExcept_bind {ok : Answers A} {Q : Prog C A ε β → Prop} {x : Except ε α}
    {f : α → Prog C A ε β} (hraise : ∀ e, Q (raise e))
    (h : ∀ a, x = .ok a → (f a).Always ok Q) : (ofExcept x >>= f).Always ok Q := by
  cases x with
  | error e => exact hraise e
  | ok a => exact h a rfl

theorem Calls.bind {ok : Answers A} {P : C → Prop} {p : Prog C A ε α} {f : α → Prog C A ε β}
    (h : p.Calls ok P) (hf : ∀ a, (f a).Calls ok P) : (p >>= f).Calls ok P := by
  induction p with
  | ret a => exact hf a
  | raise e => trivial
  | call c k ih => exact ⟨h.1, fun a ha => ih a (h.2 a ha)⟩

/-! ## Runs with any answers -/

/-- The program makes these calls, gets these answers and becomes another. -/
inductive Makes : Prog C A ε α → List ((c : C) × A c) → Prog C A ε α → Prop where
  | nil (p : Prog C A ε α) : Makes p [] p
  | cons {c : C} {k : A c → Prog C A ε α} {a : A c} {tr : List ((c : C) × A c)}
      {q : Prog C A ε α} : Makes (k a) tr q → Makes (call c k) (⟨c, a⟩ :: tr) q

/-- One call more. -/
theorem Makes.concat {p : Prog C A ε α} {c : C} {k : A c → Prog C A ε α} {a : A c}
    {tr : List ((c : C) × A c)} (h : Makes p tr (call c k)) : Makes p (tr ++ [⟨c, a⟩]) (k a) := by
  generalize hq : call c k = q at h
  induction h with
  | nil =>
    subst hq
    exact .cons (.nil _)
  | cons _ ih => exact .cons (ih hq)

section
variable {tr : List ((c : C) × A c)} {b : β}

/-- A run that returns has got an answer to the first call. -/
theorem Makes.call_ret {c : C} {k : A c → Prog C A ε β} (h : Makes (call c k) tr (ret b)) :
    ∃ a rest, tr = ⟨c, a⟩ :: rest ∧ Makes (k a) rest (ret b) := by
  cases h with
  | cons h => exact ⟨_, _, rfl, h⟩

/-- A run that returns has returned from its first part. -/
theorem Makes.bind_ret {p : Prog C A ε α} {f : α → Prog C A ε β}
    (h : Makes (p >>= f) tr (ret b)) :
    ∃ a first rest, tr = first ++ rest ∧ Makes p first (ret a) ∧ Makes (f a) rest (ret b) := by
  induction p generalizing tr with
  | ret a => exact ⟨a, [], tr, rfl, .nil _, h⟩
  | raise e => cases h
  | call c k ih =>
    obtain ⟨a, rest, rfl, hnext⟩ := h.call_ret
    obtain ⟨a', first, last, rfl, hfirst, hlast⟩ := ih a hnext
    exact ⟨a', _, last, rfl, .cons hfirst, hlast⟩

theorem Makes.ofExcept_bind_ret {x : Except ε α} {f : α → Prog C A ε β}
    (h : Makes (ofExcept x >>= f) tr (ret b)) : ∃ a, x = .ok a ∧ Makes (f a) tr (ret b) := by
  cases x with
  | error e => cases h
  | ok a => exact ⟨a, rfl, h⟩

theorem Makes.ofExcept_ret {x : Except ε β} (h : Makes (ofExcept x) tr (ret b)) :
    x = .ok b ∧ tr = [] := by
  cases x with
  | error e => cases h
  | ok a =>
    cases h
    exact ⟨rfl, rfl⟩

end

theorem Always.makes {ok : Answers A} {Q : Prog C A ε α → Prop} {p q : Prog C A ε α}
    {tr : List ((c : C) × A c)} (h : p.Always ok Q) (hm : Makes p tr q)
    (hok : ∀ e ∈ tr, ok e.1 e.2) : q.Always ok Q := by
  induction hm with
  | nil => exact h
  | cons _ ih =>
    exact ih (h.2 _ (hok _ List.mem_cons_self)) fun e he => hok e (List.mem_cons_of_mem _ he)

/-- Every call of a run satisfies what all calls do. -/
theorem Calls.makes {ok : Answers A} {P : C → Prop} {p q : Prog C A ε α}
    {tr : List ((c : C) × A c)} (h : p.Calls ok P) (hm : Makes p tr q)
    (hok : ∀ e ∈ tr, ok e.1 e.2) : ∀ e ∈ tr, P e.1 := by
  induction hm with
  | nil => intro e he; cases he
  | cons _ ih =>
    intro e he
    rcases List.mem_cons.mp he with rfl | he
    · exact h.1
    · have hrest := h.2 _ (hok _ List.mem_cons_self)
      exact ih hrest (fun e he => hok e (List.mem_cons_of_mem _ he)) e he

/-- After a call of the kind `M` the program never raises. -/
def SafeAfter (M : C → Prop) : Prog C A ε α → Prop
  | call c k => M c → ∀ a, (k a).Always (fun _ _ => True) NotRaised
  | _ => True

/-- A run that raises has made no call after which the program never raises. -/
theorem Always.none_before_raise {M : C → Prop} {p : Prog C A ε α} {tr : List ((c : C) × A c)}
    {e : ε} (h : p.Always (fun _ _ => True) (SafeAfter M)) (hm : Makes p tr (raise e)) :
    ∀ x ∈ tr, ¬ M x.1 := by
  generalize hq : raise e = q at hm
  induction hm with
  | nil => intro x hx; cases hx
  | cons hrest ih =>
    subst hq
    intro x hx hM
    rcases List.mem_cons.mp hx with rfl | hx
    · exact ((h.1 hM _).makes hrest fun _ _ => trivial).now
    · exact ih (h.2 _ trivial) rfl x hx hM

/-! ## What happens some time -/

def Eventually (ok : Answers A) (P : C → Prop) : Prog C A ε α → Prop
  | ret _ => False
  | raise _ => True
  | call c k => P c ∨ ∀ a, ok c a → (k a).Eventually ok P

theorem Eventually.answer {ok : Answers A} {P : C → Prop} {c : C} {k : A c → Prog C A ε α}
    (h : (call c k).Eventually ok P) {a : A c} (ha : ok c a) :
    P c ∨ (k a).Eventually ok P :=
  h.imp id fun h => h a ha

/-- Answered by `answer`, the first call of the kind `M` satisfies `P`, and the
program returns without one only if the value satisfies `R`. -/
def First (answer : (c : C) → A c) (M P : C → Prop) (R : α → Prop) : Prog C A ε α → Prop
  | ret a => R a
  | raise _ => True
  | call c k => (M c ∧ P c) ∨ (¬ M c ∧ (k (answer c)).First answer M P R)

theorem First.answer {answer : (c : C) → A c} {M P : C → Prop} {R : α → Prop} {c : C}
    {k : A c → Prog C A ε α} (h : (call c k).First answer M P R) :
    (M c ∧ P c) ∨ (¬ M c ∧ (k (answer c)).First answer M P R) := h

/-- Only the answers to the calls that are made matter. -/
theorem First.congr {answer answer' : (c : C) → A c} {M P N : C → Prop} {R R' : α → Prop}
    {ok : Answers A} {p : Prog C A ε α} (h : p.First answer M P R) (hcalls : p.Calls ok N)
    (hok : ∀ c, ok c (answer c)) (hN : ∀ c, N c → answer c = answer' c) (hR : ∀ a, R a → R' a) :
    p.First answer' M P R' := by
  induction p with
  | ret a => exact hR a h
  | raise e => trivial
  | call c k ih =>
    cases h with
    | inl hmake => exact Or.inl hmake
    | inr hnext =>
      obtain ⟨hM, hrest⟩ := hnext
      have hrest' := ih (answer c) hrest (hcalls.answer (hok c))
      exact Or.inr ⟨hM, hN c hcalls.1 ▸ hrest'⟩

theorem First.ofExcept_bind {answer : (c : C) → A c} {M P : C → Prop} {R : β → Prop}
    {x : Except ε α} {f : α → Prog C A ε β} (h : ∀ a, x = .ok a → (f a).First answer M P R) :
    (ofExcept x >>= f).First answer M P R := by
  cases x with
  | error e => trivial
  | ok a => exact h a rfl

/-- The program makes at most so many calls of the kind `M`. -/
def AtMost (ok : Answers A) (M : C → Prop) : Prog C A ε α → Nat → Prop
  | ret _, _ => True
  | raise _, _ => True
  | call c k, n =>
    (M c → ∃ m, n = m + 1 ∧ ∀ a, ok c a → (k a).AtMost ok M m) ∧
      (¬ M c → ∀ a, ok c a → (k a).AtMost ok M n)

theorem AtMost.mono {ok : Answers A} {M : C → Prop} {p : Prog C A ε α} {n n' : Nat}
    (h : p.AtMost ok M n) (hle : n ≤ n') : p.AtMost ok M n' := by
  induction p generalizing n n' with
  | ret a => trivial
  | raise e => trivial
  | call c k ih =>
    refine ⟨fun hM => ?_, fun hM a ha => ih a (h.2 hM a ha) hle⟩
    obtain ⟨m, rfl, hrest⟩ := h.1 hM
    obtain ⟨m', rfl⟩ : ∃ m', n' = m' + 1 := ⟨n' - 1, by omega⟩
    exact ⟨m', rfl, fun a ha => ih a (hrest a ha) (by omega)⟩

/-- A call of another kind, whatever comes after it. -/
theorem AtMost.other {ok : Answers A} {M : C → Prop} {c : C} {k : A c → Prog C A ε α} {n : Nat}
    (hM : ¬ M c) (h : ∀ a, ok c a → (k a).AtMost ok M n) : (call c k).AtMost ok M n :=
  ⟨fun hM' => absurd hM' hM, fun _ => h⟩

theorem AtMost.answer {ok : Answers A} {M : C → Prop} {c : C} {k : A c → Prog C A ε α} {n : Nat}
    (h : (call c k).AtMost ok M n) {a : A c} (ha : ok c a) : (k a).AtMost ok M n := by
  by_cases hM : M c
  · obtain ⟨m, rfl, hrest⟩ := h.1 hM
    exact (hrest a ha).mono (Nat.le_succ m)
  · exact h.2 hM a ha

theorem AtMost.ofExcept_bind {ok : Answers A} {M : C → Prop} {x : Except ε α}
    {f : α → Prog C A ε β} {n : Nat} (h : ∀ a, x = .ok a → (f a).AtMost ok M n) :
    (ofExcept x >>= f).AtMost ok M n := by
  cases x with
  | error e => trivial
  | ok a => exact h a rfl

/-! ## What calls are justified by -/

/-- Before each call `c` the history satisfies `P` with `c`, and with what the
program returns it satisfies `R`. -/
def Justified (P : List ((c : C) × A c) → C → Prop) (R : List ((c : C) × A c) → α → Prop) :
    List ((c : C) × A c) → Prog C A ε α → Prop
  | tr, ret a => R tr a
  | _, raise _ => True
  | tr, call c k => P tr c ∧ ∀ a, Justified P R (tr ++ [⟨c, a⟩]) (k a)

section
variable {P : List ((c : C) × A c) → C → Prop} {tr : List ((c : C) × A c)}

theorem Justified.bind {R : List ((c : C) × A c) → α → Prop} {R' : List ((c : C) × A c) → β → Prop}
    {p : Prog C A ε α} {f : α → Prog C A ε β} (h : Justified P R tr p)
    (hf : ∀ tr a, R tr a → Justified P R' tr (f a)) : Justified P R' tr (p >>= f) := by
  induction p generalizing tr with
  | ret a => exact hf tr a h
  | raise e => trivial
  | call c k ih => exact ⟨h.1, fun a => ih a (h.2 a)⟩

theorem Justified.imp {R R' : List ((c : C) × A c) → α → Prop} {p : Prog C A ε α}
    (h : Justified P R tr p) (hR : ∀ tr a, R tr a → R' tr a) : Justified P R' tr p := by
  induction p generalizing tr with
  | ret a => exact hR tr a h
  | raise e => trivial
  | call c k ih => exact ⟨h.1, fun a => ih a (h.2 a)⟩

theorem Justified.weaken {P' : List ((c : C) × A c) → C → Prop}
    {R : List ((c : C) × A c) → α → Prop} {p : Prog C A ε α} (h : Justified P R tr p)
    (hP : ∀ tr c, P tr c → P' tr c) : Justified P' R tr p := by
  induction p generalizing tr with
  | ret a => exact h
  | raise e => trivial
  | call c k ih => exact ⟨hP _ _ h.1, fun a => ih a (h.2 a)⟩

/-- What is said by one account of the calls holds by another too. -/
theorem Justified.returning {P' : List ((c : C) × A c) → C → Prop}
    {R R' : List ((c : C) × A c) → α → Prop} {p : Prog C A ε α} (h : Justified P R tr p)
    (h' : Justified P' R' tr p) : Justified P' R tr p := by
  induction p generalizing tr with
  | ret a => exact h
  | raise e => trivial
  | call c k ih => exact ⟨h'.1, fun a => ih a (h.2 a) (h'.2 a)⟩

theorem Justified.ofExcept_bind {R : List ((c : C) × A c) → β → Prop} {x : Except ε α}
    {f : α → Prog C A ε β} (h : ∀ a, x = .ok a → Justified P R tr (f a)) :
    Justified P R tr (ofExcept x >>= f) := by
  cases x with
  | error e => trivial
  | ok a => exact h a rfl

/-- What a program does after some calls is justified by them too. -/
theorem Justified.makes {R : List ((c : C) × A c) → α → Prop} {p q : Prog C A ε α}
    {made : List ((c : C) × A c)} (h : Justified P R tr p) (hm : Makes p made q) :
    Justified P R (tr ++ made) q := by
  induction hm generalizing tr with
  | nil => simpa using h
  | cons _ ih => simpa using ih (h.2 _)

end

/-! ## Running alone -/

variable {S : Type}

/-- How the program ends, the state it leaves and the calls it made. -/
def run (handle : (c : C) → S → A c × S) : Prog C A ε α → S → Except ε α × S × List C
  | ret a, s => (.ok a, s, [])
  | raise e, s => (.error e, s, [])
  | call c k, s =>
    let (a, s') := handle c s
    let (out, s'', calls) := (k a).run handle s'
    (out, s'', c :: calls)

variable {handle : (c : C) → S → A c × S}

@[simp] theorem run_ret (a : α) (s : S) :
    (ret a : Prog C A ε α).run handle s = (.ok a, s, []) := rfl

@[simp] theorem run_raise (e : ε) (s : S) :
    (raise e : Prog C A ε α).run handle s = (.error e, s, []) := rfl

theorem run_call {c : C} {k : A c → Prog C A ε α} {s s'' : S} {out : Except ε α}
    {calls : List C} : (call c k).run handle s = (out, s'', calls) ↔
      ∃ rest, (k (handle c s).1).run handle (handle c s).2 = (out, s'', rest) ∧
        calls = c :: rest := by
  constructor
  · intro h
    cases h
    exact ⟨_, rfl, rfl⟩
  · rintro ⟨rest, h, rfl⟩
    exact congrArg (fun r => (r.1, r.2.1, c :: r.2.2)) h

theorem run_ofExcept_bind {x : Except ε α} {a : α} {f : α → Prog C A ε β} {s s'' : S}
    {out : Except ε β} {calls : List C} (hx : x = .ok a)
    (hf : (f a).run handle s = (out, s'', calls)) :
    (ofExcept x >>= f).run handle s = (out, s'', calls) := by
  subst hx
  exact hf

/-- A program that returns has not raised on the way. -/
theorem exists_of_run_ofExcept_bind {x : Except ε α} {f : α → Prog C A ε β} {s s'' : S} {b : β}
    {calls : List C} (h : (ofExcept x >>= f).run handle s = (.ok b, s'', calls)) :
    ∃ a, x = .ok a ∧ (f a).run handle s = (.ok b, s'', calls) := by
  cases x with
  | error e => cases h
  | ok a => exact ⟨a, rfl, h⟩

/-- A program that returns has made its calls, and got the answers of the handler. -/
theorem makes_of_run {p : Prog C A ε α} {s s' : S} {a : α} {calls : List C}
    (h : p.run handle s = (.ok a, s', calls)) :
    ∃ tr, Makes p tr (ret a) ∧ ∀ e ∈ tr, ∃ s, e.2 = (handle e.1 s).1 := by
  induction p generalizing s calls with
  | ret a' =>
    cases h
    exact ⟨[], .nil _, by simp⟩
  | raise e => cases h
  | call c k ih =>
    obtain ⟨rest, hrest, _⟩ := run_call.mp h
    obtain ⟨tr, hmakes, hanswers⟩ := ih _ hrest
    refine ⟨_, .cons hmakes, fun e he => ?_⟩
    cases he with
    | head => exact ⟨s, rfl⟩
    | tail _ hold => exact hanswers e hold

/-- Alone, the program returns something like this. -/
def Returns (handle : (c : C) → S → A c × S) (like : α → Prop) (p : Prog C A ε α) : Prop :=
  ∀ s, ∃ a s' calls, p.run handle s = (.ok a, s', calls) ∧ like a

theorem Returns.ret {like : α → Prop} {a : α} (h : like a) :
    Returns handle like (ret a : Prog C A ε α) :=
  fun s => ⟨a, s, [], rfl, h⟩

theorem Returns.call {like : α → Prop} {c : C} {k : A c → Prog C A ε α}
    (h : ∀ s, Returns handle like (k (handle c s).1)) : Returns handle like (call c k) := by
  intro s
  obtain ⟨a, s', calls, hrun, ha⟩ := h s (handle c s).2
  exact ⟨a, s', c :: calls, run_call.mpr ⟨calls, hrun, rfl⟩, ha⟩

theorem Returns.ofExcept_ret {like : α → Prop} {x : Except ε α} {a : α} (hx : x = .ok a)
    (h : like a) : Returns handle like (ofExcept x) := by
  subst hx
  exact Returns.ret h

theorem Returns.ofExcept_bind {like : β → Prop} {x : Except ε α} {a : α} {f : α → Prog C A ε β}
    (hx : x = .ok a) (h : Returns handle like (f a)) :
    Returns handle like (ofExcept x >>= f) := by
  subst hx
  exact h

theorem Returns.bind {like : α → Prop} {like' : β → Prop} {p : Prog C A ε α}
    {f : α → Prog C A ε β} (h : Returns handle like p)
    (hf : ∀ a, like a → Returns handle like' (f a)) : Returns handle like' (p >>= f) := by
  intro s
  obtain ⟨a, s', calls, hrun, ha⟩ := h s
  obtain ⟨b, s'', rest, hrest, hb⟩ := hf a ha s'
  refine ⟨b, s'', calls ++ rest, ?_, hb⟩
  clear h
  induction p generalizing s calls with
  | ret a' =>
    cases hrun
    exact hrest
  | raise e => cases hrun
  | call c k ih =>
    obtain ⟨calls, hnext, rfl⟩ := run_call.mp hrun
    exact run_call.mpr ⟨calls ++ rest, ih _ _ _ hnext, rfl⟩

end Prog

end Os2moFkk
