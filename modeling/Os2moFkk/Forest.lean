import Mathlib.Data.List.Basic

/-!
# Forests

Ordered trees, side by side. Each tree has a name, which paths go by, and some
content. An operation on a tree is on the first place that a path leads to:

* `Tree.find` is the tree there;
* `Tree.replace` puts other trees in its place;
* `Tree.detach` takes it out.

`select` goes by content instead, wherever a tree is.
-/

namespace Os2moFkk

inductive Forest (κ α : Type) where
  | nil
  | cons (name : κ) (content : α) (children rest : Forest κ α)
  deriving DecidableEq

namespace Forest

structure Tree (κ α : Type) where
  name : κ
  content : α
  children : Forest κ α
  deriving DecidableEq

variable {κ α : Type}

def append : Forest κ α → Forest κ α → Forest κ α
  | nil, g => g
  | cons name content children rest, g => cons name content children (rest.append g)

instance : Append (Forest κ α) := ⟨append⟩

@[simp] theorem nil_append (g : Forest κ α) : nil ++ g = g := rfl

@[simp] theorem cons_append (name : κ) (content : α) (children rest g : Forest κ α) :
    cons name content children rest ++ g = cons name content children (rest ++ g) := rfl

/-- The forest of one tree. -/
def single (t : Tree κ α) : Forest κ α := cons t.name t.content t.children nil

def ofList : List (Tree κ α) → Forest κ α
  | [] => nil
  | t :: ts => cons t.name t.content t.children (ofList ts)

theorem ofList_concat (ts : List (Tree κ α)) (t : Tree κ α) :
    ofList (ts ++ [t]) = ofList ts ++ single t := by
  induction ts with
  | nil => rfl
  | cons u ts ih => simp only [List.cons_append, ofList, ih, cons_append]

def trees : Forest κ α → List (Tree κ α)
  | nil => []
  | cons name content children rest => ⟨name, content, children⟩ :: rest.trees

/-- All trees with a property, at any depth, in document order. -/
def select (p : Tree κ α → Bool) : Forest κ α → List (Tree κ α)
  | nil => []
  | cons name content children rest =>
    (if p ⟨name, content, children⟩ then [⟨name, content, children⟩] else []) ++
      children.select p ++ rest.select p

theorem select_ofList (p : Tree κ α → Bool) (ts : List (Tree κ α)) :
    (ofList ts).select p = ts.flatMap fun t => (single t).select p := by
  induction ts with
  | nil => rfl
  | cons t ts ih => simp [ofList, single, select, ih]

/-- The first tree for which `m` has something gives way to that. -/
def replaceFirst (m : Tree κ α → Option (Forest κ α)) : Forest κ α → Option (Forest κ α)
  | nil => none
  | cons name content children rest =>
    match m ⟨name, content, children⟩ with
    | some f => some (f ++ rest)
    | none => (rest.replaceFirst m).map (cons name content children)

namespace Tree
variable [DecidableEq κ]

def find : List κ → Tree κ α → Option (Tree κ α)
  | [], t => some t
  | name :: path, t => (t.children.trees.filter (·.name = name)).findSome? (find path)

/-- The tree with what `g` gives for the tree that the path leads to in its place. -/
def replace (g : Tree κ α → Forest κ α) : List κ → Tree κ α → Option (Tree κ α)
  | [], _ => none
  | name :: path, t =>
    let inside (u : Tree κ α) : Option (Forest κ α) :=
      if u.name ≠ name then none
      else if path = [] then some (g u)
      else (replace g path u).map single
    (t.children.replaceFirst inside).map fun children => { t with children := children }

/-- The tree there, changed. -/
def modify (g : Tree κ α → Tree κ α) (path : List κ) (t : Tree κ α) : Option (Tree κ α) :=
  t.replace (fun u => single (g u)) path

/-- The tree there, and what is left without it. -/
def detach (path : List κ) (t : Tree κ α) : Option (Tree κ α × Tree κ α) :=
  match t.find path, t.replace (fun _ => nil) path with
  | some u, some rest => some (u, rest)
  | _, _ => none

def addChild (u t : Tree κ α) : Tree κ α := { t with children := t.children ++ single u }

/-- A path leads to trees with its last name. -/
theorem name_of_find {name : κ} {path : List κ} {t u : Tree κ α}
    (h : t.find (path ++ [name]) = some u) : u.name = name := by
  induction path generalizing t with
  | nil =>
    rw [List.nil_append, find, List.findSome?_eq_some_iff] at h
    obtain ⟨_, v, _, hsplit, hv, _⟩ := h
    have hmem : v ∈ t.children.trees.filter (·.name = name) := by simp [hsplit]
    obtain rfl : v = u := by simpa [find] using hv
    simpa using (List.mem_filter.mp hmem).2
  | cons _ path ih =>
    rw [List.cons_append, find, List.findSome?_eq_some_iff] at h
    obtain ⟨_, _, _, _, hv, _⟩ := h
    exact ih hv

theorem find_of_detach {path : List κ} {t u rest : Tree κ α} (h : t.detach path = some (u, rest)) :
    t.find path = some u := by
  unfold detach at h
  split at h
  · rename_i hu _
    obtain ⟨rfl, rfl⟩ := by simpa using h
    exact hu
  · cases h

end Tree

end Forest

end Os2moFkk
