import Mathlib.Data.List.DropRight

/-!
# Element trees

Elements are looked up by the names of their tags, in any namespace, along a
path from an element to its descendants. The texts of leaves are stripped of
whitespace.
-/

namespace Os2moFkk.Xml

abbrev Text := List Char

/-- The text of an element is what stands before its first child, if anything. -/
inductive Element where
  | element (tag : String) (text : Option Text) (children : List Element)

namespace Element

def tag : Element → String
  | element tag _ _ => tag

def text : Element → Option Text
  | element _ text _ => text

def children : Element → List Element
  | element _ _ children => children

/-- An element without children. -/
def leaf (tag : String) (text : Text) : Element := element tag (some text) []

/-- An element with nothing but children. -/
def node (tag : String) (children : List Element) : Element := element tag none children

/-- The children with a tag. -/
def named (e : Element) (tag : String) : List Element := e.children.filter (·.tag = tag)

/-- `e.findall("{*}a/{*}b")`, in document order. -/
def findall : List String → Element → List Element
  | [], e => [e]
  | tag :: path, e => (e.named tag).flatMap (findall path)

/-- `e.find("{*}a/{*}b")`. -/
def find (path : List String) (e : Element) : Option Element := (findall path e).head?

/-- An element has one child with this tag, whatever other children it has. -/
def Only (e : Element) (tag : String) (child : Element) : Prop := e.named tag = [child]

/-- One child has this tag, and it is like this. -/
def One (e : Element) (tag : String) (like : Element → Prop) : Prop :=
  ∃ child, e.Only tag child ∧ like child

variable {e child : Element} {tag : String}

/-- A path goes through an only child. -/
theorem Only.findall (h : e.Only tag child) (path : List String) :
    Element.findall (tag :: path) e = Element.findall path child := by
  rw [Element.findall, h, List.flatMap_singleton]

theorem Only.find (h : e.Only tag child) : Element.find [tag] e = some child := by
  rw [Element.find, h.findall]
  rfl

theorem Only.find_cons (h : e.Only tag child) (path : List String) :
    Element.find (tag :: path) e = Element.find path child := by
  rw [Element.find, h.findall]
  rfl

theorem findall_append (path path' : List String) (e : Element) :
    findall (path ++ path') e = (findall path e).flatMap (findall path') := by
  induction path generalizing e with
  | nil => simp [findall]
  | cons tag path ih => rw [List.cons_append, findall, findall, List.flatMap_assoc, funext ih]

theorem findall_single : findall [tag] e = e.named tag := by
  simp [findall]

theorem find_eq_none (h : e.named tag = []) : find [tag] e = none := by
  rw [find, findall_single, h]
  rfl

end Element

/-! ## Whitespace -/

/-- `c.isspace()`. -/
def isSpace (c : Char) : Bool :=
  let n := c.toNat
  (9 ≤ n && n ≤ 13) || (28 ≤ n && n ≤ 32) || (0x2000 ≤ n && n ≤ 0x200a) ||
    [0x85, 0xa0, 0x1680, 0x2028, 0x2029, 0x202f, 0x205f, 0x3000].contains n

/-- A printable character is not whitespace. -/
theorem isSpace_printable {c : Char} (h : 33 ≤ c.toNat ∧ c.toNat ≤ 126) : isSpace c = false := by
  have hother : c.toNat ∉ [0x85, 0xa0, 0x1680, 0x2028, 0x2029, 0x202f, 0x205f, 0x3000] := by
    intro hmem
    simp at hmem
    omega
  rw [Bool.eq_false_iff]
  intro hspace
  simp only [isSpace, Bool.or_eq_true, Bool.and_eq_true, decide_eq_true_eq,
    List.contains_iff_mem] at hspace
  rcases hspace with hascii | hmem
  · omega
  · exact hother hmem

/-- The text without the characters of a kind that it starts and ends with. -/
def stripWith (p : Char → Bool) (text : Text) : Text := (text.dropWhile p).rdropWhile p

/-- `text.strip()`. -/
def strip (text : Text) : Text := stripWith isSpace text

/-- `text.replace(sub, "")`, of which `skip` characters of an occurrence are left. -/
def removeFrom (sub : Text) : Nat → Text → Text
  | _, [] => []
  | skip + 1, _ :: text => removeFrom sub skip text
  | 0, c :: text =>
    if sub.isPrefixOf (c :: text) then removeFrom sub (sub.length - 1) text
    else c :: removeFrom sub 0 text

/-- The text neither starts nor ends with a character of the kind. -/
def Trimmed (p : Char → Bool) (text : Text) : Prop :=
  ∀ c, text.head? = some c ∨ text.getLast? = some c → p c = false

/-- The text, with any number of characters of the kind before and after it. -/
def Padded (p : Char → Bool) (padded text : Text) : Prop :=
  ∃ before after, padded = before ++ text ++ after ∧ before.all p = true ∧ after.all p = true

variable {p : Char → Bool}

theorem Trimmed.of_all {text : Text} (h : (text.all fun c => !p c) = true) : Trimmed p text := by
  have hmem : ∀ c ∈ text, p c = false := fun c hc => by simpa using List.all_eq_true.mp h c hc
  rintro c (hc | hc)
  · exact hmem c (List.mem_of_mem_head? hc)
  · exact hmem c (List.mem_of_mem_getLast? hc)

theorem Padded.refl (text : Text) : Padded p text text :=
  ⟨[], [], by simp, rfl, rfl⟩

/-- Stripping takes the padding away. -/
theorem Padded.stripWith {padded text : Text} (h : Padded p padded text)
    (htrimmed : Trimmed p text) : Xml.stripWith p padded = text := by
  obtain ⟨before, after, rfl, hbefore, hafter⟩ := h
  rw [List.all_eq_true] at hbefore hafter
  rw [Xml.stripWith, List.append_assoc, List.dropWhile_append_of_pos hbefore]
  cases text with
  | nil =>
    rw [List.nil_append, List.dropWhile_eq_nil_iff.mpr hafter]
    exact List.rdropWhile_nil p
  | cons c rest =>
    have hhead : p c = false := htrimmed c (Or.inl rfl)
    have hlast : ∀ h : c :: rest ≠ [], ¬ p ((c :: rest).getLast h) = true := by
      intro h
      rw [htrimmed _ (Or.inr (List.getLast?_eq_getLast_of_ne_nil h))]
      exact Bool.false_ne_true
    have hafter' : ∀ d ∈ after.reverse, p d = true := fun d hd => hafter d (List.mem_reverse.mp hd)
    rw [List.cons_append, List.dropWhile_cons_of_neg (by simp [hhead]), List.rdropWhile,
      ← List.cons_append, List.reverse_append, List.dropWhile_append_of_pos hafter']
    exact List.rdropWhile_eq_self_iff.mpr hlast

/-- Nothing is removed from a text that lacks the first character. -/
theorem removeFrom_eq {c : Char} {sub text : Text} (h : c ∉ text) :
    removeFrom (c :: sub) 0 text = text := by
  induction text with
  | nil => rfl
  | cons d text ih =>
    have hne : c ≠ d := fun he => h (he ▸ List.mem_cons_self)
    have hprefix : ¬ (c :: sub).isPrefixOf (d :: text) = true := by simp [hne]
    rw [removeFrom, if_neg hprefix, ih fun hc => h (List.mem_cons_of_mem d hc)]

end Os2moFkk.Xml
