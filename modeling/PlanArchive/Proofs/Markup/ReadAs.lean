import Mathlib.Data.List.Forall2
import PlanArchive.Markup.Reader
import PlanArchive.Proofs.Keyed
import PlanArchive.Proofs.Markup.Occurs
import PlanArchive.Proofs.Markup.Spelling

/-!
# What elements are read as

A well-formed element can be printed and read. It is read as an element with the same content, with
line numbers and without empty texts (`Element.ReadAs`), and from a spelling as one with the names
as they are spelled (`Element.respelled`).
-/

namespace PlanArchive.Markup

namespace Element

/-- What can be written and read back: proper names, each attribute once, and not both text and
children. -/
inductive WellFormed : Element → Prop
  | mk {name : String} {attributes : List (String × String)} {text : Option String}
      {children : List Element} {line : Nat} (hname : isName name = true)
      (hkeys : ∀ pair ∈ attributes, isName pair.1 = true)
      (hnodup : (Keyed.keys attributes).Nodup) (htext : text = none ∨ children = [])
      (hchildren : ∀ child ∈ children, WellFormed child) :
      WellFormed ⟨name, attributes, text, children, line⟩

mutual

/-- Changes the names, lines and texts of an element throughout. -/
def adjust (name : String → String) (line : Nat → Nat) (text : Option String → Option String) :
    Element → Element
  | ⟨n, attributes, t, children, l⟩ =>
    ⟨name n, attributes.map fun (key, value) => (name key, value), text t,
      adjustAll name line text children, line l⟩

def adjustAll (name : String → String) (line : Nat → Nat)
    (text : Option String → Option String) : List Element → List Element
  | [] => []
  | child :: rest => child.adjust name line text :: adjustAll name line text rest

end

theorem adjustAll_eq_map (name : String → String) (line : Nat → Nat)
    (text : Option String → Option String) (es : List Element) :
    adjustAll name line text es = es.map (adjust name line text) := by
  induction es with
  | nil => rfl
  | cons e es ih => rw [adjustAll, ih, List.map_cons]

theorem adjust_mk (line : Nat → Nat) (adjustText : Option String → Option String) (name : String)
    (attributes : List (String × String)) (text : Option String) (children : List Element)
    (l : Nat) :
    adjust id line adjustText ⟨name, attributes, text, children, l⟩ =
      ⟨name, attributes, adjustText text, children.map (adjust id line adjustText), line l⟩ := by
  have hattributes : attributes.map (fun (key, value) => (id key, value)) = attributes :=
    List.map_id attributes
  rw [adjust, adjustAll_eq_map, hattributes]
  rfl

theorem name_adjust (name : String → String) (line : Nat → Nat)
    (text : Option String → Option String) (e : Element) :
    (e.adjust name line text).name = name e.name := by
  cases e
  rw [adjust]

section

variable (name : String → String) (line : Nat → Nat)

/-- What is under way goes on as before with other names and lines. -/
theorem adjust_addText (text : String) (e : Element) :
    (addText text e).adjust name line id = addText text (e.adjust name line id) := by
  cases e
  simp only [addText, adjust, content, id]

theorem adjust_addChild (child e : Element) :
    (addChild child e).adjust name line id =
      addChild (child.adjust name line id) (e.adjust name line id) := by
  cases e
  simp only [addChild, adjust, adjustAll]

theorem adjust_closed (e : Element) :
    (closed e).adjust name line id = closed (e.adjust name line id) := by
  cases e
  simp only [closed, adjust, adjustAll_eq_map, content, List.map_reverse, List.isEmpty_map, id]
  rfl

end

/-- The element without its line numbers. -/
def unlined (e : Element) : Element := e.adjust id (fun _ => 0) id

theorem unlined_mk (name : String) (attributes : List (String × String)) (text : Option String)
    (children : List Element) (line : Nat) :
    unlined ⟨name, attributes, text, children, line⟩ =
      ⟨name, attributes, text, children.map unlined, 0⟩ :=
  adjust_mk (fun _ => 0) id name attributes text children line

/-- No text instead of an empty one. -/
def dropEmpty (text : Option String) : Option String := if text = some "" then none else text

/-- The element without its line numbers and its empty texts. -/
def bare (e : Element) : Element := e.adjust id (fun _ => 0) dropEmpty

theorem bare_mk (name : String) (attributes : List (String × String)) (text : Option String)
    (children : List Element) (line : Nat) :
    bare ⟨name, attributes, text, children, line⟩ =
      ⟨name, attributes, dropEmpty text, children.map bare, 0⟩ :=
  adjust_mk (fun _ => 0) dropEmpty name attributes text children line

/-- `e'` is `e` as it is read back. -/
def ReadAs (e e' : Element) : Prop := e'.unlined = e.bare

theorem readAs_mk {name : String} {attributes : List (String × String)} {text : Option String}
    {children : List Element} {line : Nat} {e' : Element} :
    ReadAs ⟨name, attributes, text, children, line⟩ e' ↔
      e'.name = name ∧ e'.attributes = attributes ∧ e'.text = dropEmpty text ∧
        List.Forall₂ ReadAs children e'.children := by
  obtain ⟨name', attributes', text', children', line'⟩ := e'
  have hchildren : List.Forall₂ ReadAs children children' ↔
      children'.map unlined = children.map bare := by
    rw [← List.forall₂_eq_eq_eq, List.forall₂_map_left_iff, List.forall₂_map_right_iff]
    exact ⟨fun h => h.flip, fun h => h.flip⟩
  rw [ReadAs, unlined_mk, bare_mk, Element.mk.injEq, hchildren]
  simp only [and_true]

section

variable {e e' : Element} (h : ReadAs e e')

include h

theorem ReadAs.name : e'.name = e.name := by
  cases e
  exact (readAs_mk.mp h).1

theorem ReadAs.attributes : e'.attributes = e.attributes := by
  cases e
  exact (readAs_mk.mp h).2.1

theorem ReadAs.text : e'.text = dropEmpty e.text := by
  cases e
  exact (readAs_mk.mp h).2.2.1

theorem ReadAs.content : e'.content = e.content := by
  rw [Element.content, h.text, dropEmpty, Element.content]
  split
  · rename_i htext
    rw [htext]
    rfl
  · rfl

theorem ReadAs.children : List.Forall₂ ReadAs e.children e'.children := by
  cases e
  exact (readAs_mk.mp h).2.2.2

theorem ReadAs.attribute? (key : String) : e'.attribute? key = e.attribute? key := by
  rw [Element.attribute?, h.attributes, Element.attribute?]

end

/-! ### Spelled names -/

section

variable (s : Spelling)

/-- The element with its names as they are spelled. -/
def respelled (e : Element) : Element := e.adjust s.name id id

theorem respelled_mk (name : String) (attributes : List (String × String)) (text : Option String)
    (children : List Element) (line : Nat) :
    respelled s ⟨name, attributes, text, children, line⟩ =
      ⟨s.name name, s.keyed attributes, text, children.map (respelled s), line⟩ := by
  rw [respelled, adjust, adjustAll_eq_map]
  rfl

theorem respelled_addText (text : String) (e : Element) :
    (addText text e).respelled s = addText text (e.respelled s) :=
  adjust_addText s.name id text e

theorem respelled_addChild (child e : Element) :
    (addChild child e).respelled s = addChild (child.respelled s) (e.respelled s) :=
  adjust_addChild s.name id child e

theorem respelled_closed (e : Element) : (closed e).respelled s = closed (e.respelled s) :=
  adjust_closed s.name id e

theorem name_respelled (e : Element) : (e.respelled s).name = s.name e.name :=
  name_adjust s.name id id e

theorem respelled_plain (e : Element) : e.respelled .plain = e := by
  induction e using induct with
  | step e ih =>
    obtain ⟨name, attributes, text, children, line⟩ := e
    have hattributes : Spelling.plain.keyed attributes = attributes := by
      simp [Spelling.keyed]
    have hchildren : children.map (respelled .plain) = children :=
      (List.map_congr_left fun child hchild => (ih child hchild).1).trans (List.map_id children)
    rw [respelled_mk, Spelling.name_plain, hattributes, hchildren]

/-- An element is the same in a spelling just when all its names are. -/
theorem respelled_eq_self_iff (e : Element) :
    e.respelled s = e ↔ ∀ part, Occurs part e →
      s.name part.name = part.name ∧ ∀ pair ∈ part.attributes, s.name pair.1 = pair.1 := by
  induction e using induct with
  | step e ih =>
    rw [forall_occurs]
    obtain ⟨name, attributes, text, children, line⟩ := e
    have hattributes : s.keyed attributes = attributes ↔
        ∀ pair ∈ attributes, s.name pair.1 = pair.1 := by
      conv_lhs => rw [Spelling.keyed, ← List.map_id attributes, List.map_map, List.map_inj_left]
      simp [Prod.ext_iff]
    have hchildren : children.map (respelled s) = children ↔
        ∀ child ∈ children, child.respelled s = child := by
      conv_lhs => rw [← List.map_id children, List.map_map, List.map_inj_left]
      rfl
    rw [respelled_mk, Element.mk.injEq, hattributes, hchildren]
    simp only [and_true, true_and, and_assoc]
    exact and_congr_right' (and_congr_right'
      (forall₂_congr fun child hchild => (ih child hchild).1))

end

end Element

end PlanArchive.Markup
