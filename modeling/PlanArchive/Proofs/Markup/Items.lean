import PlanArchive.Proofs.Markup.Position
import PlanArchive.Proofs.Markup.StartTags

/-!
# Runs of character data

Reading joins the character data of an element over its children. Here what stands in an element is
kept in the order of the text, as runs of character data and elements (`readItems`). The elements
that are read are those among these items with their runs joined (`readElements_eq_map`), so an
element keeps text that is not blank just when one of its runs is not, wherever it stands among the
children (`allBlank_content`).
-/

namespace PlanArchive.Markup

/-! ## Items -/

/-- A run of character data, or an element: what its start tag opens, and what stands in it. -/
inductive Item
  | run (text : String)
  | element (opening : Element) (inside : List Item)

/-- An element with the items that stand directly in it. -/
structure Opened where
  opening : Element
  inside : List Item

def runsIn (items : List Item) : List String :=
  items.filterMap fun
    | .run text => some text
    | .element _ _ => none

def openedIn (items : List Item) : List Opened :=
  items.filterMap fun
    | .run _ => none
    | .element opening inside => some ⟨opening, inside⟩

/-- The runs put together, if there are any. -/
def joined (items : List Item) : Option String :=
  if runsIn items = [] then none else some (String.join (runsIn items))

/-- The text of an element. Beside other elements blank runs are dropped. -/
def textOf (items : List Item) : Option String :=
  if !(openedIn items).isEmpty && Text.allBlank ((joined items).getD "").toList then none
  else joined items

mutual

def Item.elements : Item → List Element
  | .run _ => []
  | .element opening inside =>
    [{ opening with text := textOf inside, children := elementsIn inside }]

def elementsIn : List Item → List Element
  | [] => []
  | item :: rest => item.elements ++ elementsIn rest

end

def Opened.element (x : Opened) : Element :=
  { x.opening with text := textOf x.inside, children := elementsIn x.inside }

section

variable (items more : List Item)

theorem elementsIn_eq_map : elementsIn items = (openedIn items).map Opened.element := by
  induction items with
  | nil => rfl
  | cons item items ih =>
    rw [elementsIn, ih]
    cases item <;> rfl

theorem openedIn_append : openedIn (items ++ more) = openedIn items ++ openedIn more :=
  List.filterMap_append

theorem elementsIn_append : elementsIn (items ++ more) = elementsIn items ++ elementsIn more := by
  simp only [elementsIn_eq_map, openedIn_append, List.map_append]

theorem joined_concat_run (text : String) :
    joined (items ++ [.run text]) = some ((joined items).getD "" ++ text) := by
  have hruns : runsIn (items ++ [.run text]) = runsIn items ++ [text] := List.filterMap_append
  have hjoin : String.join (runsIn items ++ [text]) = String.join (runsIn items) ++ text :=
    List.foldl_concat ..
  unfold joined
  rw [hruns, if_neg (by simp), hjoin]
  by_cases hnone : runsIn items = []
  · rw [hnone]
    rfl
  · rw [if_neg hnone]
    rfl

theorem joined_concat_element (opening : Element) (inside : List Item) :
    joined (items ++ [.element opening inside]) = joined items := by
  have hruns : runsIn (items ++ [.element opening inside]) = runsIn items :=
    List.filterMap_append.trans (List.append_nil _)
  rw [joined, hruns, joined]

theorem toList_joined :
    ((joined items).getD "").toList = (runsIn items).flatMap String.toList := by
  unfold joined
  split
  · rename_i hnone
    rw [hnone]
    rfl
  · exact String.toList_join

/-- The text of an element is blank just when each run directly in it is. -/
theorem allBlank_content (x : Opened) :
    Text.allBlank x.element.content.toList =
      (runsIn x.inside).all fun run => Text.allBlank run.toList := by
  have hall : Text.allBlank ((joined x.inside).getD "").toList =
      (runsIn x.inside).all fun run => Text.allBlank run.toList := by
    rw [toList_joined, Text.allBlank, List.all_flatMap]
    rfl
  rw [Element.content, Opened.element, ← hall, textOf]
  split
  · rename_i hdropped
    rw [Bool.and_eq_true] at hdropped
    rw [hdropped.2]
    rfl
  · rfl

end

/-- The element at a position below, as `Element.at?` finds it. -/
def Opened.at? (x : Opened) : List Nat → Option Opened
  | [] => some x
  | i :: p => (openedIn x.inside)[i]?.bind (·.at? p)

theorem at?_element (x : Opened) (p : List Nat) :
    x.element.at? p = (x.at? p).map Opened.element := by
  induction p generalizing x with
  | nil => rfl
  | cons i p ih =>
    have hchildren : x.element.children = (openedIn x.inside).map Opened.element :=
      elementsIn_eq_map x.inside
    rw [Element.at?, hchildren, List.getElem?_map, Opened.at?]
    cases (openedIn x.inside)[i]? with
    | none => rfl
    | some child => exact ih child

/-! ## Reading items -/

/-- What is under way: open elements, innermost first, and the items at the top. -/
structure Outline where
  stack : List Opened := []
  items : List Item := []

namespace Outline

def add (item : Item) (outline : Outline) : Outline :=
  match outline.stack with
  | x :: outer => { outline with stack := { x with inside := x.inside ++ [item] } :: outer }
  | [] => { outline with items := outline.items ++ [item] }

def append (line : Nat) (text : List Char) (outline : Outline) : Except Problem Outline :=
  match outline.stack with
  | _ :: _ => .ok (outline.add (.run (String.ofList text)))
  | [] => if Text.allBlank text then .ok outline else .error ⟨.strayText, line⟩

def step (outline : Outline) (line : Nat) : Token → Except Problem Outline
  | .start content => do
    let e ← openTag line content
    return { outline with stack := ⟨e, []⟩ :: outline.stack }
  | .empty content => do
    let e ← openTag line content
    return outline.add (.element e [])
  | .close name =>
    match outline.stack with
    | [] => .error ⟨.unmatchedEnd (String.ofList name), line⟩
    | x :: outer =>
      if x.opening.name.toList = name then
        .ok (add (.element x.opening x.inside) { outline with stack := outer })
      else .error ⟨.wrongEnd x.opening.name (String.ofList name), line⟩
  | .text raw =>
    match unescape raw with
    | .ok text => outline.append line text
    | .error fault => .error ⟨.text fault, line⟩
  | .data content => outline.append line content
  | .aside => .ok outline
  | .broken fault => .error ⟨.token fault, line⟩

def grow (outline : Outline) : List (Nat × Token) → Except Problem Outline
  | [] => .ok outline
  | (line, token) :: rest => do (← outline.step line token).grow rest

def finish (outline : Outline) : Except Problem (List Item) :=
  match outline.stack with
  | [] => .ok outline.items
  | x :: _ => .error ⟨.unclosed x.opening.name, x.opening.line⟩

end Outline

/-- The items at the top of a text: elements, as character data there are blank and dropped. -/
def readItems (text : List Char) : Except Problem (List Item) := do
  (← Outline.grow {} (numberedTokens text)).finish

/-! ## The elements among the items -/

/-- The element so far, with its children latest first. -/
def Opened.underway (x : Opened) : Element :=
  { x.opening with text := joined x.inside, children := (elementsIn x.inside).reverse }

def Outline.forest (outline : Outline) : Forest :=
  ⟨outline.stack.map Opened.underway, (elementsIn outline.items).reverse⟩

theorem underway_of_openTag {line : Nat} {content : List Char} {e : Element}
    (h : openTag line content = .ok e) : Opened.underway ⟨e, []⟩ = e :=
  (openTag_eq_ok h).2.1

theorem element_of_openTag {line : Nat} {content : List Char} {e : Element}
    (h : openTag line content = .ok e) : Opened.element ⟨e, []⟩ = e :=
  (openTag_eq_ok h).2.1

theorem closed_underway (x : Opened) : closed x.underway = x.element := by
  have hempty : ((elementsIn x.inside).reverse).isEmpty = (openedIn x.inside).isEmpty := by
    rw [List.isEmpty_reverse, elementsIn_eq_map, List.isEmpty_map]
  simp only [closed, Opened.underway, Element.content, hempty, List.reverse_reverse]
  rfl

theorem forest_add_run (x : Opened) (outer : List Opened) (items : List Item) (text : String) :
    (Outline.add (.run text) ⟨x :: outer, items⟩).forest =
      ⟨addText text x.underway :: outer.map Opened.underway, (elementsIn items).reverse⟩ := by
  have helements : elementsIn (x.inside ++ [.run text]) = elementsIn x.inside :=
    (elementsIn_append _ _).trans (List.append_nil _)
  simp only [Outline.add, Outline.forest, List.map_cons, Opened.underway, joined_concat_run,
    helements]
  rfl

theorem forest_add_element (outline : Outline) (x : Opened) :
    (outline.add (.element x.opening x.inside)).forest = outline.forest.attach x.element := by
  have hconcat : ∀ items, (elementsIn (items ++ [.element x.opening x.inside])).reverse =
      x.element :: (elementsIn items).reverse := by
    intro items
    rw [elementsIn_append, List.reverse_append]
    rfl
  obtain ⟨stack, items⟩ := outline
  cases stack with
  | nil => simp only [Outline.add, Outline.forest, hconcat, List.map_nil, Forest.attach]
  | cons parent outer =>
    simp only [Outline.add, Outline.forest, List.map_cons, Opened.underway, hconcat,
      joined_concat_element, Forest.attach, addChild]

theorem forest_append (outline : Outline) (line : Nat) (text : List Char) :
    outline.forest.append line text = (outline.append line text).map Outline.forest := by
  obtain ⟨stack, items⟩ := outline
  cases stack with
  | nil =>
    simp only [Outline.forest, List.map_nil, Forest.append, Outline.append]
    split <;> rfl
  | cons x outer =>
    simp only [Outline.append, Except.map, forest_add_run]
    rfl

/-- The elements grow as the items do. -/
theorem forest_step (outline : Outline) (line : Nat) (token : Token) :
    outline.forest.step line token = (outline.step line token).map Outline.forest := by
  cases token with
  | start content =>
    rw [Forest.step, Outline.step]
    cases hopen : openTag line content with
    | error problem => rfl
    | ok e =>
      have hpush : Outline.forest ⟨⟨e, []⟩ :: outline.stack, outline.items⟩ =
          ⟨e :: outline.forest.stack, outline.forest.roots⟩ := by
        rw [Outline.forest, List.map_cons, underway_of_openTag hopen]
        rfl
      exact congrArg Except.ok hpush.symm
  | empty content =>
    rw [Forest.step, Outline.step]
    cases hopen : openTag line content with
    | error problem => rfl
    | ok e =>
      have hadd := forest_add_element outline ⟨e, []⟩
      rw [element_of_openTag hopen] at hadd
      exact congrArg Except.ok hadd.symm
  | close name =>
    obtain ⟨stack, items⟩ := outline
    cases stack with
    | nil => rfl
    | cons x outer =>
      have hname : x.underway.name = x.opening.name := rfl
      simp only [Forest.step, Outline.step, Outline.forest, List.map_cons, hname]
      split
      · rw [closed_underway]
        exact congrArg Except.ok (forest_add_element ⟨outer, items⟩ x).symm
      · rfl
  | text raw =>
    simp only [Forest.step, Outline.step]
    cases unescape raw with
    | ok text => exact forest_append outline line text
    | error fault => rfl
  | data content => exact forest_append outline line content
  | aside => rfl
  | broken fault => rfl

theorem forest_grow (outline : Outline) (tokens : List (Nat × Token)) :
    outline.forest.grow tokens = (outline.grow tokens).map Outline.forest := by
  induction tokens generalizing outline with
  | nil => rfl
  | cons token tokens ih =>
    obtain ⟨line, token⟩ := token
    simp only [Forest.grow, Outline.grow, forest_step]
    cases outline.step line token with
    | error problem => rfl
    | ok next => exact ih next

/-- The elements of a text are those among its items, and what is no text of items is none of
elements, with the same fault. -/
theorem readElements_eq_map (text : List Char) :
    readElements text = (readItems text).map elementsIn := by
  have hgrow : Forest.grow {} (numberedTokens text) = _ := forest_grow {} (numberedTokens text)
  rw [readElements, readItems, hgrow]
  cases Outline.grow {} (numberedTokens text) with
  | error problem => rfl
  | ok outline =>
    obtain ⟨stack, items⟩ := outline
    cases stack with
    | nil => exact congrArg Except.ok (List.reverse_reverse _)
    | cons x outer => rfl

end PlanArchive.Markup
