import PlanArchive.Markup.Element
import PlanArchive.Markup.Reference

/-!
# Writing elements

Every child stands on a line of its own, two blanks deeper than its parent, except that the first
child follows directly upon text. An element with neither text nor children is written as an empty
tag.
-/

namespace PlanArchive.Markup

def newLine (depth : Nat) : List Char := '\n' :: List.replicate (2 * depth) ' '

def printAttribute (pair : String × String) : List Char :=
  ' ' :: pair.1.toList ++ '=' :: '\x22' :: escape pair.2.toList ++ ['\x22']

/-- The name and the attributes of a tag. -/
def printHead (name : String) (attributes : List (String × String)) : List Char :=
  name.toList ++ attributes.flatMap printAttribute

mutual

def Element.print (depth : Nat) : Element → List Char
  | ⟨name, attributes, text, children, _⟩ =>
    let head := printHead name attributes
    match text, children with
    | none, [] => '<' :: head ++ ['/', '>']
    | some text, [] =>
      '<' :: head ++ '>' :: escape text.toList ++ '<' :: '/' :: name.toList ++ ['>']
    | text, child :: children =>
      '<' :: head ++ '>' :: escape (text.getD "").toList ++
        (if text.isNone then newLine (depth + 1) else []) ++ child.print (depth + 1) ++
        printChildren (depth + 1) children ++ newLine depth ++ '<' :: '/' :: name.toList ++ ['>']

def printChildren (depth : Nat) : List Element → List Char
  | [] => []
  | child :: rest => newLine depth ++ child.print depth ++ printChildren depth rest

end

/-- The text of an element that starts a line. -/
def Element.render (e : Element) : List Char := e.print 0

end PlanArchive.Markup
