import PlanArchive.Keyed
import PlanArchive.Text.Letter

/-!
# Elements

An element has a name, attributes in order, text or none, child elements in order, and the line its
start tag stands on (zero for an element that was not read from a text).
-/

namespace PlanArchive.Markup

structure Element where
  name : String
  attributes : List (String × String) := []
  text : Option String := none
  children : List Element := []
  line : Nat := 0

/-- Letters, underscore and colon start a name; numerals, full stop and hyphen go on with it. -/
def isName (name : String) : Bool :=
  match name.toList with
  | [] => false
  | c :: rest =>
    (Text.isLetter c || c == '_' || c == ':') &&
      rest.all fun c =>
        Text.isLetter c || Text.isNumeral c || c == '_' || c == ':' || c == '.' || c == '-'

namespace Element

def attribute? (e : Element) (key : String) : Option String := Keyed.find? key e.attributes

def setAttribute (e : Element) (key value : String) : Element :=
  { e with attributes := Keyed.put key value e.attributes }

def content (e : Element) : String := e.text.getD ""

end Element

end PlanArchive.Markup
