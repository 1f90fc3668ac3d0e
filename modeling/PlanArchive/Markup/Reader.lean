import PlanArchive.Markup.Element
import PlanArchive.Markup.Token
import PlanArchive.Text.Blank

/-!
# Reading elements

Tokens are put together to elements with a stack of the elements that are open, the innermost
first. Character data of an element are joined over its children; an element with children keeps
no text that is blank.
-/

namespace PlanArchive.Markup

inductive Fault
  | token (fault : TokenFault)
  | wrongEnd (expected found : String)
  | unmatchedEnd (found : String)
  | badAttribute (element : String) (fault : AttributeFault)
  | badValue (element key : String) (fault : ReferenceFault)
  | text (fault : ReferenceFault)
  | strayText
  | unclosed (element : String)
  deriving DecidableEq

def Fault.message : Fault → String
  | .token fault => "XML parse error: " ++ fault.message
  | .wrongEnd expected found =>
    s!"XML parse error: ill-formed document: expected `</{expected}>`, but `</{found}>` was found"
  | .unmatchedEnd found =>
    s!"XML parse error: ill-formed document: close tag `</{found}>` does not match any open tag"
  | .badAttribute element fault => s!"Bad attribute on <{element}>: " ++ fault.message
  | .badValue element key fault =>
    s!"Bad attribute value for '{key}' on <{element}>: " ++ fault.message
  | .text fault => "Bad text content: " ++ fault.message
  | .strayText => "Text outside of any element"
  | .unclosed element => s!"Unclosed element <{element}>"

/-- A fault and its line. -/
structure Problem where
  fault : Fault
  line : Nat
  deriving DecidableEq

/-- The octets at which line feeds stand, counted from `pos`. -/
def lineFeeds (pos : Nat) : List Char → List Nat
  | [] => []
  | c :: rest =>
    if c = '\n' then pos :: lineFeeds (pos + c.utf8Size) rest
    else lineFeeds (pos + c.utf8Size) rest

/-- The line of an octet, counted from one. -/
def lineAt (feeds : List Nat) (pos : Nat) : Nat := 1 + feeds.countP (· < pos)

/-- The tokens of a text, each with the line on which it starts. The line feeds are counted with a
byte order mark and the tokens without, so after one the lines lag three octets behind. -/
def numberedTokens (text : List Char) : List (Nat × Token) :=
  let feeds := lineFeeds 0 text
  (scan text).map fun (pos, token) => (lineAt feeds pos, token)

def readPairs (element : String) : List RawAttribute → Except Fault (List (String × String))
  | [] => .ok []
  | .broken fault :: _ => .error (.badAttribute element fault)
  | .pair key raw :: rest =>
    match unescape raw with
    | .error fault => .error (.badValue element (String.ofList key) fault)
    | .ok value => do
      return (String.ofList key, String.ofList value) :: (← readPairs element rest)

/-- The element that a start tag opens. -/
def openTag (line : Nat) (content : List Char) : Except Problem Element :=
  let (name, raw) := splitTag content
  let name := String.ofList name
  match readPairs name raw with
  | .ok attributes => .ok { name, attributes, line }
  | .error fault => .error ⟨fault, line⟩

/-- Children under way are held latest first. -/
def closed (e : Element) : Element :=
  { e with
    children := e.children.reverse
    text := if !e.children.isEmpty && Text.allBlank e.content.toList then none else e.text }

def addText (text : String) (e : Element) : Element := { e with text := some (e.content ++ text) }

def addChild (child : Element) (e : Element) : Element :=
  { e with children := child :: e.children }

/-- What is under way: open elements, innermost first, and finished roots, latest first. -/
structure Forest where
  stack : List Element := []
  roots : List Element := []

def Forest.attach (e : Element) (forest : Forest) : Forest :=
  match forest.stack with
  | parent :: outer => { forest with stack := addChild e parent :: outer }
  | [] => { forest with roots := e :: forest.roots }

def Forest.append (line : Nat) (text : List Char) (forest : Forest) : Except Problem Forest :=
  match forest.stack with
  | e :: outer => .ok { forest with stack := addText (String.ofList text) e :: outer }
  | [] => if Text.allBlank text then .ok forest else .error ⟨.strayText, line⟩

def Forest.step (forest : Forest) (line : Nat) : Token → Except Problem Forest
  | .start content => do
    let e ← openTag line content
    return { forest with stack := e :: forest.stack }
  | .empty content => do
    let e ← openTag line content
    return forest.attach e
  | .close name =>
    match forest.stack with
    | [] => .error ⟨.unmatchedEnd (String.ofList name), line⟩
    | e :: outer =>
      if e.name.toList = name then
        .ok (Forest.attach (closed e) { forest with stack := outer })
      else .error ⟨.wrongEnd e.name (String.ofList name), line⟩
  | .text raw =>
    match unescape raw with
    | .ok text => forest.append line text
    | .error fault => .error ⟨.text fault, line⟩
  | .data content => forest.append line content
  | .aside => .ok forest
  | .broken fault => .error ⟨.token fault, line⟩

def Forest.grow (forest : Forest) : List (Nat × Token) → Except Problem Forest
  | [] => .ok forest
  | (line, token) :: rest => do (← forest.step line token).grow rest

def Forest.finish (forest : Forest) : Except Problem (List Element) :=
  match forest.stack with
  | [] => .ok forest.roots.reverse
  | e :: _ => .error ⟨.unclosed e.name, e.line⟩

/-- The elements at the top of a text. -/
def readElements (text : List Char) : Except Problem (List Element) := do
  (← Forest.grow {} (numberedTokens text)).finish

end PlanArchive.Markup
