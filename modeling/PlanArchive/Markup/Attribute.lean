import PlanArchive.Markup.Reference

/-!
# Attributes of a tag

The content of a start tag is a name and a list of attributes. Attributes are read from left to
right, and reading stops at the first one that is not well formed. Positions count the octets of
the content.
-/

namespace PlanArchive.Markup

def isSpace (c : Char) : Bool := c == ' ' || c == '\t' || c == '\r' || c == '\n'

inductive AttributeFault
  | noEquals (pos : Nat)
  | noValue (pos : Nat)
  | unquoted (pos : Nat)
  | openQuote (pos : Nat) (quote : Char)
  | duplicate (pos previous : Nat)
  deriving DecidableEq

def AttributeFault.message : AttributeFault → String
  | .noEquals pos => s!"position {pos}: attribute key must be directly followed by `=` or space"
  | .noValue pos => s!"position {pos}: `=` must be followed by an attribute value"
  | .unquoted pos => s!"position {pos}: attribute value must be enclosed in `\"` or `'`"
  | .openQuote pos quote => s!"position {pos}: missing closing quote `{quote}` in attribute value"
  | .duplicate pos previous =>
    s!"position {pos}: duplicated attribute, previous declaration at position {previous}"

/-- A key with its value as written, or the fault that ends the reading. -/
inductive RawAttribute
  | pair (key value : List Char)
  | broken (fault : AttributeFault)

/-- Where the reading stands. Keys and values under way hold their latest character first; `start`
is the position of the key. -/
inductive AttributeState
  | between
  | key (start : Nat) (key : List Char)
  | afterKey (start : Nat) (key : List Char)
  | afterEquals (start : Nat) (key : List Char)
  | value (start : Nat) (key : List Char) (quote : Char) (value : List Char)

/-- `seen` holds the keys so far with their positions. -/
def readAttributes (seen : List (List Char × Nat)) :
    Nat → AttributeState → List Char → List RawAttribute
  | _, .between, [] => []
  | pos, .key .., [] => [.broken (.noEquals pos)]
  | pos, .afterKey .., [] => [.broken (.noEquals pos)]
  | pos, .afterEquals .., [] => [.broken (.noValue pos)]
  | pos, .value _ _ quote _, [] => [.broken (.openQuote pos quote)]
  | pos, .between, c :: rest =>
    if isSpace c then readAttributes seen (pos + c.utf8Size) .between rest
    else readAttributes seen (pos + c.utf8Size) (.key pos [c]) rest
  | pos, .key start key, c :: rest =>
    if c = '=' then
      match seen.lookup key with
      | some previous => [.broken (.duplicate start previous)]
      | none => readAttributes seen (pos + c.utf8Size) (.afterEquals start key) rest
    else if isSpace c then readAttributes seen (pos + c.utf8Size) (.afterKey start key) rest
    else readAttributes seen (pos + c.utf8Size) (.key start (c :: key)) rest
  | pos, .afterKey start key, c :: rest =>
    if isSpace c then readAttributes seen (pos + c.utf8Size) (.afterKey start key) rest
    else if c = '=' then
      match seen.lookup key with
      | some previous => [.broken (.duplicate start previous)]
      | none => readAttributes seen (pos + c.utf8Size) (.afterEquals start key) rest
    else [.broken (.noEquals pos)]
  | pos, .afterEquals start key, c :: rest =>
    if isSpace c then readAttributes seen (pos + c.utf8Size) (.afterEquals start key) rest
    else if c = '\x22' ∨ c = '\x27' then
      readAttributes seen (pos + c.utf8Size) (.value start key c []) rest
    else [.broken (.unquoted pos)]
  | pos, .value start key quote value, c :: rest =>
    if c = quote then
      .pair key.reverse value.reverse ::
        readAttributes ((key, start) :: seen) (pos + c.utf8Size) .between rest
    else readAttributes seen (pos + c.utf8Size) (.value start key quote (c :: value)) rest

/-- The name in front of the first white space, and the attributes after it. -/
def splitTag (content : List Char) : List Char × List RawAttribute :=
  let name := content.takeWhile (!isSpace ·)
  (name, readAttributes [] (octets name) .between (content.dropWhile (!isSpace ·)))

end PlanArchive.Markup
