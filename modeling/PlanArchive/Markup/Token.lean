import PlanArchive.Markup.Attribute

/-!
# Markup tokens

A text is cut into runs of character data, tags, CDATA sections and asides (comments, processing
instructions, declarations, document types). `scan` reads one character at a time. Each token comes
with the octet at which it starts.
-/

namespace PlanArchive.Markup

inductive TokenFault
  | openComment | openData | openDoctype | openInstruction | openTag
  | namelessDoctype
  | unknownMarkup
  deriving DecidableEq

def TokenFault.message : TokenFault → String
  | .openComment =>
    "syntax error: comment not closed: `-->` not found before end of input"
  | .openData => "syntax error: CDATA not closed: `]]>` not found before end of input"
  | .openDoctype => "syntax error: DOCTYPE not closed: `>` not found before end of input"
  | .openInstruction =>
    "syntax error: processing instruction or xml declaration not closed: " ++
      "`?>` not found before end of input"
  | .openTag => "syntax error: tag not closed: `>` not found before end of input"
  | .namelessDoctype => "ill-formed document: `<!DOCTYPE>` declaration does not contain a name " ++
    "of a document type"
  | .unknownMarkup => "syntax error: unknown or missed symbol in markup"

inductive Token
  | text (raw : List Char)
  | start (content : List Char)
  | empty (content : List Char)
  | close (name : List Char)
  | data (content : List Char)
  | aside
  /-- Comes last. -/
  | broken (fault : TokenFault)
  deriving DecidableEq

/-- What is under way. Characters so far are held latest first; in a comment, a section, a document
type and an instruction they start with the mark behind the `<`. -/
inductive ScanState
  | text (soFar : List Char)
  | opened
  | tag (soFar : List Char) (quote : Option Char)
  | close (soFar : List Char) (quote : Option Char)
  | bang
  | comment (soFar : List Char)
  | data (soFar : List Char)
  | doctype (soFar : List Char) (depth : Nat)
  | instruction (soFar : List Char)

/-- The token that the end of the text makes of what is under way. -/
def ScanState.atEnd : ScanState → Option Token
  | .text [] => none
  | .text soFar => some (.text soFar.reverse)
  | .opened | .tag .. | .close .. => some (.broken .openTag)
  | .bang => some (.broken .unknownMarkup)
  | .comment _ => some (.broken .openComment)
  | .data _ => some (.broken .openData)
  | .doctype .. => some (.broken .openDoctype)
  | .instruction _ => some (.broken .openInstruction)

/-- A quote opens, or closes the quote of its own kind. -/
def toggleQuote (c : Char) : Option Char → Option Char
  | none => if c = '\x22' ∨ c = '\x27' then some c else none
  | some quote => if c = quote then none else some quote

/-- A finished start tag; a slash at its end makes the element empty. -/
def tagToken : List Char → Token
  | '/' :: content => .empty content.reverse
  | content => .start content.reverse

/-- The name of an end tag, without white space behind it unless it is nothing else. -/
def closeToken (soFar : List Char) : Token :=
  match soFar.dropWhile isSpace with
  | [] => .close soFar.reverse
  | name => .close name.reverse

def commentToken (content : List Char) : Token :=
  if "!--".toList.isPrefixOf content then .aside else .broken .openComment

/-- `soFar` ends in the first two brackets of the closing mark. -/
def dataToken (soFar : List Char) : Token :=
  let content := (soFar.drop 2).reverse
  if "![CDATA[".toList.isPrefixOf content then .data (content.drop 8) else .broken .openData

def doctypeToken (content : List Char) : Token :=
  if (content.take 8).map Char.toUpper = "!DOCTYPE".toList then
    if (content.drop 8).all isSpace then .broken .namelessDoctype else .aside
  else .broken .openDoctype

/-- One character: the next state, and the token that it ends. -/
def ScanState.next (c : Char) : ScanState → ScanState × Option Token
  | .text soFar =>
    if c = '<' then (.opened, if soFar.isEmpty then none else some (.text soFar.reverse))
    else (.text (c :: soFar), none)
  | .opened =>
    if c = '!' then (.bang, none)
    else if c = '?' then (.instruction [c], none)
    else if c = '/' then (.close [] none, none)
    else if c = '>' then (.text [], some (.start []))
    else (.tag [c] (toggleQuote c none), none)
  | .tag soFar quote =>
    if c = '>' ∧ quote = none then (.text [], some (tagToken soFar))
    else (.tag (c :: soFar) (toggleQuote c quote), none)
  | .close soFar quote =>
    if c = '>' ∧ quote = none then (.text [], some (closeToken soFar))
    else (.close (c :: soFar) (toggleQuote c quote), none)
  | .bang =>
    if c = '-' then (.comment [c, '!'], none)
    else if c = '[' then (.data [c, '!'], none)
    else if c = 'D' ∨ c = 'd' then (.doctype [c, '!'] 0, none)
    else (.text [], some (.broken .unknownMarkup))
  | .comment soFar =>
    if c = '>' ∧ 4 < soFar.length ∧ "--".toList.isPrefixOf soFar then
      (.text [], some (commentToken soFar.reverse))
    else (.comment (c :: soFar), none)
  | .data soFar =>
    if c = '>' ∧ "]]".toList.isPrefixOf soFar then (.text [], some (dataToken soFar))
    else (.data (c :: soFar), none)
  | .doctype soFar depth =>
    if c = '<' then (.doctype (c :: soFar) (depth + 1), none)
    else if c = '>' then
      if depth = 0 then (.text [], some (doctypeToken soFar.reverse))
      else (.doctype (c :: soFar) (depth - 1), none)
    else (.doctype (c :: soFar) depth, none)
  | .instruction soFar =>
    if c = '>' ∧ soFar.head? = some '?' then
      (.text [], some (if soFar.length = 1 then .broken .openInstruction else .aside))
    else (.instruction (c :: soFar), none)

/-- `since` is where the token under way started, `pos` the octet of the next character. The `<`
that ends character data starts the next token. -/
def scanFrom (since pos : Nat) (state : ScanState) : List Char → List (Nat × Token)
  | [] => (state.atEnd.map ((since, ·))).toList
  | c :: rest =>
    match state.next c with
    | (_, some (.broken fault)) => [(since, .broken fault)]
    | (state, some token) =>
      (since, token) :: scanFrom (if c = '<' then pos else pos + c.utf8Size) (pos + c.utf8Size)
        state rest
    | (state, none) => scanFrom since (pos + c.utf8Size) state rest

def byteOrderMark : Char := Char.ofNat 0xFEFF

/-- A byte order mark at the start is dropped and not counted. -/
def scan : List Char → List (Nat × Token)
  | c :: rest =>
    if c = byteOrderMark then scanFrom 0 0 (.text []) rest else scanFrom 0 0 (.text []) (c :: rest)
  | [] => []

end PlanArchive.Markup
