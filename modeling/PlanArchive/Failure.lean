import PlanArchive.Markup.Reader
import PlanArchive.Text.Quoted

/-!
# Failures

Everything that can go wrong, by cause, and the message of each. A failure to read a document says
where in the document it arose.
-/

namespace PlanArchive

/-- A place in a document: its file, a line, and the path of tags from the root. -/
structure Place where
  file : Option String := none
  line : Option Nat := none
  path : Option String := none
  deriving DecidableEq

def Place.message (place : Place) : String :=
  place.file.elim "" (fun file => s!" in '{file}'") ++
    place.line.elim "" (fun line => s!" at line {line}") ++
    place.path.elim "" (fun path => s!" (path {path})")

inductive CoderFault
  | unknown
  | wantsTags
  | takesNoTags
  | other (text : String)
  deriving DecidableEq

def CoderFault.message : CoderFault → String
  | .unknown => "unknown converter"
  | .wantsTags =>
    "converter requires mapper access but is not registered as collection or mapping"
  | .takesNoTags => "converter has no mapper-taking constructor"
  | .other text => text

inductive CharsetFault
  | unsupported (label : String)
  | readOnly (charset : String)
  | notValid (charset : String)
  | other (text : String)
  deriving DecidableEq

def CharsetFault.message : CharsetFault → String
  | .unsupported label => s!"Unsupported charset '{label}'"
  | .readOnly charset => s!"Charset {charset} cannot be used for output"
  | .notValid charset => s!"Input is not valid {charset}"
  | .other text => text

inductive WriteFault
  | noTag (typeId tag : String)
  | noWrapperTag (tag : String)
  | badFieldName (name : String)
  | reservedFieldName (name typeId : String)
  | badAttribute (name element : String)
  | planAsElement
  | notText (typeId : Option String)
  | notPlan (typeId : Option String)
  | notObject (typeId : Option String)
  | notEnvelope
  | notWrapper
  | notSample
  | envelopeEntries
  | inRecord (fault : WriteFault) (record : String)
  | other (text : String)

def WriteFault.message : WriteFault → String
  | .noTag typeId tag => s!"Type '{typeId}' has no usable tag (got '{tag}')"
  | .noWrapperTag tag => s!"Result wrapper has no usable tag (got '{tag}')"
  | .badFieldName name => s!"Field name '{name}' cannot be used as an element name"
  | .reservedFieldName name typeId => s!"Field name '{name}' of {typeId} is reserved"
  | .badAttribute name element => s!"'{name}' cannot be written as an attribute of <{element}>"
  | .planAsElement => "A plan tree cannot be used as a tree element"
  | .notText typeId => "Text converter cannot write " ++ Text.quotedOption typeId
  | .notPlan typeId => "Tree converter cannot write " ++ Text.quotedOption typeId
  | .notObject typeId => "Object converter cannot write " ++ Text.quotedOption typeId
  | .notEnvelope => "Envelope converter expects an envelope object"
  | .notWrapper => "Result wrapper converter expects a wrapper object"
  | .notSample => "Sample result converter expects a record object"
  | .envelopeEntries => "Envelope must wrap exactly one tree"
  | .inRecord fault record => fault.message ++ " while saving record " ++ record
  | .other text => text

inductive Malformation
  | markup (fault : Markup.Fault)
  | noRoot
  | manyRoots
  | notEnvelope (root : String)
  | referenceInLog
  | unknownReference (id : String)
  | untyped (element : String)
  | noCoder (typeId : String)
  | textWithChildren (element : String)
  | leadingSubtree (element : String)
  | unexpectedInEnvelope (element : String) (typeId : Option String)
  | noPlan (envelope tag : String)
  | textInObject (element : String)
  | other (text : String)

def Malformation.message : Malformation → String
  | .markup fault => fault.message
  | .noRoot => "Document has no root element"
  | .manyRoots => "Document has more than one root element"
  | .notEnvelope root => s!"Root element <{root}> is not a test plan"
  | .referenceInLog => "Object references are not allowed in record logs"
  | .unknownReference id => s!"Reference to unknown id '{id}'"
  | .untyped element => s!"Element <{element}> has nested content but no type"
  | .noCoder typeId => s!"No converter available for type '{typeId}'"
  | .textWithChildren element => s!"Text element <{element}> has child elements"
  | .leadingSubtree element => s!"<{element}> without a preceding element"
  | .unexpectedInEnvelope element typeId =>
    s!"Unexpected <{element}> in envelope (" ++ Text.quotedOption typeId ++ ")"
  | .noPlan envelope tag => s!"Envelope <{envelope}> has no <{tag}>"
  | .textInObject element => s!"Unexpected text in <{element}>"
  | .other text => text

inductive Failure
  /-- The definitions cannot be read. -/
  | startup (reason : String)
  /-- A coder asked for cannot be had. -/
  | coder (name : String) (fault : CoderFault)
  /-- A tag stands for no known type. -/
  | unknownType (name : String) (place : Place)
  | malformed (what : Malformation) (place : Place)
  | charset (fault : CharsetFault)
  /-- A value cannot be written. -/
  | unwritable (fault : WriteFault)
  /-- A stream gave up. -/
  | stream (reason : String)

namespace Failure

def message : Failure → String
  | .startup reason => "Initialization failed: " ++ reason
  | .coder name fault => s!"Can't register converter '{name}': " ++ fault.message
  | .unknownType name place => s!"Cannot determine type for element '{name}'" ++ place.message
  | .malformed what place => "Malformed document: " ++ what.message ++ place.message
  | .charset fault => "Encoding error: " ++ fault.message
  | .unwritable fault => "Serialization error: " ++ fault.message
  | .stream reason => "I/O error: " ++ reason

/-- Names the file of a failure that has a place. -/
def inFile (file : String) : Failure → Failure
  | .unknownType name place => .unknownType name { place with file := some file }
  | .malformed what place => .malformed what { place with file := some file }
  | failure => failure

def place? : Failure → Option Place
  | .unknownType _ place => some place
  | .malformed _ place => some place
  | _ => none

def ofProblem (problem : Markup.Problem) : Failure :=
  .malformed (.markup problem.fault) { line := some problem.line }

end Failure

end PlanArchive
