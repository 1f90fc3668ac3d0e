import PlanArchive.Archive.Basic
import PlanArchive.Archive.Stream
import PlanArchive.Files.Disk
import PlanArchive.Markup.Printer

/-!
# Documents

A document is a header and one element. Test plan documents hold an envelope, element documents any
value.
-/

namespace PlanArchive

open Coding Markup

def Charset.header (charset : Charset) : String :=
  "<?xml version=\"1.0\" encoding=\"" ++ charset.name ++ "\"?>"

def Charset.encode (charset : Charset) (text : List Char) : Except Failure Bytes :=
  match charset.encode? text with
  | some bytes => .ok bytes
  | none => .error (.charset (.readOnly charset.name))

def Charset.decode (charset : Charset) (bytes : Bytes) : Except Failure (List Char) :=
  match charset.decode? bytes with
  | some text => .ok text
  | none => .error (.charset (.notValid charset.name))

namespace Archive

/-- The elements of a file. -/
def elementsOf (charset : Charset) (source : Source) : Except Failure (List Element) := do
  let text ← charset.decode (← source.read)
  (readElements text).mapError .ofProblem

/-- The complete document of a value. -/
def elementDocument (archive : Archive) (value : Value) : Except Failure Bytes := do
  let charset ← archive.charset
  if !charset.isWritable then throw (.charset (.readOnly charset.name))
  let e ← ((archive.encoder none).encode value).mapError .unwritable
  charset.encode (charset.header.toList ++ '\n' :: e.render ++ ['\n'])

def planDocument (archive : Archive) (plan : Plan) : Except Failure Bytes :=
  archive.elementDocument
    (Envelope.around archive.schema.declared archive.settings.applicationVersion plan).toValue

/-- The root of a document, and its value. -/
def loadRoot (archive : Archive) (source : Source) : Except Failure (Element × Value) := do
  let charset ← archive.charset
  match ← elementsOf charset source with
  | [root] => return (root, ← ((archive.decoder .document).decodeRoot root).1)
  | [] => throw (.malformed .noRoot {})
  | _ :: second :: _ => throw (.malformed .manyRoots { line := some second.line })

def loadElement (archive : Archive) (source : Source) : Except Failure Value := do
  return (← archive.loadRoot source).2

def loadPlan (archive : Archive) (source : Source) : Except Failure Plan := do
  let (root, value) ← archive.loadRoot source
  match Envelope.ofValue? value with
  | some envelope => return envelope.plan
  | none => throw (.malformed (.notEnvelope root.name) (placeOf [root.name] root.line))

/-- Opens and reads a plan from a file, which the failures name. -/
def loadPlanFile (archive : Archive) (path : String) (content : Except Files.ReadFault Bytes) :
    Except Failure Plan := do
  let _ ← archive.charset
  match content with
  | .error (.opening reason) => throw (.stream s!"Failed to open '{path}': {reason}")
  | .error (.reading reason) => throw (.stream s!"Failed to read XML: {reason}")
  | .ok bytes => (archive.loadPlan ⟨bytes, none⟩).mapError (·.inFile path)

end Archive

end PlanArchive
