import PlanArchive.Archive.Log

/-!
# Saving to a sink

Each mode has a buffer, which its savings clear and render into one after another. What was rendered
is read back as text, encoded, and written to the sink, which is then flushed. Whatever else can
fail does so before the sink is touched.
-/

namespace PlanArchive

open Coding Markup Text

/-- The complete document of an element, if there is one. -/
def Charset.document (charset : Charset) (element : Except Failure Element) :
    Except Failure Bytes := do
  if !charset.isWritable then throw (.charset (.readOnly charset.name))
  let e ← element
  charset.encode (charset.header.toList ++ '\n' :: e.render ++ ['\n'])

/-- The complete text of a record, if it has an element. -/
def Charset.record (charset : Charset) (element : Except Failure Element) :
    Except Failure Bytes := do
  let e ← element
  charset.encode (e.render ++ ['\n'])

/-- The buffers, as the last saving left them, and the sink. -/
structure Desk where
  buffer : Mode → Bytes := fun _ => []
  sink : Sink := {}

namespace Desk

abbrev Work := ExceptT Failure (StateM Desk)

/-- How work ends, and what it leaves. -/
def perform {α : Type} (desk : Desk) (work : Work α) : Except Failure α × Desk :=
  work.run.run desk

def clear (mode : Mode) : Work Unit :=
  modify fun desk => { desk with buffer := fun m => if m = mode then [] else desk.buffer m }

def append (mode : Mode) (bytes : Bytes) : Work Unit :=
  modify fun desk =>
    { desk with buffer := fun m => if m = mode then desk.buffer m ++ bytes else desk.buffer m }

def check : Except StreamFault Unit → Work Unit
  | .ok () => return
  | .error fault => throw (.ofStream "Failed to write XML" fault)

/-- Writes all octets and flushes. -/
def put (bytes : Bytes) : Work Unit := do
  let desk ← get
  let (sink, outcome) := desk.sink.writeAll bytes
  set { desk with sink }
  check (outcome.bind fun _ => sink.flush)

/-- Writes what was rendered in the charset. -/
def writeEncoded (charset : Charset) (rendered : Bytes) : Work Unit := do
  match Utf8.decode? rendered with
  | some text => put (← charset.encode text)
  | none => throw (.unwritable (.other "Rendered XML is not UTF-8"))

/-- What the buffer of a mode holds, once it is cleared and all parts are appended. -/
def render (mode : Mode) (parts : List Bytes) : Work Bytes := do
  clear mode
  parts.forM (append mode)
  return (← get).buffer mode

/-- A header and the element of a value, if there is one. -/
def saveDocument (charset : Charset) (element : Except Failure Element) : Work Unit := do
  if !charset.isWritable then throw (.charset (.readOnly charset.name))
  let e ← element
  let rendered ← render .document
    [utf8 charset.header, utf8 "\n", Utf8.encode e.render, utf8 "\n"]
  writeEncoded charset rendered

/-- The element of a record, if there is one. -/
def saveRecord (charset : Charset) (element : Except Failure Element) : Work Unit := do
  let e ← element
  let rendered ← render .log [Utf8.encode e.render, utf8 "\n"]
  writeEncoded charset rendered

end Desk

namespace Archive

/-- What can be saved. -/
inductive Saving
  | plan (plan : Plan)
  | element (value : Value)
  | record (value : Value) (event : Option Event)
  | logStart
  | logEnd

def saveElement (archive : Archive) (value : Value) : Desk.Work Unit := do
  let charset ← archive.charset
  Desk.saveDocument charset (((archive.encoder none).encode value).mapError .unwritable)

def savePlan (archive : Archive) (plan : Plan) : Desk.Work Unit :=
  archive.saveElement
    (Envelope.around archive.schema.declared archive.settings.applicationVersion plan).toValue

def saveRecord (archive : Archive) (value : Value) (event : Option Event) : Desk.Work Unit := do
  let charset ← archive.charset
  Desk.saveRecord charset (((archive.encoder event).encode value).mapError fun fault =>
    .unwritable (.inRecord fault value.description))

def startLog (archive : Archive) : Desk.Work Unit := do
  let charset ← archive.charset
  let tag ← archive.wrapperTag
  Desk.writeEncoded charset
    (utf8 s!"{charset.header}\n<{tag} version=\"{formatVersion}\">\n")

def endLog (archive : Archive) : Desk.Work Unit := do
  let charset ← archive.charset
  let tag ← archive.wrapperTag
  Desk.writeEncoded charset (utf8 s!"</{tag}>\n")

def save (archive : Archive) : Saving → Desk.Work Unit
  | .plan plan => archive.savePlan plan
  | .element value => archive.saveElement value
  | .record value event => archive.saveRecord value event
  | .logStart => archive.startLog
  | .logEnd => archive.endLog

/-- Saves one thing after another, also after a failure, and notes how each saving ended. -/
def saveEach (archive : Archive) : List Saving → StateM Desk (List (Except Failure Unit))
  | [] => return []
  | saving :: rest => do
    let outcome ← modifyGet (Desk.perform · (archive.save saving))
    return outcome :: (← saveEach archive rest)

/-- The complete output, which neither a sink nor a buffer has a part in. -/
def output (archive : Archive) : Saving → Except Failure Bytes
  | .plan plan => archive.planDocument plan
  | .element value => archive.elementDocument value
  | .record value event => archive.record value event
  | .logStart => archive.logStart
  | .logEnd => archive.logEnd

end Archive

end PlanArchive
