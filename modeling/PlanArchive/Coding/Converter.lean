import PlanArchive.Coding.Decode
import PlanArchive.Coding.Encode
import PlanArchive.Coding.Script

/-!
# Converters

A coder is one of a few; a converter may be anyone's. It says which types it claims, how it writes
their values and how it reads them back. For what stands inside it asks the archive, so that writing
and reading are scripts. The coders are converters too (`Coder.converter`).
-/

namespace PlanArchive.Coding

open Markup Naming

/-! ## Writing -/

inductive WriteRequest
  /-- The element of a value, named after its type. -/
  | value (value : Value)
  /-- The element of a field. -/
  | field (name : String) (value : Value)
  /-- The content of a value, in an element that is there already. -/
  | content (value : Value) (e : Element)

abbrev WriteRequest.Reply : WriteRequest → Type
  | .value _ | .field .. => Except Failure Element
  | .content .. => Except Failure Unit × Element

abbrev WriteScript := Script WriteRequest WriteRequest.Reply

/-- Fills an element, which stays as far as it got where that fails. -/
abbrev Filling := ExceptT Failure (StateT Element WriteScript)

structure WriteContext where
  resolver : Resolver
  mode : Mode
  event : Option Event := none

/-- Names and attributes are the same whatever the coders. -/
def WriteContext.encoder (context : WriteContext) : Encoder :=
  ⟨context.resolver, .basic, context.event⟩

namespace Filling

def value (v : Value) : Filling Element :=
  ExceptT.mk (StateT.lift (Script.request (WriteRequest.value v)))

def field (name : String) (v : Value) : Filling Element :=
  ExceptT.mk (StateT.lift (Script.request (WriteRequest.field name v)))

def refuse {α : Type} (fault : WriteFault) : Filling α := throw (.unwritable fault)

def push (child : Element) : Filling Unit :=
  modify fun e => { e with children := e.children ++ [child] }

/-- Fills another element, and returns it. -/
def inside (e : Element) (filling : Filling Unit) : Filling Element :=
  ExceptT.mk fun outer => do
    let (result, e) ← filling.run.run e
    return (result.map fun _ => e, outer)

/-- Goes on with another element, if there is one. -/
def replaceBy : Except WriteFault Element → Filling Unit
  | .ok e => set e
  | .error fault => refuse fault

def setChecked (key value : String) : Filling Unit := do
  replaceBy (Encoder.setChecked key value (← get))

def setAll (pairs : List (String × String)) : Filling Unit :=
  pairs.forM fun (key, value) => setChecked key value

def event : Option Event → Filling Unit
  | none => return
  | some event => do
    modify (Encoder.setUnlessEmpty hostKey event.hostname)
    modify (Encoder.setUnlessEmpty threadGroupKey event.threadGroup)
    setAll event.sampleVariables

def addValue (v : Value) : Filling Unit := do push (← value v)

def addField (name : String) (v : Value) : Filling Unit := do push (← field name v)

def addInside (e : Element) (filling : Filling Unit) : Filling Unit := do push (← inside e filling)

def entries (values : List Value) : Filling Unit := values.forM addValue

/-- The fields of an object. -/
def fields (typeId : String) : List (String × Value) → Filling Unit
  | [] => return
  | (name, v) :: rest =>
    if name = entriesTag then refuse (.reservedFieldName name typeId)
    else do
      addField name v
      fields typeId rest

/-- The fields of a sample that hold no text. -/
def structured (fields : List (String × Value)) : Filling Unit :=
  (fields.filter fun (_, v) => v.text?.isNone).forM fun (name, v) => addField name v

/-- The child that holds the entries of an object, if there are any. -/
def collection (values : List Value) : Filling Unit :=
  if values.isEmpty then return else addInside { name := entriesTag } (entries values)

/-- Each element of a plan, followed by the plan below it. -/
def branches (tag : String) : List Branch → Filling Unit
  | [] => return
  | .mk element children :: rest =>
    if element.isPlan then refuse .planAsElement
    else do
      addValue element
      addInside { name := tag } (branches tag children)
      branches tag rest

end Filling

/-! ## Reading -/

/-- What names the type of an element: its tag, or its class where it is a field. -/
inductive Role
  | value
  | field

def Role.typeOf : Role → Element → Option String
  | .value, e => some e.name
  | .field, e => e.attribute? classKey

inductive ReadRequest
  | element (role : Role) (e : Element)
  /-- An element as a value of a type, whatever it says of its type. -/
  | typed (binding : Binding) (e : Element)
  | deliver (record : Value)

abbrev ReadRequest.Reply : ReadRequest → Type
  | .element .. | .typed .. => Except Failure Value
  | .deliver _ => List Value

abbrev ReadScript := Script ReadRequest ReadRequest.Reply

abbrev Reading := ExceptT Failure ReadScript

/-- `path` leads to the element that is read, the innermost tag first. -/
structure ReadContext where
  resolver : Resolver
  mode : Mode
  path : List String

/-- What tags stand for is the same whatever the coders. -/
def ReadContext.decoder (context : ReadContext) : Decoder :=
  { resolver := context.resolver, roster := .basic, mode := context.mode }

def ReadContext.place (context : ReadContext) (e : Element) : Place := placeOf context.path e.line

namespace Reading

def value (e : Element) : Reading Value :=
  ExceptT.mk (Script.request (ReadRequest.element .value e))

def field (e : Element) : Reading Value :=
  ExceptT.mk (Script.request (ReadRequest.element .field e))

/-- Hands a record over, and returns it if nobody takes it. -/
def deliver (record : Value) : Reading (List Value) :=
  ExceptT.mk do return .ok (← Script.request (ReadRequest.deliver record))

def refuse {α : Type} (what : Malformation) (place : Place) : Reading α :=
  throw (.malformed what place)

def entries : List Element → Reading (List Value)
  | [] => return []
  | child :: rest => do
    let v ← value child
    return v :: (← entries rest)

/-- Fields and entries of an object; `fields` are the ones so far. -/
def parts (fields : List (String × Value)) :
    List Element → Reading (List (String × Value) × List Value)
  | [] => return (fields, [])
  | child :: rest => do
    if child.name = entriesTag then
      let found ← entries child.children
      let (fields, more) ← parts fields rest
      return (fields, found ++ more)
    else
      let v ← field child
      parts (Keyed.put child.name v fields) rest

/-- Fields and sub-results of a sample. -/
def sample (context : ReadContext) (fields : List (String × Value)) :
    List Element → Reading (List (String × Value) × List Value)
  | [] => return (fields, [])
  | child :: rest => do
    if context.decoder.isSample child.name then
      let entry ← value child
      let (fields, more) ← sample context fields rest
      return (fields, entry :: more)
    else
      let v ← field child
      sample context (Keyed.put child.name v fields) rest

/-- Branches of a plan; `pending` is an element whose subtree may still follow. -/
def plan (context : ReadContext) (pending : Option Value) : List Element → Reading Plan
  | [] => return Decoder.leaf pending
  | child :: rest => do
    if context.decoder.isSubtree child.name then
      match pending with
      | none => refuse (.leadingSubtree child.name) (context.place child)
      | some element =>
        let below ← value child
        return .mk element (Decoder.planOf below) :: (← plan context none rest)
    else
      let element ← value child
      return Decoder.leaf pending ++ (← plan context (some element) rest)

/-- The one plan of an envelope; `found` is the plan so far. -/
def envelope (context : ReadContext) (found : Option Plan) :
    List Element → Reading (Option Plan)
  | [] => return found
  | child :: rest => do
    match ← value child, found with
    | .plan plan, none => envelope context (some plan) rest
    | other, _ => refuse (.unexpectedInEnvelope child.name other.typeId?) (context.place child)

/-- Records of a wrapper: those that stay in it. -/
def records : List Element → Reading (List Value)
  | [] => return []
  | child :: rest => do
    let record ← value child
    let kept ← deliver record
    return kept ++ (← records rest)

end Reading

/-! ## Converters -/

structure Converter where
  name : String
  claims : String → Bool
  write : WriteContext → Value → Filling Unit
  read : ReadContext → String → Element → Reading Value

namespace Coder

def write (context : WriteContext) (v : Value) : Coder → Filling Unit
  | .text =>
    match v with
    | .text s => modify fun e => { e with text := some s }
    | other => Filling.refuse (.notText other.typeId?)
  | .plan =>
    match v with
    | .plan branches =>
      match context.encoder.tagFor treeType with
      | .ok tag => Filling.branches tag branches
      | .error fault => Filling.refuse fault
    | other => Filling.refuse (.notPlan other.typeId?)
  | .envelope =>
    match v with
    | .object _ fields entries => do
      modify (Encoder.envelopeHead fields)
      if Encoder.isSinglePlan entries then Filling.entries entries
      else Filling.refuse .envelopeEntries
    | _ => Filling.refuse .notEnvelope
  | .wrapper =>
    match v with
    | .object _ fields entries => do
      modify (Encoder.wrapperHead fields)
      Filling.entries entries
    | _ => Filling.refuse .notWrapper
  | .sample =>
    match v with
    | .object _ fields entries => do
      Filling.setAll (Encoder.textFields fields)
      Filling.event context.event
      Filling.structured fields
      Filling.entries entries
    | _ => Filling.refuse .notSample
  | .object =>
    match v with
    | .object typeId fields entries => do
      Filling.fields typeId fields
      Filling.collection entries
    | other => Filling.refuse (.notObject other.typeId?)

def read (context : ReadContext) (typeId : String) (e : Element) : Coder → Reading Value
  | .text =>
    if e.children.isEmpty then return .text e.content
    else Reading.refuse (.textWithChildren e.name) (context.place e)
  | .plan => do return .plan (← Reading.plan context none e.children)
  | .envelope => do
    match ← Reading.envelope context none e.children with
    | some found => return .object envelopeType (Decoder.envelopeFields e.attributes) [.plan found]
    | none => Reading.refuse (.noPlan e.name (context.resolver.tagFor treeType)) (context.place e)
  | .wrapper => do
    return .object typeId (Decoder.wrapperFields e.attributes) (← Reading.records e.children)
  | .sample => do
    let (fields, entries) ←
      Reading.sample context (Decoder.sampleFields e.attributes) e.children
    return .object typeId fields entries
  | .object =>
    if e.children.isEmpty && !Text.allBlank e.content.toList then
      Reading.refuse (.textInObject e.name) (context.place e)
    else do
      let (fields, entries) ← Reading.parts [] e.children
      return .object typeId fields entries

def converter (coder : Coder) : Converter where
  name := coder.name
  claims typeId := coder.claims typeId
  write context v := coder.write context v
  read context typeId e := coder.read context typeId e

end Coder

end PlanArchive.Coding
