import PlanArchive.Coding.Coder
import PlanArchive.Coding.Layout
import PlanArchive.Naming.Resolver

/-!
# Values to elements

A value becomes an element named after its type, or after the field that it stands in. The coder of
the type fills the element.
-/

namespace PlanArchive.Coding

open Markup Naming

/-- What is known about how a record came about, and is saved along with it. -/
structure Event where
  hostname : String := ""
  threadGroup : String := ""
  sampleVariables : List (String × String) := []

structure Encoder where
  resolver : Resolver
  roster : Roster
  event : Option Event := none

namespace Encoder

def tagFor (encoder : Encoder) (typeId : String) : Except WriteFault String :=
  let tag := encoder.resolver.tagFor typeId
  if isName tag then .ok tag else .error (.noTag typeId tag)

/-- The element of a value that stands on its own, still empty. -/
def startValue (encoder : Encoder) (value : Value) : Except WriteFault Element :=
  match value.typeId? with
  | none => .ok { name := nullTag }
  | some typeId => do return { name := ← encoder.tagFor typeId }

/-- The element of a field, still empty. A text needs no type; null has a class of its own. -/
def startField (encoder : Encoder) (name : String) (value : Value) :
    Except WriteFault Element :=
  if !isName name then .error (.badFieldName name)
  else match value with
    | .null => .ok { name, attributes := [(classKey, nullTag)] }
    | .text _ => .ok { name }
    | .object typeId _ _ => do
      return { name, attributes := [(classKey, ← encoder.tagFor typeId)] }
    | .plan _ => do return { name, attributes := [(classKey, ← encoder.tagFor treeType)] }

def setChecked (key value : String) (e : Element) : Except WriteFault Element :=
  if !isName key || isReserved key then .error (.badAttribute key e.name)
  else .ok (e.setAttribute key value)

def setAll : List (String × String) → Element → Except WriteFault Element
  | [], e => .ok e
  | (key, value) :: rest, e => do setAll rest (← setChecked key value e)

def textFields (fields : List (String × Value)) : List (String × String) :=
  fields.filterMap fun (name, value) => value.text?.map ((name, ·))

def setUnlessEmpty (key value : String) (e : Element) : Element :=
  if value.isEmpty then e else e.setAttribute key value

def setEvent (e : Element) : Option Event → Except WriteFault Element
  | none => .ok e
  | some event =>
    setAll event.sampleVariables
      (setUnlessEmpty threadGroupKey event.threadGroup (setUnlessEmpty hostKey event.hostname e))

/-- The attributes of a sample: its texts, then its event. -/
def sampleHead (encoder : Encoder) (fields : List (String × Value)) (e : Element) :
    Except WriteFault Element := do
  setEvent (← setAll (textFields fields) e) encoder.event

def envelopeHead (fields : List (String × Value)) (e : Element) : Element :=
  [versionKey, propertiesKey, applicationKey].foldl
    (fun e key => (Value.fieldText? fields key).elim e (e.setAttribute key)) e

def wrapperHead (fields : List (String × Value)) (e : Element) : Element :=
  e.setAttribute versionKey ((Value.fieldText? fields versionKey).getD formatVersion)

def isSinglePlan : List Value → Bool
  | [.plan _] => true
  | _ => false

/-- The child that holds the entries of an object, if there are any. -/
def collection (entries : List Element) : List Element :=
  if entries.isEmpty then [] else [{ name := entriesTag, children := entries }]

def withChildren (e : Element) (children : List Element) : Element := { e with children }

mutual

/-- Fills the element of a value with its content. -/
def fill (encoder : Encoder) (e : Element) : Value → Except WriteFault Element
  | .null => .ok e
  | .text s =>
    match encoder.roster.coderFor textType with
    | .text => .ok { e with text := some s }
    | .plan => .error (.notPlan (some textType))
    | .envelope => .error .notEnvelope
    | .wrapper => .error .notWrapper
    | .sample => .error .notSample
    | .object => .error (.notObject (some textType))
  | .object typeId fields entries =>
    match encoder.roster.coderFor typeId with
    | .text => .error (.notText (some typeId))
    | .plan => .error (.notPlan (some typeId))
    | .envelope =>
      if isSinglePlan entries then do
        return withChildren (envelopeHead fields e) (← encodeAll encoder entries)
      else .error .envelopeEntries
    | .wrapper => do return withChildren (wrapperHead fields e) (← encodeAll encoder entries)
    | .sample => do
      let e ← encoder.sampleHead fields e
      let parts ← encodeStructured encoder fields
      return withChildren e (parts ++ (← encodeAll encoder entries))
    | .object => do
      let parts ← encodeFields encoder typeId fields
      let members ← encodeAll encoder entries
      return withChildren e (parts ++ collection members)
  | .plan branches =>
    match encoder.roster.coderFor treeType with
    | .text => .error (.notText (some treeType))
    | .plan => do
      let tag ← encoder.tagFor treeType
      return withChildren e (← encodePlan encoder tag branches)
    | .envelope => .error .notEnvelope
    | .wrapper => .error .notWrapper
    | .sample => .error .notSample
    | .object => .error (.notObject (some treeType))

def encodeAll (encoder : Encoder) : List Value → Except WriteFault (List Element)
  | [] => .ok []
  | value :: rest => do
    let e ← encoder.startValue value
    let e ← fill encoder e value
    return e :: (← encodeAll encoder rest)

/-- Fills the element of a field; a text goes in as it is, whatever coder claims texts. -/
def fillField (encoder : Encoder) (e : Element) : Value → Except WriteFault Element
  | .null => .ok e
  | .text s => .ok { e with text := some s }
  | .object typeId fields entries => fill encoder e (.object typeId fields entries)
  | .plan branches => fill encoder e (.plan branches)

/-- The fields of an object. -/
def encodeFields (encoder : Encoder) (typeId : String) :
    List (String × Value) → Except WriteFault (List Element)
  | [] => .ok []
  | (name, value) :: rest =>
    if name = entriesTag then .error (.reservedFieldName name typeId)
    else do
      let e ← encoder.startField name value
      let e ← fillField encoder e value
      return e :: (← encodeFields encoder typeId rest)

/-- The fields of a sample that hold no text. -/
def encodeStructured (encoder : Encoder) :
    List (String × Value) → Except WriteFault (List Element)
  | [] => .ok []
  | (name, value) :: rest => do
    match value with
    | .text _ => encodeStructured encoder rest
    | value =>
      let e ← encoder.startField name value
      let e ← fillField encoder e value
      return e :: (← encodeStructured encoder rest)

/-- Each element of a plan, followed by the plan below it. -/
def encodePlan (encoder : Encoder) (tag : String) :
    List Branch → Except WriteFault (List Element)
  | [] => .ok []
  | .mk element children :: rest =>
    if element.isPlan then .error .planAsElement
    else do
      let e ← encoder.startValue element
      let e ← fill encoder e element
      let below ← encodePlan encoder tag children
      return e :: { name := tag, children := below } :: (← encodePlan encoder tag rest)

end

/-- The element of a value that stands on its own. -/
def encode (encoder : Encoder) (value : Value) : Except WriteFault Element := do
  fill encoder (← encoder.startValue value) value

end Encoder

end PlanArchive.Coding
