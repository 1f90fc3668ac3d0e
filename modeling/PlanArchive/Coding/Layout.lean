import PlanArchive.Value

/-!
# Names of the layout

Tags and attributes with a meaning of their own, the envelope around a plan and the wrapper around
records.
-/

namespace PlanArchive.Coding

/-- Tag and class of a missing value. -/
def nullTag : String := "null"

/-- The child that holds the entries of an object. -/
def entriesTag : String := "collection"

/-- Names the type of a field. -/
def classKey : String := "class"

/-- Marks a value for later reference. -/
def idKey : String := "id"

/-- Points at a marked value. -/
def referenceKey : String := "reference"

def hostKey : String := "hn"

def threadGroupKey : String := "tg"

def versionKey : String := "version"

def propertiesKey : String := "properties"

def applicationKey : String := "jmeter"

/-- The version of the format that is written. -/
def formatVersion : String := "1.2"

def isReserved (key : String) : Bool := key == classKey || key == idKey || key == referenceKey

/-- The root of a test plan document. -/
structure Envelope where
  version : String
  properties : String
  application : String
  plan : Plan

namespace Envelope

/-- An envelope in the present format. -/
def around (properties application : String) (plan : Plan) : Envelope :=
  ⟨formatVersion, properties, application, plan⟩

def toValue (envelope : Envelope) : Value :=
  .object Naming.envelopeType
    [(versionKey, .text envelope.version), (propertiesKey, .text envelope.properties),
      (applicationKey, .text envelope.application)]
    [.plan envelope.plan]

/-- The last entry of the object must be the plan; missing texts are empty. -/
def ofValue? : Value → Option Envelope
  | .object typeId fields entries =>
    if typeId = Naming.envelopeType then
      match entries.getLast? with
      | some (.plan plan) =>
        let text key := (Value.fieldText? fields key).getD ""
        some ⟨text versionKey, text propertiesKey, text applicationKey, plan⟩
      | _ => none
    else none
  | _ => none

theorem ofValue?_toValue (envelope : Envelope) : ofValue? envelope.toValue = some envelope := rfl

end Envelope

/-- A wrapper of the present format around records. -/
def wrap (records : List Value) : Value :=
  .object Naming.wrapperType [(versionKey, .text formatVersion)] records

end PlanArchive.Coding
