import PlanArchive.Coding.Coder
import PlanArchive.Coding.Layout
import PlanArchive.Naming.Resolver

/-!
# Elements to values

The tag of an element, or its class where it is a field, names its type, and the coder of the type
rebuilds the value. A document may mark values and refer to them later; a log may not. Where records
are handed over, each record of a wrapper is as soon as it is read; a log does so.
-/

namespace PlanArchive.Coding

open Markup Naming

inductive Mode
  | document
  | log
  deriving DecidableEq

/-- Records are handed over or stay in their wrapper, whatever the mode. -/
structure Decoder where
  resolver : Resolver
  roster : Roster
  mode : Mode
  delivers : Bool := mode == .log

/-- The usual pairing: records are handed over in a log, and only there. -/
structure Decoder.ReadsIn (decoder : Decoder) (mode : Mode) : Prop where
  mode_eq : decoder.mode = mode
  delivers_eq : decoder.delivers = (mode == .log)

theorem Decoder.ReadsIn.delivers {decoder : Decoder} (h : decoder.ReadsIn .log) :
    decoder.delivers = true :=
  h.delivers_eq

theorem Decoder.ReadsIn.keeps {decoder : Decoder} (h : decoder.ReadsIn .document) :
    decoder.delivers = false :=
  h.delivers_eq

/-- What reading gathers: values marked for reference, and records handed over, in order. -/
structure Ledger where
  marked : List (String × Value) := []
  delivered : List Value := []

/-- What was gathered before a failure is kept. -/
abbrev Decoding := ExceptT Failure (StateM Ledger)

/-- The place of an element on `line` that is reached by `path`, the innermost tag first. -/
def placeOf (path : List String) (line : Nat) : Place :=
  { line := some line, path := some ("/" ++ String.intercalate "/" path.reverse) }

namespace Decoder

def refuse {α : Type} (what : Malformation) (place : Place) : Decoding α :=
  throw (.malformed what place)

def resolve (decoder : Decoder) (place : Place) (id : String) : Decoding Value :=
  match decoder.mode with
  | .log => refuse .referenceInLog place
  | .document => do
    match Keyed.find? id (← get).marked with
    | some value => return value
    | none => refuse (.unknownReference id) place

def mark (decoder : Decoder) (id : Option String) (value : Value) : Decoding Unit :=
  match decoder.mode, id with
  | .document, some id =>
    modify fun ledger => { ledger with marked := Keyed.put id value ledger.marked }
  | _, _ => return

/-- Hands a record over, or leaves it in its wrapper. -/
def deliver (decoder : Decoder) (record : Value) : Decoding (List Value) :=
  match decoder.delivers with
  | true => do
    modify fun ledger => { ledger with delivered := ledger.delivered ++ [record] }
    return []
  | false => return [record]

def isSubtree (decoder : Decoder) (tag : String) : Bool :=
  (decoder.resolver.binding? tag).any (·.typeId == treeType)

def isSample (decoder : Decoder) (tag : String) : Bool :=
  (decoder.resolver.binding? tag).any fun binding => Coder.sample.claims binding.typeId

def envelopeFields (attributes : List (String × String)) : List (String × Value) :=
  [versionKey, propertiesKey, applicationKey].filterMap fun key =>
    (Keyed.find? key attributes).map fun value => (key, .text value)

def wrapperFields (attributes : List (String × String)) : List (String × Value) :=
  ((Keyed.find? versionKey attributes).map fun value => (versionKey, .text value)).toList

def sampleFields (attributes : List (String × String)) : List (String × Value) :=
  Keyed.ofPairs ((attributes.filter fun (key, _) => !isReserved key).map
    fun (key, value) => (key, .text value))

/-- Appends the branch of an element that no subtree followed. -/
def leaf : Option Value → Plan
  | some element => [.mk element []]
  | none => []

/-- The plan in the element of a subtree; a reference to anything else counts as an empty one. -/
def planOf : Value → Plan
  | .plan branches => branches
  | _ => []

mutual

/-- `path` leads to the element and `type` names its type, if anything does. -/
def decode (decoder : Decoder) (path : List String) (type : Option String) :
    Element → Decoding Value
  | ⟨name, attributes, text, children, line⟩ =>
    let place := placeOf path line
    match Keyed.find? referenceKey attributes with
    | some id => decoder.resolve place id
    | none => do
      let value : Value ← match type with
        | none =>
          if children.isEmpty then pure (Value.text (text.getD ""))
          else refuse (.untyped name) place
        | some tag =>
          if tag = nullTag then pure Value.null
          else match decoder.resolver.binding? tag with
            | none => throw (.unknownType tag place)
            | some ⟨typeId, needsCoder⟩ =>
              match decoder.roster.dedicated? typeId with
              | some .text =>
                if children.isEmpty then pure (Value.text (text.getD ""))
                else refuse (.textWithChildren name) place
              | some .plan => do pure (Value.plan (← decodePlan decoder path none children))
              | some .envelope => do
                match ← decodeEnvelope decoder path none children with
                | some plan =>
                  pure (Value.object envelopeType (envelopeFields attributes) [.plan plan])
                | none => refuse (.noPlan name (decoder.resolver.tagFor treeType)) place
              | some .wrapper => do
                pure (Value.object typeId (wrapperFields attributes)
                  (← decodeRecords decoder path children))
              | some .sample => do
                let (fields, entries) ←
                  decodeSample decoder path (sampleFields attributes) children
                pure (Value.object typeId fields entries)
              | some .object | none =>
                if needsCoder && (decoder.roster.dedicated? typeId).isNone then
                  refuse (.noCoder typeId) place
                else if children.isEmpty && !Text.allBlank (text.getD "").toList then
                  refuse (.textInObject name) place
                else do
                  let (fields, entries) ← decodeParts decoder path [] children
                  pure (Value.object typeId fields entries)
      decoder.mark (Keyed.find? idKey attributes) value
      return value

/-- Elements whose tags name their types. -/
def decodeAll (decoder : Decoder) (path : List String) : List Element → Decoding (List Value)
  | [] => return []
  | child :: rest => do
    let value ← decode decoder (child.name :: path) (some child.name) child
    return value :: (← decodeAll decoder path rest)

/-- Fields and entries of an object; `fields` are the ones so far. -/
def decodeParts (decoder : Decoder) (path : List String) (fields : List (String × Value)) :
    List Element → Decoding (List (String × Value) × List Value)
  | [] => return (fields, [])
  | ⟨name, attributes, text, children, line⟩ :: rest => do
    if name = entriesTag then
      let entries ← decodeAll decoder path children
      let (fields, more) ← decodeParts decoder path fields rest
      return (fields, entries ++ more)
    else
      let value ← decode decoder (name :: path) (Keyed.find? classKey attributes)
        ⟨name, attributes, text, children, line⟩
      decodeParts decoder path (Keyed.put name value fields) rest

/-- Fields and sub-results of a sample. -/
def decodeSample (decoder : Decoder) (path : List String) (fields : List (String × Value)) :
    List Element → Decoding (List (String × Value) × List Value)
  | [] => return (fields, [])
  | child :: rest => do
    if decoder.isSample child.name then
      let entry ← decode decoder (child.name :: path) (some child.name) child
      let (fields, more) ← decodeSample decoder path fields rest
      return (fields, entry :: more)
    else
      let value ← decode decoder (child.name :: path) (child.attribute? classKey) child
      decodeSample decoder path (Keyed.put child.name value fields) rest

/-- Branches of a plan; `pending` is an element whose subtree may still follow. -/
def decodePlan (decoder : Decoder) (path : List String) (pending : Option Value) :
    List Element → Decoding Plan
  | [] => return leaf pending
  | child :: rest => do
    if decoder.isSubtree child.name then
      match pending with
      | none => refuse (.leadingSubtree child.name) (placeOf path child.line)
      | some element =>
        let below ← decode decoder (child.name :: path) (some child.name) child
        return .mk element (planOf below) :: (← decodePlan decoder path none rest)
    else
      let element ← decode decoder (child.name :: path) (some child.name) child
      return leaf pending ++ (← decodePlan decoder path (some element) rest)

/-- The one plan of an envelope; `found` is the plan so far. -/
def decodeEnvelope (decoder : Decoder) (path : List String) (found : Option Plan) :
    List Element → Decoding (Option Plan)
  | [] => return found
  | child :: rest => do
    match ← decode decoder (child.name :: path) (some child.name) child, found with
    | .plan plan, none => decodeEnvelope decoder path (some plan) rest
    | other, _ =>
      refuse (.unexpectedInEnvelope child.name other.typeId?) (placeOf path child.line)

/-- Records of a wrapper: those that stay in it. -/
def decodeRecords (decoder : Decoder) (path : List String) :
    List Element → Decoding (List Value)
  | [] => return []
  | child :: rest => do
    let record ← decode decoder (child.name :: path) (some child.name) child
    let kept ← decoder.deliver record
    return kept ++ (← decodeRecords decoder path rest)

end

/-- Decodes an element at the top, and returns what was gathered on the way. -/
def decodeRoot (decoder : Decoder) (e : Element) : Except Failure Value × Ledger :=
  (decode decoder [e.name] (some e.name) e).run.run {}

end Decoder

end PlanArchive.Coding
