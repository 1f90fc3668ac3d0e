import PlanArchive.Coding.Converter

/-!
# Converting

The converters of an archive are looked up like coders: the latest one that claims a type is taken,
and the object coder for types that none claims. Factories say which converters definitions can ask
for. The archive answers what a script asks for by another script, of the converter of the type;
what comes of that is a relation, since converters of one's own may ask without end.
-/

namespace PlanArchive.Coding

open Markup Naming

/-- Converters in the order in which they were added. -/
structure Converters where
  converters : List Converter

namespace Converters

def ofRoster (roster : Roster) : Converters := ⟨roster.coders.map Coder.converter⟩

/-- The coders of the types that documents are made of. -/
def basic : Converters := ofRoster .basic

def add (converter : Converter) (converters : Converters) : Converters :=
  ⟨converters.converters ++ [converter]⟩

/-- The latest converter that claims a type. -/
def dedicated? (converters : Converters) (typeId : String) : Option Converter :=
  converters.converters.reverse.find? (·.claims typeId)

def converterFor (converters : Converters) (typeId : String) : Converter :=
  (converters.dedicated? typeId).getD Coder.object.converter

end Converters

inductive Factory
  | plain (converter : Converter)
  | withTags (converter : TagTable → Converter)

/-- What definitions can ask for, by name. -/
structure Factories where
  factories : List (String × Factory)

/-- The request must offer what the factory wants, and no more. -/
def Factories.build (factories : Factories) (tags : TagTable) (request : Definition.CoderRequest) :
    Except Failure Converter :=
  match Keyed.find? request.coder factories.factories with
  | none => .error (.coder request.coder .unknown)
  | some (.withTags converter) =>
    if request.wantsTags then .ok (converter tags) else .error (.coder request.coder .wantsTags)
  | some (.plain converter) =>
    if request.wantsTags then .error (.coder request.coder .takesNoTags) else .ok converter

def Recipe.factory (recipe : Recipe) : Factory :=
  if recipe.wantsTags then .withTags fun _ => recipe.coder.converter
  else .plain recipe.coder.converter

def Recipes.factories (recipes : Recipes) : Factories :=
  ⟨recipes.recipes.map fun (name, recipe) => (name, recipe.factory)⟩

/-! ## Writing -/

/-- A request and the reply to it. -/
abbrev Written := (request : WriteRequest) × request.Reply

namespace Converters

variable (converters : Converters)

def fill (context : WriteContext) (v : Value) : Filling Unit :=
  match v.typeId? with
  | none => return
  | some typeId => (converters.converterFor typeId).write context v

/-- A text goes in as it is, whatever converter claims texts. -/
def fillField (context : WriteContext) (v : Value) : Filling Unit :=
  match v with
  | .text s => modify fun e => { e with text := some s }
  | v => converters.fill context v

/-- The element that is filled, unless it cannot even be started. -/
def filled (start : Except WriteFault Element) (filling : Filling Unit) :
    WriteScript (Except Failure Element) :=
  match start with
  | .error fault => .done (.error (.unwritable fault))
  | .ok e => do
    let (result, e) ← filling.run.run e
    return result.map fun _ => e

def answer (context : WriteContext) : (request : WriteRequest) → WriteScript request.Reply
  | .value v => filled (context.encoder.startValue v) (converters.fill context v)
  | .field name v => filled (context.encoder.startField name v) (converters.fillField context v)
  | .content v e => (converters.fill context v).run.run e

/-- The script comes to `a`, and these are all the requests on the way, also those inside others. -/
inductive Writes (context : WriteContext) :
    {α : Type} → WriteScript α → List Written → α → Prop
  | done {α : Type} (a : α) : Writes context (.done a) [] a
  | ask {α : Type} {request : WriteRequest} {next : request.Reply → WriteScript α}
      {reply : request.Reply} {a : α} {inner after : List Written} :
      Writes context (converters.answer context request) inner reply →
      Writes context (next reply) after a →
      Writes context (.ask request next) (inner ++ ⟨request, reply⟩ :: after) a

/-- The value is encoded as an element, or fails to be. -/
def Encodes (context : WriteContext) (v : Value) (written : List Written)
    (result : Except Failure Element) : Prop :=
  converters.Writes context (Script.request (.value v)) written result

end Converters

/-! ## Reading -/

/-- How an archive reads: records are handed over or stay in their wrapper, whatever the mode. -/
structure Reader where
  resolver : Resolver
  mode : Mode
  delivers : Bool := mode == .log

namespace Reader

/-- Marks and references are the same whatever the coders. -/
def decoder (reader : Reader) : Decoder :=
  { reader with roster := .basic }

def context (reader : Reader) (path : List String) : ReadContext :=
  { resolver := reader.resolver, mode := reader.mode, path }

/-- What an element refers to. -/
def resolve (reader : Reader) (place : Place) (id : String) (ledger : Ledger) :
    Except Failure Value :=
  ((reader.decoder.resolve place id).run.run ledger).1

/-- Marks what an element was read as. -/
def mark (reader : Reader) (e : Element) (result : Except Failure Value) (ledger : Ledger) :
    Ledger :=
  match result with
  | .ok v => ((reader.decoder.mark (e.attribute? idKey) v).run.run ledger).2
  | .error _ => ledger

end Reader

namespace Converters

variable (converters : Converters)

/-- Rebuilds a value of a known type; a type that needs a converter is not left to the object
coder. -/
def readAs (context : ReadContext) (binding : Binding) (e : Element) : Reading Value :=
  match converters.dedicated? binding.typeId with
  | some converter => converter.read context binding.typeId e
  | none =>
    if binding.needsCoder then Reading.refuse (.noCoder binding.typeId) (context.place e)
    else Coder.object.read context binding.typeId e

/-- Rebuilds a value whose type, if it has one, is named by a tag. -/
def readTyped (context : ReadContext) (type : Option String) (e : Element) : Reading Value :=
  match type with
  | none =>
    if e.children.isEmpty then return .text e.content
    else Reading.refuse (.untyped e.name) (context.place e)
  | some tag =>
    if tag = nullTag then return .null
    else match context.resolver.binding? tag with
      | none => throw (.unknownType tag (context.place e))
      | some binding => converters.readAs context binding e

/-- From `start`, the script comes to `a` and leaves `finish`. -/
inductive Reads (reader : Reader) :
    {α : Type} → List String → ReadScript α → (start : Ledger) → α → (finish : Ledger) → Prop
  | done {α : Type} {path : List String} (a : α) (ledger : Ledger) :
      Reads reader path (.done a) ledger a ledger
  | held {α : Type} {path : List String} {role : Role} {e : Element} {id : String}
      {next : Except Failure Value → ReadScript α} {start finish : Ledger} {a : α} :
      e.attribute? referenceKey = some id →
      Reads reader path (next (reader.resolve (placeOf (e.name :: path) e.line) id start)) start a
        finish →
      Reads reader path (.ask (.element role e) next) start a finish
  | element {α : Type} {path : List String} {role : Role} {e : Element}
      {next : Except Failure Value → ReadScript α} {result : Except Failure Value}
      {start within finish : Ledger} {a : α} :
      e.attribute? referenceKey = none →
      Reads reader (e.name :: path)
        (converters.readTyped (reader.context (e.name :: path)) (role.typeOf e) e).run start result
        within →
      Reads reader path (next result) (reader.mark e result within) a finish →
      Reads reader path (.ask (.element role e) next) start a finish
  | typed {α : Type} {path : List String} {binding : Binding} {e : Element}
      {next : Except Failure Value → ReadScript α} {result : Except Failure Value}
      {start within finish : Ledger} {a : α} :
      Reads reader path (converters.readAs (reader.context path) binding e).run start result
        within →
      Reads reader path (next result) within a finish →
      Reads reader path (.ask (.typed binding e) next) start a finish
  | handedOver {α : Type} {path : List String} {record : Value}
      {next : List Value → ReadScript α} {start finish : Ledger} {a : α} :
      reader.delivers = true →
      Reads reader path (next []) { start with delivered := start.delivered ++ [record] } a
        finish →
      Reads reader path (.ask (.deliver record) next) start a finish
  | kept {α : Type} {path : List String} {record : Value}
      {next : List Value → ReadScript α} {start finish : Ledger} {a : α} :
      reader.delivers = false → Reads reader path (next [record]) start a finish →
      Reads reader path (.ask (.deliver record) next) start a finish

/-- The element at the top is decoded, with what was gathered on the way. -/
def Decodes (reader : Reader) (e : Element) (result : Except Failure Value) (ledger : Ledger) :
    Prop :=
  converters.Reads reader [] (Script.request (.element .value e)) {} result ledger

end Converters

end PlanArchive.Coding
