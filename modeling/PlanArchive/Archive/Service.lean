import PlanArchive.Archive.Saving
import PlanArchive.Coding.Conversion

/-!
# Services

A service is an archive whose definitions may ask for anyone's converters. What it saves and loads
hangs on what scripts come to. An archive is a service whose converters are coders.
-/

namespace PlanArchive

open Coding Definition Markup Naming

structure Service extends Basis where
  converters : Converters
  converterFailures : List Failure

structure Service.Setup extends Basis.Setup where
  factories : Factories

namespace Service

/-- The converters that can be had, and why the others cannot. -/
def buildConverters (factories : Factories) (tags : TagTable) (requests : List CoderRequest) :
    Converters × List Failure :=
  requests.foldl
    (fun (converters, failures) request => match factories.build tags request with
      | .ok converter => (converters.add converter, failures)
      | .error failure => (converters, failures ++ [failure]))
    (.basic, [])

def build (setup : Setup) (source : Definition.Source) (checksum : String) : Service :=
  let basis := Archive.basisOf setup.toSetup source checksum
  let (converters, converterFailures) :=
    buildConverters setup.factories basis.resolver.tags (Archive.requestsOf source.entries)
  { basis with converters, converterFailures }

variable (service : Service)

def writeContext (mode : Mode) (event : Option Event) : WriteContext :=
  ⟨service.resolver, mode, event⟩

def reader (mode : Mode) : Reader := { resolver := service.resolver, mode }

/-- What saving an element comes to, and all that was asked for on the way. -/
inductive SavesElement (v : Value) : List Written → Except Failure Bytes → Prop
  | noCharset {failure : Failure} :
      service.charset = .error failure → SavesElement v [] (.error failure)
  | readOnly {charset : Charset} : service.charset = .ok charset → charset.isWritable = false →
      SavesElement v [] (.error (.charset (.readOnly charset.name)))
  | encoded {charset : Charset} {written : List Written} {result : Except Failure Element} :
      service.charset = .ok charset → charset.isWritable = true →
      service.converters.Encodes (service.writeContext .document none) v written result →
      SavesElement v written (charset.document result)

def SavesPlan (plan : Plan) : List Written → Except Failure Bytes → Prop :=
  service.SavesElement
    (Envelope.around service.schema.declared service.settings.applicationVersion plan).toValue

/-- Says of which record a value could not be written. -/
def inRecord (v : Value) : Failure → Failure
  | .unwritable fault => .unwritable (.inRecord fault v.description)
  | failure => failure

inductive SavesRecord (v : Value) (event : Option Event) :
    List Written → Except Failure Bytes → Prop
  | noCharset {failure : Failure} :
      service.charset = .error failure → SavesRecord v event [] (.error failure)
  | encoded {charset : Charset} {written : List Written} {result : Except Failure Element} :
      service.charset = .ok charset →
      service.converters.Encodes (service.writeContext .log event) v written result →
      SavesRecord v event written (charset.record (result.mapError (inRecord v)))

/-- The one element at the top of a document. -/
def root (source : Source) : Except Failure Element := do
  let charset ← service.charset
  match ← Archive.elementsOf charset source with
  | [root] => return root
  | [] => throw (.malformed .noRoot {})
  | _ :: second :: _ => throw (.malformed .manyRoots { line := some second.line })

/-- What loading an element comes to. -/
inductive LoadsElement (source : Source) : Except Failure Value → Prop
  | noRoot {failure : Failure} :
      service.root source = .error failure → LoadsElement source (.error failure)
  | decoded {root : Element} {result : Except Failure Value} {ledger : Ledger} :
      service.root source = .ok root →
      service.converters.Decodes (service.reader .document) root result ledger →
      LoadsElement source result

end Service

def Archive.Setup.toService (setup : Setup) : Service.Setup :=
  { setup.toSetup with factories := setup.recipes.factories }

def Archive.toService (archive : Archive) : Service :=
  { archive.toBasis with
    converters := .ofRoster archive.roster
    converterFailures := archive.coderFailures }

end PlanArchive
