import PlanArchive.Keyed
import PlanArchive.Text.Blank

/-!
# Known types

Only types on this list are read. A type may need a coder of its own; all others are read as plain
objects.
-/

namespace PlanArchive.Naming

def textType : String := "string"

def envelopeType : String := "org.apache.jmeter.save.ScriptWrapper"

def treeType : String := "org.apache.jorphan.collections.ListedHashTree"

def wrapperType : String := "org.apache.jmeter.save.TestResultWrapper"

def sampleType : String := "org.apache.jmeter.samplers.SampleResult"

def httpSampleType : String := "org.apache.jmeter.protocol.http.sampler.HTTPSampleResult"

structure Binding where
  typeId : String
  needsCoder : Bool
  deriving DecidableEq

inductive RegistrationError
  | alreadyThere (typeId : String)
  | notAnIdentifier (typeId : String)
  deriving DecidableEq

def RegistrationError.message : RegistrationError → String
  | .alreadyThere typeId => s!"Type '{typeId}' already registered"
  | .notAnIdentifier typeId => s!"Invalid type identifier '{typeId}'"

/-- Types by identifier, each with whether it needs a coder of its own. -/
structure KnownTypes where
  types : List (String × Bool) := []

namespace KnownTypes

/-- The types that documents themselves are made of. -/
def builtIn : KnownTypes :=
  ⟨[(textType, false), (treeType, true), (envelopeType, true), (wrapperType, true)]⟩

def isIdentifier (typeId : String) : Bool := !typeId.isEmpty && !typeId.toList.any Text.isBlank

def get? (known : KnownTypes) (typeId : String) : Option Binding :=
  (Keyed.find? typeId known.types).map (⟨typeId, ·⟩)

def contains (known : KnownTypes) (typeId : String) : Bool := Keyed.has typeId known.types

def register (typeId : String) (needsCoder : Bool) (known : KnownTypes) :
    Except RegistrationError KnownTypes :=
  if !isIdentifier typeId then .error (.notAnIdentifier typeId)
  else if known.contains typeId then .error (.alreadyThere typeId)
  else .ok ⟨Keyed.put typeId needsCoder known.types⟩

/-- Registers plain types; those that cannot be registered are passed over. -/
def registerAll (typeIds : List String) (known : KnownTypes) : KnownTypes :=
  typeIds.foldl (fun known typeId => (known.register typeId false).toOption.getD known) known

def typeIds (known : KnownTypes) : List String := Keyed.keys known.types

def size (known : KnownTypes) : Nat := known.types.length

end KnownTypes

end PlanArchive.Naming
