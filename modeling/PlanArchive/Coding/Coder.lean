import PlanArchive.Definition.Entry
import PlanArchive.Failure
import PlanArchive.Value

/-!
# Coders

A coder lays out the values of the types it claims. A roster holds the coders of an archive; the
latest one that claims a type is taken, and the object coder for types that none claims. Recipes say
which coders definitions can ask for.
-/

namespace PlanArchive.Coding

open Naming

inductive Coder
  | text | plan | envelope | wrapper | sample | object
  deriving DecidableEq

namespace Coder

def name : Coder → String
  | .text => "text"
  | .plan => "org.apache.jmeter.save.converters.HashTreeConverter"
  | .envelope => "org.apache.jmeter.save.ScriptWrapperConverter"
  | .wrapper => "org.apache.jmeter.save.converters.TestResultWrapperConverter"
  | .sample => "org.apache.jmeter.save.converters.SampleResultConverter"
  | .object => "object"

def claims (typeId : String) : Coder → Bool
  | .text => typeId == textType
  | .plan => typeId == treeType
  | .envelope => typeId == envelopeType
  | .wrapper => typeId == wrapperType
  | .sample => typeId == sampleType || typeId == httpSampleType
  | .object => true

end Coder

/-- Coders in the order in which they were added. -/
structure Roster where
  coders : List Coder

namespace Roster

/-- The coders of the types that documents are made of. -/
def basic : Roster := ⟨[.text, .plan, .envelope, .wrapper]⟩

def add (coder : Coder) (roster : Roster) : Roster := ⟨roster.coders ++ [coder]⟩

/-- The latest coder that claims a type. -/
def dedicated? (roster : Roster) (typeId : String) : Option Coder :=
  roster.coders.reverse.find? (·.claims typeId)

def coderFor (roster : Roster) (typeId : String) : Coder :=
  (roster.dedicated? typeId).getD .object

def names (roster : Roster) : List String := roster.coders.map Coder.name

end Roster

structure Recipe where
  wantsTags : Bool
  coder : Coder

/-- What definitions can ask for, by name. -/
structure Recipes where
  recipes : List (String × Recipe)

namespace Recipes

def ofList (recipes : List (String × Recipe)) : Recipes := ⟨Keyed.ofPairs recipes⟩

def standard : Recipes :=
  .ofList ([Coder.plan, .envelope, .wrapper, .sample].map fun coder => (coder.name, ⟨true, coder⟩))

def has (recipes : Recipes) (name : String) : Bool := Keyed.has name recipes.recipes

/-- The request must offer what the recipe wants, and no more. -/
def build (recipes : Recipes) (request : Definition.CoderRequest) : Except Failure Coder :=
  match Keyed.find? request.coder recipes.recipes with
  | none => .error (.coder request.coder .unknown)
  | some ⟨true, coder⟩ =>
    if request.wantsTags then .ok coder else .error (.coder request.coder .wantsTags)
  | some ⟨false, coder⟩ =>
    if request.wantsTags then .error (.coder request.coder .takesNoTags) else .ok coder

end Recipes

end PlanArchive.Coding
