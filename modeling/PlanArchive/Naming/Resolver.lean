import PlanArchive.Naming.Tags
import PlanArchive.Naming.Known
import PlanArchive.Naming.Renames

/-!
# From tags to types and back

A tag is read in three steps: the tag table, the renames, the list of known types.
-/

namespace PlanArchive.Naming

structure Resolver where
  tags : TagTable
  renames : Renaming
  known : KnownTypes

namespace Resolver

/-- The tag that is written for a type. -/
def tagFor (resolver : Resolver) (typeId : String) : String := resolver.tags.tagFor typeId

/-- The current type that a tag stands for, whether known or not. -/
def candidate (resolver : Resolver) (tag : String) : String :=
  resolver.renames.current (resolver.tags.typeOf tag)

def binding? (resolver : Resolver) (tag : String) : Option Binding :=
  resolver.known.get? (resolver.candidate tag)

/-- Types with a tag that are neither known nor renamed, in order of code points. -/
def unreadable (resolver : Resolver) : List String :=
  (resolver.tags.typeIds.filter fun typeId =>
    !resolver.renames.isRenamed typeId && !resolver.known.contains typeId).mergeSort (· ≤ ·)

end Resolver

end PlanArchive.Naming
