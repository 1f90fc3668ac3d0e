import PlanArchive.Keyed
import PlanArchive.Definition.Line
import PlanArchive.Definition.Entry

/-!
# Definitions

Pairs of key and value, one for each key, in the order in which the keys first came.
-/

namespace PlanArchive.Definition

structure Source where
  pairs : List (String × String)

namespace Source

/-- A later pair of the same key takes the place of the earlier one. -/
def ofPairs (pairs : List (String × String)) : Source := ⟨Keyed.ofPairs pairs⟩

def ofText (text : List Char) : Source := ofPairs ((logicalLines text).map readLine)

def get? (source : Source) (key : String) : Option String := Keyed.find? key source.pairs

def entries (source : Source) : List Entry := source.pairs.map fun (key, value) => .ofPair key value

def size (source : Source) : Nat := source.pairs.length

/-- The pairs as `key=value`, one after another. -/
def rendered (source : Source) : String :=
  String.join (source.pairs.map fun (key, value) => key ++ "=" ++ value)

end Source

end PlanArchive.Definition
