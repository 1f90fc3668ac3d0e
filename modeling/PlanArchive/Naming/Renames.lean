import PlanArchive.Keyed

/-!
# Renamed types

A type that was renamed is read under its current name. Chains of renames are followed for at most
sixteen steps, which also ends every cycle.
-/

namespace PlanArchive.Naming

structure Renames where
  table : List (String × String) := []

namespace Renames

def maxSteps : Nat := 16

/-- A name that would be renamed to itself is left as it was. -/
def insert (old new : String) (renames : Renames) : Renames :=
  if old = new then renames else ⟨Keyed.put old new renames.table⟩

def ofPairs (pairs : List (String × String)) : Renames :=
  pairs.foldl (fun renames (old, new) => renames.insert old new) {}

def next? (renames : Renames) (name : String) : Option String := Keyed.find? name renames.table

def follow (renames : Renames) : Nat → String → String
  | 0, name => name
  | n + 1, name =>
    match renames.next? name with
    | some new => follow renames n new
    | none => name

def current (renames : Renames) (name : String) : String := renames.follow maxSteps name

def isRenamed (renames : Renames) (name : String) : Bool := (renames.next? name).isSome

def size (renames : Renames) : Nat := renames.table.length

end Renames

/-- What is asked about renamed types, of a table or of anything else that knows: how a type is
called now, and whether it is to be renamed. Unless told otherwise, none is. -/
structure Renaming where
  current : String → String := id
  isRenamed : String → Bool := fun _ => false

def Renames.renaming (renames : Renames) : Renaming := ⟨renames.current, renames.isRenamed⟩

end PlanArchive.Naming
