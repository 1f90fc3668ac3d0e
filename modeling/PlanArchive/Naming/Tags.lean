import PlanArchive.Keyed
import PlanArchive.Text.Blank
import PlanArchive.Text.Split

/-!
# Tags and types

A tag is a short name for a type identifier. Each entry gives a type a list of tags: all of them are
read as the type, the first one is written for it. An entry that takes a tag or a type over from an
earlier one is noted as a collision.
-/

namespace PlanArchive.Naming

inductive Collision
  /-- The tag stood for `previous` and now stands for `typeId`. -/
  | tagTaken (tag typeId previous : String)
  /-- The type was written as `previous` and is now written as `tag`. -/
  | typeRenamed (typeId tag previous : String)
  deriving DecidableEq

structure TagTable where
  types : List (String × String) := []
  primaries : List (String × String) := []
  collisions : List Collision := []

namespace TagTable

/-- The tags of a list that is parted by commas. -/
def tagsOf (list : String) : List String :=
  (((Text.splitAtChar ',' list.toList).map Text.trim).filter (!·.isEmpty)).map String.ofList

def addTag (typeId : String) (table : TagTable) (tag : String) : TagTable :=
  { table with
    types := Keyed.put tag typeId table.types
    collisions := table.collisions ++
      ((Keyed.find? tag table.types).map (.tagTaken tag typeId ·)).toList }

def setPrimary (typeId tag : String) (table : TagTable) : TagTable :=
  { table with
    primaries := Keyed.put typeId tag table.primaries
    collisions := table.collisions ++
      ((Keyed.find? typeId table.primaries).map (.typeRenamed typeId tag ·)).toList }

/-- A list without tags changes nothing. -/
def register (list typeId : String) (table : TagTable) : TagTable :=
  match tagsOf list with
  | [] => table
  | primary :: others =>
    setPrimary typeId primary ((primary :: others).foldl (addTag typeId) table)

def lookupType (table : TagTable) (tag : String) : Option String := Keyed.find? tag table.types

def lookupTag (table : TagTable) (typeId : String) : Option String :=
  Keyed.find? typeId table.primaries

/-- The type that a tag stands for; a tag of no entry stands for itself. -/
def typeOf (table : TagTable) (tag : String) : String := (table.lookupType tag).getD tag

/-- The tag that is written for a type; a type of no entry is written as itself. -/
def tagFor (table : TagTable) (typeId : String) : String := (table.lookupTag typeId).getD typeId

def typeIds (table : TagTable) : List String := Keyed.keys table.primaries

def size (table : TagTable) : Nat := table.types.length

end TagTable

end PlanArchive.Naming
