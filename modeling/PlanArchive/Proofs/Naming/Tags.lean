import PlanArchive.Naming.Tags

/-!
# What an entry changes in the tag table

An entry takes its tags over for its type, and its type for the first of its tags. Nothing else is
looked up differently behind it.
-/

namespace PlanArchive.Naming.TagTable

theorem lookupType_addTag (typeId : String) (table : TagTable) (new tag : String) :
    (addTag typeId table new).lookupType tag =
      if new = tag then some typeId else table.lookupType tag :=
  Keyed.find?_put new tag typeId table.types

theorem lookupType_addTags (typeId : String) (tags : List String) (table : TagTable)
    (tag : String) :
    (tags.foldl (addTag typeId) table).lookupType tag =
      if tag ∈ tags then some typeId else table.lookupType tag := by
  induction tags generalizing table with
  | nil => rfl
  | cons new tags ih =>
    rw [List.foldl_cons, ih, lookupType_addTag]
    by_cases hmem : tag ∈ tags
    · simp [hmem]
    · simp [hmem, eq_comm]

theorem lookupTag_addTags (typeId : String) (tags : List String) (table : TagTable)
    (other : String) :
    (tags.foldl (addTag typeId) table).lookupTag other = table.lookupTag other := by
  induction tags generalizing table with
  | nil => rfl
  | cons new tags ih => exact ih (addTag typeId table new)

theorem lookupType_register (list typeId : String) (table : TagTable) (tag : String) :
    (table.register list typeId).lookupType tag =
      if tag ∈ tagsOf list then some typeId else table.lookupType tag := by
  unfold register
  cases tagsOf list with
  | nil => rfl
  | cons primary others => exact lookupType_addTags typeId (primary :: others) table tag

theorem lookupTag_register (list typeId : String) (table : TagTable) (other : String) :
    (table.register list typeId).lookupTag other =
      if typeId = other then ((tagsOf list).head?).or (table.lookupTag other)
      else table.lookupTag other := by
  unfold register
  cases tagsOf list with
  | nil => simp
  | cons primary others =>
    have hput := Keyed.find?_put typeId other primary
      ((primary :: others).foldl (addTag typeId) table).primaries
    have hkept := lookupTag_addTags typeId (primary :: others) table other
    rw [List.head?_cons, Option.some_or, ← hkept]
    exact hput

end PlanArchive.Naming.TagTable
