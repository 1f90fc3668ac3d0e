import PlanArchive.Naming.Resolver
import PlanArchive.Proofs.Keyed
import PlanArchive.Proofs.Naming.Tags

/-!
# What an empty list of unreadable types says

The list is made from the types that have a tag to be written with, while reading starts at the
tags. No entry ever gives a tag to a type without the other way round (`closed_ofEntries`), so
with nothing on the list each tag of a type that was not renamed is read as that type. Types that
were renamed are passed over: their tags are read just when the name at the end of the chain is
known (`binding_of_unreadable_eq_nil`).
-/

namespace PlanArchive.Naming

namespace TagTable

/-- The table after some entries, each a list of tags and a type. -/
def ofEntries (entries : List (String × String)) : TagTable :=
  entries.foldl (fun table (list, typeId) => table.register list typeId) {}

/-- Each type that a tag stands for has a tag that is written for it. -/
def Closed (table : TagTable) : Prop :=
  ∀ tag typeId, table.lookupType tag = some typeId → (table.lookupTag typeId).isSome

theorem Closed.register {table : TagTable} (h : table.Closed) (list typeId : String) :
    (table.register list typeId).Closed := by
  intro tag other htag
  rw [lookupType_register] at htag
  rw [lookupTag_register]
  split at htag
  · rename_i hmem
    obtain rfl := Option.some.inj htag
    have hhead : ((tagsOf list).head?).isSome :=
      List.isSome_head?.mpr (List.ne_nil_of_mem hmem)
    rw [if_pos rfl, Option.isSome_or, hhead, Bool.true_or]
  · have hkept := h tag other htag
    split
    · rw [Option.isSome_or, hkept, Bool.or_true]
    · exact hkept

theorem Closed.registerAll {table : TagTable} (h : table.Closed)
    (entries : List (String × String)) :
    (entries.foldl (fun table (list, typeId) => table.register list typeId) table).Closed := by
  induction entries generalizing table with
  | nil => exact h
  | cons entry entries ih => exact ih (h.register entry.1 entry.2)

theorem closed_ofEntries (entries : List (String × String)) : (ofEntries entries).Closed :=
  have hempty : Closed {} := fun tag typeId h => by cases h
  hempty.registerAll entries

theorem mem_typeIds {table : TagTable} {typeId : String} :
    typeId ∈ table.typeIds ↔ (table.lookupTag typeId).isSome :=
  Keyed.isSome_find?_iff.symm

end TagTable

namespace Renames

theorem current_of_not_renamed {renames : Renames} {name : String}
    (h : renames.isRenamed name = false) : renames.current name = name := by
  have hnext : renames.next? name = none := by
    unfold isRenamed at h
    rwa [Option.isSome_eq_false_iff, Option.isNone_iff_eq_none] at h
  rw [current, maxSteps, follow, hnext]

end Renames

namespace KnownTypes

theorem isSome_get? (known : KnownTypes) (typeId : String) :
    (known.get? typeId).isSome = known.contains typeId :=
  Option.isSome_map

theorem typeId_of_get? {known : KnownTypes} {typeId : String} {binding : Binding}
    (h : known.get? typeId = some binding) : binding.typeId = typeId := by
  obtain ⟨needsCoder, -, rfl⟩ := Option.map_eq_some_iff.mp h
  rfl

end KnownTypes

namespace Resolver

variable {resolver : Resolver} {tag typeId : String}

theorem mem_unreadable :
    typeId ∈ resolver.unreadable ↔
      (resolver.tags.lookupTag typeId).isSome ∧
        resolver.renames.isRenamed typeId = false ∧ resolver.known.contains typeId = false := by
  unfold unreadable
  rw [List.mem_mergeSort, List.mem_filter, TagTable.mem_typeIds, Bool.and_eq_true,
    Bool.not_eq_true', Bool.not_eq_true']

theorem candidate_of_lookupType (h : resolver.tags.lookupType tag = some typeId) :
    resolver.candidate tag = resolver.renames.current typeId := by
  rw [candidate, TagTable.typeOf, h, Option.getD_some]

/-- A type off the list that has a tag is known unless it was renamed. -/
theorem contains_of_not_mem_unreadable (htag : (resolver.tags.lookupTag typeId).isSome)
    (hname : resolver.renames.isRenamed typeId = false) (h : typeId ∉ resolver.unreadable) :
    resolver.known.contains typeId = true := by
  rw [mem_unreadable] at h
  cases hknown : resolver.known.contains typeId with
  | true => rfl
  | false => exact absurd ⟨htag, hname, hknown⟩ h

end Resolver

/-- With no type on the list, a tag of a type that was not renamed is read as that type, and a tag
of a renamed one is read just when the name at the end of the chain is known. -/
theorem binding_of_unreadable_eq_nil {resolver : Resolver} {entries : List (String × String)}
    {renames : Renames} (hbuilt : resolver.tags = TagTable.ofEntries entries)
    (hrenames : resolver.renames = renames.renaming) (hnone : resolver.unreadable = [])
    {tag typeId : String} (htag : resolver.tags.lookupType tag = some typeId) :
    (resolver.renames.isRenamed typeId = false →
      ∃ needsCoder, resolver.binding? tag = some ⟨typeId, needsCoder⟩) ∧
    (resolver.renames.isRenamed typeId = true →
      ((resolver.binding? tag).isSome ↔
        resolver.known.contains (resolver.renames.current typeId) = true)) := by
  have hbinding : resolver.binding? tag = resolver.known.get? (resolver.renames.current typeId) := by
    rw [Resolver.binding?, Resolver.candidate_of_lookupType htag]
  refine ⟨fun hname => ?_, fun _ => ?_⟩
  · have hprimary : (resolver.tags.lookupTag typeId).isSome := by
      rw [hbuilt] at htag ⊢
      exact TagTable.closed_ofEntries entries tag typeId htag
    have hoff : typeId ∉ resolver.unreadable := hnone ▸ List.not_mem_nil
    have hknown := Resolver.contains_of_not_mem_unreadable hprimary hname hoff
    rw [hrenames] at hname hbinding
    rw [show renames.renaming.current typeId = typeId from Renames.current_of_not_renamed hname]
      at hbinding
    rw [← KnownTypes.isSome_get?] at hknown
    obtain ⟨⟨found, needsCoder⟩, hget⟩ := Option.isSome_iff_exists.mp hknown
    obtain rfl : found = typeId := KnownTypes.typeId_of_get? hget
    exact ⟨needsCoder, hbinding.trans hget⟩
  · rw [hbinding, KnownTypes.isSome_get?]

/-- One type was renamed and one was not; nothing is on the list. -/
def renamedSample : Resolver where
  tags := TagTable.ofEntries [("Plan", "app.Plan"), ("Old", "old.Type")]
  renames := (Renames.ofPairs [("old.Type", "new.Type")]).renaming
  known := ⟨[("app.Plan", false)]⟩

theorem plan_bound_of_unreadable_eq_nil :
    renamedSample.unreadable = [] ∧ renamedSample.tags.lookupType "Plan" = some "app.Plan" ∧
      ∃ needsCoder, renamedSample.binding? "Plan" = some ⟨"app.Plan", needsCoder⟩ :=
  have hnone : renamedSample.unreadable = [] := by decide +kernel
  have htag : renamedSample.tags.lookupType "Plan" = some "app.Plan" := by decide +kernel
  ⟨hnone, htag, (binding_of_unreadable_eq_nil rfl rfl hnone htag).1 (by decide +kernel)⟩

/-- The list can be empty with a tag that cannot be read: its type was renamed to an unknown one. -/
theorem renamed_unreadable_not_listed :
    ¬ ∀ (resolver : Resolver) (entries : List (String × String)) (renames : Renames),
      resolver.tags = TagTable.ofEntries entries → resolver.renames = renames.renaming →
      resolver.unreadable = [] →
      ∀ tag typeId, resolver.tags.lookupType tag = some typeId →
        (resolver.binding? tag).isSome := by
  intro h
  have hbound := h renamedSample _ _ rfl rfl (by decide +kernel) "Old" "old.Type" (by decide +kernel)
  exact absurd hbound (by decide +kernel)

end PlanArchive.Naming
