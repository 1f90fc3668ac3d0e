import PlanArchive.Archive.Basic
import PlanArchive.Proofs.Keyed

/-!
# Rosters

The coders other than the object coder claim types of their own, so in a standard roster it does
not matter in which order they were added.
-/

namespace PlanArchive.Coding

open Naming

/-- No two coders claim one type, the object coder apart. -/
theorem Coder.claims_unique {typeId : String} {c d : Coder} (hc : c.claims typeId = true)
    (hd : d.claims typeId = true) (hc' : c ≠ .object) (hd' : d ≠ .object) : c = d := by
  have hnames : textType ≠ treeType ∧ textType ≠ envelopeType ∧ textType ≠ wrapperType ∧
      textType ≠ sampleType ∧ textType ≠ httpSampleType ∧ treeType ≠ envelopeType ∧
      treeType ≠ wrapperType ∧ treeType ≠ sampleType ∧ treeType ≠ httpSampleType ∧
      envelopeType ≠ wrapperType ∧ envelopeType ≠ sampleType ∧ envelopeType ≠ httpSampleType ∧
      wrapperType ≠ sampleType ∧ wrapperType ≠ httpSampleType := by decide
  cases c <;> cases d <;>
    simp only [Coder.claims, Bool.or_eq_true, beq_iff_eq, ne_eq, not_true_eq_false] at * <;>
    grind

namespace Roster

/-- Has the coders of documents, and the object coder for none of its types. -/
structure Standard (roster : Roster) : Prop where
  basic : ∀ c ∈ Roster.basic.coders, c ∈ roster.coders
  no_object : Coder.object ∉ roster.coders

section

variable {roster : Roster} {typeId : String} {c : Coder}

theorem mem_of_dedicated (h : roster.dedicated? typeId = some c) : c ∈ roster.coders :=
  List.mem_reverse.mp (List.mem_of_find?_eq_some h)

theorem claims_of_dedicated (h : roster.dedicated? typeId = some c) : c.claims typeId = true :=
  List.find?_some h

theorem Standard.ne_object (hroster : roster.Standard) (h : roster.dedicated? typeId = some c) :
    c ≠ .object := by
  rintro rfl
  exact hroster.no_object (mem_of_dedicated h)

theorem Standard.dedicated_eq (hroster : roster.Standard) (hmem : c ∈ roster.coders)
    (hclaims : c.claims typeId = true) : roster.dedicated? typeId = some c := by
  cases h : roster.dedicated? typeId with
  | none => exact absurd hclaims (List.find?_eq_none.mp h c (List.mem_reverse.mpr hmem))
  | some d =>
    have hc : c ≠ .object := fun e => hroster.no_object (e ▸ hmem)
    rw [Coder.claims_unique (claims_of_dedicated h) hclaims (hroster.ne_object h) hc]

theorem Standard.dedicated_text (hroster : roster.Standard) :
    roster.dedicated? textType = some .text :=
  hroster.dedicated_eq (hroster.basic _ (by decide)) (by decide)

theorem Standard.dedicated_plan (hroster : roster.Standard) :
    roster.dedicated? treeType = some .plan :=
  hroster.dedicated_eq (hroster.basic _ (by decide)) (by decide)

theorem Standard.dedicated_envelope (hroster : roster.Standard) :
    roster.dedicated? envelopeType = some .envelope :=
  hroster.dedicated_eq (hroster.basic _ (by decide)) (by decide)

theorem coderFor_of_dedicated (h : roster.dedicated? typeId = some c) :
    roster.coderFor typeId = c := by
  rw [coderFor, h]
  rfl

theorem claims_coderFor (roster : Roster) (typeId : String) :
    (roster.coderFor typeId).claims typeId = true := by
  unfold coderFor
  cases h : roster.dedicated? typeId with
  | none => rfl
  | some c => exact claims_of_dedicated h

theorem claims_of_coderFor (h : roster.coderFor typeId = c) : c.claims typeId = true := by
  rw [← h]
  exact roster.claims_coderFor typeId

/-- The object coder is taken for exactly the types that no other coder claims. -/
theorem Standard.coderFor_object_iff (hroster : roster.Standard) :
    roster.coderFor typeId = .object ↔ roster.dedicated? typeId = none := by
  unfold coderFor
  cases h : roster.dedicated? typeId with
  | none => exact ⟨fun _ => rfl, fun _ => rfl⟩
  | some d => exact iff_of_false (hroster.ne_object h) (by rintro ⟨⟩)

theorem dedicated_of_coderFor (h : roster.coderFor typeId = c) (hc : c ≠ .object) :
    roster.dedicated? typeId = some c := by
  unfold coderFor at h
  cases hd : roster.dedicated? typeId with
  | none =>
    rw [hd] at h
    exact absurd h.symm hc
  | some d =>
    rw [hd] at h
    exact congrArg some h

/-- The coder of one type it claims is the coder of all. -/
theorem Standard.coderFor_eq (hroster : roster.Standard) {other : String}
    (h : roster.coderFor typeId = c) (hc : c ≠ .object) (hclaims : c.claims other = true) :
    roster.coderFor other = c :=
  coderFor_of_dedicated
    (hroster.dedicated_eq (mem_of_dedicated (dedicated_of_coderFor h hc)) hclaims)

end

theorem Standard.add {roster : Roster} (hroster : roster.Standard) {c : Coder}
    (hc : c ≠ .object) : (roster.add c).Standard where
  basic := fun d hd => List.mem_append_left _ (hroster.basic d hd)
  no_object := fun h => by
    rcases List.mem_append.mp h with h | h
    · exact hroster.no_object h
    · exact hc (List.mem_singleton.mp h).symm

theorem standard_basic : Roster.basic.Standard := ⟨fun _ h => h, by decide⟩

end Roster

/-- No definition can ask for the object coder. -/
theorem Recipes.ne_object_of_build {request : Definition.CoderRequest} {c : Coder}
    (h : Recipes.standard.build request = .ok c) : c ≠ .object := by
  have hall : ∀ pair ∈ Recipes.standard.recipes, pair.2.wantsTags = true ∧
      pair.2.coder ≠ .object := by decide
  unfold Recipes.build at h
  cases hrecipe : Keyed.find? request.coder Recipes.standard.recipes with
  | none =>
    rw [hrecipe] at h
    cases h
  | some recipe =>
    obtain ⟨wantsTags, coder⟩ := recipe
    obtain ⟨hwants, hne⟩ := hall _ (Keyed.mem_of_find? hrecipe)
    obtain rfl : wantsTags = true := hwants
    rw [hrecipe] at h
    simp only at h
    split at h
    · rw [← Except.ok.inj h]
      exact hne
    · cases h

end PlanArchive.Coding

namespace PlanArchive

/-- Whatever definitions ask for, the roster is standard. -/
theorem Archive.standard_buildRoster (requests : List Definition.CoderRequest) :
    (buildRoster .standard requests).1.Standard := by
  refine List.foldlRecOn (motive := fun state : Coding.Roster × List Failure => state.1.Standard)
    requests _ Coding.Roster.standard_basic ?_
  rintro ⟨roster, failures⟩ hroster request -
  cases hbuild : Coding.Recipes.standard.build request with
  | ok c => exact hroster.add (Coding.Recipes.ne_object_of_build hbuild)
  | error failure => exact hroster

theorem Archive.standard_roster {setup : Archive.Setup} (h : setup.recipes = .standard)
    (source : Definition.Source) (checksum : String) :
    (Archive.build setup source checksum).roster.Standard := by
  simp only [Archive.build, h]
  exact standard_buildRoster _

end PlanArchive
