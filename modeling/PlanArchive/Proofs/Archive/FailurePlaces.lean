import PlanArchive.Proofs.Archive.Document
import PlanArchive.Proofs.Coding.Trails

/-!
# Failures of loading and their places

A failure of loading that has a path is told at an element to which the tags of the path lead, with
the tags of collections left out, or at a child of it that is out of place (`failure_told`). So the
path and the line may belong to different elements, or the path to none (`failure_astray`).
-/

namespace PlanArchive

open Coding Markup Naming

namespace Archive

/-- Loading the file as a plan, as an element or as a log fails. -/
def FailsToLoad (archive : Archive) (source : Source) (failure : Failure) : Prop :=
  archive.loadPlan source = .error failure ∨ archive.loadElement source = .error failure ∨
    (archive.loadRecords source).2 = .error failure

/-- From one of the elements the tags of the path lead to one on the line. If the failure is that a
type is not known, its name is the tag or the class of that element. -/
def PointsAt (elements : List Element) (failure : Failure) (place : Place) : Prop :=
  ∃ root ∈ elements, ∃ tags e, place.path = some ("/" ++ String.intercalate "/" tags) ∧
    Leads root tags e ∧ place.line = some e.line ∧ NamedBy e failure

section

variable {archive : Archive} {source : Source} {charset : Charset} {elements : List Element}
  {failure : Failure}

/-- In the root the place is where a failure of decoding is told. -/
def ToldIn (root : Element) (failure : Failure) (place : Place) : Prop :=
  ∃ tags e line, place = placeOf tags.reverse line ∧ LeadsOver root tags e ∧ ToldAt e line failure

theorem toldIn_of_decodeRoot {decoder : Decoder} {root : Element} {place : Place}
    (h : (decoder.decodeRoot root).1 = .error failure) (hplace : failure.place? = some place) :
    ToldIn root failure place := by
  have hrefuses : decoder.Refuses (.root root) failure :=
    ⟨(decoder.decodeRoot root).2, Prod.ext h rfl⟩
  obtain ⟨tags, e, line, hleads, htold, hplace'⟩ := Decoder.place_of_refuses hrefuses
  exact ⟨tags, e, line, Option.some.inj (hplace.symm.trans hplace'), hleads, htold⟩

theorem exists_of_recordsOf {decoder : Decoder} {roots : List Element}
    (h : (recordsOf decoder roots).2 = .error failure) :
    ∃ root ∈ roots, (decoder.decodeRoot root).1 = .error failure := by
  induction roots with
  | nil => cases h
  | cons root roots ih =>
    rw [recordsOf] at h
    cases hdecode : decoder.decodeRoot root with
    | mk result ledger =>
      rw [hdecode] at h
      cases result with
      | error failure' =>
        obtain rfl := Except.error.inj h
        exact ⟨root, List.mem_cons_self .., congrArg Prod.fst hdecode⟩
      | ok value =>
        obtain ⟨root', hmem, hroot'⟩ := ih h
        exact ⟨root', List.mem_cons_of_mem _ hmem, hroot'⟩

section

variable (hcharset : archive.charset = .ok charset)
  (helements : elementsOf charset source = .ok elements)

include hcharset helements

/-- Loading a root fails without a path, or where the root is decoded. -/
theorem loadRoot_eq_error (h : archive.loadRoot source = .error failure) :
    (∀ place, failure.place? = some place → place.path = none) ∨
      ∃ root ∈ elements, ((archive.decoder .document).decodeRoot root).1 = .error failure := by
  unfold loadRoot at h
  rw [hcharset] at h
  change (elementsOf charset source >>= _) = _ at h
  rw [helements] at h
  rcases elements with _ | ⟨root, _ | ⟨second, rest⟩⟩
  · cases h
    refine .inl ?_
    rintro _ ⟨⟩
    rfl
  · refine .inr ⟨root, List.mem_singleton.mpr rfl, ?_⟩
    change ((archive.decoder .document).decodeRoot root).1 >>= _ = _ at h
    cases hdecode : ((archive.decoder .document).decodeRoot root).1 with
    | error failure' =>
      rw [hdecode] at h
      exact congrArg _ (Except.error.inj h)
    | ok value =>
      rw [hdecode] at h
      cases h
  · cases h
    refine .inl ?_
    rintro _ ⟨⟩
    rfl

theorem toldIn_of_loadRoot (h : archive.loadRoot source = .error failure) {place : Place}
    (hplace : failure.place? = some place) (hpath : place.path ≠ none) :
    ∃ root ∈ elements, ToldIn root failure place := by
  rcases loadRoot_eq_error hcharset helements h with hnone | ⟨root, hroot, hdecode⟩
  · exact absurd (hnone place hplace) hpath
  · exact ⟨root, hroot, toldIn_of_decodeRoot hdecode hplace⟩

theorem toldIn_of_failsToLoad (h : archive.FailsToLoad source failure) {place : Place}
    (hplace : failure.place? = some place) (hpath : place.path ≠ none) :
    ∃ root ∈ elements, ToldIn root failure place := by
  rcases h with hplan | helement | hrecords
  · cases hroot : archive.loadRoot source with
    | error failure' =>
      rw [loadPlan, hroot] at hplan
      obtain rfl := Except.error.inj hplan
      exact toldIn_of_loadRoot hcharset helements hroot hplace hpath
    | ok loaded =>
      obtain ⟨root, value⟩ := loaded
      have hmem : root ∈ elements := by
        rw [← elementsIn_of_elementsOf hcharset helements]
        exact (mem_elementsIn_of_loadRoot hroot).1
      cases henvelope : Envelope.ofValue? value with
      | some envelope =>
        simp only [loadPlan, hroot, henvelope, bind, Except.bind] at hplan
        cases hplan
      | none =>
        -- the root is no envelope, and that is told at the root
        simp only [loadPlan, hroot, henvelope, bind, Except.bind] at hplan
        obtain rfl := Except.error.inj hplan
        obtain rfl := Option.some.inj hplace
        have hnamed : NamedBy root
            (.malformed (.notEnvelope root.name) (placeOf [root.name] root.line)) := by
          rintro tag place ⟨⟩
        exact ⟨root, hmem, [root.name], root, root.line, rfl, .here, .inl ⟨rfl, hnamed⟩⟩
  · rw [loadElement] at helement
    cases hroot : archive.loadRoot source with
    | error failure' =>
      rw [hroot] at helement
      obtain rfl := Except.error.inj helement
      exact toldIn_of_loadRoot hcharset helements hroot hplace hpath
    | ok loaded =>
      rw [hroot] at helement
      cases helement
  · rw [loadRecords_of_elementsOf hcharset helements] at hrecords
    obtain ⟨root, hroot, hdecode⟩ := exists_of_recordsOf hrecords
    exact ⟨root, hroot, toldIn_of_decodeRoot hdecode hplace⟩

end

end

/-- In a text that can be read, a failure with a path is told at an element to which the path leads
over collections, or at a child of it that is out of place. If no collection has entries and nothing
is out of place, path and line point at the element. -/
theorem failure_told {archive : Archive} {source : Source} {charset : Charset}
    {elements : List Element} {failure : Failure} {place : Place}
    (hcharset : archive.charset = .ok charset) (helements : elementsOf charset source = .ok elements)
    (h : archive.FailsToLoad source failure) (hplace : failure.place? = some place)
    (hpath : place.path ≠ none) :
    (∃ root ∈ elements, ToldIn root failure place) ∧
      ((∀ root ∈ elements, ∀ e : Element, e.Occurs root → e.name = entriesTag → e.children = []) →
        (∀ name, ¬Displaces name failure) → PointsAt elements failure place) := by
  have htold := toldIn_of_failsToLoad hcharset helements h hplace hpath
  refine ⟨htold, ?_⟩
  intro hnone hproper
  obtain ⟨root, hroot, tags, e, line, rfl, hleads, ⟨rfl, hnamed⟩ | ⟨child, -, -, hdisplaced⟩⟩ := htold
  · refine ⟨root, hroot, tags, e, ?_, hleads.leads (hnone root hroot), rfl, hnamed⟩
    rw [placeOf, List.reverse_reverse]
  · exact absurd hdisplaced (hproper _)

/-- An entry of a collection is of no known type. -/
def unknownEntry : Bytes :=
  utf8 "<TestPlan>\n<collection>\n<Unknown/></collection></TestPlan>"

def unknownEntryRoot : Element :=
  ⟨"TestPlan", [], none, [⟨"collection", [], none, [⟨"Unknown", [], none, [], 3⟩], 2⟩], 1⟩

set_option maxRecDepth 20000 in
theorem elementsOf_unknownEntry :
    elementsOf .utf8 ⟨unknownEntry, none⟩ = .ok [unknownEntryRoot] := by
  rfl

def unknownEntryPlace : Place := { line := some 3, path := some "/TestPlan/Unknown" }

theorem failsToLoad_unknownEntry :
    small.FailsToLoad ⟨unknownEntry, none⟩ (.unknownType "Unknown" unknownEntryPlace) := by
  refine .inr (.inr ?_)
  rw [loadRecords_of_elementsOf rfl elementsOf_unknownEntry]
  rfl

theorem failure_told_unknownEntry :
    elementsOf .utf8 ⟨unknownEntry, none⟩ = .ok [unknownEntryRoot] ∧
      small.FailsToLoad ⟨unknownEntry, none⟩ (.unknownType "Unknown" unknownEntryPlace) ∧
      ∃ root ∈ [unknownEntryRoot],
        ToldIn root (.unknownType "Unknown" unknownEntryPlace) unknownEntryPlace :=
  ⟨elementsOf_unknownEntry, failsToLoad_unknownEntry,
    (failure_told rfl elementsOf_unknownEntry failsToLoad_unknownEntry rfl nofun).1⟩

/-- A plan starts with a subtree. -/
def subtreeFirst : Bytes := utf8 "<hashTree>\n<hashTree/></hashTree>"

def subtreeFirstRoot : Element :=
  ⟨"hashTree", [], none, [⟨"hashTree", [], none, [], 2⟩], 1⟩

set_option maxRecDepth 20000 in
theorem elementsOf_subtreeFirst :
    elementsOf .utf8 ⟨subtreeFirst, none⟩ = .ok [subtreeFirstRoot] := by
  rfl

def subtreeFirstPlace : Place := { line := some 2, path := some "/hashTree" }

/-- The path passes over a collection and leads nowhere; or it leads to the element around the one
on the line. -/
theorem failure_astray :
    (elementsOf .utf8 ⟨unknownEntry, none⟩ = .ok [unknownEntryRoot] ∧
      small.loadElement ⟨unknownEntry, none⟩ = .error (.unknownType "Unknown" unknownEntryPlace) ∧
      ¬PointsAt [unknownEntryRoot] (.unknownType "Unknown" unknownEntryPlace)
        unknownEntryPlace) ∧
    elementsOf .utf8 ⟨subtreeFirst, none⟩ = .ok [subtreeFirstRoot] ∧
      small.loadElement ⟨subtreeFirst, none⟩ =
        .error (.malformed (.leadingSubtree "hashTree") subtreeFirstPlace) ∧
      ¬PointsAt [subtreeFirstRoot] (.malformed (.leadingSubtree "hashTree") subtreeFirstPlace)
        subtreeFirstPlace := by
  refine ⟨⟨elementsOf_unknownEntry, ?_, ?_⟩, elementsOf_subtreeFirst, ?_, ?_⟩
  · rw [loadElement_of_elementsOf rfl elementsOf_unknownEntry]
    rfl
  · rintro ⟨root, hroot, tags, e, hpath, hleads, -⟩
    obtain rfl := List.mem_singleton.mp hroot
    cases hleads with
    | here => exact absurd hpath (by decide)
    | child hmem hleads =>
      obtain rfl := List.mem_singleton.mp hmem
      cases hleads with
      | here => exact absurd hpath (by decide)
      | child hmem hleads =>
        obtain rfl := List.mem_singleton.mp hmem
        cases hleads with
        | here => exact absurd hpath (by decide)
        | child hmem => cases hmem
  · rw [loadElement_of_elementsOf rfl elementsOf_subtreeFirst]
    rfl
  · rintro ⟨root, hroot, tags, e, hpath, hleads, hline, -⟩
    obtain rfl := List.mem_singleton.mp hroot
    cases hleads with
    | here => cases hline
    | child hmem hleads =>
      obtain rfl := List.mem_singleton.mp hmem
      cases hleads with
      | here => exact absurd hpath (by decide)
      | child hmem => cases hmem

end Archive

end PlanArchive
