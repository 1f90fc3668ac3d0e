import PlanArchive.Proofs.Archive.Document
import PlanArchive.Proofs.Coding.Gathered

/-!
# What is let in

The list of known types is an allow-list: every object in what is loaded is of a type on it, and
comes out of the coder of that type, which is not the object coder if the type needs one
(`loaded_objects_admitted`).
-/

namespace PlanArchive

open Coding Naming Markup

namespace Coding.Decoder

/-- The value comes out of a coder at one of the elements or inside it. -/
def ReadBy (decoder : Decoder) (elements : List Element) (c : Coder) (typeId : String)
    (v : Value) : Prop :=
  ∃ root ∈ elements, ∃ e, e.Occurs root ∧ ∃ path, Gives (decoder.readWith path c typeId e) v

/-- An object of a type may come from these elements. -/
structure Admits (decoder : Decoder) (elements : List Element) (typeId : String) (v : Value)
    (binding : Binding) : Prop where
  /-- The type is on the list. -/
  known : decoder.resolver.known.get? typeId = some binding
  /-- The coder of the type has rebuilt the object. -/
  read : decoder.ReadBy elements (decoder.roster.coderFor typeId) typeId v
  /-- It is a coder of its own for a type that needs one. -/
  claimed : binding.needsCoder = true → ∃ c ∈ decoder.roster.coders,
    c ≠ .object ∧ c.claims typeId = true ∧ decoder.roster.coderFor typeId = c

/-- If the value is an object, it is let in. -/
def Admitted (decoder : Decoder) (elements : List Element) (v : Value) : Prop :=
  ∀ typeId fields entries, v = .object typeId fields entries →
    ∃ binding, decoder.Admits elements typeId v binding

section

variable {decoder : Decoder} {elements : List Element}

theorem admitted_of_not_object {v : Value} (h : v.isObject = false) :
    decoder.Admitted elements v := by
  rintro typeId fields entries rfl
  cases h

/-- What an element is read as is let in. -/
theorem admitted_of_readTyped (hroster : decoder.roster.Standard) {e root : Element}
    (hroot : root ∈ elements) (he : e.Occurs root) {path : List String} {type : Option String}
    {v : Value} (h : Gives (decoder.readTyped path type e) v) : decoder.Admitted elements v := by
  rintro typeId fields entries rfl
  obtain ⟨-, s, ⟨⟩⟩ | ⟨-, ⟨⟩⟩ | ⟨tag, binding, -, hbinding, hneeds, h⟩ := gives_readTyped h
  have hknown := Resolver.known_of_binding hbinding
  have hclaims := decoder.roster.claims_coderFor binding.typeId
  obtain rfl := Option.some.inj (typeId?_of_readWith hclaims h)
  refine ⟨binding, hknown, ⟨root, hroot, e, he, path, h⟩, fun hcoder => ?_⟩
  obtain ⟨c, hdedicated⟩ := Option.isSome_iff_exists.mp (hneeds hcoder)
  exact ⟨c, Roster.mem_of_dedicated hdedicated, hroster.ne_object hdedicated,
    Roster.claims_of_dedicated hdedicated, Roster.coderFor_of_dedicated hdedicated⟩

theorem makes_admitted (hroster : decoder.roster.Standard) :
    decoder.Makes elements (decoder.Admitted elements) where
  text := fun _ => admitted_of_not_object rfl
  leaf := fun _ _ => admitted_of_not_object rfl
  read := fun _ hroot _ he _ _ _ => admitted_of_readTyped hroster hroot he

variable (decoder) in
theorem vetted_decodeRoot (hroster : decoder.roster.Standard) {e : Element}
    (he : e ∈ elements) :
    Gathered (decoder.Admitted elements) (decoder.decodeRoot e).2 ∧
      ∀ v, (decoder.decodeRoot e).1 = .ok v → v.Everywhere (decoder.Admitted elements) :=
  gathers_decodeRoot (makes_admitted hroster) he

end

end Coding.Decoder

namespace Archive

/-- The records of elements are let in, also before a failure. -/
theorem everywhere_of_mem_recordsOf (decoder : Decoder) {elements : List Element}
    (hroster : decoder.roster.Standard) {roots : List Element}
    (hroots : ∀ root ∈ roots, root ∈ elements) :
    ∀ record ∈ (recordsOf decoder roots).1, record.Everywhere (decoder.Admitted elements) := by
  induction roots with
  | nil => exact List.forall_mem_nil _
  | cons root roots ih =>
    obtain ⟨hroot, hroots⟩ := List.forall_mem_cons.mp hroots
    obtain ⟨hledger, hvalue⟩ := Decoder.vetted_decodeRoot decoder hroster hroot
    intro record hrecord
    rw [recordsOf] at hrecord
    cases hdecode : decoder.decodeRoot root with
    | mk result ledger =>
      rw [hdecode] at hledger hvalue hrecord
      cases result with
      | error failure => exact hledger.delivered record hrecord
      | ok value =>
        simp only [List.append_assoc, List.mem_append] at hrecord
        rcases hrecord with hrecord | hrecord | hrecord
        · exact hledger.delivered record hrecord
        · split at hrecord
          · cases hrecord
          · exact List.mem_singleton.mp hrecord ▸ hvalue value rfl
        · exact ih hroots record hrecord

/-- Every object at any depth of a value, a plan or a record that is loaded is of a known type and
was rebuilt by the coder of this type, which is not the object coder if the type needs one. The
records are those handed over before a failure as well. -/
theorem loaded_objects_admitted (archive : Archive) (h : archive.roster.Standard)
    (source : Source) :
    (∀ value, archive.loadElement source = .ok value →
      value.Everywhere ((archive.decoder .document).Admitted (archive.elementsIn source))) ∧
    (∀ plan, archive.loadPlan source = .ok plan →
      (Value.plan plan).Everywhere
        ((archive.decoder .document).Admitted (archive.elementsIn source))) ∧
    ∀ record ∈ (archive.loadRecords source).1,
      record.Everywhere ((archive.decoder .log).Admitted (archive.elementsIn source)) := by
  have hroot : ∀ {root value}, archive.loadRoot source = .ok (root, value) →
      value.Everywhere ((archive.decoder .document).Admitted (archive.elementsIn source)) := by
    intro root value hload
    obtain ⟨hmem, hdecode⟩ := mem_elementsIn_of_loadRoot hload
    exact (Decoder.vetted_decodeRoot (archive.decoder .document) h hmem).2 value hdecode
  refine ⟨?_, ?_, ?_⟩
  · intro value hload
    obtain ⟨root, hload⟩ := loadElement_eq_ok.mp hload
    exact hroot hload
  · intro plan hload
    obtain ⟨root, value, envelope, hvalue, henvelope, rfl⟩ := loadPlan_eq_ok.mp hload
    -- the plan stands in the envelope that was decoded
    intro w hw
    exact hroot hvalue w (hw.trans (Envelope.occurs_plan henvelope))
  · rw [loadRecords, elementsIn]
    cases archive.charset.bind (elementsOf · source) with
    | error failure => exact List.forall_mem_nil _
    | ok elements =>
      exact everywhere_of_mem_recordsOf (archive.decoder .log) h fun _ hmem => hmem

/-- A sample in a sample. -/
def sampleSource : Source := ⟨utf8 "<sample><sample/></sample>", none⟩

def planSource : Source :=
  ⟨utf8 "<jmeterTestPlan><hashTree><TestPlan/><hashTree/></hashTree></jmeterTestPlan>", none⟩

def samples : Value := .object sampleType [] [.object sampleType [] []]

set_option maxRecDepth 20000 in
theorem elementsOf_sampleSource : elementsOf .utf8 sampleSource =
    .ok [⟨"sample", [], none, [⟨"sample", [], none, [], 1⟩], 1⟩] := by
  rfl

theorem loadElement_sampleSource : small.loadElement sampleSource = .ok samples := by
  rw [loadElement_of_elementsOf rfl elementsOf_sampleSource]
  rfl

theorem loadRecords_sampleSource : small.loadRecords sampleSource = ([samples], .ok ()) := by
  rw [loadRecords_of_elementsOf rfl elementsOf_sampleSource]
  rfl

set_option maxRecDepth 20000 in
theorem elementsOf_planSource : elementsOf .utf8 planSource =
    .ok [⟨"jmeterTestPlan", [], none, [⟨"hashTree", [], none,
      [⟨"TestPlan", [], none, [], 1⟩, ⟨"hashTree", [], none, [], 1⟩], 1⟩], 1⟩] := by
  rfl

theorem loadPlan_planSource :
    small.loadPlan planSource = .ok [.mk (.object "TestPlan" [] []) []] := by
  exact loadPlan_eq_ok.mpr
    ⟨_, _, _, loadRoot_eq_ok.mpr ⟨.utf8, rfl, elementsOf_planSource, rfl⟩, rfl, rfl⟩

theorem loaded_objects_admitted_small : small.roster.Standard ∧
    (small.loadElement sampleSource = .ok samples ∧
      samples.Everywhere ((small.decoder .document).Admitted (small.elementsIn sampleSource))) ∧
    (small.loadPlan planSource = .ok [.mk (.object "TestPlan" [] []) []] ∧
      (Value.plan [.mk (.object "TestPlan" [] []) []]).Everywhere
        ((small.decoder .document).Admitted (small.elementsIn planSource))) ∧
    small.loadRecords sampleSource = ([samples], .ok ()) ∧
      samples.Everywhere ((small.decoder .log).Admitted (small.elementsIn sampleSource)) := by
  obtain ⟨helement, -, hrecords⟩ := loaded_objects_admitted small standard_small sampleSource
  obtain ⟨-, hplan, -⟩ := loaded_objects_admitted small standard_small planSource
  refine ⟨standard_small, ⟨loadElement_sampleSource, helement _ loadElement_sampleSource⟩,
    ⟨loadPlan_planSource, hplan _ loadPlan_planSource⟩, loadRecords_sampleSource, ?_⟩
  refine hrecords samples ?_
  rw [loadRecords_sampleSource]
  exact List.mem_singleton_self samples

end Archive

end PlanArchive
