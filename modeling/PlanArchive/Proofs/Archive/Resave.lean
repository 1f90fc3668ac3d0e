import PlanArchive.Proofs.Archive.PlanRoundTrip
import PlanArchive.Proofs.Coding.Restorable

/-!
# Saving again

What is loaded from a document without references is legible (`legible_of_loadPlan`), whatever
stands in the document. So a plan that was loaded and saved is saved again octet by octet as before
(`planDocument_resaved`).
-/

namespace PlanArchive

open Coding Naming Markup

namespace Archive

/-- No element of a file refers to another one. -/
def NoReferences (archive : Archive) (source : Source) : Prop :=
  ∀ root ∈ archive.elementsIn source, ∀ e : Element, e.Occurs root →
    e.attribute? referenceKey = none

section

variable {archive : Archive} {source : Source} {plan : Plan}

/-- A plan that was loaded from a document without references is legible, and so is the type of
its envelope. -/
theorem legible_of_loadPlan (hroster : archive.roster.Standard)
    (hconsistent : archive.resolver.Consistent) (hreferences : archive.NoReferences source)
    (h : archive.loadPlan source = .ok plan) :
    archive.resolver.Resolves envelopeType ∧
      Value.Everywhere (archive.decoder .document).Legible (.plan plan) := by
  obtain ⟨root, value, envelope, hroot, henvelope, rfl⟩ := loadPlan_eq_ok.mp h
  obtain ⟨hmem, hdecode⟩ := mem_elementsIn_of_loadRoot hroot
  have hreads : (archive.decoder .document).ReadsRestorably root :=
    Decoder.readsRestorably hroster hconsistent (fun _ => hreferences root hmem) root .here
  have hrestorable := ((hreads _ _ {} (List.forall_mem_nil _)).2 value hdecode).1
  have hlegible : value.Everywhere (archive.decoder .document).Legible :=
    hrestorable.mono fun _ => Decoder.legible_of_restorable rfl
  refine ⟨?_, fun w hw => hlegible w (hw.trans (Envelope.occurs_plan henvelope))⟩
  obtain ⟨fields, entries, rfl, -⟩ := Envelope.exists_object henvelope
  exact hlegible.here.1

theorem planDocument_settlePlan (hroster : archive.roster.Standard)
    (hcharset : archive.charset = .ok .utf8) {bytes : Bytes}
    (h : archive.planDocument plan = .ok bytes) :
    archive.planDocument (settlePlan archive.roster plan) = .ok bytes := by
  obtain ⟨e, hencode, rfl⟩ := (elementDocument_eq_ok hcharset).mp h
  have hsettled := Encoder.encode_settle (archive.encoder none) hroster hencode
  exact (elementDocument_eq_ok hcharset).mpr
    ⟨e, (congrArg _ (settle_envelope hroster _)).symm.trans hsettled, rfl⟩

/-- Saving a plan that was loaded from a document without references is stable: what was saved is
loaded again, and saved again as it stands. -/
theorem planDocument_resaved (archive : Archive) (hroster : archive.roster.Standard)
    (hcharset : archive.charset = .ok .utf8) (hconsistent : archive.resolver.Consistent)
    {source : Source} (hreferences : archive.NoReferences source) {plan : Plan} {bytes : Bytes}
    (hload : archive.loadPlan source = .ok plan) (hsave : archive.planDocument plan = .ok bytes) :
    ∃ plan', archive.loadPlan ⟨bytes, none⟩ = .ok plan' ∧
      archive.planDocument plan' = .ok bytes := by
  obtain ⟨henvelope, hplan⟩ := legible_of_loadPlan hroster hconsistent hreferences hload
  exact ⟨_, loadPlan_of_legible hcharset hroster henvelope hplan hsave,
    planDocument_settlePlan hroster hcharset hsave⟩

end

/-- A document that was not saved: its one element has no subtree. -/
def leafDocument : Source :=
  ⟨Text.Utf8.encode ("<jmeterTestPlan><hashTree><TestPlan><name>home</name></TestPlan>" ++
    "</hashTree></jmeterTestPlan>").toList, none⟩

/-- The element of the document. -/
def leafRoot : Element :=
  ⟨"jmeterTestPlan", [], none, [⟨"hashTree", [], none,
    [⟨"TestPlan", [], none, [⟨"name", [], some "home", [], 1⟩], 1⟩], 1⟩], 1⟩

set_option maxRecDepth 20000 in
theorem elementsOf_leafDocument : elementsOf .utf8 leafDocument = .ok [leafRoot] := by
  rfl

theorem loadPlan_leafDocument : small.loadPlan leafDocument = .ok smallPlan :=
  loadPlan_eq_ok.mpr ⟨leafRoot, .object envelopeType [] [.plan smallPlan], _,
    loadRoot_eq_ok.mpr ⟨.utf8, rfl, elementsOf_leafDocument, rfl⟩, rfl, rfl⟩

theorem elementsIn_leafDocument : small.elementsIn leafDocument = [leafRoot] :=
  elementsIn_of_elementsOf rfl elementsOf_leafDocument

theorem plain_leafRoot : ∀ e : Element, e.Occurs leafRoot →
    (isName e.name = true ∧ isReserved e.name = false) ∧ e.attributes = [] := by
  -- one step for each element on the way down
  refine Element.forall_occurs.mpr ⟨⟨by decide, rfl⟩, List.forall_mem_singleton.mpr ?_⟩
  refine Element.forall_occurs.mpr ⟨⟨by decide, rfl⟩, List.forall_mem_singleton.mpr ?_⟩
  refine Element.forall_occurs.mpr ⟨⟨by decide, rfl⟩, List.forall_mem_singleton.mpr ?_⟩
  exact Element.forall_occurs.mpr ⟨⟨by decide, rfl⟩, List.forall_mem_nil _⟩

theorem noReferences_leafDocument : small.NoReferences leafDocument := by
  rw [NoReferences, elementsIn_leafDocument, List.forall_mem_singleton]
  intro e he
  rw [Element.attribute?, (plain_leafRoot e he).2]
  rfl

theorem consistent_small : small.resolver.Consistent :=
  Resolver.consistent_of_forall (by decide +kernel) rfl

theorem planDocument_resaved_small :
    small.resolver.Consistent ∧ small.NoReferences leafDocument ∧
      small.loadPlan leafDocument = .ok smallPlan ∧
      ∃ bytes, small.planDocument smallPlan = .ok bytes ∧ ∃ plan',
        small.loadPlan ⟨bytes, none⟩ = .ok plan' ∧ small.planDocument plan' = .ok bytes := by
  obtain ⟨bytes, hsave⟩ := exists_planDocument standard_small rfl storable_smallPlan
  exact ⟨consistent_small, noReferences_leafDocument, loadPlan_leafDocument, bytes, hsave,
    planDocument_resaved small standard_small rfl consistent_small noReferences_leafDocument
      loadPlan_leafDocument hsave⟩

end Archive

end PlanArchive
