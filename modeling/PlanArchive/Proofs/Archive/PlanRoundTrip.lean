import PlanArchive.Proofs.Archive.Document

/-!
# Plans that survive saving

A storable plan can be saved, and loading what was saved gives back the very same plan
(`loadPlan_planDocument`).
-/

namespace PlanArchive.Archive

open Coding Naming Markup

/-- The tag of a type can be written and read, and is read as the type. -/
def NamedBack (archive : Archive) (typeId : String) : Prop :=
  isName (archive.resolver.tagFor typeId) = true ∧ archive.resolver.Resolves typeId

/-- What is asked of every value in a storable plan, apart from what is in it. -/
def StorablePart (archive : Archive) : Value → Prop
  | .null | .text _ => True
  | .object typeId fields _ =>
    archive.roster.dedicated? typeId = none ∧
      (∀ binding, archive.resolver.known.get? typeId = some binding →
        binding.needsCoder = false) ∧
      archive.NamedBack typeId ∧ (Keyed.keys fields).Nodup ∧
      ∀ field ∈ fields, isName field.1 = true ∧ field.1 ≠ entriesTag
  | .plan branches => ∀ b ∈ branches, b.element.isPlan = false

/-- A plan of plain objects with distinct names, all of which have tags of their own. -/
structure Storable (archive : Archive) (plan : Plan) : Prop where
  types : ∀ typeId ∈ [textType, treeType, envelopeType], archive.NamedBack typeId
  null : archive.resolver.binding? nullTag = none
  parts : Value.Everywhere archive.StorablePart (.plan plan)

section

variable {archive : Archive}

theorem namedBack_of_storablePart
    (htypes : ∀ typeId ∈ [textType, treeType, envelopeType], archive.NamedBack typeId)
    {v : Value} (h : archive.StorablePart v) {typeId : String} (htype : v.typeId? = some typeId) :
    archive.NamedBack typeId := by
  cases v with
  | null => cases htype
  | text s => exact Option.some.inj htype ▸ htypes textType (by simp)
  | object => exact Option.some.inj htype ▸ h.2.2.1
  | plan => exact Option.some.inj htype ▸ htypes treeType (by simp)

/-! ## Saving -/

theorem isName_tagOf
    (htypes : ∀ typeId ∈ [textType, treeType, envelopeType], archive.NamedBack typeId)
    {v : Value} (h : archive.StorablePart v) : isName (tagOf archive.resolver v) = true := by
  unfold tagOf
  cases htype : v.typeId? with
  | none => exact Encoder.isName_nullTag
  | some typeId => exact (namedBack_of_storablePart htypes h htype).1

theorem heldInTexts_of_storable (hroster : archive.roster.Standard) {v : Value}
    (h : archive.StorablePart v) : (archive.encoder none).HeldInTexts v := by
  cases v with
  | object typeId fields entries =>
    intro hcoder
    have hobject : (archive.encoder none).roster.coderFor typeId = .object :=
      hroster.coderFor_object_iff.mpr h.1
    simp [hobject] at hcoder
  | _ => trivial

theorem writable_of_storable (hroster : archive.roster.Standard) {plan : Plan}
    (h : archive.Storable plan) :
    Value.Everywhere (archive.encoder none).Writable (.plan plan) := by
  have htagged : ∀ v, Value.Occurs v (.plan plan) → (archive.encoder none).Tagged v :=
    fun v hv => isName_tagOf h.types (h.parts v hv)
  intro v hv
  have hpart := h.parts v hv
  cases v with
  | null => trivial
  | text s => trivial
  | object typeId fields entries =>
    obtain ⟨hdedicated, -, -, -, hnames⟩ := hpart
    have hobject : (archive.encoder none).roster.coderFor typeId = .object :=
      hroster.coderFor_object_iff.mpr hdedicated
    refine ⟨?_, fun entry hentry => htagged entry ((Value.Occurs.entry hentry .here).trans hv)⟩
    rw [hobject]
    exact fun field hfield => ⟨(hnames field hfield).2, (hnames field hfield).1,
      fun _ => htagged field.2 ((Value.Occurs.field hfield .here).trans hv)⟩
  | plan branches =>
    exact ⟨(h.types treeType (by simp)).1, fun b hb =>
      ⟨hpart b hb, htagged b.element ((Value.Occurs.element hb .here).trans hv)⟩⟩

/-- A storable plan can be saved. -/
theorem exists_planDocument (hroster : archive.roster.Standard)
    (hcharset : archive.charset = .ok .utf8) {plan : Plan} (h : archive.Storable plan) :
    ∃ bytes, archive.planDocument plan = .ok bytes := by
  have htexts : Value.Everywhere (archive.encoder none).HeldInTexts (.plan plan) :=
    h.parts.mono fun _ => heldInTexts_of_storable hroster
  exact (exists_planDocument_iff hcharset hroster htexts).mpr
    ⟨(h.types envelopeType (by simp)).1, writable_of_storable hroster h⟩

/-! ## Loading -/

theorem legible_of_storable (hroster : archive.roster.Standard) {plan : Plan}
    (h : archive.Storable plan) :
    Value.Everywhere (archive.decoder .document).Legible (.plan plan) := by
  have htyped : ∀ v, Value.Occurs v (.plan plan) → Typed archive.resolver v := fun v hv _ htype =>
    (namedBack_of_storablePart h.types (h.parts v hv) htype).2
  intro v hv
  have hpart := h.parts v hv
  cases v with
  | null => trivial
  | text s => trivial
  | object typeId fields entries =>
    obtain ⟨hdedicated, hplain, ⟨-, hresolves⟩, hnodup, -⟩ := hpart
    refine ⟨hresolves, ?_, fun entry hentry =>
      htyped entry ((Value.Occurs.entry hentry .here).trans hv)⟩
    show Decoder.LegibleFor _ _ _ _ (archive.roster.coderFor typeId)
    rw [hroster.coderFor_object_iff.mpr hdedicated]
    obtain ⟨-, needsCoder, hbinding⟩ := hresolves
    obtain rfl : needsCoder = false := hplain _ (Resolver.known_of_binding hbinding)
    exact ⟨hbinding, hnodup⟩
  | plan branches =>
    refine ⟨(h.types treeType (by simp)).2, fun b hb => ?_⟩
    have hoccurs : Value.Occurs b.element (.plan plan) := (Value.Occurs.element hb .here).trans hv
    refine ⟨htyped _ hoccurs, Decoder.isSubtree_tagOf (htyped _ hoccurs) (fun _ => ?_) ?_⟩
    · show (archive.resolver.binding? nullTag).any _ = false
      rw [h.null]
      rfl
    · have helement := h.parts _ hoccurs
      have hplan := hpart b hb
      generalize b.element = element at helement hplan
      cases element with
      | null => rintro ⟨⟩
      | text s => exact fun e => absurd (Option.some.inj e) (by decide)
      | object typeId fields entries =>
        intro e
        obtain rfl : typeId = treeType := Option.some.inj e
        rw [StorablePart, hroster.dedicated_plan] at helement
        cases helement.1
      | plan => cases hplan

/-- A storable plan is saved, and what was saved is loaded as the same plan. -/
theorem loadPlan_planDocument (archive : Archive) (hroster : archive.roster.Standard)
    (hcharset : archive.charset = .ok .utf8) {plan : Plan} (h : archive.Storable plan) :
    ∃ bytes, ({} : Sink).save (archive.planDocument plan) = ({ taken := bytes }, .ok ()) ∧
      archive.loadPlan ⟨bytes, none⟩ = .ok plan := by
  obtain ⟨bytes, hbytes⟩ := exists_planDocument hroster hcharset h
  have hplain : Value.Everywhere (Plain archive.roster) (.plan plan) :=
    h.parts.mono fun v hv typeId fields entries heq => by
      rw [heq] at hv
      exact hroster.coderFor_object_iff.mpr hv.1
  have hsettle : settlePlan archive.roster plan = plan := by
    have hself := settle_eq_self hplain
    rw [settle, Value.plan.injEq] at hself
    exact hself
  refine ⟨bytes, ?_, ?_⟩
  · rw [hbytes]
    rfl
  · have hload := loadPlan_of_legible hcharset hroster (h.types envelopeType (by simp)).2
      (legible_of_storable hroster h) hbytes
    rwa [hsettle] at hload

end

/-- A plan of one element. -/
def smallPlan : Plan := [.mk (.object "TestPlan" [("name", .text "home")] []) []]

theorem storable_smallPlan : small.Storable smallPlan where
  types := by
    simp only [List.forall_mem_cons]
    exact ⟨⟨by decide, by decide, false, rfl⟩, ⟨by decide, by decide, true, rfl⟩,
      ⟨by decide, by decide, true, rfl⟩, List.forall_mem_nil _⟩
  null := rfl
  parts := by
    have hobject : small.StorablePart (.object "TestPlan" [("name", .text "home")] []) := by
      refine ⟨by decide, fun binding hbinding => ?_, ⟨by decide, by decide, false, rfl⟩, by decide,
        by decide⟩
      rw [← Option.some.inj hbinding]
    refine Value.everywhere_plan.mpr ⟨List.forall_mem_singleton.mpr rfl,
      List.forall_mem_singleton.mpr
        ⟨?_, Value.everywhere_plan_nil.mpr (List.forall_mem_nil _)⟩⟩
    exact Value.everywhere_object.mpr
      ⟨hobject, List.forall_mem_singleton.mpr (Value.everywhere_text.mpr trivial),
        List.forall_mem_nil _⟩

theorem loadPlan_planDocument_small : small.Storable smallPlan ∧
    ∃ bytes, ({} : Sink).save (small.planDocument smallPlan) = ({ taken := bytes }, .ok ()) ∧
      small.loadPlan ⟨bytes, none⟩ = .ok smallPlan :=
  ⟨storable_smallPlan, loadPlan_planDocument small standard_small rfl storable_smallPlan⟩

end PlanArchive.Archive
