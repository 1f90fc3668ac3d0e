import PlanArchive.Proofs.Archive.Resave
import PlanArchive.Proofs.Coding.Rebuilt

/-!
# What loads can be saved

Where tags are consistent, a plan that was loaded can be saved unless a field has a name that cannot
be written, or a reference has put a plan or a text where none can stand (`planDocument_loaded`).
Reading does not check names, and writing does.
-/

namespace PlanArchive.Archive

open Coding Naming Markup

/-- If the value is a text, it has a tag to stand on its own with. -/
def TextTagged (archive : Archive) (v : Value) : Prop :=
  v.text?.isSome = true → isName (archive.resolver.tagFor textType) = true

/-- What is asked of every value in a plan that was loaded, apart from what is in it. -/
def SavablePart (archive : Archive) : Value → Prop
  | .null | .text _ => True
  | .object typeId fields entries =>
    (∀ field ∈ fields, isName field.1 = true ∧ (archive.roster.coderFor typeId = .sample →
      field.2.text?.isSome = true → isReserved field.1 = false)) ∧
      ∀ entry ∈ entries, archive.TextTagged entry
  | .plan branches => ∀ b ∈ branches, b.element.isPlan = false ∧ archive.TextTagged b.element

/-- A document of names that can be written, none of which has a meaning as an attribute, and
without references. -/
structure Tidy (archive : Archive) (source : Source) : Prop where
  names : ∀ name, Decoder.NamedIn (archive.elementsIn source) name →
    isName name = true ∧ isReserved name = false
  references : archive.NoReferences source

section

variable {archive : Archive} {elements : List Element} {source : Source} {plan : Plan}

theorem known_of_rebuilt {v : Value} (h : (archive.decoder .document).Rebuilt elements v)
    (htext : v.text? = none) {typeId : String} (htype : v.typeId? = some typeId) :
    ∃ binding, archive.resolver.known.get? typeId = some binding := by
  cases v with
  | null => cases htype
  | text s => cases htext
  | object => exact Option.some.inj htype ▸ h.1
  | plan => exact Option.some.inj htype ▸ h

/-- Only a text may be without a tag. -/
theorem tagged_iff (hconsistent : archive.resolver.Consistent) {v : Value}
    (h : (archive.decoder .document).Rebuilt elements v) :
    (archive.encoder none).Tagged v ↔ archive.TextTagged v := by
  cases htext : v.text? with
  | none =>
    refine iff_of_true ?_ (by simp [TextTagged, htext])
    rw [Encoder.Tagged, tagOf]
    cases htype : v.typeId? with
    | none => exact Encoder.isName_nullTag
    | some typeId =>
      obtain ⟨binding, hknown⟩ := known_of_rebuilt h htext htype
      exact (hconsistent.types typeId binding hknown).1
  | some s =>
    cases v with
    | text s => exact (imp_iff_right rfl).symm
    | _ => cases htext

theorem heldInTexts_of_rebuilt {v : Value}
    (h : (archive.decoder .document).Rebuilt elements v) : (archive.encoder none).HeldInTexts v := by
  cases v with
  | object typeId fields entries =>
    intro (hcoder : archive.roster.coderFor typeId = .envelope ∨
      archive.roster.coderFor typeId = .wrapper) field hfield
    have hrebuilt : Decoder.RebuiltAs fields entries (archive.roster.coderFor typeId) := h.2.2
    rcases hcoder with hcoder | hcoder
    · rw [hcoder] at hrebuilt
      exact (hrebuilt.1 field hfield).2
    · rw [hcoder] at hrebuilt
      exact (hrebuilt field hfield).2
  | _ => trivial

/-- Of all that writing asks for, reading leaves open but the names and what references do. -/
theorem writable_iff (hconsistent : archive.resolver.Consistent) {v : Value}
    (h : v.Everywhere ((archive.decoder .document).Rebuilt elements)) :
    (archive.encoder none).Writable v ↔ archive.SavablePart v := by
  cases v with
  | null => exact Iff.rfl
  | text s => exact Iff.rfl
  | object typeId fields entries =>
    obtain ⟨hhere, hfields, hentries⟩ := Value.everywhere_object.mp h
    have hrebuilt : Decoder.RebuiltAs fields entries (archive.roster.coderFor typeId) := hhere.2.2
    have htagged : ∀ field ∈ fields, field.2.text? = none →
        (archive.encoder none).Tagged field.2 := fun field hfield htext =>
      (tagged_iff hconsistent (hfields field hfield).here).mpr (by simp [TextTagged, htext])
    refine and_congr ?_
      (forall₂_congr fun entry hentry => tagged_iff hconsistent (hentries entry hentry).here)
    show (archive.encoder none).WritableAs fields entries (archive.roster.coderFor typeId) ↔ _
    cases hcoder : archive.roster.coderFor typeId with
    | text =>
      rw [hcoder] at hrebuilt
      exact hrebuilt.elim
    | plan =>
      rw [hcoder] at hrebuilt
      exact hrebuilt.elim
    | envelope =>
      rw [hcoder] at hrebuilt
      exact iff_of_true hrebuilt.2 fun field hfield =>
        ⟨(hrebuilt.1 field hfield).1, by rintro ⟨⟩⟩
    | wrapper =>
      rw [hcoder] at hrebuilt
      exact iff_of_true trivial fun field hfield => ⟨(hrebuilt field hfield).1, by rintro ⟨⟩⟩
    | sample =>
      refine forall₂_congr fun field hfield => and_congr_right fun _ => ?_
      constructor
      · rintro ⟨hown, -⟩ _
        exact hown
      · intro hown
        exact ⟨hown rfl, htagged field hfield⟩
    | object =>
      rw [hcoder] at hrebuilt
      refine forall₂_congr fun field hfield => ?_
      constructor
      · rintro ⟨-, hname, -⟩
        exact ⟨hname, by rintro ⟨⟩⟩
      · rintro ⟨hname, -⟩
        exact ⟨hrebuilt field hfield, hname, htagged field hfield⟩
  | plan branches =>
    obtain ⟨⟨binding, hknown⟩, hbranches⟩ := Value.everywhere_plan.mp h
    refine (and_iff_right (hconsistent.types treeType binding hknown).1).trans ?_
    exact forall₂_congr fun b hb =>
      and_congr_right fun _ => tagged_iff hconsistent (hbranches b hb).1.here

theorem rebuilt_of_loadPlan (h : archive.loadPlan source = .ok plan) :
    (∃ binding, archive.resolver.known.get? envelopeType = some binding) ∧
      Value.Everywhere ((archive.decoder .document).Rebuilt (archive.elementsIn source))
        (.plan plan) := by
  obtain ⟨root, value, envelope, hroot, henvelope, rfl⟩ := loadPlan_eq_ok.mp h
  obtain ⟨hmem, hdecode⟩ := mem_elementsIn_of_loadRoot hroot
  have hrebuilt := Decoder.rebuilt_decodeRoot hmem hdecode
  refine ⟨?_, fun w hw => hrebuilt w (hw.trans (Envelope.occurs_plan henvelope))⟩
  obtain ⟨fields, entries, rfl, -⟩ := Envelope.exists_object henvelope
  exact hrebuilt.here.1

theorem savable_of_tidy (hroster : archive.roster.Standard)
    (hconsistent : archive.resolver.Consistent) (htidy : archive.Tidy source)
    (h : archive.loadPlan source = .ok plan) :
    Value.Everywhere archive.SavablePart (.plan plan) := by
  obtain ⟨-, hlegible⟩ := legible_of_loadPlan hroster hconsistent htidy.references h
  obtain ⟨-, hrebuilt⟩ := rebuilt_of_loadPlan h
  have htexts : ∀ v, Typed archive.resolver v → archive.TextTagged v := by
    intro v htyped htext
    cases v with
    | text s =>
      obtain ⟨-, needsCoder, hbinding⟩ := htyped textType rfl
      exact (hconsistent.types textType _ (Resolver.known_of_binding hbinding)).1
    | _ => cases htext
  intro v hv
  cases v with
  | null => trivial
  | text s => trivial
  | object typeId fields entries =>
    obtain ⟨-, -, htyped⟩ := hlegible _ hv
    obtain ⟨-, hnames, -⟩ := hrebuilt _ hv
    refine ⟨fun field hfield => ?_, fun entry hentry => htexts entry (htyped entry hentry)⟩
    obtain ⟨hname, hown⟩ := htidy.names field.1 (hnames field hfield)
    exact ⟨hname, fun _ _ => hown⟩
  | plan branches =>
    obtain ⟨htree, hbranches⟩ := hlegible _ hv
    intro b hb
    obtain ⟨htyped, hsubtree⟩ := hbranches b hb
    refine ⟨?_, htexts _ htyped⟩
    -- a plan would stand under the tag of a subtree
    cases helement : b.element with
    | plan below =>
      rw [helement] at hsubtree
      cases (Decoder.isSubtree_of_resolves htree).symm.trans hsubtree
    | _ => rfl

theorem exists_planDocument_iff_savable (hroster : archive.roster.Standard)
    (hcharset : archive.charset = .ok .utf8) (hconsistent : archive.resolver.Consistent)
    (h : archive.loadPlan source = .ok plan) :
    (∃ bytes, archive.planDocument plan = .ok bytes) ↔
      Value.Everywhere archive.SavablePart (.plan plan) := by
  obtain ⟨⟨binding, henvelope⟩, hrebuilt⟩ := rebuilt_of_loadPlan h
  have hheld : Value.Everywhere (archive.encoder none).HeldInTexts (.plan plan) :=
    hrebuilt.mono fun _ => heldInTexts_of_rebuilt
  rw [exists_planDocument_iff hcharset hroster hheld,
    and_iff_right (hconsistent.types envelopeType binding henvelope).1]
  exact forall₂_congr fun w hw => writable_iff hconsistent fun u hu => hrebuilt u (hu.trans hw)

end

/-- A plan that was loaded can be saved just when the names of its fields can be written, its
samples have no text under a name with a meaning of its own, and no reference has put a plan in the
place of an element or a text without a tag in the place of an element or entry. A document without
references and without such names gives a plan that can be saved. -/
theorem planDocument_loaded (archive : Archive) (hroster : archive.roster.Standard)
    (hcharset : archive.charset = .ok .utf8) (hconsistent : archive.resolver.Consistent)
    {source : Source} {plan : Plan} (hload : archive.loadPlan source = .ok plan) :
    ((∃ bytes, archive.planDocument plan = .ok bytes) ↔
        Value.Everywhere archive.SavablePart (.plan plan)) ∧
      (archive.Tidy source → ∃ bytes, archive.planDocument plan = .ok bytes) := by
  have hsave := exists_planDocument_iff_savable hroster hcharset hconsistent hload
  exact ⟨hsave, fun htidy => hsave.mpr (savable_of_tidy hroster hconsistent htidy hload)⟩

theorem tidy_leafDocument : small.Tidy leafDocument where
  names := by
    rw [elementsIn_leafDocument]
    rintro name ⟨root, hroot, e, he, hname⟩
    obtain rfl := List.mem_singleton.mp hroot
    obtain ⟨hnamed, hattributes⟩ := plain_leafRoot e he
    rcases hname with rfl | ⟨hkey, -⟩
    · exact hnamed
    · rw [hattributes] at hkey
      cases hkey
  references := noReferences_leafDocument

theorem planDocument_loaded_small : small.resolver.Consistent ∧
    small.loadPlan leafDocument = .ok smallPlan ∧ small.Tidy leafDocument ∧
      (∃ bytes, small.planDocument smallPlan = .ok bytes) ∧
        Value.Everywhere small.SavablePart (.plan smallPlan) := by
  obtain ⟨hsave, htidy⟩ := planDocument_loaded small standard_small rfl consistent_small
    loadPlan_leafDocument
  exact ⟨consistent_small, loadPlan_leafDocument, tidy_leafDocument, htidy tidy_leafDocument,
    hsave.mp (htidy tidy_leafDocument)⟩

/-! ## What is loaded and not saved -/

/-- The document is loaded, and what was loaded is not saved. -/
def Strands (archive : Archive) (source : Source) : Prop :=
  ∃ plan, archive.loadPlan source = .ok plan ∧ ∀ bytes, archive.planDocument plan ≠ .ok bytes

theorem strands_of_not_savable {archive : Archive} (hroster : archive.roster.Standard)
    (hcharset : archive.charset = .ok .utf8) (hconsistent : archive.resolver.Consistent)
    {source : Source} {root : Element} (helements : elementsOf .utf8 source = .ok [root])
    (plan : Plan)
    (hdecode : ((archive.decoder .document).decodeRoot root).1 =
      .ok (.object envelopeType [] [.plan plan]))
    (h : ¬Value.Everywhere archive.SavablePart (.plan plan)) : archive.Strands source := by
  have hload : archive.loadPlan source = .ok plan :=
    loadPlan_eq_ok.mpr ⟨root, .object envelopeType [] [.plan plan], _,
      loadRoot_eq_ok.mpr ⟨.utf8, hcharset, helements, hdecode⟩, rfl, rfl⟩
  refine ⟨plan, hload, fun bytes hbytes => h ?_⟩
  exact (exists_planDocument_iff_savable hroster hcharset hconsistent hload).mp ⟨bytes, hbytes⟩

/-- A document of a plan with the given elements. -/
def documentOf (elements : String) : Source :=
  ⟨Text.Utf8.encode ("<jmeterTestPlan><hashTree>" ++ elements ++
    "</hashTree></jmeterTestPlan>").toList, none⟩

def rootOf (elements : List Element) : Element :=
  ⟨"jmeterTestPlan", [], none, [⟨"hashTree", [], none, elements, 1⟩], 1⟩

/-- A field has a name that cannot be written. -/
def numbered : Source := documentOf "<TestPlan><1abc>x</1abc></TestPlan>"

set_option maxRecDepth 20000 in
theorem elementsOf_numbered : elementsOf .utf8 numbered = .ok [rootOf
    [⟨"TestPlan", [], none, [⟨"1abc", [], some "x", [], 1⟩], 1⟩]] := by
  rfl

theorem strands_numbered : small.Strands numbered := by
  refine strands_of_not_savable standard_small rfl consistent_small elementsOf_numbered
    [.mk (.object "TestPlan" [("1abc", .text "x")] []) []] rfl ?_
  intro h
  have hobject := h (.object "TestPlan" _ _) (.element (List.mem_cons_self ..) .here)
  exact absurd (hobject.1 _ (List.mem_cons_self ..)).1 (by decide +kernel)

/-- A text of a sample has a name with a meaning of its own. -/
def classed : Source := documentOf "<sample><class>x</class></sample>"

set_option maxRecDepth 20000 in
theorem elementsOf_classed : elementsOf .utf8 classed = .ok [rootOf
    [⟨"sample", [], none, [⟨"class", [], some "x", [], 1⟩], 1⟩]] := by
  rfl

theorem strands_classed : small.Strands classed := by
  refine strands_of_not_savable standard_small rfl consistent_small elementsOf_classed
    [.mk (.object sampleType [("class", .text "x")] []) []] rfl ?_
  intro h
  have hsample : small.roster.coderFor sampleType = .sample := by decide
  have hobject := h (.object sampleType _ _) (.element (List.mem_cons_self ..) .here)
  cases (hobject.1 _ (List.mem_cons_self ..)).2 hsample rfl

/-- An element refers to a plan. -/
def doubled : Source :=
  documentOf "<TestPlan><p class=\"hashTree\" id=\"1\"/></TestPlan><TestPlan reference=\"1\"/>"

set_option maxRecDepth 20000 in
theorem elementsOf_doubled : elementsOf .utf8 doubled = .ok [rootOf
    [⟨"TestPlan", [], none, [⟨"p", [("class", "hashTree"), ("id", "1")], none, [], 1⟩], 1⟩,
      ⟨"TestPlan", [("reference", "1")], none, [], 1⟩]] := by
  rfl

theorem strands_doubled : small.Strands doubled := by
  refine strands_of_not_savable standard_small rfl consistent_small elementsOf_doubled
    [.mk (.object "TestPlan" [("p", .plan [])] []) [], .mk (.plan []) []] rfl ?_
  intro h
  cases (h.here _ (List.mem_cons_of_mem _ (List.mem_cons_self ..))).1

/-- The small archive without texts among its types, and with a tag for them that is no name. -/
def textless : Archive :=
  { small with
    resolver :=
      { small.resolver with
        tags := { small.resolver.tags with
          primaries := (textType, "1") :: small.resolver.tags.primaries }
        known := ⟨small.resolver.known.types.drop 1⟩ } }

theorem standard_textless : textless.roster.Standard := standard_small

theorem consistent_textless : textless.resolver.Consistent :=
  Resolver.consistent_of_forall (by decide +kernel) rfl

/-- An element refers to a text. -/
def captioned : Source :=
  documentOf "<TestPlan><p id=\"1\">x</p></TestPlan><TestPlan reference=\"1\"/>"

set_option maxRecDepth 20000 in
theorem elementsOf_captioned : elementsOf .utf8 captioned = .ok [rootOf
    [⟨"TestPlan", [], none, [⟨"p", [("id", "1")], some "x", [], 1⟩], 1⟩,
      ⟨"TestPlan", [("reference", "1")], none, [], 1⟩]] := by
  rfl

theorem strands_captioned : textless.Strands captioned := by
  refine strands_of_not_savable standard_textless rfl consistent_textless elementsOf_captioned
    [.mk (.object "TestPlan" [("p", .text "x")] []) [], .mk (.text "x") []] rfl ?_
  intro h
  exact absurd ((h.here _ (List.mem_cons_of_mem _ (List.mem_cons_self ..))).2 rfl) (by decide +kernel)

/-- Each of the four reasons not to save a plan is met by what loads. -/
theorem loaded_not_saved :
    (small.roster.Standard ∧ Coder.sample ∈ small.roster.coders ∧ small.charset = .ok .utf8 ∧
      small.resolver.Consistent ∧ small.Strands numbered ∧ small.Strands classed ∧
      small.Strands doubled) ∧
    textless.roster.Standard ∧ textless.resolver.Consistent ∧ textless.Strands captioned :=
  ⟨⟨standard_small, by decide, rfl, consistent_small, strands_numbered, strands_classed,
    strands_doubled⟩, standard_textless, consistent_textless, strands_captioned⟩

end PlanArchive.Archive
