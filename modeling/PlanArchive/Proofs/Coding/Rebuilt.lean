import PlanArchive.Proofs.Coding.Gathered

/-!
# What coders rebuild

Reading lets names pass as they stand in the elements. What a coder sees to is that the type is
known, and that entries and fields are where it puts them (`rebuilt_decodeRoot`).
-/

namespace PlanArchive.Coding.Decoder

open Markup Naming

/-- The name of an element, or of an attribute without a meaning of its own. -/
def NamedIn (elements : List Element) (name : String) : Prop :=
  ∃ root ∈ elements, ∃ e : Element, e.Occurs root ∧
    (name = e.name ∨ name ∈ Keyed.keys e.attributes ∧ isReserved name = false)

/-- A field with a text under a name that can be written. -/
def Caption (field : String × Value) : Prop :=
  isName field.1 = true ∧ ∃ s, field.2 = .text s

/-- Where a coder puts fields and entries. -/
def RebuiltAs (fields : List (String × Value)) (entries : List Value) : Coder → Prop
  | .text | .plan => False
  | .envelope => (∀ field ∈ fields, Caption field) ∧ ∃ plan, entries = [.plan plan]
  | .wrapper => ∀ field ∈ fields, Caption field
  | .sample => True
  | .object => ∀ field ∈ fields, field.1 ≠ entriesTag

/-- What is known of a value that was read, apart from what is in it. -/
def Rebuilt (decoder : Decoder) (elements : List Element) : Value → Prop
  | .null | .text _ => True
  | .object typeId fields entries =>
    (∃ binding, decoder.resolver.known.get? typeId = some binding) ∧
      (∀ field ∈ fields, NamedIn elements field.1) ∧
      RebuiltAs fields entries (decoder.roster.coderFor typeId)
  | .plan _ => ∃ binding, decoder.resolver.known.get? treeType = some binding

section

variable {decoder : Decoder} {elements : List Element}

/-! ## Names -/

theorem namedIn_child {e root child : Element} (hroot : root ∈ elements) (he : e.Occurs root)
    (hchild : child ∈ e.children) : NamedIn elements child.name :=
  ⟨root, hroot, child, (Element.Occurs.of_mem hchild).trans he, Or.inl rfl⟩

theorem namedIn_attribute {e root : Element} (hroot : root ∈ elements) (he : e.Occurs root)
    {key value : String} (hmem : (key, value) ∈ e.attributes) (hkey : isReserved key = false) :
    NamedIn elements key :=
  ⟨root, hroot, e, he, Or.inr ⟨List.mem_map.mpr ⟨_, hmem, rfl⟩, hkey⟩⟩

theorem names_of_layout : ∀ key ∈ [versionKey, propertiesKey, applicationKey],
    isName key = true ∧ isReserved key = false := by
  decide

theorem envelopeFields_from {e root : Element} (hroot : root ∈ elements) (he : e.Occurs root)
    {field : String × Value} (h : field ∈ envelopeFields e.attributes) :
    NamedIn elements field.1 ∧ Caption field := by
  obtain ⟨key, hmem, hkey⟩ := List.mem_filterMap.mp h
  obtain ⟨s, hs, rfl⟩ := Option.map_eq_some_iff.mp hkey
  obtain ⟨hname, hreserved⟩ := names_of_layout key hmem
  exact ⟨namedIn_attribute hroot he (Keyed.mem_of_find? hs) hreserved, hname, s, rfl⟩

theorem wrapperFields_from {e root : Element} (hroot : root ∈ elements) (he : e.Occurs root)
    {field : String × Value} (h : field ∈ wrapperFields e.attributes) :
    NamedIn elements field.1 ∧ Caption field := by
  obtain ⟨s, hs, rfl⟩ := Option.map_eq_some_iff.mp (Option.mem_toList.mp h)
  obtain ⟨hname, hreserved⟩ := names_of_layout versionKey (by simp)
  exact ⟨namedIn_attribute hroot he (Keyed.mem_of_find? hs) hreserved, hname, s, rfl⟩

theorem sampleFields_from {e root : Element} (hroot : root ∈ elements) (he : e.Occurs root)
    {field : String × Value} (h : field ∈ sampleFields e.attributes) :
    NamedIn elements field.1 := by
  obtain ⟨pair, hpair, rfl⟩ := List.mem_map.mp (Keyed.mem_ofPairs h)
  obtain ⟨hmem, hreserved⟩ := List.mem_filter.mp hpair
  exact namedIn_attribute hroot he hmem (by simpa using hreserved)

/-! ## Values -/

theorem rebuilt_of_readWith {e root : Element} (hroot : root ∈ elements) (he : e.Occurs root)
    {path : List String} {binding : Binding} {v : Value}
    (hknown : decoder.resolver.known.get? binding.typeId = some binding)
    (h : Gives (decoder.readWith path (decoder.roster.coderFor binding.typeId) binding.typeId e)
      v) : decoder.Rebuilt elements v := by
  cases hcoder : decoder.roster.coderFor binding.typeId with
  | text =>
    rw [hcoder, readWith] at h
    split at h
    · obtain rfl := gives_pure h
      trivial
    · exact absurd h not_gives_refuse
  | plan =>
    have htype : binding.typeId = treeType :=
      beq_iff_eq.mp (Roster.claims_of_coderFor hcoder)
    rw [hcoder] at h
    obtain ⟨plan, -, h⟩ := gives_bind h
    obtain rfl := gives_pure h
    exact ⟨binding, htype ▸ hknown⟩
  | envelope =>
    have htype : binding.typeId = envelopeType :=
      beq_iff_eq.mp (Roster.claims_of_coderFor hcoder)
    rw [hcoder] at h
    obtain ⟨found, -, h⟩ := gives_bind h
    cases found with
    | none => exact absurd h not_gives_refuse
    | some plan =>
      obtain rfl := gives_pure h
      have hfields : ∀ field ∈ envelopeFields e.attributes,
          NamedIn elements field.1 ∧ Caption field := fun _ => envelopeFields_from hroot he
      refine ⟨⟨binding, htype ▸ hknown⟩, fun field hfield => (hfields field hfield).1, ?_⟩
      rw [← htype, hcoder]
      exact ⟨fun field hfield => (hfields field hfield).2, plan, rfl⟩
  | wrapper =>
    rw [hcoder] at h
    obtain ⟨records, -, h⟩ := gives_bind h
    obtain rfl := gives_pure h
    have hfields : ∀ field ∈ wrapperFields e.attributes,
        NamedIn elements field.1 ∧ Caption field := fun _ => wrapperFields_from hroot he
    refine ⟨⟨binding, hknown⟩, fun field hfield => (hfields field hfield).1, ?_⟩
    rw [hcoder]
    exact fun field hfield => (hfields field hfield).2
  | sample =>
    rw [hcoder] at h
    obtain ⟨⟨fields, entries⟩, hparts, h⟩ := gives_bind h
    obtain rfl := gives_pure h
    have hnames : Ensures anyLedger
        (decoder.decodeSample path (sampleFields e.attributes) e.children)
        (Parts (fun field => NamedIn elements field.1) fun _ => True) :=
      ensures_decodeSample
        (fun _ hchild _ => ensures_of_gives fun _ _ => namedIn_child hroot he hchild)
        (fun _ _ _ => ensures_of_gives fun _ _ => trivial) (Keyed.nodup_ofPairs _)
        fun _ => sampleFields_from hroot he
    refine ⟨⟨binding, hknown⟩, (hnames.of_gives hparts).fields, ?_⟩
    rw [hcoder]
    trivial
  | object =>
    rw [hcoder, readWith] at h
    split at h
    · exact absurd h not_gives_refuse
    · obtain ⟨⟨fields, entries⟩, hparts, h⟩ := gives_bind h
      obtain rfl := gives_pure h
      have hnames : Ensures anyLedger (decoder.decodeParts path [] e.children)
          (Parts (fun field => NamedIn elements field.1 ∧ field.1 ≠ entriesTag) fun _ => True) :=
        ensures_decodeParts
          (fun _ hchild hne => ensures_of_gives fun _ _ => ⟨namedIn_child hroot he hchild, hne⟩)
          (fun _ _ _ _ _ => ensures_of_gives fun _ _ => trivial) List.nodup_nil
          (List.forall_mem_nil _)
      have hfields := (hnames.of_gives hparts).fields
      refine ⟨⟨binding, hknown⟩, fun field hfield => (hfields field hfield).1, ?_⟩
      rw [hcoder]
      exact fun field hfield => (hfields field hfield).2

theorem makes_rebuilt : decoder.Makes elements (decoder.Rebuilt elements) where
  text := fun _ => trivial
  leaf := fun binding hknown => ⟨binding, hknown⟩
  read := fun _ hroot _ he _ _ _ h => by
    obtain ⟨-, s, rfl⟩ | ⟨-, rfl⟩ | ⟨tag, binding, -, hbinding, -, h⟩ := gives_readTyped h
    · trivial
    · trivial
    · exact rebuilt_of_readWith hroot he (Resolver.known_of_binding hbinding) h

/-- Whatever is decoded was rebuilt, at every depth. -/
theorem rebuilt_decodeRoot {e : Element} (he : e ∈ elements) {v : Value}
    (h : (decoder.decodeRoot e).1 = .ok v) : v.Everywhere (decoder.Rebuilt elements) :=
  (gathers_decodeRoot makes_rebuilt he).2 v h

end

end PlanArchive.Coding.Decoder
