import PlanArchive.Proofs.Coding.Marks
import PlanArchive.Proofs.Coding.Overruled

/-!
# Elements annotated by an event

An annotated element has more attributes in its samples: the texts of the event under names that
are not there yet. Whether fields come of them depends on what the element is looked up as, by its
name or by its class (`Annotated`).
-/

namespace PlanArchive.Coding

open Markup Naming

/-! ## Attributes -/

/-- The same attributes and more: texts of the event, under names that are not reserved. -/
structure Noted (event : Event) (attributes others : List (String × String)) : Prop where
  kept : ∀ key text, Keyed.find? key attributes = some text → Keyed.find? key others = some text
  new : ∀ key text, Keyed.find? key others = some text → Keyed.find? key attributes = some text ∨
    isReserved key = false ∧ event.text? key = some text
  nodup : (Keyed.keys attributes).Nodup
  nodup' : (Keyed.keys others).Nodup

namespace Noted

variable {event : Event} {attributes others : List (String × String)}

theorem refl (h : (Keyed.keys attributes).Nodup) : Noted event attributes attributes :=
  ⟨fun _ _ => id, fun _ _ => .inl, h, h⟩

theorem reserved (h : Noted event attributes others) {key : String}
    (hkey : isReserved key = true) : Keyed.find? key others = Keyed.find? key attributes := by
  cases hfind : Keyed.find? key attributes with
  | some text => exact h.kept key text hfind
  | none =>
    cases hfind' : Keyed.find? key others with
    | none => rfl
    | some text =>
      rcases h.new key text hfind' with hold | ⟨hfree, -⟩
      · rw [hfind] at hold
        cases hold
      · rw [hkey] at hfree
        cases hfree

end Noted

/-! ## Elements -/

/-- The coder makes fields out of attributes. -/
def Coder.readsAttributes : Coder → Bool
  | .envelope | .wrapper | .sample => true
  | _ => false

namespace Decoder

/-- The type that what is looked up as `type` is read as. -/
def typeNamed? (decoder : Decoder) (type : Option String) : Option String :=
  (type.bind decoder.resolver.binding?).map Binding.typeId

/-- The second element is the first one on other lines, with more attributes. Where both are looked
up as `type`, attributes that only the second one has become fields of a `holder` if any. -/
inductive Annotated (decoder : Decoder) (event : Event) (holder : String → Prop) :
    Option String → Element → Element → Prop
  | mk {type : Option String} {name : String} {attributes others : List (String × String)}
    {text : Option String} {children children' : List Element} {line line' : Nat}
    (hnoted : Noted event attributes others)
    (hchildren : List.Forall₂ (fun child child' =>
      Annotated decoder event holder (child.attribute? classKey) child child') children children')
    (hheld : ∀ typeId, decoder.typeNamed? type = some typeId → others = attributes ∨
      ((decoder.roster.coderFor typeId).readsAttributes = true → holder typeId))
    (hslots : ∀ typeId, decoder.typeNamed? type = some typeId →
      List.Forall₂ (fun slot slot' =>
          Annotated decoder event holder (slot.1.typeOf slot.2) slot.2 slot'.2)
        (decoder.slots (decoder.roster.coderFor typeId) children)
        (decoder.slots (decoder.roster.coderFor typeId) children')) :
    Annotated decoder event holder type ⟨name, attributes, text, children, line⟩
      ⟨name, others, text, children', line'⟩

/-- Elements that are annotated where they are looked up by class. -/
def FieldAnnotated (decoder : Decoder) (event : Event) (holder : String → Prop)
    (child child' : Element) : Prop :=
  decoder.Annotated event holder (child.attribute? classKey) child child'

/-- Slots with elements that are annotated where they stand. -/
def SlotAnnotated (decoder : Decoder) (event : Event) (holder : String → Prop)
    (slot slot' : Part × Element) : Prop :=
  decoder.Annotated event holder (slot.1.typeOf slot.2) slot.2 slot'.2

section

variable {decoder : Decoder} {event : Event} {holder : String → Prop} {type : Option String}
  {e e' : Element}

theorem annotated_iff :
    decoder.Annotated event holder type e e' ↔
      e'.name = e.name ∧ e'.text = e.text ∧ Noted event e.attributes e'.attributes ∧
      List.Forall₂ (decoder.FieldAnnotated event holder) e.children e'.children ∧
      ∀ typeId, decoder.typeNamed? type = some typeId →
        (e'.attributes = e.attributes ∨
          ((decoder.roster.coderFor typeId).readsAttributes = true → holder typeId)) ∧
        List.Forall₂ (decoder.SlotAnnotated event holder)
          (decoder.slots (decoder.roster.coderFor typeId) e.children)
          (decoder.slots (decoder.roster.coderFor typeId) e'.children) := by
  obtain ⟨name, attributes, text, children, line⟩ := e
  obtain ⟨name', others, text', children', line'⟩ := e'
  constructor
  · rintro ⟨hnoted, hchildren, hheld, hslots⟩
    exact ⟨rfl, rfl, hnoted, hchildren, fun typeId h => ⟨hheld typeId h, hslots typeId h⟩⟩
  · rintro ⟨rfl, rfl, hnoted, hchildren, hread⟩
    exact .mk hnoted hchildren (fun typeId h => (hread typeId h).1) fun typeId h =>
      (hread typeId h).2

/-- Whatever the elements are looked up as, those below them are looked up by class. -/
theorem Annotated.untyped (h : decoder.Annotated event holder type e e') :
    decoder.Annotated event holder none e e' := by
  obtain ⟨hname, htext, hnoted, hchildren, -⟩ := annotated_iff.mp h
  exact annotated_iff.mpr ⟨hname, htext, hnoted, hchildren, fun _ => by rintro ⟨⟩⟩

/-- An element without children, with one that has the same attributes. -/
theorem annotated_leaf (hnodup : (Keyed.keys e.attributes).Nodup) (hnil : e.children = []) :
    decoder.Annotated event holder type e e := by
  refine annotated_iff.mpr ⟨rfl, rfl, .refl hnodup, ?_, fun typeId _ => ⟨.inl rfl, ?_⟩⟩
  · rw [hnil]
    exact .nil
  · rw [hnil]
    exact .nil

/-- Slots of annotated children are of the same parts. -/
theorem slots_annotated (h : decoder.Annotated event holder type e e') (c : Coder) :
    List.Forall₂ (fun slot slot' => slot.1 = slot'.1 ∧
        decoder.Annotated event holder none slot.2 slot'.2)
      (decoder.slots c e.children) (decoder.slots c e'.children) := by
  obtain ⟨-, -, -, hchildren, -⟩ := annotated_iff.mp h
  refine forall₂_slots ?_ c (hchildren.imp fun _ _ => Annotated.untyped)
  intro child child' hchild
  obtain ⟨hname, -, -, hchildren, -⟩ := annotated_iff.mp hchild
  exact ⟨hname, hchildren.imp fun _ _ => Annotated.untyped⟩

end

theorem claims_of_isSample {decoder : Decoder} {tag typeId : String}
    (h : decoder.isSample tag = true) (hnamed : decoder.typeNamed? (some tag) = some typeId) :
    Coder.sample.claims typeId = true := by
  obtain ⟨binding, hbinding, rfl⟩ := Option.map_eq_some_iff.mp hnamed
  rw [Option.bind_some] at hbinding
  rwa [isSample, hbinding] at h

/-- What stands in a sample is looked up by its class, or by the name of a sample. -/
theorem typeOf_partOf {decoder : Decoder} (hroster : decoder.roster.Standard) {typeId : String}
    {any : Prop} (hcoder : decoder.roster.coderFor typeId = .sample ∨ any) (child : Element) :
    (decoder.partOf (decoder.roster.coderFor typeId) child.name).typeOf child =
        child.attribute? classKey ∨
      (decoder.partOf (decoder.roster.coderFor typeId) child.name).typeOf child =
          some child.name ∧
        ∀ other, decoder.typeNamed? (some child.name) = some other →
          decoder.roster.coderFor other = .sample ∨ any := by
  rcases hcoder with hcoder | hany
  · rw [hcoder, partOf]
    split
    · rename_i hsample
      exact .inr ⟨rfl, fun other hnamed => .inl
        (hroster.coderFor_eq hcoder (by decide) (claims_of_isSample hsample hnamed))⟩
    · exact .inl rfl
  · exact (Part.typeOf_eq _ child).symm.imp id fun hname => ⟨hname, fun _ _ => .inr hany⟩

section

variable {decoder : Decoder} {event : Event} {holder : String → Prop}
  (hroster : decoder.roster.Standard)
  (hsamples : ∀ typeId, decoder.roster.coderFor typeId = .sample → holder typeId)

include hroster hsamples

/-- Annotated elements may also be looked up as samples, and as anything if anything is a holder.
By induction on the element: a sample looks up its children by class, or as samples again. -/
theorem Annotated.retyped {type type' : Option String} {e e' : Element}
    (h : decoder.Annotated event holder type e e')
    (htype : ∀ typeId, decoder.typeNamed? type' = some typeId →
      decoder.roster.coderFor typeId = .sample ∨ ∀ other, holder other) :
    decoder.Annotated event holder type' e e' := by
  induction e using Element.induct generalizing type type' e' with
  | step e ih =>
    obtain ⟨hname, htext, hnoted, hchildren, -⟩ := annotated_iff.mp h
    refine annotated_iff.mpr ⟨hname, htext, hnoted, hchildren, fun typeId hnamed => ?_⟩
    have hcoder := htype typeId hnamed
    refine ⟨.inr fun _ => hcoder.elim (hsamples typeId) (· typeId), ?_⟩
    refine List.rel_flatMap ((List.forall₂_and_left _ _).mpr ⟨fun _ => id, hchildren⟩) ?_
    rintro child child' ⟨hchild, hannotated⟩
    obtain ⟨hname, -, -, hentries, -⟩ := annotated_iff.mp hannotated
    unfold slotsOf
    rw [hname]
    split
    · exact .nil
    · split
      · rename_i hobject
        have hany := hcoder.resolve_left (by rw [hobject.1]; rintro ⟨⟩)
        rw [List.forall₂_map_left_iff, List.forall₂_map_right_iff]
        refine ((List.forall₂_and_left _ _).mpr ⟨fun _ => id, hentries⟩).imp ?_
        rintro entry entry' ⟨hentry, hannotated⟩
        exact (ih child hchild).2 entry hentry hannotated fun _ _ => .inr hany
      · refine .cons ?_ .nil
        unfold SlotAnnotated
        rcases typeOf_partOf hroster hcoder child with hclass | ⟨hnamed, hagain⟩
        · rwa [hclass]
        · rw [hnamed]
          exact (ih child hchild).1 hannotated hagain

end

/-- Annotated elements are read as annotated elements. -/
theorem Annotated.readAs {decoder : Decoder} {event : Event} {holder : String → Prop}
    {type : Option String} {e e' r r' : Element} (h : decoder.Annotated event holder type e e')
    (hread : e.ReadAs r) (hread' : e'.ReadAs r') :
    decoder.Annotated event holder type r r' := by
  induction e using Element.induct generalizing type e' r r' with
  | step e ih =>
    obtain ⟨hname, htext, hnoted, hchildren, hnamed⟩ := annotated_iff.mp h
    have hslots : ∀ {e r : Element}, e.ReadAs r → ∀ c : Coder,
        List.Forall₂ (fun slot slot' => slot.1 = slot'.1 ∧ slot.2.ReadAs slot'.2)
          (decoder.slots c e.children) (decoder.slots c r.children) := fun hread c =>
      forall₂_slots (fun _ _ hread => ⟨hread.name, hread.children⟩) c hread.children
    refine annotated_iff.mpr ⟨?_, ?_, ?_, ?_, fun typeId htype => ⟨?_, ?_⟩⟩
    · rw [hread.name, hread'.name, hname]
    · rw [hread.text, hread'.text, htext]
    · rwa [hread.attributes, hread'.attributes]
    · refine forall₂_carried hchildren hread.children hread'.children ?_
      intro child hchild child' r r' hannotated hread hread'
      rw [FieldAnnotated, hread.attribute?]
      exact (ih child hchild).1 hannotated hread hread'
    · rw [hread.attributes, hread'.attributes]
      exact (hnamed typeId htype).1
    · refine forall₂_carried (hnamed typeId htype).2 (hslots hread _) (hslots hread' _) ?_
      rintro ⟨part, child⟩ hslot ⟨part', child'⟩ ⟨_, r⟩ ⟨_, r'⟩ hannotated ⟨rfl, hread⟩
        ⟨rfl, hread'⟩
      rw [SlotAnnotated, part.typeOf_congr hread.name (hread.attribute? classKey)]
      rcases mem_of_mem_slots hslot with hchild | ⟨collection, hcollection, hentry⟩
      · exact (ih child hchild).1 hannotated hread hread'
      · exact (ih collection hcollection).2 child hentry hannotated hread hread'

end Decoder

end PlanArchive.Coding
