import Mathlib.Data.List.Forall2
import PlanArchive.Proofs.Coding.Runs
import PlanArchive.Proofs.Markup.Occurs

/-!
# Names that mean the same type

Where a tag or a class names a type, any other name of the type does as well. What coders decide by
a name, they decide by the type it stands for: the slots of a respelled element are those of the
element (`slots_respelled`), and it is decoded alike (`transparent`).
-/

namespace PlanArchive.Naming

/-- The names stand for one type. The name of null stands for itself only. -/
def Resolver.SameType (resolver : Resolver) (name name' : String) : Prop :=
  name' = name ∨
    name ≠ Coding.nullTag ∧ name' ≠ Coding.nullTag ∧
      resolver.candidate name' = resolver.candidate name

section

variable {resolver : Resolver} {name name' : String}

theorem Resolver.SameType.refl (name : String) : resolver.SameType name name := .inl rfl

theorem Resolver.SameType.binding?_eq (h : resolver.SameType name name') :
    resolver.binding? name' = resolver.binding? name := by
  rcases h with rfl | ⟨-, -, h⟩
  · rfl
  · rw [Resolver.binding?, h, Resolver.binding?]

theorem Resolver.SameType.eq_null_iff (h : resolver.SameType name name') :
    name' = Coding.nullTag ↔ name = Coding.nullTag := by
  rcases h with rfl | ⟨hname, hname', -⟩
  · exact Iff.rfl
  · exact iff_of_false hname' hname

end

end PlanArchive.Naming

namespace PlanArchive.Coding

open Markup Naming

/-- The same attributes, but for another name of the type in a class. -/
def ClassAlike (resolver : Resolver) : List (String × String) → List (String × String) → Prop :=
  List.Forall₂ fun a a' => a'.1 = a.1 ∧
    (a'.2 = a.2 ∨ a.1 = classKey ∧ resolver.SameType a.2 a'.2)

section

variable {resolver : Resolver} {as as' : List (String × String)}

theorem ClassAlike.refl (as : List (String × String)) : ClassAlike resolver as as :=
  List.forall₂_same.mpr fun _ _ => ⟨rfl, .inl rfl⟩

theorem ClassAlike.find?_eq (h : ClassAlike resolver as as') {key : String}
    (hkey : key ≠ classKey) : Keyed.find? key as' = Keyed.find? key as := by
  induction h with
  | nil => rfl
  | @cons a a' as as' hpair _ ih =>
    obtain ⟨k, v⟩ := a
    obtain ⟨k', v'⟩ := a'
    obtain ⟨rfl, hvalue⟩ := hpair
    rw [Keyed.find?, Keyed.find?, ih]
    split
    · rename_i hk
      rcases hvalue with hv | ⟨hclass, -⟩
      · exact congrArg some hv
      · exact absurd (hk.symm.trans hclass) hkey
    · rfl

theorem ClassAlike.class (h : ClassAlike resolver as as') :
    Option.Rel resolver.SameType (Keyed.find? classKey as) (Keyed.find? classKey as') := by
  induction h with
  | nil => exact .none
  | @cons a a' as as' hpair _ ih =>
    obtain ⟨k, v⟩ := a
    obtain ⟨k', v'⟩ := a'
    obtain ⟨rfl, hvalue⟩ := hpair
    rw [Keyed.find?, Keyed.find?]
    split
    · rcases hvalue with hv | ⟨-, hv⟩
      · exact .some (.inl hv)
      · exact .some hv
    · exact ih

theorem ClassAlike.envelopeFields_eq (h : ClassAlike resolver as as') :
    Decoder.envelopeFields as' = Decoder.envelopeFields as := by
  have hkeys : ∀ key ∈ [versionKey, propertiesKey, applicationKey], key ≠ classKey := by decide
  apply List.filterMap_congr
  intro key hkey
  rw [h.find?_eq (hkeys key hkey)]

theorem ClassAlike.wrapperFields_eq (h : ClassAlike resolver as as') :
    Decoder.wrapperFields as' = Decoder.wrapperFields as := by
  rw [Decoder.wrapperFields, h.find?_eq (by decide), Decoder.wrapperFields]

theorem ClassAlike.sampleFields_eq (h : ClassAlike resolver as as') :
    Decoder.sampleFields as' = Decoder.sampleFields as := by
  have hfilter : (as'.filter fun a => !isReserved a.1) = as.filter fun a => !isReserved a.1 := by
    induction h with
    | nil => rfl
    | @cons a a' as as' hpair _ ih =>
      obtain ⟨k, v⟩ := a
      obtain ⟨k', v'⟩ := a'
      obtain ⟨rfl, rfl | ⟨rfl, -⟩⟩ := hpair
      · rw [List.filter_cons, List.filter_cons, ih]
      · exact ih
  exact congrArg (fun kept => Keyed.ofPairs (kept.map fun a => (a.1, Value.text a.2))) hfilter

end

namespace Decoder

/-! ## Respelled elements -/

mutual

/-- An element whose tag names its type: the tag, and names within, may be other names of the
types. -/
inductive Retagged (decoder : Decoder) : Element → Element → Prop
  | mk {e e' : Element} (hname : decoder.resolver.SameType e.name e'.name)
    (h : Respelled decoder (some e.name) e e') : Retagged decoder e e'

/-- An element whose type is named by `type`, its own name aside: its class, and names within, may
be other names of the types. What stands in a reference or in a null is never looked at. -/
inductive Respelled (decoder : Decoder) : Option String → Element → Element → Prop
  | kept {type : Option String} {e e' : Element}
    (hattributes : ClassAlike decoder.resolver e.attributes e'.attributes)
    (htext : e'.text = e.text) (hchildren : e'.children = e.children) :
    Respelled decoder type e e'
  | unread {type : Option String} {e e' : Element}
    (hunread : (e.attribute? referenceKey).isSome = true ∨ type = some nullTag)
    (hattributes : ClassAlike decoder.resolver e.attributes e'.attributes)
    (htext : e'.text = e.text) : Respelled decoder type e e'
  | within {tag : String} {e e' : Element} {binding : Binding} {c : Coder}
    (hopens : decoder.Opens tag e binding c)
    (hattributes : ClassAlike decoder.resolver e.attributes e'.attributes)
    (htext : e'.text = e.text)
    (hchildren : RespelledChildren decoder c e.children e'.children) :
    Respelled decoder (some tag) e e'

/-- A child of an element that the coder reads. Only the class of a field names a type, and
neither the name nor the attributes of a collection do. -/
inductive RespelledChild (decoder : Decoder) : Coder → Element → Element → Prop
  | tag {c : Coder} {child child' : Element}
    (hpart : (decoder.partOf c child.name).isField = false) (h : Retagged decoder child child') :
    RespelledChild decoder c child child'
  | field {c : Coder} {child child' : Element}
    (hpart : (decoder.partOf c child.name).isField = true)
    (hentries : c = .object → child.name ≠ entriesTag) (hname : child'.name = child.name)
    (h : Respelled decoder (child.attribute? classKey) child child') :
    RespelledChild decoder c child child'
  | collection {child child' : Element} (hname : child.name = entriesTag)
    (hname' : child'.name = entriesTag)
    (h : List.Forall₂ (Retagged decoder) child.children child'.children) :
    RespelledChild decoder .object child child'

/-- The children one by one. -/
inductive RespelledChildren (decoder : Decoder) : Coder → List Element → List Element → Prop
  | nil {c : Coder} : RespelledChildren decoder c [] []
  | cons {c : Coder} {child child' : Element} {children children' : List Element}
    (h : RespelledChild decoder c child child')
    (hrest : RespelledChildren decoder c children children') :
    RespelledChildren decoder c (child :: children) (child' :: children')

end

section

variable {decoder : Decoder} {c : Coder}

theorem Respelled.refl (type : Option String) (e : Element) : decoder.Respelled type e e :=
  .kept (.refl _) rfl rfl

theorem Retagged.refl (e : Element) : decoder.Retagged e e := .mk (.refl _) (.refl _ e)

theorem RespelledChild.refl (c : Coder) (child : Element) :
    decoder.RespelledChild c child child := by
  by_cases hcollection : c = .object ∧ child.name = entriesTag
  · obtain ⟨rfl, hname⟩ := hcollection
    exact .collection hname hname (List.forall₂_same.mpr fun entry _ => .refl entry)
  · cases hpart : (decoder.partOf c child.name).isField with
    | false => exact .tag hpart (.refl child)
    | true => exact .field hpart (fun hc hname => hcollection ⟨hc, hname⟩) rfl (.refl _ child)

theorem RespelledChildren.refl (c : Coder) (children : List Element) :
    decoder.RespelledChildren c children children := by
  induction children with
  | nil => exact .nil
  | cons child children ih => exact .cons (.refl c child) ih

/-- What is within an element that is respelled, whichever way. -/
theorem Respelled.children {tag : String} {e e' : Element} {binding : Binding}
    (h : decoder.Respelled (some tag) e e') (hopens : decoder.Opens tag e binding c) :
    decoder.RespelledChildren c e.children e'.children := by
  cases h with
  | kept hattributes htext hchildren =>
    rw [hchildren]
    exact .refl c e.children
  | unread hunread hattributes htext =>
    rcases hunread with hpresent | hnull
    · rw [hopens.present] at hpresent
      cases hpresent
    · exact absurd (Option.some.inj hnull) hopens.named
  | within hopens' hattributes htext hchildren =>
    obtain ⟨rfl, rfl⟩ := hopens.unique hopens'
    exact hchildren

theorem Respelled.attributes {type : Option String} {e e' : Element}
    (h : decoder.Respelled type e e') :
    ClassAlike decoder.resolver e.attributes e'.attributes ∧ e'.text = e.text := by
  cases h with
  | kept hattributes htext hchildren => exact ⟨hattributes, htext⟩
  | unread hunread hattributes htext => exact ⟨hattributes, htext⟩
  | within hopens hattributes htext hchildren => exact ⟨hattributes, htext⟩

theorem RespelledChildren.isEmpty {children children' : List Element}
    (h : decoder.RespelledChildren c children children') :
    children'.isEmpty = children.isEmpty := by
  cases h <;> rfl

theorem not_isField {name : String} (hpart : (decoder.partOf c name).isField = false) :
    c ≠ .text ∧ c ≠ .object := by
  constructor
  · rintro rfl
    cases hpart
  · rintro rfl
    cases hpart

/-- What a child is, as far as its tag names a type, depends on the type alone. -/
theorem partOf_eq {name name' : String} (hpart : (decoder.partOf c name).isField = false)
    (h : decoder.resolver.SameType name name') :
    decoder.partOf c name' = decoder.partOf c name := by
  cases c with
  | text => cases hpart
  | object => cases hpart
  | plan =>
    have hsubtree : decoder.isSubtree name' = decoder.isSubtree name := by
      simp only [isSubtree, h.binding?_eq]
    rw [partOf, partOf, hsubtree]
  | sample =>
    have hsample : decoder.isSample name' = decoder.isSample name := by
      simp only [isSample, h.binding?_eq]
    simp only [partOf, hsample] at hpart ⊢
    split at hpart
    · rename_i hname
      rw [if_pos hname, if_pos hname]
    · cases hpart
  | envelope => rfl
  | wrapper => rfl

end

/-! ## Respelled elements are decoded alike -/

/-- Where `m` succeeds, so does `m'`, with the same result and the same effect. -/
def Simulates {α : Type} (m m' : Decoding α) : Prop := ∀ s v t, Runs m s v t → Runs m' s v t

/-- Wherever the element is, and however it is respelled, it is decoded alike. -/
def Transparent (decoder : Decoder) (e : Element) : Prop :=
  ∀ path path' type type' e', Option.Rel decoder.resolver.SameType type type' →
    decoder.Respelled type e e' →
      Simulates (decoder.decode path type e) (decoder.decode path' type' e')

/-- Slots of one part, what stands in them decoded alike. -/
def SlotAlike (decoder : Decoder) (slot slot' : Part × Element) : Prop :=
  slot'.1 = slot.1 ∧ ∀ path path', Simulates (decoder.decodeSlot path slot.1 slot.2)
    (decoder.decodeSlot path' slot.1 slot'.2)

section

variable {decoder : Decoder} {c : Coder} {path path' : List String}

theorem slotAlike_of_decode {part : Part} {child child' : Element}
    (h : ∀ path path', Simulates (decoder.decode path (part.typeOf child) child)
      (decoder.decode path' (part.typeOf child') child')) :
    decoder.SlotAlike (part, child) (part, child') := by
  refine ⟨rfl, ?_⟩
  intro path path' s v t hruns
  obtain ⟨u, hdecode, rfl⟩ := runs_decodeSlot.mp hruns
  exact runs_decodeSlot.mpr ⟨u, h _ _ s v u hdecode, rfl⟩

theorem simulates_decodeSlots {slots slots' : List (Part × Element)}
    (h : List.Forall₂ decoder.SlotAlike slots slots') (taken : List (Part × Value)) :
    Simulates (decoder.decodeSlots path taken slots) (decoder.decodeSlots path' taken slots') := by
  induction h generalizing taken with
  | nil => exact fun s values t hruns => hruns
  | @cons slot slot' slots slots' hslot _ ih =>
    obtain ⟨part, child⟩ := slot
    obtain ⟨part', child'⟩ := slot'
    obtain ⟨rfl, halike⟩ := hslot
    intro s values t hruns
    obtain ⟨hplace, value, u, more, hvalue, hfit, hmore, rfl⟩ := runs_decodeSlots_cons.mp hruns
    exact runs_decodeSlots_cons.mpr ⟨hplace, value, u, more, halike _ _ _ _ _ hvalue, hfit,
      ih _ _ _ _ hmore, rfl⟩

theorem slotAlike_of_tag {part : Part} {child child' : Element} (htype : part.isField = false)
    (htransparent : decoder.Transparent child) (h : decoder.Retagged child child') :
    decoder.SlotAlike (part, child) (part, child') := by
  obtain ⟨hname, h⟩ := h
  have htypeOf : ∀ x : Element, part.typeOf x = some x.name := fun x => by
    cases part with
    | field => cases htype
    | _ => rfl
  apply slotAlike_of_decode
  intro path path'
  rw [htypeOf, htypeOf]
  exact htransparent path path' _ _ child' (.some hname) h

theorem slotAlike_of_field {name : String} {child child' : Element}
    (htransparent : decoder.Transparent child)
    (h : decoder.Respelled (child.attribute? classKey) child child') :
    decoder.SlotAlike (.field name, child) (.field name, child') :=
  slotAlike_of_decode fun path path' => htransparent path path' _ _ child' h.attributes.1.class h

theorem entries_respelled {entries entries' : List Element}
    (htransparent : ∀ entry ∈ entries, decoder.Transparent entry)
    (h : List.Forall₂ decoder.Retagged entries entries') :
    List.Forall₂ decoder.SlotAlike (entries.map fun entry => (.entry, entry))
      (entries'.map fun entry => (.entry, entry)) := by
  induction h with
  | nil => exact .nil
  | cons hentry _ ih =>
    obtain ⟨hhead, htail⟩ := List.forall_mem_cons.mp htransparent
    exact .cons (slotAlike_of_tag rfl hhead hentry) (ih htail)

/-- The slots of a respelled child are those of the child. -/
theorem slotsOf_respelled {child child' : Element} (htransparent : decoder.Transparent child ∧
    ∀ entry ∈ child.children, decoder.Transparent entry)
    (h : decoder.RespelledChild c child child') :
    List.Forall₂ decoder.SlotAlike (decoder.slotsOf c child) (decoder.slotsOf c child') := by
  cases h with
  | tag hpart h =>
    obtain ⟨htext, hobject⟩ := not_isField hpart
    rw [slotsOf_itself htext fun hc => absurd hc hobject,
      slotsOf_itself htext fun hc => absurd hc hobject]
    obtain ⟨hname, -⟩ := id h
    rw [partOf_eq hpart hname]
    exact .cons (slotAlike_of_tag hpart htransparent.1 h) .nil
  | field hpart hentries hname h =>
    by_cases htext : c = .text
    · simp [slotsOf, htext]
    · have hentries' : c = .object → child'.name ≠ entriesTag := hname ▸ hentries
      rw [slotsOf_itself htext hentries, slotsOf_itself htext hentries', hname]
      cases hfield : decoder.partOf c child.name with
      | field name => exact .cons (slotAlike_of_field htransparent.1 h) .nil
      | _ =>
        rw [hfield] at hpart
        cases hpart
  | collection hname hname' h =>
    rw [slotsOf_collection hname, slotsOf_collection hname']
    exact entries_respelled htransparent.2 h

theorem slots_respelled {children children' : List Element}
    (htransparent : ∀ child ∈ children, decoder.Transparent child ∧
      ∀ entry ∈ child.children, decoder.Transparent entry)
    (h : decoder.RespelledChildren c children children') :
    List.Forall₂ decoder.SlotAlike (decoder.slots c children) (decoder.slots c children') := by
  induction children generalizing children' with
  | nil =>
    cases h
    exact .nil
  | cons child children ih =>
    obtain ⟨hchild, hchildren⟩ := List.forall_mem_cons.mp htransparent
    cases h with
    | cons h hrest =>
      rw [slots_cons, slots_cons]
      exact List.rel_append (slotsOf_respelled hchild h) (ih hchildren hrest)

/-- However names are spelled, an element is decoded alike. -/
theorem transparent (decoder : Decoder) (e : Element) : decoder.Transparent e := by
  induction e using Element.induct with
  | step e ih =>
    intro path path' type type' e' htype h s v t hruns
    obtain ⟨hattributes, htext⟩ := h.attributes
    have hreference : e'.attribute? referenceKey = e.attribute? referenceKey :=
      hattributes.find?_eq (by decide)
    have hid : e'.attribute? idKey = e.attribute? idKey := hattributes.find?_eq (by decide)
    rw [runs_decode] at hruns ⊢
    rw [hreference, hid]
    rcases hruns with hresolve | ⟨hpresent, u, ht, hcases⟩
    · exact .inl hresolve
    · refine .inr ⟨hpresent, u, ht, ?_⟩
      rcases hcases with ⟨rfl, hempty, rfl, rfl⟩ | ⟨rfl, rfl, rfl⟩ |
        ⟨tag, binding, c, values, rfl, hopens, hvalues, hvalue⟩
      · cases htype
        cases h with
        | kept _ _ hchildren =>
          have hcontent : e'.content = e.content := by rw [Element.content, htext, Element.content]
          exact .inl ⟨rfl, hchildren.trans hempty, hcontent ▸ rfl, rfl⟩
        | unread hunread =>
          rcases hunread with hsome | ⟨⟨⟩⟩
          rw [hpresent] at hsome
          cases hsome
      · cases htype with
        | some hname => exact .inr (.inl ⟨congrArg some (hname.eq_null_iff.mpr rfl), rfl, rfl⟩)
      · cases htype with
        | @some _ tag' hname =>
          have hopens' : decoder.Opens tag' e' binding c :=
            { hopens with
              present := hreference.trans hpresent
              named := mt hname.eq_null_iff.mp hopens.named
              known := hname.binding?_eq.trans hopens.known }
          have hchildren := h.children hopens
          have hvalue' : decoder.valueOf? c binding.typeId e' values = _ :=
            valueOf_congr htext hchildren.isEmpty hattributes.envelopeFields_eq
              hattributes.wrapperFields_eq hattributes.sampleFields_eq
          exact .inr (.inr ⟨tag', binding, c, values, rfl, hopens',
            simulates_decodeSlots (slots_respelled ih hchildren) [] _ _ _ hvalues,
            hvalue'.trans hvalue⟩)

/-- Retagged elements at the top are decoded alike. -/
theorem Retagged.simulates {e e' : Element} (h : decoder.Retagged e e') :
    Simulates (decoder.decode [e.name] (some e.name) e)
      (decoder.decode [e'.name] (some e'.name) e') := by
  obtain ⟨hname, h⟩ := h
  exact decoder.transparent e [e.name] [e'.name] _ _ e' (.some hname) h

end

end Decoder

end PlanArchive.Coding
