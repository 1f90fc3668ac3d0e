import PlanArchive.Proofs.Coding.Visits

/-!
# Where failures point

The place of a failure names the tags on the way to an element. On this way the tags of collections
are left out (`LeadsOver`), and where something in an element is out of place, the line is that of
a child (`Broken.place`).
-/

namespace PlanArchive.Coding

open Markup Naming

/-- From child to child, by the tags on the way. -/
inductive Leads : Element → List String → Element → Prop
  | here {e : Element} : Leads e [e.name] e
  | child {e child target : Element} {tags : List String} (hmem : child ∈ e.children)
    (h : Leads child tags target) : Leads e (e.name :: tags) target

/-- The same, but the tags of collections are passed over on the way to their entries. -/
inductive LeadsOver : Element → List String → Element → Prop
  | here {e : Element} : LeadsOver e [e.name] e
  | child {e child target : Element} {tags : List String} (hmem : child ∈ e.children)
    (h : LeadsOver child tags target) : LeadsOver e (e.name :: tags) target
  | entry {e collection child target : Element} {tags : List String}
    (hmem : collection ∈ e.children) (hname : collection.name = entriesTag)
    (hentry : child ∈ collection.children) (h : LeadsOver child tags target) :
    LeadsOver e (e.name :: tags) target

/-- Where no collection has entries, none is passed over. -/
theorem LeadsOver.leads {e target : Element} {tags : List String} (h : LeadsOver e tags target)
    (hnone : ∀ collection : Element, collection.Occurs e → collection.name = entriesTag →
      collection.children = []) : Leads e tags target := by
  induction h with
  | here => exact .here
  | child hmem _ ih =>
    exact .child hmem (ih fun collection hoccurs => hnone collection (.child hmem hoccurs))
  | entry hmem hname hentry =>
    rw [hnone _ (.of_mem hmem) hname] at hentry
    cases hentry

/-- An element of this name is not where it can be. -/
inductive Displaces (name : String) : Failure → Prop
  | leadingSubtree (place : Place) : Displaces name (.malformed (.leadingSubtree name) place)
  | unexpected (typeId : Option String) (place : Place) :
    Displaces name (.malformed (.unexpectedInEnvelope name typeId) place)

/-- If the type is not known, its name is the tag or the class of the element. -/
def NamedBy (e : Element) (failure : Failure) : Prop :=
  ∀ tag place, failure = .unknownType tag place →
    tag = e.name ∨ e.attribute? classKey = some tag

/-- The failure is told at an element, by its line, or by the line of a child that is out of
place. -/
def ToldAt (e : Element) (line : Nat) (failure : Failure) : Prop :=
  line = e.line ∧ NamedBy e failure ∨
    ∃ child ∈ e.children, line = child.line ∧ Displaces child.name failure

namespace Decoder

section

variable {decoder : Decoder} {x y : Visit} {failure : Failure}

/-- The path of a visit holds the tags on the way to it, the innermost first. -/
theorem Visits.leadsOver (h : decoder.Visits x y) {outer : List String}
    (hpath : x.path = x.element.name :: outer) :
    ∃ tags, LeadsOver x.element tags y.element ∧ y.path = tags.reverse ++ outer := by
  induction h generalizing outer with
  | here => exact ⟨_, .here, hpath⟩
  | @into x z a hmeets hplace _ ih =>
    -- the slot puts its own tag on the path, whatever it stands in
    obtain ⟨tags, hleads, hy⟩ := @ih x.path rfl
    have hy' : z.path = (x.element.name :: tags).reverse ++ outer := by
      simp [hy, hpath]
    obtain ⟨tag, binding, c, htype, hopens, hcomes⟩ := hmeets
    rcases mem_slots_cases hcomes.mem_slots with hchild | ⟨-, collection, hmem, hname, hentry⟩
    · exact ⟨_, .child hchild hleads, hy'⟩
    · exact ⟨_, .entry hmem hname hentry hleads, hy'⟩

/-- What names the type of a visited element is its tag or its class. -/
theorem Visits.type_eq (h : decoder.Visits x y)
    (hx : x.type = some x.element.name ∨ x.type = x.element.attribute? classKey) :
    y.type = some y.element.name ∨ y.type = y.element.attribute? classKey := by
  induction h with
  | here => exact hx
  | into _ _ _ ih => exact ih (Part.typeOf_eq _ _)

/-- A slot that is out of place holds a child. -/
theorem Meets.mem_children {a : Arrival} (h : decoder.Meets x a) (hpart : a.part ≠ .entry) :
    a.child ∈ x.element.children := by
  obtain ⟨tag, binding, c, htype, hopens, hcomes⟩ := h
  rcases mem_slots_cases hcomes.mem_slots with hchild | ⟨hentry, -⟩
  · exact hchild
  · exact absurd hentry hpart

/-- Where an element is broken, the failure is told at it. -/
theorem Broken.place (h : decoder.Broken x failure)
    (htype : x.type = some x.element.name ∨ x.type = x.element.attribute? classKey) :
    ∃ line, failure.place? = some (placeOf x.path line) ∧ ToldAt x.element line failure := by
  cases h with
  | @unknownType tag hpresent htag hnull hbinding =>
    refine ⟨x.element.line, rfl, .inl ⟨rfl, ?_⟩⟩
    rintro _ _ ⟨⟩
    rcases htype with htype | htype
    · exact .inl (Option.some.inj (htag.symm.trans htype))
    · exact .inr (htype.symm.trans htag)
  | @leadingSubtree a hmeets hplace =>
    have hpart : a.part ≠ .entry := by
      intro hentry
      rw [misplaced_of_ne (by simp [hentry])] at hplace
      cases hplace
    exact ⟨a.child.line, rfl, .inr ⟨a.child, hmeets.mem_children hpart, rfl, .leadingSubtree _⟩⟩
  | @unexpected a value finish hmeets hplace hvalue hfit =>
    have hpart : a.part ≠ .entry := by
      intro hentry
      rw [unfit_of_ne (by simp [hentry])] at hfit
      cases hfit
    exact ⟨a.child.line, rfl, .inr ⟨a.child, hmeets.mem_children hpart, rfl, .unexpected _ _⟩⟩
  | _ => exact ⟨x.element.line, rfl, .inl ⟨rfl, nofun⟩⟩

/-- Where decoding a root fails, the failure is told at an element in it. -/
theorem place_of_refuses {root : Element} (h : decoder.Refuses (.root root) failure) :
    ∃ tags e line, LeadsOver root tags e ∧ ToldAt e line failure ∧
      failure.place? = some (placeOf tags.reverse line) := by
  obtain ⟨y, hvisits, hbroken⟩ := refuses_iff.mp h
  obtain ⟨tags, hleads, hpath⟩ := @Visits.leadsOver decoder (.root root) y hvisits [] rfl
  obtain ⟨line, hplace, htold⟩ := hbroken.place (hvisits.type_eq (.inl rfl))
  rw [List.append_nil] at hpath
  rw [hpath] at hplace
  exact ⟨tags, y.element, line, hleads, htold, hplace⟩

end

end Decoder

end PlanArchive.Coding
