import PlanArchive.Proofs.Coding.Visits

/-!
# Text that decoding does not look at

Of the coders of objects and plans only the one of plain objects looks at the text of an element,
and only where there are no children. There text that is not blank is refused (`refuses_text`).
Everywhere else the text may be any other: the outcome, failures included, and the ledger are the
same (`Descends.decode_withText`).
-/

namespace PlanArchive.Markup

/-- The element with another text. -/
def Element.withText (text : Option String) (e : Element) : Element := { e with text }

end PlanArchive.Markup

namespace PlanArchive.Coding.Decoder

open Markup Naming

section

variable {decoder : Decoder} {path : List String} {c : Coder}

/-- Whatever is in a slot stands at some place below. -/
theorem exists_enters {children : List Element} {part : Part} {child : Element}
    (h : (part, child) ∈ decoder.slots c children) :
    ∃ step before after, decoder.Enters c children step part child before after := by
  obtain ⟨holder, hholder, hslot⟩ := List.mem_flatMap.mp h
  obtain ⟨front, back, rfl⟩ := List.append_of_mem hholder
  unfold slotsOf at hslot
  split at hslot
  · cases hslot
  · rename_i htext
    split at hslot
    · rename_i hcollection
      obtain ⟨hobject, hname⟩ := hcollection
      obtain ⟨entry, hentry, heq⟩ := List.mem_map.mp hslot
      obtain ⟨rfl, rfl⟩ := Prod.mk.inj heq
      obtain ⟨earlier, later, hentries⟩ := List.append_of_mem hentry
      exact ⟨_, _, _, .child rfl (.entry hobject hname hentries)⟩
    · rename_i hcollection
      obtain ⟨rfl, rfl⟩ := Prod.mk.inj (List.mem_singleton.mp hslot)
      exact ⟨_, _, _, .child rfl (.itself htext fun hobject hname =>
        hcollection ⟨hobject, hname⟩)⟩

/-- What decoding visits stands at a position to which slots lead. -/
theorem Visits.descends {x y : Visit} (h : decoder.Visits x y) :
    ∃ p, decoder.Descends x.type x.element p y.type y.element := by
  induction h with
  | here => exact ⟨[], .here⟩
  | into hmeets hplace h ih =>
    obtain ⟨p, hp⟩ := ih
    obtain ⟨tag, binding, c, htype, hopens, hcomes⟩ := hmeets
    obtain ⟨step, before, after, hslot⟩ := exists_enters hcomes.mem_slots
    rw [htype]
    exact ⟨step ++ p, .slot hopens hslot hp⟩

theorem Opens.mode {tag : String} {e : Element} {binding : Binding}
    (h : decoder.Opens tag e binding c) (mode : Mode) (delivers : Bool) :
    Opens { decoder with mode, delivers } tag e binding c :=
  { h with present := h.present }

/-- Where slots lead depends neither on the mode nor on whether records are handed over. -/
theorem Descends.mode {type type' : Option String} {e target : Element} {p : List Nat}
    (h : decoder.Descends type e p type' target) (mode : Mode) (delivers : Bool) :
    Descends { decoder with mode, delivers } type e p type' target := by
  induction h with
  | here => exact .here
  | slot hopens hslot h ih =>
    obtain ⟨hchildren, hslot⟩ := hslot
    cases hslot with
    | itself htext hentries =>
      exact .slot (hopens.mode mode delivers) (.child hchildren (.itself htext hentries)) ih
    | entry hobject hname hentries =>
      exact .slot (hopens.mode mode delivers) (.child hchildren (.entry hobject hname hentries)) ih

/-! ## Elements that are decoded alike -/

theorem decodeSlot_congr {part : Part} {child child' : Element} (hname : child'.name = child.name)
    (h : decoder.decode (child.name :: path) (part.typeOf child') child' =
      decoder.decode (child.name :: path) (part.typeOf child) child) :
    decoder.decodeSlot path part child' = decoder.decodeSlot path part child := by
  cases part with
  | record =>
    simp only [Part.typeOf, hname] at h
    simp only [decodeSlot, hname, h]
  | _ =>
    simp only [decodeSlot, hname]
    exact h

/-- Slots are decoded alike if one of them is. -/
theorem decodeSlots_congr {part : Part} {child child' : Element} (hname : child'.name = child.name)
    (hline : child'.line = child.line)
    (h : decoder.decodeSlot path part child' = decoder.decodeSlot path part child)
    (taken : List (Part × Value)) (before after : List (Part × Element)) :
    decoder.decodeSlots path taken (before ++ (part, child') :: after) =
      decoder.decodeSlots path taken (before ++ (part, child) :: after) := by
  simp only [decodeSlots_append, decodeSlots, hname, hline, h]

/-- An element that differs in its text and its children is decoded alike if its slots are and its
value is put together from them in the same way. -/
theorem Opens.decode_congr {tag : String} {e e' : Element} {binding : Binding}
    (h : decoder.Opens tag e binding c) (hname : e'.name = e.name)
    (hattributes : e'.attributes = e.attributes) (hline : e'.line = e.line)
    (hslots : decoder.decodeSlots path [] (decoder.slots c e'.children) =
      decoder.decodeSlots path [] (decoder.slots c e.children))
    (hvalue : ∀ taken, decoder.valueOf? c binding.typeId e' taken =
      decoder.valueOf? c binding.typeId e taken) :
    decoder.decode path (some tag) e' = decoder.decode path (some tag) e := by
  have hattribute : ∀ key, e'.attribute? key = e.attribute? key :=
    fun key => congrArg (Keyed.find? key) hattributes
  have h' : decoder.Opens tag e' binding c :=
    { h with present := (hattribute referenceKey).trans h.present }
  have hcomplaint : decoder.complaint c e' = decoder.complaint c e := by
    cases c <;> simp only [complaint, hname]
  have hbuild : ∀ taken, decoder.build path c binding.typeId e' taken =
      decoder.build path c binding.typeId e taken := by
    intro taken
    rw [build, build, hvalue, hcomplaint, hline]
  rw [decode_eq, decode_eq, h'.present, h.present]
  simp only [h'.readTyped_eq, h.readTyped_eq, hslots, hbuild, hattribute]

/-- What is decoded alike at a position may stand there. -/
theorem Descends.decode_modifyAt {f : Element → Element} {type type' : Option String}
    {e target : Element} {p : List Nat} (h : decoder.Descends type e p type' target)
    (hname : ∀ e, (f e).name = e.name) (hattributes : ∀ e, (f e).attributes = e.attributes)
    (hline : ∀ e, (f e).line = e.line)
    (hsame : ∀ path, decoder.decode path type' (f target) = decoder.decode path type' target)
    (path : List String) :
    decoder.decode path type (e.modifyAt f p) = decoder.decode path type e := by
  induction h generalizing path with
  | here => exact hsame path
  | @slot tag e child target binding c step rest part before after type hopens hslot h ih =>
    have hchildName := Element.name_modifyAt hname child rest
    have hchildLine := Element.line_modifyAt hline child rest
    have hclass : ∀ e : Element, (f e).attribute? classKey = e.attribute? classKey :=
      fun e => congrArg (Keyed.find? classKey) (hattributes e)
    have htypeOf : part.typeOf (child.modifyAt f rest) = part.typeOf child :=
      part.typeOf_congr hchildName (Element.attribute_modifyAt hclass child rest)
    have hslot' := hslot.modify hchildName
    have hchild : decoder.decodeSlot path part (child.modifyAt f rest) =
        decoder.decodeSlot path part child :=
      decodeSlot_congr hchildName (by rw [htypeOf, ih hsame])
    have hempty := hslot'.isEmpty.trans hslot.isEmpty.symm
    have hslots' := hslot'.slots_eq
    obtain ⟨i, below, rfl⟩ := hslot.step_eq
    refine hopens.decode_congr rfl rfl rfl ?_ fun taken => valueOf_congr rfl hempty rfl rfl rfl
    rw [hslots', hslot.slots_eq]
    exact decodeSlots_congr hchildName hchildLine hchild [] before after

/-! ## Text -/

/-- The coder does not look at the text of the element. -/
def Overlooks (c : Coder) (e : Element) : Prop := c ≠ .text ∧ (c = .object → e.children ≠ [])

theorem valueOf_withText {typeId : String} {e : Element} (h : Overlooks c e)
    (text : Option String) (taken : List (Part × Value)) :
    decoder.valueOf? c typeId (e.withText text) taken = decoder.valueOf? c typeId e taken := by
  obtain ⟨htext, hchildren⟩ := h
  cases c with
  | text => exact absurd rfl htext
  | object =>
    have hempty : e.children.isEmpty = false := by simpa using hchildren rfl
    have hempty' : (e.withText text).children.isEmpty = false := hempty
    simp only [valueOf?, hempty, hempty', Bool.false_and]
  | _ => rfl

/-- An element whose text is overlooked may have any text. -/
theorem Descends.decode_withText {type : Option String} {e target : Element} {p : List Nat}
    {tag : String} {binding : Binding} (h : decoder.Descends type e p (some tag) target)
    (hopens : decoder.Opens tag target binding c) (hoverlooks : Overlooks c target)
    (text : Option String) (path : List String) :
    decoder.decode path type (e.modifyAt (·.withText text) p) = decoder.decode path type e := by
  have hname : ∀ e : Element, (e.withText text).name = e.name := fun _ => rfl
  refine h.decode_modifyAt hname (fun _ => rfl) (fun _ => rfl) (fun path => ?_) path
  exact hopens.decode_congr rfl rfl rfl rfl (valueOf_withText hoverlooks text)

/-- Text in a plain object without children is refused when decoding comes to it. -/
theorem refuses_text {x y : Visit} (hvisits : decoder.Visits x y) {tag : String}
    {binding : Binding} (htype : y.type = some tag)
    (hopens : decoder.Opens tag y.element binding .object) (hchildren : y.element.children = [])
    (htext : Text.allBlank y.element.content.toList = false) :
    decoder.Refuses x (.malformed (.textInObject y.element.name)
      (placeOf y.path y.element.line)) := by
  have hslots : Runs (decoder.decodeSlots y.path [] (decoder.slots .object y.element.children))
      y.ledger [] y.ledger := by
    rw [hchildren]
    exact runs_pure.mpr ⟨rfl, rfl⟩
  have hvalue : decoder.valueOf? .object binding.typeId y.element [] = none := by
    simp [valueOf?, hchildren, htext]
  exact refuses_iff.mpr ⟨y, hvisits, .incomplete htype hopens hslots hvalue⟩

end

end PlanArchive.Coding.Decoder
