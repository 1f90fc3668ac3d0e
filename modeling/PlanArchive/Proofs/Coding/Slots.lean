import Mathlib.Data.List.Forall2
import PlanArchive.Proofs.Coding.Reading

/-!
# Reading slot by slot

All coders treat an element alike (`readWith_eq`): the children, and the entries of a collection,
are slots that are decoded one after another, and the value is put together from what the slots
hold. What a slot is to the value depends on the coder and the tag alone.
-/

namespace PlanArchive.Coding

open Markup Naming

/-! ## Slots -/

/-- What a slot is to the value of the element around it. -/
inductive Part
  | field (name : String)
  /-- An entry of an object, or a sub-result of a sample. -/
  | entry
  /-- A record of a wrapper. -/
  | record
  /-- The plan of an envelope. -/
  | content
  /-- An element of a plan. -/
  | element
  /-- The plan below the element before it. -/
  | subtree
  deriving DecidableEq

def Part.isField : Part → Bool
  | .field _ => true
  | _ => false

/-- What names the type of what a slot holds. -/
def Part.typeOf (child : Element) : Part → Option String
  | .field _ => child.attribute? classKey
  | _ => some child.name

theorem Part.typeOf_eq (part : Part) (child : Element) :
    part.typeOf child = some child.name ∨ part.typeOf child = child.attribute? classKey := by
  cases part with
  | field => exact .inr rfl
  | _ => exact .inl rfl

theorem Part.typeOf_congr (part : Part) {child child' : Element} (hname : child'.name = child.name)
    (hclass : child'.attribute? classKey = child.attribute? classKey) :
    part.typeOf child' = part.typeOf child := by
  cases part with
  | field => exact hclass
  | _ => exact congrArg some hname

namespace Decoder

/-- What a child is to the value, other than a collection of entries. -/
def partOf (decoder : Decoder) (c : Coder) (name : String) : Part :=
  match c with
  | .plan => if decoder.isSubtree name then .subtree else .element
  | .envelope => .content
  | .wrapper => .record
  | .sample => if decoder.isSample name then .entry else .field name
  | .text | .object => .field name

/-- The slots of a child: one, or one for each entry of a collection. -/
def slotsOf (decoder : Decoder) (c : Coder) (child : Element) : List (Part × Element) :=
  if c = .text then []
  else if c = .object ∧ child.name = entriesTag then
    child.children.map fun entry => (.entry, entry)
  else [(decoder.partOf c child.name, child)]

def slots (decoder : Decoder) (c : Coder) (children : List Element) : List (Part × Element) :=
  children.flatMap (decoder.slotsOf c)

/-- Going from a child to what stands in one of its slots, with the slots before it and after it:
the child itself, or an entry if the child is a collection. -/
inductive InSlot (decoder : Decoder) (c : Coder) (child : Element) :
    List Nat → Part → Element → List (Part × Element) → List (Part × Element) → Prop
  | itself (htext : c ≠ .text) (hentries : c = .object → child.name ≠ entriesTag) :
    InSlot decoder c child [] (decoder.partOf c child.name) child [] []
  | entry {front back : List Element} {entry : Element} (hobject : c = .object)
    (hname : child.name = entriesTag) (h : child.children = front ++ entry :: back) :
    InSlot decoder c child [front.length] .entry entry
      (front.map fun entry => (.entry, entry)) (back.map fun entry => (.entry, entry))

/-- The same from an element with these children. -/
inductive Enters (decoder : Decoder) (c : Coder) (children : List Element) :
    List Nat → Part → Element → List (Part × Element) → List (Part × Element) → Prop
  | child {front back : List Element} {child target : Element} {rest : List Nat} {part : Part}
    {inner outer : List (Part × Element)} (h : children = front ++ child :: back)
    (hslot : InSlot decoder c child rest part target inner outer) :
    Enters decoder c children (front.length :: rest) part target
      (decoder.slots c front ++ inner) (outer ++ decoder.slots c back)

/-- What a slot holds. Records are handed over as well. -/
def decodeSlot (decoder : Decoder) (path : List String) (part : Part) (child : Element) :
    Decoding Value :=
  match part with
  | .record => do
    let record ← decoder.decode (child.name :: path) (some child.name) child
    let _ ← decoder.deliver record
    return record
  | _ => decoder.decode (child.name :: path) (part.typeOf child) child

/-- The element behind which a subtree may follow. -/
def pendingOf (taken : List (Part × Value)) : Option Value :=
  match taken.getLast? with
  | some (.element, element) => some element
  | _ => none

/-- No slot of this kind can follow what was taken. -/
def misplaced (taken : List (Part × Value)) (part : Part) : Bool :=
  part == .subtree && (pendingOf taken).isNone

/-- A slot of this kind cannot hold the value. -/
def unfit (taken : List (Part × Value)) (part : Part) (value : Value) : Bool :=
  part == .content && !(value.isPlan && taken.isEmpty)

/-- What slots hold, in order; `taken` is what earlier slots hold. -/
def decodeSlots (decoder : Decoder) (path : List String) (taken : List (Part × Value)) :
    List (Part × Element) → Decoding (List (Part × Value))
  | [] => return []
  | (part, child) :: rest =>
    if misplaced taken part then
      refuse (.leadingSubtree child.name) (placeOf path child.line)
    else do
      let value ← decoder.decodeSlot path part child
      if unfit taken part value then
        refuse (.unexpectedInEnvelope child.name value.typeId?) (placeOf path child.line)
      else do
        let more ← decodeSlots decoder path (taken ++ [(part, value)]) rest
        return (part, value) :: more

/-! ## Values from slots -/

def fieldsOf (taken : List (Part × Value)) : List (String × Value) :=
  taken.filterMap fun (part, value) => match part with
    | .field name => some (name, value)
    | _ => none

def entriesOf (taken : List (Part × Value)) : List Value :=
  taken.filterMap fun (part, value) => match part with
    | .field _ => none
    | _ => some value

/-- The branches of elements and the plans below them, behind a pending element. -/
def branchesOf (pending : Option Value) : List (Part × Value) → Plan
  | [] => leaf pending
  | (.subtree, below) :: rest =>
    (pending.map (Branch.mk · (planOf below))).toList ++ branchesOf none rest
  | (_, element) :: rest => leaf pending ++ branchesOf (some element) rest

def contentOf : List (Part × Value) → Option Plan
  | (_, .plan plan) :: _ => some plan
  | _ => none

/-- The value of an element whose slots were decoded. -/
def valueOf? (decoder : Decoder) (c : Coder) (typeId : String) (e : Element)
    (taken : List (Part × Value)) : Option Value :=
  match c with
  | .text => if e.children.isEmpty then some (.text e.content) else none
  | .plan => some (.plan (branchesOf none taken))
  | .envelope => (contentOf taken).map fun plan =>
      .object envelopeType (envelopeFields e.attributes) [.plan plan]
  | .wrapper =>
    some (.object typeId (wrapperFields e.attributes)
      (if decoder.delivers then [] else entriesOf taken))
  | .sample =>
    some (.object typeId (Keyed.putAll (sampleFields e.attributes) (fieldsOf taken))
      (entriesOf taken))
  | .object =>
    if e.children.isEmpty && !Text.allBlank e.content.toList then none
    else some (.object typeId (Keyed.putAll [] (fieldsOf taken)) (entriesOf taken))

/-- What is wrong with an element that has no value. -/
def complaint (decoder : Decoder) (c : Coder) (e : Element) : Malformation :=
  match c with
  | .text => .textWithChildren e.name
  | .envelope => .noPlan e.name (decoder.resolver.tagFor treeType)
  | _ => .textInObject e.name

def build (decoder : Decoder) (path : List String) (c : Coder) (typeId : String) (e : Element)
    (taken : List (Part × Value)) : Decoding Value :=
  match decoder.valueOf? c typeId e taken with
  | some value => return value
  | none => refuse (decoder.complaint c e) (placeOf path e.line)

/-- What of an element its value depends on besides its slots. -/
theorem valueOf_congr {decoder : Decoder} {c : Coder} {typeId : String} {e e' : Element}
    {taken : List (Part × Value)} (htext : e'.text = e.text)
    (hempty : e'.children.isEmpty = e.children.isEmpty)
    (henvelope : envelopeFields e'.attributes = envelopeFields e.attributes)
    (hwrapper : wrapperFields e'.attributes = wrapperFields e.attributes)
    (hsample : sampleFields e'.attributes = sampleFields e.attributes) :
    decoder.valueOf? c typeId e' taken = decoder.valueOf? c typeId e taken := by
  cases c <;> simp [valueOf?, Element.content, htext, hempty, henvelope, hwrapper, hsample]

/-! ## The one form -/

section

variable {decoder : Decoder} {path : List String}

theorem slots_append (c : Coder) (front back : List Element) :
    decoder.slots c (front ++ back) = decoder.slots c front ++ decoder.slots c back :=
  List.flatMap_append

theorem slots_cons (c : Coder) (child : Element) (children : List Element) :
    decoder.slots c (child :: children) = decoder.slotsOf c child ++ decoder.slots c children :=
  List.flatMap_cons

theorem slotsOf_itself {c : Coder} {child : Element} (htext : c ≠ .text)
    (hentries : c = .object → child.name ≠ entriesTag) :
    decoder.slotsOf c child = [(decoder.partOf c child.name, child)] := by
  rw [slotsOf, if_neg htext, if_neg fun h => hentries h.1 h.2]

theorem slotsOf_collection {child : Element} (hname : child.name = entriesTag) :
    decoder.slotsOf .object child = child.children.map fun entry => (.entry, entry) := by
  rw [slotsOf, if_neg (by decide), if_pos ⟨rfl, hname⟩]

theorem InSlot.slotsOf_eq {c : Coder} {child target : Element} {rest : List Nat} {part : Part}
    {inner outer : List (Part × Element)}
    (h : decoder.InSlot c child rest part target inner outer) :
    decoder.slotsOf c child = inner ++ (part, target) :: outer := by
  cases h with
  | itself htext hentries => exact slotsOf_itself htext hentries
  | entry hobject hname h =>
    rw [hobject, slotsOf_collection hname, h, List.map_append, List.map_cons]

theorem Enters.slots_eq {c : Coder} {children : List Element} {step : List Nat} {part : Part}
    {child : Element} {before after : List (Part × Element)}
    (h : decoder.Enters c children step part child before after) :
    decoder.slots c children = before ++ (part, child) :: after := by
  obtain ⟨h, hslot⟩ := h
  rw [h, slots_append, slots_cons, hslot.slotsOf_eq]
  simp

/-- Elements that have the same names throughout stand in the same slots. -/
theorem forall₂_slots {R : Element → Element → Prop}
    (hR : ∀ e e', R e e' → e'.name = e.name ∧ List.Forall₂ R e.children e'.children) (c : Coder)
    {children children' : List Element} (h : List.Forall₂ R children children') :
    List.Forall₂ (fun slot slot' => slot.1 = slot'.1 ∧ R slot.2 slot'.2)
      (decoder.slots c children) (decoder.slots c children') := by
  refine List.rel_flatMap h ?_
  intro child child' hchild
  obtain ⟨hname, hchildren⟩ := hR _ _ hchild
  unfold slotsOf
  rw [hname]
  split
  · exact .nil
  · split
    · rw [List.forall₂_map_left_iff, List.forall₂_map_right_iff]
      exact hchildren.imp fun _ _ hentry => ⟨rfl, hentry⟩
    · exact .cons ⟨rfl, hchild⟩ .nil

theorem decodeSlots_append (taken : List (Part × Value)) (front back : List (Part × Element)) :
    decoder.decodeSlots path taken (front ++ back) = (do
      let values ← decoder.decodeSlots path taken front
      let more ← decoder.decodeSlots path (taken ++ values) back
      return values ++ more) := by
  induction front generalizing taken with
  | nil => simp [decodeSlots]
  | cons slot front ih =>
    obtain ⟨part, child⟩ := slot
    simp only [List.cons_append, decodeSlots]
    split
    · rfl
    · rw [bind_assoc]
      apply bind_congr (m := Decoding)
      intro value
      split
      · rfl
      · simp only [ih, bind_assoc, pure_bind, List.append_assoc, List.cons_append,
          List.nil_append]

theorem misplaced_of_ne {taken : List (Part × Value)} {part : Part} (h : part ≠ .subtree) :
    misplaced taken part = false := by
  simp [misplaced, h]

theorem unfit_of_ne {taken : List (Part × Value)} {part : Part} {value : Value}
    (h : part ≠ .content) : unfit taken part value = false := by
  simp [unfit, h]

/-- A slot that is in its place and can hold any value is only decoded. -/
theorem decodeSlots_cons {part : Part} {taken : List (Part × Value)}
    (hplace : misplaced taken part = false) (hcontent : part ≠ .content) (child : Element)
    (rest : List (Part × Element)) :
    decoder.decodeSlots path taken ((part, child) :: rest) = (do
      let value ← decoder.decodeSlot path part child
      let more ← decoder.decodeSlots path (taken ++ [(part, value)]) rest
      return (part, value) :: more) := by
  simp [decodeSlots, hplace, unfit_of_ne hcontent]

/-- The entries of a collection are decoded one after another. -/
theorem decodeSlots_entries (taken : List (Part × Value)) (children : List Element) :
    decoder.decodeSlots path taken (children.map fun child => (.entry, child)) = (do
      let entries ← decoder.decodeAll path children
      return entries.map fun entry => (.entry, entry)) := by
  induction children generalizing taken with
  | nil => simp [decodeAll, decodeSlots]
  | cons child children ih =>
    rw [List.map_cons, decodeSlots_cons (misplaced_of_ne (by decide)) (by decide), decodeAll]
    simp only [ih, decodeSlot, Part.typeOf, bind_assoc, pure_bind, List.map_cons]

theorem decodeParts_eq (taken : List (Part × Value)) (fields : List (String × Value))
    (children : List Element) :
    decoder.decodeParts path fields children = (do
      let values ← decoder.decodeSlots path taken (decoder.slots .object children)
      return (Keyed.putAll fields (fieldsOf values), entriesOf values)) := by
  induction children generalizing taken fields with
  | nil => simp [decodeParts, slots, decodeSlots, fieldsOf, entriesOf, Keyed.putAll]
  | cons child children ih =>
    obtain ⟨name, attributes, text, grandchildren, line⟩ := child
    rw [decodeParts]
    by_cases hname : name = entriesTag
    · have hentries : ∀ entries : List Value,
          fieldsOf (entries.map fun entry => (Part.entry, entry)) = [] ∧
            entriesOf (entries.map fun entry => (Part.entry, entry)) = entries := by
        intro entries
        simp [fieldsOf, entriesOf, List.filterMap_map]
      rw [if_pos hname, slots_cons, slotsOf_collection hname, decodeSlots_append,
        decodeSlots_entries]
      simp only [bind_assoc, pure_bind]
      apply bind_congr (m := Decoding)
      intro entries
      rw [ih (taken ++ entries.map fun entry => (.entry, entry)) fields]
      obtain ⟨hfields, hentries⟩ := hentries entries
      simp only [fieldsOf, entriesOf] at hfields hentries
      simp only [fieldsOf, entriesOf, List.filterMap_append, hfields, hentries, bind_assoc,
        pure_bind, List.nil_append]
    · rw [if_neg hname, slots_cons, slotsOf_itself (by decide) (fun _ => hname), partOf,
        List.singleton_append, decodeSlots_cons (misplaced_of_ne (by simp)) (by simp)]
      simp only [bind_assoc, pure_bind]
      apply bind_congr (m := Decoding)
      intro value
      rw [ih (taken ++ [(.field name, value)])]
      rfl

theorem decodeSample_eq (taken : List (Part × Value)) (fields : List (String × Value))
    (children : List Element) :
    decoder.decodeSample path fields children = (do
      let values ← decoder.decodeSlots path taken (decoder.slots .sample children)
      return (Keyed.putAll fields (fieldsOf values), entriesOf values)) := by
  induction children generalizing taken fields with
  | nil => simp [decodeSample, slots, decodeSlots, fieldsOf, entriesOf, Keyed.putAll]
  | cons child children ih =>
    rw [decodeSample, slots_cons, slotsOf_itself (by decide) (by rintro ⟨⟩), partOf,
      List.singleton_append]
    by_cases hname : decoder.isSample child.name = true
    · rw [if_pos hname, if_pos hname, decodeSlots_cons (misplaced_of_ne (by decide)) (by decide)]
      simp only [bind_assoc, pure_bind]
      apply bind_congr (m := Decoding)
      intro entry
      rw [ih (taken ++ [(.entry, entry)])]
      simp only [bind_assoc, pure_bind]
      rfl
    · rw [if_neg hname, if_neg hname, decodeSlots_cons (misplaced_of_ne (by simp)) (by simp)]
      simp only [bind_assoc, pure_bind]
      apply bind_congr (m := Decoding)
      intro value
      rw [ih (taken ++ [(.field child.name, value)])]
      rfl

theorem decodePlan_eq (taken : List (Part × Value)) (children : List Element) :
    decoder.decodePlan path (pendingOf taken) children = (do
      let values ← decoder.decodeSlots path taken (decoder.slots .plan children)
      return branchesOf (pendingOf taken) values) := by
  induction children generalizing taken with
  | nil => simp [decodePlan, slots, decodeSlots, branchesOf]
  | cons child children ih =>
    rw [decodePlan.eq_def, slots_cons, slotsOf_itself (by decide) (by rintro ⟨⟩), partOf,
      List.singleton_append]
    simp only
    by_cases hname : decoder.isSubtree child.name = true
    · rw [if_pos hname, if_pos hname]
      cases hpending : pendingOf taken with
      | none => simp [decodeSlots, misplaced, hpending, refuse]
      | some element =>
        have hplace : misplaced taken .subtree = false := by simp [misplaced, hpending]
        rw [decodeSlots_cons hplace (by decide)]
        simp only [bind_assoc, pure_bind]
        apply bind_congr (m := Decoding)
        intro below
        have hnext := ih (taken ++ [(.subtree, below)])
        have hnone : pendingOf (taken ++ [(.subtree, below)]) = none := by simp [pendingOf]
        rw [hnone] at hnext
        simp [hnext, branchesOf]
    · rw [if_neg hname, if_neg hname, decodeSlots_cons (misplaced_of_ne (by decide)) (by decide)]
      simp only [bind_assoc, pure_bind]
      apply bind_congr (m := Decoding)
      intro element
      have hnext := ih (taken ++ [(.element, element)])
      have hpending : pendingOf (taken ++ [(.element, element)]) = some element := by
        simp [pendingOf]
      rw [hpending] at hnext
      simp [hnext, branchesOf]

theorem decodeEnvelope_eq (found : Option Plan) (children : List Element) :
    decoder.decodeEnvelope path found children = (do
      let values ← decoder.decodeSlots path (found.map fun plan => (.content, .plan plan)).toList
        (decoder.slots .envelope children)
      return found.or (contentOf values)) := by
  induction children generalizing found with
  | nil => cases found <;> simp [decodeEnvelope, slots, decodeSlots, contentOf]
  | cons child children ih =>
    rw [decodeEnvelope, slots_cons, slotsOf_itself (by decide) (by rintro ⟨⟩), partOf,
      List.singleton_append, decodeSlots,
      misplaced_of_ne (by decide)]
    simp only [Bool.false_eq_true, if_false, bind_assoc]
    apply bind_congr (m := Decoding)
    intro value
    cases found with
    | some plan => cases value <;> simp [unfit, refuse]
    | none =>
      cases value with
      | plan branches =>
        have hnext := ih (some branches)
        simp only [Option.map_some, Option.toList_some] at hnext
        simp [unfit, Value.isPlan, contentOf, hnext]
      | _ => simp [unfit, Value.isPlan, refuse]

theorem decodeRecords_eq (taken : List (Part × Value)) (children : List Element) :
    decoder.decodeRecords path children = (do
      let values ← decoder.decodeSlots path taken (decoder.slots .wrapper children)
      return if decoder.delivers then [] else entriesOf values) := by
  induction children generalizing taken with
  | nil => cases h : decoder.delivers <;> simp [decodeRecords, slots, decodeSlots, entriesOf]
  | cons child children ih =>
    rw [decodeRecords, slots_cons, slotsOf_itself (by decide) (by rintro ⟨⟩), partOf,
      List.singleton_append, decodeSlots_cons (misplaced_of_ne (by decide)) (by decide),
      decodeSlot]
    simp only [bind_assoc, pure_bind]
    apply bind_congr (m := Decoding)
    intro record
    rw [ih (taken ++ [(.record, record)])]
    cases h : decoder.delivers <;> simp [deliver, h, entriesOf]

/-- Whatever its coder, an element is read slot by slot. -/
theorem readWith_eq (c : Coder) (typeId : String) (e : Element) :
    decoder.readWith path c typeId e = (do
      let values ← decoder.decodeSlots path [] (decoder.slots c e.children)
      decoder.build path c typeId e values) := by
  cases c with
  | text =>
    have hslots : decoder.slots .text e.children = [] := by simp [slots, slotsOf]
    simp only [readWith, hslots, decodeSlots, pure_bind, build, valueOf?]
    split <;> rfl
  | plan =>
    have hplan : decoder.decodePlan path none e.children = _ := decodePlan_eq [] e.children
    simp only [readWith, hplan, bind_assoc, pure_bind]
    rfl
  | envelope =>
    have henvelope : decoder.decodeEnvelope path none e.children = _ :=
      decodeEnvelope_eq none e.children
    simp only [readWith, henvelope, bind_assoc, pure_bind]
    apply bind_congr (m := Decoding)
    intro values
    simp only [build, valueOf?, Option.none_or]
    cases contentOf values <;> rfl
  | wrapper =>
    simp only [readWith, decodeRecords_eq [], bind_assoc, pure_bind]
    rfl
  | sample =>
    simp only [readWith, decodeSample_eq [], bind_assoc, pure_bind]
    rfl
  | object =>
    rw [readWith, decodeParts_eq []]
    split
    · rename_i hblank
      have hslots : decoder.slots .object e.children = [] := by
        simp only [Bool.and_eq_true, List.isEmpty_iff] at hblank
        rw [hblank.1]
        rfl
      simp [hslots, decodeSlots, build, valueOf?, complaint, hblank]
    · rename_i hblank
      simp [build, valueOf?, hblank]

end

end Decoder

end PlanArchive.Coding
