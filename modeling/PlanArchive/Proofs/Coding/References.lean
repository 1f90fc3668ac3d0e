import PlanArchive.Proofs.Coding.Runs

/-!
# References are looked at

Whatever coder reads an element, a reference in one of its slots is looked at: a log refuses it, and
in a document the slot holds what was marked under that id (`reference_not_ignored`).
-/

namespace PlanArchive.Coding

open Markup Naming

/-! ## Where a slot's value goes -/

namespace Part

def isSubtree : Part → Bool
  | .subtree => true
  | _ => false

/-- The value holds `w` where slots of these parts, with the ones before and after, put it. A later
field of the same name takes the place of a field, and only a plan can stand below an element. -/
def Holds (before after : List Part) (w : Value) : Part → Value → Prop
  | .field name, .object _ fields _ => .field name ∉ after → Keyed.find? name fields = some w
  | .entry, .object _ _ entries | .record, .object _ _ entries | .content, .object _ _ entries =>
    entries[before.countP (!·.isField)]? = some w
  | .element, .plan branches =>
    ∃ below, branches[before.countP (!·.isSubtree)]? = some (.mk w below)
  | .subtree, .plan branches => ∀ below, w = .plan below →
    ∃ element, branches[before.countP (!·.isSubtree) - 1]? = some (.mk element below)
  | _, _ => False

end Part

namespace Decoder

section

variable {decoder : Decoder} {path : List String}

/-- Slots keep their parts. -/
theorem parts_of_runs {taken values : List (Part × Value)} {slots : List (Part × Element)}
    {s t : Ledger} (h : Runs (decoder.decodeSlots path taken slots) s values t) :
    values.map Prod.fst = slots.map Prod.fst := by
  induction slots generalizing taken values s with
  | nil =>
    obtain ⟨rfl, -⟩ := runs_decodeSlots_nil.mp h
    rfl
  | cons slot slots ih =>
    obtain ⟨part, child⟩ := slot
    obtain ⟨-, value, u, more, -, -, hmore, rfl⟩ := runs_decodeSlots_cons.mp h
    rw [List.map_cons, List.map_cons, ih hmore]

theorem length_entriesOf (taken : List (Part × Value)) :
    (entriesOf taken).length = (taken.map Prod.fst).countP (!·.isField) := by
  induction taken with
  | nil => rfl
  | cons slot taken ih =>
    obtain ⟨part, value⟩ := slot
    cases part <;> simp_all [entriesOf, Part.isField]

theorem keys_fieldsOf (taken : List (Part × Value)) (name : String) :
    name ∈ Keyed.keys (fieldsOf taken) ↔ .field name ∈ taken.map Prod.fst := by
  induction taken with
  | nil => simp [fieldsOf, Keyed.keys]
  | cons slot taken ih =>
    obtain ⟨part, value⟩ := slot
    cases part <;> simp_all [fieldsOf, Keyed.keys]

/-- The last of the fields of one name is kept. -/
theorem find?_fieldsOf {name : String} {back : List (Part × Value)}
    (hlater : .field name ∉ back.map Prod.fst) (fields : List (String × Value))
    (front : List (Part × Value)) (w : Value) :
    Keyed.find? name (Keyed.putAll fields (fieldsOf (front ++ (.field name, w) :: back))) =
      some w := by
  have hfields : fieldsOf (front ++ (.field name, w) :: back) =
      fieldsOf front ++ (name, w) :: fieldsOf back := by simp [fieldsOf]
  have hall : Keyed.putAll fields (fieldsOf front ++ (name, w) :: fieldsOf back) =
      Keyed.putAll (Keyed.put name w (Keyed.putAll fields (fieldsOf front))) (fieldsOf back) := by
    simp [Keyed.putAll]
  rw [hfields, hall, Keyed.find?_putAll_of_not_mem (mt (keys_fieldsOf back name).mp hlater),
    Keyed.find?_put, if_pos rfl]

theorem entriesOf_at {part : Part} (hpart : part.isField = false) (front : List (Part × Value))
    (w : Value) (back : List (Part × Value)) :
    (entriesOf (front ++ (part, w) :: back))[(front.map Prod.fst).countP (!·.isField)]? =
      some w := by
  have hentries : entriesOf (front ++ (part, w) :: back) =
      entriesOf front ++ w :: entriesOf back := by
    cases part with
    | field => cases hpart
    | _ => simp [entriesOf]
  rw [hentries, ← length_entriesOf, List.getElem?_append_right (Nat.le_refl _), Nat.sub_self]
  rfl

theorem branchesOf_cons {part : Part} (hpart : part.isSubtree = false) (pending : Option Value)
    (w : Value) (back : List (Part × Value)) :
    branchesOf pending ((part, w) :: back) = leaf pending ++ branchesOf (some w) back := by
  cases part with
  | subtree => cases hpart
  | _ => rfl

theorem length_leaf (pending : Option Value) : (leaf pending).length = pending.toList.length := by
  cases pending <;> rfl

/-- Each element has a branch of its own. -/
theorem branchesOf_at {part : Part} (hpart : part.isSubtree = false)
    (pending : Option Value) (front : List (Part × Value)) (w : Value)
    (back : List (Part × Value)) :
    (branchesOf pending (front ++ (part, w) :: back))[
      pending.toList.length + (front.map Prod.fst).countP (!·.isSubtree)]? =
        (branchesOf (some w) back).head? := by
  induction front generalizing pending with
  | nil =>
    rw [List.nil_append, branchesOf_cons hpart, ← length_leaf,
      List.getElem?_append_right (Nat.le_add_right _ _), Nat.add_sub_cancel_left,
      List.head?_eq_getElem?]
    rfl
  | cons slot front ih =>
    obtain ⟨part', v⟩ := slot
    cases part' with
    | subtree =>
      have hlength : (pending.map (Branch.mk · (planOf v))).toList.length =
          pending.toList.length := by cases pending <;> rfl
      rw [List.cons_append, branchesOf, ← hlength,
        List.getElem?_append_right (Nat.le_add_right _ _), Nat.add_sub_cancel_left]
      simpa [Part.isSubtree] using ih none
    | _ =>
      rw [List.cons_append, branchesOf_cons rfl, ← length_leaf,
        List.getElem?_append_right (Nat.le_add_right _ _), Nat.add_sub_cancel_left]
      simpa [Part.isSubtree, Nat.add_comm] using ih (some v)

theorem branchesOf_some (w : Value) (back : List (Part × Value)) :
    ∃ below, (branchesOf (some w) back).head? = some (.mk w below) := by
  cases back with
  | nil => exact ⟨[], rfl⟩
  | cons slot back =>
    obtain ⟨part, v⟩ := slot
    cases part with
    | subtree => exact ⟨planOf v, rfl⟩
    | _ => exact ⟨[], rfl⟩

theorem exists_of_placed {taken : List (Part × Value)} (h : misplaced taken .subtree = false) :
    ∃ front element, taken = front ++ [(.element, element)] := by
  cases hlast : taken.getLast? with
  | none => simp [misplaced, pendingOf, hlast] at h
  | some slot =>
    obtain ⟨part, element⟩ := slot
    cases part with
    | element =>
      obtain ⟨front, rfl⟩ := List.getLast?_eq_some_iff.mp hlast
      exact ⟨front, element, rfl⟩
    | _ => simp [misplaced, pendingOf, hlast] at h

/-- The slots that a coder knows. -/
theorem Enters.part_cases {c : Coder} {children : List Element} {step : List Nat} {part : Part}
    {child : Element} {before after : List (Part × Element)}
    (h : decoder.Enters c children step part child before after) :
    (c = .plan ∧ (part = .subtree ∨ part = .element)) ∨ (c = .envelope ∧ part = .content) ∨
      (c = .wrapper ∧ part = .record) ∨
      (c = .sample ∨ c = .object) ∧ (part = .entry ∨ part = .field child.name) := by
  obtain ⟨-, hslot⟩ := h
  cases hslot with
  | itself htext hentries =>
    cases c with
    | text => exact absurd rfl htext
    | plan =>
      simp only [partOf]
      split <;> simp
    | sample =>
      simp only [partOf]
      split <;> simp
    | _ => simp [partOf]
  | entry hobject hname h => simp [hobject]

/-- In a document, the value of an element holds what each slot holds. -/
theorem holds_of_valueOf (hkeeps : decoder.delivers = false) {c : Coder} {typeId : String}
    {e child : Element} {step : List Nat} {part : Part} {before after : List (Part × Element)}
    (hslot : decoder.Enters c e.children step part child before after)
    {front back : List (Part × Value)} {w v : Value}
    (hplace : misplaced front part = false) (hfit : unfit front part w = false)
    (hvalue : decoder.valueOf? c typeId e (front ++ (part, w) :: back) = some v) :
    part.Holds (front.map Prod.fst) (back.map Prod.fst) w v := by
  rcases hslot.part_cases with ⟨rfl, rfl | rfl⟩ | ⟨rfl, rfl⟩ | ⟨rfl, rfl⟩ | ⟨hc, hpart⟩
  · obtain rfl := Option.some.inj hvalue
    obtain ⟨earlier, element, rfl⟩ := exists_of_placed hplace
    rintro below rfl
    refine ⟨element, ?_⟩
    have hbranch := branchesOf_at (rfl : Part.isSubtree .element = false) none earlier element
      ((.subtree, .plan below) :: back)
    simpa [Part.isSubtree, branchesOf, planOf] using hbranch
  · obtain rfl := Option.some.inj hvalue
    obtain ⟨below, hbelow⟩ := branchesOf_some w back
    refine ⟨below, ?_⟩
    rw [← hbelow, ← branchesOf_at (rfl : Part.isSubtree .element = false) none front w back]
    simp
  · have hempty : front = [] ∧ ∃ plan, w = .plan plan := by
      cases w <;> simp_all [unfit, Value.isPlan]
    obtain ⟨rfl, plan, rfl⟩ := hempty
    obtain rfl := Option.some.inj hvalue
    rfl
  · simp only [valueOf?, hkeeps, Option.some.injEq] at hvalue
    obtain rfl := hvalue
    exact entriesOf_at rfl front w back
  · obtain ⟨fields, rfl⟩ : ∃ fields, v = .object typeId
        (Keyed.putAll fields (fieldsOf (front ++ (part, w) :: back)))
        (entriesOf (front ++ (part, w) :: back)) := by
      rcases hc with rfl | rfl
      · exact ⟨_, (Option.some.inj hvalue).symm⟩
      · rw [valueOf?] at hvalue
        split at hvalue
        · cases hvalue
        · exact ⟨_, (Option.some.inj hvalue).symm⟩
    rcases hpart with rfl | rfl
    · exact entriesOf_at rfl front w back
    · intro hlater
      exact find?_fieldsOf hlater fields front w

/-! ## References in slots -/

variable {c : Coder} {tag id : String} {e child : Element} {binding : Binding} {step : List Nat}
  {part : Part} {before after : List (Part × Element)} {start : Ledger}

/-- A reference is refused before anything behind it is looked at. -/
theorem refused_in_log (hmode : decoder.mode = .log) (hid : child.attribute? referenceKey = some id)
    {taken : List (Part × Value)} {rest : List (Part × Element)} :
    Fails (decoder.decodeSlots path taken ((part, child) :: rest)) start
      (if misplaced taken part then
        .malformed (.leadingSubtree child.name) (placeOf path child.line)
        else .malformed .referenceInLog (placeOf (child.name :: path) child.line)) start := by
  have hresolve : ∀ type, Fails (decoder.decode (child.name :: path) type child) start
      (.malformed .referenceInLog (placeOf (child.name :: path) child.line)) start := fun type => by
    rw [Decoder.decode_eq, hid]
    simp only [resolve, hmode]
    rfl
  rw [decodeSlots]
  cases misplaced taken part with
  | true => rfl
  | false =>
    have hslot : Fails (decoder.decodeSlot path part child) start
        (.malformed .referenceInLog (placeOf (child.name :: path) child.line)) start := by
      cases part with
      | record => exact (hresolve _).bind _
      | _ => exact hresolve _
    exact hslot.bind _

/-- A log refuses a reference in a slot, if it does not refuse what stands before it. -/
theorem fails_of_reference (hmode : decoder.mode = .log)
    (hopens : decoder.Opens tag e binding c)
    (hslot : decoder.Enters c e.children step part child before after)
    (hid : child.attribute? referenceKey = some id) :
    ∃ failure finish, Fails (decoder.decode path (some tag) e) start failure finish ∧
      (Fails (decoder.decodeSlots path [] before) start failure finish ∨
        ∃ values, Runs (decoder.decodeSlots path [] before) start values finish ∧
          failure = if misplaced values part then
              .malformed (.leadingSubtree child.name) (placeOf path child.line)
            else .malformed .referenceInLog (placeOf (child.name :: path) child.line)) := by
  rcases runs_or_fails (decoder.decodeSlots path [] before) start with
    ⟨values, reached, hbefore⟩ | ⟨failure, finish, hbefore⟩
  · refine ⟨_, reached, hopens.fails ?_, .inr ⟨values, hbefore, rfl⟩⟩
    rw [hslot.slots_eq, decodeSlots_append]
    exact hbefore.fails_bind ((refused_in_log hmode hid).bind _)
  · refine ⟨failure, finish, hopens.fails ?_, .inl hbefore⟩
    rw [hslot.slots_eq, decodeSlots_append]
    exact hbefore.bind _

/-- A slot with a reference holds what is marked when it is reached. -/
theorem holds_of_reference (hkeeps : decoder.delivers = false)
    (hopens : decoder.Opens tag e binding c)
    (hslot : decoder.Enters c e.children step part child before after)
    (hid : child.attribute? referenceKey = some id) {v : Value} {finish : Ledger}
    (h : Runs (decoder.decode path (some tag) e) start v finish) :
    ∃ values reached w, Runs (decoder.decodeSlots path [] before) start values reached ∧
      Keyed.find? id reached.marked = some w ∧
      part.Holds (before.map Prod.fst) (after.map Prod.fst) w v := by
  obtain ⟨values, u, hvalues, hvalue, -⟩ := hopens.runs_decode.mp h
  rw [hslot.slots_eq] at hvalues
  obtain ⟨front, reached, w, t, back, hfront, hplace, hw, hfit, hback, rfl⟩ :=
    runs_decodeSlots_around.mp hvalues
  obtain ⟨t', hdecode, -⟩ := runs_decodeSlot.mp hw
  refine ⟨front, reached, w, hfront, ?_, ?_⟩
  · rcases runs_decode.mp hdecode with ⟨id', hid', -, hw, -⟩ | ⟨hnone, -⟩
    · obtain rfl := Option.some.inj (hid.symm.trans hid')
      exact hw
    · rw [hid] at hnone
      cases hnone
  · rw [← parts_of_runs hfront, ← parts_of_runs hback]
    exact holds_of_valueOf hkeeps hslot hplace hfit hvalue

end

end Decoder

end PlanArchive.Coding
