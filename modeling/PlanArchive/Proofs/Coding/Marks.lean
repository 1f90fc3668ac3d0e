import PlanArchive.Proofs.Coding.Runs
import PlanArchive.Proofs.Markup.Occurs

/-!
# What reading a document marks

In a document, decoding an element changes the ledger only by marks, and only for ids that stand in
the element (`marks_of_runs`).
-/

namespace PlanArchive.Markup

/-- Some element in the element has the id. -/
def Element.Carries (e : Element) (id : String) : Prop :=
  ∃ x : Element, x.Occurs e ∧ x.attribute? Coding.idKey = some id

theorem Element.Carries.child {e child : Element} {id : String} (h : child.Carries id)
    (hmem : child ∈ e.children) : e.Carries id :=
  let ⟨x, hx, hid⟩ := h
  ⟨x, .child hmem hx, hid⟩

end PlanArchive.Markup

namespace PlanArchive.Coding

open Markup Naming

/-- From `s` to `t` the ledger only changes by marks, each for an id of this kind. -/
def Marks (ids : String → Prop) (s t : Ledger) : Prop :=
  ∃ puts, t = { s with marked := Keyed.putAll s.marked puts } ∧
    ∀ id ∈ Keyed.keys puts, ids id

namespace Marks

variable {ids : String → Prop} {s t u : Ledger}

theorem refl (s : Ledger) : Marks ids s s := ⟨[], rfl, List.forall_mem_nil _⟩

theorem one {id : String} (hid : ids id) (value : Value) :
    Marks ids s { s with marked := Keyed.put id value s.marked } :=
  ⟨[(id, value)], rfl, List.forall_mem_singleton.mpr hid⟩

theorem trans (h : Marks ids s t) (h' : Marks ids t u) : Marks ids s u := by
  obtain ⟨puts, rfl, hputs⟩ := h
  obtain ⟨more, rfl, hmore⟩ := h'
  refine ⟨puts ++ more, by simp [Keyed.putAll], ?_⟩
  intro id hid
  rw [Keyed.keys, List.map_append] at hid
  exact (List.mem_append.mp hid).elim (hputs id) (hmore id)

theorem mono {ids' : String → Prop} (h : Marks ids s t) (hids : ∀ id, ids id → ids' id) :
    Marks ids' s t := by
  obtain ⟨puts, ht, hputs⟩ := h
  exact ⟨puts, ht, fun id hid => hids id (hputs id hid)⟩

/-- Other ids mean what they meant. -/
theorem find?_eq (h : Marks ids s t) {id : String} (hid : ¬ids id) :
    Keyed.find? id t.marked = Keyed.find? id s.marked := by
  obtain ⟨puts, rfl, hputs⟩ := h
  exact Keyed.find?_putAll_of_not_mem fun hmem => hid (hputs id hmem)

theorem eq (h : Marks ids s t) (hids : ∀ id, ¬ids id) : t = s := by
  obtain ⟨puts, rfl, hputs⟩ := h
  cases puts with
  | nil => rfl
  | cons pair puts => exact absurd (hputs pair.1 (List.mem_cons_self ..)) (hids pair.1)

end Marks

namespace Decoder

section

variable {decoder : Decoder} {path : List String} {s t : Ledger}

theorem marks_marking (hmode : decoder.ReadsIn .document) (ids : String → Prop)
    (id : Option String) (hid : ∀ key ∈ id, ids key) (value : Value) (s : Ledger) :
    Marks ids s (decoder.marking id value s) := by
  cases id with
  | none =>
    simp only [marking, hmode.mode_eq]
    exact .refl s
  | some key =>
    simp only [marking, hmode.mode_eq]
    exact .one (hid key rfl) value

theorem handingOver_document (hmode : decoder.ReadsIn .document) (part : Part) (value : Value)
    (s : Ledger) : decoder.handingOver part value s = s := by
  unfold handingOver
  cases part <;> simp [hmode.keeps]

theorem runs_decodeSlot_document (hmode : decoder.ReadsIn .document) {part : Part}
    {child : Element} {v : Value} :
    Runs (decoder.decodeSlot path part child) s v t ↔
      Runs (decoder.decode (child.name :: path) (part.typeOf child) child) s v t := by
  simp [runs_decodeSlot, handingOver_document hmode]

/-- What stands in a slot is a child, or an entry of a collection. -/
theorem mem_slots_cases {c : Coder} {children : List Element} {child : Element} {part : Part}
    (h : (part, child) ∈ decoder.slots c children) :
    child ∈ children ∨ part = .entry ∧ ∃ collection ∈ children, collection.name = entriesTag ∧
      child ∈ collection.children := by
  obtain ⟨holder, hholder, hslot⟩ := List.mem_flatMap.mp h
  unfold slotsOf at hslot
  split at hslot
  · cases hslot
  · split at hslot
    · rename_i hcollection
      obtain ⟨entry, hentry, heq⟩ := List.mem_map.mp hslot
      obtain ⟨rfl, rfl⟩ := Prod.mk.inj heq
      exact .inr ⟨rfl, holder, hholder, hcollection.2, hentry⟩
    · exact .inl ((Prod.mk.inj (List.mem_singleton.mp hslot)).2 ▸ hholder)

theorem mem_of_mem_slots {c : Coder} {children : List Element} {child : Element} {part : Part}
    (h : (part, child) ∈ decoder.slots c children) :
    child ∈ children ∨ ∃ collection ∈ children, child ∈ collection.children := by
  rcases mem_slots_cases h with hchild | ⟨-, collection, hcollection, -, hentry⟩
  · exact .inl hchild
  · exact .inr ⟨collection, hcollection, hentry⟩

theorem carries_of_slot {c : Coder} {e : Element} {id : String}
    {slot : Part × Element} (h : slot.2.Carries id) (hmem : slot ∈ decoder.slots c e.children) :
    e.Carries id := by
  rcases mem_of_mem_slots hmem with hchild | ⟨collection, hcollection, hentry⟩
  · exact h.child hchild
  · exact (h.child hentry).child hcollection

theorem marks_of_slots (hmode : decoder.ReadsIn .document) {ids : String → Prop}
    {slots : List (Part × Element)}
    (h : ∀ slot ∈ slots, ∀ path type s v t, Runs (decoder.decode path type slot.2) s v t →
      Marks ids s t)
    {taken values : List (Part × Value)}
    (hruns : Runs (decoder.decodeSlots path taken slots) s values t) : Marks ids s t := by
  induction slots generalizing taken values s with
  | nil =>
    obtain ⟨-, rfl⟩ := runs_decodeSlots_nil.mp hruns
    exact .refl t
  | cons slot slots ih =>
    obtain ⟨hslot, hslots⟩ := List.forall_mem_cons.mp h
    obtain ⟨-, value, u, more, hvalue, -, hmore, -⟩ := runs_decodeSlots_cons.mp hruns
    exact (hslot _ _ _ _ _ ((runs_decodeSlot_document hmode).mp hvalue)).trans (ih hslots hmore)

/-- Decoding an element marks nothing but ids in it. -/
theorem marks_of_runs (hmode : decoder.ReadsIn .document) {type : Option String} {e : Element}
    {v : Value} (h : Runs (decoder.decode path type e) s v t) : Marks e.Carries s t := by
  induction e using Element.induct generalizing path type s v t with
  | step e ih =>
    rcases runs_decode.mp h with ⟨_, -, -, -, rfl⟩ | ⟨-, u, rfl, hcases⟩
    · exact .refl t
    · have hown : ∀ key ∈ e.attribute? idKey, e.Carries key := fun key hkey => ⟨e, .here, hkey⟩
      refine Marks.trans ?_ (marks_marking hmode e.Carries _ hown v u)
      rcases hcases with ⟨-, -, -, rfl⟩ | ⟨-, -, rfl⟩ |
        ⟨tag, binding, c, values, -, -, hvalues, -⟩
      · exact .refl u
      · exact .refl u
      · apply marks_of_slots hmode ?_ hvalues
        rintro ⟨part, child⟩ hslot path type s v t hruns
        rcases mem_of_mem_slots hslot with hchild | ⟨collection, hcollection, hentry⟩
        · exact ((ih child hchild).1 hruns).mono fun id hid => carries_of_slot hid hslot
        · exact ((ih collection hcollection).2 child hentry hruns).mono fun id hid =>
            carries_of_slot hid hslot

end

end Decoder

end PlanArchive.Coding
