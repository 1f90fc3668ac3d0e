import PlanArchive.Value

/-!
# What occurs in a value

A value occurs in itself, and so does what stands in its fields, entries and branches. The plan
below an element of a plan counts as a value too. Induction on values takes the same steps.
-/

namespace PlanArchive

theorem Branch.mk_element_children (b : Branch) : Branch.mk b.element b.children = b := by
  cases b
  rfl

namespace Value

/-- Induction over fields, entries, elements and the plans below them. -/
theorem induct {motive : Value → Prop} (null : motive .null) (text : ∀ s, motive (.text s))
    (object : ∀ typeId fields entries, (∀ field ∈ fields, motive field.2) →
      (∀ entry ∈ entries, motive entry) → motive (.object typeId fields entries))
    (plan : ∀ branches,
      (∀ b ∈ branches, motive b.element ∧ motive (.plan b.children)) → motive (.plan branches))
    (v : Value) : motive v :=
  Value.rec (motive_1 := motive) (motive_2 := fun b => motive b.element ∧ motive (.plan b.children))
    (motive_3 := fun fields => ∀ field ∈ fields, motive field.2)
    (motive_4 := fun entries => ∀ entry ∈ entries, motive entry)
    (motive_5 := fun branches => ∀ b ∈ branches, motive b.element ∧ motive (.plan b.children))
    (motive_6 := fun field => motive field.2)
    null text object plan
    (fun _ children helement hchildren => ⟨helement, plan children hchildren⟩)
    (List.forall_mem_nil _)
    (fun _ _ hhead htail => List.forall_mem_cons.mpr ⟨hhead, htail⟩)
    (List.forall_mem_nil _)
    (fun _ _ hhead htail => List.forall_mem_cons.mpr ⟨hhead, htail⟩)
    (List.forall_mem_nil _)
    (fun _ _ hhead htail => List.forall_mem_cons.mpr ⟨hhead, htail⟩)
    (fun _ _ h => h)
    v

/-- `w` stands in the value at some depth. -/
inductive Occurs (w : Value) : Value → Prop
  | here : Occurs w w
  | field {typeId : String} {fields : List (String × Value)} {entries : List Value}
      {field : String × Value} : field ∈ fields → Occurs w field.2 →
      Occurs w (.object typeId fields entries)
  | entry {typeId : String} {fields : List (String × Value)} {entries : List Value}
      {entry : Value} : entry ∈ entries → Occurs w entry → Occurs w (.object typeId fields entries)
  | element {branches : List Branch} {b : Branch} : b ∈ branches → Occurs w b.element →
      Occurs w (.plan branches)
  | subplan {branches : List Branch} {b : Branch} : b ∈ branches → Occurs w (.plan b.children) →
      Occurs w (.plan branches)

theorem Occurs.trans {u v w : Value} (huv : Occurs u v) (hvw : Occurs v w) : Occurs u w := by
  induction hvw with
  | here => exact huv
  | field hmem _ ih => exact .field hmem ih
  | entry hmem _ ih => exact .entry hmem ih
  | element hmem _ ih => exact .element hmem ih
  | subplan hmem _ ih => exact .subplan hmem ih

/-- `P` holds of all that occurs in a value. -/
def Everywhere (P : Value → Prop) (v : Value) : Prop := ∀ w, Occurs w v → P w

section

variable {P Q : Value → Prop}

theorem Everywhere.here {v : Value} (h : Everywhere P v) : P v := h v .here

theorem Everywhere.mono {v : Value} (h : Everywhere P v) (hPQ : ∀ w, P w → Q w) :
    Everywhere Q v :=
  fun w hw => hPQ w (h w hw)

theorem everywhere_null : Everywhere P .null ↔ P .null := by
  refine ⟨Everywhere.here, fun h w hw => ?_⟩
  cases hw
  exact h

theorem everywhere_text {s : String} : Everywhere P (.text s) ↔ P (.text s) := by
  refine ⟨Everywhere.here, fun h w hw => ?_⟩
  cases hw
  exact h

theorem everywhere_object {typeId : String} {fields : List (String × Value)}
    {entries : List Value} :
    Everywhere P (.object typeId fields entries) ↔
      P (.object typeId fields entries) ∧ (∀ field ∈ fields, Everywhere P field.2) ∧
        ∀ entry ∈ entries, Everywhere P entry := by
  constructor
  · intro h
    exact ⟨h.here, fun field hfield w hw => h w (.field hfield hw),
      fun entry hentry w hw => h w (.entry hentry hw)⟩
  · rintro ⟨hhere, hfields, hentries⟩ w hw
    cases hw with
    | here => exact hhere
    | field hfield hw => exact hfields _ hfield w hw
    | entry hentry hw => exact hentries _ hentry w hw

theorem everywhere_plan {branches : List Branch} :
    Everywhere P (.plan branches) ↔ P (.plan branches) ∧
      ∀ b ∈ branches, Everywhere P b.element ∧ Everywhere P (.plan b.children) := by
  constructor
  · intro h
    exact ⟨h.here, fun b hb => ⟨fun w hw => h w (.element hb hw), fun w hw => h w (.subplan hb hw)⟩⟩
  · rintro ⟨hhere, hbranches⟩ w hw
    cases hw with
    | here => exact hhere
    | element hb hw => exact (hbranches _ hb).1 w hw
    | subplan hb hw => exact (hbranches _ hb).2 w hw

theorem everywhere_plan_nil : Everywhere P (.plan []) ↔ P (.plan []) := by
  rw [everywhere_plan]
  exact and_iff_left (List.forall_mem_nil _)

/-- `P` holds of all that stands in the fields, entries and branches of a value. -/
def Below (P : Value → Prop) : Value → Prop
  | .null | .text _ => True
  | .object _ fields entries =>
    (∀ field ∈ fields, Everywhere P field.2) ∧ ∀ entry ∈ entries, Everywhere P entry
  | .plan branches => ∀ b ∈ branches, Everywhere P b.element ∧ Everywhere P (.plan b.children)

theorem everywhere_iff {v : Value} : Everywhere P v ↔ P v ∧ Below P v := by
  cases v with
  | null => simp [everywhere_null, Below]
  | text s => simp [everywhere_text, Below]
  | object typeId fields entries => exact everywhere_object
  | plan branches => exact everywhere_plan

end

end Value

end PlanArchive
