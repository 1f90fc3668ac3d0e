import PlanArchive.Markup.Element

/-!
# Elements within elements

Induction on an element may use its children and, since the entries of an object stand in a child
of its element, the children of its children.
-/

namespace PlanArchive.Markup.Element

/-- `e` stands in the element at some depth. -/
inductive Occurs (e : Element) : Element → Prop
  | here : Occurs e e
  | child {root child : Element} : child ∈ root.children → Occurs e child → Occurs e root

theorem Occurs.trans {a b c : Element} (hab : Occurs a b) (hbc : Occurs b c) : Occurs a c := by
  induction hbc with
  | here => exact hab
  | child hmem _ ih => exact .child hmem ih

theorem Occurs.of_mem {e child : Element} (h : child ∈ e.children) : Occurs child e :=
  .child h .here

theorem forall_occurs {P : Element → Prop} {root : Element} :
    (∀ e, Occurs e root → P e) ↔ P root ∧ ∀ child ∈ root.children, ∀ e, Occurs e child → P e := by
  refine ⟨fun h => ⟨h root .here, fun child hchild e he => h e (.child hchild he)⟩, ?_⟩
  rintro ⟨hroot, hchildren⟩ e he
  cases he with
  | here => exact hroot
  | child hchild he => exact hchildren _ hchild e he

/-- Induction over children and their children. -/
theorem induct {motive : Element → Prop}
    (step : ∀ e, (∀ child ∈ e.children, motive child ∧ ∀ grandchild ∈ child.children,
      motive grandchild) → motive e) (e : Element) : motive e := by
  have hboth : motive e ∧ ∀ child ∈ e.children, motive child :=
    Element.rec (motive_1 := fun e => motive e ∧ ∀ child ∈ e.children, motive child)
      (motive_2 := fun es => ∀ child ∈ es, motive child ∧ ∀ grandchild ∈ child.children,
        motive grandchild)
      (fun _ _ _ _ _ ih => ⟨step _ ih, fun child hchild => (ih child hchild).1⟩)
      (List.forall_mem_nil _)
      (fun _ _ hhead htail => List.forall_mem_cons.mpr ⟨hhead, htail⟩)
      e
  exact hboth.1

/-- The same induction, over all that stands in an element. -/
theorem induct_within {root : Element} {motive : Element → Prop}
    (step : ∀ e, Occurs e root → (∀ child ∈ e.children, motive child ∧
      ∀ grandchild ∈ child.children, motive grandchild) → motive e)
    (e : Element) (he : Occurs e root) : motive e := by
  induction e using induct with
  | step e ih =>
    apply step e he
    intro child hchild
    have hoccurs := (Occurs.of_mem hchild).trans he
    obtain ⟨ihchild, ihgrandchildren⟩ := ih child hchild
    refine ⟨ihchild hoccurs, ?_⟩
    intro grandchild hgrandchild
    exact ihgrandchildren grandchild hgrandchild ((Occurs.of_mem hgrandchild).trans hoccurs)

end PlanArchive.Markup.Element
