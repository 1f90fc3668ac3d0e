import PlanArchive.Proofs.Markup.Occurs

/-!
# Positions of elements

A position says which child to go to, again and again, from an element down to one that stands in
it. Positions tell apart equal elements at different places.
-/

namespace PlanArchive.Markup.Element

/-- The element at a position. -/
def at? (e : Element) : List Nat → Option Element
  | [] => some e
  | i :: p => e.children[i]?.bind (·.at? p)

def modifyAt (f : Element → Element) (e : Element) : List Nat → Element
  | [] => f e
  | i :: p => { e with children := e.children.modify i (·.modifyAt f p) }

/-- What is at the one position ends before what is at the other starts. -/
inductive Before : List Nat → List Nat → Prop
  | first {i j : Nat} {p q : List Nat} : i < j → Before (i :: p) (j :: q)
  | inside {i : Nat} {p q : List Nat} : Before p q → Before (i :: p) (i :: q)

theorem before_cons {i j : Nat} {p q : List Nat} :
    Before (i :: p) (j :: q) ↔ i < j ∨ i = j ∧ Before p q := by
  constructor
  · intro h
    cases h with
    | first hlt => exact .inl hlt
    | inside h => exact .inr ⟨rfl, h⟩
  · rintro (hlt | ⟨rfl, h⟩)
    · exact .first hlt
    · exact .inside h

theorem not_before_nil {p : List Nat} : ¬Before p [] := by
  rintro ⟨⟩

theorem nil_not_before {p : List Nat} : ¬Before [] p := by
  rintro ⟨⟩

/-- No element has the property, but for the one at the position. -/
def OnlyAt (P : Element → Prop) (e : Element) (p : List Nat) : Prop :=
  ∀ q x, e.at? q = some x → P x → q = p

section

variable {e x : Element} {p : List Nat}

theorem at?_child {front back : List Element} (h : e.children = front ++ x :: back)
    (p : List Nat) : e.at? (front.length :: p) = x.at? p := by
  simp [at?, h]

theorem Occurs.at? (h : x.Occurs e) : ∃ p, e.at? p = some x := by
  induction h with
  | here => exact ⟨[], rfl⟩
  | child hmem _ ih =>
    obtain ⟨p, hp⟩ := ih
    obtain ⟨front, back, hchildren⟩ := List.append_of_mem hmem
    exact ⟨front.length :: p, (at?_child hchildren p).trans hp⟩

theorem OnlyAt.not_here {P : Element → Prop} {i : Nat} (h : e.OnlyAt P (i :: p)) : ¬P e := by
  intro hP
  cases h [] e rfl hP

theorem OnlyAt.child {P : Element → Prop} {front back : List Element}
    (h : e.OnlyAt P (front.length :: p)) (hchildren : e.children = front ++ x :: back) :
    x.OnlyAt P p := by
  intro q y hy hP
  exact (List.cons.inj (h (front.length :: q) y ((at?_child hchildren q).trans hy) hP)).2

/-- Other children have the property nowhere. -/
theorem OnlyAt.not_beside {P : Element → Prop} {front back : List Element}
    (h : e.OnlyAt P (front.length :: p)) (hchildren : e.children = front ++ x :: back)
    {y z : Element} (hy : y ∈ front ++ back) (hz : z.Occurs y) : ¬P z := by
  intro hP
  obtain ⟨q, hq⟩ := hz.at?
  have hplace : ∃ front' back', e.children = front' ++ y :: back' ∧
      front'.length ≠ front.length := by
    rcases List.mem_append.mp hy with hy | hy
    · obtain ⟨earlier, between, rfl⟩ := List.append_of_mem hy
      exact ⟨earlier, between ++ x :: back, by simp [hchildren], by simp⟩
    · obtain ⟨between, later, rfl⟩ := List.append_of_mem hy
      exact ⟨front ++ x :: between, later, by simp [hchildren], by simp⟩
  obtain ⟨front', back', hchildren', hne⟩ := hplace
  have hposition := h _ z ((at?_child hchildren' q).trans hq) hP
  exact hne (List.cons.inj hposition).1

theorem modify_at_length {front back : List Element} (f : Element → Element) (x : Element) :
    (front ++ x :: back).modify front.length f = front ++ f x :: back := by
  induction front with
  | nil => rfl
  | cons y front ih => simp [ih]

/-- A child that is modified keeps its place. -/
theorem children_modifyAt {f : Element → Element} {front back : List Element}
    (h : e.children = front ++ x :: back) (p : List Nat) :
    (e.modifyAt f (front.length :: p)).children = front ++ x.modifyAt f p :: back := by
  rw [modifyAt, h]
  exact modify_at_length _ x

theorem name_modifyAt {f : Element → Element} (hf : ∀ e, (f e).name = e.name) (e : Element)
    (p : List Nat) : (e.modifyAt f p).name = e.name := by
  cases p with
  | nil => exact hf e
  | cons i p => rfl

theorem line_modifyAt {f : Element → Element} (hf : ∀ e, (f e).line = e.line) (e : Element)
    (p : List Nat) : (e.modifyAt f p).line = e.line := by
  cases p with
  | nil => exact hf e
  | cons i p => rfl

theorem attribute_modifyAt {f : Element → Element} {key : String}
    (hf : ∀ e, (f e).attribute? key = e.attribute? key) (e : Element) (p : List Nat) :
    (e.modifyAt f p).attribute? key = e.attribute? key := by
  cases p with
  | nil => exact hf e
  | cons i p => rfl

end

end PlanArchive.Markup.Element
