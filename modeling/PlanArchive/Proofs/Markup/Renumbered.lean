import PlanArchive.Proofs.Markup.ReadAs

/-!
# Other line numbers

The lines of the tokens do not decide what is read: with other lines the same elements come out, and
the same faults, on the other lines (`grow_mapLine`).
-/

namespace PlanArchive.Markup

variable (f : Nat → Nat)

namespace Element

/-- The element with its lines changed throughout. -/
def mapLine (e : Element) : Element := e.adjust id f id

theorem mapLine_mk (name : String) (attributes : List (String × String)) (text : Option String)
    (children : List Element) (line : Nat) :
    mapLine f ⟨name, attributes, text, children, line⟩ =
      ⟨name, attributes, text, children.map (mapLine f), f line⟩ :=
  adjust_mk f id name attributes text children line

end Element

def Problem.mapLine (problem : Problem) : Problem := { problem with line := f problem.line }

/-- The forest with its lines changed, behind other roots. -/
def Forest.mapLine (base : List Element) (forest : Forest) : Forest :=
  ⟨forest.stack.map (Element.mapLine f), forest.roots.map (Element.mapLine f) ++ base⟩

theorem mapLine_addText (text : String) (e : Element) :
    (addText text e).mapLine f = addText text (e.mapLine f) :=
  Element.adjust_addText id f text e

theorem mapLine_addChild (child e : Element) :
    (addChild child e).mapLine f = addChild (child.mapLine f) (e.mapLine f) :=
  Element.adjust_addChild id f child e

theorem mapLine_closed (e : Element) : (closed e).mapLine f = closed (e.mapLine f) :=
  Element.adjust_closed id f e

theorem name_mapLine (e : Element) : (e.mapLine f).name = e.name :=
  Element.name_adjust id f id e

variable (base : List Element)

theorem mapLine_attach (e : Element) (forest : Forest) :
    (forest.attach e).mapLine f base = (forest.mapLine f base).attach (e.mapLine f) := by
  obtain ⟨stack, roots⟩ := forest
  cases stack with
  | nil => rfl
  | cons parent outer =>
    simp only [Forest.attach, Forest.mapLine, List.map_cons, mapLine_addChild]

theorem openTag_mapLine (line : Nat) (content : List Char) :
    openTag (f line) content =
      ((openTag line content).map (Element.mapLine f)).mapError (Problem.mapLine f) := by
  simp only [openTag]
  split
  · simp only [Except.map, Except.mapError, Element.mapLine_mk]
    rfl
  · rfl

theorem append_mapLine (forest : Forest) (line : Nat) (text : List Char) :
    (forest.mapLine f base).append (f line) text =
      ((forest.append line text).map (Forest.mapLine f base)).mapError (Problem.mapLine f) := by
  obtain ⟨stack, roots⟩ := forest
  cases stack with
  | nil =>
    simp only [Forest.mapLine, List.map_nil, Forest.append]
    split <;> rfl
  | cons e outer =>
    simp only [Forest.mapLine, List.map_cons, Forest.append, mapLine_addText, Except.map,
      Except.mapError]

theorem step_mapLine (forest : Forest) (line : Nat) (token : Token) :
    (forest.mapLine f base).step (f line) token =
      ((forest.step line token).map (Forest.mapLine f base)).mapError (Problem.mapLine f) := by
  cases token with
  | start content =>
    rw [Forest.step, openTag_mapLine, Forest.step]
    cases openTag line content <;> rfl
  | empty content =>
    rw [Forest.step, openTag_mapLine, Forest.step]
    cases openTag line content with
    | error problem => rfl
    | ok e => exact congrArg Except.ok (mapLine_attach f base e forest).symm
  | close name =>
    obtain ⟨stack, roots⟩ := forest
    cases stack with
    | nil => rfl
    | cons e outer =>
      simp only [Forest.step, Forest.mapLine, List.map_cons, name_mapLine]
      split
      · rw [← mapLine_closed]
        exact congrArg Except.ok (mapLine_attach f base (closed e) ⟨outer, roots⟩).symm
      · rfl
  | text raw =>
    simp only [Forest.step]
    split
    · exact append_mapLine f base forest line _
    · rfl
  | data content => exact append_mapLine f base forest line content
  | aside => rfl
  | broken fault => rfl

theorem grow_mapLine (forest : Forest) (tokens : List (Nat × Token)) :
    (forest.mapLine f base).grow (tokens.map fun (line, token) => (f line, token)) =
      ((forest.grow tokens).map (Forest.mapLine f base)).mapError (Problem.mapLine f) := by
  induction tokens generalizing forest with
  | nil => rfl
  | cons token tokens ih =>
    obtain ⟨line, token⟩ := token
    simp only [List.map_cons, Forest.grow, step_mapLine]
    cases forest.step line token with
    | error problem => rfl
    | ok next => exact ih next

end PlanArchive.Markup
