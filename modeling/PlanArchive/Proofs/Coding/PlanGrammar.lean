import Mathlib.Data.List.Chain
import PlanArchive.Proofs.Coding.Runs

/-!
# The grammar of plans

The children of a plan are elements, and subtrees that each belong to the element right before it
(`Ordered`). Decoding keeps the last element back until it is known whether a subtree follows. What
comes out is told child by child, from the child and the one behind it (`grown`).
-/

namespace PlanArchive.Coding.Decoder

open Markup Naming

variable {decoder : Decoder} {path : List String}

/-- No subtree comes first, and none comes right behind another. -/
structure Ordered (decoder : Decoder) (children : List Element) : Prop where
  first : ∀ child ∈ children.head?, decoder.isSubtree child.name = false
  next : children.IsChain fun child next =>
    decoder.isSubtree child.name = true → decoder.isSubtree next.name = false

/-- The plan below an element: the subtree right behind it, or else nothing. -/
def below (decoder : Decoder) : List (Element × Value) → Plan
  | [] => []
  | (child, value) :: _ => if decoder.isSubtree child.name then planOf value else []

/-- A branch for each child that is no subtree. -/
def grown (decoder : Decoder) : List (Element × Value) → Plan
  | [] => []
  | (child, value) :: rest =>
    if decoder.isSubtree child.name then grown decoder rest
    else .mk value (below decoder rest) :: grown decoder rest

/-- The same behind an element that was kept back. -/
def grownBehind (decoder : Decoder) (pending : Option Value) (pairs : List (Element × Value)) :
    Plan :=
  (pending.map (Branch.mk · (below decoder pairs))).toList ++ grown decoder pairs

/-! ## Children one by one -/

theorem runs_decodeAll_nil {s t : Ledger} {values : List Value} :
    Runs (decoder.decodeAll path []) s values t ↔ values = [] ∧ t = s :=
  runs_pure

theorem runs_decodeAll_cons {child : Element} {rest : List Element} {s t : Ledger}
    {values : List Value} :
    Runs (decoder.decodeAll path (child :: rest)) s values t ↔
      ∃ value u more, Runs (decoder.decodeTagged path child) s value u ∧
        Runs (decoder.decodeAll path rest) u more t ∧ values = value :: more := by
  simp only [decodeAll, decodeTagged, runs_bind, runs_pure]
  constructor
  · rintro ⟨value, u, hvalue, more, _, hmore, rfl, rfl⟩
    exact ⟨value, u, more, hvalue, hmore, rfl⟩
  · rintro ⟨value, u, more, hvalue, hmore, rfl⟩
    exact ⟨value, u, hvalue, more, t, hmore, rfl, rfl⟩

theorem decodePlan_subtree {child : Element} (h : decoder.isSubtree child.name = true)
    (element : Value) (rest : List Element) :
    decoder.decodePlan path (some element) (child :: rest) = (do
      let value ← decoder.decodeTagged path child
      return .mk element (planOf value) :: (← decoder.decodePlan path none rest)) := by
  rw [decodePlan, if_pos h]
  rfl

theorem decodePlan_element {child : Element} (h : decoder.isSubtree child.name = false)
    (pending : Option Value) (rest : List Element) :
    decoder.decodePlan path pending (child :: rest) = (do
      let value ← decoder.decodeTagged path child
      return leaf pending ++ (← decoder.decodePlan path (some value) rest)) := by
  rw [decodePlan.eq_def]
  simp only [h, Bool.false_eq_true, if_false]
  rfl

theorem not_runs_leading {child : Element} (h : decoder.isSubtree child.name = true)
    {rest : List Element} {s t : Ledger} {plan : Plan} :
    ¬Runs (decoder.decodePlan path none (child :: rest)) s plan t := by
  rw [decodePlan, if_pos h]
  exact not_runs_refuse

/-- Behind an element that was kept back, a subtree may come first. -/
theorem runs_decodePlan {children : List Element} {pending : Option Value} {s t : Ledger}
    {plan : Plan} :
    Runs (decoder.decodePlan path pending children) s plan t ↔
      (pending = none → ∀ child ∈ children.head?, decoder.isSubtree child.name = false) ∧
      (children.IsChain fun child next =>
        decoder.isSubtree child.name = true → decoder.isSubtree next.name = false) ∧
      ∃ values, Runs (decoder.decodeAll path children) s values t ∧
        plan = decoder.grownBehind pending (children.zip values) := by
  induction children generalizing pending s t plan with
  | nil =>
    simp only [runs_decodeAll_nil, List.head?_nil, Option.not_mem_none, false_imp_iff,
      implies_true, List.IsChain.nil, true_and]
    rw [decodePlan, runs_pure]
    constructor
    · rintro ⟨rfl, rfl⟩
      exact ⟨[], ⟨rfl, rfl⟩, by cases pending <;> rfl⟩
    · rintro ⟨_, ⟨rfl, rfl⟩, rfl⟩
      exact ⟨by cases pending <;> rfl, rfl⟩
  | cons child rest ih =>
    simp only [List.head?_cons, Option.mem_some_iff, forall_eq', List.isChain_cons,
      runs_decodeAll_cons]
    cases hchild : decoder.isSubtree child.name with
    | true =>
      cases pending with
      | none => exact iff_of_false (not_runs_leading hchild) fun h => Bool.noConfusion (h.1 rfl)
      | some element =>
        simp only [decodePlan_subtree hchild, runs_bind, runs_pure, ih, reduceCtorEq,
          false_imp_iff, true_imp_iff, true_and]
        constructor
        · rintro ⟨value, u, hvalue, _, _, ⟨hfirst, hnext, values, hvalues, rfl⟩, rfl, rfl⟩
          refine ⟨⟨hfirst, hnext⟩, _, ⟨value, u, values, hvalue, hvalues, rfl⟩, ?_⟩
          simp [grownBehind, below, grown, hchild]
        · rintro ⟨⟨hfirst, hnext⟩, _, ⟨value, u, values, hvalue, hvalues, rfl⟩, rfl⟩
          refine ⟨value, u, hvalue, _, t, ⟨hfirst, hnext, values, hvalues, rfl⟩, ?_, rfl⟩
          simp [grownBehind, below, grown, hchild]
    | false =>
      simp only [decodePlan_element hchild, runs_bind, runs_pure, ih, reduceCtorEq, false_imp_iff,
        implies_true, true_and, Bool.false_eq_true]
      constructor
      · rintro ⟨value, u, hvalue, _, _, ⟨hnext, values, hvalues, rfl⟩, rfl, rfl⟩
        refine ⟨hnext, _, ⟨value, u, values, hvalue, hvalues, rfl⟩, ?_⟩
        cases pending <;> simp [grownBehind, below, grown, hchild, leaf]
      · rintro ⟨hnext, _, ⟨value, u, values, hvalue, hvalues, rfl⟩, rfl⟩
        refine ⟨value, u, hvalue, _, t, ⟨hnext, values, hvalues, rfl⟩, ?_, rfl⟩
        cases pending <;> simp [grownBehind, below, grown, hchild, leaf]

theorem length_of_decodeAll {children : List Element} {s t : Ledger} {values : List Value}
    (h : Runs (decoder.decodeAll path children) s values t) : values.length = children.length := by
  induction children generalizing s values with
  | nil =>
    obtain ⟨rfl, -⟩ := runs_decodeAll_nil.mp h
    rfl
  | cons child rest ih =>
    obtain ⟨value, u, more, -, hmore, rfl⟩ := runs_decodeAll_cons.mp h
    exact congrArg (· + 1) (ih hmore)

/-! ## Plans -/

/-- An element that is read as a plan: only its children and its id matter. -/
theorem decode_subtree (hroster : decoder.roster.Standard) {tag : String} {e : Element}
    (hpresent : e.attribute? referenceKey = none) (htag : tag ≠ nullTag)
    (htree : decoder.isSubtree tag = true) :
    decoder.decode path (some tag) e = (do
      let plan ← decoder.decodePlan path none e.children
      decoder.mark (e.attribute? idKey) (.plan plan)
      return .plan plan) := by
  cases hbinding : decoder.resolver.binding? tag with
  | none => simp [isSubtree, hbinding] at htree
  | some binding =>
    have htype : binding.typeId = treeType := by simpa [isSubtree, hbinding] using htree
    have hcoder : decoder.roster.dedicated? binding.typeId = some .plan := by
      rw [htype]
      exact hroster.dedicated_plan
    rw [decode_eq, hpresent]
    simp only [readTyped_of_binding htag hbinding, readAs_of_dedicated binding hcoder, readWith,
      bind_assoc, pure_bind]

theorem runs_decode_subtree (hroster : decoder.roster.Standard) {tag : String} {e : Element}
    (hpresent : e.attribute? referenceKey = none) (htag : tag ≠ nullTag)
    (htree : decoder.isSubtree tag = true) {s t : Ledger} {v : Value} :
    Runs (decoder.decode path (some tag) e) s v t ↔
      ∃ plan u, Runs (decoder.decodePlan path none e.children) s plan u ∧ v = .plan plan ∧
        t = decoder.marking (e.attribute? idKey) v u := by
  simp only [decode_subtree hroster hpresent htag htree, runs_bind, runs_pure]
  constructor
  · rintro ⟨plan, u, hplan, _, _, hmark, rfl, rfl⟩
    exact ⟨plan, u, hplan, rfl, runs_mark.mp hmark⟩
  · rintro ⟨plan, u, hplan, rfl, hmark⟩
    exact ⟨plan, u, hplan, (), t, runs_mark.mpr hmark, rfl, rfl⟩

/-- A child that stands for itself: neither a reference nor null. -/
def Present (child : Element) : Prop :=
  child.attribute? referenceKey = none ∧ child.name ≠ nullTag

theorem plan_of_subtree (hroster : decoder.roster.Standard) {children : List Element}
    (hchildren : ∀ child ∈ children, Present child) {s t : Ledger} {values : List Value}
    (h : Runs (decoder.decodeAll path children) s values t) :
    ∀ pair ∈ children.zip values, decoder.isSubtree pair.1.name = true →
      ∃ plan, pair.2 = .plan plan := by
  induction children generalizing s values with
  | nil => exact List.forall_mem_nil _
  | cons child rest ih =>
    obtain ⟨hchild, hrest⟩ := List.forall_mem_cons.mp hchildren
    obtain ⟨value, u, more, hvalue, hmore, rfl⟩ := runs_decodeAll_cons.mp h
    rw [List.zip_cons_cons, List.forall_mem_cons]
    refine ⟨fun htree => ?_, ih hrest hmore⟩
    obtain ⟨plan, -, -, hplan, -⟩ :=
      (runs_decode_subtree hroster hchild.1 hchild.2 htree).mp hvalue
    exact ⟨plan, hplan⟩

/-! ## Empty subtrees -/

/-- A subtree with nothing in it. -/
structure Hollow (decoder : Decoder) (subtree : Element) : Prop where
  tree : decoder.isSubtree subtree.name = true
  named : subtree.name ≠ nullTag
  attributes : subtree.attributes = []
  children : subtree.children = []

theorem Hollow.decodeTagged_eq (hroster : decoder.roster.Standard) {subtree : Element}
    (h : decoder.Hollow subtree) : decoder.decodeTagged path subtree = pure (.plan []) := by
  obtain ⟨name, attributes, text, children, line⟩ := subtree
  obtain ⟨htree, hnamed, rfl, rfl⟩ := h
  have hmark : decoder.mark none (.plan []) = pure () := by
    cases hmode : decoder.mode <;> simp [mark, hmode]
  rw [decodeTagged, decode_subtree hroster rfl hnamed htree, decodePlan]
  simp only [leaf, pure_bind]
  exact congrArg (· >>= fun _ => pure (Value.plan [])) hmark

/-- Where no subtree follows, nothing is below the element that was kept back. -/
theorem decodePlan_unfollowed (element : Value) {rest : List Element}
    (h : ∀ next ∈ rest.head?, decoder.isSubtree next.name = false) :
    decoder.decodePlan path (some element) rest = (do
      return .mk element [] :: (← decoder.decodePlan path none rest)) := by
  cases rest with
  | nil => simp [decodePlan, leaf]
  | cons next rest =>
    have hnext : decoder.isSubtree next.name = false := h next rfl
    simp [decodePlan_element hnext, leaf]

/-- A hollow subtree behind an element that has none makes no difference. -/
theorem decodePlan_hollow (hroster : decoder.roster.Standard) {element subtree : Element}
    {back : List Element} (helement : decoder.isSubtree element.name = false)
    (hsubtree : decoder.Hollow subtree)
    (hback : ∀ next ∈ back.head?, decoder.isSubtree next.name = false)
    (front : List Element) (pending : Option Value) :
    decoder.decodePlan path pending (front ++ element :: subtree :: back) =
      decoder.decodePlan path pending (front ++ element :: back) := by
  induction front generalizing pending with
  | nil =>
    simp only [List.nil_append, decodePlan_element helement, decodePlan_subtree hsubtree.tree,
      hsubtree.decodeTagged_eq hroster, decodePlan_unfollowed _ hback, pure_bind, planOf]
  | cons child front ih =>
    rw [List.cons_append, List.cons_append]
    cases hchild : decoder.isSubtree child.name with
    | false => simp only [decodePlan_element hchild, ih]
    | true =>
      cases pending with
      | none => simp [decodePlan, hchild]
      | some kept => simp only [decodePlan_subtree hchild, ih]

/-- In order, a subtree stands behind an element and before no other subtree. -/
theorem Ordered.around {front back : List Element} {subtree : Element}
    (h : decoder.Ordered (front ++ subtree :: back))
    (htree : decoder.isSubtree subtree.name = true) :
    (∃ before element, front = before ++ [element] ∧
      decoder.isSubtree element.name = false) ∧
      ∀ next ∈ back.head?, decoder.isSubtree next.name = false := by
  obtain ⟨hfirst, hnext⟩ := h
  refine ⟨?_, ?_⟩
  · rcases List.eq_nil_or_concat front with rfl | ⟨before, element, rfl⟩
    · cases (hfirst subtree rfl).symm.trans htree
    · refine ⟨before, element, List.concat_eq_append .., ?_⟩
      rw [List.concat_eq_append, List.append_assoc, List.singleton_append,
        List.isChain_append_cons_cons] at hnext
      cases helement : decoder.isSubtree element.name with
      | false => rfl
      | true => cases (hnext.2.1 helement).symm.trans htree
  · obtain ⟨-, hchain, -⟩ := List.isChain_append.mp hnext
    exact fun next hmem => (List.isChain_cons.mp hchain).1 next hmem htree

/-- The grammar of plans. An element that is read as a plan and whose children stand for themselves
decodes just when its children do, one after another, and its subtrees each stand right behind an
element; the plan then has a branch for each child that is no subtree, with the value of the child
and the subtree right behind it. Subtrees decode to plans. Leaving out a hollow subtree keeps the
result, and so does putting one behind an element that no subtree follows. -/
theorem decode_plan_grammar (hroster : decoder.roster.Standard) {tag : String} {e : Element}
    (hpresent : e.attribute? referenceKey = none) (htag : tag ≠ nullTag)
    (htree : decoder.isSubtree tag = true) (hchildren : ∀ child ∈ e.children, Present child)
    (path : List String) :
    (∀ s v t, Runs (decoder.decode path (some tag) e) s v t ↔
      decoder.Ordered e.children ∧ ∃ values u,
        Runs (decoder.decodeAll path e.children) s values u ∧
        v = .plan (decoder.grown (e.children.zip values)) ∧
        t = decoder.marking (e.attribute? idKey) v u) ∧
    (∀ s values u, Runs (decoder.decodeAll path e.children) s values u →
      values.length = e.children.length ∧
      ∀ pair ∈ e.children.zip values, decoder.isSubtree pair.1.name = true →
        ∃ plan, pair.2 = .plan plan) ∧
    (∀ front subtree back, e.children = front ++ subtree :: back → decoder.Hollow subtree →
      ∀ s v t, Runs (decoder.decode path (some tag) e) s v t →
        Runs (decoder.decode path (some tag) { e with children := front ++ back }) s v t) ∧
    ∀ front element subtree back, e.children = front ++ element :: back →
      decoder.isSubtree element.name = false →
      (∀ next ∈ back.head?, decoder.isSubtree next.name = false) → decoder.Hollow subtree →
        decoder.decode path (some tag)
            { e with children := front ++ element :: subtree :: back } =
          decoder.decode path (some tag) e := by
  have hruns : ∀ s v t, Runs (decoder.decode path (some tag) e) s v t ↔
      decoder.Ordered e.children ∧ ∃ values u,
        Runs (decoder.decodeAll path e.children) s values u ∧
        v = .plan (decoder.grown (e.children.zip values)) ∧
        t = decoder.marking (e.attribute? idKey) v u := by
    intro s v t
    simp only [runs_decode_subtree hroster hpresent htag htree, runs_decodePlan, true_imp_iff]
    constructor
    · rintro ⟨_, u, ⟨hfirst, hnext, values, hvalues, rfl⟩, rfl, rfl⟩
      exact ⟨⟨hfirst, hnext⟩, values, u, hvalues, rfl, rfl⟩
    · rintro ⟨⟨hfirst, hnext⟩, values, u, hvalues, rfl, rfl⟩
      exact ⟨_, u, ⟨hfirst, hnext, values, hvalues, rfl⟩, rfl, rfl⟩
  -- the children are all that an element with other children may decode differently by
  have hdecode : ∀ children,
      decoder.decodePlan path none children = decoder.decodePlan path none e.children →
        decoder.decode path (some tag) { e with children } =
          decoder.decode path (some tag) e := by
    intro children hsame
    have hpresent' : ({ e with children } : Element).attribute? referenceKey = none := hpresent
    rw [decode_subtree hroster hpresent htag htree, decode_subtree hroster hpresent' htag htree]
    simp only [hsame]
    rfl
  refine ⟨hruns, fun s values u h => ⟨length_of_decodeAll h, plan_of_subtree hroster hchildren h⟩,
    ?_, ?_⟩
  · intro front subtree back heq hsubtree s v t h
    obtain ⟨hordered, -⟩ := (hruns s v t).mp h
    rw [heq] at hordered
    obtain ⟨⟨before, element, rfl, helement⟩, hback⟩ := hordered.around hsubtree.tree
    rw [hdecode]
    · exact h
    · rw [heq, List.append_assoc, List.append_assoc, List.singleton_append, List.singleton_append]
      exact (decodePlan_hollow hroster helement hsubtree hback before none).symm
  · intro front element subtree back heq helement hback hsubtree
    apply hdecode
    rw [heq]
    exact decodePlan_hollow hroster helement hsubtree hback front none

def nesting : Decoder where
  resolver := { tags := { types := [("tree", treeType)] }, renames := {}, known := .builtIn }
  roster := .basic
  mode := .document

/-- Two elements, a marked subtree behind the first and a hollow one behind the second. -/
def nested : Element where
  name := "tree"
  children := [
    { name := "string", text := some "a" },
    { name := "tree", attributes := [("id", "1")],
      children := [{ name := "string", text := some "b" }] },
    { name := "string", text := some "c" },
    { name := "tree" }]

def nestedPlan : Plan :=
  [.mk (.text "a") [.mk (.text "b") []], .mk (.text "c") []]

theorem decode_plan_grammar_nested :
    nesting.roster.Standard ∧ nested.attribute? referenceKey = none ∧
      nesting.isSubtree "tree" = true ∧ (∀ child ∈ nested.children, Present child) ∧
      nesting.Ordered nested.children ∧
      Runs (nesting.decode ["tree"] (some "tree") nested) {} (.plan nestedPlan)
        { marked := [("1", .plan [.mk (.text "b") []])] } ∧
      Runs (nesting.decode ["tree"] (some "tree")
          { nested with children := nested.children.take 3 }) {} (.plan nestedPlan)
        { marked := [("1", .plan [.mk (.text "b") []])] } := by
  have hpresent : ∀ child ∈ nested.children, Present child := by
    simp only [nested, List.forall_mem_cons, List.not_mem_nil, false_imp_iff, implies_true,
      and_true]
    exact ⟨⟨rfl, by decide⟩, ⟨rfl, by decide⟩, ⟨rfl, by decide⟩, rfl, by decide⟩
  have hstring : nesting.isSubtree "string" = false := by decide
  have htree : nesting.isSubtree "tree" = true := by decide
  have hordered : nesting.Ordered nested.children := by
    refine ⟨by simpa [nested] using hstring, ?_⟩
    simp [nested, List.isChain_cons, hstring]
  have hhollow : nesting.Hollow { name := "tree" } := ⟨htree, by decide, rfl, rfl⟩
  have hroster : nesting.roster.Standard := Roster.standard_basic
  have hreference : nested.attribute? referenceKey = none := rfl
  obtain ⟨hruns, -, hleft, -⟩ :=
    decode_plan_grammar hroster hreference (by decide) htree hpresent ["tree"]
  have hnested := (hruns {} (.plan nestedPlan) _).mpr ⟨hordered,
    [.text "a", .plan [.mk (.text "b") []], .text "c", .plan []], _, rfl, rfl, rfl⟩
  exact ⟨hroster, hreference, htree, hpresent, hordered, hnested,
    hleft (nested.children.take 3) _ [] rfl hhollow _ _ _ hnested⟩

end PlanArchive.Coding.Decoder
