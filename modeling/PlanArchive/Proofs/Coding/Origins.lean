import PlanArchive.Proofs.Coding.Written
import PlanArchive.Proofs.Markup.Position
import PlanArchive.Proofs.Related

/-!
# What elements are written for

Each element of what a value is written to is written for a field, for a value that stands on its
own, or for the entries of an object. Which of these it is, is told by its position and the value
(`Origin.at?`). All of them are well formed and carry no marks, and a class only where they are
written for a field (`sound_of_encode`).
-/

namespace PlanArchive.Coding

open Markup Naming

/-- What an element is written for. -/
inductive Origin
  | value (value : Value)
  | field (name : String) (value : Value)
  /-- The entries of an object, all in one element. -/
  | entries (entries : List Value)

namespace Origin

def isField : Origin → Bool
  | .field .. => true
  | _ => false

def ofField (pair : String × Value) : Origin := .field pair.1 pair.2

/-- What the children of the element of a value are written for, in order. -/
def partsOf (roster : Roster) : Value → List Origin
  | .null | .text _ => []
  | .object typeId fields members =>
    match roster.coderFor typeId with
    | .text | .plan => []
    | .envelope | .wrapper => members.map .value
    | .sample => (Encoder.structured fields).map ofField ++ members.map .value
    | .object => fields.map ofField ++ if members.isEmpty then [] else [.entries members]
  | .plan branches => branches.flatMap fun b => [.value b.element, .value (.plan b.children)]

def parts (roster : Roster) : Origin → List Origin
  | .value v | .field _ v => partsOf roster v
  | .entries members => members.map .value

/-- What the element at a position is written for. -/
def at? (roster : Roster) (origin : Origin) : List Nat → Option Origin
  | [] => some origin
  | i :: p => (origin.parts roster)[i]?.bind (at? roster · p)

/-- What may be written for an origin: proper names, each attribute once, not both text and
children, no marks, and a class for a field only. -/
structure Sound (origin : Origin) (e : Element) : Prop where
  name : isName e.name = true
  keys : ∀ pair ∈ e.attributes, isName pair.1 = true
  nodup : (Keyed.keys e.attributes).Nodup
  content : e.text = none ∨ e.children = []
  unmarked : e.attribute? idKey = none ∧ e.attribute? referenceKey = none
  classed : e.attribute? classKey ≠ none → origin.isField = true

end Origin

namespace Encoder

variable {encoder : Encoder}

/-- The element is written for the origin. -/
def Writes (encoder : Encoder) : Origin → Element → Prop
  | .value value, e => encoder.encode value = .ok e
  | .field name value, e => encoder.encodeField (name, value) = .ok e
  | .entries entries, e => ∃ members, encoder.encodeAll entries = .ok members ∧
      e = { name := entriesTag, children := members }

/-! ## Children -/

theorem writes_members {entries : List Value} {members : List Element}
    (h : encoder.encodeAll entries = .ok members) :
    List.Forall₂ encoder.Writes (entries.map .value) members := by
  rw [List.forall₂_map_left_iff]
  exact encodeAll_eq_ok.mp h

theorem writes_fields {fields : List (String × Value)} {parts : List Element}
    (h : List.Forall₂ (fun field e => encoder.encodeField field = .ok e) fields parts) :
    List.Forall₂ encoder.Writes (fields.map Origin.ofField) parts := by
  rw [List.forall₂_map_left_iff]
  exact h

theorem writes_collection {entries : List Value} {members : List Element}
    (h : encoder.encodeAll entries = .ok members) :
    List.Forall₂ encoder.Writes (if entries.isEmpty then [] else [.entries entries])
      (collection members) := by
  have hempty := isEmpty_eq_of_forall₂ (encodeAll_eq_ok.mp h)
  unfold collection
  rw [hempty]
  split
  · exact .nil
  · exact .cons ⟨members, h, rfl⟩ .nil

theorem writes_branches {plan : Plan} {children : List Element}
    (hcoder : encoder.roster.coderFor treeType = .plan)
    (htag : isName (encoder.resolver.tagFor treeType) = true)
    (h : encoder.encodePlan (encoder.resolver.tagFor treeType) plan = .ok children) :
    List.Forall₂ encoder.Writes
      (plan.flatMap fun b => [.value b.element, .value (.plan b.children)]) children := by
  obtain ⟨pairs, hpairs, rfl⟩ := encodePlan_eq_ok.mp h
  refine List.rel_flatMap hpairs ?_
  rintro b ⟨e, below⟩ ⟨-, helement, hbelow⟩
  have hplan : encoder.encode (.plan b.children) =
      .ok { name := encoder.resolver.tagFor treeType, children := below } :=
    encode_of_fill htag ((fill_plan_eq_ok encoder).mpr ⟨hcoder, htag, below, hbelow, rfl⟩)
  exact .cons helement (.cons hplan .nil)

/-- Filling an element puts a child into it for each part of the value. -/
theorem writes_children_of_fill {v : Value} {start e : Element} (hstart : start.children = [])
    (h : encoder.fill start v = .ok e) :
    List.Forall₂ encoder.Writes (Origin.partsOf encoder.roster v) e.children := by
  cases v with
  | null =>
    rw [fill] at h
    obtain rfl := Except.ok.inj h
    rw [hstart]
    exact .nil
  | text s =>
    obtain ⟨-, rfl⟩ := (fill_text_eq_ok encoder).mp h
    rw [hstart]
    exact .nil
  | object typeId fields entries =>
    rw [Origin.partsOf]
    cases hcoder : encoder.roster.coderFor typeId with
    | text => exact absurd h (fill_misfit encoder (.inl hcoder))
    | plan => exact absurd h (fill_misfit encoder (.inr hcoder))
    | envelope =>
      obtain ⟨plan, member, rfl, hmember, rfl⟩ := (fill_envelope encoder hcoder).mp h
      exact .cons hmember .nil
    | wrapper =>
      obtain ⟨members, hmembers, rfl⟩ := (fill_wrapper encoder hcoder).mp h
      exact writes_members hmembers
    | sample =>
      obtain ⟨head, parts, members, -, hparts, hmembers, rfl⟩ :=
        (fill_sample encoder hcoder).mp h
      exact List.rel_append (writes_fields (encodeStructured_eq_ok.mp hparts))
        (writes_members hmembers)
    | object =>
      obtain ⟨parts, members, hparts, hmembers, rfl⟩ := (fill_object encoder hcoder).mp h
      exact List.rel_append (writes_fields (encodeFields_eq_ok.mp hparts).2)
        (writes_collection hmembers)
  | plan branches =>
    obtain ⟨hcoder, htag, children, hchildren, rfl⟩ := (fill_plan_eq_ok encoder).mp h
    exact writes_branches hcoder htag hchildren

/-- The element of a field is filled, but that a text goes in whatever coder claims texts. -/
theorem fillField_eq_ok {v : Value} {e e' : Element} (h : encoder.fillField e v = .ok e') :
    encoder.fill e v = .ok e' ∨ ∃ s, v = .text s ∧ e' = { e with text := some s } := by
  cases v with
  | text s =>
    rw [fillField] at h
    exact .inr ⟨s, rfl, (Except.ok.inj h).symm⟩
  | null =>
    rw [fillField, ← fill] at h
    exact .inl h
  | _ =>
    rw [fillField] at h
    exact .inl h

theorem writes_children {origin : Origin} {e : Element} (h : encoder.Writes origin e) :
    List.Forall₂ encoder.Writes (origin.parts encoder.roster) e.children := by
  cases origin with
  | value v =>
    obtain ⟨start, hstart, hfill⟩ := Result.bind_eq_ok.mp h
    exact writes_children_of_fill (fresh_of_startValue hstart).children hfill
  | field name v =>
    obtain ⟨start, hstart, hfill⟩ := Result.bind_eq_ok.mp h
    have hfresh := fresh_of_startField hstart
    rcases fillField_eq_ok hfill with hfill | ⟨s, rfl, rfl⟩
    · exact writes_children_of_fill hfresh.children hfill
    · rw [hfresh.children]
      exact .nil
  | entries entries =>
    obtain ⟨members, hmembers, rfl⟩ := h
    exact writes_members hmembers

/-- What stands at a position is written for what belongs there. -/
theorem writes_at {origin : Origin} {e x : Element} (h : encoder.Writes origin e) {p : List Nat}
    (hx : e.at? p = some x) :
    ∃ part, origin.at? encoder.roster p = some part ∧ encoder.Writes part x := by
  induction p generalizing origin e with
  | nil =>
    obtain rfl := Option.some.inj hx
    exact ⟨origin, rfl, h⟩
  | cons i p ih =>
    obtain ⟨child, hchild, hx⟩ := Option.bind_eq_some_iff.mp hx
    have hparts := writes_children h
    obtain ⟨hi, rfl⟩ := List.getElem?_eq_some_iff.mp hchild
    have hi' : i < (origin.parts encoder.roster).length := hparts.length_eq ▸ hi
    obtain ⟨part, hpart, hwrites⟩ := ih (hparts.get hi' hi) hx
    refine ⟨part, ?_, hwrites⟩
    rw [Origin.at?, List.getElem?_eq_getElem hi', Option.bind_some]
    exact hpart

/-! ## Each element -/

theorem wellFormed_of_writes {origin : Origin} {e : Element} (h : encoder.Writes origin e) :
    e.WellFormed := by
  cases origin with
  | value v => exact wellFormed_encode encoder h
  | field name v => exact (fillsWell v).encodeField h
  | entries entries =>
    obtain ⟨members, hmembers, rfl⟩ := h
    refine .mk (by decide) (List.forall_mem_nil _) List.nodup_nil (.inl rfl) fun child hchild => ?_
    obtain ⟨entry, -, hentry⟩ :=
      exists_left_of_forall₂ (encodeAll_eq_ok.mp hmembers) child hchild
    exact wellFormed_encode encoder hentry

theorem find?_classOf {resolver : Resolver} {v : Value} {key : String} (h : key ≠ classKey) :
    Keyed.find? key (classOf resolver v) = none := by
  unfold classOf
  split
  · rfl
  · exact if_neg (Ne.symm h)

/-- Of the reserved attributes there is none but the class of a field. -/
theorem reserved_of_writes (hroster : encoder.roster.Standard) {origin : Origin} {e : Element}
    (h : encoder.Writes origin e) {key : String} (hkey : isReserved key = true)
    (hclass : key = classKey → origin.isField = false) : e.attribute? key = none := by
  cases origin with
  | value v =>
    obtain ⟨start, hstart, hfill⟩ := Result.bind_eq_ok.mp h
    obtain ⟨-, rfl⟩ := startValue_eq_ok.mp hstart
    exact (kept_fill encoder hroster hfill).reserved key hkey
  | field name v =>
    have hne : key ≠ classKey := fun heq => Bool.noConfusion (hclass heq)
    obtain ⟨start, hstart, hfill⟩ := Result.bind_eq_ok.mp h
    obtain ⟨-, -, rfl⟩ := startField_eq_ok.mp hstart
    rw [fillField_eq encoder hroster] at hfill
    exact ((kept_fill encoder hroster hfill).reserved key hkey).trans (find?_classOf hne)
  | entries members =>
    obtain ⟨_, -, rfl⟩ := h
    rfl

theorem sound_of_writes (hroster : encoder.roster.Standard) {origin : Origin} {e : Element}
    (h : encoder.Writes origin e) : origin.Sound e := by
  obtain ⟨hname, hkeys, hnodup, hcontent, -⟩ := wellFormed_of_writes h
  refine ⟨hname, hkeys, hnodup, hcontent, ⟨?_, ?_⟩, fun hclass => ?_⟩
  · exact reserved_of_writes hroster h (by decide) fun heq => absurd heq (by decide)
  · exact reserved_of_writes hroster h (by decide) fun heq => absurd heq (by decide)
  · by_contra hfield
    exact hclass (reserved_of_writes hroster h (by decide) fun _ => Bool.eq_false_iff.mpr hfield)

/-- Every element of what a value is written to, at whatever position, is written for the part of
the value that belongs there. It has a proper name, properly named attributes, each of them once,
not both text and children, and neither `id` nor `reference`; a `class` it has only if it is written
for a field. -/
theorem sound_of_encode (hroster : encoder.roster.Standard) {v : Value} {e : Element}
    (h : encoder.encode v = .ok e) (p : List Nat) (x : Element) (hx : e.at? p = some x) :
    ∃ origin, (Origin.value v).at? encoder.roster p = some origin ∧ encoder.Writes origin x ∧
      origin.Sound x := by
  have hroot : encoder.Writes (.value v) e := h
  obtain ⟨origin, horigin, hwrites⟩ := writes_at hroot hx
  exact ⟨origin, horigin, hwrites, sound_of_writes hroster hwrites⟩

/-- A sample with a plan in a field and null for an entry. -/
def planned : Value :=
  .object sampleType [("lb", .text "home"), ("data", .plan [.mk (.text "x") []])] [.null]

/-- Records are saved along with an event, which overrules what they say themselves. -/
def eventful : Encoder where
  resolver :=
    { tags := { primaries := [(treeType, "tree"), (sampleType, "sample")] }
      renames := {}
      known := .builtIn }
  roster := Roster.basic.add .sample
  event := some { hostname := "h1", sampleVariables := [("lb", "away"), ("v", "1")] }

def plannedElement : Element where
  name := "sample"
  attributes := [("lb", "away"), ("hn", "h1"), ("v", "1")]
  children := [
    { name := "data", attributes := [("class", "tree")],
      children := [{ name := "string", text := some "x" }, { name := "tree" }] },
    { name := "null" }]

theorem encode_planned : eventful.encode planned = .ok plannedElement := by
  have hstring : eventful.encode (.text "x") = .ok { name := "string", text := some "x" } :=
    encode_of_fill (by decide) ((fill_text_eq_ok _).mpr ⟨rfl, rfl⟩)
  have hnull : eventful.encode .null = .ok { name := "null" } :=
    encode_of_fill (by decide) (by rw [fill]; rfl)
  have htag : isName (eventful.resolver.tagFor treeType) = true := by decide
  have hplan : eventful.encodePlan "tree" [.mk (.text "x") []] =
      .ok [{ name := "string", text := some "x" }, { name := "tree" }] := by
    refine encodePlan_eq_ok.mpr ⟨[(_, [])], .cons ⟨rfl, hstring, ?_⟩ .nil, rfl⟩
    rw [Branch.children, encodePlan]
  have hdata : eventful.encodeField ("data", .plan [.mk (.text "x") []]) =
      .ok { name := "data", attributes := [("class", "tree")],
            children := [{ name := "string", text := some "x" }, { name := "tree" }] } := by
    refine Result.bind_eq_ok.mpr ⟨_, startField_eq_ok.mpr ⟨by decide, fun _ => htag, rfl⟩, ?_⟩
    rw [fillField]
    exact (fill_plan_eq_ok _).mpr ⟨rfl, htag, _, hplan, rfl⟩
  exact encode_of_fill (by decide) ((fill_sample _ rfl).mpr ⟨_, _, _, rfl,
    encodeStructured_eq_ok.mpr (.cons hdata .nil), encodeAll_eq_ok.mpr (.cons hnull .nil), rfl⟩)

theorem sound_of_encode_planned :
    eventful.roster.Standard ∧ eventful.encode planned = .ok plannedElement ∧
      ∀ p x, plannedElement.at? p = some x →
        ∃ origin, (Origin.value planned).at? eventful.roster p = some origin ∧
          eventful.Writes origin x ∧ origin.Sound x :=
  have hroster : eventful.roster.Standard := Roster.standard_basic.add (by decide)
  ⟨hroster, encode_planned, sound_of_encode hroster encode_planned⟩

end Encoder

end PlanArchive.Coding
