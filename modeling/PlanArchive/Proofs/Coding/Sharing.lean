import PlanArchive.Proofs.Coding.Marks
import PlanArchive.Proofs.Markup.Position

/-!
# A reference in place of a value

Decoding comes to the elements of a document in their order. What is marked by one element, and by
no other, is still marked so when decoding comes to a later one (`marked_when_reached`). An element
that has the same value there may then refer to it: all else is decoded as before
(`yields_modifyAt`).
-/

namespace PlanArchive.Markup

/-- The element without text and children, referring to an id. -/
def Element.refer (id : String) (e : Element) : Element :=
  { e with
    attributes := Keyed.put Coding.referenceKey id e.attributes
    text := none
    children := [] }

end PlanArchive.Markup

namespace PlanArchive.Coding

open Markup Naming

/-! ## The order of slots -/

/-- Of two places in a list, the shorter front ends before the longer one. -/
theorem exists_between {α : Type} {front back front' back' : List α} {x x' : α}
    (h : front ++ x :: back = front' ++ x' :: back') (hlt : front.length < front'.length) :
    ∃ mid, front' = front ++ x :: mid := by
  rcases List.append_eq_append_iff.mp h with ⟨rest, rfl, hrest⟩ | ⟨rest, rfl, -⟩
  · cases rest with
    | nil => simp at hlt
    | cons y mid => exact ⟨mid, by rw [(List.cons.inj hrest).1]⟩
  · simp only [List.length_append] at hlt
    omega

theorem eq_of_length {α : Type} {front back front' back' : List α} {x x' : α}
    (h : front ++ x :: back = front' ++ x' :: back') (heq : front.length = front'.length) :
    front' = front ∧ x' = x := by
  obtain ⟨hfront, hback⟩ := List.append_inj h heq
  exact ⟨hfront.symm, (List.cons.inj hback).1.symm⟩

namespace Decoder

section

variable {decoder : Decoder} {c : Coder}

/-- Of two slots of a child, one is the other or comes before it. -/
theorem InSlot.of_before {child target target' : Element} {rest rest' p q : List Nat}
    {part part' : Part} {inner outer inner' outer' : List (Part × Element)}
    (h : decoder.InSlot c child rest part target inner outer)
    (h' : decoder.InSlot c child rest' part' target' inner' outer')
    (hbefore : Element.Before (rest ++ p) (rest' ++ q)) :
    (rest' = rest ∧ part' = part ∧ target' = target ∧ inner' = inner ∧ Element.Before p q) ∨
      ∃ mid, inner' = inner ++ (part, target) :: mid := by
  cases h with
  | itself htext hentries =>
    cases h' with
    | itself => exact .inl ⟨rfl, rfl, rfl, rfl, hbefore⟩
    | entry hobject hname => exact absurd hname (hentries hobject)
  | @entry front back entry hobject hname hchildren =>
    cases h' with
    | itself htext hentries => exact absurd hname (hentries hobject)
    | @entry front' back' entry' _ _ hchildren' =>
      have hsame := hchildren.symm.trans hchildren'
      rcases Element.before_cons.mp hbefore with hlt | ⟨hlength, hpq⟩
      · obtain ⟨mid, rfl⟩ := exists_between hsame hlt
        exact .inr ⟨_, List.map_append⟩
      · obtain ⟨rfl, rfl⟩ := eq_of_length hsame hlength
        exact .inl ⟨rfl, rfl, rfl, rfl, hpq⟩

/-- Of two slots of an element, one is the other or comes before it. -/
theorem Enters.of_before {children : List Element} {target target' : Element}
    {step step' p q : List Nat} {part part' : Part}
    {before after before' after' : List (Part × Element)}
    (h : decoder.Enters c children step part target before after)
    (h' : decoder.Enters c children step' part' target' before' after')
    (hbefore : Element.Before (step ++ p) (step' ++ q)) :
    (step' = step ∧ part' = part ∧ target' = target ∧ before' = before ∧ Element.Before p q) ∨
      ∃ mid, before' = before ++ (part, target) :: mid := by
  obtain @⟨_, _, _, _, _, _, _, outer, hchildren, hslot⟩ := h
  obtain @⟨_, _, _, _, _, _, inner', _, hchildren', hslot'⟩ := h'
  have hsame := hchildren.symm.trans hchildren'
  rcases Element.before_cons.mp hbefore with hlt | ⟨hlength, hpq⟩
  · obtain ⟨mid, rfl⟩ := exists_between hsame hlt
    rw [slots_append, slots_cons, hslot.slotsOf_eq]
    exact .inr ⟨outer ++ (decoder.slots c mid ++ inner'), by simp⟩
  · obtain ⟨rfl, rfl⟩ := eq_of_length hsame hlength
    rcases hslot.of_before hslot' hpq with ⟨rfl, rfl, rfl, rfl, hpq⟩ | ⟨mid, rfl⟩
    · exact .inl ⟨rfl, rfl, rfl, rfl, hpq⟩
    · exact .inr ⟨mid, by simp⟩

theorem InSlot.only {P : Element → Prop} {child target : Element} {rest p : List Nat} {part : Part}
    {inner outer : List (Part × Element)}
    (h : decoder.InSlot c child rest part target inner outer)
    (honly : child.OnlyAt P (rest ++ p)) :
    target.OnlyAt P p ∧ ∀ slot ∈ inner ++ outer, ∀ z : Element, z.Occurs slot.2 → ¬P z := by
  cases h with
  | itself => exact ⟨honly, List.forall_mem_nil _⟩
  | entry hobject hname hchildren =>
    refine ⟨honly.child hchildren, ?_⟩
    intro slot hslot z hz
    rw [← List.map_append] at hslot
    obtain ⟨entry, hentry, rfl⟩ := List.mem_map.mp hslot
    exact honly.not_beside hchildren hentry hz

/-- What is only in one slot is not in another, nor around it. -/
theorem Enters.only {P : Element → Prop} {e target : Element} {step p : List Nat} {part : Part}
    {before after : List (Part × Element)}
    (h : decoder.Enters c e.children step part target before after)
    (honly : e.OnlyAt P (step ++ p)) :
    ¬P e ∧ target.OnlyAt P p ∧
      ∀ slot ∈ before ++ after, ∀ z : Element, z.Occurs slot.2 → ¬P z := by
  obtain @⟨front, back, child, _, _, _, inner, outer, hchildren, hslot⟩ := h
  obtain ⟨htarget, hwithin⟩ := hslot.only (honly.child hchildren)
  have hbeside : ∀ slot ∈ decoder.slots c front ++ decoder.slots c back,
      ∀ z : Element, z.Occurs slot.2 → ¬P z := by
    rintro ⟨part, y⟩ hmem z hz
    rw [← slots_append] at hmem
    rcases mem_of_mem_slots hmem with hy | ⟨collection, hcollection, hy⟩
    · exact honly.not_beside hchildren hy hz
    · exact honly.not_beside hchildren hcollection (hz.trans (.of_mem hy))
  refine ⟨honly.not_here, htarget, ?_⟩
  intro slot hmem
  simp only [List.mem_append] at hmem hbeside hwithin
  rcases hmem with (hmem | hmem) | (hmem | hmem)
  · exact hbeside slot (.inl hmem)
  · exact hwithin slot (.inl hmem)
  · exact hwithin slot (.inr hmem)
  · exact hbeside slot (.inr hmem)

theorem Enters.step_eq {children : List Element} {target : Element} {step : List Nat} {part : Part}
    {before after : List (Part × Element)}
    (h : decoder.Enters c children step part target before after) :
    ∃ i rest, step = i :: rest := by
  cases h
  exact ⟨_, _, rfl⟩

theorem Enters.isEmpty {children : List Element} {target : Element} {step : List Nat}
    {part : Part} {before after : List (Part × Element)}
    (h : decoder.Enters c children step part target before after) : children.isEmpty = false := by
  obtain ⟨rfl, -⟩ := h
  simp

theorem InSlot.modify {f : Element → Element} {child target : Element} {rest p : List Nat}
    {part : Part} {inner outer : List (Part × Element)}
    (h : decoder.InSlot c child rest part target inner outer)
    (hname : (target.modifyAt f p).name = target.name) :
    decoder.InSlot c (child.modifyAt f (rest ++ p)) rest part (target.modifyAt f p) inner
      outer := by
  cases h with
  | itself htext hentries =>
    rw [← hname] at hentries ⊢
    exact .itself htext hentries
  | entry hobject hname' hchildren =>
    exact .entry hobject hname' (Element.children_modifyAt hchildren p)

/-- Slots stay as they are if what stands in one of them is modified and keeps its name. -/
theorem Enters.modify {f : Element → Element} {e target : Element} {step p : List Nat}
    {part : Part} {before after : List (Part × Element)}
    (h : decoder.Enters c e.children step part target before after)
    (hname : (target.modifyAt f p).name = target.name) :
    decoder.Enters c (e.modifyAt f (step ++ p)).children step part (target.modifyAt f p) before
      after := by
  obtain ⟨hchildren, hslot⟩ := h
  exact .child (Element.children_modifyAt hchildren _) (hslot.modify hname)

end

/-! ## Where slots lead -/

/-- An element that is looked up under a type has slots that lead to the one at the position, which
is looked up under its own type. -/
inductive Descends (decoder : Decoder) :
    Option String → Element → List Nat → Option String → Element → Prop
  | here {type : Option String} {e : Element} : Descends decoder type e [] type e
  | slot {tag : String} {e child target : Element} {binding : Binding} {c : Coder}
    {step rest : List Nat} {part : Part} {before after : List (Part × Element)}
    {type : Option String} (hopens : decoder.Opens tag e binding c)
    (hslot : decoder.Enters c e.children step part child before after)
    (h : Descends decoder (part.typeOf child) child rest type target) :
    Descends decoder (some tag) e (step ++ rest) type target

section

variable {decoder : Decoder}

theorem InSlot.at? {c : Coder} {child target : Element} {rest : List Nat} {part : Part}
    {inner outer : List (Part × Element)}
    (h : decoder.InSlot c child rest part target inner outer) (p : List Nat) :
    child.at? (rest ++ p) = target.at? p := by
  cases h with
  | itself => rfl
  | entry hobject hname hchildren => exact Element.at?_child hchildren p

/-- Slots lead to the element that stands at the position. -/
theorem Descends.at? {type type' : Option String} {e target : Element} {p : List Nat}
    (h : decoder.Descends type e p type' target) : e.at? p = some target := by
  induction h with
  | here => rfl
  | slot hopens hslot h ih =>
    obtain ⟨hchildren, hslot⟩ := hslot
    rw [List.cons_append, Element.at?_child hchildren, hslot.at?]
    exact ih

end

/-! ## How decoding comes to an element -/

/-- An element as decoding comes to it. -/
structure Visit where
  path : List String
  type : Option String
  element : Element
  ledger : Ledger

/-- The visited element is decoded to the value. -/
def Yields (decoder : Decoder) (x : Visit) (v : Value) (finish : Ledger) : Prop :=
  Runs (decoder.decode x.path x.type x.element) x.ledger v finish

/-- From one visit, decoding comes to the element at a position below: it enters a slot once the
slots before it are decoded. -/
inductive Reaches (decoder : Decoder) : Visit → List Nat → Visit → Prop
  | here {x : Visit} : Reaches decoder x [] x
  | slot {x y : Visit} {tag : String} {binding : Binding} {c : Coder} {step rest : List Nat}
    {part : Part} {child : Element} {before after : List (Part × Element)}
    {values : List (Part × Value)} {ledger : Ledger} (htype : x.type = some tag)
    (hopens : decoder.Opens tag x.element binding c)
    (hslot : decoder.Enters c x.element.children step part child before after)
    (hbefore : Runs (decoder.decodeSlots x.path [] before) x.ledger values ledger)
    (h : Reaches decoder ⟨child.name :: x.path, part.typeOf child, child, ledger⟩ rest y) :
    Reaches decoder x (step ++ rest) y

section

variable {decoder : Decoder} {x y z : Visit} {p q : List Nat} {id : String} {v w : Value}
  {s t u : Ledger}

theorem Reaches.of_slot {tag : String} {binding : Binding} {c : Coder} {step : List Nat}
    {part : Part} {child : Element} {before after : List (Part × Element)}
    {values : List (Part × Value)} (htype : x.type = some tag)
    (hopens : decoder.Opens tag x.element binding c)
    (hslot : decoder.Enters c x.element.children step part child before after)
    (hbefore : Runs (decoder.decodeSlots x.path [] before) x.ledger values t) :
    decoder.Reaches x step ⟨child.name :: x.path, part.typeOf child, child, t⟩ := by
  rw [← List.append_nil step]
  exact .slot htype hopens hslot hbefore .here

theorem Reaches.descends (h : decoder.Reaches x p y) :
    decoder.Descends x.type x.element p y.type y.element := by
  induction h with
  | here => exact .here
  | slot htype hopens hslot hbefore h ih =>
    rw [htype]
    exact .slot hopens hslot ih

/-- Decoding comes to the element that stands at the position. -/
theorem Reaches.at? (h : decoder.Reaches x p y) : x.element.at? p = some y.element :=
  h.descends.at?

/-! ## Marks last -/

/-- Slots without an id keep what it means. -/
theorem kept_by_slots (hmode : decoder.ReadsIn .document) {path : List String}
    {taken values : List (Part × Value)} {slots : List (Part × Element)}
    (hruns : Runs (decoder.decodeSlots path taken slots) s values t)
    (hnone : ∀ slot ∈ slots, ¬slot.2.Carries id) :
    Keyed.find? id t.marked = Keyed.find? id s.marked := by
  have hmarks : Marks (fun key => ∃ slot ∈ slots, slot.2.Carries key) s t :=
    marks_of_slots hmode (fun slot hslot _ _ _ _ _ h =>
      (marks_of_runs hmode h).mono fun key hkey => ⟨slot, hslot, hkey⟩) hruns
  exact hmarks.find?_eq fun ⟨slot, hslot, hid⟩ => hnone slot hslot hid

/-- The mark of a visited element is there when the decoding that it is part of has ended. -/
theorem Reaches.marked (hmode : decoder.ReadsIn .document) (h : decoder.Reaches x p y)
    (hpresent : y.element.attribute? referenceKey = none)
    (hid : y.element.attribute? idKey = some id)
    (honly : x.element.OnlyAt (fun e => e.attribute? idKey = some id) p)
    (hy : decoder.Yields y w u) (hx : decoder.Yields x v t) :
    Keyed.find? id t.marked = some w := by
  induction h generalizing v t with
  | here =>
    obtain ⟨rfl, rfl⟩ := hy.unique hx
    rcases runs_decode.mp hx with ⟨_, hreference, -⟩ | ⟨-, s, rfl, -⟩
    · rw [hpresent] at hreference
      cases hreference
    · simp only [marking, hmode.mode_eq, hid]
      rw [Keyed.find?_put, if_pos rfl]
  | @slot x y tag binding c step rest part child before after values ledger htype hopens hslot
      hbefore h ih =>
    rw [Yields, htype] at hx
    obtain ⟨all, s, hslots, -, rfl⟩ := hopens.runs_decode.mp hx
    rw [hslot.slots_eq] at hslots
    obtain ⟨front, reached, value, s', more, hfront, -, hchild, -, hmore, -⟩ :=
      runs_decodeSlots_around.mp hslots
    obtain ⟨rfl, rfl⟩ := hbefore.unique hfront
    obtain ⟨hown, hchildOnly, hothers⟩ := hslot.only honly
    have hmarked := ih hpresent hid hchildOnly hy ((runs_decodeSlot_document hmode).mp hchild)
    have hkept : Keyed.find? id s.marked = Keyed.find? id s'.marked := by
      apply kept_by_slots hmode hmore
      rintro slot hmem ⟨z, hz, hcarries⟩
      exact hothers slot (List.mem_append_right _ hmem) z hz hcarries
    have hmarking : Marks (fun key => x.element.attribute? idKey = some key) s _ :=
      marks_marking hmode _ _ (fun _ hkey => hkey) v s
    rw [hmarking.find?_eq hown, hkept, hmarked]

/-- On the way to an element, what an id means is kept if nothing around it has the id. -/
theorem Reaches.kept (hmode : decoder.ReadsIn .document) (h : decoder.Reaches x p y)
    (hnone : ¬x.element.Carries id) :
    Keyed.find? id y.ledger.marked = Keyed.find? id x.ledger.marked := by
  induction h with
  | here => rfl
  | @slot x y tag binding c step rest part child before after values ledger htype hopens hslot
      hbefore h ih =>
    have hnot : ∀ slot ∈ decoder.slots c x.element.children, ¬slot.2.Carries id :=
      fun slot hmem hcarries => hnone (carries_of_slot hcarries hmem)
    rw [hslot.slots_eq] at hnot
    rw [ih (hnot _ (List.mem_append_right _ (List.mem_cons_self ..))),
      kept_by_slots hmode hbefore fun slot hmem => hnot slot (List.mem_append_left _ hmem)]

/-- The mark of an element is there when decoding comes to a later one. -/
theorem marked_when_reached (hmode : decoder.ReadsIn .document) (h : decoder.Reaches x p y)
    (h' : decoder.Reaches x q z) (hpq : Element.Before p q)
    (hpresent : y.element.attribute? referenceKey = none)
    (hid : y.element.attribute? idKey = some id)
    (honly : x.element.OnlyAt (fun e => e.attribute? idKey = some id) p)
    (hy : decoder.Yields y w u) : Keyed.find? id z.ledger.marked = some w := by
  induction h generalizing q with
  | here => exact absurd hpq Element.nil_not_before
  | @slot x y tag binding c step rest part child before after values ledger htype hopens hslot
      hbefore h ih =>
    cases h' with
    | here => exact absurd hpq Element.not_before_nil
    | @slot _ _ _ _ _ step' rest' part' child' _ after' _ _ htype' hopens' hslot' hbefore' h' =>
      obtain rfl := Option.some.inj (htype.symm.trans htype')
      obtain ⟨rfl, rfl⟩ := hopens.unique hopens'
      obtain ⟨-, hchildOnly, hothers⟩ := hslot.only honly
      rcases hslot.of_before hslot' hpq with ⟨rfl, rfl, rfl, rfl, hpq⟩ | ⟨mid, rfl⟩
      · obtain ⟨rfl, rfl⟩ := hbefore.unique hbefore'
        exact ih h' hpq hpresent hid hchildOnly hy
      · obtain ⟨front, reached, value, s, more, hfront, -, hchild, -, hmore, -⟩ :=
          runs_decodeSlots_around.mp hbefore'
        obtain ⟨rfl, rfl⟩ := hbefore.unique hfront
        have hmarked := h.marked hmode hpresent hid hchildOnly hy
          ((runs_decodeSlot_document hmode).mp hchild)
        -- The rest of the way leads through slots behind the one with the mark.
        have hafter : after = mid ++ (part', child') :: after' := by
          have hslots := hslot.slots_eq.symm.trans hslot'.slots_eq
          rw [List.append_assoc] at hslots
          exact (List.cons.inj (List.append_cancel_left hslots)).2
        have hnot : ∀ slot ∈ after, ¬slot.2.Carries id := fun slot hmem ⟨z, hz, hcarries⟩ =>
          hothers slot (List.mem_append_right _ hmem) z hz hcarries
        rw [hafter] at hnot
        have hkept := kept_by_slots hmode hmore fun slot hmem =>
          hnot slot (List.mem_append_left _ hmem)
        have hlast := h'.kept hmode
          (hnot _ (List.mem_append_right _ (List.mem_cons_self ..)))
        rw [hlast, hkept, hmarked]

/-! ## Referring instead of repeating -/

/-- What an element yields does not change if what stands in it yields what it did. -/
theorem yields_modifyAt {f : Element → Element} (hname : ∀ e, (f e).name = e.name)
    (hclass : ∀ e, (f e).attribute? classKey = e.attribute? classKey)
    (h : decoder.Reaches x p y) (hy : decoder.Yields y w u)
    (hf : decoder.Yields { y with element := f y.element } w u) (hx : decoder.Yields x v t) :
    decoder.Yields { x with element := x.element.modifyAt f p } v t := by
  induction h generalizing v t with
  | here =>
    obtain ⟨rfl, rfl⟩ := hy.unique hx
    exact hf
  | @slot x y tag binding c step rest part child before after values ledger htype hopens hslot
      hbefore h ih =>
    have hchildName := Element.name_modifyAt hname child rest
    have hslot' := hslot.modify hchildName
    obtain ⟨i, below, rfl⟩ := hslot.step_eq
    have hopens' : decoder.Opens tag (x.element.modifyAt f (i :: below ++ rest)) binding c :=
      { hopens with present := hopens.present }
    have htypeOf : part.typeOf (child.modifyAt f rest) = part.typeOf child :=
      part.typeOf_congr hchildName (Element.attribute_modifyAt hclass child rest)
    rw [Yields, htype] at hx ⊢
    obtain ⟨all, s, hslots, hvalue, rfl⟩ := hopens.runs_decode.mp hx
    rw [hslot.slots_eq] at hslots
    obtain ⟨front, reached, value, s', back, hfront, hplace, hchild, hfit, hback, rfl⟩ :=
      runs_decodeSlots_around.mp hslots
    obtain ⟨rfl, rfl⟩ := hbefore.unique hfront
    obtain ⟨s₁, hdecode, rfl⟩ := runs_decodeSlot.mp hchild
    have hchild' : Runs (decoder.decodeSlot x.path part (child.modifyAt f rest)) reached value
        (decoder.handingOver part value s₁) := by
      refine runs_decodeSlot.mpr ⟨s₁, ?_, rfl⟩
      rw [hchildName, htypeOf]
      exact ih hy hf hdecode
    refine hopens'.runs_decode.mpr ⟨front ++ (part, value) :: back, s, ?_, ?_, rfl⟩
    · rw [hslot'.slots_eq]
      exact runs_decodeSlots_around.mpr
        ⟨front, _, value, _, back, hfront, hplace, hchild', hfit, hback, rfl⟩
    · have hempty := hslot'.isEmpty.trans hslot.isEmpty.symm
      rw [← hvalue]
      exact valueOf_congr rfl hempty rfl rfl rfl

/-- An element without ids may refer to an earlier one with the same value. -/
theorem yields_refer (hmode : decoder.ReadsIn .document) (h : decoder.Reaches x p y)
    (h' : decoder.Reaches x q z) (hpq : Element.Before p q)
    (hpresent : y.element.attribute? referenceKey = none)
    (hid : y.element.attribute? idKey = some id)
    (honly : x.element.OnlyAt (fun e => e.attribute? idKey = some id) p)
    (hfree : ∀ key, ¬z.element.Carries key) {u' : Ledger}
    (hy : decoder.Yields y w u) (hz : decoder.Yields z w u') (hx : decoder.Yields x v t) :
    decoder.Yields { x with element := x.element.modifyAt (·.refer id) q } v t := by
  have hmarked := marked_when_reached hmode h h' hpq hpresent hid honly hy
  obtain rfl : u' = z.ledger := (marks_of_runs hmode hz).eq hfree
  have href : (z.element.refer id).attribute? referenceKey = some id := by
    rw [Element.attribute?, Element.refer, Keyed.find?_put, if_pos rfl]
  have hclass : ∀ e : Element, (e.refer id).attribute? classKey = e.attribute? classKey :=
    fun e => by
      rw [Element.attribute?, Element.refer, Keyed.find?_put, if_neg (by decide)]
      rfl
  exact yields_modifyAt (fun _ => rfl) hclass h' hz
    (runs_decode.mpr (.inl ⟨id, href, hmode.mode_eq, hmarked, rfl⟩)) hx

end

end Decoder

end PlanArchive.Coding
