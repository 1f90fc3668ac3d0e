import PlanArchive.Proofs.Coding.Follows
import PlanArchive.Proofs.Coding.Sharing

/-!
# The way of decoding

From the root, decoding goes down from slot to slot. It fails just where an element that it comes
to is broken (`refuses_iff`).
-/

namespace PlanArchive.Coding

open Markup Naming

variable {α β : Type}

/-! ## Steps that fail -/

theorem fails_bind_iff {m : Decoding α} {f : α → Decoding β} {s t : Ledger} {failure : Failure} :
    Fails (m >>= f) s failure t ↔
      Fails m s failure t ∨ ∃ a u, Runs m s a u ∧ Fails (f a) u failure t := by
  constructor
  · intro h
    rcases runs_or_fails m s with ⟨a, u, hm⟩ | ⟨failure', u, hm⟩
    · unfold Runs Fails at *
      rw [run_bind, hm] at h
      exact .inr ⟨a, u, hm, h⟩
    · obtain ⟨hfailure, rfl⟩ := Prod.mk.inj ((hm.bind f).symm.trans h)
      obtain rfl := Except.error.inj hfailure
      exact .inl hm
  · rintro (hm | ⟨a, u, hm, hf⟩)
    · exact hm.bind f
    · exact hm.fails_bind hf

theorem fails_refuse {what : Malformation} {place : Place} {s t : Ledger} {failure : Failure} :
    Fails (Decoder.refuse what place : Decoding α) s failure t ↔
      failure = .malformed what place ∧ t = s := by
  constructor
  · rintro ⟨⟩
    exact ⟨rfl, rfl⟩
  · rintro ⟨rfl, rfl⟩
    rfl

theorem not_fails_pure {a : α} {s t : Ledger} {failure : Failure} :
    ¬Fails (pure a : Decoding α) s failure t := by
  rintro ⟨⟩

namespace Decoder

/-! ## From slot to slot -/

/-- A slot as decoding comes to it: what earlier slots hold, and the ledger. -/
structure Arrival where
  part : Part
  child : Element
  taken : List (Part × Value)
  ledger : Ledger

/-- The element at the top as decoding starts with it. -/
def Visit.root (e : Element) : Visit := ⟨[e.name], some e.name, e, {}⟩

def Arrival.visit (path : List String) (a : Arrival) : Visit :=
  ⟨a.child.name :: path, a.part.typeOf a.child, a.child, a.ledger⟩

/-- Decoding slots one after another comes to one of them. -/
inductive Comes (decoder : Decoder) (path : List String) (a : Arrival) :
    List (Part × Value) → List (Part × Element) → Ledger → Prop
  | here {rest : List (Part × Element)} :
    Comes decoder path a a.taken ((a.part, a.child) :: rest) a.ledger
  | later {taken : List (Part × Value)} {part : Part} {child : Element} {value : Value}
    {rest : List (Part × Element)} {s t : Ledger} (hplace : misplaced taken part = false)
    (hvalue : Runs (decoder.decodeSlot path part child) s value t)
    (hfit : unfit taken part value = false)
    (h : Comes decoder path a (taken ++ [(part, value)]) rest t) :
    Comes decoder path a taken ((part, child) :: rest) s

/-- Decoding an element comes to one of its slots. -/
def Meets (decoder : Decoder) (x : Visit) (a : Arrival) : Prop :=
  ∃ tag binding c, x.type = some tag ∧ decoder.Opens tag x.element binding c ∧
    decoder.Comes x.path a [] (decoder.slots c x.element.children) x.ledger

/-- From one element decoding comes to another, at any depth. -/
inductive Visits (decoder : Decoder) : Visit → Visit → Prop
  | here {x : Visit} : Visits decoder x x
  | into {x z : Visit} {a : Arrival} (hmeets : decoder.Meets x a)
    (hplace : misplaced a.taken a.part = false) (h : Visits decoder (a.visit x.path) z) :
    Visits decoder x z

section

variable {decoder : Decoder} {path : List String} {a : Arrival} {x y z : Visit} {s t : Ledger}
  {failure : Failure}

theorem Comes.mem_slots {taken : List (Part × Value)} {slots : List (Part × Element)}
    (h : decoder.Comes path a taken slots s) : (a.part, a.child) ∈ slots := by
  induction h with
  | here => exact List.mem_cons_self ..
  | later _ _ _ _ ih => exact List.mem_cons_of_mem _ ih

/-- The first slot, or a later one once the first is decoded. -/
theorem comes_cons {taken : List (Part × Value)} {part : Part} {child : Element}
    {rest : List (Part × Element)} :
    decoder.Comes path a taken ((part, child) :: rest) s ↔
      a = ⟨part, child, taken, s⟩ ∨ misplaced taken part = false ∧
        ∃ value t, Runs (decoder.decodeSlot path part child) s value t ∧
          unfit taken part value = false ∧
          decoder.Comes path a (taken ++ [(part, value)]) rest t := by
  constructor
  · intro h
    cases h with
    | here => exact .inl rfl
    | later hplace hvalue hfit h => exact .inr ⟨hplace, _, _, hvalue, hfit, h⟩
  · rintro (rfl | ⟨hplace, value, t, hvalue, hfit, h⟩)
    · exact .here
    · exact .later hplace hvalue hfit h

/-- A slot fails just when the element in it does. -/
theorem fails_decodeSlot {part : Part} {child : Element} :
    Fails (decoder.decodeSlot path part child) s failure t ↔
      Fails (decoder.decode (child.name :: path) (part.typeOf child) child) s failure t := by
  cases part with
  | record =>
    have hdeliver : ∀ (record : Value) (u : Ledger) (failure : Failure) (t : Ledger),
        ¬Fails (decoder.deliver record) u failure t := by
      intro record u failure t
      unfold deliver
      cases decoder.delivers <;> rintro ⟨⟩
    simp only [decodeSlot, fails_bind_iff, hdeliver, not_fails_pure, and_false, exists_false,
      or_false]
    rfl
  | _ => rfl

/-! ## Where decoding fails -/

/-- Decoding does not get past a slot. -/
inductive Stuck (decoder : Decoder) (path : List String) (a : Arrival) : Failure → Prop
  | misplaced (hplace : misplaced a.taken a.part = true) :
    Stuck decoder path a
      (.malformed (.leadingSubtree a.child.name) (placeOf path a.child.line))
  | failed {failure : Failure} {finish : Ledger} (hplace : Decoder.misplaced a.taken a.part = false)
    (h : Fails (decoder.decode (a.child.name :: path) (a.part.typeOf a.child) a.child) a.ledger
      failure finish) : Stuck decoder path a failure
  | unfit {value : Value} {finish : Ledger} (hplace : Decoder.misplaced a.taken a.part = false)
    (hvalue : decoder.Yields (a.visit path) value finish)
    (hfit : unfit a.taken a.part value = true) :
    Stuck decoder path a
      (.malformed (.unexpectedInEnvelope a.child.name value.typeId?) (placeOf path a.child.line))

theorem fails_decodeSlots {taken : List (Part × Value)} {slots : List (Part × Element)} :
    (∃ t, Fails (decoder.decodeSlots path taken slots) s failure t) ↔
      ∃ a, decoder.Comes path a taken slots s ∧ decoder.Stuck path a failure := by
  induction slots generalizing taken s with
  | nil =>
    rw [decodeSlots]
    refine iff_of_false ?_ ?_
    · rintro ⟨t, h⟩
      exact not_fails_pure h
    · rintro ⟨a, ⟨⟩, -⟩
  | cons slot rest ih =>
    obtain ⟨part, child⟩ := slot
    simp only [decodeSlots, comes_cons]
    cases hplace : Decoder.misplaced taken part with
    | true =>
      simp only [if_true, fails_refuse, Bool.true_eq_false, false_and, or_false,
        exists_eq_left, exists_and_left, exists_eq, and_true]
      constructor
      · rintro rfl
        exact .misplaced hplace
      · rintro (_ | ⟨hplace', -⟩ | ⟨hplace', -⟩)
        · rfl
        · exact absurd (hplace.symm.trans hplace') (by decide)
        · exact absurd (hplace.symm.trans hplace') (by decide)
    | false =>
      simp only [Bool.false_eq_true, if_false, true_and, fails_bind_iff, fails_decodeSlot]
      constructor
      · rintro ⟨t, h | ⟨value, u, hvalue, h⟩⟩
        · exact ⟨_, .inl rfl, .failed hplace h⟩
        · cases hfit : Decoder.unfit taken part value with
          | true =>
            rw [hfit, if_pos rfl, fails_refuse] at h
            obtain ⟨rfl, rfl⟩ := h
            obtain ⟨finish, hdecode, -⟩ := runs_decodeSlot.mp hvalue
            exact ⟨_, .inl rfl, .unfit hplace hdecode hfit⟩
          | false =>
            simp only [hfit, Bool.false_eq_true, if_false, fails_bind_iff, not_fails_pure,
              and_false, exists_false, or_false] at h
            obtain ⟨a, hcomes, hstuck⟩ := ih.mp ⟨t, h⟩
            exact ⟨a, .inr ⟨value, u, hvalue, hfit, hcomes⟩, hstuck⟩
      · rintro ⟨a, rfl | ⟨value, u, hvalue, hfit, hcomes⟩, hstuck⟩
        · cases hstuck with
          | misplaced hplace' => exact absurd (hplace.symm.trans hplace') (by decide)
          | failed _ h => exact ⟨_, .inl h⟩
          | @unfit value finish _ hvalue hfit =>
            refine ⟨decoder.handingOver part value finish, .inr ⟨value, _,
              runs_decodeSlot.mpr ⟨finish, hvalue, rfl⟩, ?_⟩⟩
            rw [if_pos hfit]
            exact fails_refuse.mpr ⟨rfl, rfl⟩
        · obtain ⟨t, h⟩ := ih.mpr ⟨a, hcomes, hstuck⟩
          refine ⟨t, .inr ⟨value, u, hvalue, ?_⟩⟩
          rw [hfit, if_neg Bool.false_ne_true]
          exact h.bind _

/-- What is wrong with an element itself, or with the place of something in it. -/
inductive Broken (decoder : Decoder) (x : Visit) : Failure → Prop
  | referenceInLog {id : String} (hid : x.element.attribute? referenceKey = some id)
    (hmode : decoder.mode = .log) :
    Broken decoder x (.malformed .referenceInLog (placeOf x.path x.element.line))
  | unknownReference {id : String} (hid : x.element.attribute? referenceKey = some id)
    (hmode : decoder.mode = .document) (hmarked : Keyed.find? id x.ledger.marked = none) :
    Broken decoder x (.malformed (.unknownReference id) (placeOf x.path x.element.line))
  | untyped (hpresent : x.element.attribute? referenceKey = none) (htype : x.type = none)
    (hchildren : x.element.children ≠ []) :
    Broken decoder x (.malformed (.untyped x.element.name) (placeOf x.path x.element.line))
  | unknownType {tag : String} (hpresent : x.element.attribute? referenceKey = none)
    (htype : x.type = some tag) (htag : tag ≠ nullTag)
    (hbinding : decoder.resolver.binding? tag = none) :
    Broken decoder x (.unknownType tag (placeOf x.path x.element.line))
  | noCoder {tag : String} {binding : Binding}
    (hpresent : x.element.attribute? referenceKey = none) (htype : x.type = some tag)
    (htag : tag ≠ nullTag) (hbinding : decoder.resolver.binding? tag = some binding)
    (hneeds : binding.needsCoder = true)
    (hnone : decoder.roster.dedicated? binding.typeId = none) :
    Broken decoder x (.malformed (.noCoder binding.typeId) (placeOf x.path x.element.line))
  | incomplete {tag : String} {binding : Binding} {c : Coder} {values : List (Part × Value)}
    {finish : Ledger} (htype : x.type = some tag) (hopens : decoder.Opens tag x.element binding c)
    (hvalues : Runs (decoder.decodeSlots x.path [] (decoder.slots c x.element.children)) x.ledger
      values finish)
    (hvalue : decoder.valueOf? c binding.typeId x.element values = none) :
    Broken decoder x (.malformed (decoder.complaint c x.element) (placeOf x.path x.element.line))
  | leadingSubtree {a : Arrival} (hmeets : decoder.Meets x a)
    (hplace : misplaced a.taken a.part = true) :
    Broken decoder x (.malformed (.leadingSubtree a.child.name) (placeOf x.path a.child.line))
  | unexpected {a : Arrival} {value : Value} {finish : Ledger} (hmeets : decoder.Meets x a)
    (hplace : misplaced a.taken a.part = false)
    (hvalue : decoder.Yields (a.visit x.path) value finish)
    (hfit : unfit a.taken a.part value = true) :
    Broken decoder x (.malformed (.unexpectedInEnvelope a.child.name value.typeId?)
      (placeOf x.path a.child.line))

/-- The visited element is not decoded, and that is the failure. -/
def Refuses (decoder : Decoder) (x : Visit) (failure : Failure) : Prop :=
  ∃ finish, Fails (decoder.decode x.path x.type x.element) x.ledger failure finish

theorem not_fails_mark {id : Option String} {value : Value} :
    ¬Fails (decoder.mark id value) s failure t := by
  have hrun : Runs (decoder.mark id value) s () (decoder.marking id value s) := runs_mark.mpr rfl
  intro h
  cases hrun.symm.trans h

/-- Without a reference, what fails is the reading of the value. -/
theorem refuses_iff_readTyped (hpresent : x.element.attribute? referenceKey = none) :
    decoder.Refuses x failure ↔
      ∃ t, Fails (decoder.readTyped x.path x.type x.element) x.ledger failure t := by
  simp only [Refuses, decode_eq, hpresent, fails_bind_iff, not_fails_mark, not_fails_pure,
    and_false, exists_false, or_false]

theorem refuses_of_opens {tag : String} {binding : Binding} {c : Coder} (htype : x.type = some tag)
    (hopens : decoder.Opens tag x.element binding c) :
    decoder.Refuses x failure ↔
      (∃ t, Fails (decoder.decodeSlots x.path [] (decoder.slots c x.element.children)) x.ledger
        failure t) ∨
      ∃ values u, Runs (decoder.decodeSlots x.path [] (decoder.slots c x.element.children)) x.ledger
        values u ∧ decoder.valueOf? c binding.typeId x.element values = none ∧
        failure = .malformed (decoder.complaint c x.element) (placeOf x.path x.element.line) := by
  have hbuild : ∀ values u t, Fails (decoder.build x.path c binding.typeId x.element values) u
      failure t ↔ decoder.valueOf? c binding.typeId x.element values = none ∧
        failure = .malformed (decoder.complaint c x.element) (placeOf x.path x.element.line) ∧
          t = u := by
    intro values u t
    unfold build
    cases decoder.valueOf? c binding.typeId x.element values with
    | none => simp [fails_refuse]
    | some value => simp [not_fails_pure]
  rw [refuses_iff_readTyped hopens.present, htype, hopens.readTyped_eq]
  simp only [fails_bind_iff, hbuild]
  constructor
  · rintro ⟨t, h | ⟨values, u, hvalues, hvalue, hfailure, -⟩⟩
    · exact .inl ⟨t, h⟩
    · exact .inr ⟨values, u, hvalues, hvalue, hfailure⟩
  · rintro (⟨t, h⟩ | ⟨values, u, hvalues, hvalue, hfailure⟩)
    · exact ⟨t, .inl h⟩
    · exact ⟨u, .inr ⟨values, u, hvalues, hvalue, hfailure, rfl⟩⟩

/-- Where no coder reads an element, it is read at once, or it is broken. -/
theorem readTyped_of_not_opens (hpresent : x.element.attribute? referenceKey = none)
    (hnone : ∀ tag binding c, x.type = some tag → ¬decoder.Opens tag x.element binding c) :
    (∃ v, decoder.readTyped x.path x.type x.element = pure v) ∨
      ∃ failure, decoder.Broken x failure ∧
        decoder.readTyped x.path x.type x.element = throw failure := by
  cases htype : x.type with
  | none =>
    rw [readTyped]
    split
    · exact .inl ⟨_, rfl⟩
    · rename_i hchildren
      exact .inr ⟨_, .untyped hpresent htype (by simpa using hchildren), rfl⟩
  | some tag =>
    rw [readTyped]
    split
    · exact .inl ⟨_, rfl⟩
    · rename_i htag
      cases hbinding : decoder.resolver.binding? tag with
      | none => exact .inr ⟨_, .unknownType hpresent htype htag hbinding, rfl⟩
      | some binding =>
        simp only [readAs]
        split
        · rename_i hneeds
          simp only [Bool.and_eq_true, Option.isNone_iff_eq_none] at hneeds
          exact .inr ⟨_, .noCoder hpresent htype htag hbinding hneeds.1 hneeds.2, rfl⟩
        · -- a known type whose coder is there opens the element
          rename_i hneeds
          refine absurd ⟨hpresent, htag, hbinding, ?_, rfl⟩ (hnone tag binding _ htype)
          simpa [Option.isSome_iff_ne_none] using hneeds

/-- An element that no coder reads is broken if it is refused. -/
theorem broken_of_refuses (hnone : ∀ tag binding c, x.type = some tag →
    ¬decoder.Opens tag x.element binding c) (h : decoder.Refuses x failure) :
    decoder.Broken x failure := by
  cases hpresent : x.element.attribute? referenceKey with
  | some id =>
    obtain ⟨t, h⟩ := h
    rw [decode_eq, hpresent] at h
    cases hmode : decoder.mode with
    | log =>
      simp only [resolve_in_log hmode, fails_refuse] at h
      rw [h.1]
      exact .referenceInLog hpresent hmode
    | document =>
      unfold Fails at h
      simp only [run_resolve hmode] at h
      cases hmarked : Keyed.find? id x.ledger.marked with
      | none =>
        rw [hmarked] at h
        obtain rfl := Except.error.inj (Prod.mk.inj h).1
        exact .unknownReference hpresent hmode hmarked
      | some value =>
        rw [hmarked] at h
        cases h
  | none =>
    obtain ⟨t, h⟩ := (refuses_iff_readTyped hpresent).mp h
    rcases readTyped_of_not_opens hpresent hnone with ⟨v, hread⟩ | ⟨failure', hbroken, hread⟩
    · rw [hread] at h
      exact absurd h not_fails_pure
    · rw [hread] at h
      cases h
      exact hbroken

/-- Decoding an element fails where it is broken, or in a slot. -/
theorem refuses_cases (h : decoder.Refuses x failure) :
    decoder.Broken x failure ∨ ∃ a, decoder.Meets x a ∧ misplaced a.taken a.part = false ∧
      decoder.Refuses (a.visit x.path) failure := by
  by_cases hopens : ∃ tag binding c, x.type = some tag ∧ decoder.Opens tag x.element binding c
  · obtain ⟨tag, binding, c, htype, hopens⟩ := hopens
    rcases (refuses_of_opens htype hopens).mp h with hslots | ⟨values, u, hvalues, hvalue, rfl⟩
    · obtain ⟨a, hcomes, hstuck⟩ := fails_decodeSlots.mp hslots
      have hmeets : decoder.Meets x a := ⟨tag, binding, c, htype, hopens, hcomes⟩
      cases hstuck with
      | misplaced hplace => exact .inl (.leadingSubtree hmeets hplace)
      | failed hplace h => exact .inr ⟨a, hmeets, hplace, _, h⟩
      | unfit hplace hvalue hfit => exact .inl (.unexpected hmeets hplace hvalue hfit)
    · exact .inl (.incomplete htype hopens hvalues hvalue)
  · simp only [not_exists, not_and] at hopens
    exact .inl (broken_of_refuses hopens h)

theorem refuses_of_broken (h : decoder.Broken x failure) : decoder.Refuses x failure := by
  have hmet : ∀ {a : Arrival}, decoder.Meets x a → decoder.Stuck x.path a failure →
      decoder.Refuses x failure := by
    rintro a ⟨tag, binding, c, htype, hopens, hcomes⟩ hstuck
    exact (refuses_of_opens htype hopens).mpr (.inl (fails_decodeSlots.mpr ⟨a, hcomes, hstuck⟩))
  cases h with
  | referenceInLog hid hmode =>
    refine ⟨x.ledger, ?_⟩
    simp only [decode_eq, hid, resolve_in_log hmode]
    rfl
  | unknownReference hid hmode hmarked =>
    refine ⟨x.ledger, ?_⟩
    rw [decode_eq, hid, Fails]
    simp only [run_resolve hmode, hmarked]
  | untyped hpresent htype hchildren =>
    refine (refuses_iff_readTyped hpresent).mpr ⟨x.ledger, ?_⟩
    rw [htype, readTyped, if_neg (by simpa using hchildren)]
    rfl
  | unknownType hpresent htype htag hbinding =>
    refine (refuses_iff_readTyped hpresent).mpr ⟨x.ledger, ?_⟩
    simp only [htype, readTyped, if_neg htag, hbinding]
    rfl
  | noCoder hpresent htype htag hbinding hneeds hnone =>
    refine (refuses_iff_readTyped hpresent).mpr ⟨x.ledger, ?_⟩
    simp only [htype, readTyped_of_binding htag hbinding, readAs, hneeds, hnone]
    rfl
  | incomplete htype hopens hvalues hvalue =>
    exact (refuses_of_opens htype hopens).mpr (.inr ⟨_, _, hvalues, hvalue, rfl⟩)
  | leadingSubtree hmeets hplace => exact hmet hmeets (.misplaced hplace)
  | unexpected hmeets hplace hvalue hfit => exact hmet hmeets (.unfit hplace hvalue hfit)

/-- Decoding fails where an element that it comes to is broken. -/
theorem exists_broken_of_refuses (h : decoder.Refuses x failure) :
    ∃ y, decoder.Visits x y ∧ decoder.Broken y failure := by
  obtain ⟨path, type, e, s⟩ := x
  -- on elements: what stands in a slot is a child, or an entry in one
  induction e using Element.induct generalizing path type s with
  | step e ih =>
    rcases refuses_cases h with hbroken | ⟨a, hmeets, hplace, h⟩
    · exact ⟨_, .here, hbroken⟩
    · have hmem : ∃ y, decoder.Visits (a.visit path) y ∧ decoder.Broken y failure := by
        obtain ⟨tag, binding, c, htype, hopens, hcomes⟩ := hmeets
        rcases mem_of_mem_slots hcomes.mem_slots with hchild | ⟨collection, hcollection, hentry⟩
        · exact (ih a.child hchild).1 _ _ _ h
        · exact (ih collection hcollection).2 a.child hentry _ _ _ h
      obtain ⟨y, hvisits, hbroken⟩ := hmem
      exact ⟨y, .into hmeets hplace hvisits, hbroken⟩

/-- Decoding fails just where an element that it comes to is broken. -/
theorem refuses_iff :
    decoder.Refuses x failure ↔ ∃ y, decoder.Visits x y ∧ decoder.Broken y failure := by
  refine ⟨exists_broken_of_refuses, ?_⟩
  rintro ⟨y, hvisits, hbroken⟩
  induction hvisits with
  | here => exact refuses_of_broken hbroken
  | into hmeets hplace _ ih =>
    obtain ⟨tag, binding, c, htype, hopens, hcomes⟩ := hmeets
    obtain ⟨finish, h⟩ := ih hbroken
    exact (refuses_of_opens htype hopens).mpr
      (.inl (fails_decodeSlots.mpr ⟨_, hcomes, .failed hplace h⟩))

end

end Decoder

end PlanArchive.Coding
