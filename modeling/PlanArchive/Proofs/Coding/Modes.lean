import PlanArchive.Proofs.Coding.Follows
import PlanArchive.Proofs.Coding.Marks

/-!
# Documents and logs decoded alike

An element without references and without a wrapper gives the same value in a document and in a
log, or fails alike, and in a log nothing of it is handed over on the way (`mirrors_decode`).
-/

namespace PlanArchive.Coding

open Markup Naming

variable {α β : Type}

/-- Whatever was gathered before, both programs end with one result, and the second one hands
nothing over. -/
def Mirrors (m m' : Decoding α) : Prop :=
  ∃ result, (∀ ledger, (m.run.run ledger).1 = result) ∧ Hands m' result []

theorem mirrors_pure (a : α) : Mirrors (pure a : Decoding α) (pure a) :=
  ⟨.ok a, fun _ => rfl, hands_pure a⟩

theorem mirrors_throw (failure : Failure) : Mirrors (throw failure : Decoding α) (throw failure) :=
  ⟨.error failure, fun _ => rfl, hands_throw failure⟩

theorem mirrors_refuse (what : Malformation) (place : Place) :
    Mirrors (Decoder.refuse what place : Decoding α) (Decoder.refuse what place) :=
  mirrors_throw _

theorem mirrors_bind {m m' : Decoding α} {f f' : α → Decoding β} (hm : Mirrors m m')
    (hf : ∀ a, Mirrors (f a) (f' a)) : Mirrors (m >>= f) (m' >>= f') := by
  obtain ⟨result, hrun, hhands⟩ := hm
  have hstep : ∀ ledger, ∃ after, m.run.run ledger = (result, after) := fun ledger =>
    ⟨(m.run.run ledger).2, Prod.ext (hrun ledger) rfl⟩
  cases result with
  | ok a =>
    obtain ⟨next, hnext, hhands'⟩ := hf a
    refine ⟨next, fun ledger => ?_, hhands.bind hhands'⟩
    obtain ⟨after, hafter⟩ := hstep ledger
    rw [run_bind, hafter]
    exact hnext after
  | error failure =>
    refine ⟨.error failure, fun ledger => ?_, hhands.bind_error f'⟩
    obtain ⟨after, hafter⟩ := hstep ledger
    rw [run_bind, hafter]

/-- The element refers to no other one, and what may name its type does not name a wrapper. -/
structure SelfContained (resolver : Resolver) (e : Element) : Prop where
  no_reference : e.attribute? referenceKey = none
  no_wrapper : ∀ tag binding, tag = e.name ∨ e.attribute? classKey = some tag →
    resolver.binding? tag = some binding → binding.typeId ≠ wrapperType

namespace Decoder

variable {resolver : Resolver} {roster : Roster}

theorem mirrors_mark (id : Option String) (value : Value) :
    Mirrors (mark { resolver, roster, mode := .document } id value)
      (mark { resolver, roster, mode := .log } id value) := by
  refine ⟨.ok (), fun ledger => ?_, ?_⟩
  · cases id <;> rfl
  · rw [mark_in_log rfl]
    exact hands_pure ()

theorem slots_in_log (c : Coder) (children : List Element) :
    slots { resolver, roster, mode := .log } c children =
      slots { resolver, roster, mode := .document } c children := by
  cases c <;> rfl

/-- Only wrappers have records in their slots. -/
theorem part_ne_record {decoder : Decoder} {c : Coder} (hc : c ≠ .wrapper)
    {children : List Element} {slot : Part × Element} (h : slot ∈ decoder.slots c children) :
    slot.1 ≠ .record := by
  obtain ⟨child, -, hslot⟩ := List.mem_flatMap.mp h
  unfold slotsOf at hslot
  split at hslot
  · cases hslot
  · split at hslot
    · obtain ⟨entry, -, rfl⟩ := List.mem_map.mp hslot
      rintro ⟨⟩
    · rw [List.mem_singleton.mp hslot]
      cases c with
      | wrapper => exact absurd rfl hc
      | plan =>
        simp only [partOf]
        split <;> rintro ⟨⟩
      | sample =>
        simp only [partOf]
        split <;> rintro ⟨⟩
      | _ => rintro ⟨⟩

theorem decodeSlot_of_ne_record {decoder : Decoder} {path : List String} {part : Part}
    (h : part ≠ .record) (child : Element) :
    decoder.decodeSlot path part child =
      decoder.decode (child.name :: path) (part.typeOf child) child := by
  cases part with
  | record => exact absurd rfl h
  | _ => rfl

/-- The element is decoded alike in both modes, wherever it stands. -/
def MirrorsAt (resolver : Resolver) (roster : Roster) (e : Element) : Prop :=
  ∀ path type, type = some e.name ∨ type = e.attribute? classKey →
    Mirrors (decode { resolver, roster, mode := .document } path type e)
      (decode { resolver, roster, mode := .log } path type e)

theorem mirrors_decodeSlots (path : List String) (taken : List (Part × Value))
    {slots : List (Part × Element)}
    (h : ∀ slot ∈ slots, slot.1 ≠ .record ∧ MirrorsAt resolver roster slot.2) :
    Mirrors (decodeSlots { resolver, roster, mode := .document } path taken slots)
      (decodeSlots { resolver, roster, mode := .log } path taken slots) := by
  induction slots generalizing taken with
  | nil => exact mirrors_pure []
  | cons slot slots ih =>
    obtain ⟨part, child⟩ := slot
    obtain ⟨⟨hpart, hchild⟩, hslots⟩ := List.forall_mem_cons.mp h
    unfold decodeSlots
    split
    · exact mirrors_refuse _ _
    · rw [decodeSlot_of_ne_record hpart, decodeSlot_of_ne_record hpart]
      refine mirrors_bind (hchild _ _ (Part.typeOf_eq part child)) fun value => ?_
      split
      · exact mirrors_refuse _ _
      · exact mirrors_bind (ih _ hslots) fun more => mirrors_pure _

theorem mirrors_build (path : List String) {c : Coder} (hc : c ≠ .wrapper) (typeId : String)
    (e : Element) (taken : List (Part × Value)) :
    Mirrors (build { resolver, roster, mode := .document } path c typeId e taken)
      (build { resolver, roster, mode := .log } path c typeId e taken) := by
  have hvalue : valueOf? { resolver, roster, mode := .log } c typeId e taken =
      valueOf? { resolver, roster, mode := .document } c typeId e taken := by
    cases c with
    | wrapper => exact absurd rfl hc
    | _ => rfl
  have hcomplaint : complaint { resolver, roster, mode := .log } c e =
      complaint { resolver, roster, mode := .document } c e := by
    cases c <;> rfl
  unfold build
  rw [hvalue, hcomplaint]
  split
  · exact mirrors_pure _
  · exact mirrors_refuse _ _

theorem mirrors_readTyped {e : Element} (h : SelfContained resolver e)
    (hparts : ∀ child ∈ e.children, MirrorsAt resolver roster child ∧
      ∀ entry ∈ child.children, MirrorsAt resolver roster entry)
    (path : List String) {type : Option String}
    (htype : type = some e.name ∨ type = e.attribute? classKey) :
    Mirrors (readTyped { resolver, roster, mode := .document } path type e)
      (readTyped { resolver, roster, mode := .log } path type e) := by
  unfold readTyped
  cases type with
  | none =>
    simp only
    split
    · exact mirrors_pure _
    · exact mirrors_refuse _ _
  | some tag =>
    simp only
    split
    · exact mirrors_pure _
    cases hbinding : resolver.binding? tag with
    | none => exact mirrors_throw _
    | some binding =>
      have hnamed : tag = e.name ∨ e.attribute? classKey = some tag :=
        htype.imp Option.some.inj Eq.symm
      have hc : roster.coderFor binding.typeId ≠ .wrapper := fun hc =>
        h.no_wrapper tag binding hnamed hbinding (beq_iff_eq.mp (Roster.claims_of_coderFor hc))
      simp only [readAs]
      split
      · exact mirrors_refuse _ _
      · rw [readWith_eq, readWith_eq, slots_in_log]
        refine mirrors_bind (mirrors_decodeSlots path [] fun slot hslot => ?_) fun values =>
          mirrors_build path hc _ e values
        refine ⟨part_ne_record hc hslot, ?_⟩
        rcases mem_of_mem_slots hslot with hchild | ⟨collection, hcollection, hentry⟩
        · exact (hparts _ hchild).1
        · exact (hparts _ hcollection).2 _ hentry

/-- By induction on the element: a step of the one run is a step of the other, since no coder but
that of wrappers asks for the mode. -/
theorem mirrors_decode {root : Element}
    (h : ∀ e : Element, e.Occurs root → SelfContained resolver e) :
    ∀ e : Element, e.Occurs root → MirrorsAt resolver roster e := by
  apply Element.induct_within
  intro e he ih path type htype
  rw [decode_eq, decode_eq, (h e he).no_reference]
  refine mirrors_bind (mirrors_readTyped (h e he) ih path htype) fun value => ?_
  exact mirrors_bind (mirrors_mark _ _) fun _ => mirrors_pure _

/-- What is read of an element that is no wrapper is no wrapper either. -/
theorem typeId?_ne_wrapper {decoder : Decoder} {path : List String} {e : Element} {v : Value}
    (h : SelfContained decoder.resolver e) (hgives : Gives (decoder.decode path (some e.name) e) v) :
    v.typeId? ≠ some wrapperType := by
  rw [decode_eq, h.no_reference] at hgives
  obtain ⟨value, hread, hgives⟩ := gives_bind hgives
  obtain ⟨-, -, hgives⟩ := gives_bind hgives
  obtain rfl := gives_pure hgives
  rcases gives_readTyped hread with ⟨htype, -⟩ | ⟨-, rfl⟩ | ⟨tag, binding, htype, hbinding, -, hvalue⟩
  · cases htype
  · exact nofun
  · have htypeId := typeId?_of_readWith (decoder.roster.claims_coderFor binding.typeId) hvalue
    rw [htypeId]
    exact fun heq => h.no_wrapper tag binding (.inl (Option.some.inj htype).symm) hbinding
      (Option.some.inj heq)

end Decoder

end PlanArchive.Coding
