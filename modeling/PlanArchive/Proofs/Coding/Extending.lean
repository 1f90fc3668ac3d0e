import PlanArchive.Proofs.Coding.Annotated

/-!
# Annotated elements are read as extended values

In a log, where the annotated element is read, the element without annotations is read as well. The
value of the annotated one has more fields at most, and so have the records that are handed over
(`extended_of_runs`).
-/

namespace PlanArchive.Coding

open Markup Naming

/-- A field that an object of a type may have got from the event, if it is a `holder`. -/
def Event.Adds (event : Event) (holder : String → Prop) (typeId : String)
    (field : String × Value) : Prop :=
  holder typeId ∧ ∃ s, event.text? field.1 = some s ∧ field.2 = .text s

namespace Decoder

variable {event : Event} {holder : String → Prop} {typeId : String}
  {attributes others : List (String × String)}

/-! ## Fields from attributes -/

theorem find?_sampleFields (hnodup : (Keyed.keys attributes).Nodup) (key : String) :
    Keyed.find? key (sampleFields attributes) =
      if isReserved key = false then (Keyed.find? key attributes).map Value.text else none := by
  have hkept : (Keyed.keys ((attributes.filter fun pair => !isReserved pair.1).map
      fun pair => (pair.1, Value.text pair.2))).Nodup := by
    rw [Keyed.keys, List.map_map]
    exact (List.filter_sublist.map Prod.fst).nodup hnodup
  have hfields : sampleFields attributes = (attributes.filter fun pair => !isReserved pair.1).map
      fun pair => (pair.1, Value.text pair.2) := Keyed.ofPairs_of_nodup hkept
  rw [hfields]
  clear hnodup hkept hfields
  induction attributes with
  | nil => simp [Keyed.find?]
  | cons pair attributes ih =>
    obtain ⟨k, v⟩ := pair
    by_cases hk : k = key
    · subst hk
      cases hkey : isReserved k with
      | false => simp [hkey, Keyed.find?]
      | true => simpa [hkey] using ih
    · cases hkey : isReserved k with
      | false => simpa [hkey, Keyed.find?, hk] using ih
      | true => simpa [hkey, Keyed.find?, hk] using ih

/-- Fields that hold the attributes under some names: where there are more attributes, the object
may have got more of them. -/
theorem fieldsExtended_of_noted (h : Noted event attributes others)
    (hholder : others = attributes ∨ holder typeId) {fields fields' : List (String × Value)}
    (hnodup : (Keyed.keys fields).Nodup) (hnodup' : (Keyed.keys fields').Nodup)
    {names : String → Prop} [DecidablePred names]
    (hfields : ∀ key, Keyed.find? key fields =
      if names key then (Keyed.find? key attributes).map Value.text else none)
    (hfields' : ∀ key, Keyed.find? key fields' =
      if names key then (Keyed.find? key others).map Value.text else none) :
    Value.FieldsExtended (event.Adds holder) typeId fields fields' where
  kept := by
    intro field hfield
    have hfind := Keyed.find?_of_mem hnodup hfield
    rw [hfields] at hfind
    split at hfind
    · rename_i hname
      obtain ⟨text, htext, hvalue⟩ := Option.map_eq_some_iff.mp hfind
      rw [hfields', if_pos hname, h.kept _ _ htext]
      exact ⟨.text text, rfl, hvalue ▸ Value.Extended.text text⟩
    · cases hfind
  distinct := hnodup'
  new := by
    intro other hother
    have hfind := Keyed.find?_of_mem hnodup' hother
    rw [hfields'] at hfind
    split at hfind
    · rename_i hname
      obtain ⟨text, htext, hvalue⟩ := Option.map_eq_some_iff.mp hfind
      have hold : Keyed.find? other.1 attributes = some text → other.1 ∈ Keyed.keys fields := by
        intro hold
        have hfind' := hfields other.1
        rw [if_pos hname, hold] at hfind'
        have hmem : (other.1, Value.text text) ∈ fields := Keyed.mem_of_find? hfind'
        exact List.mem_map.mpr ⟨_, hmem, rfl⟩
      rcases hholder with rfl | hholder
      · exact .inl (hold htext)
      · rcases h.new _ _ htext with htext | ⟨-, hevent⟩
        · exact .inl (hold htext)
        · exact .inr ⟨hholder, text, hevent, hvalue.symm⟩
    · cases hfind

theorem fieldsExtended_sampleFields (h : Noted event attributes others)
    (hholder : others = attributes ∨ holder typeId) :
    Value.FieldsExtended (event.Adds holder) typeId (sampleFields attributes)
      (sampleFields others) :=
  fieldsExtended_of_noted h hholder (Keyed.nodup_ofPairs _) (Keyed.nodup_ofPairs _)
    (find?_sampleFields h.nodup) (find?_sampleFields h.nodup')

theorem nodup_keys_captions {ks : List String} (hks : ks.Nodup) (g : String → Option Value) :
    (Keyed.keys (ks.filterMap fun key => (g key).map fun v => (key, v))).Nodup := by
  have hkeys : Keyed.keys (ks.filterMap fun key => (g key).map fun v => (key, v)) =
      ks.filter fun key => (g key).isSome := by
    induction ks with
    | nil => rfl
    | cons k ks ih =>
      obtain ⟨-, hks⟩ := List.nodup_cons.mp hks
      cases hg : g k with
      | none => simpa [hg] using ih hks
      | some v => simpa [hg, Keyed.keys] using ih hks
  rw [hkeys]
  exact hks.filter _

theorem fieldsExtended_captions (h : Noted event attributes others)
    (hholder : others = attributes ∨ holder typeId) {ks : List String} (hks : ks.Nodup) :
    Value.FieldsExtended (event.Adds holder) typeId
      (ks.filterMap fun key => ((Keyed.find? key attributes).map Value.text).map fun v => (key, v))
      (ks.filterMap fun key => ((Keyed.find? key others).map Value.text).map fun v => (key, v)) :=
  fieldsExtended_of_noted h hholder (nodup_keys_captions hks _) (nodup_keys_captions hks _)
    (fun _ => Keyed.find?_filterMap _ ks) (fun _ => Keyed.find?_filterMap _ ks)

theorem fieldsExtended_envelopeFields (h : Noted event attributes others)
    (hholder : others = attributes ∨ holder typeId) :
    Value.FieldsExtended (event.Adds holder) typeId (envelopeFields attributes)
      (envelopeFields others) := by
  have hfields : ∀ attributes, envelopeFields attributes =
      [versionKey, propertiesKey, applicationKey].filterMap fun key =>
        ((Keyed.find? key attributes).map Value.text).map fun v => (key, v) := fun attributes => by
    simp only [envelopeFields, Option.map_map]
    rfl
  rw [hfields, hfields]
  exact fieldsExtended_captions h hholder (by decide)

theorem fieldsExtended_wrapperFields (h : Noted event attributes others)
    (hholder : others = attributes ∨ holder typeId) :
    Value.FieldsExtended (event.Adds holder) typeId (wrapperFields attributes)
      (wrapperFields others) := by
  have hfields : ∀ attributes, wrapperFields attributes =
      [versionKey].filterMap fun key =>
        ((Keyed.find? key attributes).map Value.text).map fun v => (key, v) := fun attributes => by
    cases hfind : Keyed.find? versionKey attributes <;> simp [wrapperFields, hfind]
  rw [hfields, hfields]
  exact fieldsExtended_captions h hholder (by decide)

/-! ## Values from slots -/

/-- Slots of one part, the second with an extended value. -/
def TakenExtended (extra : String → String × Value → Prop) (slot slot' : Part × Value) : Prop :=
  slot.1 = slot'.1 ∧ Value.Extended extra slot.2 slot'.2

section

variable {extra : String → String × Value → Prop} {taken taken' : List (Part × Value)}

theorem fields_extended (h : List.Forall₂ (TakenExtended extra) taken taken') :
    List.Forall₂ (Value.FieldExtended extra) (fieldsOf taken) (fieldsOf taken') := by
  induction h with
  | nil => exact .nil
  | @cons slot slot' _ _ hslot _ ih =>
    obtain ⟨part, v⟩ := slot
    obtain ⟨part', w⟩ := slot'
    obtain ⟨rfl, hvalue⟩ := hslot
    cases part with
    | field name => exact .cons ⟨rfl, hvalue⟩ ih
    | _ => exact ih

theorem entries_extended (h : List.Forall₂ (TakenExtended extra) taken taken') :
    List.Forall₂ (Value.Extended extra) (entriesOf taken) (entriesOf taken') := by
  induction h with
  | nil => exact .nil
  | @cons slot slot' _ _ hslot _ ih =>
    obtain ⟨part, v⟩ := slot
    obtain ⟨part', w⟩ := slot'
    obtain ⟨rfl, hvalue⟩ := hslot
    cases part with
    | field name => exact ih
    | _ => exact .cons hvalue ih

theorem planOf_extended {v w : Value} (h : Value.Extended extra v w) :
    Value.Extended extra (.plan (planOf v)) (.plan (planOf w)) := by
  cases h with
  | plan helements hchildren => exact .plan helements hchildren
  | _ => exact .plan .nil .nil

theorem leaf_extended {pending pending' : Option Value}
    (h : Option.Rel (Value.Extended extra) pending pending') :
    List.Forall₂ (Value.BranchExtended extra) (leaf pending) (leaf pending') := by
  cases h with
  | none => exact .nil
  | some h => exact .cons ⟨h, .plan .nil .nil⟩ .nil

theorem branches_extended {pending pending' : Option Value}
    (hpending : Option.Rel (Value.Extended extra) pending pending')
    (h : List.Forall₂ (TakenExtended extra) taken taken') :
    List.Forall₂ (Value.BranchExtended extra) (branchesOf pending taken)
      (branchesOf pending' taken') := by
  induction h generalizing pending pending' with
  | nil => exact leaf_extended hpending
  | @cons slot slot' _ _ hslot _ ih =>
    obtain ⟨part, v⟩ := slot
    obtain ⟨part', w⟩ := slot'
    obtain ⟨rfl, hvalue⟩ := hslot
    cases part with
    | subtree =>
      refine List.rel_append ?_ (ih .none)
      cases hpending with
      | none => exact .nil
      | some hpending => exact .cons ⟨hpending, planOf_extended hvalue⟩ .nil
    | _ => exact List.rel_append (leaf_extended hpending) (ih (.some hvalue))

theorem content_extended (h : List.Forall₂ (TakenExtended extra) taken taken') {plan' : Plan}
    (hcontent : contentOf taken' = some plan') :
    ∃ plan, contentOf taken = some plan ∧ Value.Extended extra (.plan plan) (.plan plan') := by
  cases h with
  | nil => cases hcontent
  | @cons slot slot' _ _ hslot _ =>
    obtain ⟨part, v⟩ := slot
    obtain ⟨part', w⟩ := slot'
    obtain ⟨-, hvalue⟩ := hslot
    cases hvalue with
    | plan helements hchildren =>
      obtain rfl := Option.some.inj hcontent
      exact ⟨_, rfl, .plan helements hchildren⟩
    | _ => cases hcontent

theorem misplaced_extended (h : List.Forall₂ (TakenExtended extra) taken taken') (part : Part) :
    misplaced taken' part = misplaced taken part := by
  have hpending : ∀ taken : List (Part × Value), (pendingOf taken).isNone =
      !((taken.map Prod.fst).getLast? == some .element) := by
    intro taken
    rw [List.getLast?_map, pendingOf]
    cases taken.getLast? with
    | none => rfl
    | some slot =>
      obtain ⟨part, v⟩ := slot
      cases part <;> rfl
  have hparts : taken'.map Prod.fst = taken.map Prod.fst := by
    induction h with
    | nil => rfl
    | cons hslot _ ih => rw [List.map_cons, ih, List.map_cons, hslot.1]
  rw [misplaced, hpending, hparts, ← hpending, misplaced]

theorem unfit_extended (h : List.Forall₂ (TakenExtended extra) taken taken') (part : Part)
    {v w : Value} (hvalue : Value.Extended extra v w) : unfit taken' part w = unfit taken part v := by
  rw [unfit, hvalue.isPlan_eq, isEmpty_eq_of_forall₂ h, unfit]

end

/-- What an annotated element makes of its slots extends what the element makes of its own. -/
theorem valueOf_extended {decoder : Decoder} {c : Coder} (hclaims : c.claims typeId = true)
    {e e' : Element} (hnoted : Noted event e.attributes e'.attributes) (htext : e'.text = e.text)
    (hempty : e'.children.isEmpty = e.children.isEmpty)
    (hholder : e'.attributes = e.attributes ∨ (c.readsAttributes = true → holder typeId))
    {taken taken' : List (Part × Value)}
    (htaken : List.Forall₂ (TakenExtended (event.Adds holder)) taken taken') {v' : Value}
    (h : decoder.valueOf? c typeId e' taken' = some v') :
    ∃ v, decoder.valueOf? c typeId e taken = some v ∧
      Value.Extended (event.Adds holder) v v' := by
  have hcontent : e'.content = e.content := by rw [Element.content, htext, Element.content]
  cases c with
  | text =>
    simp only [valueOf?, hempty, hcontent] at h ⊢
    split at h
    · rename_i hchildren
      rw [if_pos hchildren, ← Option.some.inj h]
      exact ⟨_, rfl, .text _⟩
    · cases h
  | plan =>
    obtain rfl := Option.some.inj h
    exact ⟨_, rfl, Value.extended_plan.mpr ⟨_, rfl, branches_extended .none htaken⟩⟩
  | envelope =>
    obtain ⟨plan', hplan', rfl⟩ := Option.map_eq_some_iff.mp h
    obtain ⟨plan, hplan, hextended⟩ := content_extended htaken hplan'
    obtain rfl : typeId = envelopeType := beq_iff_eq.mp hclaims
    refine ⟨_, Option.map_eq_some_iff.mpr ⟨plan, hplan, rfl⟩, Value.extended_object.mpr
      ⟨_, _, rfl, fieldsExtended_envelopeFields hnoted ?_, .cons hextended .nil⟩⟩
    exact hholder.imp_right fun hholder => hholder rfl
  | wrapper =>
    obtain rfl := Option.some.inj h
    refine ⟨_, rfl, Value.extended_object.mpr
      ⟨_, _, rfl, fieldsExtended_wrapperFields hnoted ?_, ?_⟩⟩
    · exact hholder.imp_right fun hholder => hholder rfl
    · cases decoder.delivers with
      | true => exact .nil
      | false => exact entries_extended htaken
  | sample =>
    obtain rfl := Option.some.inj h
    have hfields : Value.FieldsExtended (event.Adds holder) typeId (sampleFields e.attributes)
        (sampleFields e'.attributes) :=
      fieldsExtended_sampleFields hnoted (hholder.imp_right fun hholder => hholder rfl)
    exact ⟨_, rfl, Value.extended_object.mpr ⟨_, _, rfl,
      .putAll (fields_extended htaken) hfields (Keyed.nodup_ofPairs _), entries_extended htaken⟩⟩
  | object =>
    simp only [valueOf?, hempty, hcontent] at h ⊢
    split at h
    · cases h
    · rename_i hblank
      rw [if_neg hblank, ← Option.some.inj h]
      have hnil : Value.FieldsExtended (event.Adds holder) typeId [] [] :=
        ⟨List.forall_mem_nil _, List.nodup_nil, List.forall_mem_nil _⟩
      exact ⟨_, rfl, Value.extended_object.mpr ⟨_, _, rfl,
        .putAll (fields_extended htaken) hnil List.nodup_nil, entries_extended htaken⟩⟩

/-! ## Runs -/

section

variable {decoder : Decoder}

/-- Wherever the annotated element is read in a log, the element is read as well, and what it gives
and hands over is extended by what the annotated one does. -/
def ReadsExtended (decoder : Decoder) (event : Event) (holder : String → Prop) (e : Element) :
    Prop :=
  ∀ path type e' s s' v' t', decoder.Annotated event holder type e e' →
    List.Forall₂ (Value.Extended (event.Adds holder)) s.delivered s'.delivered →
    Runs (decoder.decode path type e') s' v' t' →
    ∃ v t, Runs (decoder.decode path type e) s v t ∧ Value.Extended (event.Adds holder) v v' ∧
      List.Forall₂ (Value.Extended (event.Adds holder)) t.delivered t'.delivered

theorem handingOver_extended {extra : String → String × Value → Prop} {v v' : Value}
    (hvalue : Value.Extended extra v v') {s s' : Ledger}
    (hs : List.Forall₂ (Value.Extended extra) s.delivered s'.delivered) (part : Part) :
    List.Forall₂ (Value.Extended extra) (decoder.handingOver part v s).delivered
      (decoder.handingOver part v' s').delivered := by
  unfold handingOver
  split
  · exact List.rel_append hs (.cons hvalue .nil)
  · exact hs

theorem extended_of_runs_slots {path : List String}
    {slots slots' : List (Part × Element)}
    (h : List.Forall₂ (fun slot slot' => slot.1 = slot'.1 ∧
      decoder.SlotAnnotated event holder slot slot') slots slots')
    (hreads : ∀ slot ∈ slots, decoder.ReadsExtended event holder slot.2)
    {taken taken' values' : List (Part × Value)}
    (htaken : List.Forall₂ (TakenExtended (event.Adds holder)) taken taken')
    {s s' t' : Ledger}
    (hs : List.Forall₂ (Value.Extended (event.Adds holder)) s.delivered s'.delivered)
    (hruns : Runs (decoder.decodeSlots path taken' slots') s' values' t') :
    ∃ values t, Runs (decoder.decodeSlots path taken slots) s values t ∧
      List.Forall₂ (TakenExtended (event.Adds holder)) values values' ∧
      List.Forall₂ (Value.Extended (event.Adds holder)) t.delivered t'.delivered := by
  induction h generalizing taken taken' values' s s' with
  | nil =>
    obtain ⟨rfl, rfl⟩ := runs_decodeSlots_nil.mp hruns
    exact ⟨[], s, runs_decodeSlots_nil.mpr ⟨rfl, rfl⟩, .nil, hs⟩
  | @cons slot slot' slots slots' hslot _ ih =>
    obtain ⟨part, child⟩ := slot
    obtain ⟨part', child'⟩ := slot'
    obtain ⟨rfl, hchild⟩ := hslot
    obtain ⟨hread, hreads⟩ := List.forall_mem_cons.mp hreads
    obtain ⟨hplace, value', u', more', hvalue', hfit, hmore', rfl⟩ :=
      runs_decodeSlots_cons.mp hruns
    obtain ⟨w', hdecode', rfl⟩ := runs_decodeSlot.mp hvalue'
    obtain ⟨hname, -, hnoted, -⟩ := annotated_iff.mp hchild
    rw [hname, part.typeOf_congr hname (hnoted.reserved (by decide))] at hdecode'
    obtain ⟨value, w, hdecode, hvalue, hw⟩ := hread _ _ _ _ _ _ _ hchild hs hdecode'
    have hnext : List.Forall₂ (TakenExtended (event.Adds holder)) (taken ++ [(part, value)])
        (taken' ++ [(part, value')]) := List.rel_append htaken (.cons ⟨rfl, hvalue⟩ .nil)
    obtain ⟨more, t, hmore, htaken', ht⟩ :=
      ih hreads hnext (handingOver_extended hvalue hw part) hmore'
    rw [misplaced_extended htaken] at hplace
    rw [unfit_extended htaken part hvalue] at hfit
    exact ⟨(part, value) :: more, t, runs_decodeSlots_cons.mpr ⟨hplace, value, _, more,
      runs_decodeSlot.mpr ⟨w, hdecode, rfl⟩, hfit, hmore, rfl⟩, .cons ⟨rfl, hvalue⟩ htaken', ht⟩

/-- By induction on the element: a step of the run on the annotated element is a step of the run on
the element, since attributes decide neither what is read nor how. -/
theorem extended_of_runs (hmode : decoder.mode = .log) (e : Element) :
    decoder.ReadsExtended event holder e := by
  induction e using Element.induct with
  | step e ih =>
    intro path type e' s s' v' t' h hs hruns
    obtain ⟨hname, htext, hnoted, hchildren, hnamed⟩ := annotated_iff.mp h
    have hreference : e'.attribute? referenceKey = e.attribute? referenceKey :=
      hnoted.reserved (by decide)
    have hempty := isEmpty_eq_of_forall₂ hchildren
    have hmarking : ∀ id v u, decoder.marking id v u = u := fun id v u => by
      simp only [marking, hmode]
    rcases runs_decode.mp hruns with ⟨id, -, hdocument, -⟩ | ⟨hpresent, u', rfl, hcases⟩
    · rw [hmode] at hdocument
      cases hdocument
    · rw [hreference] at hpresent
      rw [hmarking]
      rcases hcases with ⟨rfl, hnil, rfl, rfl⟩ | ⟨rfl, rfl, rfl⟩ |
        ⟨tag, binding, c, values', rfl, hopens', hvalues', hvalue'⟩
      · have hcontent : e'.content = e.content := by rw [Element.content, htext, Element.content]
        rw [hnil] at hchildren
        refine ⟨.text e.content, s, runs_decode.mpr (.inr ⟨hpresent, s, (hmarking _ _ _).symm,
          .inl ⟨rfl, List.forall₂_nil_right_iff.mp hchildren, rfl, rfl⟩⟩), ?_, hs⟩
        rw [hcontent]
        exact .text _
      · exact ⟨.null, s, runs_decode.mpr (.inr ⟨hpresent, s, (hmarking _ _ _).symm,
          .inr (.inl ⟨rfl, rfl, rfl⟩)⟩), .null, hs⟩
      · have hopens : decoder.Opens tag e binding c := { hopens' with present := hpresent }
        have hreads : ∀ slot ∈ decoder.slots c e.children,
            decoder.ReadsExtended event holder slot.2 := by
          intro slot hslot
          rcases mem_of_mem_slots hslot with hchild | ⟨collection, hcollection, hentry⟩
          · exact (ih _ hchild).1
          · exact (ih _ hcollection).2 _ hentry
        have htype : decoder.typeNamed? (some tag) = some binding.typeId :=
          congrArg (Option.map Binding.typeId) hopens.known
        obtain ⟨hheld, hslots⟩ := hnamed _ htype
        rw [hopens.coder] at hheld hslots
        obtain ⟨values, t, hvalues, htaken, ht⟩ := extended_of_runs_slots
          (.mp (fun _ _ hpart hslot => ⟨hpart.1, hslot⟩) (slots_annotated h c) hslots)
          hreads .nil hs hvalues'
        have hclaims : c.claims binding.typeId = true :=
          hopens.coder ▸ decoder.roster.claims_coderFor binding.typeId
        obtain ⟨v, hvalue, hextended⟩ :=
          valueOf_extended hclaims hnoted htext hempty hheld htaken hvalue'
        exact ⟨v, t, runs_decode.mpr (.inr ⟨hpresent, t, (hmarking _ _ _).symm, .inr (.inr
          ⟨tag, binding, c, values, rfl, hopens, hvalues, hvalue⟩)⟩), hextended, ht⟩

end

end Decoder

end PlanArchive.Coding
