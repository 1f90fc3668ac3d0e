import PlanArchive.Proofs.Coding.Annotated

/-!
# Writing with an event

What is written for a record with its event is what is written for the overruled record, but for
annotations (`annotated_encode`): of its coders only that of samples asks for the event.
-/

namespace PlanArchive.Coding

open Markup Naming

/-! ## The event of a sample -/

section

variable {event : Event} {e e' : Element}

theorem setEvent_eq_ok : Encoder.setEvent e (some event) = .ok e' ↔
    (∀ pair ∈ event.sampleVariables, isName pair.1 = true ∧ isReserved pair.1 = false) ∧
      e' = { e with attributes := Keyed.putAll e.attributes event.pairs } := by
  have hput : ∀ (key value : String) (e : Element), Encoder.setUnlessEmpty key value e =
      { e with attributes :=
          Keyed.putAll e.attributes ([(key, value)].filter fun pair => !pair.2.isEmpty) } := by
    intro key value e
    obtain ⟨name, attributes, text, children, line⟩ := e
    unfold Encoder.setUnlessEmpty
    cases hempty : value.isEmpty <;> simp [hempty, Keyed.putAll, Element.setAttribute]
  have hpairs : event.pairs =
      [(hostKey, event.hostname)].filter (fun pair => !pair.2.isEmpty) ++
        [(threadGroupKey, event.threadGroup)].filter (fun pair => !pair.2.isEmpty) ++
        event.sampleVariables := by
    rw [← List.filter_append]
    rfl
  rw [Encoder.setEvent, Encoder.setAll_eq_ok, hput, hput, hpairs]
  simp only [Keyed.putAll, List.foldl_append]

/-- The event has no text under a reserved name. -/
theorem isReserved_of_text? (h : ∀ pair ∈ event.sampleVariables, isReserved pair.1 = false)
    {key text : String} (htext : event.text? key = some text) : isReserved key = false := by
  rcases List.mem_append.mp (Keyed.mem_of_lastValue? htext) with hmem | hmem
  · have hlayout : ∀ pair ∈ [(hostKey, event.hostname), (threadGroupKey, event.threadGroup)],
        isReserved pair.1 = false := by
      simp only [List.forall_mem_cons]
      exact ⟨by decide, by decide, List.forall_mem_nil _⟩
    exact hlayout _ (List.mem_filter.mp hmem).1
  · exact h _ hmem

/-- Texts overruled by the event, or texts and then the event: the same attributes, and more. -/
theorem noted_putAll (h : ∀ pair ∈ event.sampleVariables, isReserved pair.1 = false)
    {attributes texts : List (String × String)} (hnodup : (Keyed.keys attributes).Nodup)
    (hreserved : ∀ key ∈ Keyed.keys attributes, isReserved key = true) :
    Noted event
      (Keyed.putAll attributes (texts.map fun pair => (pair.1, (event.text? pair.1).getD pair.2)))
      (Keyed.putAll (Keyed.putAll attributes texts) event.pairs) := by
  have hfind : ∀ key, Keyed.find? key (Keyed.putAll attributes
      (texts.map fun pair => (pair.1, (event.text? pair.1).getD pair.2))) =
        ((Keyed.lastValue? key texts).map (event.text? key).getD).or
          (Keyed.find? key attributes) := fun key => by
    rw [Keyed.find?_putAll, Keyed.lastValue?_map fun key => (event.text? key).getD]
  have hfind' : ∀ key, Keyed.find? key (Keyed.putAll (Keyed.putAll attributes texts) event.pairs) =
      (event.text? key).or ((Keyed.lastValue? key texts).or (Keyed.find? key attributes)) :=
    fun key => by rw [Keyed.find?_putAll, Keyed.find?_putAll, Event.text?]
  have hnone : ∀ key text, event.text? key = some text → Keyed.find? key attributes = none :=
    fun key text htext => Keyed.find?_eq_none_iff.mpr fun hmem => by
      have hfree := isReserved_of_text? h htext
      rw [hreserved key hmem] at hfree
      cases hfree
  refine ⟨?_, ?_, Keyed.nodup_putAll hnodup _, Keyed.nodup_putAll (Keyed.nodup_putAll hnodup _) _⟩
  · intro key text
    rw [hfind, hfind']
    cases htext : event.text? key with
    | none => cases Keyed.lastValue? key texts <;> simp
    | some t => cases Keyed.lastValue? key texts <;> simp [hnone key t htext]
  · intro key text
    rw [hfind, hfind']
    cases htext : event.text? key with
    | none => cases Keyed.lastValue? key texts <;> simp
    | some t => exact fun heq => .inr ⟨isReserved_of_text? h htext, heq⟩

end

/-! ## Elements of values -/

namespace Decoder

/-- The encoder that writes with the event what the decoder reads. -/
def annotator (decoder : Decoder) (event : Event) : Encoder :=
  ⟨decoder.resolver, decoder.roster, some event⟩

/-- What the tag of the value leads to is read by the coder that writes the value. Texts are not
read by their tag. -/
def Faithful (decoder : Decoder) (v : Value) : Prop :=
  v.text? = none → ∀ typeId other, v.typeId? = some typeId →
    decoder.typeNamed? (some (tagOf decoder.resolver v)) = some other →
      decoder.roster.coderFor other = decoder.roster.coderFor typeId

/-- What is looked up as `type` is read by the coder that writes the value, or as a sample, unless
anything is a holder. -/
def Fits (decoder : Decoder) (holder : String → Prop) (v : Value) (type : Option String) : Prop :=
  ∀ other, decoder.typeNamed? type = some other →
    (decoder.roster.coderFor other = .sample ∨ ∀ typeId, holder typeId) ∨
      (v.text? = none → ∀ typeId, v.typeId? = some typeId →
        decoder.roster.coderFor other = decoder.roster.coderFor typeId)

/-- What is filled in with the event is, but for annotations, what is filled in with the overruled
value. -/
structure FillsAnnotated (decoder : Decoder) (event : Event) (holder : String → Prop)
    (v : Value) : Prop where
  faithful : (∀ typeId, holder typeId) ∨ decoder.Faithful v
  filled : ∀ e₀ e' : Element, Opened e₀ → (decoder.annotator event).fill e₀ v = .ok e' →
    ∃ e, decoder.counterpart.fill e₀ (overruled decoder.roster event v) = .ok e ∧
      ∀ type, decoder.Fits holder v type → decoder.Annotated event holder type e e'

/-- The elements are annotated by their class as well as by their name. -/
def Twin (decoder : Decoder) (event : Event) (holder : String → Prop) (e e' : Element) : Prop :=
  decoder.FieldAnnotated event holder e e' ∧ decoder.Annotated event holder (some e.name) e e'

section

variable {decoder : Decoder} {event : Event} {holder : String → Prop}

theorem fits_none (v : Value) : decoder.Fits holder v none := fun _ => by rintro ⟨⟩

theorem fits_tag {v : Value} (h : (∀ typeId, holder typeId) ∨ decoder.Faithful v) :
    decoder.Fits holder v (some (tagOf decoder.resolver v)) := fun other hother =>
  h.imp .inr fun h htext typeId htype => h htext typeId other htype hother

theorem fits_class {v : Value} (h : (∀ typeId, holder typeId) ∨ decoder.Faithful v) :
    decoder.Fits holder v (Keyed.find? classKey (classOf decoder.resolver v)) := by
  unfold classOf
  split
  · exact fits_none v
  · exact fits_tag h

/-! ### Slots -/

theorem slots_twins {c : Coder} (hc : c = .plan ∨ c = .envelope ∨ c = .wrapper)
    {es es' : List Element} (h : List.Forall₂ (decoder.Twin event holder) es es') :
    List.Forall₂ (decoder.SlotAnnotated event holder) (decoder.slots c es)
      (decoder.slots c es') := by
  refine List.rel_flatMap h ?_
  intro e e' htwin
  have hname : e'.name = e.name := (annotated_iff.mp htwin.2).1
  have htype : (decoder.partOf c e.name).typeOf e = some e.name := by
    rcases hc with rfl | rfl | rfl
    · simp only [partOf]
      split <;> rfl
    · rfl
    · rfl
  have hne : c ≠ .text ∧ c ≠ .object := by
    rcases hc with rfl | rfl | rfl <;> decide
  rw [slotsOf_itself hne.1 (absurd · hne.2), slotsOf_itself hne.1 (absurd · hne.2), hname]
  refine .cons ?_ .nil
  unfold SlotAnnotated
  rw [htype]
  exact htwin.2

theorem slots_parts {parts parts' : List Element}
    (h : List.Forall₂ (fun e e' => e.name ≠ entriesTag ∧
      decoder.FieldAnnotated event holder e e') parts parts') :
    List.Forall₂ (decoder.SlotAnnotated event holder) (decoder.slots .object parts)
      (decoder.slots .object parts') := by
  refine List.rel_flatMap h ?_
  rintro e e' ⟨hentries, hannotated⟩
  have hname : e'.name = e.name := (annotated_iff.mp hannotated).1
  rw [slotsOf_itself (by decide) fun _ => hentries,
    slotsOf_itself (by decide) fun _ => hname ▸ hentries, hname]
  exact .cons hannotated .nil

theorem slots_collection {members members' : List Element}
    (h : List.Forall₂ (decoder.Twin event holder) members members') :
    List.Forall₂ (decoder.SlotAnnotated event holder)
      (decoder.slots .object (Encoder.collection members))
      (decoder.slots .object (Encoder.collection members')) := by
  have hslots : ∀ members : List Element,
      decoder.slots .object (Encoder.collection members) = members.map fun e => (.entry, e) := by
    intro members
    cases members with
    | nil => rfl
    | cons e es => exact (List.flatMap_singleton ..).trans (slotsOf_collection rfl)
  rw [hslots, hslots, List.forall₂_map_left_iff, List.forall₂_map_right_iff]
  exact h.imp fun _ _ htwin => htwin.2

theorem annotated_collection {members members' : List Element}
    (h : List.Forall₂ (decoder.Twin event holder) members members') :
    List.Forall₂ (decoder.FieldAnnotated event holder) (Encoder.collection members)
      (Encoder.collection members') := by
  cases h with
  | nil => exact .nil
  | cons hhead htail =>
    refine .cons ?_ .nil
    exact .mk (.refl List.nodup_nil) (.cons hhead.1 (htail.imp fun _ _ htwin => htwin.1))
      (fun _ => by rintro ⟨⟩) fun _ => by rintro ⟨⟩

end

/-! ### Filling -/

section

variable {decoder : Decoder} {event : Event} {holder : String → Prop}
  (hroster : decoder.roster.Standard)
  (hsamples : ∀ typeId, decoder.roster.coderFor typeId = .sample → holder typeId)

theorem exists_sampleHead {fields : List (String × Value)} {e₀ head' : Element}
    (h₀ : Opened e₀) (h : (decoder.annotator event).sampleHead fields e₀ = .ok head') :
    ∃ head, decoder.counterpart.sampleHead
        (overrule event .sample (overruledFields decoder.roster event fields)) e₀ = .ok head ∧
      Noted event head.attributes head'.attributes := by
  obtain ⟨e₁, htexts, hevent⟩ := Result.bind_eq_ok.mp h
  obtain ⟨hnames, rfl⟩ := Encoder.setAll_eq_ok.mp htexts
  obtain ⟨hvariables, rfl⟩ := setEvent_eq_ok.mp hevent
  have hreserved : ∀ key ∈ Keyed.keys e₀.attributes, isReserved key = true := by
    intro key hkey
    obtain ⟨pair, hpair, rfl⟩ := List.mem_map.mp hkey
    rw [h₀.attributes pair hpair]
    decide
  refine ⟨_, Result.bind_eq_ok.mpr ⟨_, Encoder.setAll_eq_ok.mpr ⟨?_, rfl⟩, rfl⟩, ?_⟩
  · rw [textFields_overrule, textFields_overruledFields]
    exact List.forall_mem_map.mpr hnames
  · rw [textFields_overrule, textFields_overruledFields]
    exact noted_putAll (fun pair hpair => (hvariables pair hpair).2) h₀.nodup hreserved

include hroster

theorem FillsAnnotated.encode {v : Value} (h : decoder.FillsAnnotated event holder v)
    {e' : Element} (he' : (decoder.annotator event).encode v = .ok e') :
    ∃ e, decoder.counterpart.encode (overruled decoder.roster event v) = .ok e ∧
      decoder.Twin event holder e e' := by
  obtain ⟨start, hstart, hfill⟩ := Result.bind_eq_ok.mp he'
  obtain ⟨hname, rfl⟩ := Encoder.startValue_eq_ok.mp hstart
  obtain ⟨e, he, hannotated⟩ := h.filled _ e' (opened_value _) hfill
  obtain ⟨hkept, hreserved⟩ := Encoder.kept_fill decoder.counterpart hroster he
  refine ⟨e, Encoder.encode_of_fill ?_ ?_, ?_, ?_⟩
  · rw [tagOf_overruled]
    exact hname
  · rw [tagOf_overruled]
    exact he
  · rw [FieldAnnotated, hreserved classKey (by decide)]
    exact hannotated _ (fits_none v)
  · rw [hkept]
    exact hannotated _ (fits_tag h.faithful)

/-- A field is written as one of the same name. -/
theorem FillsAnnotated.encodeField {field : String × Value}
    (h : decoder.FillsAnnotated event holder field.2) {e' : Element}
    (he' : (decoder.annotator event).encodeField field = .ok e') :
    ∃ e, decoder.counterpart.encodeField
        (field.1, overruled decoder.roster event field.2) = .ok e ∧ e.name = field.1 ∧
      decoder.FieldAnnotated event holder e e' := by
  obtain ⟨name, v⟩ := field
  obtain ⟨start, hstart, hfill⟩ := Result.bind_eq_ok.mp he'
  obtain ⟨hname, htag, rfl⟩ := Encoder.startField_eq_ok.mp hstart
  rw [Encoder.fillField_eq (decoder.annotator event) hroster] at hfill
  obtain ⟨e, he, hannotated⟩ := h.filled _ e' (opened_field _ _ _) hfill
  obtain ⟨hkept, hreserved⟩ := Encoder.kept_fill decoder.counterpart hroster he
  have hstart' : decoder.counterpart.startField name (overruled decoder.roster event v) =
      .ok { name, attributes := classOf decoder.resolver v } := by
    rw [Encoder.startField_eq_ok, text?_overruled, tagOf_overruled, classOf_overruled]
    exact ⟨hname, htag, rfl⟩
  refine ⟨e, Result.bind_eq_ok.mpr ⟨_, hstart', ?_⟩, hkept, ?_⟩
  · rw [Encoder.fillField_eq decoder.counterpart hroster]
    exact he
  · rw [FieldAnnotated, hreserved classKey (by decide)]
    exact hannotated _ (fits_class h.faithful)

theorem encodeFields_annotated {fields : List (String × Value)} {P : String → Prop}
    (hnames : ∀ field ∈ fields, P field.1)
    (h : ∀ field ∈ fields, decoder.FillsAnnotated event holder field.2) {parts' : List Element}
    (hparts : List.Forall₂ (fun field e => (decoder.annotator event).encodeField field = .ok e)
      fields parts') :
    ∃ parts, List.Forall₂ (fun field e => decoder.counterpart.encodeField field = .ok e)
        (overruledFields decoder.roster event fields) parts ∧
      List.Forall₂ (fun e e' => P e.name ∧ decoder.FieldAnnotated event holder e e')
        parts parts' := by
  refine exists_forall₂_map (fun field hfield e' he' => ?_) hparts
  obtain ⟨e, he, hname, hannotated⟩ := (h field hfield).encodeField hroster he'
  exact ⟨e, he, hname ▸ hnames field hfield, hannotated⟩

theorem encodeAll_annotated {entries : List Value}
    (h : ∀ entry ∈ entries, decoder.FillsAnnotated event holder entry)
    {members' : List Element}
    (hmembers : (decoder.annotator event).encodeAll entries = .ok members') :
    ∃ members, decoder.counterpart.encodeAll
        (entries.map (overruled decoder.roster event)) = .ok members ∧
      List.Forall₂ (decoder.Twin event holder) members members' := by
  obtain ⟨members, hall, htwins⟩ :=
    exists_forall₂_map (Q := fun v e => decoder.counterpart.encode v = .ok e)
      (fun entry hentry _ he' => (h entry hentry).encode hroster he')
      (Encoder.encodeAll_eq_ok.mp hmembers)
  exact ⟨members, Encoder.encodeAll_eq_ok.mpr hall, htwins⟩

/-- The plan below an element is written like a value of its own. -/
theorem encodesBranch_annotated {b : Branch}
    (htag : isName (decoder.resolver.tagFor treeType) = true)
    (helement : decoder.FillsAnnotated event holder b.element)
    (hchildren : decoder.FillsAnnotated event holder (.plan b.children))
    {pair' : Element × List Element}
    (hpair : (decoder.annotator event).EncodesBranch (decoder.resolver.tagFor treeType) b pair') :
    ∃ pair, decoder.counterpart.EncodesBranch (decoder.resolver.tagFor treeType)
        (overruledBranch decoder.roster event b) pair ∧
      List.Forall₂ (decoder.Twin event holder)
        (Encoder.branchElements (decoder.resolver.tagFor treeType) [pair])
        (Encoder.branchElements (decoder.resolver.tagFor treeType) [pair']) := by
  obtain ⟨hplan, he', hbelow'⟩ := hpair
  obtain ⟨e, he, htwin⟩ := helement.encode hroster he'
  have hwritten := Encoder.encode_plan (decoder.annotator event) hroster htag hbelow'
  obtain ⟨x, hx, htwin'⟩ := hchildren.encode hroster hwritten
  rw [← children_overruledBranch] at hx
  obtain ⟨start, hstart, hfill⟩ := Result.bind_eq_ok.mp hx
  obtain ⟨-, rfl⟩ := Encoder.startValue_eq_ok.mp hstart
  obtain ⟨-, below, hbelow, rfl⟩ := (Encoder.fill_plan decoder.counterpart hroster).mp hfill
  refine ⟨(e, below), ⟨?_, he, hbelow⟩, .cons htwin (.cons htwin' .nil)⟩
  rw [element_overruledBranch, isPlan_overruled]
  exact hplan

include hsamples

/-- Annotated elements that were filled with a value by its own coder are looked up as any type that
fits. -/
theorem Fits.annotated {v : Value} (htext : v.text? = none) {typeId : String}
    (htype : v.typeId? = some typeId) {type : Option String}
    (hfits : decoder.Fits holder v type) {e e' : Element}
    (h : decoder.Annotated event holder none e e')
    (hown : decoder.roster.coderFor typeId = .sample ∨ e'.attributes = e.attributes ∧
      List.Forall₂ (decoder.SlotAnnotated event holder)
        (decoder.slots (decoder.roster.coderFor typeId) e.children)
        (decoder.slots (decoder.roster.coderFor typeId) e'.children)) :
    decoder.Annotated event holder type e e' := by
  obtain ⟨hname, hcontent, hnoted, hchildren, -⟩ := annotated_iff.mp h
  refine annotated_iff.mpr ⟨hname, hcontent, hnoted, hchildren, fun other hother => ?_⟩
  have hretyped : (decoder.roster.coderFor other = .sample ∨ ∀ typeId, holder typeId) →
      decoder.Annotated event holder type e e' := fun hcoder =>
    h.retyped hroster hsamples fun other' hother' => by
      rw [hother] at hother'
      obtain rfl := Option.some.inj hother'
      exact hcoder
  rcases hfits other hother with hcoder | hcoder
  · exact (annotated_iff.mp (hretyped hcoder)).2.2.2.2 other hother
  · have hcoder := hcoder htext typeId htype
    rcases hown with hsample | ⟨hattributes, hslots⟩
    · exact (annotated_iff.mp (hretyped (.inl (hcoder.trans hsample)))).2.2.2.2 other hother
    · rw [hcoder]
      exact ⟨.inl hattributes, hslots⟩

/-- Two elements that were outfitted alike and got annotated children. -/
theorem Fits.annotated_withChildren {v : Value} (htext : v.text? = none)
    {typeId : String} (htype : v.typeId? = some typeId) {type : Option String}
    (hfits : decoder.Fits holder v type) {e₀ e : Element} (h₀ : Opened e₀)
    (h : Encoder.Outfitted e₀ e) {children children' : List Element}
    (hchildren : List.Forall₂ (decoder.FieldAnnotated event holder) children children')
    (hslots : List.Forall₂ (decoder.SlotAnnotated event holder)
      (decoder.slots (decoder.roster.coderFor typeId) children)
      (decoder.slots (decoder.roster.coderFor typeId) children')) :
    decoder.Annotated event holder type (Encoder.withChildren e children)
      (Encoder.withChildren e children') :=
  hfits.annotated hroster hsamples htext htype (annotated_iff.mpr
    ⟨rfl, rfl, .refl (h.nodup h₀.nodup), hchildren, fun _ => by rintro ⟨⟩⟩) (.inr ⟨rfl, hslots⟩)

section

variable {typeId : String} {fields : List (String × Value)} {entries : List Value}
  (hfaithful : (∀ typeId, holder typeId) ∨ decoder.Faithful (.object typeId fields entries))

include hfaithful

theorem fillsAnnotated_envelope (hcoder : decoder.roster.coderFor typeId = .envelope)
    (hentries : ∀ entry ∈ entries, decoder.FillsAnnotated event holder entry) :
    decoder.FillsAnnotated event holder (.object typeId fields entries) := by
  refine ⟨hfaithful, fun e₀ e' h₀ hfill => ?_⟩
  obtain ⟨plan, member', rfl, hmember, rfl⟩ := (Encoder.fill_envelope _ hcoder).mp hfill
  obtain ⟨member, hmember, htwin⟩ := (List.forall_mem_singleton.mp hentries).encode hroster hmember
  have hhead : Encoder.envelopeHead (overrule event .envelope
      (overruledFields decoder.roster event fields)) e₀ = Encoder.envelopeHead fields e₀ := by
    simp only [overrule, Encoder.envelopeHead, fieldText?_overruledFields]
  rw [overruled_plan] at hmember
  rw [overruled_object, List.map_singleton, overruled_plan, hcoder]
  refine ⟨_, (Encoder.fill_envelope _ hcoder).mpr ⟨_, member, rfl, hmember, rfl⟩, ?_⟩
  intro type hfits
  rw [hhead]
  refine hfits.annotated_withChildren hroster hsamples rfl rfl h₀
    (Encoder.outfitted_envelopeHead fields e₀) (.cons htwin.1 .nil) ?_
  rw [hcoder]
  exact slots_twins (.inr (.inl rfl)) (.cons htwin .nil)

theorem fillsAnnotated_wrapper (hcoder : decoder.roster.coderFor typeId = .wrapper)
    (hentries : ∀ entry ∈ entries, decoder.FillsAnnotated event holder entry) :
    decoder.FillsAnnotated event holder (.object typeId fields entries) := by
  refine ⟨hfaithful, fun e₀ e' h₀ hfill => ?_⟩
  obtain ⟨members', hall, rfl⟩ := (Encoder.fill_wrapper _ hcoder).mp hfill
  obtain ⟨members, hmembers, htwins⟩ := encodeAll_annotated hroster hentries hall
  have hhead : Encoder.wrapperHead (overrule event .wrapper
      (overruledFields decoder.roster event fields)) e₀ = Encoder.wrapperHead fields e₀ := by
    simp only [overrule, Encoder.wrapperHead, fieldText?_overruledFields]
  rw [overruled_object, hcoder]
  refine ⟨_, (Encoder.fill_wrapper _ hcoder).mpr ⟨members, hmembers, rfl⟩, ?_⟩
  intro type hfits
  rw [hhead]
  refine hfits.annotated_withChildren hroster hsamples rfl rfl h₀
    (Encoder.outfitted_wrapperHead fields e₀) (htwins.imp fun _ _ htwin => htwin.1) ?_
  rw [hcoder]
  exact slots_twins (.inr (.inr rfl)) htwins

/-- The texts of a sample are overruled, and the event adds to them. -/
theorem fillsAnnotated_sample (hcoder : decoder.roster.coderFor typeId = .sample)
    (hfields : ∀ field ∈ fields, decoder.FillsAnnotated event holder field.2)
    (hentries : ∀ entry ∈ entries, decoder.FillsAnnotated event holder entry) :
    decoder.FillsAnnotated event holder (.object typeId fields entries) := by
  refine ⟨hfaithful, fun e₀ e' h₀ hfill => ?_⟩
  obtain ⟨head', parts', members', hhead', hparts, hall, rfl⟩ :=
    (Encoder.fill_sample _ hcoder).mp hfill
  obtain ⟨head, hhead, hnoted⟩ := exists_sampleHead h₀ hhead'
  obtain ⟨parts, hparts, hannotated⟩ := encodeFields_annotated hroster
    (P := fun _ => True) (fun _ _ => trivial)
    (fun field hfield => hfields field (List.mem_filter.mp hfield).1)
    (Encoder.encodeStructured_eq_ok.mp hparts)
  obtain ⟨members, hmembers, htwins⟩ := encodeAll_annotated hroster hentries hall
  have houtfitted := Encoder.outfitted_sampleHead hhead
  have houtfitted' := Encoder.outfitted_sampleHead hhead'
  have hall : decoder.Annotated event holder none (Encoder.withChildren head (parts ++ members))
      (Encoder.withChildren head' (parts' ++ members')) := by
    refine annotated_iff.mpr ⟨houtfitted'.name.trans houtfitted.name.symm,
      houtfitted'.text.trans houtfitted.text.symm, hnoted, ?_, fun _ => by rintro ⟨⟩⟩
    exact List.rel_append (hannotated.imp fun _ _ hpart => hpart.2)
      (htwins.imp fun _ _ htwin => htwin.1)
  rw [overruled_object, hcoder]
  refine ⟨_, (Encoder.fill_sample _ hcoder).mpr
    ⟨head, parts, members, hhead, Encoder.encodeStructured_eq_ok.mpr ?_, hmembers, rfl⟩,
    fun type hfits => hfits.annotated hroster hsamples rfl rfl hall (.inl hcoder)⟩
  rw [structured_overrule, structured_overruledFields]
  exact hparts

theorem fillsAnnotated_object (hcoder : decoder.roster.coderFor typeId = .object)
    (hfields : ∀ field ∈ fields, decoder.FillsAnnotated event holder field.2)
    (hentries : ∀ entry ∈ entries, decoder.FillsAnnotated event holder entry) :
    decoder.FillsAnnotated event holder (.object typeId fields entries) := by
  refine ⟨hfaithful, fun e₀ e' h₀ hfill => ?_⟩
  obtain ⟨parts', members', hparts, hall, rfl⟩ := (Encoder.fill_object _ hcoder).mp hfill
  obtain ⟨hreserved, hparts⟩ := Encoder.encodeFields_eq_ok.mp hparts
  obtain ⟨parts, hparts, hannotated⟩ := encodeFields_annotated hroster
    (P := fun name => name ≠ entriesTag) hreserved hfields hparts
  obtain ⟨members, hmembers, htwins⟩ := encodeAll_annotated hroster hentries hall
  rw [overruled_object, hcoder]
  refine ⟨_, (Encoder.fill_object _ hcoder).mpr ⟨parts, members,
    Encoder.encodeFields_eq_ok.mpr ⟨List.forall_mem_map.mpr hreserved, hparts⟩, hmembers, rfl⟩,
    fun type hfits => hfits.annotated_withChildren hroster hsamples rfl rfl h₀ (.refl e₀) ?_ ?_⟩
  · exact List.rel_append (hannotated.imp fun _ _ hpart => hpart.2) (annotated_collection htwins)
  · rw [hcoder, slots_append, slots_append]
    exact List.rel_append (slots_parts hannotated) (slots_collection htwins)

end

theorem fillsAnnotated_plan {branches : List Branch}
    (hfaithful : (∀ typeId, holder typeId) ∨ decoder.Faithful (.plan branches))
    (hbranches : ∀ b ∈ branches, decoder.FillsAnnotated event holder b.element ∧
      decoder.FillsAnnotated event holder (.plan b.children)) :
    decoder.FillsAnnotated event holder (.plan branches) := by
  refine ⟨hfaithful, fun e₀ e' h₀ hfill => ?_⟩
  obtain ⟨htag, children, hchildren, rfl⟩ := (Encoder.fill_plan _ hroster).mp hfill
  obtain ⟨pairs', hpairs, rfl⟩ := Encoder.encodePlan_eq_ok.mp hchildren
  obtain ⟨pairs, hpairs, htwins⟩ := exists_forall₂_map (fun b hb _ hpair =>
    encodesBranch_annotated hroster htag (hbranches b hb).1 (hbranches b hb).2 hpair) hpairs
  have hall : List.Forall₂ (decoder.Twin event holder)
      (Encoder.branchElements (decoder.resolver.tagFor treeType) pairs)
      (Encoder.branchElements (decoder.resolver.tagFor treeType) pairs') :=
    List.rel_flatMap htwins fun _ _ => id
  rw [overruled_plan]
  refine ⟨_, (Encoder.fill_plan _ hroster).mpr
    ⟨htag, _, Encoder.encodePlan_eq_ok.mpr ⟨pairs, hpairs, rfl⟩, rfl⟩, fun type hfits =>
      hfits.annotated_withChildren hroster hsamples rfl rfl h₀ (.refl e₀)
        (hall.imp fun _ _ htwin => htwin.1) ?_⟩
  rw [Roster.coderFor_of_dedicated hroster.dedicated_plan]
  exact slots_twins (.inl rfl) hall

/-- By induction on the value: only the coder of samples asks for the event. -/
theorem fillsAnnotated {v : Value}
    (hv : v.Everywhere fun u => (∀ typeId, holder typeId) ∨ decoder.Faithful u) :
    decoder.FillsAnnotated event holder v := by
  induction v using Value.induct with
  | null =>
    refine ⟨hv.here, fun e₀ e' h₀ hfill => ?_⟩
    rw [annotator, Encoder.fill] at hfill
    obtain rfl := Except.ok.inj hfill
    exact ⟨e₀, by rw [overruled, Value.mapFields, Encoder.fill], fun type _ =>
      annotated_leaf h₀.nodup h₀.children⟩
  | text s =>
    refine ⟨hv.here, fun e₀ e' h₀ hfill => ?_⟩
    rw [Encoder.fill_text _ hroster] at hfill
    obtain rfl := Except.ok.inj hfill
    exact ⟨_, Encoder.fill_text _ hroster e₀ s, fun type _ => annotated_leaf h₀.nodup h₀.children⟩
  | object typeId fields entries ihfields ihentries =>
    obtain ⟨hhere, hfields, hentries⟩ := Value.everywhere_object.mp hv
    have ihfields := fun field hfield => ihfields field hfield (hfields field hfield)
    have ihentries := fun entry hentry => ihentries entry hentry (hentries entry hentry)
    cases hcoder : decoder.roster.coderFor typeId with
    | text => exact ⟨hhere, fun _ _ _ h => absurd h (Encoder.fill_misfit _ (Or.inl hcoder))⟩
    | plan => exact ⟨hhere, fun _ _ _ h => absurd h (Encoder.fill_misfit _ (Or.inr hcoder))⟩
    | envelope => exact fillsAnnotated_envelope hroster hsamples hhere hcoder ihentries
    | wrapper => exact fillsAnnotated_wrapper hroster hsamples hhere hcoder ihentries
    | sample => exact fillsAnnotated_sample hroster hsamples hhere hcoder ihfields ihentries
    | object => exact fillsAnnotated_object hroster hsamples hhere hcoder ihfields ihentries
  | plan branches ih =>
    obtain ⟨hhere, hbranches⟩ := Value.everywhere_plan.mp hv
    exact fillsAnnotated_plan hroster hsamples hhere fun b hb =>
      ⟨(ih b hb).1 (hbranches b hb).1, (ih b hb).2 (hbranches b hb).2⟩

/-- What is written with the event is what is written for the overruled value without it, but for
annotations. -/
theorem annotated_encode {v : Value}
    (hv : v.Everywhere fun u => (∀ typeId, holder typeId) ∨ decoder.Faithful u) {e' : Element}
    (h : (decoder.annotator event).encode v = .ok e') :
    ∃ e, decoder.counterpart.encode (overruled decoder.roster event v) = .ok e ∧
      decoder.Annotated event holder (some e.name) e e' := by
  obtain ⟨e, hencode, -, hannotated⟩ := (fillsAnnotated hroster hsamples hv).encode hroster h
  exact ⟨e, hencode, hannotated⟩

end

end Decoder

end PlanArchive.Coding
