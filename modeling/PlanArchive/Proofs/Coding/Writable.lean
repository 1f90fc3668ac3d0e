import PlanArchive.Proofs.Coding.Writing
import PlanArchive.Proofs.Related
import PlanArchive.Proofs.Value.Occurs

/-!
# What can be written

Whether a value can be written is told from its parts one by one: from the types of its objects and
plans, the names of their fields and what stands in them (`exists_fill_iff`).
-/

namespace PlanArchive.Coding.Encoder

open Markup Naming

/-- The value has a tag to stand on its own with. -/
def Tagged (encoder : Encoder) (v : Value) : Prop :=
  isName (tagOf encoder.resolver v) = true

/-- What a coder asks of the fields and entries of an object. -/
def WritableAs (encoder : Encoder) (fields : List (String × Value)) (entries : List Value) :
    Coder → Prop
  | .text | .plan => False
  | .envelope => ∃ plan, entries = [.plan plan]
  | .wrapper => True
  | .sample => ∀ field ∈ fields, isName field.1 = true ∧
      (field.2.text?.isSome = true → isReserved field.1 = false) ∧
      (field.2.text? = none → encoder.Tagged field.2)
  | .object => ∀ field ∈ fields, field.1 ≠ entriesTag ∧ isName field.1 = true ∧
      (field.2.text? = none → encoder.Tagged field.2)

/-- What is asked of a value, apart from what is in it. -/
def Writable (encoder : Encoder) : Value → Prop
  | .null | .text _ => True
  | .object typeId fields entries =>
    encoder.WritableAs fields entries (encoder.roster.coderFor typeId) ∧
      ∀ entry ∈ entries, encoder.Tagged entry
  | .plan branches =>
    isName (encoder.resolver.tagFor treeType) = true ∧
      ∀ b ∈ branches, b.element.isPlan = false ∧ encoder.Tagged b.element

/-- Envelopes and wrappers have no fields but texts, so all that stands in a value is written. -/
def HeldInTexts (encoder : Encoder) : Value → Prop
  | .object typeId fields _ =>
    (encoder.roster.coderFor typeId = .envelope ∨ encoder.roster.coderFor typeId = .wrapper) →
      ∀ field ∈ fields, ∃ s, field.2 = .text s
  | _ => True

/-- The value is written just when all that stands in it is writable. -/
def FillsIff (encoder : Encoder) (v : Value) : Prop :=
  ∀ e, (∃ e', encoder.fill e v = .ok e') ↔ v.Everywhere encoder.Writable

section

variable {encoder : Encoder}

theorem exists_encode_iff {v : Value} (h : encoder.FillsIff v) :
    (∃ e, encoder.encode v = .ok e) ↔ encoder.Tagged v ∧ v.Everywhere encoder.Writable := by
  rw [← h { name := tagOf encoder.resolver v }, Tagged]
  simp only [encode_eq, Result.bind_eq_ok, startValue_eq_ok, and_assoc]
  constructor
  · rintro ⟨e, _, hname, rfl, he⟩
    exact ⟨hname, e, he⟩
  · rintro ⟨hname, e, he⟩
    exact ⟨e, _, hname, rfl, he⟩

theorem exists_encodeAll_iff {vs : List Value} (h : ∀ v ∈ vs, encoder.FillsIff v) :
    (∃ es, encoder.encodeAll vs = .ok es) ↔
      ∀ v ∈ vs, encoder.Tagged v ∧ v.Everywhere encoder.Writable := by
  simp only [encodeAll_eq_ok, exists_forall₂_iff]
  exact forall₂_congr fun v hv => exists_encode_iff (h v hv)

theorem exists_encodeField_iff (hroster : encoder.roster.Standard) {field : String × Value}
    (h : encoder.FillsIff field.2) :
    (∃ e, encoder.encodeField field = .ok e) ↔
      (isName field.1 = true ∧ (field.2.text? = none → encoder.Tagged field.2)) ∧
        field.2.Everywhere encoder.Writable := by
  rw [← h { name := field.1, attributes := classOf encoder.resolver field.2 }]
  simp only [encodeField, Result.bind_eq_ok, startField_eq_ok, fillField_eq encoder hroster, Tagged]
  constructor
  · rintro ⟨e, _, ⟨hname, htag, rfl⟩, he⟩
    exact ⟨⟨hname, htag⟩, e, he⟩
  · rintro ⟨⟨hname, htag⟩, e, he⟩
    exact ⟨e, _, ⟨hname, htag, rfl⟩, he⟩

theorem exists_sampleHead_iff (hevent : encoder.event = none)
    {fields : List (String × Value)} {e : Element} :
    (∃ e', encoder.sampleHead fields e = .ok e') ↔ ∀ field ∈ fields,
      field.2.text?.isSome = true → isName field.1 = true ∧ isReserved field.1 = false := by
  have htexts : (∀ pair ∈ textFields fields, isName pair.1 = true ∧ isReserved pair.1 = false) ↔
      ∀ field ∈ fields, field.2.text?.isSome = true →
        isName field.1 = true ∧ isReserved field.1 = false := by
    constructor
    · intro h field hfield htext
      obtain ⟨s, hs⟩ := Option.isSome_iff_exists.mp htext
      exact h (field.1, s) (List.mem_filterMap.mpr ⟨field, hfield, by simp [hs]⟩)
    · intro h pair hpair
      obtain ⟨field, hfield, hmap⟩ := List.mem_filterMap.mp hpair
      obtain ⟨s, hs, rfl⟩ := Option.map_eq_some_iff.mp hmap
      exact h field hfield (Option.isSome_iff_exists.mpr ⟨s, hs⟩)
  rw [← htexts]
  simp only [sampleHead, hevent, setEvent, Result.bind_eq_ok, setAll_eq_ok]
  constructor
  · rintro ⟨_, _, ⟨hnames, -⟩, -⟩
    exact hnames
  · intro hnames
    exact ⟨_, _, ⟨hnames, rfl⟩, rfl⟩

/-- The fields of a sample: its texts are attributes, all others are elements. -/
theorem exists_sample_iff (hroster : encoder.roster.Standard) (hevent : encoder.event = none)
    {fields : List (String × Value)} (h : ∀ field ∈ fields, encoder.FillsIff field.2)
    (entries : List Value) (e : Element) :
    ((∃ e', encoder.sampleHead fields e = .ok e') ∧
        ∃ parts, encoder.encodeStructured fields = .ok parts) ↔
      encoder.WritableAs fields entries .sample ∧ ∀ field ∈ fields,
        field.2.Everywhere encoder.Writable := by
  have hstructured : (∃ parts, encoder.encodeStructured fields = .ok parts) ↔
      ∀ field ∈ fields, field.2.text? = none → ∃ e, encoder.encodeField field = .ok e := by
    simp only [encodeStructured_eq_ok, exists_forall₂_iff, structured, List.mem_filter,
      Option.isNone_iff_eq_none, and_imp]
  rw [exists_sampleHead_iff hevent, hstructured]
  simp only [WritableAs, ← forall₂_and]
  refine forall₂_congr fun field hfield => ?_
  rw [exists_encodeField_iff hroster (h field hfield)]
  obtain ⟨name, v⟩ := field
  cases v with
  | text s =>
    have htext : Value.Everywhere encoder.Writable (.text s) := Value.everywhere_text.mpr trivial
    simp [Value.text?, htext]
  | _ => simp [Value.text?, and_assoc]

theorem exists_encodeFields_iff (hroster : encoder.roster.Standard)
    {fields : List (String × Value)} (h : ∀ field ∈ fields, encoder.FillsIff field.2)
    (entries : List Value) (typeId : String) :
    (∃ parts, encoder.encodeFields typeId fields = .ok parts) ↔
      encoder.WritableAs fields entries .object ∧ ∀ field ∈ fields,
        field.2.Everywhere encoder.Writable := by
  simp only [encodeFields_eq_ok, exists_and_left, exists_forall₂_iff, WritableAs, ← forall₂_and]
  refine forall₂_congr fun field hfield => ?_
  rw [exists_encodeField_iff hroster (h field hfield)]
  simp only [and_assoc]

theorem fillsIff_object (hroster : encoder.roster.Standard) (hevent : encoder.event = none)
    {typeId : String} {fields : List (String × Value)} {entries : List Value}
    (htexts : encoder.HeldInTexts (.object typeId fields entries))
    (hfields : ∀ field ∈ fields, encoder.FillsIff field.2)
    (hentries : ∀ entry ∈ entries, encoder.FillsIff entry) :
    encoder.FillsIff (.object typeId fields entries) := by
  intro e
  have hmembers : (∃ members, encoder.encodeAll entries = .ok members) ↔
      (∀ entry ∈ entries, encoder.Tagged entry) ∧
        ∀ entry ∈ entries, entry.Everywhere encoder.Writable :=
    (exists_encodeAll_iff hentries).trans forall₂_and
  have hheld : encoder.roster.coderFor typeId = .envelope ∨
      encoder.roster.coderFor typeId = .wrapper →
        ∀ field ∈ fields, field.2.Everywhere encoder.Writable := by
    intro hcoder field hfield
    obtain ⟨s, hs⟩ := htexts hcoder field hfield
    exact hs ▸ Value.everywhere_text.mpr trivial
  rw [Value.everywhere_object, Writable]
  cases hcoder : encoder.roster.coderFor typeId with
  | text => exact iff_of_false (by simp [fill_misfit encoder (Or.inl hcoder)]) fun h => h.1.1
  | plan => exact iff_of_false (by simp [fill_misfit encoder (Or.inr hcoder)]) fun h => h.1.1
  | envelope =>
    simp only [fill_envelope encoder hcoder]
    constructor
    · rintro ⟨_, plan, member, rfl, hmember, -⟩
      have hplan := exists_encode_iff (hentries _ (List.mem_cons_self ..))
      obtain ⟨htag, hwritable⟩ := hplan.mp ⟨member, hmember⟩
      exact ⟨⟨⟨plan, rfl⟩, List.forall_mem_singleton.mpr htag⟩, hheld (Or.inl hcoder),
        List.forall_mem_singleton.mpr hwritable⟩
    · rintro ⟨⟨⟨plan, rfl⟩, htags⟩, -, hentries'⟩
      have hplan := exists_encode_iff (hentries _ (List.mem_cons_self ..))
      obtain ⟨member, hmember⟩ := hplan.mpr
        ⟨List.forall_mem_singleton.mp htags, List.forall_mem_singleton.mp hentries'⟩
      exact ⟨_, plan, member, rfl, hmember, rfl⟩
  | wrapper =>
    simp only [fill_wrapper encoder hcoder]
    constructor
    · rintro ⟨_, members, hall, -⟩
      obtain ⟨htags, hentries'⟩ := hmembers.mp ⟨members, hall⟩
      exact ⟨⟨trivial, htags⟩, hheld (Or.inr hcoder), hentries'⟩
    · rintro ⟨⟨-, htags⟩, -, hentries'⟩
      obtain ⟨members, hall⟩ := hmembers.mpr ⟨htags, hentries'⟩
      exact ⟨_, members, hall, rfl⟩
  | sample =>
    have hparts := exists_sample_iff hroster hevent hfields entries e
    simp only [fill_sample encoder hcoder]
    constructor
    · rintro ⟨_, head, parts, members, hhead, hstructured, hall, -⟩
      obtain ⟨hwritable, hfields'⟩ := hparts.mp ⟨⟨head, hhead⟩, parts, hstructured⟩
      obtain ⟨htags, hentries'⟩ := hmembers.mp ⟨members, hall⟩
      exact ⟨⟨hwritable, htags⟩, hfields', hentries'⟩
    · rintro ⟨⟨hwritable, htags⟩, hfields', hentries'⟩
      obtain ⟨⟨head, hhead⟩, parts, hstructured⟩ := hparts.mpr ⟨hwritable, hfields'⟩
      obtain ⟨members, hall⟩ := hmembers.mpr ⟨htags, hentries'⟩
      exact ⟨_, head, parts, members, hhead, hstructured, hall, rfl⟩
  | object =>
    have hparts := exists_encodeFields_iff hroster hfields entries typeId
    simp only [fill_object encoder hcoder]
    constructor
    · rintro ⟨_, parts, members, hall', hall, -⟩
      obtain ⟨hwritable, hfields'⟩ := hparts.mp ⟨parts, hall'⟩
      obtain ⟨htags, hentries'⟩ := hmembers.mp ⟨members, hall⟩
      exact ⟨⟨hwritable, htags⟩, hfields', hentries'⟩
    · rintro ⟨⟨hwritable, htags⟩, hfields', hentries'⟩
      obtain ⟨parts, hall'⟩ := hparts.mpr ⟨hwritable, hfields'⟩
      obtain ⟨members, hall⟩ := hmembers.mpr ⟨htags, hentries'⟩
      exact ⟨_, parts, members, hall', hall, rfl⟩

theorem exists_encodePlan_iff (hroster : encoder.roster.Standard)
    (htag : isName (encoder.resolver.tagFor treeType) = true) {plan : Plan}
    (h : encoder.FillsIff (.plan plan)) :
    (∃ children, encoder.encodePlan (encoder.resolver.tagFor treeType) plan = .ok children) ↔
      Value.Everywhere encoder.Writable (.plan plan) := by
  rw [← h { name := "" }]
  simp only [fill_plan encoder hroster]
  constructor
  · rintro ⟨children, hchildren⟩
    exact ⟨_, htag, children, hchildren, rfl⟩
  · rintro ⟨_, -, children, hchildren, -⟩
    exact ⟨children, hchildren⟩

theorem exists_encodesBranch_iff (hroster : encoder.roster.Standard)
    (htag : isName (encoder.resolver.tagFor treeType) = true) {b : Branch}
    (h : encoder.FillsIff b.element ∧ encoder.FillsIff (.plan b.children)) :
    (∃ pair, encoder.EncodesBranch (encoder.resolver.tagFor treeType) b pair) ↔
      (b.element.isPlan = false ∧ encoder.Tagged b.element) ∧
        b.element.Everywhere encoder.Writable ∧
          Value.Everywhere encoder.Writable (.plan b.children) := by
  rw [← exists_encodePlan_iff hroster htag h.2, and_assoc, ← and_assoc (a := encoder.Tagged _),
    ← exists_encode_iff h.1]
  simp only [EncodesBranch, Prod.exists, exists_and_left, exists_and_right]

theorem fillsIff_plan (hroster : encoder.roster.Standard) {branches : List Branch}
    (h : ∀ b ∈ branches, encoder.FillsIff b.element ∧ encoder.FillsIff (.plan b.children)) :
    encoder.FillsIff (.plan branches) := by
  intro e
  rw [Value.everywhere_plan, Writable]
  have hpairs : isName (encoder.resolver.tagFor treeType) = true →
      ((∃ pairs, List.Forall₂ (encoder.EncodesBranch (encoder.resolver.tagFor treeType))
          branches pairs) ↔
        (∀ b ∈ branches, b.element.isPlan = false ∧ encoder.Tagged b.element) ∧
          ∀ b ∈ branches, b.element.Everywhere encoder.Writable ∧
            Value.Everywhere encoder.Writable (.plan b.children)) := by
    intro htag
    rw [exists_forall₂_iff, ← forall₂_and]
    exact forall₂_congr fun b hb => exists_encodesBranch_iff hroster htag (h b hb)
  simp only [fill_plan encoder hroster, encodePlan_eq_ok]
  constructor
  · rintro ⟨_, htag, _, ⟨pairs, hall, -⟩, -⟩
    obtain ⟨helements, hbelow⟩ := (hpairs htag).mp ⟨pairs, hall⟩
    exact ⟨⟨htag, helements⟩, hbelow⟩
  · rintro ⟨⟨htag, helements⟩, hbelow⟩
    obtain ⟨pairs, hall⟩ := (hpairs htag).mpr ⟨helements, hbelow⟩
    exact ⟨_, htag, _, ⟨pairs, hall, rfl⟩, rfl⟩

/-- A value is written just when all that stands in it is writable. -/
theorem fillsIff (hroster : encoder.roster.Standard) (hevent : encoder.event = none) {v : Value}
    (h : v.Everywhere encoder.HeldInTexts) : encoder.FillsIff v := by
  induction v using Value.induct with
  | null => exact fun e => iff_of_true ⟨e, by rw [fill]⟩ (Value.everywhere_null.mpr trivial)
  | text s =>
    exact fun e => iff_of_true ⟨_, fill_text encoder hroster e s⟩ (Value.everywhere_text.mpr trivial)
  | object typeId fields entries ihfields ihentries =>
    obtain ⟨hhere, hfields, hentries⟩ := Value.everywhere_object.mp h
    exact fillsIff_object hroster hevent hhere
      (fun field hfield => ihfields field hfield (hfields field hfield))
      fun entry hentry => ihentries entry hentry (hentries entry hentry)
  | plan branches ih =>
    obtain ⟨-, hbranches⟩ := Value.everywhere_plan.mp h
    exact fillsIff_plan hroster fun b hb =>
      ⟨(ih b hb).1 (hbranches b hb).1, (ih b hb).2 (hbranches b hb).2⟩

end

end PlanArchive.Coding.Encoder
