import Mathlib.Data.List.Forall2
import PlanArchive.Coding.Encode
import PlanArchive.Proofs.Coding.Roster
import PlanArchive.Proofs.Keyed
import PlanArchive.Proofs.Result

/-!
# Writing step by step

For each kind of value a lemma says when its element is filled, and with what (`fill_object` and its
neighbours). Lists of values are written one by one, so that a list of elements answers to them.
-/

namespace PlanArchive.Coding

open Markup Naming

/-- The tag of a value that stands on its own. -/
def tagOf (resolver : Resolver) (v : Value) : String :=
  match v.typeId? with
  | none => nullTag
  | some typeId => resolver.tagFor typeId

/-- The attributes with which the element of a field starts. -/
def classOf (resolver : Resolver) (v : Value) : List (String × String) :=
  if v.text?.isSome then [] else [(classKey, tagOf resolver v)]

namespace Encoder

variable {encoder : Encoder}

/-! ## Starts -/

theorem tagFor_eq_ok {typeId tag : String} :
    encoder.tagFor typeId = .ok tag ↔
      isName (encoder.resolver.tagFor typeId) = true ∧ encoder.resolver.tagFor typeId = tag := by
  rw [tagFor]
  split
  · rename_i hname
    constructor
    · intro h
      exact ⟨hname, Except.ok.inj h⟩
    · rintro ⟨-, rfl⟩
      rfl
  · rename_i hname
    exact iff_of_false (by rintro ⟨⟩) fun h => hname h.1

theorem isName_nullTag : isName nullTag = true := by decide

theorem startValue_eq_ok {v : Value} {e : Element} :
    encoder.startValue v = .ok e ↔
      isName (tagOf encoder.resolver v) = true ∧ e = { name := tagOf encoder.resolver v } := by
  rw [startValue, tagOf]
  cases v.typeId? with
  | none =>
    constructor
    · intro h
      exact ⟨isName_nullTag, (Except.ok.inj h).symm⟩
    · rintro ⟨-, rfl⟩
      rfl
  | some typeId =>
    simp only [Result.bind_eq_ok, Result.pure_eq_ok, tagFor_eq_ok, and_assoc, exists_and_left,
      exists_eq_left', eq_comm (a := e)]

theorem startField_eq_ok {name : String} {v : Value} {e : Element} :
    encoder.startField name v = .ok e ↔
      isName name = true ∧ (v.text? = none → isName (tagOf encoder.resolver v) = true) ∧
        e = { name, attributes := classOf encoder.resolver v } := by
  have hclass : ∀ typeId,
      (do return { name, attributes := [(classKey, ← encoder.tagFor typeId)] }) = Except.ok e ↔
        isName (encoder.resolver.tagFor typeId) = true ∧
          e = { name, attributes := [(classKey, encoder.resolver.tagFor typeId)] } := by
    intro typeId
    simp only [Result.bind_eq_ok, Result.pure_eq_ok, tagFor_eq_ok, and_assoc, exists_and_left,
      exists_eq_left', eq_comm (a := e)]
  by_cases hname : isName name = true
  · rw [startField.eq_def, if_neg (by simp [hname]), and_iff_right hname]
    cases v with
    | null =>
      constructor
      · intro h
        exact ⟨fun _ => isName_nullTag, (Except.ok.inj h).symm⟩
      · rintro ⟨-, rfl⟩
        rfl
    | text s =>
      constructor
      · intro h
        exact ⟨by rintro ⟨⟩, (Except.ok.inj h).symm⟩
      · rintro ⟨-, rfl⟩
        rfl
    | object typeId fields entries =>
      have hnone : (Value.object typeId fields entries).text? = none := rfl
      exact (hclass typeId).trans (and_congr_left' (imp_iff_right hnone).symm)
    | plan branches =>
      have hnone : (Value.plan branches).text? = none := rfl
      exact (hclass treeType).trans (and_congr_left' (imp_iff_right hnone).symm)
  · rw [startField.eq_def, if_pos (by simp [hname])]
    exact iff_of_false (by rintro ⟨⟩) fun h => hname h.1

/-! ## Heads -/

theorem setChecked_eq_ok {key value : String} {e e' : Element} :
    setChecked key value e = .ok e' ↔
      (isName key = true ∧ isReserved key = false) ∧ e' = e.setAttribute key value := by
  unfold setChecked
  by_cases h : isName key = true ∧ isReserved key = false
  · rw [if_neg (by simp [h])]
    constructor
    · intro he
      exact ⟨h, (Except.ok.inj he).symm⟩
    · rintro ⟨-, rfl⟩
      rfl
  · rw [if_pos (by simpa [Decidable.imp_iff_not_or] using h)]
    exact iff_of_false (by rintro ⟨⟩) fun he => h he.1

theorem setAll_eq_ok {pairs : List (String × String)} {e e' : Element} :
    setAll pairs e = .ok e' ↔
      (∀ pair ∈ pairs, isName pair.1 = true ∧ isReserved pair.1 = false) ∧
        e' = { e with attributes := Keyed.putAll e.attributes pairs } := by
  induction pairs generalizing e with
  | nil =>
    obtain ⟨name, attributes, text, children, line⟩ := e
    constructor
    · intro h
      exact ⟨List.forall_mem_nil _, (Except.ok.inj h).symm⟩
    · rintro ⟨-, rfl⟩
      rfl
  | cons pair pairs ih =>
    simp only [setAll, Result.bind_eq_ok, setChecked_eq_ok, ih, List.forall_mem_cons]
    constructor
    · rintro ⟨_, ⟨hpair, rfl⟩, hpairs, rfl⟩
      exact ⟨⟨hpair, hpairs⟩, rfl⟩
    · rintro ⟨⟨hpair, hpairs⟩, rfl⟩
      exact ⟨_, ⟨hpair, rfl⟩, hpairs, rfl⟩

/-- The element got more attributes, none of them reserved. -/
structure Outfitted (e e' : Element) : Prop where
  name : e'.name = e.name
  text : e'.text = e.text
  children : e'.children = e.children
  names : (∀ pair ∈ e.attributes, isName pair.1 = true) →
    ∀ pair ∈ e'.attributes, isName pair.1 = true
  nodup : (Keyed.keys e.attributes).Nodup → (Keyed.keys e'.attributes).Nodup
  reserved : ∀ key, isReserved key = true → e'.attribute? key = e.attribute? key

theorem Outfitted.refl (e : Element) : Outfitted e e :=
  ⟨rfl, rfl, rfl, id, id, fun _ _ => rfl⟩

theorem Outfitted.trans {a b c : Element} (hab : Outfitted a b) (hbc : Outfitted b c) :
    Outfitted a c where
  name := hbc.name.trans hab.name
  text := hbc.text.trans hab.text
  children := hbc.children.trans hab.children
  names := hbc.names ∘ hab.names
  nodup := hbc.nodup ∘ hab.nodup
  reserved := fun key hkey => (hbc.reserved key hkey).trans (hab.reserved key hkey)

theorem outfitted_setAttribute (e : Element) {key : String} (hname : isName key = true)
    (hreserved : isReserved key = false) (value : String) :
    Outfitted e (e.setAttribute key value) where
  name := rfl
  text := rfl
  children := rfl
  names := fun h pair hpair => by
    rcases Keyed.mem_put hpair with rfl | hpair
    · exact hname
    · exact h pair hpair
  nodup := fun h => Keyed.nodup_put h key value
  reserved := fun k hk => by
    have hne : key ≠ k := by
      rintro rfl
      rw [hk] at hreserved
      cases hreserved
    exact (Keyed.find?_put key k value e.attributes).trans (if_neg hne)

theorem outfitted_setAll {pairs : List (String × String)} {e e' : Element}
    (h : setAll pairs e = .ok e') : Outfitted e e' := by
  induction pairs generalizing e with
  | nil => exact Except.ok.inj h ▸ Outfitted.refl e
  | cons pair pairs ih =>
    simp only [setAll, Result.bind_eq_ok, setChecked_eq_ok] at h
    obtain ⟨_, ⟨⟨hname, hreserved⟩, rfl⟩, h⟩ := h
    exact (outfitted_setAttribute e hname hreserved pair.2).trans (ih h)

theorem outfitted_setUnlessEmpty (e : Element) {key : String} (hname : isName key = true)
    (hreserved : isReserved key = false) (value : String) :
    Outfitted e (setUnlessEmpty key value e) := by
  unfold setUnlessEmpty
  split
  · exact Outfitted.refl e
  · exact outfitted_setAttribute e hname hreserved value

theorem outfitted_sampleHead {fields : List (String × Value)} {e e' : Element}
    (h : encoder.sampleHead fields e = .ok e') : Outfitted e e' := by
  simp only [sampleHead, Result.bind_eq_ok] at h
  obtain ⟨e₁, htexts, hevent⟩ := h
  refine (outfitted_setAll htexts).trans ?_
  cases hev : encoder.event with
  | none =>
    rw [hev] at hevent
    exact Except.ok.inj hevent ▸ Outfitted.refl e₁
  | some event =>
    rw [hev] at hevent
    exact ((outfitted_setUnlessEmpty e₁ (by decide) (by decide) _).trans
      (outfitted_setUnlessEmpty _ (by decide) (by decide) _)).trans (outfitted_setAll hevent)

theorem outfitted_envelopeHead (fields : List (String × Value)) (e : Element) :
    Outfitted e (envelopeHead fields e) := by
  have hstep : ∀ (e : Element) {key : String}, isName key = true → isReserved key = false →
      Outfitted e ((Value.fieldText? fields key).elim e (e.setAttribute key)) := by
    intro e key hname hreserved
    cases Value.fieldText? fields key with
    | none => exact Outfitted.refl e
    | some value => exact outfitted_setAttribute e hname hreserved value
  exact ((hstep e (by decide) (by decide)).trans (hstep _ (by decide) (by decide))).trans
    (hstep _ (by decide) (by decide))

theorem outfitted_wrapperHead (fields : List (String × Value)) (e : Element) :
    Outfitted e (wrapperHead fields e) :=
  outfitted_setAttribute e (by decide) (by decide) _

/-! ## Lists -/

theorem encode_eq (v : Value) :
    encoder.encode v = (do encoder.fill (← encoder.startValue v) v) := rfl

theorem encode_of_fill {v : Value} {e : Element}
    (hname : isName (tagOf encoder.resolver v) = true)
    (h : encoder.fill { name := tagOf encoder.resolver v } v = .ok e) :
    encoder.encode v = .ok e :=
  Result.bind_eq_ok.mpr ⟨_, startValue_eq_ok.mpr ⟨hname, rfl⟩, h⟩

/-- The element of a field. -/
def encodeField (encoder : Encoder) (field : String × Value) : Except WriteFault Element := do
  encoder.fillField (← encoder.startField field.1 field.2) field.2

theorem encodeAll_eq_ok {vs : List Value} {es : List Element} :
    encoder.encodeAll vs = .ok es ↔ List.Forall₂ (fun v e => encoder.encode v = .ok e) vs es := by
  induction vs generalizing es with
  | nil =>
    rw [encodeAll, List.forall₂_nil_left_iff, Except.ok.injEq]
    exact eq_comm
  | cons v vs ih =>
    simp only [encodeAll, encode_eq, Result.bind_eq_ok, Result.pure_eq_ok, ih,
      List.forall₂_cons_left_iff]
    constructor
    · rintro ⟨start, hstart, e, he, rest, hrest, rfl⟩
      exact ⟨e, rest, ⟨start, hstart, he⟩, hrest, rfl⟩
    · rintro ⟨e, rest, ⟨start, hstart, he⟩, hrest, rfl⟩
      exact ⟨start, hstart, e, he, rest, hrest, rfl⟩

theorem encodeFields_eq_ok {typeId : String} {fields : List (String × Value)}
    {es : List Element} :
    encoder.encodeFields typeId fields = .ok es ↔
      (∀ field ∈ fields, field.1 ≠ entriesTag) ∧
        List.Forall₂ (fun field e => encoder.encodeField field = .ok e) fields es := by
  induction fields generalizing es with
  | nil =>
    rw [encodeFields, List.forall₂_nil_left_iff]
    constructor
    · intro h
      exact ⟨List.forall_mem_nil _, (Except.ok.inj h).symm⟩
    · rintro ⟨-, rfl⟩
      rfl
  | cons field fields ih =>
    obtain ⟨name, v⟩ := field
    rw [encodeFields, List.forall_mem_cons]
    by_cases hname : name = entriesTag
    · rw [if_pos hname]
      exact iff_of_false (by rintro ⟨⟩) fun h => h.1.1 hname
    · rw [if_neg hname]
      simp only [Result.bind_eq_ok, Result.pure_eq_ok, ih, List.forall₂_cons_left_iff,
        encodeField]
      constructor
      · rintro ⟨start, hstart, e, he, rest, ⟨hnames, hrest⟩, rfl⟩
        exact ⟨⟨hname, hnames⟩, e, rest, ⟨start, hstart, he⟩, hrest, rfl⟩
      · rintro ⟨⟨-, hnames⟩, e, rest, ⟨start, hstart, he⟩, hrest, rfl⟩
        exact ⟨start, hstart, e, he, rest, ⟨hnames, hrest⟩, rfl⟩

/-- The fields that stand in children of a sample. -/
def structured (fields : List (String × Value)) : List (String × Value) :=
  fields.filter fun field => field.2.text?.isNone

theorem encodeStructured_eq_ok {fields : List (String × Value)} {es : List Element} :
    encoder.encodeStructured fields = .ok es ↔
      List.Forall₂ (fun field e => encoder.encodeField field = .ok e) (structured fields) es := by
  induction fields generalizing es with
  | nil =>
    rw [encodeStructured, structured, List.filter_nil, List.forall₂_nil_left_iff,
      Except.ok.injEq]
    exact eq_comm
  | cons field fields ih =>
    obtain ⟨name, v⟩ := field
    rw [encodeStructured.eq_def]
    cases v with
    | text s => exact ih
    | _ =>
      simp only [Result.bind_eq_ok, Result.pure_eq_ok, ih, structured, List.filter_cons,
        Value.text?, Option.isNone_none, if_pos, List.forall₂_cons_left_iff, encodeField]
      constructor
      · rintro ⟨start, hstart, e, he, rest, hrest, rfl⟩
        exact ⟨e, rest, ⟨start, hstart, he⟩, hrest, rfl⟩
      · rintro ⟨e, rest, ⟨start, hstart, he⟩, hrest, rfl⟩
        exact ⟨start, hstart, e, he, rest, hrest, rfl⟩

/-- The two elements of a branch: its element, and the plan below it. -/
def EncodesBranch (encoder : Encoder) (tag : String) (b : Branch)
    (pair : Element × List Element) : Prop :=
  b.element.isPlan = false ∧ encoder.encode b.element = .ok pair.1 ∧
    encoder.encodePlan tag b.children = .ok pair.2

def branchElements (tag : String) (pairs : List (Element × List Element)) : List Element :=
  pairs.flatMap fun (e, below) => [e, { name := tag, children := below }]

theorem branchElements_cons (tag : String) (e : Element) (below : List Element)
    (pairs : List (Element × List Element)) :
    branchElements tag ((e, below) :: pairs) =
      e :: { name := tag, children := below } :: branchElements tag pairs := rfl

theorem encodePlan_eq_ok {tag : String} {plan : Plan} {es : List Element} :
    encoder.encodePlan tag plan = .ok es ↔
      ∃ pairs, List.Forall₂ (encoder.EncodesBranch tag) plan pairs ∧
        es = branchElements tag pairs := by
  induction plan generalizing es with
  | nil =>
    simp only [encodePlan, List.forall₂_nil_left_iff, exists_eq_left, Except.ok.injEq]
    exact eq_comm
  | cons b plan ih =>
    obtain ⟨element, children⟩ := b
    rw [encodePlan]
    cases hplan : element.isPlan with
    | true =>
      simp only [if_pos, List.forall₂_cons_left_iff, EncodesBranch, Branch.element, hplan]
      refine iff_of_false (by rintro ⟨⟩) ?_
      rintro ⟨_, ⟨_, _, ⟨⟨⟩, _⟩, _⟩, _⟩
    | false =>
      simp only [Bool.false_eq_true, if_false, Result.bind_eq_ok, Result.pure_eq_ok, ih,
        List.forall₂_cons_left_iff, EncodesBranch, Branch.element, Branch.children, hplan,
        encode_eq, true_and]
      constructor
      · rintro ⟨start, hstart, e, he, below, hbelow, rest, ⟨pairs, hpairs, rfl⟩, rfl⟩
        exact ⟨_, ⟨(e, below), pairs, ⟨⟨start, hstart, he⟩, hbelow⟩, hpairs, rfl⟩, rfl⟩
      · rintro ⟨_, ⟨⟨e, below⟩, pairs, ⟨⟨start, hstart, he⟩, hbelow⟩, hpairs, rfl⟩, rfl⟩
        exact ⟨start, hstart, e, he, below, hbelow, _, ⟨pairs, hpairs, rfl⟩, rfl⟩

/-! ## Filling -/

section

variable (encoder) {e e' : Element} {typeId : String} {fields : List (String × Value)}
  {entries : List Value}

theorem fill_text_eq_ok {s : String} :
    encoder.fill e (.text s) = .ok e' ↔
      encoder.roster.coderFor textType = .text ∧ e' = { e with text := some s } := by
  rw [fill]
  cases encoder.roster.coderFor textType with
  | text => rw [and_iff_right rfl, Except.ok.injEq, eq_comm]
  | _ => exact iff_of_false (by rintro ⟨⟩) fun h => Coder.noConfusion h.1

theorem fill_text (hroster : encoder.roster.Standard) (e : Element) (s : String) :
    encoder.fill e (.text s) = .ok { e with text := some s } :=
  (fill_text_eq_ok encoder).mpr ⟨Roster.coderFor_of_dedicated hroster.dedicated_text, rfl⟩

theorem fillField_eq (hroster : encoder.roster.Standard) (e : Element) (v : Value) :
    encoder.fillField e v = encoder.fill e v := by
  cases v with
  | text s => rw [fillField, fill_text encoder hroster]
  | null => rw [fillField, fill]
  | _ => rw [fillField]

theorem fill_plan_eq_ok {plan : Plan} :
    encoder.fill e (.plan plan) = .ok e' ↔
      encoder.roster.coderFor treeType = .plan ∧
        isName (encoder.resolver.tagFor treeType) = true ∧ ∃ children,
          encoder.encodePlan (encoder.resolver.tagFor treeType) plan = .ok children ∧
            e' = withChildren e children := by
  rw [fill]
  cases encoder.roster.coderFor treeType with
  | plan =>
    simp only [true_and, Result.bind_eq_ok, Result.pure_eq_ok, tagFor_eq_ok, and_assoc,
      exists_and_left, exists_eq_left', eq_comm (a := e')]
  | _ => exact iff_of_false (by rintro ⟨⟩) fun h => Coder.noConfusion h.1

theorem fill_plan (hroster : encoder.roster.Standard) {plan : Plan} :
    encoder.fill e (.plan plan) = .ok e' ↔
      isName (encoder.resolver.tagFor treeType) = true ∧ ∃ children,
        encoder.encodePlan (encoder.resolver.tagFor treeType) plan = .ok children ∧
          e' = withChildren e children :=
  (fill_plan_eq_ok encoder).trans
    (and_iff_right (Roster.coderFor_of_dedicated hroster.dedicated_plan))

theorem encode_plan (hroster : encoder.roster.Standard) {plan : Plan} {children : List Element}
    (htag : isName (encoder.resolver.tagFor treeType) = true)
    (h : encoder.encodePlan (encoder.resolver.tagFor treeType) plan = .ok children) :
    encoder.encode (.plan plan) =
      .ok { name := encoder.resolver.tagFor treeType, children } :=
  encode_of_fill htag ((fill_plan encoder hroster).mpr ⟨htag, children, h, rfl⟩)

theorem fill_object (h : encoder.roster.coderFor typeId = .object) :
    encoder.fill e (.object typeId fields entries) = .ok e' ↔ ∃ parts members,
      encoder.encodeFields typeId fields = .ok parts ∧ encoder.encodeAll entries = .ok members ∧
        e' = withChildren e (parts ++ collection members) := by
  rw [fill, h]
  simp only [Result.bind_eq_ok, Result.pure_eq_ok, exists_and_left, eq_comm (a := e')]

theorem fill_sample (h : encoder.roster.coderFor typeId = .sample) :
    encoder.fill e (.object typeId fields entries) = .ok e' ↔ ∃ head parts members,
      encoder.sampleHead fields e = .ok head ∧ encoder.encodeStructured fields = .ok parts ∧
        encoder.encodeAll entries = .ok members ∧ e' = withChildren head (parts ++ members) := by
  rw [fill, h]
  simp only [Result.bind_eq_ok, Result.pure_eq_ok, exists_and_left, eq_comm (a := e')]

theorem fill_envelope (h : encoder.roster.coderFor typeId = .envelope) :
    encoder.fill e (.object typeId fields entries) = .ok e' ↔ ∃ plan member,
      entries = [.plan plan] ∧ encoder.encode (.plan plan) = .ok member ∧
        e' = withChildren (envelopeHead fields e) [member] := by
  have hsingle : isSinglePlan entries = true ↔ ∃ plan, entries = [.plan plan] := by
    constructor
    · intro h
      rw [isSinglePlan.eq_def] at h
      split at h
      · exact ⟨_, rfl⟩
      · cases h
    · rintro ⟨plan, rfl⟩
      rfl
  rw [fill, h]
  by_cases hentries : isSinglePlan entries = true
  · obtain ⟨plan, rfl⟩ := hsingle.mp hentries
    simp only [hentries, if_pos, Result.bind_eq_ok, Result.pure_eq_ok, encodeAll_eq_ok,
      List.forall₂_cons_left_iff, List.forall₂_nil_left_iff]
    constructor
    · rintro ⟨_, ⟨member, _, hmember, rfl, rfl⟩, rfl⟩
      exact ⟨plan, member, rfl, hmember, rfl⟩
    · rintro ⟨_, member, heq, hmember, rfl⟩
      obtain rfl : plan = _ := by simpa using heq
      exact ⟨_, ⟨member, _, hmember, rfl, rfl⟩, rfl⟩
  · rw [if_neg hentries]
    refine iff_of_false (by rintro ⟨⟩) ?_
    rintro ⟨plan, _, heq, _⟩
    exact hentries (hsingle.mpr ⟨plan, heq⟩)

theorem fill_wrapper (h : encoder.roster.coderFor typeId = .wrapper) :
    encoder.fill e (.object typeId fields entries) = .ok e' ↔ ∃ members,
      encoder.encodeAll entries = .ok members ∧
        e' = withChildren (wrapperHead fields e) members := by
  rw [fill, h]
  simp only [Result.bind_eq_ok, Result.pure_eq_ok, eq_comm (a := e')]

/-- The coders of texts and plans write no objects. -/
theorem fill_misfit (h : encoder.roster.coderFor typeId = .text ∨
    encoder.roster.coderFor typeId = .plan) :
    encoder.fill e (.object typeId fields entries) ≠ .ok e' := by
  rw [fill]
  rcases h with h | h <;> rw [h] <;> rintro ⟨⟩

end

end Encoder

end PlanArchive.Coding
