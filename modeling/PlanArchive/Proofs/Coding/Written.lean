import PlanArchive.Proofs.Coding.Writing
import PlanArchive.Proofs.Markup.RoundTrip
import PlanArchive.Proofs.Related
import PlanArchive.Proofs.Value.Occurs

/-!
# What is written is well formed

Every element that a value is written to can be printed and read back (`wellFormed_encode`), and its
coder leaves alone what it is read by (`kept_fill`).
-/

namespace PlanArchive.Coding.Encoder

open Markup Naming

/-- An element that nothing but attributes were put into. -/
structure Fresh (e : Element) : Prop where
  name : isName e.name = true
  names : ∀ pair ∈ e.attributes, isName pair.1 = true
  nodup : (Keyed.keys e.attributes).Nodup
  text : e.text = none
  children : e.children = []

/-- The element keeps its name and its reserved attributes. -/
structure Kept (e e' : Element) : Prop where
  name : e'.name = e.name
  reserved : ∀ key, isReserved key = true → e'.attribute? key = e.attribute? key

variable {encoder : Encoder}

theorem fresh_of_startValue {v : Value} {e : Element} (h : encoder.startValue v = .ok e) :
    Fresh e := by
  obtain ⟨hname, rfl⟩ := startValue_eq_ok.mp h
  exact ⟨hname, List.forall_mem_nil _, List.nodup_nil, rfl, rfl⟩

theorem fresh_of_startField {name : String} {v : Value} {e : Element}
    (h : encoder.startField name v = .ok e) : Fresh e := by
  obtain ⟨hname, -, rfl⟩ := startField_eq_ok.mp h
  refine ⟨hname, ?_, ?_, rfl, rfl⟩
  · unfold classOf
    split
    · exact List.forall_mem_nil _
    · have hclass : isName classKey = true := by decide
      exact List.forall_mem_singleton.mpr hclass
  · unfold classOf
    split
    · exact List.nodup_nil
    · simp [Keyed.keys]

theorem Outfitted.kept {e e' : Element} (h : Outfitted e e') (children : List Element) :
    Kept e (withChildren e' children) :=
  ⟨h.name, h.reserved⟩

variable (encoder) in
/-- Filling an element with a value keeps what it is read by. -/
theorem kept_fill (hroster : encoder.roster.Standard) {v : Value} {e e' : Element}
    (h : encoder.fill e v = .ok e') : Kept e e' := by
  cases v with
  | null =>
    rw [fill] at h
    exact Except.ok.inj h ▸ ⟨rfl, fun _ _ => rfl⟩
  | text s =>
    rw [fill_text encoder hroster] at h
    exact Except.ok.inj h ▸ ⟨rfl, fun _ _ => rfl⟩
  | object typeId fields entries =>
    cases hcoder : encoder.roster.coderFor typeId with
    | text => exact absurd h (fill_misfit encoder (Or.inl hcoder))
    | plan => exact absurd h (fill_misfit encoder (Or.inr hcoder))
    | envelope =>
      obtain ⟨_, _, -, -, rfl⟩ := (fill_envelope encoder hcoder).mp h
      exact (outfitted_envelopeHead fields e).kept _
    | wrapper =>
      obtain ⟨_, -, rfl⟩ := (fill_wrapper encoder hcoder).mp h
      exact (outfitted_wrapperHead fields e).kept _
    | sample =>
      obtain ⟨_, _, _, hhead, -, -, rfl⟩ := (fill_sample encoder hcoder).mp h
      exact (outfitted_sampleHead hhead).kept _
    | object =>
      obtain ⟨_, _, -, -, rfl⟩ := (fill_object encoder hcoder).mp h
      exact (Outfitted.refl e).kept _
  | plan branches =>
    obtain ⟨-, _, -, rfl⟩ := (fill_plan encoder hroster).mp h
    exact (Outfitted.refl e).kept _

/-- A fresh element that was outfitted takes in children. -/
theorem wellFormed_withChildren {e e' : Element} (he : Fresh e) (h : Outfitted e e')
    {children : List Element} (hchildren : ∀ child ∈ children, child.WellFormed) :
    (withChildren e' children).WellFormed := by
  obtain ⟨name, attributes, text, children', line⟩ := e'
  obtain ⟨rfl, rfl, -, hnames, hnodup, -⟩ := h
  exact .mk he.name (hnames he.names) (hnodup he.nodup) (Or.inl he.text) hchildren

theorem wellFormed_withText {e : Element} (he : Fresh e) (s : String) :
    { e with text := some s }.WellFormed := by
  obtain ⟨name, attributes, text, children, line⟩ := e
  obtain ⟨hname, hnames, hnodup, rfl, rfl⟩ := he
  exact .mk hname hnames hnodup (Or.inr rfl) (List.forall_mem_nil _)

theorem wellFormed_collection {members : List Element}
    (h : ∀ member ∈ members, member.WellFormed) :
    ∀ child ∈ collection members, child.WellFormed := by
  unfold collection
  split
  · exact List.forall_mem_nil _
  · exact List.forall_mem_singleton.mpr
      (.mk (by decide) (List.forall_mem_nil _) List.nodup_nil (Or.inl rfl) h)

/-- Filling a fresh element with the value makes it well formed. -/
def FillsWell (encoder : Encoder) (v : Value) : Prop :=
  ∀ e e' : Element, Fresh e → encoder.fill e v = .ok e' → e'.WellFormed

theorem FillsWell.encode {v : Value} (h : encoder.FillsWell v) {e : Element}
    (he : encoder.encode v = .ok e) : e.WellFormed := by
  rw [encode_eq, Result.bind_eq_ok] at he
  obtain ⟨start, hstart, hfill⟩ := he
  exact h start e (fresh_of_startValue hstart) hfill

theorem FillsWell.encodeField {field : String × Value} (h : encoder.FillsWell field.2)
    {e : Element} (he : encoder.encodeField field = .ok e) : e.WellFormed := by
  obtain ⟨name, v⟩ := field
  rw [Encoder.encodeField, Result.bind_eq_ok] at he
  obtain ⟨start, hstart, hfill⟩ := he
  have hfresh := fresh_of_startField hstart
  cases v with
  | text s =>
    rw [fillField] at hfill
    exact Except.ok.inj hfill ▸ wellFormed_withText hfresh s
  | null =>
    rw [fillField] at hfill
    exact h start e hfresh (by rwa [fill])
  | _ =>
    rw [fillField] at hfill
    exact h start e hfresh hfill

theorem fillsWell (v : Value) : encoder.FillsWell v := by
  induction v using Value.induct with
  | null =>
    intro e e' he hfill
    rw [fill] at hfill
    obtain rfl := Except.ok.inj hfill
    obtain ⟨name, attributes, text, children, line⟩ := e
    obtain ⟨hname, hnames, hnodup, rfl, rfl⟩ := he
    exact .mk hname hnames hnodup (Or.inl rfl) (List.forall_mem_nil _)
  | text s =>
    intro e e' he hfill
    obtain ⟨-, rfl⟩ := (fill_text_eq_ok encoder).mp hfill
    exact wellFormed_withText he s
  | object typeId fields entries hfields hentries =>
    intro e e' he hfill
    have hmembers : ∀ {members}, encoder.encodeAll entries = .ok members →
        ∀ member ∈ members, member.WellFormed := by
      intro members hall member hmember
      obtain ⟨entry, hentry, he⟩ := exists_left_of_forall₂ (encodeAll_eq_ok.mp hall) member hmember
      exact (hentries entry hentry).encode he
    have hparts : ∀ {written parts}, written ⊆ fields →
        List.Forall₂ (fun field e => encoder.encodeField field = .ok e) written parts →
        ∀ part ∈ parts, part.WellFormed := by
      intro written parts hsub hall part hpart
      obtain ⟨field, hfield, he⟩ := exists_left_of_forall₂ hall part hpart
      exact (hfields field (hsub hfield)).encodeField he
    cases hcoder : encoder.roster.coderFor typeId with
    | text => exact absurd hfill (fill_misfit encoder (Or.inl hcoder))
    | plan => exact absurd hfill (fill_misfit encoder (Or.inr hcoder))
    | envelope =>
      obtain ⟨plan, member, rfl, hmember, rfl⟩ := (fill_envelope encoder hcoder).mp hfill
      refine wellFormed_withChildren he (outfitted_envelopeHead fields e) ?_
      exact List.forall_mem_singleton.mpr ((hentries _ (List.mem_cons_self ..)).encode hmember)
    | wrapper =>
      obtain ⟨members, hall, rfl⟩ := (fill_wrapper encoder hcoder).mp hfill
      exact wellFormed_withChildren he (outfitted_wrapperHead fields e) (hmembers hall)
    | sample =>
      obtain ⟨head, parts, members, hhead, hstructured, hall, rfl⟩ :=
        (fill_sample encoder hcoder).mp hfill
      refine wellFormed_withChildren he (outfitted_sampleHead hhead) ?_
      exact List.forall_mem_append.mpr
        ⟨hparts (fun _ hfield => (List.mem_filter.mp hfield).1)
          (encodeStructured_eq_ok.mp hstructured), hmembers hall⟩
    | object =>
      obtain ⟨parts, members, hall', hall, rfl⟩ := (fill_object encoder hcoder).mp hfill
      refine wellFormed_withChildren he (Outfitted.refl e) ?_
      exact List.forall_mem_append.mpr
        ⟨hparts (List.Subset.refl _) (encodeFields_eq_ok.mp hall').2,
          wellFormed_collection (hmembers hall)⟩
  | plan branches ih =>
    intro e e' he hfill
    obtain ⟨hcoder, htag, children, hchildren, rfl⟩ := (fill_plan_eq_ok encoder).mp hfill
    refine wellFormed_withChildren he (Outfitted.refl e) ?_
    obtain ⟨pairs, hpairs, rfl⟩ := encodePlan_eq_ok.mp hchildren
    intro child hchild
    obtain ⟨⟨element, below⟩, hpair, hchild⟩ := List.mem_flatMap.mp hchild
    obtain ⟨b, hb, -, helement, hbelow⟩ := exists_left_of_forall₂ hpairs _ hpair
    obtain ⟨ihelement, ihchildren⟩ := ih b hb
    rcases List.mem_cons.mp hchild with rfl | hchild
    · exact ihelement.encode helement
    · obtain rfl := List.mem_singleton.mp hchild
      have hstart : Fresh { name := encoder.resolver.tagFor treeType } :=
        ⟨htag, List.forall_mem_nil _, List.nodup_nil, rfl, rfl⟩
      exact ihchildren _ _ hstart
        ((fill_plan_eq_ok encoder).mpr ⟨hcoder, htag, below, hbelow, rfl⟩)

variable (encoder) in
/-- What a value is written to is well formed. -/
theorem wellFormed_encode {v : Value} {e : Element} (h : encoder.encode v = .ok e) :
    e.WellFormed :=
  (fillsWell v).encode h

end PlanArchive.Coding.Encoder
