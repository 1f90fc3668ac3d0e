import PlanArchive.Proofs.Coding.RoundTrip
import PlanArchive.Proofs.Markup.Occurs

/-!
# What is read can be restored

With consistent tags, whatever is decoded is restorable (`readsRestorably`): it is brought back from
what it is written to. A document must be without references for that; in a log there are none, and
what is handed over on the way is restorable as well.
-/

namespace PlanArchive

open Coding Naming Markup

/-- Every known type has a tag that can be written and stands for the type. -/
structure Naming.Resolver.Consistent (resolver : Resolver) : Prop where
  types : ∀ typeId binding, resolver.known.get? typeId = some binding →
    isName (resolver.tagFor typeId) = true ∧ resolver.tagFor typeId ≠ nullTag ∧
      resolver.binding? (resolver.tagFor typeId) = some binding
  null : resolver.binding? nullTag = none

/-- The list of known types can be gone through. -/
theorem Naming.Resolver.consistent_of_forall {resolver : Resolver}
    (h : ∀ pair ∈ resolver.known.types,
      isName (resolver.tagFor pair.1) = true ∧ resolver.tagFor pair.1 ≠ nullTag ∧
        resolver.binding? (resolver.tagFor pair.1) = some ⟨pair.1, pair.2⟩)
    (hnull : resolver.binding? nullTag = none) : resolver.Consistent where
  types := fun typeId binding hknown => by
    obtain ⟨needsCoder, hfind, rfl⟩ := Option.map_eq_some_iff.mp hknown
    exact h (typeId, needsCoder) (Keyed.mem_of_find? hfind)
  null := hnull

/-- The value is what a tag stands for. -/
def Coding.Answers (resolver : Resolver) (tag : String) (v : Value) : Prop :=
  (tag = nullTag ∧ v.typeId? = none) ∨
    ∃ binding, resolver.binding? tag = some binding ∧ v.typeId? = some binding.typeId

section

variable {resolver : Resolver}

theorem Naming.Resolver.Consistent.resolves (h : resolver.Consistent) {tag : String}
    {binding : Binding} (hbinding : resolver.binding? tag = some binding) :
    resolver.Resolves binding.typeId := by
  obtain ⟨-, htag, hback⟩ := h.types _ _ (Resolver.known_of_binding hbinding)
  exact ⟨htag, binding.needsCoder, hback⟩

theorem Naming.Resolver.Consistent.typed (h : resolver.Consistent) {tag : String} {v : Value}
    (hv : Answers resolver tag v) : Typed resolver v := by
  intro typeId htype
  rcases hv with ⟨-, hnone⟩ | ⟨binding, hbinding, hsome⟩
  · cases hnone.symm.trans htype
  · obtain rfl := Option.some.inj (hsome.symm.trans htype)
    exact h.resolves hbinding

/-- The tag that is written for a value stands for what the tag stands for that it was read by. -/
theorem Naming.Resolver.Consistent.binding_tagOf (h : resolver.Consistent) {tag : String}
    {v : Value} (hv : Answers resolver tag v) :
    resolver.binding? (tagOf resolver v) = resolver.binding? tag := by
  rcases hv with ⟨rfl, hnone⟩ | ⟨binding, hbinding, hsome⟩
  · rw [tagOf, hnone]
  · rw [tagOf, hsome, hbinding]
    exact (h.types _ _ (Resolver.known_of_binding hbinding)).2.2

end

namespace Coding.Decoder

section

variable {decoder : Decoder}

/-- What was handed over can be brought back, at the top of a log as well. -/
def HandsOver (decoder : Decoder) (ledger : Ledger) : Prop :=
  ∀ v ∈ ledger.delivered, v.Everywhere decoder.Restorable ∧ Typed decoder.resolver v

/-- Decoding an element gives and hands over restorable values only, and gives what the tag stands
for. -/
def ReadsRestorably (decoder : Decoder) (e : Element) : Prop :=
  ∀ path type, Ensures decoder.HandsOver (decoder.decode path type e) fun v =>
    v.Everywhere decoder.Restorable ∧ ∀ tag, type = some tag → Answers decoder.resolver tag v

theorem everywhere_restorable_texts {fields : List (String × Value)}
    (h : ∀ field ∈ fields, ∃ s, field.2 = .text s) :
    ∀ field ∈ fields, field.2.Everywhere decoder.Restorable := by
  intro field hfield
  obtain ⟨s, hs⟩ := h field hfield
  exact hs ▸ Value.everywhere_text.mpr (.inl trivial)

theorem handsOver_deliver (ledger : Ledger) (record : Value) (h : decoder.HandsOver ledger)
    (hrecord : record.Everywhere decoder.Restorable ∧ Typed decoder.resolver record) :
    decoder.HandsOver { ledger with delivered := ledger.delivered ++ [record] } := by
  intro v hv
  rcases List.mem_append.mp hv with hv | hv
  · exact h v hv
  · exact List.mem_singleton.mp hv ▸ hrecord

/-- Where records are handed over a wrapper keeps none. -/
theorem eq_nil_of_decodeRecords (hdelivers : decoder.delivers = true) {path : List String}
    {children : List Element} {records : List Value}
    (h : Gives (decoder.decodeRecords path children) records) : records = [] := by
  induction children generalizing records with
  | nil => exact gives_pure h
  | cons child children ih =>
    unfold decodeRecords at h
    obtain ⟨record, -, h⟩ := gives_bind h
    obtain ⟨kept, hkept, h⟩ := gives_bind h
    obtain ⟨more, hmore, h⟩ := gives_bind h
    simp only [deliver, hdelivers] at hkept
    obtain ⟨_, -, hkept⟩ := gives_bind hkept
    rw [gives_pure h, gives_pure hkept, ih hmore]
    rfl

section

variable (hconsistent : decoder.resolver.Consistent) {e : Element}
  (h : ∀ child ∈ e.children, decoder.ReadsRestorably child) {path : List String}

include h

theorem ensures_tagged :
    ∀ child ∈ e.children, Ensures decoder.HandsOver (decoder.decodeTagged path child) fun v =>
      v.Everywhere decoder.Restorable ∧ Answers decoder.resolver child.name v := by
  intro child hchild
  apply ensures_mono (h child hchild _ _)
  rintro v ⟨hrestorable, hanswers⟩
  exact ⟨hrestorable, hanswers _ rfl⟩

theorem ensures_field :
    ∀ child ∈ e.children, Ensures decoder.HandsOver (decoder.decodeField path child)
      (Value.Everywhere decoder.Restorable) :=
  fun child hchild => ensures_mono (h child hchild _ _) fun _ hv => hv.1

theorem ensures_envelope {binding : Binding}
    (hresolves : decoder.resolver.Resolves binding.typeId)
    (hcoder : decoder.roster.coderFor binding.typeId = .envelope) :
    Ensures decoder.HandsOver (decoder.readWith path .envelope binding.typeId e) fun v =>
      v.Everywhere decoder.Restorable ∧ v.typeId? = some binding.typeId := by
  have htype : binding.typeId = envelopeType :=
    beq_iff_eq.mp (Roster.claims_of_coderFor hcoder)
  have hplans : ∀ child ∈ e.children, Ensures decoder.HandsOver (decoder.decodeTagged path child) fun v =>
      ∀ plan, v = .plan plan → Value.Everywhere decoder.Restorable (.plan plan) := by
    intro child hchild
    apply ensures_mono (ensures_tagged h child hchild)
    rintro _ ⟨hrestorable, -⟩ plan rfl
    exact hrestorable
  apply ensures_bind (ensures_decodeEnvelope hplans (by rintro plan ⟨⟩))
  intro found hfound
  cases found with
  | none => exact ensures_refuse
  | some plan =>
    have hplan := hfound plan rfl
    refine ensures_pure ⟨Value.everywhere_object.mpr ⟨.inl ⟨htype ▸ hresolves, ?_, ?_⟩,
      everywhere_restorable_texts fun _ => text_of_mem_envelopeFields,
      List.forall_mem_singleton.mpr hplan⟩, congrArg some htype.symm⟩
    · rw [← htype, hcoder]
      trivial
    · exact List.forall_mem_singleton.mpr (typed_of_restorable hplan.here rfl)

include hconsistent

/-- What a tag leads to is legible and typed, and takes the tag's place among subtrees and
samples. -/
theorem ensures_tagged_typed :
    ∀ child ∈ e.children, Ensures decoder.HandsOver (decoder.decodeTagged path child) fun v =>
      (v.Everywhere decoder.Restorable ∧ Typed decoder.resolver v) ∧
        decoder.isSubtree (tagOf decoder.resolver v) = decoder.isSubtree child.name ∧
        decoder.isSample (tagOf decoder.resolver v) = decoder.isSample child.name := by
  intro child hchild
  apply ensures_mono (ensures_tagged h child hchild)
  rintro v ⟨hrestorable, hanswers⟩
  refine ⟨⟨hrestorable, hconsistent.typed hanswers⟩, ?_, ?_⟩
  · rw [isSubtree, isSubtree, hconsistent.binding_tagOf hanswers]
  · rw [isSample, isSample, hconsistent.binding_tagOf hanswers]

theorem ensures_plan (htree : decoder.resolver.Resolves treeType) :
    Ensures decoder.HandsOver (decoder.decodePlan path none e.children) fun plan =>
      Value.Everywhere decoder.Restorable (.plan plan) := by
  have hnil : Value.Everywhere decoder.Restorable (.plan []) :=
    Value.everywhere_plan_nil.mpr (.inl ⟨htree, List.forall_mem_nil _⟩)
  have helements : ∀ child ∈ e.children, decoder.isSubtree child.name = false →
      Ensures decoder.HandsOver (decoder.decodeTagged path child) fun v =>
        (v.Everywhere decoder.Restorable ∧ Typed decoder.resolver v) ∧
          decoder.isSubtree (tagOf decoder.resolver v) = false := by
    intro child hchild hname
    apply ensures_mono (ensures_tagged_typed hconsistent h child hchild)
    rintro v ⟨hv, hsubtree, -⟩
    exact ⟨hv, hsubtree.trans hname⟩
  have hsubtrees : ∀ child ∈ e.children, decoder.isSubtree child.name = true →
      Ensures decoder.HandsOver (decoder.decodeTagged path child) fun v =>
        Value.Everywhere decoder.Restorable (.plan (planOf v)) := by
    intro child hchild _
    apply ensures_mono (ensures_tagged h child hchild)
    rintro v ⟨hrestorable, -⟩
    cases v with
    | plan branches => exact hrestorable
    | _ => exact hnil
  apply ensures_mono (ensures_decodePlan
    (R := fun plan => Value.Everywhere decoder.Restorable (.plan plan)) hnil helements hsubtrees
    (by rintro v ⟨⟩))
  intro plan hplan
  refine Value.everywhere_plan.mpr ⟨.inl ⟨htree, ?_⟩, ?_⟩
  · intro b hb
    obtain ⟨⟨⟨-, htyped⟩, hsubtree⟩, -⟩ := hplan b hb
    exact ⟨htyped, hsubtree⟩
  · intro b hb
    obtain ⟨⟨⟨hrestorable, -⟩, -⟩, hchildren⟩ := hplan b hb
    exact ⟨hrestorable, hchildren⟩

theorem ensures_sample {binding : Binding} (hresolves : decoder.resolver.Resolves binding.typeId)
    (hcoder : decoder.roster.coderFor binding.typeId = .sample) :
    Ensures decoder.HandsOver (decoder.readWith path .sample binding.typeId e) fun v =>
      v.Everywhere decoder.Restorable ∧ v.typeId? = some binding.typeId := by
  have hfields : ∀ child ∈ e.children, decoder.isSample child.name = false →
      Ensures decoder.HandsOver (decoder.decodeField path child) fun v =>
        v.Everywhere decoder.Restorable ∧
          (v.text? = none → decoder.isSample child.name = false) := by
    intro child hchild hname
    apply ensures_mono (ensures_field h child hchild)
    intro v hv
    exact ⟨hv, fun _ => hname⟩
  have hentries : ∀ child ∈ e.children, decoder.isSample child.name = true →
      Ensures decoder.HandsOver (decoder.decodeTagged path child) fun v =>
        (v.Everywhere decoder.Restorable ∧ Typed decoder.resolver v) ∧
          decoder.isSample (tagOf decoder.resolver v) = true := by
    intro child hchild hname
    apply ensures_mono (ensures_tagged_typed hconsistent h child hchild)
    rintro v ⟨hv, -, hsample⟩
    exact ⟨hv, hsample.trans hname⟩
  have hstart : ∀ field ∈ sampleFields e.attributes, field.2.Everywhere decoder.Restorable ∧
      (field.2.text? = none → decoder.isSample field.1 = false) := by
    intro field hfield
    obtain ⟨s, hs⟩ := text_of_mem_sampleFields hfield
    rw [hs]
    exact ⟨Value.everywhere_text.mpr (.inl trivial), by rintro ⟨⟩⟩
  apply ensures_bind (ensures_decodeSample (P := fun field => field.2.Everywhere decoder.Restorable ∧
    (field.2.text? = none → decoder.isSample field.1 = false)) hfields hentries
    (Keyed.nodup_ofPairs _) hstart)
  rintro ⟨fields, entries⟩ ⟨hnodup, hfields', hentries'⟩
  refine ensures_pure ⟨Value.everywhere_object.mpr ⟨.inl ⟨hresolves, ?_, ?_⟩, ?_, ?_⟩, rfl⟩
  · rw [hcoder]
    refine ⟨hnodup, ?_, fun v hv => (hentries' v hv).2⟩
    intro field hfield
    obtain ⟨hfield, htext⟩ := List.mem_filter.mp hfield
    exact (hfields' field hfield).2 (Option.isNone_iff_eq_none.mp htext)
  · exact fun v hv => (hentries' v hv).1.2
  · exact fun field hfield => (hfields' field hfield).1
  · exact fun v hv => (hentries' v hv).1.1

/-- In a document a wrapper keeps its records; in a log it hands them over and stays behind
emptied. -/
theorem ensures_wrapper {binding : Binding}
    (hresolves : decoder.resolver.Resolves binding.typeId)
    (hcoder : decoder.roster.coderFor binding.typeId = .wrapper) :
    Ensures decoder.HandsOver (decoder.readWith path .wrapper binding.typeId e) fun v =>
      v.Everywhere decoder.Restorable ∧ v.typeId? = some binding.typeId := by
  have hchildren : ∀ child ∈ e.children,
      Ensures decoder.HandsOver (decoder.decodeTagged path child)
        fun v => v.Everywhere decoder.Restorable ∧ Typed decoder.resolver v :=
    fun child hchild => ensures_mono (ensures_tagged_typed hconsistent h child hchild)
      fun _ hv => hv.1
  have hrecords : Ensures decoder.HandsOver (decoder.decodeRecords path e.children) fun records =>
      (∀ v ∈ records, v.Everywhere decoder.Restorable ∧ Typed decoder.resolver v) ∧
        (decoder.delivers = true → records = []) :=
    ensures_gives (ensures_mono (ensures_decodeRecords handsOver_deliver hchildren)
      fun _ hall hgives => ⟨hall, fun hdelivers => eq_nil_of_decodeRecords hdelivers hgives⟩)
  apply ensures_bind hrecords
  rintro records ⟨hall, hemptied⟩
  refine ensures_pure ⟨Value.everywhere_object.mpr ⟨?_,
    everywhere_restorable_texts fun _ => text_of_mem_wrapperFields, fun v hv => (hall v hv).1⟩, rfl⟩
  cases hdelivers : decoder.delivers with
  | false =>
    refine .inl ⟨hresolves, ?_, fun v hv => (hall v hv).2⟩
    rw [hcoder]
    exact hdelivers
  | true => exact .inr ⟨hresolves, hcoder, hemptied hdelivers⟩

end

theorem ensures_object (hconsistent : decoder.resolver.Consistent) {e : Element}
    (h : ∀ child ∈ e.children, decoder.ReadsRestorably child ∧
      ∀ grandchild ∈ child.children, decoder.ReadsRestorably grandchild)
    {path : List String} {binding : Binding}
    (hback : decoder.resolver.binding? (decoder.resolver.tagFor binding.typeId) = some binding)
    (hresolves : decoder.resolver.Resolves binding.typeId)
    (hcoder : decoder.roster.coderFor binding.typeId = .object)
    (hplain : binding.needsCoder = false) :
    Ensures decoder.HandsOver (decoder.readWith path .object binding.typeId e) fun v =>
      v.Everywhere decoder.Restorable ∧ v.typeId? = some binding.typeId := by
  have hfields : ∀ child ∈ e.children, Ensures decoder.HandsOver (decoder.decodeField path child)
      (Value.Everywhere decoder.Restorable) :=
    ensures_field fun child hchild => (h child hchild).1
  have hentries : ∀ child ∈ e.children, child.name = entriesTag → ∀ entry ∈ child.children,
      Ensures decoder.HandsOver (decoder.decodeTagged path entry) fun v =>
        v.Everywhere decoder.Restorable ∧ Typed decoder.resolver v :=
    fun child hchild _ entry hentry => ensures_mono
      (ensures_tagged_typed hconsistent (h child hchild).2 entry hentry) fun _ hv => hv.1
  simp only [readWith]
  split
  · exact ensures_refuse
  · refine ensures_bind (ensures_decodeParts (P := fun field =>
      field.2.Everywhere decoder.Restorable) (fun child hchild _ => hfields child hchild) hentries
      List.nodup_nil (List.forall_mem_nil _)) ?_
    rintro ⟨fields, entries⟩ ⟨hnodup, hfields', hentries'⟩
    refine ensures_pure ⟨Value.everywhere_object.mpr ⟨.inl ⟨hresolves, ?_, ?_⟩, hfields', ?_⟩, rfl⟩
    · rw [hcoder]
      refine ⟨hback.trans ?_, hnodup⟩
      rw [← hplain]
    · exact fun v hv => (hentries' v hv).2
    · exact fun v hv => (hentries' v hv).1

/-- Whatever coder a known type has, what it reads is legible. -/
theorem ensures_readAs_restorable (hroster : decoder.roster.Standard)
    (hconsistent : decoder.resolver.Consistent) {e : Element}
    (h : ∀ child ∈ e.children, decoder.ReadsRestorably child ∧
      ∀ grandchild ∈ child.children, decoder.ReadsRestorably grandchild)
    (path : List String) {tag : String} {binding : Binding}
    (hbinding : decoder.resolver.binding? tag = some binding) :
    Ensures decoder.HandsOver (decoder.readAs path binding e) fun v =>
      v.Everywhere decoder.Restorable ∧ v.typeId? = some binding.typeId := by
  have hchildren := fun child hchild => (h child hchild).1
  have hresolves := hconsistent.resolves hbinding
  unfold readAs
  split
  · exact ensures_refuse
  · rename_i hneeds
    cases hcoder : decoder.roster.coderFor binding.typeId with
    | text =>
      have htype : binding.typeId = textType :=
        beq_iff_eq.mp (Roster.claims_of_coderFor hcoder)
      simp only [readWith]
      split
      · exact ensures_pure ⟨Value.everywhere_text.mpr (.inl trivial), congrArg some htype.symm⟩
      · exact ensures_refuse
    | plan =>
      have htype : binding.typeId = treeType :=
        beq_iff_eq.mp (Roster.claims_of_coderFor hcoder)
      apply ensures_bind (ensures_plan hconsistent hchildren (htype ▸ hresolves))
      intro plan hplan
      exact ensures_pure ⟨hplan, congrArg some htype.symm⟩
    | envelope => exact ensures_envelope hchildren hresolves hcoder
    | wrapper => exact ensures_wrapper hconsistent hchildren hresolves hcoder
    | sample => exact ensures_sample hconsistent hchildren hresolves hcoder
    | object =>
      have hback := (hconsistent.types _ _ (Resolver.known_of_binding hbinding)).2.2
      refine ensures_object hconsistent h hback hresolves hcoder ?_
      have hnone := hroster.coderFor_object_iff.mp hcoder
      simpa [hnone] using hneeds

/-- What is decoded inside an element can be restored, if it is not referred to. -/
theorem readsRestorably (hroster : decoder.roster.Standard)
    (hconsistent : decoder.resolver.Consistent) {root : Element}
    (hreferences : decoder.mode = .document →
      ∀ e : Element, e.Occurs root → e.attribute? referenceKey = none) :
    ∀ e : Element, e.Occurs root → decoder.ReadsRestorably e := by
  apply Element.induct_within
  intro e he ih path type
  have hread : Ensures decoder.HandsOver (decoder.readTyped path type e) fun v =>
      v.Everywhere decoder.Restorable ∧ ∀ tag, type = some tag → Answers decoder.resolver tag v := by
    cases type with
    | none =>
      simp only [readTyped]
      split
      · exact ensures_pure ⟨Value.everywhere_text.mpr (.inl trivial), by rintro tag ⟨⟩⟩
      · exact ensures_refuse
    | some tag =>
      simp only [readTyped]
      split
      · rename_i htag
        refine ensures_pure ⟨Value.everywhere_null.mpr (.inl trivial), ?_⟩
        rintro _ ⟨⟩
        exact Or.inl ⟨htag, rfl⟩
      · cases hbinding : decoder.resolver.binding? tag with
        | none => exact ensures_throw
        | some binding =>
          apply ensures_mono (ensures_readAs_restorable hroster hconsistent ih path hbinding)
          rintro v ⟨hrestorable, htype⟩
          refine ⟨hrestorable, ?_⟩
          rintro _ ⟨⟩
          exact Or.inr ⟨binding, hbinding, htype⟩
  rw [decode_eq]
  split
  · rename_i id hreference
    unfold resolve
    split
    · exact ensures_refuse
    · rename_i hmode
      cases (hreferences hmode e he).symm.trans hreference
  · apply ensures_bind hread
    intro v hv
    exact ensures_bind (ensures_mark fun _ _ h => h) fun _ _ => ensures_pure hv

end

end Coding.Decoder

end PlanArchive
