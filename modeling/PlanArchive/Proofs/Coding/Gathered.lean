import PlanArchive.Proofs.Coding.Reading
import PlanArchive.Proofs.Markup.Occurs
import PlanArchive.Proofs.Value.Occurs

/-!
# What decoding gathers

Some properties of a value do not depend on what is in it. Where one holds of every value that an
element is read as, it holds at every depth of what is decoded (`gathers_decodeRoot`): the ledger
carries it from an element that is marked to the references to it, and to the records that a log
hands over.
-/

namespace PlanArchive.Coding

open Markup Naming

/-- What is marked and what was handed over has the property at every depth. -/
structure Gathered (P : Value → Prop) (ledger : Ledger) : Prop where
  marked : ∀ pair ∈ ledger.marked, pair.2.Everywhere P
  delivered : ∀ record ∈ ledger.delivered, record.Everywhere P

section

variable {P : Value → Prop}

theorem gathered_empty : Gathered P {} :=
  ⟨List.forall_mem_nil _, List.forall_mem_nil _⟩

theorem Gathered.mark {ledger : Ledger} (h : Gathered P ledger) {v : Value}
    (hv : v.Everywhere P) (key : String) :
    Gathered P { ledger with marked := Keyed.put key v ledger.marked } where
  delivered := h.delivered
  marked := fun pair hpair => by
    rcases Keyed.mem_put hpair with rfl | hpair
    · exact hv
    · exact h.marked pair hpair

theorem Gathered.deliver {ledger : Ledger} (h : Gathered P ledger) {v : Value}
    (hv : v.Everywhere P) :
    Gathered P { ledger with delivered := ledger.delivered ++ [v] } where
  marked := h.marked
  delivered := fun record hrecord => by
    rcases List.mem_append.mp hrecord with hrecord | hrecord
    · exact h.delivered record hrecord
    · exact List.mem_singleton.mp hrecord ▸ hv

end

namespace Decoder

/-- Every value that is made of one of the elements, or inside of it, has the property. -/
structure Makes (decoder : Decoder) (elements : List Element) (P : Value → Prop) : Prop where
  text : ∀ s, P (.text s)
  /-- Below an element that no subtree follows. -/
  leaf : ∀ binding, decoder.resolver.known.get? treeType = some binding → P (.plan [])
  read : ∀ root ∈ elements, ∀ e, e.Occurs root → ∀ path type v,
    Gives (decoder.readTyped path type e) v → P v

/-- Decoding an element, whatever leads to it, gathers only what has the property. -/
def Gathers (decoder : Decoder) (P : Value → Prop) (e : Element) : Prop :=
  ∀ path type, Ensures (Gathered P) (decoder.decode path type e) (Value.Everywhere P)

variable {decoder : Decoder} {elements : List Element} {P : Value → Prop}

/-- What stands in a value that a coder rebuilds has the property. -/
theorem ensures_readWith (hmakes : decoder.Makes elements P) {e : Element}
    (h : ∀ child ∈ e.children, decoder.Gathers P child ∧
      ∀ grandchild ∈ child.children, decoder.Gathers P grandchild)
    (path : List String) {c : Coder} {binding : Binding}
    (hc : c.claims binding.typeId = true)
    (hknown : decoder.resolver.known.get? binding.typeId = some binding) :
    Ensures (Gathered P) (decoder.readWith path c binding.typeId e) (Value.Below P) := by
  have hchildren : ∀ child ∈ e.children,
      Ensures (Gathered P) (decoder.decodeTagged path child) (Value.Everywhere P) :=
    fun child hchild => (h child hchild).1 _ _
  have hfields : ∀ child ∈ e.children,
      Ensures (Gathered P) (decoder.decodeField path child) (Value.Everywhere P) :=
    fun child hchild => (h child hchild).1 _ _
  have htexts : ∀ {fields : List (String × Value)}, (∀ field ∈ fields, ∃ s, field.2 = .text s) →
      ∀ field ∈ fields, field.2.Everywhere P := by
    intro fields hfields field hfield
    obtain ⟨s, hs⟩ := hfields field hfield
    exact hs ▸ Value.everywhere_text.mpr (hmakes.text s)
  cases c with
  | text =>
    simp only [readWith]
    split
    · exact ensures_pure trivial
    · exact ensures_refuse
  | plan =>
    have htype : binding.typeId = treeType := beq_iff_eq.mp hc
    have hnil : Value.Everywhere P (.plan []) :=
      Value.everywhere_plan_nil.mpr (hmakes.leaf binding (htype ▸ hknown))
    have hsubtrees : ∀ child ∈ e.children, Ensures (Gathered P)
        (decoder.decodeTagged path child) fun v => Value.Everywhere P (.plan (planOf v)) := by
      intro child hchild
      apply ensures_mono (hchildren child hchild)
      intro v hv
      cases v with
      | plan branches => exact hv
      | _ => exact hnil
    apply ensures_bind (ensures_decodePlan (R := fun plan => Value.Everywhere P (.plan plan)) hnil
      (fun child hchild _ => hchildren child hchild) (fun child hchild _ => hsubtrees child hchild)
      (by rintro v ⟨⟩))
    intro plan hplan
    exact ensures_pure hplan
  | envelope =>
    have hplans : ∀ child ∈ e.children, Ensures (Gathered P)
        (decoder.decodeTagged path child) fun v => ∀ plan, v = .plan plan →
          Value.Everywhere P (.plan plan) := by
      intro child hchild
      apply ensures_mono (hchildren child hchild)
      rintro _ hv plan rfl
      exact hv
    apply ensures_bind (ensures_decodeEnvelope hplans (by rintro plan ⟨⟩))
    intro found hfound
    cases found with
    | none => exact ensures_refuse
    | some plan =>
      exact ensures_pure ⟨htexts fun _ => text_of_mem_envelopeFields,
        List.forall_mem_singleton.mpr (hfound plan rfl)⟩
  | wrapper =>
    apply ensures_bind (ensures_decodeRecords (fun _ _ hledger => hledger.deliver) hchildren)
    intro records hrecords
    exact ensures_pure ⟨htexts fun _ => text_of_mem_wrapperFields, hrecords⟩
  | sample =>
    have hstart : ∀ field ∈ sampleFields e.attributes, field.2.Everywhere P :=
      htexts fun _ => text_of_mem_sampleFields
    apply ensures_bind (ensures_decodeSample (fun child hchild _ => hfields child hchild)
      (fun child hchild _ => hchildren child hchild) (Keyed.nodup_ofPairs _) hstart)
    rintro ⟨fields, entries⟩ ⟨-, hfields', hentries⟩
    exact ensures_pure ⟨hfields', hentries⟩
  | object =>
    simp only [readWith]
    split
    · exact ensures_refuse
    · have hentries : ∀ child ∈ e.children, child.name = entriesTag → ∀ entry ∈ child.children,
          Ensures (Gathered P) (decoder.decodeTagged path entry) (Value.Everywhere P) :=
        fun child hchild _ entry hentry => (h child hchild).2 entry hentry _ _
      refine ensures_bind (ensures_decodeParts (P := fun field => field.2.Everywhere P)
        (fun child hchild _ => hfields child hchild) hentries List.nodup_nil
        (List.forall_mem_nil _)) ?_
      rintro ⟨fields, entries⟩ ⟨-, hfields', hentries⟩
      exact ensures_pure ⟨hfields', hentries⟩

theorem ensures_readTyped (hmakes : decoder.Makes elements P) {e : Element}
    (h : ∀ child ∈ e.children, decoder.Gathers P child ∧
      ∀ grandchild ∈ child.children, decoder.Gathers P grandchild)
    (path : List String) (type : Option String) :
    Ensures (Gathered P) (decoder.readTyped path type e) (Value.Below P) := by
  cases type with
  | none =>
    simp only [readTyped]
    split
    · exact ensures_pure trivial
    · exact ensures_refuse
  | some tag =>
    simp only [readTyped]
    split
    · exact ensures_pure trivial
    · cases hbinding : decoder.resolver.binding? tag with
      | none => exact ensures_throw
      | some binding =>
        simp only [readAs]
        split
        · exact ensures_refuse
        · exact ensures_readWith hmakes h path (decoder.roster.claims_coderFor binding.typeId)
            (Resolver.known_of_binding hbinding)

/-- Whatever stands in the elements is decoded to what has the property. -/
theorem gathers (hmakes : decoder.Makes elements P) {root : Element} (hroot : root ∈ elements) :
    ∀ e : Element, e.Occurs root → decoder.Gathers P e := by
  apply Element.induct_within
  intro e he ih path type
  rw [decode_eq]
  cases e.attribute? referenceKey with
  | some id => exact ensures_resolve fun _ _ _ hledger hmem => hledger.marked _ hmem
  | none =>
    have hread : Ensures (Gathered P) (decoder.readTyped path type e) (Value.Everywhere P) := by
      refine ensures_gives (ensures_mono (ensures_readTyped hmakes ih path type) ?_)
      intro v hbelow hgives
      exact Value.everywhere_iff.mpr ⟨hmakes.read root hroot e he path type v hgives, hbelow⟩
    apply ensures_bind hread
    intro v hv
    exact ensures_bind (ensures_mark fun _ key hledger => hledger.mark hv key) fun _ _ =>
      ensures_pure hv

theorem gathers_decodeRoot (hmakes : decoder.Makes elements P) {e : Element} (he : e ∈ elements) :
    Gathered P (decoder.decodeRoot e).2 ∧
      ∀ v, (decoder.decodeRoot e).1 = .ok v → v.Everywhere P :=
  gathers hmakes he e .here _ _ {} gathered_empty

end Decoder

end PlanArchive.Coding
