import PlanArchive.Proofs.Coding.Reading
import PlanArchive.Proofs.Coding.CoderWrites
import PlanArchive.Proofs.Markup.Occurs

/-!
# Coders as converters, reading

Among coders only, what the scripts of converters come to is what the decoder returns and gathers
(`decodes_iff`).
-/

namespace PlanArchive.Coding

open Markup Naming

variable {α β : Type}

namespace Converters

variable {converters : Converters} {reader : Reader} {path : List String}

theorem Reads.bind {script : ReadScript α} {more : α → ReadScript β} {a : α} {b : β}
    {start middle finish : Ledger} (h : converters.Reads reader path script start a middle)
    (hmore : converters.Reads reader path (more a) middle b finish) :
    converters.Reads reader path (script >>= more) start b finish := by
  induction h with
  | done a => exact hmore
  | held hreference _ ih => exact .held hreference (ih hmore)
  | element hpresent hread _ _ ih => exact .element hpresent hread (ih hmore)
  | typed hread _ _ ih => exact .typed hread (ih hmore)
  | handedOver hdelivers _ ih => exact .handedOver hdelivers (ih hmore)
  | kept hdelivers _ ih => exact .kept hdelivers (ih hmore)

/-- A script comes to one result at most, and gathers the same on the way. -/
theorem reads_unique {script : ReadScript α} {a a' : α} {start finish finish' : Ledger}
    (h : converters.Reads reader path script start a finish)
    (h' : converters.Reads reader path script start a' finish') : a = a' ∧ finish = finish' := by
  induction h generalizing finish' with
  | done a =>
    cases h'
    exact ⟨rfl, rfl⟩
  | held hreference _ ih =>
    cases h' with
    | held hreference' h' =>
      obtain rfl := Option.some.inj (hreference.symm.trans hreference')
      exact ih h'
    | element hpresent => cases hreference.symm.trans hpresent
  | element hpresent _ _ ihread ih =>
    cases h' with
    | held hreference => cases hreference.symm.trans hpresent
    | element _ hread' h' =>
      obtain ⟨rfl, rfl⟩ := ihread hread'
      exact ih h'
  | typed _ _ ihread ih =>
    cases h' with
    | typed hread' h' =>
      obtain ⟨rfl, rfl⟩ := ihread hread'
      exact ih h'
  | handedOver hdelivers _ ih =>
    cases h' with
    | handedOver _ h' => exact ih h'
    | kept hkeeps => cases hdelivers.symm.trans hkeeps
  | kept hkeeps _ ih =>
    cases h' with
    | handedOver hdelivers => cases hdelivers.symm.trans hkeeps
    | kept _ h' => exact ih h'

end Converters

namespace Decoder

variable (decoder : Decoder)

/-- The coders of a decoder, as converters. -/
def converters : Converters := .ofRoster decoder.roster

def reader : Reader := { decoder with }

def context (path : List String) : ReadContext := decoder.reader.context path

/-- The script comes to what the decoder returns, and gathers the same. -/
def ReadsAs (path : List String) (reading : Reading α) (decoding : Decoding α) : Prop :=
  ∀ ledger, decoder.converters.Reads decoder.reader path reading.run ledger
    (decoding.run.run ledger).1 (decoding.run.run ledger).2

variable {decoder} {path : List String}

theorem readsAs_pure (a : α) : decoder.ReadsAs path (pure a) (pure a) :=
  fun ledger => .done _ ledger

theorem readsAs_refuse (what : Malformation) (place : Place) :
    decoder.ReadsAs path (Reading.refuse what place : Reading α) (refuse what place) :=
  fun ledger => .done _ ledger

theorem readsAs_throw (failure : Failure) :
    decoder.ReadsAs path (throw failure : Reading α) (throw failure) :=
  fun ledger => .done _ ledger

theorem ReadsAs.bind {reading : Reading α} {decoding : Decoding α} {next : α → Reading β}
    {next' : α → Decoding β} (h : decoder.ReadsAs path reading decoding)
    (hnext : ∀ a, decoder.ReadsAs path (next a) (next' a)) :
    decoder.ReadsAs path (reading >>= next) (decoding >>= next') := by
  intro ledger
  have hfirst := h ledger
  rw [run_bind]
  cases hrun : decoding.run.run ledger with
  | mk result middle =>
    rw [hrun] at hfirst
    cases result with
    | error failure => exact hfirst.bind (.done _ middle)
    | ok a => exact hfirst.bind (hnext a middle)

theorem readsAs_map {reading : Reading α} {decoding : Decoding α}
    (h : decoder.ReadsAs path reading decoding) (f : α → β) :
    decoder.ReadsAs path (do return f (← reading)) (do return f (← decoding)) :=
  h.bind fun _ => readsAs_pure _

/-! ## Steps -/

theorem readsAs_deliver (record : Value) :
    decoder.ReadsAs path (Reading.deliver record) (decoder.deliver record) := by
  intro ledger
  cases hdelivers : decoder.delivers with
  | true =>
    rw [deliver, hdelivers]
    exact .handedOver hdelivers (.done _ _)
  | false =>
    rw [deliver, hdelivers]
    exact .kept hdelivers (.done _ _)

/-- The type of the element is read alike, whatever names it. -/
def ReadsAlike (decoder : Decoder) (e : Element) : Prop :=
  ∀ path type, decoder.ReadsAs path (decoder.converters.readTyped (decoder.context path) type e)
    (decoder.readTyped path type e)

theorem run_resolve_reader (place : Place) (id : String) (ledger : Ledger) :
    (decoder.resolve place id).run.run ledger =
      (decoder.reader.resolve place id ledger, ledger) := by
  refine Prod.ext rfl ?_
  cases hmode : decoder.mode with
  | log =>
    rw [resolve, hmode]
    rfl
  | document =>
    rw [run_resolve hmode]
    cases Keyed.find? id ledger.marked <;> rfl

/-- Marking succeeds, whatever the mode. -/
theorem run_mark (id : Option String) (value : Value) (ledger : Ledger) :
    (decoder.mark id value).run.run ledger =
      (.ok (), ((decoder.mark id value).run.run ledger).2) := by
  refine Prod.ext ?_ rfl
  rw [mark.eq_def]
  split <;> rfl

theorem ReadsAlike.element {e : Element} (h : decoder.ReadsAlike e) (role : Role) :
    decoder.ReadsAs path (ExceptT.mk (Script.request (ReadRequest.element role e)))
      (decoder.decode (e.name :: path) (role.typeOf e) e) := by
  intro ledger
  rw [decode_eq]
  cases hreference : e.attribute? referenceKey with
  | some id =>
    simp only [run_resolve_reader]
    exact .held hreference (.done _ ledger)
  | none =>
    simp only [run_bind]
    have hread := h (e.name :: path) (role.typeOf e) ledger
    refine .element hreference hread ?_
    cases hrun : (decoder.readTyped (e.name :: path) (role.typeOf e) e).run.run ledger with
    | mk result within =>
      cases result with
      | error failure => exact .done _ within
      | ok value =>
        dsimp only
        rw [run_mark]
        exact .done _ _

/-! ## Children -/

theorem ReadsAlike.value {child : Element} (h : decoder.ReadsAlike child) :
    decoder.ReadsAs path (Reading.value child) (decoder.decodeTagged path child) :=
  h.element .value

theorem ReadsAlike.field {child : Element} (h : decoder.ReadsAlike child) :
    decoder.ReadsAs path (Reading.field child) (decoder.decodeField path child) :=
  h.element .field

theorem readsAs_entries {children : List Element}
    (h : ∀ child ∈ children, decoder.ReadsAlike child) :
    decoder.ReadsAs path (Reading.entries children) (decoder.decodeAll path children) := by
  induction children with
  | nil =>
    rw [decodeAll]
    exact readsAs_pure []
  | cons child children ih =>
    obtain ⟨hchild, hchildren⟩ := List.forall_mem_cons.mp h
    rw [decodeAll]
    exact hchild.value.bind fun v => readsAs_map (ih hchildren) (v :: ·)

theorem readsAs_parts {children : List Element}
    (h : ∀ child ∈ children, decoder.ReadsAlike child ∧
      ∀ entry ∈ child.children, decoder.ReadsAlike entry) (fields : List (String × Value)) :
    decoder.ReadsAs path (Reading.parts fields children)
      (decoder.decodeParts path fields children) := by
  induction children generalizing fields with
  | nil =>
    rw [decodeParts]
    exact readsAs_pure (fields, [])
  | cons child children ih =>
    obtain ⟨name, attributes, text, grandchildren, line⟩ := child
    obtain ⟨⟨hchild, hentries⟩, hchildren⟩ := List.forall_mem_cons.mp h
    rw [decodeParts, Reading.parts]
    by_cases hname : name = entriesTag
    · rw [if_pos hname, if_pos hname]
      exact (readsAs_entries hentries).bind fun found =>
        readsAs_map (ih hchildren fields) fun parts => (parts.1, found ++ parts.2)
    · rw [if_neg hname, if_neg hname]
      exact hchild.field.bind fun v => ih hchildren _

theorem readsAs_sample {children : List Element}
    (h : ∀ child ∈ children, decoder.ReadsAlike child) (fields : List (String × Value)) :
    decoder.ReadsAs path (Reading.sample (decoder.context path) fields children)
      (decoder.decodeSample path fields children) := by
  induction children generalizing fields with
  | nil =>
    rw [decodeSample]
    exact readsAs_pure (fields, [])
  | cons child children ih =>
    obtain ⟨hchild, hchildren⟩ := List.forall_mem_cons.mp h
    have hsample : (decoder.context path).decoder.isSample child.name =
      decoder.isSample child.name := rfl
    rw [decodeSample, Reading.sample, hsample]
    cases decoder.isSample child.name with
    | true =>
      exact hchild.value.bind fun entry =>
        readsAs_map (ih hchildren fields) fun parts => (parts.1, entry :: parts.2)
    | false => exact hchild.field.bind fun v => ih hchildren _

theorem readsAs_plan {children : List Element}
    (h : ∀ child ∈ children, decoder.ReadsAlike child) (pending : Option Value) :
    decoder.ReadsAs path (Reading.plan (decoder.context path) pending children)
      (decoder.decodePlan path pending children) := by
  induction children generalizing pending with
  | nil =>
    rw [decodePlan]
    exact readsAs_pure (leaf pending)
  | cons child children ih =>
    obtain ⟨hchild, hchildren⟩ := List.forall_mem_cons.mp h
    have hsubtree : (decoder.context path).decoder.isSubtree child.name =
      decoder.isSubtree child.name := rfl
    rw [decodePlan.eq_def, Reading.plan.eq_def]
    simp only [hsubtree]
    cases decoder.isSubtree child.name with
    | true =>
      cases pending with
      | none => exact readsAs_refuse _ _
      | some element =>
        exact hchild.value.bind fun below =>
          readsAs_map (ih hchildren none) (Branch.mk element (planOf below) :: ·)
    | false =>
      exact hchild.value.bind fun element =>
        readsAs_map (ih hchildren (some element)) (leaf pending ++ ·)

theorem readsAs_envelope {children : List Element}
    (h : ∀ child ∈ children, decoder.ReadsAlike child) (found : Option Plan) :
    decoder.ReadsAs path (Reading.envelope (decoder.context path) found children)
      (decoder.decodeEnvelope path found children) := by
  induction children generalizing found with
  | nil =>
    rw [decodeEnvelope]
    exact readsAs_pure found
  | cons child children ih =>
    obtain ⟨hchild, hchildren⟩ := List.forall_mem_cons.mp h
    rw [decodeEnvelope, Reading.envelope]
    refine hchild.value.bind fun value => ?_
    cases value with
    | plan plan =>
      cases found with
      | none => exact ih hchildren (some plan)
      | some _ => exact readsAs_refuse _ _
    | _ => exact readsAs_refuse _ _

theorem readsAs_records {children : List Element}
    (h : ∀ child ∈ children, decoder.ReadsAlike child) :
    decoder.ReadsAs path (Reading.records children) (decoder.decodeRecords path children) := by
  induction children with
  | nil =>
    rw [decodeRecords]
    exact readsAs_pure []
  | cons child children ih =>
    obtain ⟨hchild, hchildren⟩ := List.forall_mem_cons.mp h
    rw [decodeRecords]
    exact hchild.value.bind fun record => (readsAs_deliver record).bind fun kept =>
      readsAs_map (ih hchildren) (kept ++ ·)

/-! ## Elements -/

theorem readsAs_readWith {e : Element} (h : ∀ child ∈ e.children, decoder.ReadsAlike child ∧
      ∀ entry ∈ child.children, decoder.ReadsAlike entry) (typeId : String) (coder : Coder) :
    decoder.ReadsAs path (coder.read (decoder.context path) typeId e)
      (decoder.readWith path coder typeId e) := by
  have hchildren : ∀ child ∈ e.children, decoder.ReadsAlike child := fun child hchild =>
    (h child hchild).1
  cases coder with
  | text =>
    rw [readWith, Coder.read]
    split
    · exact readsAs_pure _
    · exact readsAs_refuse _ _
  | plan => exact readsAs_map (readsAs_plan hchildren none) Value.plan
  | envelope =>
    refine (readsAs_envelope hchildren none).bind fun found => ?_
    cases found with
    | none => exact readsAs_refuse _ _
    | some plan => exact readsAs_pure _
  | wrapper => exact readsAs_map (readsAs_records hchildren) (Value.object typeId _ ·)
  | sample => exact (readsAs_sample hchildren _).bind fun _ => readsAs_pure _
  | object =>
    rw [readWith, Coder.read]
    split
    · exact readsAs_refuse _ _
    · exact (readsAs_parts h []).bind fun _ => readsAs_pure _

theorem readsAs_readAs {e : Element} (h : ∀ child ∈ e.children, decoder.ReadsAlike child ∧
      ∀ entry ∈ child.children, decoder.ReadsAlike entry) (binding : Binding) :
    decoder.ReadsAs path (decoder.converters.readAs (decoder.context path) binding e)
      (decoder.readAs path binding e) := by
  have hdedicated : decoder.converters.dedicated? binding.typeId =
    (decoder.roster.dedicated? binding.typeId).map Coder.converter :=
    Converters.dedicated_ofRoster decoder.roster binding.typeId
  rw [Converters.readAs, hdedicated]
  cases hcoder : decoder.roster.dedicated? binding.typeId with
  | some coder =>
    rw [readAs_of_dedicated binding hcoder]
    exact readsAs_readWith h binding.typeId coder
  | none =>
    cases hneeds : binding.needsCoder with
    | true =>
      rw [readAs, hneeds, hcoder]
      exact readsAs_refuse _ _
    | false =>
      rw [readAs_of_plain binding hcoder hneeds]
      exact readsAs_readWith h binding.typeId .object

theorem readsAlike (e : Element) : decoder.ReadsAlike e := by
  induction e using Element.induct with
  | step e ih =>
    intro path type
    cases type with
    | none =>
      rw [readTyped, Converters.readTyped]
      split
      · exact readsAs_pure _
      · exact readsAs_refuse _ _
    | some tag =>
      rw [readTyped, Converters.readTyped]
      by_cases htag : tag = nullTag
      · simp only [if_pos htag]
        exact readsAs_pure _
      · have hbinding : (decoder.context path).resolver.binding? tag =
          decoder.resolver.binding? tag := rfl
        simp only [if_neg htag, hbinding]
        cases decoder.resolver.binding? tag with
        | none => exact readsAs_throw _
        | some binding => exact readsAs_readAs ih binding

variable (decoder) in
/-- Coders decode an element by their scripts as the decoder does, and in no other way. -/
theorem decodes_iff (e : Element) {result : Except Failure Value} {ledger : Ledger} :
    decoder.converters.Decodes decoder.reader e result ledger ↔
      decoder.decodeRoot e = (result, ledger) := by
  have hdecodes : decoder.converters.Decodes decoder.reader e (decoder.decodeRoot e).1
      (decoder.decodeRoot e).2 := (readsAlike e).element .value {}
  constructor
  · intro h
    obtain ⟨rfl, rfl⟩ := Converters.reads_unique hdecodes h
    rfl
  · intro h
    rwa [h] at hdecodes

end Decoder

end PlanArchive.Coding
