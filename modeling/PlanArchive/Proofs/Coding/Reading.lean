import PlanArchive.Proofs.Coding.Ensures
import PlanArchive.Proofs.Coding.Roster

/-!
# Reading step by step

Decoding an element is cut into its steps: the reference or the value, the type of the value, the
coder of the type (`decode_eq`). For each list of children a lemma says what the parts ensure if
every child does its share.
-/

namespace PlanArchive.Naming

/-- What a tag stands for is on the list of known types. -/
theorem Resolver.known_of_binding {resolver : Resolver} {tag : String} {binding : Binding}
    (h : resolver.binding? tag = some binding) :
    resolver.known.get? binding.typeId = some binding := by
  obtain ⟨needsCoder, hfind, rfl⟩ := Option.map_eq_some_iff.mp h
  exact Option.map_eq_some_iff.mpr ⟨needsCoder, hfind, rfl⟩

end PlanArchive.Naming

namespace PlanArchive.Coding

open Markup Naming

namespace Decoder

/-- Rebuilds a value of a type with a coder. -/
def readWith (decoder : Decoder) (path : List String) (coder : Coder) (typeId : String)
    (e : Element) : Decoding Value :=
  match coder with
  | .text =>
    if e.children.isEmpty then pure (.text e.content)
    else refuse (.textWithChildren e.name) (placeOf path e.line)
  | .plan => do return .plan (← decoder.decodePlan path none e.children)
  | .envelope => do
    match ← decoder.decodeEnvelope path none e.children with
    | some plan => return .object envelopeType (envelopeFields e.attributes) [.plan plan]
    | none => refuse (.noPlan e.name (decoder.resolver.tagFor treeType)) (placeOf path e.line)
  | .wrapper => do
    return .object typeId (wrapperFields e.attributes) (← decoder.decodeRecords path e.children)
  | .sample => do
    let (fields, entries) ← decoder.decodeSample path (sampleFields e.attributes) e.children
    return .object typeId fields entries
  | .object =>
    if e.children.isEmpty && !Text.allBlank e.content.toList then
      refuse (.textInObject e.name) (placeOf path e.line)
    else do
      let (fields, entries) ← decoder.decodeParts path [] e.children
      return .object typeId fields entries

/-- Rebuilds a value of a known type; a type that needs a coder is not left to the object coder. -/
def readAs (decoder : Decoder) (path : List String) (binding : Binding) (e : Element) :
    Decoding Value :=
  if binding.needsCoder && (decoder.roster.dedicated? binding.typeId).isNone then
    refuse (.noCoder binding.typeId) (placeOf path e.line)
  else decoder.readWith path (decoder.roster.coderFor binding.typeId) binding.typeId e

/-- Rebuilds a value whose type, if it has one, is named by a tag. -/
def readTyped (decoder : Decoder) (path : List String) (type : Option String) (e : Element) :
    Decoding Value :=
  match type with
  | none =>
    if e.children.isEmpty then pure (.text e.content)
    else refuse (.untyped e.name) (placeOf path e.line)
  | some tag =>
    if tag = nullTag then pure .null
    else match decoder.resolver.binding? tag with
      | none => throw (.unknownType tag (placeOf path e.line))
      | some binding => decoder.readAs path binding e

section

variable {decoder : Decoder}

theorem readTyped_of_binding {path : List String} {tag : String} {binding : Binding}
    {e : Element} (htag : tag ≠ nullTag) (h : decoder.resolver.binding? tag = some binding) :
    decoder.readTyped path (some tag) e = decoder.readAs path binding e := by
  simp only [readTyped, if_neg htag, h]

theorem readAs_of_dedicated {path : List String} (binding : Binding) {e : Element} {c : Coder}
    (h : decoder.roster.dedicated? binding.typeId = some c) :
    decoder.readAs path binding e = decoder.readWith path c binding.typeId e := by
  simp [readAs, h, Roster.coderFor_of_dedicated h]

theorem readAs_of_plain {path : List String} (binding : Binding) {e : Element}
    (h : decoder.roster.dedicated? binding.typeId = none) (hplain : binding.needsCoder = false) :
    decoder.readAs path binding e = decoder.readWith path .object binding.typeId e := by
  simp [readAs, hplain, Roster.coderFor, h]

/-- A coder rebuilds values of the type it is asked for. -/
theorem typeId?_of_readWith {path : List String} {c : Coder} {typeId : String} {e : Element}
    {v : Value} (hc : c.claims typeId = true) (h : Gives (decoder.readWith path c typeId e) v) :
    v.typeId? = some typeId := by
  cases c with
  | text =>
    rw [readWith] at h
    split at h
    · obtain rfl := gives_pure h
      exact congrArg some (beq_iff_eq.mp hc).symm
    · exact absurd h not_gives_refuse
  | plan =>
    obtain ⟨plan, -, h⟩ := gives_bind h
    obtain rfl := gives_pure h
    exact congrArg some (beq_iff_eq.mp hc).symm
  | envelope =>
    obtain ⟨found, -, h⟩ := gives_bind h
    cases found with
    | none => exact absurd h not_gives_refuse
    | some plan =>
      obtain rfl := gives_pure h
      exact congrArg some (beq_iff_eq.mp hc).symm
  | wrapper =>
    obtain ⟨records, -, h⟩ := gives_bind h
    obtain rfl := gives_pure h
    rfl
  | sample =>
    obtain ⟨parts, -, h⟩ := gives_bind h
    obtain rfl := gives_pure h
    rfl
  | object =>
    rw [readWith] at h
    split at h
    · exact absurd h not_gives_refuse
    · obtain ⟨parts, -, h⟩ := gives_bind h
      obtain rfl := gives_pure h
      rfl

/-- A value of a known type is read as one of that type. -/
theorem typeId?_of_readAs {path : List String} {binding : Binding} {e : Element} {v : Value}
    (h : Gives (decoder.readAs path binding e) v) : v.typeId? = some binding.typeId := by
  unfold readAs at h
  split at h
  · exact absurd h not_gives_refuse
  · exact typeId?_of_readWith (decoder.roster.claims_coderFor binding.typeId) h

/-- What an element is read as: a text, null, or what the coder of its type rebuilds. -/
theorem gives_readTyped {path : List String} {type : Option String} {e : Element} {v : Value}
    (h : Gives (decoder.readTyped path type e) v) :
    (type = none ∧ ∃ s, v = .text s) ∨ (type = some nullTag ∧ v = .null) ∨
      ∃ tag binding, type = some tag ∧ decoder.resolver.binding? tag = some binding ∧
        (binding.needsCoder = true → (decoder.roster.dedicated? binding.typeId).isSome = true) ∧
        Gives (decoder.readWith path (decoder.roster.coderFor binding.typeId) binding.typeId e)
          v := by
  cases type with
  | none =>
    simp only [readTyped] at h
    split at h
    · exact .inl ⟨rfl, _, gives_pure h⟩
    · exact absurd h not_gives_refuse
  | some tag =>
    simp only [readTyped] at h
    split at h
    · rename_i htag
      exact .inr (.inl ⟨congrArg some htag, gives_pure h⟩)
    · cases hbinding : decoder.resolver.binding? tag with
      | none =>
        rw [hbinding] at h
        exact absurd h not_gives_throw
      | some binding =>
        simp only [hbinding, readAs] at h
        split at h
        · exact absurd h not_gives_refuse
        · rename_i hcoder
          refine .inr (.inr ⟨tag, binding, rfl, hbinding, ?_, h⟩)
          intro hneeds
          simpa [hneeds, Option.isSome_iff_ne_none] using hcoder

/-- The steps in which an element is decoded. -/
theorem decode_eq (path : List String) (type : Option String) (e : Element) :
    decoder.decode path type e =
      match e.attribute? referenceKey with
      | some id => decoder.resolve (placeOf path e.line) id
      | none => do
        let value ← decoder.readTyped path type e
        decoder.mark (e.attribute? idKey) value
        return value := by
  obtain ⟨name, attributes, text, children, line⟩ := e
  rw [decode]
  simp only [Element.attribute?]
  cases Keyed.find? referenceKey attributes with
  | some id => rfl
  | none =>
    cases type with
    | none =>
      simp only [readTyped]
      cases children <;> simp [Element.content]
    | some tag =>
      simp only [readTyped]
      by_cases htag : tag = nullTag
      · simp [if_pos htag]
      · simp only [if_neg htag]
        cases decoder.resolver.binding? tag with
        | none => simp
        | some binding =>
          obtain ⟨typeId, needsCoder⟩ := binding
          cases h : decoder.roster.dedicated? typeId with
          | none =>
            cases needsCoder with
            | true => simp [readAs, h]
            | false =>
              simp only [readAs_of_plain ⟨typeId, false⟩ h rfl, h, readWith]
              by_cases hblank : (children.isEmpty && !Text.allBlank (text.getD "").toList) = true
              · simp [hblank, Element.content]
              · simp [hblank, Element.content]
          | some coder =>
            simp only [readAs_of_dedicated ⟨typeId, needsCoder⟩ h, h]
            cases coder with
            | object =>
              by_cases hblank : (children.isEmpty && !Text.allBlank (text.getD "").toList) = true
              · simp [hblank, readWith, Element.content]
              · simp [hblank, readWith, Element.content]
            | text => cases children <;> simp [readWith, Element.content]
            | envelope =>
              simp only [readWith, bind_assoc]
              apply bind_congr (m := Decoding)
              intro found
              cases found <;> simp
            | _ => simp [readWith]

/-- An element without marks is only read. -/
theorem decode_eq_readTyped (path : List String) (type : Option String) {e : Element}
    (hreference : e.attribute? referenceKey = none) (hid : e.attribute? idKey = none) :
    decoder.decode path type e = decoder.readTyped path type e := by
  rw [decode_eq, hreference, hid]
  have hmark : ∀ value, decoder.mark none value = pure () := fun value => by
    cases h : decoder.mode <;> simp [mark, h]
  simp [hmark]

/-! ## Attributes -/

theorem text_of_mem_envelopeFields {attributes : List (String × String)}
    {field : String × Value} (h : field ∈ envelopeFields attributes) :
    ∃ s, field.2 = .text s := by
  obtain ⟨key, -, hkey⟩ := List.mem_filterMap.mp h
  obtain ⟨s, -, rfl⟩ := Option.map_eq_some_iff.mp hkey
  exact ⟨s, rfl⟩

theorem text_of_mem_wrapperFields {attributes : List (String × String)}
    {field : String × Value} (h : field ∈ wrapperFields attributes) : ∃ s, field.2 = .text s := by
  obtain ⟨s, -, rfl⟩ := Option.map_eq_some_iff.mp (Option.mem_toList.mp h)
  exact ⟨s, rfl⟩

theorem text_of_mem_sampleFields {attributes : List (String × String)}
    {field : String × Value} (h : field ∈ sampleFields attributes) : ∃ s, field.2 = .text s := by
  obtain ⟨pair, -, rfl⟩ := List.mem_map.mp (Keyed.mem_ofPairs h)
  exact ⟨pair.2, rfl⟩

/-! ## Children -/

variable {I : Ledger → Prop} {path : List String}

/-- A child whose tag names its type. -/
def decodeTagged (decoder : Decoder) (path : List String) (child : Element) : Decoding Value :=
  decoder.decode (child.name :: path) (some child.name) child

/-- A child that is a field. -/
def decodeField (decoder : Decoder) (path : List String) (child : Element) : Decoding Value :=
  decoder.decode (child.name :: path) (child.attribute? classKey) child

theorem ensures_decodeAll {P : Value → Prop} {children : List Element}
    (h : ∀ child ∈ children, Ensures I (decoder.decodeTagged path child) P) :
    Ensures I (decoder.decodeAll path children) fun values => ∀ v ∈ values, P v := by
  induction children with
  | nil => exact ensures_pure (List.forall_mem_nil _)
  | cons child children ih =>
    obtain ⟨hchild, hchildren⟩ := List.forall_mem_cons.mp h
    unfold decodeAll
    refine ensures_bind hchild fun value hvalue => ensures_bind (ih hchildren) fun rest hrest => ?_
    exact ensures_pure (List.forall_mem_cons.mpr ⟨hvalue, hrest⟩)

/-- Fields that are told apart by their names, and entries. -/
structure Parts (P : String × Value → Prop) (Q : Value → Prop)
    (parts : List (String × Value) × List Value) : Prop where
  nodup : (Keyed.keys parts.1).Nodup
  fields : ∀ field ∈ parts.1, P field
  entries : ∀ entry ∈ parts.2, Q entry

theorem ensures_decodeParts {P : String × Value → Prop} {Q : Value → Prop}
    {children : List Element}
    (hfields : ∀ child ∈ children, child.name ≠ entriesTag →
      Ensures I (decoder.decodeField path child) fun v => P (child.name, v))
    (hentries : ∀ child ∈ children, child.name = entriesTag → ∀ entry ∈ child.children,
      Ensures I (decoder.decodeTagged path entry) Q)
    {fields : List (String × Value)} (hnodup : (Keyed.keys fields).Nodup)
    (hstart : ∀ field ∈ fields, P field) :
    Ensures I (decoder.decodeParts path fields children) (Parts P Q) := by
  induction children generalizing fields with
  | nil => exact ensures_pure ⟨hnodup, hstart, List.forall_mem_nil _⟩
  | cons child children ih =>
    obtain ⟨name, attributes, text, grandchildren, line⟩ := child
    obtain ⟨hfield, hfields⟩ := List.forall_mem_cons.mp hfields
    obtain ⟨hentry, hentries⟩ := List.forall_mem_cons.mp hentries
    rw [decodeParts]
    by_cases hname : name = entriesTag
    · rw [if_pos hname]
      apply ensures_bind (ensures_decodeAll (hentry hname))
      intro entries hentries'
      refine ensures_bind (ih hfields hentries hnodup hstart) ?_
      rintro ⟨fields', more⟩ ⟨hnodup', hfields', hmore⟩
      exact ensures_pure ⟨hnodup', hfields', fun v hv =>
        (List.mem_append.mp hv).elim (hentries' v) (hmore v)⟩
    · rw [if_neg hname]
      apply ensures_bind (hfield hname)
      intro value hvalue
      apply ih hfields hentries (Keyed.nodup_put hnodup _ _)
      intro field hmem
      rcases Keyed.mem_put hmem with rfl | hmem
      · exact hvalue
      · exact hstart field hmem

theorem ensures_decodeSample {P : String × Value → Prop} {Q : Value → Prop}
    {children : List Element}
    (hfields : ∀ child ∈ children, decoder.isSample child.name = false →
      Ensures I (decoder.decodeField path child) fun v => P (child.name, v))
    (hentries : ∀ child ∈ children, decoder.isSample child.name = true →
      Ensures I (decoder.decodeTagged path child) Q)
    {fields : List (String × Value)} (hnodup : (Keyed.keys fields).Nodup)
    (hstart : ∀ field ∈ fields, P field) :
    Ensures I (decoder.decodeSample path fields children) (Parts P Q) := by
  induction children generalizing fields with
  | nil => exact ensures_pure ⟨hnodup, hstart, List.forall_mem_nil _⟩
  | cons child children ih =>
    obtain ⟨hfield, hfields⟩ := List.forall_mem_cons.mp hfields
    obtain ⟨hentry, hentries⟩ := List.forall_mem_cons.mp hentries
    rw [decodeSample]
    by_cases hname : decoder.isSample child.name = true
    · rw [if_pos hname]
      apply ensures_bind (hentry hname)
      intro entry hentry'
      refine ensures_bind (ih hfields hentries hnodup hstart) ?_
      rintro ⟨fields', more⟩ ⟨hnodup', hfields', hmore⟩
      exact ensures_pure ⟨hnodup', hfields', List.forall_mem_cons.mpr ⟨hentry', hmore⟩⟩
    · rw [if_neg hname]
      apply ensures_bind (hfield (Bool.eq_false_iff.mpr hname))
      intro value hvalue
      apply ih hfields hentries (Keyed.nodup_put hnodup _ _)
      intro field hmem
      rcases Keyed.mem_put hmem with rfl | hmem
      · exact hvalue
      · exact hstart field hmem

/-- The plans below the elements of a plan satisfy `R` if every subtree does. -/
theorem ensures_decodePlan {P : Value → Prop} {R : Plan → Prop} {children : List Element}
    (hempty : R [])
    (helements : ∀ child ∈ children, decoder.isSubtree child.name = false →
      Ensures I (decoder.decodeTagged path child) P)
    (hsubtrees : ∀ child ∈ children, decoder.isSubtree child.name = true →
      Ensures I (decoder.decodeTagged path child) fun v => R (planOf v))
    {pending : Option Value} (hpending : ∀ v ∈ pending, P v) :
    Ensures I (decoder.decodePlan path pending children) fun plan =>
      ∀ b ∈ plan, P b.element ∧ R b.children := by
  have hleaf : ∀ {pending : Option Value}, (∀ v ∈ pending, P v) →
      ∀ b ∈ leaf pending, P b.element ∧ R b.children := by
    intro pending hpending b hb
    cases pending with
    | none => cases hb
    | some v =>
      obtain rfl := List.mem_singleton.mp hb
      exact ⟨hpending v rfl, hempty⟩
  induction children generalizing pending with
  | nil => exact ensures_pure (hleaf hpending)
  | cons child children ih =>
    obtain ⟨helement, helements⟩ := List.forall_mem_cons.mp helements
    obtain ⟨hsubtree, hsubtrees⟩ := List.forall_mem_cons.mp hsubtrees
    rw [decodePlan.eq_def]
    simp only
    by_cases hname : decoder.isSubtree child.name = true
    · rw [if_pos hname]
      cases pending with
      | none => exact ensures_refuse
      | some element =>
        have hnone : ∀ v ∈ (none : Option Value), P v := by rintro v ⟨⟩
        apply ensures_bind (hsubtree hname)
        intro below hbelow
        apply ensures_bind (ih helements hsubtrees hnone)
        intro plan hplan
        exact ensures_pure (List.forall_mem_cons.mpr ⟨⟨hpending element rfl, hbelow⟩, hplan⟩)
    · rw [if_neg hname]
      apply ensures_bind (helement (Bool.eq_false_iff.mpr hname))
      intro element helement'
      have hnext : ∀ v ∈ some element, P v := fun v hv => Option.some.inj hv ▸ helement'
      apply ensures_bind (ih helements hsubtrees hnext)
      intro plan hplan
      exact ensures_pure fun b hb =>
          (List.mem_append.mp hb).elim (hleaf hpending b) (hplan b)

theorem ensures_decodeEnvelope {R : Plan → Prop} {children : List Element}
    (h : ∀ child ∈ children,
      Ensures I (decoder.decodeTagged path child) fun v => ∀ plan, v = .plan plan → R plan)
    {found : Option Plan} (hfound : ∀ plan ∈ found, R plan) :
    Ensures I (decoder.decodeEnvelope path found children) fun plan? => ∀ plan ∈ plan?, R plan := by
  induction children generalizing found with
  | nil => exact ensures_pure hfound
  | cons child children ih =>
    obtain ⟨hchild, hchildren⟩ := List.forall_mem_cons.mp h
    unfold decodeEnvelope
    apply ensures_bind hchild
    intro value hvalue
    split
    · rename_i plan
      apply ih hchildren
      intro plan' hplan'
      exact Option.some.inj hplan' ▸ hvalue plan rfl
    · exact ensures_refuse

theorem ensures_decodeRecords {P : Value → Prop} {children : List Element}
    (hdeliver : ∀ ledger record, I ledger → P record →
      I { ledger with delivered := ledger.delivered ++ [record] })
    (h : ∀ child ∈ children, Ensures I (decoder.decodeTagged path child) P) :
    Ensures I (decoder.decodeRecords path children) fun records => ∀ v ∈ records, P v := by
  induction children with
  | nil => exact ensures_pure (List.forall_mem_nil _)
  | cons child children ih =>
    obtain ⟨hchild, hchildren⟩ := List.forall_mem_cons.mp h
    unfold decodeRecords
    apply ensures_bind hchild
    intro record hrecord
    refine ensures_bind (P := fun kept => ∀ v ∈ kept, P v) ?_ fun kept hkept => ?_
    · unfold deliver
      split
      · exact fun ledger hI => ⟨hdeliver ledger record hI hrecord, fun _ he =>
          Except.ok.inj he ▸ List.forall_mem_nil _⟩
      · exact ensures_pure fun v hv => List.mem_singleton.mp hv ▸ hrecord
    · apply ensures_bind (ih hchildren)
      intro rest hrest
      exact ensures_pure fun v hv => (List.mem_append.mp hv).elim (hkept v) (hrest v)

end

end Decoder

end PlanArchive.Coding
