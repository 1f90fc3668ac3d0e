import PlanArchive.Proofs.Coding.RoundTrip

/-!
# Only sound values survive

A value survives if something alike is read from what was written for it. Then nothing in it was
taken for anything else, so the value is sound (`sound_of_survives`). The induction is on the value:
the children of a value that survives survive, one coder at a time.
-/

namespace PlanArchive.Coding

open Markup Naming

/-- The type of the value, if it has one, is not that of wrappers, and its tag stands for it. -/
def Traceable (resolver : Resolver) (v : Value) : Prop :=
  ∀ typeId, v.typeId? = some typeId → typeId ≠ wrapperType ∧
    ∃ needsCoder, resolver.binding? (resolver.tagFor typeId) = some ⟨typeId, needsCoder⟩

namespace Decoder

/-- Legible, with a coder that brings back the fields. -/
def Sound (decoder : Decoder) (v : Value) : Prop :=
  decoder.Legible v ∧ FieldsKept decoder.roster v

/-- From an element filled with the value, its coder reads the other one. -/
def Refilled (decoder : Decoder) (v w : Value) : Prop :=
  ∃ path e₀ e e', Opened e₀ ∧ decoder.counterpart.fill e₀ v = .ok e ∧ e.ReadAs e' ∧
    Gives (decoder.readTyped path (some (tagOf decoder.resolver v)) e') w

/-- Something alike is read from an element filled with the value. -/
def Survives (decoder : Decoder) (v : Value) : Prop := ∃ w, decoder.Refilled v w ∧ v.Alike w

/-- What was written for the value is read as the other one. -/
def GivenBack (decoder : Decoder) (v w : Value) : Prop :=
  ∃ path e', decoder.Writes v e' ∧ Gives (decoder.decodeTagged path e') w

/-- What was written for the field is read as the other one. -/
def FieldGivenBack (decoder : Decoder) (field other : String × Value) : Prop :=
  field.1 = other.1 ∧
    ∃ path e', decoder.WritesField field e' ∧ Gives (decoder.decodeField path e') other.2

/-- What was written for the branch is read as the other one. -/
def BranchGivenBack (decoder : Decoder) (b c : Branch) : Prop :=
  decoder.isSubtree (tagOf decoder.resolver b.element) = false ∧
    decoder.GivenBack b.element c.element ∧
    ∃ below, decoder.GivenBack (.plan b.children) below ∧ c.children = planOf below

section

variable {decoder : Decoder}

theorem survives_of_givenBack (hroster : decoder.roster.Standard) {v w : Value}
    (h : decoder.GivenBack v w) (halike : v.Alike w) : decoder.Survives v := by
  obtain ⟨path, e', hwrites, hgives⟩ := h
  obtain ⟨hname, e₀, e, hopened, hfill, hread⟩ := hwrites.filled hroster
  rw [decodeTagged, decode_filled hroster hopened hfill hread, hname] at hgives
  exact ⟨w, ⟨_, e₀, e, e', hopened, hfill, hread, hgives⟩, halike⟩

theorem survives_of_fieldGivenBack (hroster : decoder.roster.Standard)
    {field other : String × Value} (h : decoder.FieldGivenBack field other)
    (halike : field.2.Alike other.2) (htext : field.2.text? = none) :
    decoder.Survives field.2 := by
  obtain ⟨-, path, e', hwrites, hgives⟩ := h
  obtain ⟨-, hclass, e₀, e, hopened, hfill, hread⟩ := hwrites.filled hroster
  have htag : e'.attribute? classKey = some (tagOf decoder.resolver field.2) := by
    rw [hclass, classOf, htext]
    rfl
  rw [decodeField, decode_filled hroster hopened hfill hread, htag] at hgives
  exact ⟨other.2, ⟨_, e₀, e, e', hopened, hfill, hread, hgives⟩, halike⟩

/-! ## Lists of children -/

variable {path : List String}

theorem givenBack_of_decodeAll {vs ws : List Value} {es : List Element}
    (hes : List.Forall₂ decoder.Writes vs es) (h : Gives (decoder.decodeAll path es) ws) :
    List.Forall₂ decoder.GivenBack vs ws := by
  induction hes generalizing ws with
  | nil =>
    obtain rfl := gives_pure h
    exact .nil
  | cons he _ ih =>
    obtain ⟨w, hw, h⟩ := gives_bind h
    obtain ⟨rest, hrest, h⟩ := gives_bind h
    obtain rfl := gives_pure h
    exact .cons ⟨path, _, he, hw⟩ (ih hrest)

theorem fieldsGivenBack_of_decodeParts {fields : List (String × Value)} {es : List Element}
    (hes : List.Forall₂ decoder.WritesField fields es) (hroster : decoder.roster.Standard)
    (hnames : ∀ field ∈ fields, field.1 ≠ entriesTag) {start : List (String × Value)}
    {rest : List Element} {parts : List (String × Value) × List Value}
    (h : Gives (decoder.decodeParts path start (es ++ rest)) parts) :
    ∃ pairs, List.Forall₂ decoder.FieldGivenBack fields pairs ∧
      Gives (decoder.decodeParts path (Keyed.putAll start pairs) rest) parts := by
  induction hes generalizing start with
  | nil => exact ⟨[], .nil, h⟩
  | @cons field e fields es he _ ih =>
    obtain ⟨hname, hnames⟩ := List.forall_mem_cons.mp hnames
    have hname' := (he.filled hroster).1
    obtain ⟨name, attributes, text, children, line⟩ := e
    obtain rfl : name = field.1 := hname'
    rw [List.cons_append, decodeParts, if_neg hname] at h
    obtain ⟨w, hw, h⟩ := gives_bind h
    obtain ⟨pairs, hpairs, h⟩ := ih hnames h
    exact ⟨(field.1, w) :: pairs, .cons ⟨rfl, path, _, he, hw⟩ hpairs, h⟩

theorem givenBack_of_collection {vs : List Value} {members es : List Element}
    (hall : decoder.counterpart.encodeAll vs = .ok members)
    (hes : List.Forall₂ Element.ReadAs (Encoder.collection members) es)
    {fields : List (String × Value)} {parts : List (String × Value) × List Value}
    (h : Gives (decoder.decodeParts path fields es) parts) :
    parts.1 = fields ∧ List.Forall₂ decoder.GivenBack vs parts.2 := by
  have hvs := Encoder.encodeAll_eq_ok.mp hall
  cases members with
  | nil =>
    obtain rfl : es = [] := List.forall₂_nil_left_iff.mp hes
    obtain rfl : vs = [] := List.forall₂_nil_right_iff.mp hvs
    obtain rfl := gives_pure h
    exact ⟨rfl, .nil⟩
  | cons member members =>
    obtain ⟨child, rest, hchild, hrest, rfl⟩ := List.forall₂_cons_left_iff.mp hes
    obtain rfl := List.forall₂_nil_left_iff.mp hrest
    have hname := hchild.name
    have hwrites := writes_all hvs hchild.children
    obtain ⟨name, attributes, text, children, line⟩ := child
    rw [decodeParts, if_pos hname] at h
    obtain ⟨entries, hentries, h⟩ := gives_bind h
    obtain ⟨more, hmore, h⟩ := gives_bind h
    obtain rfl := gives_pure hmore
    obtain rfl := gives_pure h
    exact ⟨rfl, by simpa using givenBack_of_decodeAll hwrites hentries⟩

theorem fieldsGivenBack_of_decodeSample {fields : List (String × Value)} {es : List Element}
    (hes : List.Forall₂ decoder.WritesField fields es) (hroster : decoder.roster.Standard)
    (hnames : ∀ field ∈ fields, decoder.isSample field.1 = false)
    {start : List (String × Value)} {rest : List Element}
    {parts : List (String × Value) × List Value}
    (h : Gives (decoder.decodeSample path start (es ++ rest)) parts) :
    ∃ pairs, List.Forall₂ decoder.FieldGivenBack fields pairs ∧
      Gives (decoder.decodeSample path (Keyed.putAll start pairs) rest) parts := by
  induction hes generalizing start with
  | nil => exact ⟨[], .nil, h⟩
  | @cons field e fields es he _ ih =>
    obtain ⟨hname, hnames⟩ := List.forall_mem_cons.mp hnames
    have hname' := (he.filled hroster).1
    have hsample : ¬decoder.isSample e.name = true := by
      rw [hname', hname]
      exact Bool.false_ne_true
    rw [List.cons_append, decodeSample, if_neg hsample] at h
    obtain ⟨w, hw, h⟩ := gives_bind h
    rw [hname'] at h
    obtain ⟨pairs, hpairs, h⟩ := ih hnames h
    exact ⟨(field.1, w) :: pairs, .cons ⟨rfl, path, _, he, hw⟩ hpairs, h⟩

/-- A sample has no more entries than children. -/
theorem length_le_of_decodeSample {es : List Element} {start : List (String × Value)}
    {parts : List (String × Value) × List Value}
    (h : Gives (decoder.decodeSample path start es) parts) : parts.2.length ≤ es.length := by
  induction es generalizing start parts with
  | nil => exact gives_pure h ▸ Nat.le_refl _
  | cons e es ih =>
    rw [decodeSample] at h
    split at h
    · obtain ⟨w, -, h⟩ := gives_bind h
      obtain ⟨more, hmore, h⟩ := gives_bind h
      obtain rfl := gives_pure h
      exact Nat.succ_le_succ (ih hmore)
    · obtain ⟨w, -, h⟩ := gives_bind h
      exact Nat.le_succ_of_le (ih h)

/-- As many entries as were written: then every child was taken for one. -/
theorem givenBack_of_decodeSample {vs : List Value} {es : List Element}
    (hes : List.Forall₂ decoder.Writes vs es) (hroster : decoder.roster.Standard)
    {start : List (String × Value)} {parts : List (String × Value) × List Value}
    (h : Gives (decoder.decodeSample path start es) parts)
    (hlength : vs.length ≤ parts.2.length) :
    (∀ v ∈ vs, decoder.isSample (tagOf decoder.resolver v) = true) ∧ parts.1 = start ∧
      List.Forall₂ decoder.GivenBack vs parts.2 := by
  induction hes generalizing parts with
  | nil =>
    obtain rfl := gives_pure h
    exact ⟨List.forall_mem_nil _, rfl, .nil⟩
  | @cons v e vs es he hes ih =>
    have hname := (he.filled hroster).1
    rw [decodeSample] at h
    split at h
    · rename_i hsample
      obtain ⟨w, hw, h⟩ := gives_bind h
      obtain ⟨more, hmore, h⟩ := gives_bind h
      obtain rfl := gives_pure h
      obtain ⟨htags, hfields, hall⟩ := ih hmore (Nat.le_of_succ_le_succ hlength)
      exact ⟨List.forall_mem_cons.mpr ⟨hname ▸ hsample, htags⟩, hfields,
        .cons ⟨path, e, he, hw⟩ hall⟩
    · obtain ⟨w, -, h⟩ := gives_bind h
      have hle := length_le_of_decodeSample h
      rw [← hes.length_eq] at hle
      rw [List.length_cons] at hlength
      omega

/-- Each element is followed by its subtree, and is none itself. -/
theorem branchesGivenBack_of_decodePlan (hroster : decoder.roster.Standard)
    (hresolves : decoder.resolver.Resolves treeType)
    (htag : isName (decoder.resolver.tagFor treeType) = true) {plan plan' : Plan}
    {pairs : List (Element × List Element)}
    (hpairs : List.Forall₂
      (decoder.counterpart.EncodesBranch (decoder.resolver.tagFor treeType)) plan pairs)
    {es : List Element} (hes : List.Forall₂ Element.ReadAs
      (Encoder.branchElements (decoder.resolver.tagFor treeType) pairs) es)
    (h : Gives (decoder.decodePlan path none es) plan') :
    List.Forall₂ decoder.BranchGivenBack plan plan' := by
  induction hpairs generalizing es plan' with
  | nil =>
    obtain rfl : es = [] := List.forall₂_nil_left_iff.mp hes
    obtain rfl := gives_pure h
    exact .nil
  | @cons b pair plan pairs hpair _ ih =>
    obtain ⟨-, hencode, hencodeBelow⟩ := hpair
    obtain ⟨e, below⟩ := pair
    rw [Encoder.branchElements_cons] at hes
    obtain ⟨first, tail, hfirst, htail, rfl⟩ := List.forall₂_cons_left_iff.mp hes
    obtain ⟨second, others, hsecond, hothers, rfl⟩ := List.forall₂_cons_left_iff.mp htail
    have hwrites : decoder.Writes b.element first := ⟨e, hencode, hfirst⟩
    have hwrites' : decoder.Writes (.plan b.children) second :=
      ⟨_, Encoder.encode_plan decoder.counterpart hroster htag hencodeBelow, hsecond⟩
    have hsecond' : decoder.isSubtree second.name = true :=
      (hwrites'.filled hroster).1 ▸ isSubtree_of_resolves hresolves
    rw [decodePlan] at h
    by_cases hfirst' : decoder.isSubtree first.name = true
    · rw [if_pos hfirst'] at h
      exact absurd h not_gives_refuse
    · rw [if_neg hfirst'] at h
      obtain ⟨w, hw, h⟩ := gives_bind h
      obtain ⟨plan₁, hplan₁, h⟩ := gives_bind h
      obtain rfl := gives_pure h
      rw [decodePlan.eq_def] at hplan₁
      simp only [if_pos hsecond'] at hplan₁
      obtain ⟨u, hu, h⟩ := gives_bind hplan₁
      obtain ⟨plan₂, hplan₂, h⟩ := gives_bind h
      obtain rfl := gives_pure h
      refine .cons ⟨?_, ⟨path, first, hwrites, hw⟩, u, ⟨path, second, hwrites', hu⟩, rfl⟩
        (ih hothers hplan₂)
      rw [← (hwrites.filled hroster).1]
      exact Bool.eq_false_iff.mpr hfirst'

/-! ## One coder at a time -/

theorem typed_of_survives {v : Value} (htraceable : Traceable decoder.resolver v)
    (h : decoder.Survives v) : Typed decoder.resolver v := by
  intro typeId htype
  obtain ⟨-, hbinding⟩ := htraceable typeId htype
  refine ⟨fun htag => ?_, hbinding⟩
  -- the tag of a missing value would have been read as one
  obtain ⟨w, ⟨path, e₀, e, e', -, -, -, hgives⟩, halike⟩ := h
  have hnull : w = .null := gives_pure (by simpa [readTyped, tagOf, htype, htag] using hgives)
  have hsame := Value.typeId?_eq_of_alike halike
  rw [hnull, htype] at hsame
  cases hsame

theorem keys_of_fieldsGivenBack {fields pairs : List (String × Value)}
    (h : List.Forall₂ decoder.FieldGivenBack fields pairs) :
    Keyed.keys fields = Keyed.keys pairs := by
  induction h with
  | nil => rfl
  | cons hfield _ ih => exact congrArg₂ List.cons hfield.1 ih

theorem survive_of_fieldsGivenBack (hroster : decoder.roster.Standard)
    {fields pairs : List (String × Value)}
    (h : List.Forall₂ decoder.FieldGivenBack fields pairs)
    (halike : ∀ field ∈ fields, ∀ other ∈ pairs, field.1 = other.1 → field.2.Alike other.2) :
    ∀ field ∈ fields, field.2.text? = none → decoder.Survives field.2 := by
  induction h with
  | nil => exact List.forall_mem_nil _
  | cons hfield _ ih =>
    have hhead := halike _ (List.mem_cons_self ..) _ (List.mem_cons_self ..) hfield.1
    refine List.forall_mem_cons.mpr ⟨survives_of_fieldGivenBack hroster hfield hhead, ih ?_⟩
    exact fun field hmem other hother =>
      halike field (List.mem_cons_of_mem _ hmem) other (List.mem_cons_of_mem _ hother)

theorem survive_of_givenBack (hroster : decoder.roster.Standard) {vs ws : List Value}
    (h : List.Forall₂ decoder.GivenBack vs ws) (halike : List.Forall₂ Value.Alike vs ws) :
    ∀ v ∈ vs, decoder.Survives v := by
  induction h with
  | nil => exact List.forall_mem_nil _
  | cons hv _ ih =>
    obtain ⟨hhead, htail⟩ := List.forall₂_cons.mp halike
    exact List.forall_mem_cons.mpr ⟨survives_of_givenBack hroster hv hhead, ih htail⟩

/-- The object is as its coder needs it, and what stands in it survives. -/
structure PartsSurvive (decoder : Decoder) (typeId : String) (fields : List (String × Value))
    (entries : List Value) : Prop where
  legible : decoder.LegibleFor typeId fields entries (decoder.roster.coderFor typeId)
  kept : (arrange (decoder.roster.coderFor typeId) fields).Perm fields
  fields : ∀ field ∈ fields, field.2.text? = none → decoder.Survives field.2
  entries : ∀ entry ∈ entries, decoder.Survives entry

section

variable (hroster : decoder.roster.Standard) {typeId : String}
  {fields : List (String × Value)} {entries : List Value}
  (hresolves : decoder.resolver.Resolves typeId)
  (h : decoder.Survives (.object typeId fields entries))

include hroster hresolves h

theorem partsSurvive_object (hcoder : decoder.roster.coderFor typeId = .object) :
    decoder.PartsSurvive typeId fields entries := by
  obtain ⟨w, ⟨path, e₀, e, e', h₀, hfill, hread, hgives⟩, halike⟩ := h
  obtain ⟨htag, needsCoder, hbinding⟩ := hresolves
  obtain ⟨parts, members, hparts, hall, rfl⟩ :=
    (Encoder.fill_object decoder.counterpart hcoder).mp hfill
  obtain ⟨hnames, hparts⟩ := Encoder.encodeFields_eq_ok.mp hparts
  obtain ⟨parts', members', hchildren, hparts', hmembers'⟩ := forall₂_append_left hread.children
  have hdedicated := hroster.coderFor_object_iff.mp hcoder
  change Gives (decoder.readTyped path (some (decoder.resolver.tagFor typeId)) e') w at hgives
  rw [readTyped_of_binding htag hbinding] at hgives
  cases needsCoder with
  | true =>
    have hrefuse : decoder.readAs path ⟨typeId, true⟩ e' =
        refuse (.noCoder typeId) (placeOf path e'.line) := by simp [readAs, hdedicated]
    rw [hrefuse] at hgives
    exact absurd hgives not_gives_refuse
  | false =>
    rw [readAs_of_plain _ hdedicated rfl, readWith] at hgives
    split at hgives
    · exact absurd hgives not_gives_refuse
    · obtain ⟨⟨others, entries'⟩, hgiven, hgives⟩ := gives_bind hgives
      obtain rfl := gives_pure hgives
      obtain ⟨others', entries'', heq, hfields, hentries⟩ := Value.alike_object.mp halike
      obtain ⟨-, rfl, rfl⟩ := Value.object.inj heq
      rw [hchildren] at hgiven
      obtain ⟨pairs, hpairs, hgiven⟩ := fieldsGivenBack_of_decodeParts
        (writes_fields hparts hparts') hroster hnames hgiven
      obtain ⟨rfl, hmembers⟩ := givenBack_of_collection hall hmembers' hgiven
      have hnodup : (Keyed.keys fields).Nodup :=
        hfields.keys_perm.nodup_iff.mpr (Keyed.nodup_ofPairs pairs)
      have hall' : Keyed.putAll [] pairs = pairs :=
        Keyed.ofPairs_of_nodup (keys_of_fieldsGivenBack hpairs ▸ hnodup)
      rw [hall'] at hfields
      refine ⟨?_, ?_, ?_, survive_of_givenBack hroster hmembers hentries⟩
      · rw [hcoder]
        exact ⟨hbinding, hnodup⟩
      · rw [hcoder, arrange_object]
      · exact survive_of_fieldsGivenBack hroster hpairs fun field hfield other hother =>
          hfields.of_mem (keys_of_fieldsGivenBack hpairs ▸ hnodup) hfield hother

omit hroster hresolves h in
/-- In a sample a field that is no text is not named like a text. -/
theorem not_mem_keys_texts (hnodup : (Keyed.keys fields).Nodup) {field : String × Value}
    (hfield : field ∈ Encoder.structured fields) :
    field.1 ∉ Keyed.keys (fields.filter fun field => field.2.text?.isSome) := by
  intro hmem
  obtain ⟨hfield, hnone⟩ := List.mem_filter.mp hfield
  obtain ⟨other, hother, hname⟩ := List.mem_map.mp hmem
  obtain ⟨hother, hsome⟩ := List.mem_filter.mp hother
  have hfind := Keyed.find?_of_mem hnodup hfield
  rw [← hname, Keyed.find?_of_mem hnodup hother] at hfind
  rw [Option.some.inj hfind, Option.isSome_iff_ne_none] at hsome
  exact hsome (Option.isNone_iff_eq_none.mp hnone)

theorem partsSurvive_sample (hdedicated : decoder.roster.dedicated? typeId = some .sample) :
    decoder.PartsSurvive typeId fields entries := by
  have hcoder := Roster.coderFor_of_dedicated hdedicated
  obtain ⟨w, ⟨path, e₀, e, e', h₀, hfill, hread, hgives⟩, halike⟩ := h
  obtain ⟨head, parts, members, hhead, hparts, hall, rfl⟩ :=
    (Encoder.fill_sample decoder.counterpart hcoder).mp hfill
  obtain ⟨parts', members', hchildren, hparts', hmembers'⟩ := forall₂_append_left hread.children
  change Gives (decoder.readTyped path (some (decoder.resolver.tagFor typeId)) e') w at hgives
  rw [readTyped_of_resolves hresolves hdedicated, readWith] at hgives
  obtain ⟨⟨others, entries'⟩, hgiven, hgives⟩ := gives_bind hgives
  obtain rfl := gives_pure hgives
  obtain ⟨others', entries'', heq, hfields, hentries⟩ := Value.alike_object.mp halike
  obtain ⟨-, rfl, rfl⟩ := Value.object.inj heq
  obtain ⟨hnodup', hnames', -⟩ := (ensures_decodeSample (I := anyLedger) (Q := fun _ => True)
    (P := fun field => field.1 ∈ Keyed.keys (sampleFields e'.attributes) ∨
      decoder.isSample field.1 = false)
    (fun _ _ hchild => ensures_of_gives fun _ _ => Or.inr hchild)
    (fun _ _ _ => ensures_of_gives fun _ _ => trivial) (Keyed.nodup_ofPairs _)
    fun field hfield => Or.inl (List.mem_map.mpr ⟨field, hfield, rfl⟩)).of_gives hgiven
  have hnodup : (Keyed.keys fields).Nodup := hfields.keys_perm.nodup_iff.mpr hnodup'
  have hstart : sampleFields e'.attributes =
      fields.filter fun field => field.2.text?.isSome := by
    rw [hread.attributes]
    show sampleFields head.attributes = _
    exact sampleFields_of_sampleHead h₀ hhead hnodup
  -- a field under the tag of a sample would be among the entries
  have hnames : ∀ field ∈ Encoder.structured fields, decoder.isSample field.1 = false := by
    intro field hfield
    obtain ⟨other, hother, hname, -⟩ := hfields.exists_of_mem (List.mem_filter.mp hfield).1
    rw [hname]
    apply (hnames' other hother).resolve_left
    intro hmem
    rw [hstart, ← hname] at hmem
    exact not_mem_keys_texts hnodup hfield hmem
  rw [hchildren, hstart] at hgiven
  obtain ⟨pairs, hpairs, hgiven⟩ := fieldsGivenBack_of_decodeSample
    (writes_fields (Encoder.encodeStructured_eq_ok.mp hparts) hparts') hroster hnames hgiven
  obtain ⟨htags, hothers, hmembers⟩ := givenBack_of_decodeSample
    (writes_all (Encoder.encodeAll_eq_ok.mp hall) hmembers') hroster hgiven
      (Nat.le_of_eq hentries.length_eq)
  have hkeys := nodup_keys_arrange_sample hnodup
  rw [arrange, Keyed.keys, List.map_append] at hkeys
  have hpairs' := keys_of_fieldsGivenBack hpairs
  rw [Keyed.keys, Keyed.keys] at hpairs'
  have happend : others = (fields.filter fun field => field.2.text?.isSome) ++ pairs := by
    refine hothers.trans (Keyed.putAll_of_nodup ?_)
    rw [Keyed.keys, List.map_append, ← hpairs']
    exact hkeys
  refine ⟨?_, ?_, ?_, survive_of_givenBack hroster hmembers hentries⟩
  · rw [hcoder]
    exact ⟨hnodup, hnames, htags⟩
  · rw [hcoder]
    exact arrange_sample_perm fields
  · intro field hfield htext
    have hstructured : field ∈ Encoder.structured fields :=
      List.mem_filter.mpr ⟨hfield, by rw [htext]; rfl⟩
    refine survive_of_fieldsGivenBack hroster hpairs ?_ field hstructured htext
    intro field hfield other hother
    refine hfields.of_mem hnodup' (List.mem_filter.mp hfield).1 ?_
    rw [happend]
    exact List.mem_append_right _ hother

theorem partsSurvive_envelope (hcoder : decoder.roster.coderFor typeId = .envelope) :
    decoder.PartsSurvive typeId fields entries := by
  obtain ⟨w, ⟨path, e₀, e, e', h₀, hfill, hread, hgives⟩, halike⟩ := h
  obtain ⟨plan, member, rfl, hmember, rfl⟩ :=
    (Encoder.fill_envelope decoder.counterpart hcoder).mp hfill
  obtain ⟨child, rest, hchild, hrest, hchildren⟩ := List.forall₂_cons_left_iff.mp hread.children
  obtain rfl := List.forall₂_nil_left_iff.mp hrest
  have hdedicated := Roster.dedicated_of_coderFor hcoder (by decide)
  change Gives (decoder.readTyped path (some (decoder.resolver.tagFor typeId)) e') w at hgives
  rw [readTyped_of_resolves hresolves hdedicated, readWith, hchildren, decodeEnvelope] at hgives
  obtain ⟨found, hfound, hgives⟩ := gives_bind hgives
  obtain ⟨value, hvalue, hfound⟩ := gives_bind hfound
  cases value with
  | plan plan' =>
    obtain rfl := gives_pure hfound
    obtain rfl := gives_pure hgives
    obtain ⟨others', entries'', heq, hfields, hentries⟩ := Value.alike_object.mp halike
    obtain ⟨-, rfl, rfl⟩ := Value.object.inj heq
    have hattributes : envelopeFields e'.attributes = arrange .envelope fields := by
      rw [hread.attributes]
      exact envelopeFields_of_envelopeHead h₀ fields
    rw [hattributes] at hfields
    have hperm := hfields.perm_of_texts fun _ => text_of_mem_arrange_envelope
    refine ⟨?_, ?_, fun field hfield htext => ?_, survive_of_givenBack hroster
      (.cons ⟨path, child, ⟨_, hmember, hchild⟩, hvalue⟩ .nil) hentries⟩
    · rw [hcoder]
      trivial
    · rw [hcoder]
      exact hperm.symm
    · obtain ⟨s, hs⟩ := text_of_mem_arrange_envelope (hperm.subset hfield)
      rw [hs] at htext
      cases htext
  | _ => exact absurd hfound not_gives_refuse

end

theorem isPlan_of_givenBack (hroster : decoder.roster.Standard)
    (hresolves : decoder.resolver.Resolves treeType) {plan : Plan} {w : Value}
    (h : decoder.GivenBack (.plan plan) w) : .plan (planOf w) = w := by
  obtain ⟨path, e', hwrites, hgives⟩ := h
  obtain ⟨hname, e₀, e, hopened, hfill, hread⟩ := hwrites.filled hroster
  have htag : e'.name = decoder.resolver.tagFor treeType := hname
  rw [decodeTagged, decode_filled hroster hopened hfill hread, htag,
    readTyped_of_resolves hresolves hroster.dedicated_plan, readWith] at hgives
  obtain ⟨plan', -, hgives⟩ := gives_bind hgives
  obtain rfl := gives_pure hgives
  rfl

/-- The branch is none that is taken for a subtree, and both its parts survive. -/
def BranchSurvives (decoder : Decoder) (b : Branch) : Prop :=
  decoder.isSubtree (tagOf decoder.resolver b.element) = false ∧
    decoder.Survives b.element ∧ decoder.Survives (.plan b.children)

theorem branchesSurvive_of_givenBack (hroster : decoder.roster.Standard)
    (hresolves : decoder.resolver.Resolves treeType) {plan plan' : Plan}
    (h : List.Forall₂ decoder.BranchGivenBack plan plan')
    (halike : List.Forall₂ Value.BranchAlike plan plan') :
    ∀ b ∈ plan, decoder.BranchSurvives b := by
  induction h with
  | nil => exact List.forall_mem_nil _
  | cons hb _ ih =>
    obtain ⟨⟨helement, hchildren⟩, htail⟩ := List.forall₂_cons.mp halike
    obtain ⟨hsubtree, hgiven, below, hbelow, heq⟩ := hb
    rw [heq, isPlan_of_givenBack hroster hresolves hbelow] at hchildren
    exact List.forall_mem_cons.mpr ⟨⟨hsubtree, survives_of_givenBack hroster hgiven helement,
      survives_of_givenBack hroster hbelow hchildren⟩, ih htail⟩

theorem branchesSurvive_plan (hroster : decoder.roster.Standard)
    (hresolves : decoder.resolver.Resolves treeType) {branches : List Branch}
    (h : decoder.Survives (.plan branches)) : ∀ b ∈ branches, decoder.BranchSurvives b := by
  obtain ⟨w, ⟨path, e₀, e, e', h₀, hfill, hread, hgives⟩, halike⟩ := h
  obtain ⟨htag, children, hchildren, rfl⟩ :=
    (Encoder.fill_plan decoder.counterpart hroster).mp hfill
  obtain ⟨pairs, hpairs, rfl⟩ := Encoder.encodePlan_eq_ok.mp hchildren
  change Gives (decoder.readTyped path (some (decoder.resolver.tagFor treeType)) e') w at hgives
  rw [readTyped_of_resolves hresolves hroster.dedicated_plan, readWith] at hgives
  obtain ⟨plan', hgiven, hgives⟩ := gives_bind hgives
  obtain rfl := gives_pure hgives
  obtain ⟨others, heq, hall⟩ := Value.alike_plan.mp halike
  obtain rfl := Value.plan.inj heq
  exact branchesSurvive_of_givenBack hroster hresolves
    (branchesGivenBack_of_decodePlan hroster hresolves htag hpairs hread.children hgiven) hall

/-! ## The whole value -/

/-- If the types are told by their tags, what survives is sound. -/
theorem sound_of_survives (hroster : decoder.roster.Standard) {v : Value}
    (htraceable : v.Everywhere (Traceable decoder.resolver)) (h : decoder.Survives v) :
    v.Everywhere decoder.Sound := by
  induction v using Value.induct with
  | null => exact Value.everywhere_null.mpr ⟨trivial, trivial⟩
  | text s => exact Value.everywhere_text.mpr ⟨trivial, trivial⟩
  | object typeId fields entries ihfields ihentries =>
    obtain ⟨hhere, hfields, hentries⟩ := Value.everywhere_object.mp htraceable
    have hresolves := typed_of_survives hhere h typeId rfl
    have hparts : decoder.PartsSurvive typeId fields entries := by
      cases hcoder : decoder.roster.coderFor typeId with
      | text =>
        obtain ⟨_, ⟨_, _, _, _, -, hfill, -⟩, -⟩ := h
        exact absurd hfill (Encoder.fill_misfit decoder.counterpart (Or.inl hcoder))
      | plan =>
        obtain ⟨_, ⟨_, _, _, _, -, hfill, -⟩, -⟩ := h
        exact absurd hfill (Encoder.fill_misfit decoder.counterpart (Or.inr hcoder))
      | envelope => exact partsSurvive_envelope hroster hresolves h hcoder
      | wrapper =>
        have hwrapper : typeId = wrapperType :=
          beq_iff_eq.mp (Roster.claims_of_coderFor hcoder)
        exact absurd hwrapper (hhere typeId rfl).1
      | sample =>
        exact partsSurvive_sample hroster hresolves h
          (Roster.dedicated_of_coderFor hcoder (by decide))
      | object => exact partsSurvive_object hroster hresolves h hcoder
    refine Value.everywhere_object.mpr ⟨⟨⟨hresolves, hparts.legible, ?_⟩, hparts.kept⟩, ?_, ?_⟩
    · exact fun entry hentry => typed_of_survives (hentries entry hentry).here
        (hparts.entries entry hentry)
    · intro field hfield
      cases htext : field.2.text? with
      | none =>
        exact ihfields field hfield (hfields field hfield) (hparts.fields field hfield htext)
      | some s =>
        generalize field.2 = v at htext
        cases v with
        | text s => exact Value.everywhere_text.mpr ⟨trivial, trivial⟩
        | _ => cases htext
    · exact fun entry hentry => ihentries entry hentry (hentries entry hentry)
        (hparts.entries entry hentry)
  | plan branches ih =>
    obtain ⟨hhere, hbranches⟩ := Value.everywhere_plan.mp htraceable
    have hresolves := typed_of_survives hhere h treeType rfl
    have hsurvive := branchesSurvive_plan hroster hresolves h
    refine Value.everywhere_plan.mpr ⟨⟨⟨hresolves, fun b hb => ?_⟩, trivial⟩, fun b hb => ?_⟩
    · obtain ⟨hsubtree, helement, -⟩ := hsurvive b hb
      exact ⟨typed_of_survives (hbranches b hb).1.here helement, hsubtree⟩
    · obtain ⟨-, helement, hchildren⟩ := hsurvive b hb
      exact ⟨(ih b hb).1 (hbranches b hb).1 helement, (ih b hb).2 (hbranches b hb).2 hchildren⟩

end

end Decoder

end PlanArchive.Coding
