import PlanArchive.Proofs.Coding.Reading
import PlanArchive.Proofs.Coding.Settle
import PlanArchive.Proofs.Coding.Written
import PlanArchive.Proofs.Related

/-!
# Written values are read back

Whatever is written for a legible value is decoded to the settled value, without failure and without
a trace in the ledger (`decodeRoot_written`). The induction is on the value: each coder gives back
what it wrote as soon as the children do.
-/

namespace PlanArchive.Naming

/-- The tag of a type is a tag like any other and stands for the type. -/
def Resolver.Resolves (resolver : Resolver) (typeId : String) : Prop :=
  resolver.tagFor typeId ≠ Coding.nullTag ∧
    ∃ needsCoder, resolver.binding? (resolver.tagFor typeId) = some ⟨typeId, needsCoder⟩

end PlanArchive.Naming

namespace PlanArchive.Coding

open Markup Naming

/-- The type of the value, if it has one, is told by its tag. -/
def Typed (resolver : Resolver) (v : Value) : Prop :=
  ∀ typeId, v.typeId? = some typeId → resolver.Resolves typeId

namespace Decoder

/-- The encoder that writes what a decoder reads. -/
def counterpart (decoder : Decoder) : Encoder := ⟨decoder.resolver, decoder.roster, none⟩

/-- What a coder must find in an object to bring it back. -/
def LegibleFor (decoder : Decoder) (typeId : String) (fields : List (String × Value))
    (entries : List Value) : Coder → Prop
  | .object =>
    decoder.resolver.binding? (decoder.resolver.tagFor typeId) = some ⟨typeId, false⟩ ∧
      (Keyed.keys fields).Nodup
  | .sample =>
    (Keyed.keys fields).Nodup ∧
      (∀ field ∈ Encoder.structured fields, decoder.isSample field.1 = false) ∧
      ∀ entry ∈ entries, decoder.isSample (tagOf decoder.resolver entry) = true
  | .wrapper => decoder.delivers = false
  | _ => True

/-- What must hold of a value, apart from what is in it, for it to be read as it was written. -/
def Legible (decoder : Decoder) : Value → Prop
  | .null | .text _ => True
  | .object typeId fields entries =>
    decoder.resolver.Resolves typeId ∧
      decoder.LegibleFor typeId fields entries (decoder.roster.coderFor typeId) ∧
      ∀ entry ∈ entries, Typed decoder.resolver entry
  | .plan branches =>
    decoder.resolver.Resolves treeType ∧ ∀ b ∈ branches, Typed decoder.resolver b.element ∧
      decoder.isSubtree (tagOf decoder.resolver b.element) = false

/-- A wrapper whose records were handed over, as it stays behind in a log. -/
def Emptied (decoder : Decoder) : Value → Prop
  | .object typeId _ entries =>
    decoder.resolver.Resolves typeId ∧ decoder.roster.coderFor typeId = .wrapper ∧ entries = []
  | _ => False

/-- A log brings back legible values and emptied wrappers. -/
def Restorable (decoder : Decoder) (v : Value) : Prop := decoder.Legible v ∨ decoder.Emptied v

section

variable {decoder : Decoder}

/-- Where wrappers keep their records, an emptied wrapper is nothing special. -/
theorem legible_of_restorable (hkeeps : decoder.delivers = false) {v : Value}
    (h : decoder.Restorable v) : decoder.Legible v := by
  rcases h with h | h
  · exact h
  · cases v with
    | object typeId fields entries =>
      obtain ⟨hresolves, hcoder, rfl⟩ := h
      refine ⟨hresolves, ?_, List.forall_mem_nil _⟩
      rw [hcoder]
      exact hkeeps
    | _ => exact absurd h id

theorem typed_of_legible {v : Value} (h : decoder.Legible v) (hv : v.text? = none) :
    Typed decoder.resolver v := by
  intro typeId htype
  cases v with
  | null => cases htype
  | text s => cases hv
  | object => exact Option.some.inj htype ▸ h.1
  | plan => exact Option.some.inj htype ▸ h.1

theorem typed_of_restorable {v : Value} (h : decoder.Restorable v) (hv : v.text? = none) :
    Typed decoder.resolver v := by
  rcases h with h | h
  · exact typed_of_legible h hv
  · cases v with
    | object typeId fields entries =>
      rintro _ ⟨⟩
      exact h.1
    | _ => exact absurd h id

/-- The tag of a value of another type than a plan is not taken for a subtree. -/
theorem isSubtree_tagOf {v : Value} (htyped : Typed decoder.resolver v)
    (hnull : v.typeId? = none → decoder.isSubtree nullTag = false)
    (hplan : v.typeId? ≠ some treeType) :
    decoder.isSubtree (tagOf decoder.resolver v) = false := by
  unfold tagOf
  cases htype : v.typeId? with
  | none => exact hnull htype
  | some typeId =>
    obtain ⟨-, needsCoder, hbinding⟩ := htyped typeId htype
    have hne : typeId ≠ treeType := fun e => hplan (e ▸ htype)
    simp [isSubtree, hbinding, hne]

/-- The tag of plans is taken for a subtree. -/
theorem isSubtree_of_resolves (h : decoder.resolver.Resolves treeType) :
    decoder.isSubtree (decoder.resolver.tagFor treeType) = true := by
  obtain ⟨-, needsCoder, hbinding⟩ := h
  simp [isSubtree, hbinding]

/-- The element of a value was read. -/
def Writes (decoder : Decoder) (v : Value) (e' : Element) : Prop :=
  ∃ e, decoder.counterpart.encode v = .ok e ∧ e.ReadAs e'

/-- The element of a field was read. -/
def WritesField (decoder : Decoder) (field : String × Value) (e' : Element) : Prop :=
  ∃ e, decoder.counterpart.encodeField field = .ok e ∧ e.ReadAs e'

/-- The value comes back from where its tag names its type. -/
def ComesBack (decoder : Decoder) (v : Value) : Prop :=
  ∀ path e', decoder.Writes v e' →
    e'.name = tagOf decoder.resolver v ∧
      decoder.decode (e'.name :: path) (some e'.name) e' = pure (settle decoder.roster v)

/-- The value comes back from a field. -/
def FieldComesBack (decoder : Decoder) (field : String × Value) : Prop :=
  ∀ path e', decoder.WritesField field e' →
    e'.name = field.1 ∧
      decoder.decode (e'.name :: path) (e'.attribute? classKey) e' =
        pure (settle decoder.roster field.2)

/-- An element to be filled, with a class at most. -/
structure Opened (e : Element) : Prop where
  text : e.text = none
  children : e.children = []
  attributes : ∀ pair ∈ e.attributes, pair.1 = classKey
  nodup : (Keyed.keys e.attributes).Nodup

/-- What a coder fills in with the value is read as the settled value. -/
def FillsBack (decoder : Decoder) (v : Value) : Prop :=
  ∀ path e₀ e e', Opened e₀ → decoder.counterpart.fill e₀ v = .ok e → e.ReadAs e' →
    decoder.readTyped path (some (tagOf decoder.resolver v)) e' = pure (settle decoder.roster v)

theorem opened_value (tag : String) : Opened { name := tag } :=
  ⟨rfl, rfl, List.forall_mem_nil _, List.nodup_nil⟩

theorem opened_field (resolver : Resolver) (name : String) (v : Value) :
    Opened { name, attributes := classOf resolver v } := by
  unfold classOf
  split
  · exact opened_value name
  · exact ⟨rfl, rfl, List.forall_mem_singleton.mpr rfl, by simp [Keyed.keys]⟩

theorem attribute?_of_opened {e : Element} (h : Opened e) {key : String} (hkey : key ≠ classKey) :
    e.attribute? key = none := by
  refine Keyed.find?_eq_none_iff.mpr fun hmem => ?_
  obtain ⟨pair, hpair, rfl⟩ := List.mem_map.mp hmem
  exact hkey (h.attributes pair hpair)

/-- Filled elements carry neither marks nor references. -/
theorem decode_filled (hroster : decoder.roster.Standard) {v : Value} {e₀ e e' : Element}
    (h₀ : Opened e₀) (hfill : decoder.counterpart.fill e₀ v = .ok e) (hread : e.ReadAs e')
    (path : List String) (type : Option String) :
    decoder.decode path type e' = decoder.readTyped path type e' := by
  have hkept := Encoder.kept_fill decoder.counterpart hroster hfill
  refine decode_eq_readTyped path type ?_ ?_
  · rw [hread.attribute?, hkept.reserved _ (by decide), attribute?_of_opened h₀ (by decide)]
  · rw [hread.attribute?, hkept.reserved _ (by decide), attribute?_of_opened h₀ (by decide)]

/-- An element that was written for a value was opened under its tag and filled. -/
theorem Writes.filled (hroster : decoder.roster.Standard) {v : Value} {e' : Element}
    (h : decoder.Writes v e') :
    e'.name = tagOf decoder.resolver v ∧ ∃ e₀ e, Opened e₀ ∧
      decoder.counterpart.fill e₀ v = .ok e ∧ e.ReadAs e' := by
  obtain ⟨e, hencode, hread⟩ := h
  rw [Encoder.encode_eq, Result.bind_eq_ok] at hencode
  obtain ⟨start, hstart, hfill⟩ := hencode
  obtain ⟨-, rfl⟩ := Encoder.startValue_eq_ok.mp hstart
  have hkept := Encoder.kept_fill decoder.counterpart hroster hfill
  exact ⟨hread.name.trans hkept.name, _, e, opened_value _, hfill, hread⟩

/-- An element that was written for a field was opened under its name and filled. -/
theorem WritesField.filled (hroster : decoder.roster.Standard) {field : String × Value}
    {e' : Element} (h : decoder.WritesField field e') :
    e'.name = field.1 ∧
      e'.attribute? classKey = Keyed.find? classKey (classOf decoder.resolver field.2) ∧
      ∃ e₀ e, Opened e₀ ∧ decoder.counterpart.fill e₀ field.2 = .ok e ∧ e.ReadAs e' := by
  obtain ⟨e, hencode, hread⟩ := h
  rw [Encoder.encodeField, Result.bind_eq_ok] at hencode
  obtain ⟨start, hstart, hfill⟩ := hencode
  rw [Encoder.fillField_eq decoder.counterpart hroster] at hfill
  obtain ⟨-, -, rfl⟩ := Encoder.startField_eq_ok.mp hstart
  have hkept := Encoder.kept_fill decoder.counterpart hroster hfill
  refine ⟨hread.name.trans hkept.name,
    (hread.attribute? _).trans (hkept.reserved _ (by decide)), _, e, ?_, hfill, hread⟩
  exact opened_field _ _ _

theorem FillsBack.comesBack (hroster : decoder.roster.Standard) {v : Value}
    (h : decoder.FillsBack v) : decoder.ComesBack v := by
  intro path e' hwrites
  obtain ⟨hname, e₀, e, hopened, hfill, hread⟩ := hwrites.filled hroster
  refine ⟨hname, ?_⟩
  rw [decode_filled hroster hopened hfill hread, hname]
  exact h _ _ _ _ hopened hfill hread

theorem FillsBack.fieldComesBack (hroster : decoder.roster.Standard) {field : String × Value}
    (h : field.2.text? = none → decoder.FillsBack field.2) : decoder.FieldComesBack field := by
  intro path e' hwrites
  generalize e'.name :: path = path'
  obtain ⟨hname, hclass, e₀, e, hopened, hfill, hread⟩ := hwrites.filled hroster
  refine ⟨hname, ?_⟩
  rw [decode_filled hroster hopened hfill hread, hclass]
  obtain ⟨name, v⟩ := field
  cases v with
  | text s =>
    rw [Encoder.fill_text decoder.counterpart hroster] at hfill
    obtain rfl := Except.ok.inj hfill
    have hchildren : e'.children = [] :=
      List.forall₂_nil_left_iff.mp (hopened.children ▸ hread.children)
    show decoder.readTyped path' none e' = pure (.text s)
    simp only [readTyped, hchildren, List.isEmpty_nil, if_pos, hread.content]
    rfl
  | _ => exact h rfl _ _ _ _ hopened hfill hread

/-! ## Lists of children -/

theorem writes_all {vs : List Value} {es es' : List Element}
    (hes : List.Forall₂ (fun v e => decoder.counterpart.encode v = .ok e) vs es)
    (hread : List.Forall₂ Element.ReadAs es es') : List.Forall₂ decoder.Writes vs es' := by
  induction hes generalizing es' with
  | nil => exact List.forall₂_nil_left_iff.mp hread ▸ .nil
  | cons he _ ih =>
    obtain ⟨e', rest, he', hrest, rfl⟩ := List.forall₂_cons_left_iff.mp hread
    exact .cons ⟨_, he, he'⟩ (ih hrest)

theorem writes_fields {fields : List (String × Value)} {es es' : List Element}
    (hes : List.Forall₂ (fun field e => decoder.counterpart.encodeField field = .ok e) fields es)
    (hread : List.Forall₂ Element.ReadAs es es') :
    List.Forall₂ decoder.WritesField fields es' := by
  induction hes generalizing es' with
  | nil => exact List.forall₂_nil_left_iff.mp hread ▸ .nil
  | cons he _ ih =>
    obtain ⟨e', rest, he', hrest, rfl⟩ := List.forall₂_cons_left_iff.mp hread
    exact .cons ⟨_, he, he'⟩ (ih hrest)

theorem not_mem_keys_of_nodup {start fields : List (String × Value)} {field : String × Value}
    (h : (Keyed.keys (start ++ field :: fields)).Nodup) : field.1 ∉ Keyed.keys start := by
  intro hmem
  rw [Keyed.keys, List.map_append] at h
  exact (List.nodup_append.mp h).2.2 _ hmem _ (List.mem_cons_self ..) rfl

theorem decodeAll_of_comesBack (path : List String) {vs : List Value} {es : List Element}
    (hes : List.Forall₂ decoder.Writes vs es) (h : ∀ v ∈ vs, decoder.ComesBack v) :
    decoder.decodeAll path es = pure (settleAll decoder.roster vs) := by
  induction hes with
  | nil => rfl
  | cons he _ ih =>
    obtain ⟨hv, hvs⟩ := List.forall_mem_cons.mp h
    simp only [decodeAll, (hv path _ he).2, ih hvs, pure_bind, settleAll]

/-- Fields of new names are appended in order. -/
theorem decodeParts_of_comeBack (path : List String) {fields : List (String × Value)}
    {es : List Element} (hes : List.Forall₂ decoder.WritesField fields es)
    (h : ∀ field ∈ fields, decoder.FieldComesBack field)
    (hnames : ∀ field ∈ fields, field.1 ≠ entriesTag) {start : List (String × Value)}
    (hnodup : (Keyed.keys (start ++ fields)).Nodup) (rest : List Element) :
    decoder.decodeParts path start (es ++ rest) =
      decoder.decodeParts path (start ++ settleFields decoder.roster fields) rest := by
  induction hes generalizing start with
  | nil => simp only [List.nil_append, settleFields, List.append_nil]
  | @cons field e fields es he _ ih =>
    obtain ⟨hfield, hfields⟩ := List.forall_mem_cons.mp h
    obtain ⟨hname, hnames⟩ := List.forall_mem_cons.mp hnames
    obtain ⟨hname', hdecode⟩ := hfield path e he
    obtain ⟨name, attributes, text, children, line⟩ := e
    obtain rfl : name = field.1 := hname'
    have hnew := not_mem_keys_of_nodup hnodup
    rw [List.cons_append, decodeParts, if_neg hname]
    simp only [Element.attribute?] at hdecode
    rw [hdecode, pure_bind, Keyed.put_of_not_mem hnew,
      ih hfields hnames (by simpa [Keyed.keys] using hnodup), List.append_assoc]
    rfl

theorem decodeParts_collection {path : List String} {vs : List Value} {members : List Element}
    {es : List Element} (hall : decoder.counterpart.encodeAll vs = .ok members)
    (hes : List.Forall₂ Element.ReadAs (Encoder.collection members) es)
    (h : ∀ v ∈ vs, decoder.ComesBack v) (fields : List (String × Value)) :
    decoder.decodeParts path fields es = pure (fields, settleAll decoder.roster vs) := by
  have hvs := Encoder.encodeAll_eq_ok.mp hall
  cases members with
  | nil =>
    obtain rfl : es = [] := List.forall₂_nil_left_iff.mp hes
    obtain rfl : vs = [] := List.forall₂_nil_right_iff.mp hvs
    rfl
  | cons member members =>
    obtain ⟨child, rest, hchild, hrest, rfl⟩ := List.forall₂_cons_left_iff.mp hes
    obtain rfl := List.forall₂_nil_left_iff.mp hrest
    have hall' := decodeAll_of_comesBack path (writes_all hvs hchild.children) h
    have hname := hchild.name
    obtain ⟨name, attributes, text, children, line⟩ := child
    rw [decodeParts, if_pos hname, hall']
    simp [decodeParts]

theorem decodeSample_fields (path : List String) {fields : List (String × Value)}
    {es : List Element} (hes : List.Forall₂ decoder.WritesField fields es)
    (h : ∀ field ∈ fields, decoder.FieldComesBack field)
    (hnames : ∀ field ∈ fields, decoder.isSample field.1 = false)
    {start : List (String × Value)} (hnodup : (Keyed.keys (start ++ fields)).Nodup)
    (rest : List Element) :
    decoder.decodeSample path start (es ++ rest) =
      decoder.decodeSample path (start ++ settleFields decoder.roster fields) rest := by
  induction hes generalizing start with
  | nil => simp only [List.nil_append, settleFields, List.append_nil]
  | @cons field e fields es he _ ih =>
    obtain ⟨hfield, hfields⟩ := List.forall_mem_cons.mp h
    obtain ⟨hname, hnames⟩ := List.forall_mem_cons.mp hnames
    obtain ⟨hname', hdecode⟩ := hfield path e he
    have hnew := not_mem_keys_of_nodup hnodup
    have hsample : ¬decoder.isSample e.name = true := by
      rw [hname', hname]
      exact Bool.false_ne_true
    rw [List.cons_append, decodeSample, if_neg hsample, hdecode, pure_bind, hname',
      Keyed.put_of_not_mem hnew, ih hfields hnames (by simpa [Keyed.keys] using hnodup),
      List.append_assoc]
    rfl

theorem decodeSample_entries (path : List String) {vs : List Value} {es : List Element}
    (hes : List.Forall₂ decoder.Writes vs es) (h : ∀ v ∈ vs, decoder.ComesBack v)
    (htags : ∀ v ∈ vs, decoder.isSample (tagOf decoder.resolver v) = true)
    (fields : List (String × Value)) :
    decoder.decodeSample path fields es = pure (fields, settleAll decoder.roster vs) := by
  induction hes with
  | nil => rfl
  | @cons v e vs es he _ ih =>
    obtain ⟨hv, hvs⟩ := List.forall_mem_cons.mp h
    obtain ⟨htag, htags⟩ := List.forall_mem_cons.mp htags
    obtain ⟨hname, hdecode⟩ := hv path e he
    rw [decodeSample, if_pos (hname ▸ htag), hdecode, pure_bind, ih hvs htags, pure_bind]
    rfl

/-- Where nothing is handed over a wrapper keeps its records. -/
theorem decodeRecords_of_comesBack (hkeeps : decoder.delivers = false) (path : List String)
    {vs : List Value} {es : List Element} (hes : List.Forall₂ decoder.Writes vs es)
    (h : ∀ v ∈ vs, decoder.ComesBack v) :
    decoder.decodeRecords path es = pure (settleAll decoder.roster vs) := by
  have hdeliver : ∀ v, decoder.deliver v = pure [v] := fun v => by simp [deliver, hkeeps]
  induction hes with
  | nil => rfl
  | cons he _ ih =>
    obtain ⟨hv, hvs⟩ := List.forall_mem_cons.mp h
    simp only [decodeRecords, (hv path _ he).2, hdeliver, ih hvs, pure_bind, settleAll,
      List.singleton_append]

/-- Each element is followed by its subtree. -/
theorem decodePlan_of_comeBack (hroster : decoder.roster.Standard)
    (hresolves : decoder.resolver.Resolves treeType) (path : List String) {plan : Plan}
    {pairs : List (Element × List Element)}
    (hpairs : List.Forall₂
      (decoder.counterpart.EncodesBranch (decoder.resolver.tagFor treeType)) plan pairs)
    (htag : isName (decoder.resolver.tagFor treeType) = true) {es : List Element}
    (hes : List.Forall₂ Element.ReadAs
      (Encoder.branchElements (decoder.resolver.tagFor treeType) pairs) es)
    (h : ∀ b ∈ plan, decoder.ComesBack b.element ∧ decoder.ComesBack (.plan b.children))
    (hsubtree : ∀ b ∈ plan, decoder.isSubtree (tagOf decoder.resolver b.element) = false) :
    decoder.decodePlan path none es = pure (settlePlan decoder.roster plan) := by
  have htree := isSubtree_of_resolves hresolves
  induction hpairs generalizing es with
  | nil =>
    obtain rfl : es = [] := List.forall₂_nil_left_iff.mp hes
    rfl
  | @cons b pair plan pairs hpair _ ih =>
    obtain ⟨element, children⟩ := b
    obtain ⟨⟨helement, hbelow⟩, hrest⟩ := List.forall_mem_cons.mp h
    obtain ⟨hb, hsubtree⟩ := List.forall_mem_cons.mp hsubtree
    obtain ⟨-, hencode, hencodeBelow⟩ := hpair
    obtain ⟨e, below⟩ := pair
    rw [Encoder.branchElements_cons] at hes
    obtain ⟨first, tail, hfirst, htail, rfl⟩ := List.forall₂_cons_left_iff.mp hes
    obtain ⟨second, others, hsecond, hothers, rfl⟩ := List.forall₂_cons_left_iff.mp htail
    obtain ⟨hname, hdecode⟩ := helement path first ⟨e, hencode, hfirst⟩
    obtain ⟨hname', hdecode'⟩ := hbelow path second
      ⟨_, Encoder.encode_plan decoder.counterpart hroster htag hencodeBelow, hsecond⟩
    have hfirst' : ¬decoder.isSubtree first.name = true := by
      rw [hname, hb]
      exact Bool.false_ne_true
    have hsecond' : decoder.isSubtree second.name = true := by rw [hname']; exact htree
    rw [decodePlan, if_neg hfirst', hdecode, pure_bind, decodePlan.eq_def]
    simp only [if_pos hsecond', hdecode', ih hothers hrest hsubtree, pure_bind]
    rfl

/-! ## Attributes -/

theorem map_textFields (fields : List (String × Value)) :
    (Encoder.textFields fields).map (fun pair => (pair.1, Value.text pair.2)) =
      fields.filter fun field => field.2.text?.isSome := by
  induction fields with
  | nil => rfl
  | cons field fields ih =>
    obtain ⟨name, v⟩ := field
    cases v with
    | text s => exact congrArg (List.cons (name, Value.text s)) ih
    | _ => exact ih

theorem keys_textFields (fields : List (String × Value)) :
    Keyed.keys (Encoder.textFields fields) =
      Keyed.keys (fields.filter fun field => field.2.text?.isSome) := by
  rw [← map_textFields, Keyed.keys, Keyed.keys, List.map_map]
  rfl

theorem nodup_keys_filter {α : Type} {fields : List (String × α)}
    (h : (Keyed.keys fields).Nodup) (p : String × α → Bool) :
    (Keyed.keys (fields.filter p)).Nodup :=
  h.sublist (List.filter_sublist.map Prod.fst)

/-- The texts of a sample are its attributes, apart from a class. -/
theorem sampleFields_of_sampleHead {fields : List (String × Value)} {e₀ e : Element}
    (h₀ : Opened e₀) (h : decoder.counterpart.sampleHead fields e₀ = .ok e)
    (hnodup : (Keyed.keys fields).Nodup) :
    sampleFields e.attributes = fields.filter fun field => field.2.text?.isSome := by
  simp only [Encoder.sampleHead, Result.bind_eq_ok] at h
  obtain ⟨e₁, htexts, hevent⟩ := h
  obtain rfl : e₁ = e := Except.ok.inj hevent
  obtain ⟨hkeys, rfl⟩ := Encoder.setAll_eq_ok.mp htexts
  have hnodup' : (Keyed.keys (Encoder.textFields fields)).Nodup := by
    rw [keys_textFields]
    exact nodup_keys_filter hnodup _
  have happend : Keyed.putAll e₀.attributes (Encoder.textFields fields) =
      e₀.attributes ++ Encoder.textFields fields := by
    refine Keyed.putAll_of_nodup ?_
    rw [Keyed.keys, List.map_append]
    refine List.nodup_append.mpr ⟨h₀.nodup, hnodup', ?_⟩
    rintro key hkey _ hkey' rfl
    obtain ⟨pair, hpair, rfl⟩ := List.mem_map.mp hkey
    obtain ⟨pair', hpair', heq⟩ := List.mem_map.mp hkey'
    have hreserved := (hkeys pair' hpair').2
    rw [heq, h₀.attributes pair hpair] at hreserved
    cases hreserved
  have hclass : e₀.attributes.filter (fun pair => !isReserved pair.1) = [] :=
    List.filter_eq_nil_iff.mpr fun pair hpair => by
      rw [h₀.attributes pair hpair]
      decide
  have hothers : (Encoder.textFields fields).filter (fun pair => !isReserved pair.1) =
      Encoder.textFields fields :=
    List.filter_eq_self.mpr fun pair hpair => by simp [(hkeys pair hpair).2]
  simp only [sampleFields, happend, List.filter_append, hclass, hothers, List.nil_append]
  rw [map_textFields]
  exact Keyed.ofPairs_of_nodup (nodup_keys_filter hnodup _)

theorem attribute?_elim (o : Option String) (e : Element) (key k : String) :
    (o.elim e (e.setAttribute key)).attribute? k =
      if key = k then o.or (e.attribute? k) else e.attribute? k := by
  cases o with
  | none => simp
  | some value => simp [Element.attribute?, Element.setAttribute, Keyed.find?_put]

theorem envelopeFields_of_envelopeHead {e₀ : Element} (h₀ : Opened e₀)
    (fields : List (String × Value)) :
    envelopeFields (Encoder.envelopeHead fields e₀).attributes = arrange .envelope fields := by
  have hnone : ∀ key ∈ [versionKey, propertiesKey, applicationKey], e₀.attribute? key = none := by
    simp only [List.forall_mem_cons]
    exact ⟨attribute?_of_opened h₀ (by decide), attribute?_of_opened h₀ (by decide),
      attribute?_of_opened h₀ (by decide), List.forall_mem_nil _⟩
  have hfind : ∀ key ∈ [versionKey, propertiesKey, applicationKey],
      (Encoder.envelopeHead fields e₀).attribute? key = Value.fieldText? fields key := by
    intro key hkey
    have hkey' := hnone key hkey
    simp only [Encoder.envelopeHead, List.foldl_cons, List.foldl_nil, attribute?_elim, hkey']
    simp only [List.mem_cons, List.not_mem_nil, or_false] at hkey
    rcases hkey with rfl | rfl | rfl <;> simp [versionKey, propertiesKey, applicationKey]
  exact List.filterMap_congr fun key hkey => congrArg _ (hfind key hkey)

theorem wrapperFields_of_wrapperHead (fields : List (String × Value)) (e₀ : Element) :
    wrapperFields (Encoder.wrapperHead fields e₀).attributes = arrange .wrapper fields := by
  rw [wrapperFields, Encoder.wrapperHead, Element.setAttribute, Keyed.find?_put, if_pos rfl]
  rfl

/-! ## Values -/

theorem readTyped_of_resolves {path : List String} {typeId : String} {e : Element}
    (h : decoder.resolver.Resolves typeId) {c : Coder}
    (hc : decoder.roster.dedicated? typeId = some c) :
    decoder.readTyped path (some (decoder.resolver.tagFor typeId)) e =
      decoder.readWith path c typeId e := by
  obtain ⟨htag, needsCoder, hbinding⟩ := h
  rw [readTyped_of_binding htag hbinding]
  exact readAs_of_dedicated ⟨typeId, needsCoder⟩ hc

theorem fillsBack_null : decoder.FillsBack .null := by
  intro path e₀ e e' _ _ _
  simp [readTyped, tagOf, Value.typeId?, settle]

theorem fillsBack_text (hroster : decoder.roster.Standard) (s : String)
    (h : Typed decoder.resolver (.text s)) : decoder.FillsBack (.text s) := by
  intro path e₀ e e' h₀ hfill hread
  rw [Encoder.fill_text decoder.counterpart hroster] at hfill
  obtain rfl := Except.ok.inj hfill
  have hchildren : e'.children = [] :=
    List.forall₂_nil_left_iff.mp (h₀.children ▸ hread.children)
  refine (readTyped_of_resolves (h textType rfl) hroster.dedicated_text).trans ?_
  simp only [readWith, hchildren, List.isEmpty_nil, if_pos, hread.content]
  rfl

theorem fillsBack_plan (hroster : decoder.roster.Standard) {branches : List Branch}
    (hlegible : decoder.Legible (.plan branches))
    (h : ∀ b ∈ branches, decoder.ComesBack b.element ∧ decoder.ComesBack (.plan b.children)) :
    decoder.FillsBack (.plan branches) := by
  intro path e₀ e e' h₀ hfill hread
  obtain ⟨hresolves, hbranches⟩ := hlegible
  obtain ⟨htag, children, hchildren, rfl⟩ :=
    (Encoder.fill_plan decoder.counterpart hroster).mp hfill
  obtain ⟨pairs, hpairs, rfl⟩ := Encoder.encodePlan_eq_ok.mp hchildren
  refine (readTyped_of_resolves hresolves hroster.dedicated_plan).trans ?_
  have hplan := decodePlan_of_comeBack hroster hresolves path hpairs htag hread.children
    h fun b hb => (hbranches b hb).2
  simp only [readWith, hplan, pure_bind, settle]

/-- In a sample the texts come first, but no name comes twice. -/
theorem nodup_keys_arrange_sample {fields : List (String × Value)}
    (h : (Keyed.keys fields).Nodup) : (Keyed.keys (arrange .sample fields)).Nodup :=
  (((arrange_sample_perm fields).map Prod.fst).nodup_iff).2 h

theorem fillsBack_sample {typeId : String} {fields : List (String × Value)}
    {entries : List Value} (hcoder : decoder.roster.dedicated? typeId = some .sample)
    (hlegible : decoder.Legible (.object typeId fields entries))
    (hfields : ∀ field ∈ fields, decoder.FieldComesBack field)
    (hentries : ∀ entry ∈ entries, decoder.ComesBack entry) :
    decoder.FillsBack (.object typeId fields entries) := by
  intro path e₀ e e' h₀ hfill hread
  have hcoder' := Roster.coderFor_of_dedicated hcoder
  obtain ⟨hresolves, hsample, -⟩ := hlegible
  rw [hcoder'] at hsample
  obtain ⟨hnodup, hnames, htags⟩ := hsample
  obtain ⟨head, parts, members, hhead, hparts, hall, rfl⟩ :=
    (Encoder.fill_sample decoder.counterpart hcoder').mp hfill
  obtain ⟨parts', members', hchildren, hparts', hmembers'⟩ := forall₂_append_left hread.children
  refine (readTyped_of_resolves hresolves hcoder).trans ?_
  have hstart : sampleFields e'.attributes = fields.filter fun field => field.2.text?.isSome := by
    rw [hread.attributes]
    show sampleFields head.attributes = _
    exact sampleFields_of_sampleHead h₀ hhead hnodup
  have hwrites := writes_fields (Encoder.encodeStructured_eq_ok.mp hparts) hparts'
  have hstructured : ∀ field ∈ Encoder.structured fields, decoder.FieldComesBack field :=
    fun field hfield => hfields field (List.mem_filter.mp hfield).1
  have hwrites' := writes_all (Encoder.encodeAll_eq_ok.mp hall) hmembers'
  simp only [readWith, hchildren, hstart,
    decodeSample_fields path hwrites hstructured hnames (nodup_keys_arrange_sample hnodup),
    decodeSample_entries path hwrites' hentries htags, pure_bind, settle, hcoder', arrange,
    texts_settleFields, structured_settleFields]

theorem fillsBack_object (hroster : decoder.roster.Standard) {typeId : String}
    {fields : List (String × Value)} {entries : List Value}
    (hlegible : decoder.Legible (.object typeId fields entries))
    (hfields : ∀ field ∈ fields, decoder.FieldComesBack field)
    (hentries : ∀ entry ∈ entries, decoder.ComesBack entry) :
    decoder.FillsBack (.object typeId fields entries) := by
  intro path e₀ e e' h₀ hfill hread
  cases hcoder : decoder.roster.coderFor typeId with
  | text => exact absurd hfill (Encoder.fill_misfit decoder.counterpart (Or.inl hcoder))
  | plan => exact absurd hfill (Encoder.fill_misfit decoder.counterpart (Or.inr hcoder))
  | envelope =>
    have hdedicated := Roster.dedicated_of_coderFor hcoder (by decide)
    obtain ⟨plan, member, rfl, hmember, rfl⟩ :=
      (Encoder.fill_envelope decoder.counterpart hcoder).mp hfill
    obtain ⟨child, rest, hchild, hrest, hchildren⟩ :=
      List.forall₂_cons_left_iff.mp hread.children
    obtain rfl := List.forall₂_nil_left_iff.mp hrest
    refine (readTyped_of_resolves hlegible.1 hdedicated).trans ?_
    obtain ⟨-, hdecode⟩ := hentries _ (List.mem_cons_self ..) path child ⟨_, hmember, hchild⟩
    have hplan : decoder.decodeEnvelope path none e'.children =
        pure (some (settlePlan decoder.roster plan)) := by
      rw [hchildren, decodeEnvelope, hdecode, pure_bind]
      rfl
    obtain rfl : typeId = envelopeType := beq_iff_eq.mp (Roster.claims_of_coderFor hcoder)
    have hattributes : envelopeFields e'.attributes = arrange .envelope fields := by
      rw [hread.attributes]
      exact envelopeFields_of_envelopeHead h₀ fields
    simp only [readWith, hplan, pure_bind, hattributes, settle, hcoder,
      arrange_envelope_settleFields]
    rfl
  | wrapper =>
    have hdedicated := Roster.dedicated_of_coderFor hcoder (by decide)
    obtain ⟨members, hall, rfl⟩ :=
      (Encoder.fill_wrapper decoder.counterpart hcoder).mp hfill
    have hkeeps : decoder.delivers = false := by
      have hfor := hlegible.2.1
      rwa [hcoder] at hfor
    refine (readTyped_of_resolves hlegible.1 hdedicated).trans ?_
    have hrecords := decodeRecords_of_comesBack hkeeps path
      (writes_all (Encoder.encodeAll_eq_ok.mp hall) hread.children) hentries
    have hattributes : wrapperFields e'.attributes = arrange .wrapper fields := by
      rw [hread.attributes]
      exact wrapperFields_of_wrapperHead fields e₀
    simp only [readWith, hrecords, pure_bind, hattributes, settle, hcoder,
      arrange_wrapper_settleFields]
  | sample =>
    exact fillsBack_sample (Roster.dedicated_of_coderFor hcoder (by decide)) hlegible hfields
      hentries path e₀ e e' h₀ hfill hread
  | object =>
    obtain ⟨parts, members, hparts, hall, rfl⟩ :=
      (Encoder.fill_object decoder.counterpart hcoder).mp hfill
    obtain ⟨hnames, hparts⟩ := Encoder.encodeFields_eq_ok.mp hparts
    obtain ⟨⟨htag, -⟩, hfor, -⟩ := hlegible
    rw [hcoder] at hfor
    obtain ⟨hbinding, hnodup⟩ := hfor
    obtain ⟨parts', members', hchildren, hparts', hmembers'⟩ :=
      forall₂_append_left hread.children
    have hcontent : e'.content = "" := by
      rw [hread.content]
      show e₀.text.getD "" = ""
      rw [h₀.text]
      rfl
    have hread' : decoder.readTyped path (some (decoder.resolver.tagFor typeId)) e' =
        decoder.readWith path .object typeId e' := by
      rw [readTyped_of_binding htag hbinding]
      exact readAs_of_plain ⟨typeId, false⟩
        (hroster.coderFor_object_iff.mp hcoder) rfl
    refine hread'.trans ?_
    have hnodup' : (Keyed.keys ([] ++ fields)).Nodup := hnodup
    have hfields' := decodeParts_of_comeBack path (writes_fields hparts hparts') hfields hnames
      hnodup' members'
    simp only [readWith, hcontent, hchildren, hfields', List.nil_append,
      decodeParts_collection hall hmembers' hentries, settle, hcoder, arrange_object]
    simp [Text.allBlank]

/-- An emptied wrapper is written without records, and so read without any. -/
theorem fillsBack_emptied {v : Value} (h : decoder.Emptied v) : decoder.FillsBack v := by
  intro path e₀ e e' h₀ hfill hread
  cases v with
  | object typeId fields entries =>
    obtain ⟨hresolves, hcoder, rfl⟩ := h
    obtain ⟨members, hall, rfl⟩ := (Encoder.fill_wrapper decoder.counterpart hcoder).mp hfill
    obtain rfl := List.forall₂_nil_left_iff.mp (Encoder.encodeAll_eq_ok.mp hall)
    have hchildren : e'.children = [] := List.forall₂_nil_left_iff.mp hread.children
    have hattributes : wrapperFields e'.attributes = arrange .wrapper fields := by
      rw [hread.attributes]
      exact wrapperFields_of_wrapperHead fields e₀
    have hdedicated := Roster.dedicated_of_coderFor hcoder (by decide)
    refine (readTyped_of_resolves hresolves hdedicated).trans ?_
    simp only [readWith, hchildren, decodeRecords, pure_bind, hattributes, settle, hcoder,
      arrange_wrapper_settleFields]
    rfl
  | _ => exact absurd h id

/-! ## The whole value -/

/-- The value comes back in a field, and where its tag names its type. -/
def Returns (decoder : Decoder) (v : Value) : Prop :=
  (Typed decoder.resolver v → decoder.ComesBack v) ∧ ∀ name, decoder.FieldComesBack (name, v)

theorem returns_of_fillsBack (hroster : decoder.roster.Standard) {v : Value}
    (hv : decoder.Restorable v) (h : Typed decoder.resolver v → decoder.FillsBack v) :
    decoder.Returns v :=
  ⟨fun htyped => (h htyped).comesBack hroster, fun _ =>
    FillsBack.fieldComesBack hroster fun htext => h (typed_of_restorable hv htext)⟩

theorem returns_of_restorable (hroster : decoder.roster.Standard) {v : Value}
    (h : v.Everywhere decoder.Restorable) : decoder.Returns v := by
  induction v using Value.induct with
  | null => exact returns_of_fillsBack hroster h.here fun _ => fillsBack_null
  | text s => exact returns_of_fillsBack hroster h.here (fillsBack_text hroster s)
  | object typeId fields entries ihfields ihentries =>
    obtain ⟨hhere, hfields, hentries⟩ := Value.everywhere_object.mp h
    refine returns_of_fillsBack hroster hhere fun _ => ?_
    rcases hhere with hlegible | hemptied
    · refine fillsBack_object hroster hlegible ?_ ?_
      · intro field hfield
        exact (ihfields field hfield (hfields field hfield)).2 field.1
      · exact fun entry hentry => (ihentries entry hentry (hentries entry hentry)).1
          (hlegible.2.2 entry hentry)
    · exact fillsBack_emptied hemptied
  | plan branches ih =>
    obtain ⟨hhere, hbranches⟩ := Value.everywhere_plan.mp h
    have hlegible : decoder.Legible (.plan branches) := hhere.resolve_right id
    refine returns_of_fillsBack hroster hhere fun _ =>
      fillsBack_plan hroster hlegible fun b hb => ?_
    obtain ⟨ihelement, ihchildren⟩ := ih b hb
    obtain ⟨helement, hchildren⟩ := hbranches b hb
    exact ⟨(ihelement helement).1 (hlegible.2 b hb).1,
      (ihchildren hchildren).1 (typed_of_restorable hchildren.here rfl)⟩

variable (decoder) in
/-- A restorable value whose type is told by its tag is decoded from what it was written to. -/
theorem decodeRoot_restorable (hroster : decoder.roster.Standard) {v : Value}
    (h : v.Everywhere decoder.Restorable) (htyped : Typed decoder.resolver v) {e e' : Element}
    (hencode : decoder.counterpart.encode v = .ok e) (hread : e.ReadAs e') :
    decoder.decodeRoot e' = (.ok (settle decoder.roster v), {}) := by
  obtain ⟨-, hdecode⟩ := (returns_of_restorable hroster h).1 htyped [] e' ⟨e, hencode, hread⟩
  rw [decodeRoot, hdecode]
  rfl

variable (decoder) in
/-- A legible value that is not a text is decoded from what it was written to. -/
theorem decodeRoot_written (hroster : decoder.roster.Standard) {v : Value}
    (h : v.Everywhere decoder.Legible) (hv : v.text? = none) {e e' : Element}
    (hencode : decoder.counterpart.encode v = .ok e) (hread : e.ReadAs e') :
    decoder.decodeRoot e' = (.ok (settle decoder.roster v), {}) :=
  decodeRoot_restorable decoder hroster (h.mono fun _ => Or.inl) (typed_of_legible h.here hv)
    hencode hread

end

end Decoder

end PlanArchive.Coding
