import PlanArchive.Proofs.Archive.LogAppend
import PlanArchive.Proofs.Archive.RecordRoundTrip

/-!
# Wrapped logs

Records that were saved one by one, with a wrapper opened in front of them and closed behind them,
are delivered as each would be alone (`loadRecords_wrapped`).
-/

namespace PlanArchive

open Coding Markup Naming

/-- Any other place. -/
def Coding.Decoder.Move.anywhere : Decoder.Move where
  path := fun _ _ => True
  line := fun _ _ => True
  failure := fun _ _ => True
  cons := fun _ _ => trivial
  malformed := fun _ _ _ => trivial
  unknownType := fun _ _ _ => trivial

/-- Elements that differ in their lines only. -/
theorem Markup.Element.relined_of_unlined {e e' : Element} (h : e.unlined = e'.unlined) :
    e.Relined Decoder.Move.anywhere.line e' := by
  induction e using Element.induct generalizing e' with
  | step e ih =>
    obtain ⟨name, attributes, text, children, line⟩ := e
    obtain ⟨name', attributes', text', children', line'⟩ := e'
    rw [unlined_mk, unlined_mk, Element.mk.injEq] at h
    obtain ⟨rfl, rfl, rfl, hchildren, -⟩ := h
    rw [← List.forall₂_eq_eq_eq, List.forall₂_map_left_iff, List.forall₂_map_right_iff] at hchildren
    refine .mk trivial ?_
    induction hchildren with
    | nil => exact .nil
    | cons hchild _ ihrest =>
      obtain ⟨ihchild, ih⟩ := List.forall_mem_cons.mp ih
      exact .cons (ihchild.1 hchild) (ihrest ih)

namespace Archive

/-! ## The records of a wrapper -/

section

variable {decoder : Decoder} (hmode : decoder.ReadsIn .log)

include hmode

/-- In a log the type of a value is the one that the tag stands for. -/
theorem typeId?_of_gives {path : List String} {tag : String} {e : Element} {v : Value}
    (h : Gives (decoder.decode path (some tag) e) v) {typeId : String}
    (htype : v.typeId? = some typeId) :
    ∃ binding, decoder.resolver.binding? tag = some binding ∧ binding.typeId = typeId := by
  simp only [Decoder.decode_eq, Decoder.resolve_in_log hmode.mode_eq] at h
  split at h
  · exact absurd h not_gives_refuse
  · obtain ⟨value, hread, h⟩ := gives_bind h
    obtain ⟨_, -, h⟩ := gives_bind h
    obtain rfl := gives_pure h
    obtain ⟨⟨⟩, -⟩ | ⟨-, rfl⟩ | ⟨tag, binding, heq, hbinding, -, hread⟩ :=
      Decoder.gives_readTyped hread
    · cases htype
    · obtain rfl := Option.some.inj heq
      have hclaims := decoder.roster.claims_coderFor binding.typeId
      rw [Decoder.typeId?_of_readWith hclaims hread] at htype
      exact ⟨binding, hbinding, Option.some.inj htype⟩

/-- In a wrapper an element hands over what it delivers alone, but for its own value. -/
theorem exists_hands_of_recordsOf {e e' : Element} (hunlined : e.unlined = e'.unlined)
    (htag : ∀ binding, decoder.resolver.binding? e.name = some binding →
      binding.typeId ≠ wrapperType) {delivered : List Value}
    (h : recordsOf decoder [e] = (delivered, .ok ())) (path : List String) :
    ∃ value out, Hands (decoder.decodeTagged path e') (.ok value) out ∧
      delivered = out ++ [value] := by
  have htracks : decoder.Tracks .anywhere e := Decoder.tracks hmode e
  have hfollows : Follows _ (decoder.decodeTagged [] e) (decoder.decodeTagged path e') :=
    htracks.tagged trivial (Element.relined_of_unlined hunlined)
  obtain ⟨result, result', out, hrun, hrun', hagree⟩ := hfollows
  have hroot : decoder.decodeRoot e = (result, { delivered := out }) := hrun {}
  cases hagree with
  | error _ =>
    rw [recordsOf, hroot] at h
    cases congrArg Prod.snd h
  | ok value =>
    have hwrapper : value.typeId? ≠ some wrapperType := by
      intro htype
      obtain ⟨binding, hbinding, hwrapper⟩ := typeId?_of_gives hmode ⟨{}, _, hroot⟩ htype
      exact htag binding hbinding hwrapper
    rw [recordsOf_of_decodeRoot hroot hwrapper] at h
    exact ⟨value, out, hrun', (congrArg Prod.fst h).symm⟩

/-- A wrapper hands over its records one after another, and keeps none. -/
theorem hands_decodeRecords {path : List String} {children : List Element}
    {delivered : List (List Value)}
    (h : List.Forall₂ (fun child records => ∃ value out,
      Hands (decoder.decodeTagged path child) (.ok value) out ∧ records = out ++ [value])
      children delivered) :
    Hands (decoder.decodeRecords path children) (.ok []) delivered.flatten := by
  induction h with
  | nil => exact hands_pure []
  | cons hchild _ ih =>
    obtain ⟨value, out, hrun, rfl⟩ := hchild
    rw [List.flatten_cons, List.append_assoc, ← List.append_nil (List.flatten _)]
    unfold Decoder.decodeRecords
    refine hrun.bind ((Decoder.hands_deliver hmode.delivers value).bind ?_)
    exact ih.bind (hands_pure _)

end

/-- A record that was saved with what is known about it, under no tag of a wrapper, and what it
delivers when it is loaded alone. -/
structure Fragment (archive : Archive) where
  value : Value
  event : Option Event
  bytes : Bytes
  delivered : List Value
  saved : archive.record value event = .ok bytes
  loaded : archive.loadRecords ⟨bytes, none⟩ = (delivered, .ok ())
  no_wrapper : ∀ root ∈ archive.elementsIn ⟨bytes, none⟩, ∀ binding,
    archive.resolver.binding? root.name = some binding → binding.typeId ≠ wrapperType

section

variable {archive : Archive}

/-- The text of a fragment is that of one element, which delivers the records of the fragment. -/
def Fragment.Has (fragment : archive.Fragment) (e : Element) : Prop :=
  fragment.bytes = Text.Utf8.encode (e.render ++ ['\n']) ∧ ∃ e', e.ReadAs e' ∧
    recordsOf (archive.decoder .log) [e'] = (fragment.delivered, .ok ()) ∧
      ∀ binding, archive.resolver.binding? e'.name = some binding → binding.typeId ≠ wrapperType

section

variable (hcharset : archive.charset = .ok .utf8)

include hcharset

theorem Fragment.exists_has (fragment : archive.Fragment) :
    ∃ e, Element.WellFormed e ∧ fragment.Has e := by
  obtain ⟨e, hencode, hbytes⟩ := (record_eq_ok hcharset).mp fragment.saved
  have hwell := Encoder.wellFormed_encode (archive.encoder fragment.event) hencode
  obtain ⟨e', hread, helements⟩ := elementsOf_record hwell
  rw [← hbytes] at helements
  have hloaded := fragment.loaded
  rw [loadRecords_of_elementsOf hcharset helements] at hloaded
  refine ⟨e, hwell, hbytes, e', hread, hloaded, fragment.no_wrapper e' ?_⟩
  rw [elementsIn_of_elementsOf hcharset helements]
  exact List.mem_singleton.mpr rfl

theorem exists_elements_of_fragments (fragments : List archive.Fragment) :
    ∃ es : List Element, (∀ e ∈ es, e.WellFormed) ∧ List.Forall₂ Fragment.Has fragments es ∧
      fragments.flatMap (·.bytes) =
        Text.Utf8.encode (es.flatMap fun e => e.render ++ ['\n']) := by
  induction fragments with
  | nil => exact ⟨[], List.forall_mem_nil _, .nil, rfl⟩
  | cons fragment fragments ih =>
    obtain ⟨e, hwell, hhas⟩ := fragment.exists_has hcharset
    obtain ⟨es, hwells, hall, hbytes⟩ := ih
    refine ⟨e :: es, List.forall_mem_cons.mpr ⟨hwell, hwells⟩, .cons hhas hall, ?_⟩
    rw [List.flatMap_cons, List.flatMap_cons, Text.Utf8.encode_append, ← hbytes, hhas.1]

end

/-- Read back as the children of a wrapper, the elements hand over what the fragments deliver. -/
theorem hands_fragments {fragments : List archive.Fragment} {es children : List Element}
    (hhas : List.Forall₂ Fragment.Has fragments es)
    (hread : List.Forall₂ Element.ReadAs es children) (path : List String) :
    Hands ((archive.decoder .log).decodeRecords path children) (.ok [])
      (fragments.flatMap (·.delivered)) := by
  rw [List.flatMap_def]
  apply hands_decodeRecords (archive.decoder_readsIn .log)
  induction hhas generalizing children with
  | nil =>
    cases hread
    exact .nil
  | cons hfirst _ ih =>
    obtain ⟨-, e', hread', hloaded, htag⟩ := hfirst
    cases hread with
    | cons hchild hrest =>
      have hunlined : e'.unlined = _ := hread'.trans hchild.symm
      have hlog := archive.decoder_readsIn .log
      exact .cons (exists_hands_of_recordsOf hlog hunlined htag hloaded path) (ih hrest)

/-! ## The wrapper -/

/-- What opens a wrapped log. -/
def openingText (tag : String) : List Char :=
  '<' :: '?' :: (declaration ++ '?' :: '>' :: '\n' :: '<' ::
    (printHead tag [(versionKey, formatVersion)] ++ ['>', '\n']))

/-- What closes a wrapped log. -/
def closingText (tag : String) : List Char := '<' :: '/' :: (tag.toList ++ ['>', '\n'])

section

variable (hcharset : archive.charset = .ok .utf8)
  (hname : isName (archive.resolver.tagFor wrapperType) = true)

include hcharset hname

theorem logStart_eq : archive.logStart =
    .ok (Text.Utf8.encode (openingText (archive.resolver.tagFor wrapperType))) := by
  have htag : archive.wrapperTag = .ok (archive.resolver.tagFor wrapperType) := if_pos hname
  have htext : (Charset.header .utf8).toList ++
      s!"\n<{archive.resolver.tagFor wrapperType} version=\"".toList ++ formatVersion.toList ++
        "\">\n".toList = openingText (archive.resolver.tagFor wrapperType) := by
    have hopening : s!"\n<{archive.resolver.tagFor wrapperType} version=\"".toList =
        '\n' :: '<' :: ((archive.resolver.tagFor wrapperType).toList ++ " version=\"".toList) := by
      simp only [String.toList_append, List.append_assoc]
      rfl
    have hversion : printAttribute (versionKey, formatVersion) =
        " version=\"".toList ++ (formatVersion.toList ++ ['\x22']) := rfl
    have hclosing : "\">\n".toList = ['\x22', '>', '\n'] := rfl
    rw [header_utf8, hopening, hclosing, openingText, printHead, List.flatMap_singleton, hversion]
    simp only [List.cons_append, List.append_assoc, List.nil_append]
  rw [logStart, hcharset, htag]
  exact congrArg (fun text => Except.ok (Text.Utf8.encode text)) htext

theorem logEnd_eq : archive.logEnd =
    .ok (Text.Utf8.encode (closingText (archive.resolver.tagFor wrapperType))) := by
  have htag : archive.wrapperTag = .ok (archive.resolver.tagFor wrapperType) := if_pos hname
  have htext : s!"</{archive.resolver.tagFor wrapperType}>\n".toList =
      closingText (archive.resolver.tagFor wrapperType) := by
    simp only [String.toList_append, List.append_assoc]
    rfl
  rw [logEnd, hcharset, htag]
  exact congrArg (fun text => Except.ok (Text.Utf8.encode text)) htext

end

/-- Elements between the tags of a wrapper are read back as its children. -/
theorem elementsOf_wrapped {tag : String} (hname : isName tag = true) {es : List Element}
    (h : ∀ e ∈ es, e.WellFormed) :
    ∃ root, root.name = tag ∧ root.attributes = [(versionKey, formatVersion)] ∧
      List.Forall₂ Element.ReadAs es root.children ∧
        elementsOf .utf8 ⟨Text.Utf8.encode (openingText tag ++
          es.flatMap (fun e => e.render ++ ['\n']) ++ closingText tag), none⟩ = .ok [root] := by
  have hnames : ∀ pair ∈ [(versionKey, formatVersion)], isName pair.1 = true :=
    List.forall_mem_singleton.mpr (by decide)
  obtain ⟨root, hroot, hattributes, hchildren, hread⟩ :=
    readElements_lines h not_mem_declaration hname hnames (by decide)
  refine ⟨root, hroot, hattributes, hchildren, ?_⟩
  simp only [openingText, closingText, List.cons_append, List.append_assoc, List.nil_append]
  rw [elementsOf_utf8 (by decide), hread]
  rfl

/-- What the wrapper of a log hands over is all that the log delivers. -/
theorem recordsOf_wrapper (hroster : archive.roster.Standard)
    (hresolves : archive.resolver.Resolves wrapperType) {root : Element}
    (hroot : root.name = archive.resolver.tagFor wrapperType)
    (hreference : root.attribute? referenceKey = none) (hid : root.attribute? idKey = none)
    {delivered : List Value}
    (h : Hands ((archive.decoder .log).decodeRecords [root.name] root.children) (.ok [])
      delivered) :
    recordsOf (archive.decoder .log) [root] = (delivered, .ok ()) := by
  obtain ⟨htag, needsCoder, hbinding⟩ := hresolves
  have hdedicated : archive.roster.dedicated? wrapperType = some .wrapper :=
    hroster.dedicated_eq (hroster.basic _ (by decide)) (by decide)
  have hwrapper : Hands ((archive.decoder .log).decode [root.name] (some root.name) root)
      (.ok (.object wrapperType (Decoder.wrapperFields root.attributes) [])) delivered := by
    rw [Decoder.decode_eq_readTyped _ _ hreference hid, hroot,
      Decoder.readTyped_of_binding htag hbinding, Decoder.readAs_of_dedicated _ hdedicated,
      ← hroot, ← List.append_nil delivered]
    exact h.bind (hands_pure _)
  have hdecode : (archive.decoder .log).decodeRoot root =
      (.ok (.object wrapperType (Decoder.wrapperFields root.attributes) []),
        { delivered := delivered }) := hwrapper {}
  rw [recordsOf, hdecode]
  simp [recordsOf, Value.typeId?]

/-- Saved records in a wrapper that is opened and closed around them are delivered as each is
alone, in order. -/
theorem loadRecords_wrapped (archive : Archive) (hroster : archive.roster.Standard)
    (hcharset : archive.charset = .ok .utf8)
    (hname : isName (archive.resolver.tagFor wrapperType) = true)
    (hresolves : archive.resolver.Resolves wrapperType) (fragments : List archive.Fragment) :
    ∃ start stop, archive.logStart = .ok start ∧ archive.logEnd = .ok stop ∧
      archive.loadRecords ⟨start ++ fragments.flatMap (·.bytes) ++ stop, none⟩ =
        (fragments.flatMap (·.delivered), .ok ()) ∧
      archive.countRecords ⟨start ++ fragments.flatMap (·.bytes) ++ stop, none⟩ =
        .ok (fragments.flatMap (·.delivered)).length := by
  obtain ⟨es, hwell, hhas, hbytes⟩ := exists_elements_of_fragments hcharset fragments
  obtain ⟨root, hroot, hattributes, hchildren, helements⟩ := elementsOf_wrapped hname hwell
  have hreference : root.attribute? referenceKey = none := by
    rw [Element.attribute?, hattributes]
    decide
  have hid : root.attribute? idKey = none := by
    rw [Element.attribute?, hattributes]
    decide
  rw [Text.Utf8.encode_append, Text.Utf8.encode_append, ← hbytes] at helements
  have hload := loadRecords_of_elementsOf hcharset helements
  rw [recordsOf_wrapper hroster hresolves hroot hreference hid
    (hands_fragments hhas hchildren _)] at hload
  refine ⟨_, _, logStart_eq hcharset hname, logEnd_eq hcharset hname, hload, ?_⟩
  rw [countRecords_eq, hload]
  rfl

end

/-! ## A wrapped log of a small archive -/

/-- A saved record with the host that it was taken on. -/
def noonLog : Bytes := utf8 "<sample lb=\"home\" hn=\"here\"/>\n"

set_option maxRecDepth 20000 in
theorem elementsOf_noonLog :
    elementsOf .utf8 ⟨noonLog, none⟩ =
      .ok [⟨"sample", [("lb", "home"), ("hn", "here")], none, [], 1⟩] := by
  rfl

theorem binding_sample {binding : Naming.Binding}
    (h : small.resolver.binding? "sample" = some binding) : binding.typeId ≠ wrapperType := by
  have hsample : small.resolver.binding? "sample" = some ⟨sampleType, true⟩ := rfl
  rw [hsample] at h
  obtain rfl := Option.some.inj h
  decide

def morning : small.Fragment where
  value := labelled []
  event := none
  bytes := morningLog
  delivered := [labelled []]
  saved := (record_eq_ok rfl).mpr ⟨_, encode_labelled .nil, rfl⟩
  loaded := by
    rw [loadRecords_of_elementsOf rfl elementsOf_morningLog]
    rfl
  no_wrapper := by
    rw [elementsIn_of_elementsOf rfl elementsOf_morningLog, List.forall_mem_singleton]
    exact fun binding => binding_sample

def noon : small.Fragment where
  value := labelled []
  event := some { hostname := "here" }
  bytes := noonLog
  delivered := [.object sampleType [("lb", .text "home"), ("hn", .text "here")] []]
  saved := (record_eq_ok rfl).mpr ⟨_, Encoder.encode_of_fill (by decide)
    ((Encoder.fill_sample _ rfl).mpr ⟨_, [], [], rfl, Encoder.encodeStructured_eq_ok.mpr .nil,
      Encoder.encodeAll_eq_ok.mpr .nil, rfl⟩), rfl⟩
  loaded := by
    rw [loadRecords_of_elementsOf rfl elementsOf_noonLog]
    rfl
  no_wrapper := by
    rw [elementsIn_of_elementsOf rfl elementsOf_noonLog, List.forall_mem_singleton]
    exact fun binding => binding_sample

theorem loadRecords_wrapped_small :
    ∃ start stop, small.logStart = .ok start ∧ small.logEnd = .ok stop ∧
      small.loadRecords ⟨start ++ [morning, noon].flatMap (·.bytes) ++ stop, none⟩ =
        ([morning, noon].flatMap (·.delivered), .ok ()) ∧
      small.countRecords ⟨start ++ [morning, noon].flatMap (·.bytes) ++ stop, none⟩ =
        .ok ([morning, noon].flatMap (·.delivered)).length :=
  loadRecords_wrapped small standard_small rfl (by decide +kernel) ⟨by decide +kernel, true, rfl⟩
    [morning, noon]

end Archive

end PlanArchive
