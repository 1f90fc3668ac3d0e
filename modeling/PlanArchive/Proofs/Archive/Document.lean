import PlanArchive.Archive.Document
import PlanArchive.Archive.Log
import PlanArchive.Proofs.Coding.RoundTrip
import PlanArchive.Proofs.Coding.Writable
import PlanArchive.Proofs.Markup.RoundTrip
import PlanArchive.Proofs.Result
import PlanArchive.Proofs.Text.Utf8

/-!
# Documents, step by step

What it takes to load and to save a document, and that in UTF-8 the element of a file is the one
that was written.
-/

namespace PlanArchive.Coding

/-- An envelope is an object of its type, and the plan is among the entries. -/
theorem Envelope.exists_object {v : Value} {envelope : Envelope}
    (h : Envelope.ofValue? v = some envelope) : ∃ fields entries,
      v = .object Naming.envelopeType fields entries ∧ .plan envelope.plan ∈ entries := by
  cases v with
  | object typeId fields entries =>
    rw [Envelope.ofValue?] at h
    split at h
    · rename_i htype
      split at h
      · rename_i plan hlast
        obtain rfl := Option.some.inj h
        exact ⟨fields, entries, by rw [htype], List.mem_of_getLast? hlast⟩
      · cases h
    · cases h
  | _ => cases h

/-- The plan of an envelope stands in its object. -/
theorem Envelope.occurs_plan {v : Value} {envelope : Envelope}
    (h : Envelope.ofValue? v = some envelope) : Value.Occurs (.plan envelope.plan) v := by
  obtain ⟨fields, entries, rfl, hmem⟩ := Envelope.exists_object h
  exact .entry hmem .here

end PlanArchive.Coding

namespace PlanArchive.Charset

/-- The header of a charset without its brackets. -/
def declaration (charset : Charset) : List Char :=
  "xml version=\"1.0\" encoding=\"".toList ++ (charset.name.toList ++ ['\x22'])

theorem header_eq (charset : Charset) :
    charset.header.toList = '<' :: '?' :: (charset.declaration ++ ['?', '>']) := by
  have hopening : "<?xml version=\"1.0\" encoding=\"".toList =
      '<' :: '?' :: "xml version=\"1.0\" encoding=\"".toList := by decide
  have hclosing : "\"?>".toList = ['\x22', '?', '>'] := rfl
  unfold header declaration
  simp only [String.toList_append]
  rw [hopening, hclosing]
  simp only [List.cons_append, List.append_assoc, List.nil_append]

/-- Headers are plain ASCII, on one line. -/
theorem plain_of_mem_declaration (charset : Charset) :
    ∀ c ∈ charset.declaration, Codec.isPlain c ∧ c ≠ '>' ∧ c ≠ '\n' := by
  have hname : charset.name.toList.all fun c => Codec.isPlain c ∧ c ≠ '>' ∧ c ≠ '\n' := by
    rcases charset with _ | _ | _ | _ | charset | ⟨charset, codec⟩
    case single => cases charset <;> decide
    case eastAsian =>
      change charset.name.toList.all _ = true
      cases charset <;> decide
    all_goals decide
  have hopening : "xml version=\"1.0\" encoding=\"".toList.all fun c =>
      Codec.isPlain c ∧ c ≠ '>' ∧ c ≠ '\n' := by decide
  intro c hc
  rcases List.mem_append.mp hc with hc | hc
  · exact List.all_iff_forall_prop.mp hopening c hc
  · rcases List.mem_append.mp hc with hc | hc
    · exact List.all_iff_forall_prop.mp hname c hc
    · rw [List.mem_singleton.mp hc]
      decide

end PlanArchive.Charset

namespace PlanArchive.Archive

open Coding Markup

variable {archive : Archive}

/-! ## Loading -/

section

variable {source : Source} {value : Value}

theorem loadRoot_eq_ok {root : Element} :
    archive.loadRoot source = .ok (root, value) ↔
      ∃ charset, archive.charset = .ok charset ∧ elementsOf charset source = .ok [root] ∧
        ((archive.decoder .document).decodeRoot root).1 = .ok value := by
  rw [loadRoot, Result.bind_eq_ok]
  refine exists_congr fun charset => and_congr_right fun _ => ?_
  rw [Result.bind_eq_ok]
  constructor
  · rintro ⟨elements, helements, h⟩
    rcases elements with _ | ⟨e, _ | ⟨e', rest⟩⟩
    · cases h
    · simp only [Result.bind_eq_ok, Result.pure_eq_ok, Prod.mk.injEq] at h
      obtain ⟨v, hdecode, rfl, rfl⟩ := h
      exact ⟨helements, hdecode⟩
    · cases h
  · rintro ⟨helements, hdecode⟩
    refine ⟨[root], helements, ?_⟩
    simp only [Result.bind_eq_ok, Result.pure_eq_ok]
    exact ⟨value, hdecode, rfl⟩

/-- The elements of a file, or none if there is no reading it. -/
def elementsIn (archive : Archive) (source : Source) : List Element :=
  ((archive.charset.bind (elementsOf · source)).toOption).getD []

theorem bind_elementsOf {charset : Charset} (hcharset : archive.charset = .ok charset) :
    archive.charset.bind (elementsOf · source) = elementsOf charset source := by
  rw [hcharset]
  rfl

theorem elementsIn_of_elementsOf {charset : Charset} (hcharset : archive.charset = .ok charset)
    {es : List Element} (h : elementsOf charset source = .ok es) :
    archive.elementsIn source = es := by
  rw [elementsIn, bind_elementsOf hcharset, h]
  rfl

theorem loadRecords_of_elementsOf {charset : Charset} (hcharset : archive.charset = .ok charset)
    {es : List Element} (h : elementsOf charset source = .ok es) :
    archive.loadRecords source = recordsOf (archive.decoder .log) es := by
  rw [loadRecords, bind_elementsOf hcharset, h]

theorem loadRoot_of_elementsOf {charset : Charset} (hcharset : archive.charset = .ok charset)
    {root : Element} (h : elementsOf charset source = .ok [root]) :
    archive.loadRoot source =
      ((archive.decoder .document).decodeRoot root).1.map fun value => (root, value) := by
  simp only [loadRoot, hcharset, h, bind, Except.bind]
  cases ((archive.decoder .document).decodeRoot root).1 <;> rfl

theorem loadElement_of_elementsOf {charset : Charset} (hcharset : archive.charset = .ok charset)
    {root : Element} (h : elementsOf charset source = .ok [root]) :
    archive.loadElement source = ((archive.decoder .document).decodeRoot root).1 := by
  rw [loadElement, loadRoot_of_elementsOf hcharset h]
  cases ((archive.decoder .document).decodeRoot root).1 <;> rfl

theorem mem_elementsIn_of_loadRoot {root : Element}
    (h : archive.loadRoot source = .ok (root, value)) :
    root ∈ archive.elementsIn source ∧
      ((archive.decoder .document).decodeRoot root).1 = .ok value := by
  obtain ⟨charset, hcharset, helements, hdecode⟩ := loadRoot_eq_ok.mp h
  refine ⟨?_, hdecode⟩
  rw [elementsIn_of_elementsOf hcharset helements]
  exact List.mem_singleton.mpr rfl

theorem loadElement_eq_ok :
    archive.loadElement source = .ok value ↔
      ∃ root, archive.loadRoot source = .ok (root, value) := by
  simp only [loadElement, Result.bind_eq_ok, Result.pure_eq_ok, Prod.exists, exists_eq_right]

theorem loadPlan_eq_ok {plan : Plan} :
    archive.loadPlan source = .ok plan ↔
      ∃ root value envelope, archive.loadRoot source = .ok (root, value) ∧
        Envelope.ofValue? value = some envelope ∧ envelope.plan = plan := by
  unfold loadPlan
  simp only [Result.bind_eq_ok, Prod.exists]
  refine exists_congr fun root => exists_congr fun value => ?_
  cases henvelope : Envelope.ofValue? value with
  | none =>
    constructor
    · rintro ⟨_, ⟨⟩⟩
    · rintro ⟨_, _, ⟨⟩, _⟩
  | some envelope =>
    simp only [Result.pure_eq_ok, Option.some.injEq, exists_and_left, exists_eq_left']

end

/-! ## Envelopes -/

/-- The envelope of a plan keeps its texts and settles its plan. -/
theorem settle_envelope (hroster : archive.roster.Standard) (envelope : Envelope) :
    settle archive.roster envelope.toValue =
      { envelope with plan := settlePlan archive.roster envelope.plan }.toValue := by
  rw [Envelope.toValue, settle, Roster.coderFor_of_dedicated hroster.dedicated_envelope]
  rfl

theorem legible_envelope (hroster : archive.roster.Standard)
    (henvelope : archive.resolver.Resolves Naming.envelopeType) (envelope : Envelope)
    (h : Value.Everywhere (archive.decoder .document).Legible (.plan envelope.plan)) :
    envelope.toValue.Everywhere (archive.decoder .document).Legible := by
  refine Value.everywhere_object.mpr ⟨⟨henvelope, ?_, ?_⟩, ?_, List.forall_mem_singleton.mpr h⟩
  · show Decoder.LegibleFor _ _ _ _ (archive.roster.coderFor Naming.envelopeType)
    rw [Roster.coderFor_of_dedicated hroster.dedicated_envelope]
    trivial
  · exact List.forall_mem_singleton.mpr (Decoder.typed_of_legible h.here rfl)
  · simp only [List.forall_mem_cons]
    exact ⟨Value.everywhere_text.mpr trivial, Value.everywhere_text.mpr trivial,
      Value.everywhere_text.mpr trivial, List.forall_mem_nil _⟩

/-- An envelope has an element just when its type has a tag and its plan has an element. -/
theorem exists_encode_envelope_iff (hroster : archive.roster.Standard) (envelope : Envelope) :
    (∃ e, (archive.encoder none).encode envelope.toValue = .ok e) ↔
      isName (archive.resolver.tagFor Naming.envelopeType) = true ∧
        ∃ member, (archive.encoder none).encode (.plan envelope.plan) = .ok member := by
  have hcoder : archive.roster.coderFor Naming.envelopeType = .envelope :=
    Roster.coderFor_of_dedicated hroster.dedicated_envelope
  constructor
  · rintro ⟨e, hencode⟩
    obtain ⟨_, hstart, hfill⟩ := Result.bind_eq_ok.mp hencode
    obtain ⟨hname, rfl⟩ := Encoder.startValue_eq_ok.mp hstart
    obtain ⟨plan, member, heq, hmember, -⟩ :=
      (Encoder.fill_envelope (archive.encoder none) hcoder).mp hfill
    cases heq
    exact ⟨hname, member, hmember⟩
  · rintro ⟨hname, member, hmember⟩
    exact ⟨_, Encoder.encode_of_fill hname ((Encoder.fill_envelope (archive.encoder none)
      hcoder).mpr ⟨envelope.plan, member, rfl, hmember, rfl⟩)⟩

/-- An envelope is written just when its type has a tag and its plan can be written. -/
theorem exists_encode_envelope (hroster : archive.roster.Standard) (envelope : Envelope)
    (h : Value.Everywhere (archive.encoder none).HeldInTexts (.plan envelope.plan)) :
    (∃ e, (archive.encoder none).encode envelope.toValue = .ok e) ↔
      isName (archive.resolver.tagFor Naming.envelopeType) = true ∧
        Value.Everywhere (archive.encoder none).Writable (.plan envelope.plan) := by
  have hplan : (archive.encoder none).FillsIff (.plan envelope.plan) :=
    Encoder.fillsIff hroster rfl h
  rw [exists_encode_envelope_iff hroster, Encoder.exists_encode_iff hplan]
  exact and_congr_right fun _ => and_iff_right_of_imp fun hwritable => hwritable.here.1

/-! ## Saving -/

/-- The text of a document that names its charset. -/
def textIn (charset : Charset) (e : Element) : List Char :=
  charset.header.toList ++ '\n' :: e.render ++ ['\n']

theorem textIn_eq (charset : Charset) (e : Element) :
    textIn charset e =
      '<' :: '?' :: (charset.declaration ++ '?' :: '>' :: '\n' :: (e.render ++ ['\n'])) := by
  simp [textIn, charset.header_eq]

/-- In a charset that can be written, a value is saved just when it has an element. -/
theorem elementDocument_writable {charset : Charset} (hcharset : archive.charset = .ok charset)
    (hwritable : charset.isWritable = true) {value : Value} {bytes : Bytes} :
    archive.elementDocument value = .ok bytes ↔
      ∃ e, (archive.encoder none).encode value = .ok e ∧
        bytes = charset.octetsOf (textIn charset e) := by
  have hencode : ∀ text, charset.encode text = .ok (charset.octetsOf text) := fun text => by
    rw [Charset.encode, Charset.encode?, if_pos hwritable]
  rw [elementDocument, hcharset]
  simp [Result.bind_eq_ok, Result.mapError_eq_ok, hwritable, hencode, textIn,
    eq_comm (a := bytes)]

/-! ## UTF-8 -/

/-- Only a text that starts with a byte order mark is written with the octets of one in front. -/
theorem not_mark_prefix_encode {text : List Char} (h : text.head? ≠ some byteOrderMark) :
    ¬Charset.utf8.mark <+: Text.Utf8.encode text := by
  cases text with
  | nil =>
    intro hprefix
    cases List.prefix_nil.mp hprefix
  | cons c rest => exact fun hprefix => h (congrArg some (Text.Utf8.mark_prefix_encode hprefix))

/-- Text that does not start with a byte order mark is read as it was written. -/
theorem elementsOf_utf8 {c : Char} (hc : c ≠ byteOrderMark) (cs : List Char) :
    elementsOf .utf8 ⟨Text.Utf8.encode (c :: cs), none⟩ =
      (readElements (c :: cs)).mapError .ofProblem := by
  have hmark : ¬Charset.utf8.mark <+: Text.Utf8.encode (c :: cs) :=
    not_mark_prefix_encode fun h => hc (Option.some.inj h)
  have hdrop : Charset.dropMark .utf8 (Text.Utf8.encode (c :: cs)) =
      Text.Utf8.encode (c :: cs) := if_neg fun h => hmark (List.isPrefixOf_iff_prefix.mp h)
  have hdecode : Charset.decode .utf8 (Text.Utf8.encode (c :: cs)) = .ok (c :: cs) := by
    simp only [Charset.decode, Charset.decode?, hdrop, Text.Utf8.decode?_encode]
  rw [elementsOf, Source.read]
  exact congrArg (· >>= fun text => (readElements text).mapError Failure.ofProblem) hdecode

/-- Octets are read where they are those of a text that can be read. -/
theorem elementsOf_utf8_eq_ok {bytes : Bytes} (hmark : ¬Charset.utf8.mark <+: bytes)
    {es : List Element} :
    elementsOf .utf8 ⟨bytes, none⟩ = .ok es ↔
      ∃ text, text.head? ≠ some byteOrderMark ∧ bytes = Text.Utf8.encode text ∧
        readElements text = .ok es := by
  have hdrop : Charset.utf8.dropMark bytes = bytes :=
    if_neg fun h => hmark (List.isPrefixOf_iff_prefix.mp h)
  have hdecode : ∀ text, Charset.utf8.decode bytes = .ok text ↔
      bytes = Text.Utf8.encode text := by
    intro text
    rw [eq_comm (a := bytes), ← Text.Utf8.decode?_eq_some_iff, Charset.decode, Charset.decode?,
      hdrop]
    cases Text.Utf8.decode? bytes <;> simp
  have hsteps : elementsOf .utf8 ⟨bytes, none⟩ = (Charset.utf8.decode bytes >>= fun text =>
      (readElements text).mapError .ofProblem) := rfl
  simp only [hsteps, Result.bind_eq_ok, Result.mapError_eq_ok, hdecode]
  constructor
  · rintro ⟨text, rfl, hread⟩
    refine ⟨text, ?_, rfl, hread⟩
    intro hhead
    obtain ⟨rest, rfl⟩ : ∃ rest, text = byteOrderMark :: rest := by
      cases text with
      | nil => cases hhead
      | cons c rest => exact ⟨rest, by rw [Option.some.inj hhead]⟩
    exact hmark ⟨Text.Utf8.encode rest, rfl⟩
  · rintro ⟨text, -, hbytes, hread⟩
    exact ⟨text, hbytes, hread⟩

/-- The text of a document. -/
def documentText (e : Element) : List Char :=
  (Charset.header .utf8).toList ++ '\n' :: e.render ++ ['\n']

/-- The header without its brackets. -/
def declaration : List Char := "xml version=\"1.0\" encoding=\"UTF-8\"".toList

theorem header_utf8 : (Charset.header .utf8).toList = '<' :: '?' :: (declaration ++ ['?', '>']) :=
  rfl

theorem not_mem_declaration : '>' ∉ declaration := by decide

theorem elementsOf_documentText {e : Element} (h : e.WellFormed) :
    ∃ e', e.ReadAs e' ∧
      elementsOf .utf8 ⟨Text.Utf8.encode (documentText e), none⟩ = .ok [e'] := by
  obtain ⟨e', hread, helements⟩ := readElements_document h not_mem_declaration (by decide)
  refine ⟨e', hread, ?_⟩
  have htext : documentText e =
      '<' :: '?' :: (declaration ++ '?' :: '>' :: '\n' :: (e.render ++ ['\n'])) := rfl
  rw [htext, elementsOf_utf8 (by decide), helements]
  rfl

section

variable (hcharset : archive.charset = .ok .utf8)

include hcharset

theorem elementDocument_eq_ok {value : Value} {bytes : Bytes} :
    archive.elementDocument value = .ok bytes ↔
      ∃ e, (archive.encoder none).encode value = .ok e ∧
        bytes = Text.Utf8.encode (documentText e) :=
  elementDocument_writable hcharset rfl

/-- A plan is saved just when it can be written and envelopes have a tag. -/
theorem exists_planDocument_iff (hroster : archive.roster.Standard) {plan : Plan}
    (h : Value.Everywhere (archive.encoder none).HeldInTexts (.plan plan)) :
    (∃ bytes, archive.planDocument plan = .ok bytes) ↔
      isName (archive.resolver.tagFor Naming.envelopeType) = true ∧
        Value.Everywhere (archive.encoder none).Writable (.plan plan) := by
  refine Iff.trans ?_ (exists_encode_envelope hroster
    (Envelope.around archive.schema.declared archive.settings.applicationVersion plan) h)
  constructor
  · rintro ⟨bytes, hbytes⟩
    obtain ⟨e, hencode, -⟩ := (elementDocument_eq_ok hcharset).mp hbytes
    exact ⟨e, hencode⟩
  · rintro ⟨e, hencode⟩
    exact ⟨_, (elementDocument_eq_ok hcharset).mpr ⟨e, hencode, rfl⟩⟩

/-- What is saved of a legible value is loaded as the settled value. -/
theorem loadRoot_elementDocument (hroster : archive.roster.Standard) {value : Value}
    (hlegible : value.Everywhere (archive.decoder .document).Legible) (htext : value.text? = none)
    {bytes : Bytes} (h : archive.elementDocument value = .ok bytes) :
    ∃ root, archive.loadRoot ⟨bytes, none⟩ = .ok (root, settle archive.roster value) := by
  obtain ⟨e, hencode, rfl⟩ := (elementDocument_eq_ok hcharset).mp h
  obtain ⟨root, hread, helements⟩ :=
    elementsOf_documentText (Encoder.wellFormed_encode (archive.encoder none) hencode)
  refine ⟨root, loadRoot_eq_ok.mpr ⟨.utf8, hcharset, helements, ?_⟩⟩
  rw [Decoder.decodeRoot_written (archive.decoder .document) hroster hlegible htext
    hencode hread]
  rfl

/-- A legible plan that can be saved is loaded as the settled plan. -/
theorem loadPlan_of_legible (hroster : archive.roster.Standard)
    (henvelope : archive.resolver.Resolves Naming.envelopeType) {plan : Plan}
    (hplan : Value.Everywhere (archive.decoder .document).Legible (.plan plan)) {bytes : Bytes}
    (h : archive.planDocument plan = .ok bytes) :
    archive.loadPlan ⟨bytes, none⟩ = .ok (settlePlan archive.roster plan) := by
  obtain ⟨root, hroot⟩ := loadRoot_elementDocument hcharset hroster
    (legible_envelope hroster henvelope _ hplan) rfl h
  rw [settle_envelope hroster] at hroot
  exact loadPlan_eq_ok.mpr ⟨root, _, _, hroot, Envelope.ofValue?_toValue _, rfl⟩

end

/-! ## A small archive -/

/-- An archive of few types, some with tags of their own. -/
def small : Archive where
  settings := { expectedChecksum := none }
  resolver :=
    { tags :=
        { types := [("jmeterTestPlan", Naming.envelopeType), ("hashTree", Naming.treeType),
            ("sample", Naming.sampleType)]
          primaries := [(Naming.envelopeType, "jmeterTestPlan"), (Naming.treeType, "hashTree"),
            (Naming.sampleType, "sample")] }
      renames := {}
      known :=
        ⟨Naming.KnownTypes.builtIn.types ++ [("TestPlan", false), (Naming.sampleType, true)]⟩ }
  roster := Roster.basic.add .sample
  schema := ⟨"4.0", ""⟩
  fileEncoding := none
  charset := .ok .utf8
  warnings := []
  coderFailures := []

example : build
    { codecs := fun _ => .ascii
      settings := { expectedChecksum := none }
      known :=
        ⟨Naming.KnownTypes.builtIn.types ++ [("TestPlan", false), (Naming.sampleType, true)]⟩ }
    ⟨[("_version", "4.0"), ("jmeterTestPlan", Naming.envelopeType), ("hashTree", Naming.treeType),
      ("sample", Naming.sampleType), ("_" ++ Coder.sample.name, "collection")]⟩ "" = small := by
  rfl

theorem standard_small : small.roster.Standard := Roster.standard_basic.add (by decide)

end PlanArchive.Archive
