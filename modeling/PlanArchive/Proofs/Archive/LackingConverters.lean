import PlanArchive.Proofs.Archive.Document
import PlanArchive.Proofs.Archive.Services
import PlanArchive.Proofs.Coding.ByName

/-!
# Types that lack a converter

The list of known types says which types need a converter of their own. Loading asks it, saving does
not: an object of such a type is saved without the converter just when the type has a tag
(`lacking_saved_iff`), and then there is no loading it.
-/

namespace PlanArchive

open Coding Markup Naming

namespace Coding.Converters

variable {converters : Converters} {context : WriteContext} {typeId : String}

/-! ## Objects that no converter claims -/

theorem fill_of_unclaimed (h : converters.dedicated? typeId = none)
    (fields : List (String × Value)) (entries : List Value) :
    converters.fill context (.object typeId fields entries) =
      Coder.object.write context (.object typeId fields entries) := by
  rw [fill_eq_write context _ rfl, converterFor_of_unclaimed h]
  rfl

/-- An object of which nothing is to be written needs a tag and no converter of its own. -/
theorem writes_hollow (context : WriteContext) (h : converters.dedicated? typeId = none)
    (htag : isName (context.resolver.tagFor typeId) = true) :
    converters.Writes context (converters.answer context (.value (.object typeId [] []))) []
      (.ok { name := context.resolver.tagFor typeId }) := by
  have hstart : context.encoder.startValue (.object typeId [] []) =
      .ok { name := context.resolver.tagFor typeId } :=
    Encoder.startValue_eq_ok.mpr ⟨htag, rfl⟩
  rw [answer, hstart, fill_of_unclaimed h]
  exact .done _

/-- The object coder leaves the start of an element as it is. -/
theorem start_of_encodes (h : converters.dedicated? typeId = none)
    {fields : List (String × Value)} {entries : List Value} {written : List Written} {e : Element}
    (hencodes : converters.Encodes context (.object typeId fields entries) written (.ok e)) :
    e.name = context.resolver.tagFor typeId ∧ e.attributes = [] := by
  obtain ⟨inner, hanswer, -⟩ := writes_request.mp hencodes
  obtain ⟨start, hstart⟩ := exists_start_of_filled hanswer
  rw [answer, hstart, fill_of_unclaimed h] at hanswer
  obtain ⟨-, rfl⟩ := Encoder.startValue_eq_ok.mp hstart
  have hadds := Coder.addsByName_object context (.object typeId fields entries)
  exact hanswer.of_always (always_filled_of_adds hadds _) e rfl

/-! ## Plans among built-in converters -/

/-- Envelopes and plans are left to the converters that come with every service. -/
structure LaysOutPlans (converters : Converters) : Prop where
  envelope : converters.dedicated? envelopeType = some Coder.envelope.converter
  plan : converters.dedicated? treeType = some Coder.plan.converter

theorem answer_of_dedicated (v : Value) (htype : v.typeId? = some typeId) {converter : Converter}
    (h : converters.dedicated? typeId = some converter) :
    converters.answer context (.value v) =
      filled (context.encoder.startValue v) (converter.write context v) := by
  rw [answer, fill_eq_write context v htype, converterFor_of_dedicated h]

/-- The plan in an envelope that is encoded has a tag. -/
theorem isName_of_encodes_envelope (h : converters.LaysOutPlans) {envelope : Envelope}
    {written : List Written} {e : Element}
    (hencodes : converters.Encodes context envelope.toValue written (.ok e)) :
    isName (context.resolver.tagFor treeType) = true := by
  obtain ⟨inner, hanswer, -⟩ := writes_request.mp hencodes
  obtain ⟨start, hstart⟩ := exists_start_of_filled hanswer
  rw [answer_of_dedicated _ rfl h.envelope, hstart] at hanswer
  cases hanswer with
  | @ask _ _ _ reply _ _ _ hplan hnext =>
    cases reply with
    | error failure => cases hnext
    | ok member =>
      obtain ⟨start, hstart⟩ := exists_start_of_filled hplan
      exact (Encoder.startValue_eq_ok.mp hstart).1

/-- An object of which nothing is to be written, in a plan of its own. -/
def hollowPlan (typeId : String) : Plan := [.mk (.object typeId [] []) []]

def hollowWritten (context : WriteContext) (typeId : String) : Written :=
  ⟨.value (.object typeId [] []), .ok { name := context.resolver.tagFor typeId }⟩

section

variable (context) (h : converters.LaysOutPlans) (hunclaimed : converters.dedicated? typeId = none)
  (htag : isName (context.resolver.tagFor typeId) = true)
  (htree : isName (context.resolver.tagFor treeType) = true)

include h hunclaimed htag htree

theorem writes_hollowPlan :
    ∃ e, converters.Writes context (converters.answer context (.value (.plan (hollowPlan typeId))))
      [hollowWritten context typeId] (.ok e) := by
  have hstart : context.encoder.startValue (.plan (hollowPlan typeId)) =
      .ok { name := context.resolver.tagFor treeType } :=
    Encoder.startValue_eq_ok.mpr ⟨htree, rfl⟩
  have htreeTag : context.encoder.tagFor treeType = .ok (context.resolver.tagFor treeType) :=
    Encoder.tagFor_eq_ok.mpr ⟨htree, rfl⟩
  have hbranches : ∀ tag, Filling.branches tag (hollowPlan typeId) = (do
      Filling.addValue (.object typeId [] [])
      Filling.addInside { name := tag } (pure ())
      pure ()) := by
    intro tag
    simp [hollowPlan, Filling.branches, Value.isPlan]
  rw [answer_of_dedicated _ rfl h.plan, hstart]
  simp only [Coder.converter, Coder.write, htreeTag, hbranches]
  exact ⟨_, .ask (writes_hollow context hunclaimed htag) (.done _)⟩

theorem exists_encodes_hollowPlan (envelope : Envelope) (hplan : envelope.plan = hollowPlan typeId)
    (henvelope : isName (context.resolver.tagFor envelopeType) = true) :
    ∃ written e, converters.Encodes context envelope.toValue written (.ok e) ∧
      hollowWritten context typeId ∈ written := by
  obtain ⟨member, hmember⟩ := writes_hollowPlan context h hunclaimed htag htree
  have hstart : context.encoder.startValue envelope.toValue =
      .ok { name := context.resolver.tagFor envelopeType } :=
    Encoder.startValue_eq_ok.mpr ⟨henvelope, rfl⟩
  have hanswer : ∃ e, converters.Writes context
      (converters.answer context (.value envelope.toValue))
      [hollowWritten context typeId, ⟨.value (.plan (hollowPlan typeId)), .ok member⟩] (.ok e) := by
    rw [answer_of_dedicated _ rfl h.envelope, hstart]
    rw [← hplan] at hmember ⊢
    exact ⟨_, .ask hmember (.done _)⟩
  obtain ⟨e, hanswer⟩ := hanswer
  exact ⟨_, e, writes_request.mpr ⟨_, hanswer, rfl⟩, by simp⟩

end

/-! ## Reading -/

/-- An element of a type that lacks a converter is refused, whatever it holds. -/
theorem decodes_unclaimed_iff (reader : Reader) {e : Element}
    (hpresent : e.attribute? referenceKey = none) (htag : e.name ≠ nullTag)
    (hbinding : reader.resolver.binding? e.name = some ⟨typeId, true⟩)
    (h : converters.dedicated? typeId = none) (result : Except Failure Value) (ledger : Ledger) :
    converters.Decodes reader e result ledger ↔
      result = .error (.malformed (.noCoder typeId) (placeOf [e.name] e.line)) ∧ ledger = {} := by
  have hread : converters.readTyped (reader.context [e.name]) (some e.name) e =
      Reading.refuse (.noCoder typeId) (placeOf [e.name] e.line) := by
    have hcontext : (reader.context [e.name]).resolver.binding? e.name = some ⟨typeId, true⟩ :=
      hbinding
    simp only [readTyped, if_neg htag, hcontext, readAs, h]
    rfl
  have hdecodes : converters.Decodes reader e
      (.error (.malformed (.noCoder typeId) (placeOf [e.name] e.line))) {} := by
    refine .element hpresent ?_ (.done _ _)
    rw [Role.typeOf, hread]
    exact .done _ _
  constructor
  · exact fun h => reads_unique h hdecodes
  · rintro ⟨rfl, rfl⟩
    exact hdecodes

end Coding.Converters

/-! ## Saving -/

theorem Charset.document_eq_ok {charset : Charset} {result : Except Failure Element}
    {bytes : Bytes} :
    charset.document result = .ok bytes ↔ charset.isWritable = true ∧
      ∃ e, result = .ok e ∧ bytes = charset.octetsOf (Archive.textIn charset e) := by
  unfold document encode encode? Archive.textIn
  cases charset.isWritable with
  | false => exact iff_of_false (by rintro ⟨⟩) fun h => Bool.noConfusion h.1
  | true =>
    cases result with
    | error failure => exact iff_of_false (by rintro ⟨⟩) (by rintro ⟨-, _, ⟨⟩, -⟩)
    | ok e => simp [bind, Except.bind, eq_comm (a := bytes)]

theorem Charset.record_eq_ok {charset : Charset} {result : Except Failure Element}
    {bytes : Bytes} :
    charset.record result = .ok bytes ↔ charset.isWritable = true ∧
      ∃ e, result = .ok e ∧ bytes = charset.octetsOf (e.render ++ ['\n']) := by
  unfold record encode encode?
  cases result with
  | error failure => exact iff_of_false (by rintro ⟨⟩) (by rintro ⟨-, _, ⟨⟩, -⟩)
  | ok e => cases charset.isWritable <;> simp [bind, Except.bind, eq_comm (a := bytes)]

namespace Service

variable (service : Service)

/-- The type needs a converter of its own, and none claims it. -/
def LacksConverter (typeId : String) : Prop :=
  service.resolver.known.get? typeId = some ⟨typeId, true⟩ ∧
    service.converters.dedicated? typeId = none

/-- An object of a type that lacks a converter was written, under its tag or as a field. -/
def NamesLacking (written : List Written) : Prop :=
  ∃ w ∈ written, ∃ typeId fields entries, service.LacksConverter typeId ∧
    w.Names (.object typeId fields entries)

/-- A type that lacks a converter has a tag to be written under. -/
def HasGap : Prop :=
  ∃ typeId, service.LacksConverter typeId ∧ isName (service.resolver.tagFor typeId) = true

/-- The charset is one to write in. -/
def CanWrite : Prop :=
  ∃ charset, service.charset = .ok charset ∧ charset.isWritable = true

variable {service}

theorem exists_savesElement_iff {v : Value} {P : List Written → Prop} :
    (∃ written bytes, service.SavesElement v written (.ok bytes) ∧ P written) ↔
      service.CanWrite ∧ ∃ written e,
        service.converters.Encodes (service.writeContext .document none) v written (.ok e) ∧
          P written := by
  constructor
  · rintro ⟨written, bytes, h, hP⟩
    generalize houtput : Except.ok bytes = output at h
    cases h with
    | noCharset => cases houtput
    | readOnly => cases houtput
    | encoded hcharset hwritable hencodes =>
      obtain ⟨-, e, rfl, -⟩ := Charset.document_eq_ok.mp houtput.symm
      exact ⟨⟨_, hcharset, hwritable⟩, written, e, hencodes, hP⟩
  · rintro ⟨⟨charset, hcharset, hwritable⟩, written, e, hencodes, hP⟩
    have hsaves := SavesElement.encoded hcharset hwritable hencodes
    rw [Charset.document_eq_ok.mpr ⟨hwritable, e, rfl, rfl⟩] at hsaves
    exact ⟨written, _, hsaves, hP⟩

theorem exists_savesRecord_iff {v : Value} {event : Option Event} {P : List Written → Prop} :
    (∃ written bytes, service.SavesRecord v event written (.ok bytes) ∧ P written) ↔
      service.CanWrite ∧ ∃ written e,
        service.converters.Encodes (service.writeContext .log event) v written (.ok e) ∧
          P written := by
  constructor
  · rintro ⟨written, bytes, h, hP⟩
    generalize houtput : Except.ok bytes = output at h
    cases h with
    | noCharset => cases houtput
    | encoded hcharset hencodes =>
      obtain ⟨hwritable, e, he, -⟩ := Charset.record_eq_ok.mp houtput.symm
      obtain rfl := Result.mapError_eq_ok.mp he
      exact ⟨⟨_, hcharset, hwritable⟩, written, e, hencodes, hP⟩
  · rintro ⟨⟨charset, hcharset, hwritable⟩, written, e, hencodes, hP⟩
    have hsaves := SavesRecord.encoded hcharset hencodes
    rw [Except.mapError, Charset.record_eq_ok.mpr ⟨hwritable, e, rfl, rfl⟩] at hsaves
    exact ⟨written, _, hsaves, hP⟩

theorem hasGap_of_namesLacking {mode : Mode} {event : Option Event} {v : Value}
    {written : List Written} {result : Except Failure Element}
    (hencodes : service.converters.Encodes (service.writeContext mode event) v written result)
    (h : service.NamesLacking written) : service.HasGap := by
  obtain ⟨w, hw, typeId, fields, entries, hlacks, hnames⟩ := h
  exact ⟨typeId, hlacks, Converters.isName_of_written hencodes hw hnames⟩

/-- Some object that lacks a converter is written just when one of their types has a tag. -/
theorem exists_encodes_lacking_iff {mode : Mode} {event : Option Event} :
    (∃ v written e,
      service.converters.Encodes (service.writeContext mode event) v written (.ok e) ∧
        service.NamesLacking written) ↔ service.HasGap := by
  constructor
  · rintro ⟨v, written, e, hencodes, h⟩
    exact hasGap_of_namesLacking hencodes h
  · rintro ⟨typeId, hlacks, htag⟩
    have hwrites := Converters.writes_hollow (service.writeContext mode event)
      hlacks.2 htag
    exact ⟨_, _, _, Converters.writes_request.mpr ⟨_, hwrites, rfl⟩, _, List.mem_singleton_self _,
      typeId, [], [], hlacks, .value⟩

/-- An object that is encoded has a tag. -/
theorem isName_of_encodes {context : WriteContext} {converters : Converters} {typeId : String}
    {fields : List (String × Value)} {entries : List Value} {written : List Written} {e : Element}
    (h : converters.Encodes context (.object typeId fields entries) written (.ok e)) :
    isName (context.resolver.tagFor typeId) = true := by
  obtain ⟨inner, -, rfl⟩ := Converters.writes_request.mp h
  exact Converters.isName_of_written h (List.mem_append_right _ (List.mem_singleton_self _)) .value

/-- An object that is saved is written under its tag. -/
theorem namesLacking_of_savesElement {typeId : String} {fields : List (String × Value)}
    {entries : List Value} {written : List Written} {bytes : Bytes}
    (h : service.SavesElement (.object typeId fields entries) written (.ok bytes))
    (hlacks : service.LacksConverter typeId) : service.NamesLacking written := by
  obtain ⟨-, _, e, hencodes, rfl⟩ :=
    exists_savesElement_iff.mp ⟨written, bytes, h, rfl⟩
  obtain ⟨inner, -, rfl⟩ := Converters.writes_request.mp hencodes
  exact ⟨_, List.mem_append_right _ (List.mem_singleton_self _), typeId, fields, entries, hlacks,
    .value⟩

theorem of_savesPlan_lacking {plan : Plan} {written : List Written} {bytes : Bytes}
    (h : service.SavesPlan plan written (.ok bytes)) (hlacking : service.NamesLacking written) :
    service.CanWrite ∧ service.HasGap ∧
      isName (service.resolver.tagFor envelopeType) = true ∧
        (service.converters.LaysOutPlans → isName (service.resolver.tagFor treeType) = true) := by
  obtain ⟨hwrite, written, e, hencodes, hlacking⟩ :=
    exists_savesElement_iff.mp ⟨written, bytes, h, hlacking⟩
  have henvelope := isName_of_encodes hencodes
  refine ⟨hwrite, hasGap_of_namesLacking hencodes hlacking, henvelope, fun hplans => ?_⟩
  have htree := Converters.isName_of_encodes_envelope hplans hencodes
  exact htree

theorem exists_savesPlan_lacking_iff (hplans : service.converters.LaysOutPlans) :
    (∃ plan written bytes, service.SavesPlan plan written (.ok bytes) ∧
        service.NamesLacking written) ↔
      service.CanWrite ∧ service.HasGap ∧ isName (service.resolver.tagFor envelopeType) = true ∧
        isName (service.resolver.tagFor treeType) = true := by
  constructor
  · rintro ⟨plan, written, bytes, h, hlacking⟩
    obtain ⟨hwrite, hgap, henvelope, htree⟩ := of_savesPlan_lacking h hlacking
    exact ⟨hwrite, hgap, henvelope, htree hplans⟩
  · rintro ⟨hwrite, ⟨typeId, hlacks, htag⟩, henvelope, htree⟩
    obtain ⟨written, e, hencodes, hw⟩ := Converters.exists_encodes_hollowPlan
      (service.writeContext .document none) hplans hlacks.2 htag htree
      (.around service.schema.declared service.settings.applicationVersion
        (Converters.hollowPlan typeId)) rfl henvelope
    exact ⟨Converters.hollowPlan typeId, exists_savesElement_iff.mpr
      ⟨hwrite, written, e, hencodes, _, hw, typeId, [], [], hlacks, .value⟩⟩

/-! ## Loading -/

/-- What is written for an object that lacks a converter is refused at its root. -/
theorem refused_of_lacking (hcharset : service.charset = .ok .utf8) {typeId : String}
    (hlacks : service.LacksConverter typeId) (hresolves : service.resolver.Resolves typeId)
    {fields : List (String × Value)} {entries : List Value} {written : List Written} {e : Element}
    (hencodes : service.converters.Encodes (service.writeContext .document none)
      (.object typeId fields entries) written (.ok e)) (hwellFormed : e.WellFormed) :
    ∃ bytes place, service.SavesElement (.object typeId fields entries) written (.ok bytes) ∧
      ∀ result, service.LoadsElement ⟨bytes, none⟩ result ↔
        result = .error (.malformed (.noCoder typeId) place) := by
  obtain ⟨root, hread, helements⟩ := Archive.elementsOf_documentText hwellFormed
  obtain ⟨hname, hattributes⟩ := Converters.start_of_encodes hlacks.2 hencodes
  have hroot : service.root ⟨Text.Utf8.encode (Archive.documentText e), none⟩ = .ok root := by
    simp only [Service.root, hcharset, helements, bind, Except.bind]
    rfl
  have htag : root.name = service.resolver.tagFor typeId := hread.name.trans hname
  have hpresent : root.attribute? referenceKey = none := by
    rw [hread.attribute?, Element.attribute?, hattributes]
    rfl
  obtain ⟨hnull, needsCoder, hbinding⟩ := hresolves
  have hneeds : needsCoder = true := by
    have hknown := (Resolver.known_of_binding hbinding).symm.trans hlacks.1
    exact congrArg Binding.needsCoder (Option.some.inj hknown)
  subst hneeds
  rw [← htag] at hnull hbinding
  have hsaves := SavesElement.encoded hcharset rfl hencodes
  rw [Charset.document_eq_ok.mpr ⟨rfl, e, rfl, rfl⟩] at hsaves
  refine ⟨_, placeOf [root.name] root.line, hsaves, fun result => ?_⟩
  have hdecodes := Converters.decodes_unclaimed_iff (service.reader .document) hpresent hnull
    hbinding hlacks.2 result
  have hroot : service.root
      ⟨Charset.utf8.octetsOf (Archive.textIn .utf8 e), none⟩ = .ok root := hroot
  simp only [loadsElement_iff, hroot, hdecodes, reduceCtorEq, false_and, exists_false, false_or,
    Except.ok.injEq, exists_and_left, exists_eq_left', exists_eq, and_true]

/-- An object whose type needs a converter is saved without one, as an element, as a record or in a
plan, just when anything can be written so and a type that lacks a converter has a tag. Where no
converter asks for bare content, every object is written under a name. In UTF-8, a document that
holds an object that lacks a converter is then refused. -/
theorem lacking_saved_iff (setup : Setup) (source : Definition.Source) (checksum : String) :
    let service := build setup source checksum
    ((∃ v written bytes, service.SavesElement v written (.ok bytes) ∧
        service.NamesLacking written) ↔ service.CanWrite ∧ service.HasGap) ∧
    (∀ event, (∃ v written bytes, service.SavesRecord v event written (.ok bytes) ∧
        service.NamesLacking written) ↔ service.CanWrite ∧ service.HasGap) ∧
    ((∃ plan written bytes, service.SavesPlan plan written (.ok bytes) ∧
        service.NamesLacking written) →
      service.CanWrite ∧ service.HasGap ∧
        isName (service.resolver.tagFor envelopeType) = true) ∧
    (service.converters.LaysOutPlans →
      ((∃ plan written bytes, service.SavesPlan plan written (.ok bytes) ∧
          service.NamesLacking written) ↔
        service.CanWrite ∧ service.HasGap ∧
          isName (service.resolver.tagFor envelopeType) = true ∧
            isName (service.resolver.tagFor treeType) = true)) ∧
    (service.converters.AskByName → ∀ mode event v written result,
      service.converters.Encodes (service.writeContext mode event) v written result →
      ∀ w ∈ written, ∀ u, ¬w.Fills u) ∧
    (service.charset = .ok .utf8 → ∀ typeId fields entries written e,
      service.LacksConverter typeId → service.resolver.Resolves typeId →
      service.converters.Encodes (service.writeContext .document none)
        (.object typeId fields entries) written (.ok e) → e.WellFormed →
      ∃ bytes place, service.SavesElement (.object typeId fields entries) written (.ok bytes) ∧
        ∀ result, service.LoadsElement ⟨bytes, none⟩ result ↔
          result = .error (.malformed (.noCoder typeId) place)) := by
  intro service
  refine ⟨?_, fun event => ?_, ?_, exists_savesPlan_lacking_iff, ?_, ?_⟩
  · simp only [exists_savesElement_iff, exists_and_left, exists_encodes_lacking_iff]
  · simp only [exists_savesRecord_iff, exists_and_left, exists_encodes_lacking_iff]
  · rintro ⟨plan, written, bytes, h, hlacking⟩
    obtain ⟨hwrite, hgap, henvelope, -⟩ := of_savesPlan_lacking h hlacking
    exact ⟨hwrite, hgap, henvelope⟩
  · intro hnames mode event v written result hencodes w hw u hfills
    have hnamed := Converters.isNamed_of_writes hnames (Q := fun _ => True) hencodes
      ⟨trivial, fun _ => trivial⟩ w hw
    cases hfills
    exact hnamed
  · exact fun hcharset _ _ _ _ _ hlacks hresolves hencodes hwellFormed =>
      refused_of_lacking hcharset hlacks hresolves hencodes hwellFormed

/-- Samples need a converter. -/
def sampleSetup : Archive.Setup where
  codecs := fun _ => .ascii
  settings := { expectedChecksum := none }
  known := ⟨KnownTypes.builtIn.types ++ [("TestPlan", false), (sampleType, true), ("Parcel", true)]⟩

/-- Definitions that give samples a tag and no converter. -/
def sampleTags : Definition.Source :=
  ⟨[("_version", "4.0"), ("jmeterTestPlan", envelopeType), ("hashTree", treeType),
    ("sample", sampleType)]⟩

def uncoded : Service := build sampleSetup.toService sampleTags ""

/-- A converter of one's own: a parcel holds its entries in an element inside. -/
def parcel : Converter where
  name := "parcel"
  claims typeId := typeId == "Parcel"
  write _ v :=
    match v with
    | .object _ _ entries => Filling.addInside { name := "inside" } (Filling.entries entries)
    | _ => Filling.refuse (.other "Not a parcel")
  read _ typeId e := do
    return .object typeId [] (← Reading.entries (e.children.flatMap Element.children))

def parcelSetup : Setup :=
  { sampleSetup.toSetup with factories := ⟨[("parcel", .plain parcel)]⟩ }

def parcelTags : Definition.Source :=
  ⟨sampleTags.pairs ++ [("_parcel", ""), ("parcel", "Parcel")]⟩

def posted : Service := build parcelSetup parcelTags ""

theorem lacksConverter_uncoded : uncoded.LacksConverter sampleType := ⟨rfl, rfl⟩

theorem laysOutPlans_uncoded : uncoded.converters.LaysOutPlans := ⟨rfl, rfl⟩

theorem lacksConverter_posted : posted.LacksConverter sampleType := ⟨rfl, rfl⟩

theorem isName_sample_uncoded : isName (uncoded.resolver.tagFor sampleType) = true := by decide

theorem isName_sample_posted : isName (posted.resolver.tagFor sampleType) = true := by decide

theorem askByName_posted : posted.converters.AskByName := by
  have hparcel : parcel.AsksByName := by
    intro context v
    cases v with
    | object typeId fields entries =>
      have hentries := (Filling.addsByName_entries entries).asksByName
      exact (Filling.addsByName_addInside { name := "inside" } hentries).asksByName
    | _ => exact (Filling.addsByName_refuse _).asksByName
  have hconverters : posted.converters = Converters.basic.add parcel := rfl
  rw [hconverters]
  intro converter hmem
  rcases List.mem_append.mp hmem with hbasic | hown
  · exact Converters.askByName_ofRoster .basic converter hbasic
  · exact List.mem_singleton.mp hown ▸ hparcel

/-- A parcel with a sample inside. -/
def sampleParcel : Value := .object "Parcel" [] [.object sampleType [] []]

/-- The sample is written on the way. -/
theorem encodes_sampleParcel :
    ∃ written e, posted.converters.Encodes (posted.writeContext .log none) sampleParcel written
      (.ok e) ∧ posted.NamesLacking written := by
  have hsample := Converters.writes_hollow (posted.writeContext .log none)
    lacksConverter_posted.2 isName_sample_posted
  have hstart : (posted.writeContext .log none).encoder.startValue sampleParcel =
      .ok { name := "parcel" } := Encoder.startValue_eq_ok.mpr ⟨by decide, rfl⟩
  have hanswer : ∃ e, posted.converters.Writes (posted.writeContext .log none)
      (posted.converters.answer (posted.writeContext .log none) (.value sampleParcel))
      [⟨.value (.object sampleType [] []), .ok { name := "sample" }⟩] (.ok e) := by
    rw [Converters.answer, hstart]
    exact ⟨_, .ask hsample (.done _)⟩
  obtain ⟨e, hanswer⟩ := hanswer
  exact ⟨_, e, Converters.writes_request.mpr ⟨_, hanswer, rfl⟩, _, List.mem_cons_self,
    sampleType, [], [], lacksConverter_posted, .value⟩

theorem lacking_saved_small :
    (∃ v written bytes, uncoded.SavesElement v written (.ok bytes) ∧
        uncoded.NamesLacking written) ∧
      (∃ plan written bytes, uncoded.SavesPlan plan written (.ok bytes) ∧
        uncoded.NamesLacking written) ∧
      (∃ v written bytes, posted.SavesRecord v none written (.ok bytes) ∧
        posted.NamesLacking written) ∧
      (∃ written e, posted.converters.Encodes (posted.writeContext .log none) sampleParcel written
        (.ok e) ∧ posted.NamesLacking written ∧ ∀ w ∈ written, ∀ u, ¬w.Fills u) ∧
      ∃ written bytes place, posted.SavesElement (.object sampleType [] []) written (.ok bytes) ∧
        ∀ result, posted.LoadsElement ⟨bytes, none⟩ result ↔
          result = .error (.malformed (.noCoder sampleType) place) := by
  obtain ⟨helement, -, -, hplan, -, -⟩ := lacking_saved_iff sampleSetup.toService sampleTags ""
  obtain ⟨-, hrecord, -, -, hnamed, hrefused⟩ := lacking_saved_iff parcelSetup parcelTags ""
  have hgap : uncoded.HasGap := ⟨sampleType, lacksConverter_uncoded, isName_sample_uncoded⟩
  have hencodes := Converters.writes_request.mpr ⟨_, Converters.writes_hollow
    (posted.writeContext .document none) lacksConverter_posted.2 isName_sample_posted,
    rfl⟩
  have hwellFormed : Element.WellFormed { name := posted.resolver.tagFor sampleType } :=
    .mk isName_sample_posted (List.forall_mem_nil _) List.nodup_nil (.inl rfl)
      (List.forall_mem_nil _)
  have hsample := hrefused rfl sampleType [] [] _ _ lacksConverter_posted ⟨by decide, true, rfl⟩
    hencodes hwellFormed
  obtain ⟨written, e, hparcel, hlacking⟩ := encodes_sampleParcel
  have hnames := hnamed askByName_posted _ _ _ _ _ hparcel
  refine ⟨?_, ?_, ?_, ⟨written, e, hparcel, hlacking, hnames⟩, _, hsample⟩
  · exact helement.mpr ⟨⟨.utf8, rfl, rfl⟩, hgap⟩
  · exact (hplan laysOutPlans_uncoded).mpr ⟨⟨.utf8, rfl, rfl⟩, hgap, by decide, by decide⟩
  · exact (hrecord none).mpr
      ⟨⟨.utf8, rfl, rfl⟩, sampleType, lacksConverter_posted, isName_sample_posted⟩

def uncodedSample : Bytes := utf8 "<?xml version=\"1.0\" encoding=\"UTF-8\"?>\n<sample/>\n"

set_option maxRecDepth 20000 in
theorem elementsOf_uncodedSample :
    Archive.elementsOf .utf8 ⟨uncodedSample, none⟩ = .ok [⟨"sample", [], none, [], 2⟩] := by
  rfl

theorem elementDocument_uncodedSample :
    (Archive.build sampleSetup sampleTags "").elementDocument (.object sampleType [] []) =
      .ok uncodedSample := by
  refine (Archive.elementDocument_eq_ok rfl).mpr ⟨{ name := "sample" }, ?_, rfl⟩
  refine Encoder.encode_of_fill isName_sample_uncoded ((Encoder.fill_object _ rfl).mpr ?_)
  exact ⟨[], [], by rw [Encoder.encodeFields], by rw [Encoder.encodeAll], rfl⟩

/-- A sample is saved where samples have no converter, and the document is refused for want of
it. -/
theorem sample_saved_uncoded :
    uncoded.LacksConverter sampleType ∧ ∃ written,
      uncoded.SavesElement (.object sampleType [] []) written (.ok uncodedSample) ∧
        uncoded.NamesLacking written ∧
        ∀ result, uncoded.LoadsElement ⟨uncodedSample, none⟩ result ↔
          result = .error (.malformed (.noCoder sampleType)
            { line := some 2, path := some "/sample" }) := by
  have harchive : uncoded = (Archive.build sampleSetup sampleTags "").toService :=
    Archive.toService_build sampleSetup sampleTags ""
  obtain ⟨written, hsaves⟩ :=
    Archive.savesElement_toService.mpr elementDocument_uncodedSample.symm
  rw [← harchive] at hsaves
  refine ⟨lacksConverter_uncoded, written, hsaves,
    namesLacking_of_savesElement hsaves lacksConverter_uncoded, fun result => ?_⟩
  rw [harchive, Archive.loadsElement_toService,
    Archive.loadElement_of_elementsOf rfl elementsOf_uncodedSample]
  rfl

end Service

end PlanArchive
