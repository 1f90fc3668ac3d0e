import PlanArchive.Proofs.Archive.RecordRoundTrip
import PlanArchive.Proofs.Coding.Modes

/-!
# Documents and logs of one element

The document of a value is the header and the record of the value, in every charset that can be
written; the codec of an East Asian one is asked to keep ASCII. In UTF-8, where one element is all
there is and it stands for itself, the document and the log are read alike
(`document_and_log_agree`).
-/

namespace PlanArchive

open Coding Markup Naming

namespace Charset

/-- Behind plain ASCII a text has the octets that it has alone. -/
theorem octetsOf_append {charset : Charset} (hkeeps : charset.KeepsAscii) {front : List Char}
    (h : ∀ c ∈ front, Codec.isPlain c) (back : List Char) :
    charset.octetsOf (front ++ back) = charset.octetsOf front ++ charset.octetsOf back := by
  cases charset with
  | eastAsian _ codec => exact hkeeps.append h back
  | _ => exact List.flatMap_append

/-- The octets of the header and the end of its line. -/
def headerLine (charset : Charset) : Bytes := charset.octetsOf (charset.header.toList ++ ['\n'])

theorem isPlain_of_mem_header (charset : Charset) :
    ∀ c ∈ charset.header.toList ++ ['\n'], Codec.isPlain c := by
  intro c hc
  rw [header_eq] at hc
  simp only [List.mem_append, List.mem_cons, List.not_mem_nil, or_false] at hc
  rcases hc with (rfl | rfl | hc | rfl | rfl) | rfl
  case inl.inr.inr.inl => exact (charset.plain_of_mem_declaration c hc).1
  all_goals decide

end Charset

namespace Archive

variable {archive : Archive}

theorem elementDocument_eq_record {charset : Charset} (hcharset : archive.charset = .ok charset)
    (hwritable : charset.isWritable = true) (hkeeps : charset.KeepsAscii) {value : Value}
    {document : Bytes} :
    archive.elementDocument value = .ok document ↔
      ∃ bytes, archive.record value none = .ok bytes ∧
        document = charset.headerLine ++ bytes := by
  have htext : ∀ e, charset.octetsOf (textIn charset e) =
      charset.headerLine ++ charset.octetsOf (e.render ++ ['\n']) := fun e => by
    rw [Charset.headerLine, ← Charset.octetsOf_append hkeeps charset.isPlain_of_mem_header, textIn]
    simp
  rw [elementDocument_writable hcharset hwritable]
  constructor
  · rintro ⟨e, hencode, rfl⟩
    exact ⟨_, (record_writable hcharset hwritable).mpr ⟨e, hencode, rfl⟩, htext e⟩
  · rintro ⟨bytes, hrecord, rfl⟩
    obtain ⟨e, hencode, rfl⟩ := (record_writable hcharset hwritable).mp hrecord
    exact ⟨e, hencode, (htext e).symm⟩

/-- One element that stands for itself is the one record of a log if it is the value of a document,
and otherwise fails in both. -/
theorem loadRecords_eq_loadElement {charset : Charset} (hcharset : archive.charset = .ok charset)
    {source : Source} {root : Element} (hroot : elementsOf charset source = .ok [root])
    (h : ∀ e : Element, e.Occurs root → SelfContained archive.resolver e) :
    archive.loadRecords source = match archive.loadElement source with
      | .ok value => ([value], .ok ())
      | .error failure => ([], .error failure) := by
  have hmirrors : Decoder.MirrorsAt archive.resolver archive.roster root :=
    Decoder.mirrors_decode h root .here
  obtain ⟨result, hdocument, hlog⟩ := hmirrors [root.name] (some root.name) (.inl rfl)
  have hdocument : ((archive.decoder .document).decodeRoot root).1 = result := hdocument {}
  have hlog : (archive.decoder .log).decodeRoot root = (result, {}) := hlog {}
  rw [loadRecords_of_elementsOf hcharset hroot, loadElement_of_elementsOf hcharset hroot, hdocument]
  cases result with
  | error failure => simp only [recordsOf, hlog]
  | ok value =>
    have hgives : Gives ((archive.decoder .log).decode [root.name] (some root.name) root) value :=
      ⟨{}, {}, hlog⟩
    have hwrapper : value.typeId? ≠ some wrapperType :=
      Decoder.typeId?_ne_wrapper (h root .here) hgives
    rw [recordsOf_of_decodeRoot hlog hwrapper]
    rfl

/-- A value is saved as a document just when it is saved as a record, and the document is the record
behind the header. In UTF-8, one element without references and without a wrapper is the value of a
document just when it is the one record of a log, and else fails alike in both. -/
theorem document_and_log_agree {charset : Charset} (hcharset : archive.charset = .ok charset)
    (hwritable : charset.isWritable = true) (hkeeps : charset.KeepsAscii) :
    (∀ value document, archive.elementDocument value = .ok document ↔
      ∃ bytes, archive.record value none = .ok bytes ∧ document = charset.headerLine ++ bytes) ∧
    (charset = .utf8 → ∀ source root, elementsOf .utf8 source = .ok [root] →
      (∀ e : Element, e.Occurs root → SelfContained archive.resolver e) →
      (∀ value, archive.loadElement source = .ok value ↔
        archive.loadRecords source = ([value], .ok ()) ∧ archive.countRecords source = .ok 1) ∧
      ∀ failure, archive.loadElement source = .error failure ↔
        archive.loadRecords source = ([], .error failure) ∧
          archive.countRecords source = .error failure) := by
  refine ⟨fun value document => elementDocument_eq_record hcharset hwritable hkeeps, ?_⟩
  rintro rfl source root hroot h
  have hrecords := loadRecords_eq_loadElement hcharset hroot h
  have hcount : archive.countRecords source =
      (archive.loadElement source).map fun _ => 1 := by
    rw [countRecords_eq, hrecords]
    cases archive.loadElement source <;> rfl
  rw [hcount, hrecords]
  cases archive.loadElement source with
  | ok found =>
    refine ⟨fun value => ?_, fun failure => iff_of_false nofun (fun h => nomatch h.2)⟩
    simp [Except.map]
  | error found =>
    refine ⟨fun value => iff_of_false nofun (fun h => nomatch h.2), fun failure => ?_⟩
    simp [Except.map]

/-- A sample in a sample. -/
def nestedSource : Source :=
  ⟨Text.Utf8.encode "<sample lb=\"home\"><sample lb=\"home\"/></sample>\n".toList, none⟩

def nestedRoot : Element :=
  ⟨"sample", [("lb", "home")], none, [⟨"sample", [("lb", "home")], none, [], 1⟩], 1⟩

theorem selfContained_nestedRoot :
    ∀ e : Element, e.Occurs nestedRoot → SelfContained small.resolver e := by
  have hsample : ∀ children line, SelfContained small.resolver
      ⟨"sample", [("lb", "home")], none, children, line⟩ := by
    intro children line
    refine ⟨rfl, ?_⟩
    rintro tag binding (rfl | hclass) hbinding
    · obtain rfl : (⟨sampleType, true⟩ : Binding) = binding := Option.some.inj hbinding
      decide
    · cases hclass
  refine Element.forall_occurs.mpr ⟨hsample _ _, List.forall_mem_singleton.mpr ?_⟩
  exact Element.forall_occurs.mpr ⟨hsample _ _, List.forall_mem_nil _⟩

/-- The small archive in Shift_JIS. -/
def smallShiftJis : Archive := { small with charset := .ok (.eastAsian .shiftJis .ascii) }

def labelledRecord : Bytes := utf8 "<sample lb=\"home\"/>\n"

theorem record_smallShiftJis : smallShiftJis.record (labelled []) none = .ok labelledRecord :=
  (record_writable rfl rfl).mpr ⟨_, encode_labelled .nil, rfl⟩

theorem document_and_log_agree_nested :
    (small.loadElement nestedSource = .ok (labelled [labelled []]) ∧
      small.loadRecords nestedSource = ([labelled [labelled []]], .ok ()) ∧
      small.countRecords nestedSource = .ok 1 ∧
      ∀ value document, small.elementDocument value = .ok document ↔
        ∃ bytes, small.record value none = .ok bytes ∧
          document = Charset.utf8.headerLine ++ bytes) ∧
      smallShiftJis.elementDocument (labelled []) =
        .ok (utf8 "<?xml version=\"1.0\" encoding=\"Shift_JIS\"?>\n" ++ labelledRecord) := by
  have hroot : elementsOf .utf8 nestedSource = .ok [nestedRoot] := rfl
  have hload : small.loadElement nestedSource = .ok (labelled [labelled []]) :=
    loadElement_eq_ok.mpr ⟨nestedRoot, loadRoot_eq_ok.mpr ⟨.utf8, rfl, hroot, rfl⟩⟩
  have hcharset : small.charset = .ok .utf8 := rfl
  obtain ⟨hsaved, hloaded⟩ := document_and_log_agree hcharset rfl trivial
  obtain ⟨hrecords, hcount⟩ :=
    ((hloaded rfl nestedSource nestedRoot hroot selfContained_nestedRoot).1 _).mp hload
  refine ⟨⟨hload, hrecords, hcount, hsaved⟩, ?_⟩
  have hshiftJis : smallShiftJis.charset = .ok (.eastAsian .shiftJis .ascii) := rfl
  obtain ⟨hsaved, -⟩ := document_and_log_agree hshiftJis rfl Codec.ascii_keepsAscii
  exact (hsaved _ _).mpr ⟨_, record_smallShiftJis, rfl⟩

end Archive

end PlanArchive
