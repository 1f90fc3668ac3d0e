import PlanArchive.Proofs.Archive.Document
import PlanArchive.Proofs.Coding.Survival

/-!
# Records saved and loaded

A record is delivered as it was saved, up to the order of fields, exactly if it is sound at every
depth (`loadRecords_record_iff`). A record that is not sound may be saved all the same.
-/

namespace PlanArchive.Archive

open Coding Markup Naming

section

variable {archive : Archive}

/-- In a charset that can be written, a record is saved just when it has an element. -/
theorem record_writable {charset : Charset} (hcharset : archive.charset = .ok charset)
    (hwritable : charset.isWritable = true) {value : Value} {event : Option Event}
    {bytes : Bytes} :
    archive.record value event = .ok bytes ↔
      ∃ e, (archive.encoder event).encode value = .ok e ∧
        bytes = charset.octetsOf (e.render ++ ['\n']) := by
  have hencode : ∀ text, charset.encode text = .ok (charset.octetsOf text) := fun text => by
    rw [Charset.encode, Charset.encode?, if_pos hwritable]
  rw [record, hcharset]
  simp [Result.bind_eq_ok, Result.mapError_eq_ok, hencode, eq_comm (a := bytes)]

/-! ## UTF-8 -/

theorem record_eq_ok (hcharset : archive.charset = .ok .utf8) {value : Value}
    {event : Option Event} {bytes : Bytes} :
    archive.record value event = .ok bytes ↔
      ∃ e, (archive.encoder event).encode value = .ok e ∧
        bytes = Text.Utf8.encode (e.render ++ ['\n']) :=
  record_writable hcharset rfl

theorem elementsOf_record {e : Element} (h : e.WellFormed) :
    ∃ e', e.ReadAs e' ∧
      elementsOf .utf8 ⟨Text.Utf8.encode (e.render ++ ['\n']), none⟩ = .ok [e'] := by
  obtain ⟨e', hread, helements⟩ := readElements_render h
  refine ⟨e', hread, ?_⟩
  obtain ⟨cs, hcs⟩ := e.exists_print 0
  rw [Element.render, hcs, List.cons_append] at helements ⊢
  rw [elementsOf_utf8 (by decide), helements]
  rfl

/-! ## One element -/

/-- A value of a traceable type is not read as a wrapper. -/
theorem typeId?_ne_wrapperType {decoder : Decoder} {path : List String} {e : Element}
    {v value : Value} (htraceable : Traceable decoder.resolver v)
    (h : Gives (decoder.readTyped path (some (tagOf decoder.resolver v)) e) value) :
    value.typeId? ≠ some wrapperType := by
  by_cases htag : tagOf decoder.resolver v = nullTag
  · have hnull : value = .null := gives_pure (by simpa [Decoder.readTyped, htag] using h)
    rw [hnull]
    rintro ⟨⟩
  · cases htype : v.typeId? with
    | none => exact absurd (by rw [tagOf, htype]) htag
    | some typeId =>
      obtain ⟨hne, needsCoder, hbinding⟩ := htraceable typeId htype
      have htag' : tagOf decoder.resolver v = decoder.resolver.tagFor typeId := by
        rw [tagOf, htype]
      rw [htag'] at h htag
      rw [Decoder.readTyped_of_binding htag hbinding] at h
      rw [Decoder.typeId?_of_readAs h]
      intro heq
      exact hne (Option.some.inj heq)

/-- An element delivers what was handed over on the way and, unless it is a wrapper, its value. -/
theorem recordsOf_single {decoder : Decoder} {e : Element} {value : Value} {ledger : Ledger}
    (h : decoder.decodeRoot e = (.ok value, ledger)) :
    recordsOf decoder [e] = (ledger.delivered ++
      if value.typeId? = some wrapperType then [] else [value], .ok ()) := by
  simp only [recordsOf, h, List.append_nil, beq_iff_eq]

theorem recordsOf_of_decodeRoot {decoder : Decoder} {e : Element} {value : Value}
    {ledger : Ledger} (h : decoder.decodeRoot e = (.ok value, ledger))
    (hwrapper : value.typeId? ≠ some wrapperType) :
    recordsOf decoder [e] = (ledger.delivered ++ [value], .ok ()) := by
  rw [recordsOf_single h, if_neg hwrapper]

/-- What an element delivers is what it was decoded to. -/
theorem gives_of_recordsOf (hroster : archive.roster.Standard) {v w : Value}
    (htraceable : Traceable archive.resolver v) {e' : Element}
    (hwrites : (archive.decoder .log).Writes v e')
    (h : recordsOf (archive.decoder .log) [e'] = ([w], .ok ())) :
    Gives ((archive.decoder .log).decodeTagged [] e') w := by
  cases hroot : (archive.decoder .log).decodeRoot e' with
  | mk result ledger =>
    cases result with
    | error failure =>
      simp only [recordsOf, hroot] at h
      cases congrArg Prod.snd h
    | ok value =>
      have hgives : Gives ((archive.decoder .log).decodeTagged [] e') value := ⟨{}, ledger, hroot⟩
      obtain ⟨hname, e₀, e, hopened, hfill, hread⟩ := hwrites.filled hroster
      have hread' := hgives
      rw [Decoder.decodeTagged, Decoder.decode_filled hroster hopened hfill hread, hname] at hread'
      have hwrapper := typeId?_ne_wrapperType htraceable hread'
      rw [recordsOf_of_decodeRoot hroot hwrapper, Prod.mk.injEq] at h
      obtain ⟨-, hvalue⟩ := List.append_eq_singleton_iff.mp h.1 |>.resolve_right (by simp)
      exact List.singleton_inj.mp hvalue ▸ hgives

/-! ## Records -/

section

variable (hroster : archive.roster.Standard) (hcharset : archive.charset = .ok .utf8)

include hcharset

/-- What was written for a saved record is the one element of the file. -/
theorem exists_writes_of_record {v : Value} {bytes : Bytes}
    (h : archive.record v none = .ok bytes) :
    ∃ e', (archive.decoder .log).Writes v e' ∧
      archive.loadRecords ⟨bytes, none⟩ = recordsOf (archive.decoder .log) [e'] := by
  obtain ⟨e, hencode, rfl⟩ := (record_eq_ok hcharset).mp h
  obtain ⟨e', hread, helements⟩ := elementsOf_record
    (Encoder.wellFormed_encode (archive.encoder none) hencode)
  exact ⟨e', ⟨e, hencode, hread⟩, loadRecords_of_elementsOf hcharset helements⟩

include hroster

theorem loadRecords_of_sound {v : Value} (htext : v.text? = none)
    (htraceable : Traceable archive.resolver v)
    (h : v.Everywhere (archive.decoder .log).Sound) {bytes : Bytes}
    (hrecord : archive.record v none = .ok bytes) :
    archive.loadRecords ⟨bytes, none⟩ = ([settle archive.roster v], .ok ()) := by
  obtain ⟨e', ⟨e, hencode, hread⟩, hload⟩ := exists_writes_of_record hcharset hrecord
  have hroot := Decoder.decodeRoot_written (archive.decoder .log) hroster
    (h.mono fun _ hw => hw.1) htext hencode hread
  rw [hload, recordsOf_of_decodeRoot hroot]
  · rfl
  · rw [typeId?_settle]
    intro htype
    exact (htraceable wrapperType htype).1 rfl

/-- A record that is delivered alike is sound at every depth. -/
theorem sound_of_loadRecords {v : Value} (htraceable : v.Everywhere (Traceable archive.resolver))
    {bytes : Bytes} (hrecord : archive.record v none = .ok bytes) {w : Value}
    (hload : archive.loadRecords ⟨bytes, none⟩ = ([w], .ok ())) (halike : v.Alike w) :
    v.Everywhere (archive.decoder .log).Sound := by
  obtain ⟨e', hwrites, heq⟩ := exists_writes_of_record hcharset hrecord
  have hgives := gives_of_recordsOf hroster htraceable.here hwrites (heq.symm.trans hload)
  exact Decoder.sound_of_survives hroster htraceable
    (Decoder.survives_of_givenBack hroster ⟨[], e', hwrites, hgives⟩ halike)

end

end

/-- A saved record whose types are told by their tags is delivered as it was, up to the order of
fields, exactly if it is sound at every depth. -/
theorem loadRecords_record_iff (archive : Archive) (hroster : archive.roster.Standard)
    (hcharset : archive.charset = .ok .utf8) {typeId : String}
    {fields : List (String × Value)} {entries : List Value}
    (htraceable : (Value.object typeId fields entries).Everywhere (Traceable archive.resolver))
    {bytes : Bytes}
    (hrecord : archive.record (.object typeId fields entries) none = .ok bytes) :
    (∃ w, archive.loadRecords ⟨bytes, none⟩ = ([w], .ok ()) ∧
        (Value.object typeId fields entries).Alike w) ↔
      (Value.object typeId fields entries).Everywhere (archive.decoder .log).Sound := by
  constructor
  · rintro ⟨w, hload, halike⟩
    exact sound_of_loadRecords hroster hcharset htraceable hrecord hload halike
  · intro h
    exact ⟨_, loadRecords_of_sound hroster hcharset rfl htraceable.here h hrecord,
      alike_settle (h.mono fun _ hw => hw.2)⟩

/-! ## Records of a small archive -/

/-- A sample of a label and some entries. -/
def labelled (entries : List Value) : Value :=
  .object sampleType [("lb", .text "home")] entries

theorem encode_labelled {entries : List Value} {members : List Element}
    (h : List.Forall₂ (fun v e => (small.encoder none).encode v = .ok e) entries members) :
    (small.encoder none).encode (labelled entries) =
      .ok { name := "sample", attributes := [("lb", "home")], children := members } := by
  have hcoder : (small.encoder none).roster.coderFor sampleType = .sample := rfl
  have hname : isName "sample" = true := by decide
  refine Encoder.encode_of_fill hname ((Encoder.fill_sample _ hcoder).mpr ?_)
  refine ⟨{ name := "sample", attributes := [("lb", "home")] }, [], members, rfl,
    Encoder.encodeStructured_eq_ok.mpr .nil, Encoder.encodeAll_eq_ok.mpr h, rfl⟩

theorem exists_record_labelled {entries : List Value} {members : List Element}
    (h : List.Forall₂ (fun v e => (small.encoder none).encode v = .ok e) entries members) :
    ∃ bytes, small.record (labelled entries) none = .ok bytes :=
  ⟨_, (record_eq_ok rfl).mpr ⟨_, encode_labelled h, rfl⟩⟩

theorem everywhere_labelled {P : Value → Prop} {entries : List Value} :
    (labelled entries).Everywhere P ↔
      P (labelled entries) ∧ P (.text "home") ∧ ∀ entry ∈ entries, entry.Everywhere P := by
  rw [labelled, Value.everywhere_object, List.forall_mem_singleton, Value.everywhere_text]

theorem traceable_labelled (entries : List Value) :
    Traceable small.resolver (labelled entries) := by
  intro typeId htype
  obtain rfl := Option.some.inj htype
  exact ⟨by decide, true, rfl⟩

theorem traceable_text (s : String) : Traceable small.resolver (.text s) := by
  intro typeId htype
  obtain rfl := Option.some.inj htype
  exact ⟨by decide, false, rfl⟩

theorem sound_nested : (labelled [labelled []]).Everywhere (small.decoder .log).Sound := by
  have hresolves : small.resolver.Resolves sampleType := ⟨by decide, true, rfl⟩
  have htyped : Typed small.resolver (labelled []) := fun _ htype =>
    Option.some.inj htype ▸ hresolves
  have hinner : (small.decoder .log).Sound (labelled []) :=
    ⟨⟨hresolves, ⟨by decide, List.forall_mem_nil _, List.forall_mem_nil _⟩,
      List.forall_mem_nil _⟩, .refl _⟩
  have houter : (small.decoder .log).Sound (labelled [labelled []]) :=
    ⟨⟨hresolves, ⟨by decide, List.forall_mem_nil _, List.forall_mem_singleton.mpr rfl⟩,
      List.forall_mem_singleton.mpr htyped⟩, .refl _⟩
  exact everywhere_labelled.mpr ⟨houter, ⟨trivial, trivial⟩, List.forall_mem_singleton.mpr
    (everywhere_labelled.mpr ⟨hinner, ⟨trivial, trivial⟩, List.forall_mem_nil _⟩)⟩

theorem loadRecords_record_nested :
    ∃ bytes, small.record (labelled [labelled []]) none = .ok bytes ∧
      ∃ w, small.loadRecords ⟨bytes, none⟩ = ([w], .ok ()) ∧ (labelled [labelled []]).Alike w := by
  obtain ⟨bytes, hrecord⟩ := exists_record_labelled (.cons (encode_labelled .nil) .nil)
  have htraceable : (labelled [labelled []]).Everywhere (Traceable small.resolver) :=
    everywhere_labelled.mpr ⟨traceable_labelled _, traceable_text _, List.forall_mem_singleton.mpr
      (everywhere_labelled.mpr ⟨traceable_labelled _, traceable_text _, List.forall_mem_nil _⟩)⟩
  exact ⟨bytes, hrecord,
    (loadRecords_record_iff small standard_small rfl htraceable hrecord).mpr sound_nested⟩

/-- A text among the entries comes back as a field. -/
theorem record_text_entry_altered :
    ∃ bytes, small.record (labelled [.text "x"]) none = .ok bytes ∧
      ¬∃ w, small.loadRecords ⟨bytes, none⟩ = ([w], .ok ()) ∧ (labelled [.text "x"]).Alike w := by
  have hname : isName "string" = true := by decide
  have htext : (small.encoder none).encode (.text "x") =
      .ok { name := "string", text := some "x" } :=
    Encoder.encode_of_fill hname (Encoder.fill_text _ standard_small _ _)
  obtain ⟨bytes, hrecord⟩ := exists_record_labelled (.cons htext .nil)
  have htraceable : (labelled [.text "x"]).Everywhere (Traceable small.resolver) :=
    everywhere_labelled.mpr ⟨traceable_labelled _, traceable_text _, List.forall_mem_singleton.mpr
      (Value.everywhere_text.mpr (traceable_text _))⟩
  refine ⟨bytes, hrecord, ?_⟩
  rintro ⟨w, hload, halike⟩
  have hsound := sound_of_loadRecords standard_small rfl htraceable hrecord hload halike
  obtain ⟨⟨-, ⟨-, -, htags⟩, -⟩, -⟩ := hsound.here
  cases htags _ (List.mem_singleton.mpr rfl)

end PlanArchive.Archive
