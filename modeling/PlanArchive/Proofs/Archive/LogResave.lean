import PlanArchive.Proofs.Archive.LogAppend
import PlanArchive.Proofs.Archive.RecordRoundTrip
import PlanArchive.Proofs.Archive.Resave

/-!
# Logs saved again

What a log delivers can be restored, in records as in the wrappers that stay behind in them
(`restorable_of_recordsOf`). So a log that was loaded and saved is saved again octet by octet as
before (`records_resaved`).
-/

namespace PlanArchive.Archive

open Coding Markup Naming

/-- Records that are saved one after another. -/
def Saves (archive : Archive) (records : List Value) (outputs : List Bytes) : Prop :=
  List.Forall₂ (fun record bytes => archive.record record none = .ok bytes) records outputs

section

variable {archive : Archive}

/-- Elements on lines of their own are read back. -/
theorem elementsOf_lines {es : List Element} (h : ∀ e ∈ es, e.WellFormed) :
    ∃ es', List.Forall₂ Element.ReadAs es es' ∧
      elementsOf .utf8 ⟨Text.Utf8.encode (es.flatMap fun e => e.render ++ ['\n']), none⟩ =
        .ok es' := by
  have hmark : ∀ es : List Element, ¬Charset.utf8.mark <+:
      Text.Utf8.encode (es.flatMap fun e => e.render ++ ['\n']) := by
    intro es
    apply not_mark_prefix_encode
    cases es with
    | nil => rintro ⟨⟩
    | cons e es =>
      obtain ⟨cs, hcs⟩ := e.exists_print 0
      rw [List.flatMap_cons, Element.render, hcs]
      exact fun h => absurd (Option.some.inj h) (by decide)
  induction es with
  | nil => exact ⟨[], .nil, rfl⟩
  | cons e es ih =>
    obtain ⟨hwell, hwells⟩ := List.forall_mem_cons.mp h
    obtain ⟨e', hread, helement⟩ := elementsOf_record hwell
    obtain ⟨es', hreads, helements⟩ := ih hwells
    have hfirst : ¬Charset.utf8.mark <+: Text.Utf8.encode (e.render ++ ['\n']) := by
      simpa using hmark [e]
    have hall := elementsOf_append hfirst (hmark es) helement helements
    rw [← Text.Utf8.encode_append] at hall
    refine ⟨_, List.rel_append (.cons hread .nil) ?_, hall⟩
    rw [List.forall₂_map_right_iff]
    exact hreads.imp fun _ _ h => Element.readAs_later h _

/-- What the elements of a log deliver can be restored. -/
theorem restorable_of_recordsOf (hroster : archive.roster.Standard)
    (hconsistent : archive.resolver.Consistent) (es : List Element) :
    ∀ v ∈ (recordsOf (archive.decoder .log) es).1,
      v.Everywhere (archive.decoder .log).Restorable ∧ Typed archive.resolver v := by
  induction es with
  | nil => exact List.forall_mem_nil _
  | cons e es ih =>
    have hreads : (archive.decoder .log).ReadsRestorably e :=
      Decoder.readsRestorably hroster hconsistent (by rintro ⟨⟩) e .here
    have hroot := hreads [e.name] (some e.name) {} (List.forall_mem_nil _)
    rw [recordsOf]
    change (archive.decoder .log).HandsOver ((archive.decoder .log).decodeRoot e).2 ∧
      (∀ v, ((archive.decoder .log).decodeRoot e).1 = .ok v → _) at hroot
    cases hdecode : (archive.decoder .log).decodeRoot e with
    | mk result ledger =>
      rw [hdecode] at hroot
      obtain ⟨hdelivered, hvalue⟩ := hroot
      cases result with
      | error failure => exact hdelivered
      | ok value =>
        obtain ⟨hrestorable, hanswers⟩ := hvalue value rfl
        have hown : ∀ v ∈ if value.typeId? == some wrapperType then [] else [value],
            v.Everywhere (archive.decoder .log).Restorable ∧ Typed archive.resolver v := by
          split
          · exact List.forall_mem_nil _
          · exact List.forall_mem_singleton.mpr ⟨hrestorable, hconsistent.typed (hanswers _ rfl)⟩
        intro v hv
        rcases List.mem_append.mp hv with hv | hv
        · rcases List.mem_append.mp hv with hv | hv
          · exact hdelivered v hv
          · exact hown v hv
        · exact ih v hv

/-- Restorable records are delivered as they were written. -/
theorem recordsOf_writes (hroster : archive.roster.Standard) {records : List Value}
    {es : List Element} (hwrites : List.Forall₂ (archive.decoder .log).Writes records es)
    (hrestorable : ∀ v ∈ records,
      v.Everywhere (archive.decoder .log).Restorable ∧ Typed archive.resolver v)
    (hwrapper : ∀ v ∈ records, v.typeId? ≠ some wrapperType) :
    recordsOf (archive.decoder .log) es = (settleAll archive.roster records, .ok ()) := by
  induction hwrites with
  | nil => rfl
  | @cons v e records es hwrite _ ih =>
    obtain ⟨⟨hhere, htyped⟩, hrestorable⟩ := List.forall_mem_cons.mp hrestorable
    obtain ⟨htype, hwrapper⟩ := List.forall_mem_cons.mp hwrapper
    obtain ⟨_, hencode, hread⟩ := hwrite
    have hroot := Decoder.decodeRoot_restorable (archive.decoder .log) hroster hhere htyped
      hencode hread
    have hsettled : (settle archive.roster v).typeId? ≠ some wrapperType := by
      rwa [typeId?_settle]
    have hfirst := recordsOf_append (recordsOf_of_decodeRoot hroot hsettled) es
    rw [ih hrestorable hwrapper] at hfirst
    exact hfirst

/-- The elements that records are saved as. -/
theorem exists_elements_of_saves (hcharset : archive.charset = .ok .utf8) {records : List Value}
    {outputs : List Bytes} (h : archive.Saves records outputs) :
    ∃ es, List.Forall₂ (fun v e => (archive.encoder none).encode v = .ok e) records es ∧
      outputs.flatten = Text.Utf8.encode (es.flatMap fun e => e.render ++ ['\n']) := by
  induction h with
  | nil => exact ⟨[], .nil, rfl⟩
  | cons hfirst _ ih =>
    obtain ⟨e, hencode, rfl⟩ := (record_eq_ok hcharset).mp hfirst
    obtain ⟨es, hes, hbytes⟩ := ih
    refine ⟨e :: es, .cons hencode hes, ?_⟩
    rw [List.flatten_cons, List.flatMap_cons, hbytes, ← Text.Utf8.encode_append]

/-- Settled records are saved as before. -/
theorem Saves.settleAll (hroster : archive.roster.Standard)
    (hcharset : archive.charset = .ok .utf8) {records : List Value} {outputs : List Bytes}
    (h : archive.Saves records outputs) :
    archive.Saves (Coding.settleAll archive.roster records) outputs := by
  induction h with
  | nil => exact .nil
  | cons hfirst _ ih =>
    obtain ⟨e, hencode, hbytes⟩ := (record_eq_ok hcharset).mp hfirst
    have hsettled := Encoder.encode_settle (archive.encoder none) hroster hencode
    exact .cons ((record_eq_ok hcharset).mpr ⟨e, hsettled, hbytes⟩) ih

end

/-- Saving the records of a log is stable: the log that was saved is loaded again, and its records
are saved again as they stand. -/
theorem records_resaved (archive : Archive) (hroster : archive.roster.Standard)
    (hcharset : archive.charset = .ok .utf8) (hconsistent : archive.resolver.Consistent)
    {source : Source} {records : List Value}
    (hload : archive.loadRecords source = (records, .ok ()))
    (hwrapper : ∀ record ∈ records, record.typeId? ≠ some wrapperType) {outputs : List Bytes}
    (hsave : archive.Saves records outputs) :
    ∃ records', archive.loadRecords ⟨outputs.flatten, none⟩ = (records', .ok ()) ∧
      archive.Saves records' outputs := by
  have hcount : archive.countRecords source = .ok records.length := by
    rw [countRecords_eq, hload]
    rfl
  obtain ⟨es, hes, -, -⟩ := elementsOf_of_countRecords hcharset hcount
  rw [loadRecords_of_elementsOf hcharset hes] at hload
  have hrestorable := restorable_of_recordsOf hroster hconsistent es
  rw [hload] at hrestorable
  obtain ⟨written, hwritten, hbytes⟩ := exists_elements_of_saves hcharset hsave
  have hwell : ∀ e ∈ written, e.WellFormed := by
    intro e he
    obtain ⟨v, -, hencode⟩ := exists_left_of_forall₂ hwritten e he
    exact Encoder.wellFormed_encode (archive.encoder none) hencode
  obtain ⟨es', hread, helements⟩ := elementsOf_lines hwell
  refine ⟨settleAll archive.roster records, ?_, hsave.settleAll hroster hcharset⟩
  rw [hbytes, loadRecords_of_elementsOf hcharset helements]
  exact recordsOf_writes hroster (Decoder.writes_all hwritten hread) hrestorable hwrapper

/-! ## A log of a small archive -/

/-- A log that was not saved: the code of its one record is an element. -/
def looseLog : Source := ⟨utf8 "<sample lb=\"home\"><code>200</code></sample>", none⟩

/-- The record of the log. -/
def looseRecord : Value := .object sampleType [("lb", .text "home"), ("code", .text "200")] []

set_option maxRecDepth 20000 in
theorem elementsOf_looseLog : elementsOf .utf8 looseLog =
    .ok [⟨"sample", [("lb", "home")], none, [⟨"code", [], some "200", [], 1⟩], 1⟩] := by
  rfl

theorem loadRecords_looseLog : small.loadRecords looseLog = ([looseRecord], .ok ()) := by
  rw [loadRecords_of_elementsOf rfl elementsOf_looseLog]
  rfl

theorem exists_record_looseRecord :
    ∃ bytes, small.record looseRecord none = .ok bytes := by
  have hcoder : (small.encoder none).roster.coderFor sampleType = .sample := rfl
  refine ⟨_, (record_eq_ok rfl).mpr ⟨_, Encoder.encode_of_fill (by decide)
    ((Encoder.fill_sample _ hcoder).mpr ⟨_, [], [], rfl, ?_, ?_, rfl⟩), rfl⟩⟩
  · exact Encoder.encodeStructured_eq_ok.mpr .nil
  · exact Encoder.encodeAll_eq_ok.mpr .nil

theorem records_resaved_small :
    small.resolver.Consistent ∧ small.loadRecords looseLog = ([looseRecord], .ok ()) ∧
      ∃ bytes, small.Saves [looseRecord] [bytes] ∧ ∃ records',
        small.loadRecords ⟨[bytes].flatten, none⟩ = (records', .ok ()) ∧
          small.Saves records' [bytes] := by
  obtain ⟨bytes, hrecord⟩ := exists_record_looseRecord
  have hwrapper : ∀ record ∈ [looseRecord], record.typeId? ≠ some wrapperType :=
    List.forall_mem_singleton.mpr (by decide)
  have hsave : small.Saves [looseRecord] [bytes] := .cons hrecord .nil
  exact ⟨consistent_small, loadRecords_looseLog, bytes, hsave,
    records_resaved small standard_small rfl consistent_small loadRecords_looseLog hwrapper hsave⟩

end PlanArchive.Archive
