import PlanArchive.Archive.Log
import PlanArchive.Proofs.Archive.Document
import PlanArchive.Proofs.Coding.Follows
import PlanArchive.Proofs.Markup.Append

/-!
# Logs appended

A log that is appended to another is loaded as it would be alone, after the records of the other
and with its lines counted on (`loadRecords_append`).
-/

namespace PlanArchive

open Coding Markup

/-- The place when `n` more lines stand in front. -/
def Place.later (n : Nat) (place : Place) : Place := { place with line := place.line.map (· + n) }

/-- The failure when `n` more lines stand in front. -/
def Failure.later (n : Nat) : Failure → Failure
  | .unknownType name place => .unknownType name (place.later n)
  | .malformed what place => .malformed what (place.later n)
  | failure => failure

/-- Further down by `n` lines. -/
def Coding.Decoder.Move.down (n : Nat) : Decoder.Move where
  path := Eq
  line := fun line line' => line' = line + n
  failure := fun failure failure' => failure' = failure.later n
  cons := fun tag h => congrArg (tag :: ·) h
  malformed := by
    rintro path _ line _ what rfl rfl
    rfl
  unknownType := by
    rintro path _ line _ tag rfl rfl
    rfl

theorem Markup.Element.relined_later (n : Nat) (e : Element) :
    e.Relined (Decoder.Move.down n).line (e.later n) := by
  induction e using Element.induct with
  | step e ih =>
    obtain ⟨name, attributes, text, children, line⟩ := e
    rw [later_mk]
    refine .mk rfl ?_
    rw [List.forall₂_map_right_iff, List.forall₂_same]
    exact fun child hchild => (ih child hchild).1

namespace Archive

/-! ## The records of elements -/

section

variable {decoder : Decoder}

theorem recordsOf_append {front : List Element} {records : List Value}
    (h : recordsOf decoder front = (records, .ok ())) (back : List Element) :
    recordsOf decoder (front ++ back) =
      (records ++ (recordsOf decoder back).1, (recordsOf decoder back).2) := by
  induction front generalizing records with
  | nil =>
    obtain rfl : [] = records := congrArg Prod.fst h
    rfl
  | cons e front ih =>
    rw [List.cons_append, recordsOf]
    rw [recordsOf] at h
    cases hroot : decoder.decodeRoot e with
    | mk result ledger =>
      rw [hroot] at h
      cases result with
      | error failure => cases congrArg Prod.snd h
      | ok value =>
        simp only [Prod.mk.injEq] at h ⊢
        obtain ⟨rfl, hok⟩ := h
        have hfront : recordsOf decoder front = ((recordsOf decoder front).1, .ok ()) :=
          Prod.ext rfl hok
        rw [ih hfront]
        exact ⟨(List.append_assoc ..).symm, rfl⟩

/-- The lines of a log show only in its failure. -/
theorem recordsOf_later (hmode : decoder.ReadsIn .log) (n : Nat) (es : List Element) :
    recordsOf decoder (es.map (Element.later n)) =
      ((recordsOf decoder es).1, (recordsOf decoder es).2.mapError (.later n)) := by
  induction es with
  | nil => rfl
  | cons e es ih =>
    obtain ⟨result, result', out, hrun, hrun', hagree⟩ :=
      Decoder.tracks hmode e (e.relined_later n) (some e.name) (rfl : [e.name] = [e.name])
    have hroot : decoder.decodeRoot e = (result, { delivered := out }) := hrun {}
    have hroot' : decoder.decodeRoot (e.later n) = (result', { delivered := out }) := by
      rw [Decoder.decodeRoot, later_name]
      exact hrun' {}
    rw [List.map_cons, recordsOf, recordsOf, hroot, hroot']
    cases hagree with
    | ok value => simp only [ih]
    | error hfailure =>
      obtain rfl : _ = Failure.later n _ := hfailure
      rfl

end

/-! ## Logs -/

section

variable {archive : Archive}

/-- A log that is loaded consists of elements. -/
theorem elementsOf_of_countRecords (hcharset : archive.charset = .ok .utf8) {source : Source}
    {count : Nat} (h : archive.countRecords source = .ok count) :
    ∃ es, elementsOf .utf8 source = .ok es ∧
      archive.loadRecords source = ((archive.loadRecords source).1, .ok ()) ∧
        (archive.loadRecords source).1.length = count := by
  cases helements : elementsOf .utf8 source with
  | error failure =>
    rw [countRecords_eq, loadRecords, bind_elementsOf hcharset, helements] at h
    cases h
  | ok es =>
    refine ⟨es, rfl, ?_⟩
    rw [countRecords_eq] at h
    generalize archive.loadRecords source = load at h
    obtain ⟨records, outcome⟩ := load
    cases outcome with
    | error failure => cases h
    | ok => exact ⟨rfl, Except.ok.inj h⟩

/-- The elements of two logs, one after the other. -/
theorem elementsOf_append {a b : Bytes} {front back : List Element}
    (hmarkA : ¬Charset.utf8.mark <+: a) (hmarkB : ¬Charset.utf8.mark <+: b)
    (ha : elementsOf .utf8 ⟨a, none⟩ = .ok front) (hb : elementsOf .utf8 ⟨b, none⟩ = .ok back) :
    elementsOf .utf8 ⟨a ++ b, none⟩ =
      .ok (front ++ back.map (Element.later (a.count 0x0A))) := by
  obtain ⟨textA, hheadA, rfl, hreadA⟩ := (elementsOf_utf8_eq_ok hmarkA).mp ha
  obtain ⟨textB, hheadB, rfl, hreadB⟩ := (elementsOf_utf8_eq_ok hmarkB).mp hb
  have hhead : (textA ++ textB).head? ≠ some byteOrderMark := by
    cases textA with
    | nil => exact hheadB
    | cons c textA => exact hheadA
  rw [← Text.Utf8.encode_append, Text.Utf8.count_encode]
  exact (elementsOf_utf8_eq_ok (not_mark_prefix_encode hhead)).mpr
    ⟨textA ++ textB, hhead, rfl, readElements_append hheadA hheadB hreadA hreadB⟩

end

/-- Loading two logs, one after the other, delivers the records of the first and then those of the
second, and fails exactly where the second does, further down by the lines of the first. -/
theorem loadRecords_append (archive : Archive) (hcharset : archive.charset = .ok .utf8)
    {a b : Bytes} (hmarkA : ¬Charset.utf8.mark <+: a) (hmarkB : ¬Charset.utf8.mark <+: b)
    {count : Nat} (ha : archive.countRecords ⟨a, none⟩ = .ok count) {elements : List Element}
    (hb : elementsOf .utf8 ⟨b, none⟩ = .ok elements) :
    (archive.loadRecords ⟨a ++ b, none⟩).1 =
        (archive.loadRecords ⟨a, none⟩).1 ++ (archive.loadRecords ⟨b, none⟩).1 ∧
      archive.countRecords ⟨a ++ b, none⟩ =
        ((archive.countRecords ⟨b, none⟩).map (count + ·)).mapError (.later (a.count 0x0A)) := by
  obtain ⟨front, hfront, hload, hcount⟩ := elementsOf_of_countRecords hcharset ha
  have hloadB : archive.loadRecords ⟨b, none⟩ = recordsOf (archive.decoder .log) elements :=
    loadRecords_of_elementsOf hcharset hb
  have hloadA : recordsOf (archive.decoder .log) front =
      ((archive.loadRecords ⟨a, none⟩).1, .ok ()) :=
    (loadRecords_of_elementsOf hcharset hfront).symm.trans hload
  have hloadAB : archive.loadRecords ⟨a ++ b, none⟩ =
      ((archive.loadRecords ⟨a, none⟩).1 ++ (archive.loadRecords ⟨b, none⟩).1,
        (archive.loadRecords ⟨b, none⟩).2.mapError (.later (a.count 0x0A))) := by
    rw [loadRecords_of_elementsOf hcharset (elementsOf_append hmarkA hmarkB hfront hb),
      recordsOf_append hloadA, recordsOf_later (archive.decoder_readsIn .log), hloadB]
  refine ⟨congrArg Prod.fst hloadAB, ?_⟩
  rw [countRecords_eq, countRecords_eq, hloadAB]
  cases archive.loadRecords ⟨b, none⟩ with
  | mk records outcome =>
    cases outcome with
    | error failure => rfl
    | ok =>
      simp only [List.length_append, hcount]
      rfl

/-- A log of one record. -/
def morningLog : Bytes := utf8 "<sample lb=\"home\"/>\n"

/-- A log of one record and of an element on its second line that holds no record. -/
def eveningLog : Bytes := utf8 "<sample lb=\"away\"/>\n<TestPlan>x</TestPlan>"

set_option maxRecDepth 20000 in
theorem elementsOf_morningLog :
    elementsOf .utf8 ⟨morningLog, none⟩ = .ok [⟨"sample", [("lb", "home")], none, [], 1⟩] := by
  rfl

set_option maxRecDepth 20000 in
theorem elementsOf_eveningLog :
    elementsOf .utf8 ⟨eveningLog, none⟩ =
      .ok [⟨"sample", [("lb", "away")], none, [], 1⟩, ⟨"TestPlan", [], some "x", [], 2⟩] := by
  rfl

theorem countRecords_morningLog : small.countRecords ⟨morningLog, none⟩ = .ok 1 := by
  rw [countRecords_eq, loadRecords_of_elementsOf rfl elementsOf_morningLog]
  rfl

theorem loadRecords_append_small :
    (small.loadRecords ⟨morningLog ++ eveningLog, none⟩).1 =
        (small.loadRecords ⟨morningLog, none⟩).1 ++ (small.loadRecords ⟨eveningLog, none⟩).1 ∧
      small.countRecords ⟨morningLog ++ eveningLog, none⟩ =
        ((small.countRecords ⟨eveningLog, none⟩).map (1 + ·)).mapError (.later 1) := by
  have hlines : morningLog.count 0x0A = 1 := by decide
  have h := loadRecords_append small rfl (by decide) (by decide) countRecords_morningLog
    elementsOf_eveningLog
  rwa [hlines] at h

end Archive

end PlanArchive
