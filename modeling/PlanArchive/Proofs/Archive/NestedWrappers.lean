import PlanArchive.Proofs.Archive.WrappedLog
import PlanArchive.Proofs.Coding.Delivered

/-!
# Wrappers among records

At the top of a log a wrapper is no record. In a wrapper it is one: the records of a log hold a
wrapper just when a wrapper stands in another one and is read to its end
(`wrapper_among_records_iff`).
-/

namespace PlanArchive

open Coding Markup Naming

namespace Coding.Decoder

section

variable {decoder : Decoder} {v : Value}

/-- A coder puts together a value of the type that it is asked for. -/
theorem typeId?_of_valueOf {c : Coder} {typeId : String} {e : Element}
    {taken : List (Part × Value)} (hc : c.claims typeId = true)
    (h : decoder.valueOf? c typeId e taken = some v) : v.typeId? = some typeId := by
  cases c with
  | text =>
    simp only [valueOf?, Option.ite_none_right_eq_some] at h
    obtain rfl := Option.some.inj h.2
    exact congrArg some (beq_iff_eq.mp hc).symm
  | plan =>
    obtain rfl := Option.some.inj h
    exact congrArg some (beq_iff_eq.mp hc).symm
  | envelope =>
    obtain ⟨plan, -, rfl⟩ := Option.map_eq_some_iff.mp h
    exact congrArg some (beq_iff_eq.mp hc).symm
  | wrapper =>
    obtain rfl := Option.some.inj h
    rfl
  | sample =>
    obtain rfl := Option.some.inj h
    rfl
  | object =>
    simp only [valueOf?, Option.ite_none_left_eq_some] at h
    obtain rfl := Option.some.inj h.2
    rfl

/-- In a log, what has the type of its tag is what the tag is read as. -/
theorem typeId?_eq_some_iff (hmode : decoder.mode = .log) {x : Visit} {tag typeId : String}
    {finish : Ledger} (htype : x.type = some tag) (h : decoder.Yields x v finish) :
    v.typeId? = some typeId ↔ tag ≠ nullTag ∧
      ∃ binding, decoder.resolver.binding? tag = some binding ∧ binding.typeId = typeId := by
  rw [Yields, htype] at h
  rcases runs_decode.mp h with ⟨_, -, hdocument, -⟩ | ⟨-, u, -, ⟨hnone, -⟩ | ⟨hnull, rfl, -⟩ |
    ⟨tag', binding, c, values, htag, hopens, -, hvalue⟩⟩
  · rw [hmode] at hdocument
    cases hdocument
  · cases hnone
  · obtain rfl := Option.some.inj hnull
    exact iff_of_false (by rintro ⟨⟩) fun h => h.1 rfl
  · obtain rfl := Option.some.inj htag
    rw [typeId?_of_valueOf (Roster.claims_of_coderFor hopens.coder) hvalue, Option.some.injEq]
    constructor
    · intro htypeId
      exact ⟨hopens.named, binding, hopens.known, htypeId⟩
    · rintro ⟨-, binding', hbinding, rfl⟩
      rw [Option.some.inj (hopens.known.symm.trans hbinding)]

/-- The tag is read as a wrapper. -/
def NamesWrapper (decoder : Decoder) (tag : String) : Prop :=
  tag ≠ nullTag ∧
    ∃ binding, decoder.resolver.binding? tag = some binding ∧ binding.typeId = wrapperType

/-- Decoding comes to a wrapper among the records of a wrapper, and reads it to its end. -/
def NestsWrapper (decoder : Decoder) (x : Visit) : Prop :=
  ∃ y a v finish, decoder.Visits x y ∧ decoder.Meets y a ∧ a.part = .record ∧
    decoder.NamesWrapper a.child.name ∧ decoder.Yields (a.visit y.path) v finish

/-- Wrappers are handed over where a wrapper is among the records of a wrapper. -/
theorem delivers_wrapper_iff (hmode : decoder.ReadsIn .log) {x : Visit} :
    (∃ v, decoder.Delivers x v ∧ v.typeId? = some wrapperType) ↔ decoder.NestsWrapper x := by
  have htype : ∀ {a : Arrival} {path : List String}, a.part = .record →
      (a.visit path).type = some a.child.name := by
    intro a path hrecord
    rw [Arrival.visit, hrecord]
    rfl
  constructor
  · rintro ⟨v, ⟨y, a, finish, hvisits, hmeets, hrecord, hyields⟩, hwrapper⟩
    exact ⟨y, a, v, finish, hvisits, hmeets, hrecord,
      (typeId?_eq_some_iff hmode.mode_eq (htype hrecord) hyields).mp hwrapper, hyields⟩
  · rintro ⟨y, a, v, finish, hvisits, hmeets, hrecord, hnames, hyields⟩
    exact ⟨v, ⟨y, a, finish, hvisits, hmeets, hrecord, hyields⟩,
      (typeId?_eq_some_iff hmode.mode_eq (htype hrecord) hyields).mpr hnames⟩

end

end Coding.Decoder

namespace Archive

/-- Loading comes to an element at the top: those before it are decoded. -/
def ComesTo (decoder : Decoder) (elements : List Element) (root : Element) : Prop :=
  ∃ front back, elements = front ++ root :: back ∧
    ∀ e ∈ front, ∃ v, (decoder.decodeRoot e).1 = .ok v

theorem comesTo_cons {decoder : Decoder} {e root : Element} {rest : List Element} :
    ComesTo decoder (e :: rest) root ↔
      root = e ∨ (∃ v, (decoder.decodeRoot e).1 = .ok v) ∧ ComesTo decoder rest root := by
  constructor
  · rintro ⟨front, back, heq, hfront⟩
    cases front with
    | nil => exact .inl (List.cons.inj heq).1.symm
    | cons first front =>
      obtain ⟨rfl, rfl⟩ := List.cons.inj heq
      obtain ⟨hfirst, hfront⟩ := List.forall_mem_cons.mp hfront
      exact .inr ⟨hfirst, front, back, rfl, hfront⟩
  · rintro (rfl | ⟨hfirst, front, back, rfl, hfront⟩)
    · exact ⟨[], rest, rfl, List.forall_mem_nil _⟩
    · exact ⟨e :: front, back, rfl, List.forall_mem_cons.mpr ⟨hfirst, hfront⟩⟩

/-- The records are what the elements at the top hand over and, wrappers apart, what they are. -/
theorem mem_recordsOf {decoder : Decoder} {elements : List Element} {record : Value} :
    record ∈ (recordsOf decoder elements).1 ↔ ∃ root, ComesTo decoder elements root ∧
      (record ∈ (decoder.decodeRoot root).2.delivered ∨
        (decoder.decodeRoot root).1 = .ok record ∧ record.typeId? ≠ some wrapperType) := by
  induction elements with
  | nil =>
    refine iff_of_false (List.not_mem_nil) ?_
    rintro ⟨root, ⟨front, back, heq, -⟩, -⟩
    cases front <;> cases heq
  | cons e rest ih =>
    simp only [comesTo_cons, or_and_right, exists_or, exists_eq_left, recordsOf]
    cases hdecode : decoder.decodeRoot e with
    | mk result ledger =>
      cases result with
      | error failure => simp
      | ok value =>
        have hown : record ∈ (if value.typeId? == some wrapperType then [] else [value]) ↔
            value = record ∧ record.typeId? ≠ some wrapperType := by
          by_cases hwrapper : value.typeId? = some wrapperType
          · simp only [hwrapper, beq_self_eq_true, if_true, List.not_mem_nil, false_iff, not_and,
              ne_eq, not_not]
            rintro rfl
            exact hwrapper
          · rw [if_neg (by simpa using hwrapper), List.mem_singleton, eq_comm]
            exact ⟨fun h => ⟨h, h ▸ hwrapper⟩, fun h => h.1⟩
        simp only [List.append_assoc, List.mem_append, hown, ih, Except.ok.injEq, exists_eq',
          true_and, or_assoc]

/-- The records of a log are those of its elements. -/
theorem loadRecords_fst (archive : Archive) (source : Source) :
    (archive.loadRecords source).1 =
      (recordsOf (archive.decoder .log) (archive.elementsIn source)).1 := by
  rw [loadRecords, elementsIn]
  cases archive.charset.bind (elementsOf · source) <;> rfl

theorem countRecords_eq_ok {archive : Archive} {source : Source} {count : Nat} :
    archive.countRecords source = .ok count ↔
      (archive.loadRecords source).2 = .ok () ∧ count = (archive.loadRecords source).1.length := by
  rw [countRecords_eq]
  obtain ⟨records, outcome⟩ := archive.loadRecords source
  cases outcome with
  | error failure =>
    refine iff_of_false (by rintro ⟨⟩) ?_
    rintro ⟨⟨⟩, -⟩
  | ok =>
    constructor
    · rintro ⟨⟩
      exact ⟨rfl, rfl⟩
    · rintro ⟨-, rfl⟩
      rfl

/-- A wrapper is among the records that a log hands over just when loading comes to a wrapper that
stands in another one, and reads it to its end. The count of the records, where nothing fails, is
the number of those handed over. -/
theorem wrapper_among_records_iff (archive : Archive) (source : Source) :
    ((∃ record ∈ (archive.loadRecords source).1, record.typeId? = some wrapperType) ↔
      ∃ root, ComesTo (archive.decoder .log) (archive.elementsIn source) root ∧
        (archive.decoder .log).NestsWrapper (Decoder.Visit.root root)) ∧
    ∀ count, archive.countRecords source = .ok count ↔
      (archive.loadRecords source).2 = .ok () ∧
        count = (archive.loadRecords source).1.length := by
  refine ⟨?_, fun count => countRecords_eq_ok⟩
  have hmode := archive.decoder_readsIn .log
  have hdelivered : ∀ root record, record ∈ ((archive.decoder .log).decodeRoot root).2.delivered ↔
      (archive.decoder .log).Delivers (.root root) record := by
    intro root record
    have h := @Decoder.mem_delivered_iff (archive.decoder .log) (.root root) hmode record
    exact h.trans (or_iff_right List.not_mem_nil)
  simp only [loadRecords_fst, mem_recordsOf, hdelivered, ← Decoder.delivers_wrapper_iff hmode]
  constructor
  · rintro ⟨record, ⟨root, hcomes, hrecord | ⟨-, hne⟩⟩, hwrapper⟩
    · exact ⟨root, hcomes, record, hrecord, hwrapper⟩
    · exact absurd hwrapper hne
  · rintro ⟨root, hcomes, record, hrecord, hwrapper⟩
    exact ⟨record, ⟨root, hcomes, .inl hrecord⟩, hwrapper⟩

/-- A log of two wrappers, one in the other. -/
def doubleWrapped : Bytes :=
  utf8 ("<" ++ wrapperType ++ "><" ++ wrapperType ++ "/></" ++ wrapperType ++ ">")

set_option maxRecDepth 20000 in
theorem elementsOf_doubleWrapped :
    elementsOf .utf8 ⟨doubleWrapped, none⟩ =
      .ok [⟨wrapperType, [], none, [⟨wrapperType, [], none, [], 1⟩], 1⟩] := by
  rfl

/-- The inner wrapper is handed over as a record. -/
theorem wrapper_handed_over :
    small.roster.Standard ∧
      small.loadRecords ⟨doubleWrapped, none⟩ = ([.object wrapperType [] []], .ok ()) := by
  refine ⟨standard_small, ?_⟩
  rw [loadRecords_of_elementsOf rfl elementsOf_doubleWrapped]
  rfl

end Archive

end PlanArchive
