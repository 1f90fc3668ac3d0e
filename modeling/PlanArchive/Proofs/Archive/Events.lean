import PlanArchive.Proofs.Archive.WrappedLog
import PlanArchive.Proofs.Coding.Annotating
import PlanArchive.Proofs.Coding.Extending

/-!
# Records saved with an event

A record that is saved with an event is delivered as the record that the event overruled, with more
fields. So the event only adds to a record that agrees with it, and among sound records to no other
ones (`loadRecords_with_event`).
-/

namespace PlanArchive.Archive

open Coding Markup Naming

section

variable {archive : Archive} {event : Event} {holder : String → Prop}

/-- What an annotated element hands over extends what the element does. -/
theorem recordsOf_annotated {decoder : Decoder} (hmode : decoder.mode = .log) {e e' : Element}
    (h : decoder.Annotated event holder (some e.name) e e') {records' : List Value}
    (hload : recordsOf decoder [e'] = (records', .ok ())) :
    ∃ records, recordsOf decoder [e] = (records, .ok ()) ∧
      List.Forall₂ (Value.Extended (event.Adds holder)) records records' := by
  obtain ⟨hname, -⟩ := Decoder.annotated_iff.mp h
  cases hroot' : decoder.decodeRoot e' with
  | mk result t' =>
    cases result with
    | error failure =>
      simp only [recordsOf, hroot'] at hload
      cases congrArg Prod.snd hload
    | ok v' =>
      have hruns' : Runs (decoder.decode [e'.name] (some e'.name) e') {} v' t' := hroot'
      rw [hname] at hruns'
      obtain ⟨v, t, hruns, hextended, hdelivered⟩ :=
        Decoder.extended_of_runs hmode e _ _ e' {} {} v' t' h .nil hruns'
      have hroot : decoder.decodeRoot e = (.ok v, t) := hruns
      refine ⟨_, recordsOf_single hroot, ?_⟩
      rw [recordsOf_single hroot', Prod.mk.injEq] at hload
      rw [← hload.1, hextended.typeId?_eq]
      refine List.rel_append hdelivered ?_
      split
      · exact .nil
      · exact .cons hextended .nil

/-- Objects of the type may get fields of an event: samples, and others if some tag in the record
leads to another coder than the one that writes the value. -/
def MayHold (archive : Archive) (v : Value) (typeId : String) : Prop :=
  v.Everywhere (archive.decoder .log).Faithful → Coder.sample.claims typeId = true

variable (hroster : archive.roster.Standard) (hcharset : archive.charset = .ok .utf8)

include hroster hcharset

/-- A record with its event is the overruled record with more fields. -/
theorem exists_record_overruled {v : Value} {bytes' : Bytes}
    (hsaved' : archive.record v (some event) = .ok bytes') {records' : List Value}
    (hloaded' : archive.loadRecords ⟨bytes', none⟩ = (records', .ok ())) :
    ∃ bytes records, archive.record (overruled archive.roster event v) none = .ok bytes ∧
      archive.loadRecords ⟨bytes, none⟩ = (records, .ok ()) ∧
      List.Forall₂ (Value.Extended (event.Adds (archive.MayHold v))) records records' := by
  have hsamples : ∀ typeId, archive.roster.coderFor typeId = .sample → archive.MayHold v typeId :=
    fun _ hcoder _ => Roster.claims_of_coderFor hcoder
  have hv : v.Everywhere fun u => (∀ typeId, archive.MayHold v typeId) ∨
      (archive.decoder .log).Faithful u := by
    by_cases hfaithful : v.Everywhere (archive.decoder .log).Faithful
    · exact hfaithful.mono fun _ => .inr
    · exact fun _ _ => .inl fun _ h => absurd h hfaithful
  obtain ⟨e', hencode', rfl⟩ := (record_eq_ok hcharset).mp hsaved'
  have hroster' : (archive.decoder .log).roster.Standard := hroster
  obtain ⟨e, hencode, hannotated⟩ := Decoder.annotated_encode hroster' hsamples hv hencode'
  obtain ⟨r', hread', helements'⟩ := elementsOf_record (Encoder.wellFormed_encode _ hencode')
  obtain ⟨r, hread, helements⟩ := elementsOf_record (Encoder.wellFormed_encode _ hencode)
  rw [loadRecords_of_elementsOf hcharset helements'] at hloaded'
  have hannotated' := hannotated.readAs hread hread'
  rw [← hread.name] at hannotated'
  obtain ⟨records, hrecords, hextended⟩ := recordsOf_annotated rfl hannotated' hloaded'
  exact ⟨_, records, (record_eq_ok hcharset).mpr ⟨e, hencode, rfl⟩,
    (loadRecords_of_elementsOf hcharset helements).trans hrecords, hextended⟩

/-- A sound sample is delivered as itself, up to the order of fields. -/
theorem exists_loaded_of_sound {typeId : String} {v : Value} (htype : v.typeId? = some typeId)
    (hsample : Coder.sample.claims typeId = true)
    (hsound : v.Everywhere (archive.decoder .log).Sound) {bytes : Bytes}
    (hsaved : archive.record v none = .ok bytes) :
    ∃ w, archive.loadRecords ⟨bytes, none⟩ = ([w], .ok ()) ∧ v.Alike w := by
  have hne : ∀ other ∈ [textType, treeType, wrapperType], typeId ≠ other := by
    rintro other hother rfl
    have hno : ∀ other ∈ [textType, treeType, wrapperType],
        Coder.sample.claims other = false := by decide
    rw [hno typeId hother] at hsample
    cases hsample
  cases v with
  | null => cases htype
  | text s => exact absurd (Option.some.inj htype).symm (hne _ (by simp))
  | plan branches => exact absurd (Option.some.inj htype).symm (hne _ (by simp))
  | object other fields entries =>
    obtain rfl : typeId = other := (Option.some.inj htype).symm
    have htraceable : Traceable archive.resolver (.object typeId fields entries) := by
      rintro _ ⟨⟩
      exact ⟨hne _ (by simp), hsound.here.1.1.2⟩
    exact ⟨_, loadRecords_of_sound hroster hcharset rfl htraceable hsound hsaved,
      alike_settle (hsound.mono fun _ hw => hw.2)⟩

end

/-- The tags of a sound record lead to its own types. -/
theorem faithful_of_sound {decoder : Decoder} {v : Value} (h : decoder.Sound v) :
    decoder.Faithful v := by
  intro htext typeId other htype hother
  obtain ⟨-, needsCoder, hbinding⟩ := Decoder.typed_of_legible h.1 htext typeId htype
  rw [tagOf, htype, Decoder.typeNamed?, Option.bind_some, hbinding] at hother
  rw [← Option.some.inj hother]

/-- Of a sample record that is saved without and with an event and loaded from both files, the
second file holds more fields at most if the record agrees with the event, and of a sound record
only then. Any record is delivered from the second file as the record that the event overruled, with
more fields. These hold texts of the event, and stand in samples if the tags of the record lead to
the coders that write it, as those of a sound record do. -/
theorem loadRecords_with_event (archive : Archive) (hroster : archive.roster.Standard)
    (hcharset : archive.charset = .ok .utf8) (event : Event) {typeId : String} {v : Value}
    (htype : v.typeId? = some typeId) (hsample : Coder.sample.claims typeId = true)
    {bytes bytes' : Bytes} (hsaved : archive.record v none = .ok bytes)
    (hsaved' : archive.record v (some event) = .ok bytes') {records records' : List Value}
    (hloaded : archive.loadRecords ⟨bytes, none⟩ = (records, .ok ()))
    (hloaded' : archive.loadRecords ⟨bytes', none⟩ = (records', .ok ())) :
    (v.Everywhere (Agrees archive.roster event) →
      List.Forall₂ (Value.Extended (event.Adds (archive.MayHold v))) records records') ∧
    (v.Everywhere (archive.decoder .log).Sound →
      v.Everywhere (archive.decoder .log).Faithful ∧ ∀ extra,
        List.Forall₂ (Value.Extended extra) records records' →
          v.Everywhere (Agrees archive.roster event)) ∧
    ∃ plain kept, archive.record (overruled archive.roster event v) none = .ok plain ∧
      archive.loadRecords ⟨plain, none⟩ = (kept, .ok ()) ∧
      List.Forall₂ (Value.Extended (event.Adds (archive.MayHold v))) kept records' := by
  obtain ⟨plain, kept, hplain, hkept, hextended⟩ :=
    exists_record_overruled hroster hcharset hsaved' hloaded'
  refine ⟨?_, ?_, plain, kept, hplain, hkept, hextended⟩
  · intro hagrees
    rw [overruled_eq_self _ _ hagrees, hsaved] at hplain
    obtain rfl := Except.ok.inj hplain
    rw [hloaded, Prod.mk.injEq] at hkept
    exact hkept.1 ▸ hextended
  · intro hsound
    refine ⟨hsound.mono fun _ => faithful_of_sound, fun extra hadded => ?_⟩
    obtain ⟨w, hw, halike⟩ :=
      exists_loaded_of_sound hroster hcharset htype hsample hsound hsaved
    obtain ⟨u, hu, halike'⟩ := exists_loaded_of_sound hroster hcharset
      ((typeId?_overruled _ event v).trans htype) hsample (sound_overruled event hsound) hplain
    rw [hw, Prod.mk.injEq] at hloaded
    rw [hu, Prod.mk.injEq] at hkept
    rw [← hloaded.1] at hadded
    rw [← hkept.1] at hextended
    obtain ⟨x, rest, hx, -, rfl⟩ := List.forall₂_cons_left_iff.mp hadded
    exact agrees_of_extended _ event (.of_alike halike hx)
      (.of_alike halike' (List.forall₂_cons.mp hextended).1)

/-! ## Records of a small archive -/

/-- The event of the record in `noonLog`. -/
def noonEvent : Event := { hostname := "here" }

theorem agrees_noonEvent : (labelled []).Everywhere (Agrees small.roster noonEvent) := by
  refine everywhere_labelled.mpr ⟨?_, trivial, List.forall_mem_nil _⟩
  intro _ name s t hfield htext
  obtain ⟨rfl, -⟩ := Prod.mk.inj (List.mem_singleton.mp hfield)
  have hnone : noonEvent.text? "lb" = none := by decide
  rw [hnone] at htext
  cases htext

/-- The tags of the record lead to its own types. -/
theorem faithful_labelled : (labelled []).Everywhere (small.decoder .log).Faithful := by
  refine everywhere_labelled.mpr ⟨?_, ?_, List.forall_mem_nil _⟩
  · rintro - _ other ⟨⟩ hother
    obtain rfl : sampleType = other := Option.some.inj hother
    rfl
  · rintro ⟨⟩

theorem loadRecords_with_event_small :
    small.record (labelled []) none = .ok morningLog ∧
      small.record (labelled []) (some noonEvent) = .ok noonLog ∧
      (labelled []).Everywhere (small.decoder .log).Faithful ∧
      List.Forall₂ (Value.Extended (noonEvent.Adds (small.MayHold (labelled [])))) [labelled []]
        [.object sampleType [("lb", .text "home"), ("hn", .text "here")] []] :=
  ⟨morning.saved, noon.saved, faithful_labelled,
    (loadRecords_with_event small standard_small rfl noonEvent rfl rfl
      morning.saved noon.saved morning.loaded noon.loaded).1 agrees_noonEvent⟩

/-- A sample with a host of its own. -/
def hosted (host : String) : Value := .object sampleType [("hn", .text host)] []

def ownLog : Bytes := utf8 "<sample hn=\"own\"/>\n"

def overruledLog : Bytes := utf8 "<sample hn=\"h1\"/>\n"

set_option maxRecDepth 20000 in
theorem elementsOf_ownLog :
    elementsOf .utf8 ⟨ownLog, none⟩ = .ok [⟨"sample", [("hn", "own")], none, [], 1⟩] := by
  rfl

set_option maxRecDepth 20000 in
theorem elementsOf_overruledLog :
    elementsOf .utf8 ⟨overruledLog, none⟩ = .ok [⟨"sample", [("hn", "h1")], none, [], 1⟩] := by
  rfl

/-- The host of the event takes the place of the one that the sample has. -/
theorem record_host_overruled :
    small.record (hosted "own") none = .ok ownLog ∧
      small.record (hosted "own") (some { hostname := "h1" }) = .ok overruledLog ∧
      small.loadRecords ⟨ownLog, none⟩ = ([hosted "own"], .ok ()) ∧
      small.loadRecords ⟨overruledLog, none⟩ = ([hosted "h1"], .ok ()) ∧
      ¬Value.Extended (fun _ _ => True) (hosted "own") (hosted "h1") := by
  refine ⟨(record_eq_ok rfl).mpr ⟨_, Encoder.encode_of_fill (by decide)
      ((Encoder.fill_sample _ rfl).mpr ⟨_, [], [], rfl, Encoder.encodeStructured_eq_ok.mpr .nil,
        Encoder.encodeAll_eq_ok.mpr .nil, rfl⟩), rfl⟩,
    (record_eq_ok rfl).mpr ⟨_, Encoder.encode_of_fill (by decide)
      ((Encoder.fill_sample _ rfl).mpr ⟨_, [], [], rfl, Encoder.encodeStructured_eq_ok.mpr .nil,
        Encoder.encodeAll_eq_ok.mpr .nil, rfl⟩), rfl⟩, ?_, ?_, ?_⟩
  · rw [loadRecords_of_elementsOf rfl elementsOf_ownLog]
    rfl
  · rw [loadRecords_of_elementsOf rfl elementsOf_overruledLog]
    rfl
  · intro h
    obtain ⟨others, _, heq, hfields, -⟩ := Value.extended_object.mp h
    obtain ⟨-, rfl, -⟩ := Value.object.inj heq
    obtain ⟨value, hvalue, hextended⟩ := hfields.kept _ (List.mem_singleton.mpr rfl)
    rw [Value.extended_text.mp hextended] at hvalue
    have hhost : "h1" = "own" := Value.text.inj (Option.some.inj hvalue)
    exact absurd hhost (by decide)

end PlanArchive.Archive
