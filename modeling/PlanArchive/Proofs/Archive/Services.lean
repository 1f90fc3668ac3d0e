import PlanArchive.Archive.Service
import PlanArchive.Proofs.Coding.CoderReads

/-!
# Archives as services

A service whose converters are coders starts as the archive does (`toService_build`), and saves and
loads what the archive does, in no other way.
-/

namespace PlanArchive

open Coding Markup Naming

/-! ## Starting -/

theorem Keyed.find?_map_snd {α β : Type} (f : α → β) (key : String) (entries : List (String × α)) :
    find? key (entries.map fun (name, a) => (name, f a)) = (find? key entries).map f := by
  induction entries with
  | nil => rfl
  | cons entry entries ih =>
    obtain ⟨name, a⟩ := entry
    rw [List.map_cons, find?, find?]
    split
    · rfl
    · exact ih

theorem Coding.Recipes.build_factories (recipes : Recipes) (tags : TagTable)
    (request : Definition.CoderRequest) :
    recipes.factories.build tags request = (recipes.build request).map Coder.converter := by
  rw [Factories.build, Recipes.factories, Keyed.find?_map_snd, Recipes.build]
  cases Keyed.find? request.coder recipes.recipes with
  | none => rfl
  | some recipe =>
    obtain ⟨wantsTags, coder⟩ := recipe
    cases wantsTags <;> simp only [Option.map_some, Recipe.factory, if_true] <;>
      cases request.wantsTags <;> rfl

theorem Coding.Converters.ofRoster_add (roster : Roster) (coder : Coder) :
    ofRoster (roster.add coder) = (ofRoster roster).add coder.converter := by
  rw [ofRoster, Roster.add, List.map_append]
  rfl

namespace Archive

/-- The converters of a service are the coders of the archive. -/
theorem buildConverters_factories (recipes : Recipes) (tags : TagTable)
    (requests : List Definition.CoderRequest) :
    Service.buildConverters recipes.factories tags requests =
      (.ofRoster (buildRoster recipes requests).1, (buildRoster recipes requests).2) := by
  let converted (state : Roster × List Failure) := (Converters.ofRoster state.1, state.2)
  change List.foldl _ (converted (.basic, [])) requests =
    converted (List.foldl _ (.basic, []) requests)
  refine List.foldl_hom converted ?_
  rintro ⟨roster, failures⟩ request
  simp only [Recipes.build_factories]
  cases recipes.build request with
  | error failure => rfl
  | ok coder => exact Prod.ext (Converters.ofRoster_add roster coder).symm rfl

theorem toService_build (setup : Setup) (source : Definition.Source) (checksum : String) :
    Service.build setup.toService source checksum = (build setup source checksum).toService := by
  have hconverters := buildConverters_factories setup.recipes
    (basisOf setup.toSetup source checksum).resolver.tags (requestsOf source.entries)
  simp only [Service.build, Setup.toService, hconverters]
  rfl

end Archive

/-! ## Saving -/

namespace Service

variable (service : Service) {v : Value} {written : List Written} {output : Except Failure Bytes}

theorem savesElement_of_error {failure : Failure} (h : service.charset = .error failure) :
    service.SavesElement v written output ↔ written = [] ∧ output = .error failure := by
  constructor
  · intro hsaves
    cases hsaves with
    | noCharset h' => exact ⟨rfl, congrArg _ (Except.error.inj (h'.symm.trans h))⟩
    | readOnly h' => cases h'.symm.trans h
    | encoded h' => cases h'.symm.trans h
  · rintro ⟨rfl, rfl⟩
    exact .noCharset h

theorem savesElement_of_readOnly {charset : Charset} (h : service.charset = .ok charset)
    (hreadOnly : charset.isWritable = false) :
    service.SavesElement v written output ↔
      written = [] ∧ output = .error (.charset (.readOnly charset.name)) := by
  constructor
  · intro hsaves
    cases hsaves with
    | noCharset h' => cases h'.symm.trans h
    | readOnly h' =>
      obtain rfl := Except.ok.inj (h'.symm.trans h)
      exact ⟨rfl, rfl⟩
    | encoded h' hwritable =>
      obtain rfl := Except.ok.inj (h'.symm.trans h)
      cases hreadOnly.symm.trans hwritable
  · rintro ⟨rfl, rfl⟩
    exact .readOnly h hreadOnly

theorem savesElement_of_writable {charset : Charset} (h : service.charset = .ok charset)
    (hwritable : charset.isWritable = true) :
    service.SavesElement v written output ↔ ∃ result,
      service.converters.Encodes (service.writeContext .document none) v written result ∧
        output = charset.document result := by
  constructor
  · intro hsaves
    cases hsaves with
    | noCharset h' => cases h'.symm.trans h
    | readOnly h' hreadOnly =>
      obtain rfl := Except.ok.inj (h'.symm.trans h)
      cases hreadOnly.symm.trans hwritable
    | encoded h' _ hencodes =>
      obtain rfl := Except.ok.inj (h'.symm.trans h)
      exact ⟨_, hencodes, rfl⟩
  · rintro ⟨result, hencodes, rfl⟩
    exact .encoded h hwritable hencodes

theorem savesRecord_of_error {event : Option Event} {failure : Failure}
    (h : service.charset = .error failure) :
    service.SavesRecord v event written output ↔ written = [] ∧ output = .error failure := by
  constructor
  · intro hsaves
    cases hsaves with
    | noCharset h' => exact ⟨rfl, congrArg _ (Except.error.inj (h'.symm.trans h))⟩
    | encoded h' => cases h'.symm.trans h
  · rintro ⟨rfl, rfl⟩
    exact .noCharset h

theorem savesRecord_of_charset {event : Option Event} {charset : Charset}
    (h : service.charset = .ok charset) :
    service.SavesRecord v event written output ↔ ∃ result,
      service.converters.Encodes (service.writeContext .log event) v written result ∧
        output = charset.record (result.mapError (inRecord v)) := by
  constructor
  · intro hsaves
    cases hsaves with
    | noCharset h' => cases h'.symm.trans h
    | encoded h' hencodes =>
      obtain rfl := Except.ok.inj (h'.symm.trans h)
      exact ⟨_, hencodes, rfl⟩
  · rintro ⟨result, hencodes, rfl⟩
    exact .encoded h hencodes

/-- A file is loaded by its root alone, if it has one. -/
theorem loadsElement_iff {source : Source} {result : Except Failure Value} :
    service.LoadsElement source result ↔
      (∃ failure, service.root source = .error failure ∧ result = .error failure) ∨
        ∃ root ledger, service.root source = .ok root ∧
          service.converters.Decodes (service.reader .document) root result ledger := by
  constructor
  · intro h
    cases h with
    | noRoot h => exact .inl ⟨_, h, rfl⟩
    | decoded h hdecodes => exact .inr ⟨_, _, h, hdecodes⟩
  · rintro (⟨failure, h, rfl⟩ | ⟨root, ledger, h, hdecodes⟩)
    · exact .noRoot h
    · exact .decoded h hdecodes

end Service

namespace Archive

variable {archive : Archive}

theorem encodes_toService {mode : Mode} {event : Option Event} {value : Value}
    {result : Except Failure Element} :
    (∃ written, archive.toService.converters.Encodes (archive.toService.writeContext mode event)
        value written result) ↔
      result = ((archive.encoder event).encode value).mapError .unwritable :=
  (archive.encoder event).encodes_iff mode value

/-- As a service, an archive saves the document that it renders of an element. -/
theorem savesElement_toService {value : Value} {output : Except Failure Bytes} :
    (∃ written, archive.toService.SavesElement value written output) ↔
      output = archive.elementDocument value := by
  unfold elementDocument
  cases hcharset : archive.charset with
  | error failure =>
    simp only [Service.savesElement_of_error archive.toService hcharset,
      exists_eq_left]
    rfl
  | ok charset =>
    cases hwritable : charset.isWritable with
    | false =>
      simp only [Service.savesElement_of_readOnly archive.toService hcharset hwritable,
        exists_eq_left]
      simp [bind, Except.bind, hwritable]
      rfl
    | true =>
      simp only [Service.savesElement_of_writable archive.toService hcharset hwritable]
      rw [exists_comm]
      simp only [exists_and_right, encodes_toService, exists_eq_left]
      rfl

theorem savesPlan_toService {plan : Plan} {output : Except Failure Bytes} :
    (∃ written, archive.toService.SavesPlan plan written output) ↔
      output = archive.planDocument plan :=
  savesElement_toService

theorem savesRecord_toService {value : Value} {event : Option Event}
    {output : Except Failure Bytes} :
    (∃ written, archive.toService.SavesRecord value event written output) ↔
      output = archive.record value event := by
  unfold record
  cases hcharset : archive.charset with
  | error failure =>
    simp only [Service.savesRecord_of_error archive.toService hcharset,
      exists_eq_left]
    rfl
  | ok charset =>
    simp only [Service.savesRecord_of_charset archive.toService hcharset]
    rw [exists_comm]
    simp only [exists_and_right, encodes_toService, exists_eq_left]
    cases (archive.encoder event).encode value <;> rfl

theorem loadElement_eq_root (archive : Archive) (source : Source) :
    archive.loadElement source =
      (do ((archive.decoder .document).decodeRoot (← archive.toService.root source)).1) := by
  have hcharset : archive.toService.charset = archive.charset := rfl
  unfold loadElement loadRoot Service.root
  rw [hcharset]
  cases archive.charset with
  | error failure => rfl
  | ok charset =>
    simp only [bind, Except.bind]
    cases elementsOf charset source with
    | error failure => rfl
    | ok elements =>
      rcases elements with _ | ⟨root, _ | ⟨second, rest⟩⟩
      · rfl
      · simp only [pure, Except.pure]
        cases ((archive.decoder .document).decodeRoot root).1 <;> rfl
      · rfl

theorem exists_decodes_toService {root : Element} {result : Except Failure Value} :
    (∃ ledger, archive.toService.converters.Decodes (archive.toService.reader .document) root
        result ledger) ↔
      result = ((archive.decoder .document).decodeRoot root).1 := by
  refine (exists_congr fun ledger => (archive.decoder .document).decodes_iff root).trans ?_
  constructor
  · rintro ⟨ledger, h⟩
    rw [h]
  · rintro rfl
    exact ⟨_, rfl⟩

/-- As a service, an archive loads the value that it decodes. -/
theorem loadsElement_toService {source : Source} {result : Except Failure Value} :
    archive.toService.LoadsElement source result ↔ result = archive.loadElement source := by
  simp only [Service.loadsElement_iff, exists_and_left, exists_decodes_toService,
    loadElement_eq_root]
  cases archive.toService.root source with
  | error failure =>
    simp only [Except.error.injEq, exists_eq_left', reduceCtorEq, false_and, exists_false, or_false]
    rfl
  | ok root =>
    simp only [Except.ok.injEq, exists_eq_left', reduceCtorEq, false_and, exists_false, false_or]
    rfl

end Archive

end PlanArchive
