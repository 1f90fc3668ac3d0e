import PlanArchive.Proofs.Coding.Survival
import PlanArchive.Proofs.Value.Extended

/-!
# Records overruled by an event

An event is saved where the texts of a sample are, so a text that the event names as well is
overruled (`overruled`). A sound record stays sound. Whatever extends both a record and the
overruled record shows that they are the same (`agrees_of_extended`).
-/

namespace PlanArchive

namespace Value

mutual

/-- The value with the fields of each object changed, as `f` says for the type of the object. -/
def mapFields (f : String → List (String × Value) → List (String × Value)) : Value → Value
  | .null => .null
  | .text s => .text s
  | .object typeId fields entries =>
    .object typeId (f typeId (mapFieldsIn f fields)) (mapFieldsAll f entries)
  | .plan branches => .plan (mapFieldsPlan f branches)

def mapFieldsIn (f : String → List (String × Value) → List (String × Value)) :
    List (String × Value) → List (String × Value)
  | [] => []
  | (name, v) :: rest => (name, mapFields f v) :: mapFieldsIn f rest

def mapFieldsAll (f : String → List (String × Value) → List (String × Value)) :
    List Value → List Value
  | [] => []
  | v :: rest => mapFields f v :: mapFieldsAll f rest

def mapFieldsPlan (f : String → List (String × Value) → List (String × Value)) :
    List Branch → List Branch
  | [] => []
  | .mk element children :: rest =>
    .mk (mapFields f element) (mapFieldsPlan f children) :: mapFieldsPlan f rest

end

section

variable (f : String → List (String × Value) → List (String × Value))

theorem mapFields_object (typeId : String) (fields : List (String × Value))
    (entries : List Value) :
    mapFields f (.object typeId fields entries) =
      .object typeId (f typeId (fields.map fun field => (field.1, mapFields f field.2)))
        (entries.map (mapFields f)) := by
  have hfields : mapFieldsIn f fields = fields.map fun field => (field.1, mapFields f field.2) := by
    induction fields with
    | nil => rfl
    | cons field fields ih => rw [mapFieldsIn, ih, List.map_cons]
  have hentries : mapFieldsAll f entries = entries.map (mapFields f) := by
    induction entries with
    | nil => rfl
    | cons v entries ih => rw [mapFieldsAll, ih, List.map_cons]
  rw [mapFields, hfields, hentries]

/-- The branch with the fields of each object changed. -/
def mapBranch (b : Branch) : Branch := .mk (mapFields f b.element) (mapFieldsPlan f b.children)

theorem mapFieldsPlan_eq_map (branches : List Branch) :
    mapFieldsPlan f branches = branches.map (mapBranch f) := by
  induction branches with
  | nil => rfl
  | cons b branches ih =>
    obtain ⟨element, children⟩ := b
    rw [mapFieldsPlan, ih, List.map_cons]
    rfl

theorem typeId?_mapFields (v : Value) : (mapFields f v).typeId? = v.typeId? := by
  cases v <;> simp only [mapFields, typeId?]

theorem text?_mapFields (v : Value) : (mapFields f v).text? = v.text? := by
  cases v <;> simp only [mapFields, text?]

theorem isPlan_mapFields (v : Value) : (mapFields f v).isPlan = v.isPlan := by
  cases v <;> simp only [mapFields, isPlan]

end

end Value

namespace Coding

open Markup Naming

/-- What the event says, as it is written: names that are empty are left out. -/
def Event.pairs (event : Event) : List (String × String) :=
  [(hostKey, event.hostname), (threadGroupKey, event.threadGroup)].filter
    (fun pair => !pair.2.isEmpty) ++ event.sampleVariables

/-- The text that the event has under a name, the last one if there are several. -/
def Event.text? (event : Event) (name : String) : Option String :=
  Keyed.lastValue? name event.pairs

/-- The texts of a sample give way to those of the event. -/
def overrule (event : Event) : Coder → List (String × Value) → List (String × Value)
  | .sample, fields => fields.map fun field => (field.1, match field.2 with
      | .text s => .text ((event.text? field.1).getD s)
      | v => v)
  | _, fields => fields

/-- The record with the texts of its samples overruled by the event. -/
def overruled (roster : Roster) (event : Event) (v : Value) : Value :=
  v.mapFields fun typeId => overrule event (roster.coderFor typeId)

/-- If the value is a sample, the event has no other texts for its text fields. -/
def Agrees (roster : Roster) (event : Event) : Value → Prop
  | .object typeId fields _ => roster.coderFor typeId = .sample →
      ∀ name s t, (name, .text s) ∈ fields → event.text? name = some t → t = s
  | _ => True

section

variable (roster : Roster) (event : Event)

/-- The fields with the samples in them overruled by the event. -/
def overruledFields (fields : List (String × Value)) : List (String × Value) :=
  fields.map fun field => (field.1, overruled roster event field.2)

theorem overruled_object (typeId : String) (fields : List (String × Value))
    (entries : List Value) :
    overruled roster event (.object typeId fields entries) =
      .object typeId
        (overrule event (roster.coderFor typeId) (overruledFields roster event fields))
        (entries.map (overruled roster event)) :=
  Value.mapFields_object _ typeId fields entries

/-- The branch with its samples overruled by the event. -/
def overruledBranch : Branch → Branch :=
  Value.mapBranch fun typeId => overrule event (roster.coderFor typeId)

theorem overruled_plan (branches : List Branch) :
    overruled roster event (.plan branches) =
      .plan (branches.map (overruledBranch roster event)) := by
  rw [overruled, Value.mapFields, Value.mapFieldsPlan_eq_map]
  rfl

theorem element_overruledBranch (b : Branch) :
    (overruledBranch roster event b).element = overruled roster event b.element := rfl

theorem children_overruledBranch (b : Branch) :
    .plan (overruledBranch roster event b).children = overruled roster event (.plan b.children) := by
  rw [overruled, Value.mapFields]
  rfl

theorem typeId?_overruled (v : Value) : (overruled roster event v).typeId? = v.typeId? :=
  Value.typeId?_mapFields _ v

theorem text?_overruled (v : Value) : (overruled roster event v).text? = v.text? :=
  Value.text?_mapFields _ v

theorem isPlan_overruled (v : Value) : (overruled roster event v).isPlan = v.isPlan :=
  Value.isPlan_mapFields _ v

theorem tagOf_overruled (resolver : Resolver) (v : Value) :
    tagOf resolver (overruled roster event v) = tagOf resolver v := by
  rw [tagOf, typeId?_overruled, tagOf]

theorem classOf_overruled (resolver : Resolver) (v : Value) :
    classOf resolver (overruled roster event v) = classOf resolver v := by
  rw [classOf, text?_overruled, tagOf_overruled, classOf]

/-! ## Fields -/

theorem keys_overruledFields (fields : List (String × Value)) :
    Keyed.keys (overruledFields roster event fields) = Keyed.keys fields := by
  simp [overruledFields, Keyed.keys]

theorem textFields_overruledFields (fields : List (String × Value)) :
    Encoder.textFields (overruledFields roster event fields) = Encoder.textFields fields := by
  rw [overruledFields, Encoder.textFields, List.filterMap_map, Encoder.textFields]
  congr 1
  funext field
  simp only [Function.comp_apply, text?_overruled]

theorem structured_overruledFields (fields : List (String × Value)) :
    Encoder.structured (overruledFields roster event fields) =
      overruledFields roster event (Encoder.structured fields) := by
  simp only [overruledFields, Encoder.structured, List.filter_map]
  congr 2
  funext field
  simp only [Function.comp_apply, text?_overruled]

theorem fieldText?_overruledFields (fields : List (String × Value)) (key : String) :
    Value.fieldText? (overruledFields roster event fields) key = Value.fieldText? fields key := by
  induction fields with
  | nil => rfl
  | cons field fields ih =>
    obtain ⟨name, v⟩ := field
    rw [overruledFields, List.map_cons, Value.fieldText?, Keyed.find?, Value.fieldText?,
      Keyed.find?]
    split
    · exact text?_overruled roster event v
    · exact ih

theorem keys_overrule (c : Coder) (fields : List (String × Value)) :
    Keyed.keys (overrule event c fields) = Keyed.keys fields := by
  cases c with
  | sample => simp [overrule, Keyed.keys]
  | _ => rfl

theorem textFields_overrule (fields : List (String × Value)) :
    Encoder.textFields (overrule event .sample fields) =
      (Encoder.textFields fields).map fun pair =>
        (pair.1, (event.text? pair.1).getD pair.2) := by
  induction fields with
  | nil => rfl
  | cons field fields ih =>
    obtain ⟨name, v⟩ := field
    cases v with
    | text s => exact congrArg (List.cons (name, (event.text? name).getD s)) ih
    | _ => exact ih

/-- Only texts give way. -/
theorem structured_overrule (c : Coder) (fields : List (String × Value)) :
    Encoder.structured (overrule event c fields) = Encoder.structured fields := by
  cases c with
  | sample =>
    induction fields with
    | nil => rfl
    | cons field fields ih =>
      obtain ⟨name, v⟩ := field
      cases v with
      | text s => exact ih
      | _ => exact congrArg (List.cons _) ih
  | _ => rfl

/-- Fields without a text stay. -/
theorem mem_overrule {c : Coder} {fields : List (String × Value)} {field : String × Value}
    (hfield : field ∈ fields) (htext : field.2.text? = none) : field ∈ overrule event c fields := by
  cases c with
  | sample =>
    obtain ⟨name, v⟩ := field
    refine List.mem_map.mpr ⟨_, hfield, ?_⟩
    cases v with
    | text s => cases htext
    | _ => rfl
  | _ => exact hfield

/-- A text gives way to that of the event. -/
theorem text_mem_overrule {fields : List (String × Value)} {name s : String}
    (hfield : (name, .text s) ∈ fields) :
    (name, .text ((event.text? name).getD s)) ∈ overrule event .sample fields :=
  List.mem_map.mpr ⟨_, hfield, rfl⟩

theorem mem_of_mem_overrule {c : Coder} {fields : List (String × Value)}
    {field : String × Value} (h : field ∈ overrule event c fields) :
    field ∈ fields ∨ ∃ s, field.2 = .text s := by
  cases c with
  | sample =>
    obtain ⟨⟨name, v⟩, hfield, rfl⟩ := List.mem_map.mp h
    cases v with
    | text s => exact .inr ⟨_, rfl⟩
    | _ => exact .inl hfield
  | _ => exact .inl h

/-! ## The overruled record -/

/-- A record that agrees with the event is not changed. -/
theorem overruled_eq_self {v : Value} (h : v.Everywhere (Agrees roster event)) :
    overruled roster event v = v := by
  induction v using Value.induct with
  | null => rfl
  | text s => rfl
  | object typeId fields entries ihfields ihentries =>
    obtain ⟨hhere, hfields, hentries⟩ := Value.everywhere_object.mp h
    have hfields' : overruledFields roster event fields = fields :=
      (List.map_congr_left fun field hfield => by
        rw [ihfields field hfield (hfields field hfield)]; rfl).trans (List.map_id _)
    have hentries' : entries.map (overruled roster event) = entries :=
      (List.map_congr_left fun entry hentry => ihentries entry hentry
        (hentries entry hentry)).trans (List.map_id _)
    have hoverrule : overrule event (roster.coderFor typeId) fields = fields := by
      cases hcoder : roster.coderFor typeId with
      | sample =>
        refine (List.map_congr_left fun field hfield => ?_).trans (List.map_id _)
        obtain ⟨name, v⟩ := field
        cases v with
        | text s =>
          cases htext : event.text? name with
          | none => simp
          | some t => simp [hhere hcoder name s t hfield htext]
        | _ => rfl
      | _ => rfl
    rw [overruled_object, hfields', hentries', hoverrule]
  | plan branches ih =>
    obtain ⟨-, hbranches⟩ := Value.everywhere_plan.mp h
    have hbranches' : branches.map (overruledBranch roster event) = branches := by
      refine (List.map_congr_left fun b hb => ?_).trans (List.map_id _)
      obtain ⟨ihelement, ihchildren⟩ := ih b hb
      obtain ⟨helement, hchildren⟩ := hbranches b hb
      have hplan := ihchildren hchildren
      rw [← children_overruledBranch, Value.plan.injEq] at hplan
      rw [← Branch.mk_element_children (overruledBranch roster event b), hplan,
        element_overruledBranch, ihelement helement]
      exact b.mk_element_children
    rw [overruled_plan, hbranches']

/-- A value that extends both the record and the overruled record has only one text under each
name. -/
theorem agrees_of_extended {extra extra' : String → String × Value → Prop} {v x : Value}
    (h : Value.Extended extra v x) (h' : Value.Extended extra' (overruled roster event v) x) :
    v.Everywhere (Agrees roster event) := by
  induction v using Value.induct generalizing x with
  | null => exact Value.everywhere_null.mpr trivial
  | text s => exact Value.everywhere_text.mpr trivial
  | object typeId fields entries ihfields ihentries =>
    obtain ⟨others, entries', rfl, hfields, hentries⟩ := Value.extended_object.mp h
    rw [overruled_object] at h'
    obtain ⟨_, _, heq, hfields', hentries'⟩ := Value.extended_object.mp h'
    obtain ⟨-, rfl, rfl⟩ := Value.object.inj heq
    refine Value.everywhere_object.mpr ⟨?_, ?_, ?_⟩
    · intro hcoder name s t hfield htext
      have hfield' : (name, Value.text s) ∈ overruledFields roster event fields :=
        List.mem_map.mpr ⟨_, hfield, rfl⟩
      obtain ⟨value, hvalue, hs⟩ := hfields.kept _ hfield
      obtain ⟨value', hvalue', ht⟩ := hfields'.kept (name, .text t) (by
        have hmem := text_mem_overrule event hfield'
        rwa [htext, Option.getD_some, ← hcoder] at hmem)
      rw [hvalue] at hvalue'
      rw [Value.extended_text.mp hs, Value.extended_text.mp ht] at hvalue'
      exact (Value.text.inj (Option.some.inj hvalue')).symm
    · intro field hfield
      obtain ⟨value, hvalue, hextended⟩ := hfields.kept field hfield
      cases htext : field.2.text? with
      | some s =>
        obtain ⟨name, v⟩ := field
        cases v with
        | text s => exact Value.everywhere_text.mpr trivial
        | _ => cases htext
      | none =>
        have hfield' : (field.1, overruled roster event field.2) ∈
            overruledFields roster event fields := List.mem_map.mpr ⟨_, hfield, rfl⟩
        obtain ⟨value', hvalue', hextended'⟩ := hfields'.kept _
          (mem_overrule event hfield' ((text?_overruled roster event _).trans htext))
        rw [hvalue] at hvalue'
        exact ihfields field hfield hextended (Option.some.inj hvalue' ▸ hextended')
    · rw [List.forall₂_map_left_iff] at hentries'
      clear h h' heq
      induction hentries with
      | nil => exact List.forall_mem_nil _
      | cons hentry _ ih =>
        obtain ⟨hhead, htail⟩ := List.forall_mem_cons.mp ihentries
        obtain ⟨hentry', hrest⟩ := List.forall₂_cons.mp hentries'
        exact List.forall_mem_cons.mpr ⟨hhead hentry hentry', ih htail hrest⟩
  | plan branches ih =>
    obtain ⟨others, rfl, hbranches⟩ := Value.extended_plan.mp h
    rw [overruled_plan] at h'
    obtain ⟨_, heq, hbranches'⟩ := Value.extended_plan.mp h'
    obtain rfl := Value.plan.inj heq
    refine Value.everywhere_plan.mpr ⟨trivial, ?_⟩
    rw [List.forall₂_map_left_iff] at hbranches'
    clear h h' heq
    induction hbranches with
    | nil => exact List.forall_mem_nil _
    | @cons b c branches others hbranch _ ihrest =>
      obtain ⟨⟨helement, hchildren⟩, htail⟩ := List.forall_mem_cons.mp ih
      obtain ⟨⟨helement', hchildren'⟩, hrest⟩ := List.forall₂_cons.mp hbranches'
      rw [element_overruledBranch] at helement'
      rw [children_overruledBranch] at hchildren'
      exact List.forall_mem_cons.mpr
        ⟨⟨helement hbranch.1 helement', hchildren hbranch.2 hchildren'⟩, ihrest htail hrest⟩

/-! ## Sound records -/

theorem overruledFields_texts {fields : List (String × Value)}
    (h : ∀ field ∈ fields, ∃ s, field.2 = .text s) : overruledFields roster event fields = fields := by
  refine (List.map_congr_left fun field hfield => ?_).trans (List.map_id _)
  obtain ⟨name, v⟩ := field
  obtain ⟨s, rfl⟩ := h _ hfield
  rfl

theorem fieldsKept_overruled {c : Coder} {fields : List (String × Value)}
    (h : (arrange c fields).Perm fields) :
    (arrange c (overrule event c (overruledFields roster event fields))).Perm
      (overrule event c (overruledFields roster event fields)) := by
  cases c with
  | envelope =>
    have htexts : ∀ field ∈ fields, ∃ s, field.2 = .text s := fun field hfield =>
      text_of_mem_arrange_envelope (h.symm.subset hfield)
    rw [overruledFields_texts roster event htexts]
    exact h
  | wrapper =>
    have htexts : ∀ field ∈ fields, ∃ s, field.2 = .text s := fun field hfield =>
      text_of_mem_arrange_wrapper (h.symm.subset hfield)
    rw [overruledFields_texts roster event htexts]
    exact h
  | sample => exact arrange_sample_perm _
  | _ => exact .refl _

theorem legibleFor_overruled {decoder : Decoder} {typeId : String} {c : Coder}
    {fields : List (String × Value)} {entries : List Value}
    (h : decoder.LegibleFor typeId fields entries c) :
    decoder.LegibleFor typeId (overrule event c (overruledFields roster event fields))
      (entries.map (overruled roster event)) c := by
  have hkeys : Keyed.keys (overrule event c (overruledFields roster event fields)) =
      Keyed.keys fields := (keys_overrule event c _).trans (keys_overruledFields roster event fields)
  cases c with
  | object =>
    obtain ⟨hbinding, hnodup⟩ := h
    exact ⟨hbinding, hkeys ▸ hnodup⟩
  | sample =>
    obtain ⟨hnodup, hnames, htags⟩ := h
    refine ⟨hkeys ▸ hnodup, ?_, List.forall_mem_map.mpr fun entry hentry => ?_⟩
    · rw [structured_overrule, structured_overruledFields]
      exact List.forall_mem_map.mpr hnames
    · rw [tagOf_overruled]
      exact htags entry hentry
  | _ => exact h

theorem typed_overruled {resolver : Resolver} {v : Value} (h : Typed resolver v) :
    Typed resolver (overruled roster event v) :=
  fun typeId htype => h typeId ((typeId?_overruled roster event v).symm.trans htype)

/-- Only texts give way, so the overruled record is as sound as the record. -/
theorem sound_overruled {decoder : Decoder} {v : Value} (h : v.Everywhere decoder.Sound) :
    (overruled decoder.roster event v).Everywhere decoder.Sound := by
  induction v using Value.induct with
  | null => exact h
  | text s => exact h
  | object typeId fields entries ihfields ihentries =>
    obtain ⟨⟨⟨hresolves, hlegible, htyped⟩, hkept⟩, hfields, hentries⟩ :=
      Value.everywhere_object.mp h
    rw [overruled_object]
    refine Value.everywhere_object.mpr ⟨⟨⟨hresolves, legibleFor_overruled _ event hlegible, ?_⟩,
      fieldsKept_overruled _ event hkept⟩, ?_, ?_⟩
    · exact List.forall_mem_map.mpr fun entry hentry =>
        typed_overruled _ event (htyped entry hentry)
    · have hinner : ∀ field ∈ overruledFields decoder.roster event fields,
          field.2.Everywhere decoder.Sound :=
        List.forall_mem_map.mpr fun field hfield => ihfields field hfield (hfields field hfield)
      intro field hfield
      rcases mem_of_mem_overrule event hfield with hfield | ⟨s, hs⟩
      · exact hinner field hfield
      · rw [hs]
        exact Value.everywhere_text.mpr ⟨trivial, trivial⟩
    · exact List.forall_mem_map.mpr fun entry hentry =>
        ihentries entry hentry (hentries entry hentry)
  | plan branches ih =>
    obtain ⟨⟨⟨hresolves, htags⟩, -⟩, hbranches⟩ := Value.everywhere_plan.mp h
    rw [overruled_plan]
    refine Value.everywhere_plan.mpr ⟨⟨⟨hresolves, List.forall_mem_map.mpr fun b hb => ?_⟩,
      trivial⟩, List.forall_mem_map.mpr fun b hb => ?_⟩
    · obtain ⟨htyped, hsubtree⟩ := htags b hb
      rw [element_overruledBranch, tagOf_overruled]
      exact ⟨typed_overruled _ event htyped, hsubtree⟩
    · rw [element_overruledBranch, children_overruledBranch]
      exact ⟨(ih b hb).1 (hbranches b hb).1, (ih b hb).2 (hbranches b hb).2⟩

end

end Coding

end PlanArchive
