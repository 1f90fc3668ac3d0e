import PlanArchive.Proofs.Coding.Writing
import PlanArchive.Proofs.Value.Alike

/-!
# Settled values

Writing and reading settle a value: a sample has its texts before its other fields, an envelope and
a wrapper have the fields that are written for them, and nothing else changes. A settled value is
written as the value itself is (`encode_settle`), and it is alike where those are the fields it had
(`alike_settle`).
-/

namespace PlanArchive.Coding

open Markup Naming

/-- The fields of an object as its coder brings them back. -/
def arrange : Coder → List (String × Value) → List (String × Value)
  | .sample, fields => (fields.filter fun field => field.2.text?.isSome) ++
      Encoder.structured fields
  | .envelope, fields => [versionKey, propertiesKey, applicationKey].filterMap fun key =>
      (Value.fieldText? fields key).map fun s => (key, .text s)
  | .wrapper, fields =>
    [(versionKey, .text ((Value.fieldText? fields versionKey).getD formatVersion))]
  | _, fields => fields

theorem arrange_object (fields : List (String × Value)) : arrange .object fields = fields := rfl

mutual

/-- The value as it is after it was written and read. -/
def settle (roster : Roster) : Value → Value
  | .null => .null
  | .text s => .text s
  | .object typeId fields entries =>
    .object typeId (arrange (roster.coderFor typeId) (settleFields roster fields))
      (settleAll roster entries)
  | .plan branches => .plan (settlePlan roster branches)

def settleFields (roster : Roster) : List (String × Value) → List (String × Value)
  | [] => []
  | (name, v) :: rest => (name, settle roster v) :: settleFields roster rest

def settleAll (roster : Roster) : List Value → List Value
  | [] => []
  | v :: rest => settle roster v :: settleAll roster rest

def settlePlan (roster : Roster) : List Branch → List Branch
  | [] => []
  | .mk element children :: rest =>
    .mk (settle roster element) (settlePlan roster children) :: settlePlan roster rest

end

section

variable (roster : Roster)

theorem settleFields_eq_map (fields : List (String × Value)) :
    settleFields roster fields = fields.map fun field => (field.1, settle roster field.2) := by
  induction fields with
  | nil => rfl
  | cons field fields ih => rw [settleFields, ih, List.map_cons]

theorem settleAll_eq_map (vs : List Value) : settleAll roster vs = vs.map (settle roster) := by
  induction vs with
  | nil => rfl
  | cons v vs ih => rw [settleAll, ih, List.map_cons]

/-- A branch as it is after it was written and read. -/
def settleBranch (b : Branch) : Branch :=
  .mk (settle roster b.element) (settlePlan roster b.children)

theorem settlePlan_eq_map (plan : Plan) :
    settlePlan roster plan = plan.map (settleBranch roster) := by
  induction plan with
  | nil => rfl
  | cons b plan ih =>
    obtain ⟨element, children⟩ := b
    rw [settlePlan, ih, List.map_cons]
    rfl

theorem typeId?_settle (v : Value) : (settle roster v).typeId? = v.typeId? := by
  cases v <;> simp only [settle, Value.typeId?]

theorem text?_settle (v : Value) : (settle roster v).text? = v.text? := by
  cases v <;> simp only [settle, Value.text?]

theorem isPlan_settle (v : Value) : (settle roster v).isPlan = v.isPlan := by
  cases v <;> simp only [settle, Value.isPlan]

theorem find?_settleFields (key : String) (fields : List (String × Value)) :
    Keyed.find? key (settleFields roster fields) =
      (Keyed.find? key fields).map (settle roster) := by
  induction fields with
  | nil => rfl
  | cons field fields ih =>
    obtain ⟨name, v⟩ := field
    rw [settleFields, Keyed.find?, Keyed.find?]
    split
    · rfl
    · exact ih

theorem fieldText?_settleFields (fields : List (String × Value)) (key : String) :
    Value.fieldText? (settleFields roster fields) key = Value.fieldText? fields key := by
  rw [Value.fieldText?, find?_settleFields, Value.fieldText?]
  cases Keyed.find? key fields with
  | none => rfl
  | some v => exact text?_settle roster v

end

/-- If the value is an object, it is left to the object coder. -/
def Plain (roster : Roster) (v : Value) : Prop :=
  ∀ typeId fields entries, v = .object typeId fields entries → roster.coderFor typeId = .object

/-- Only objects with a coder of their own are rearranged. -/
theorem settle_eq_self {roster : Roster} {v : Value} (h : v.Everywhere (Plain roster)) :
    settle roster v = v := by
  induction v using Value.induct with
  | null => rfl
  | text s => rfl
  | object typeId fields entries ihfields ihentries =>
    obtain ⟨hhere, hfields, hentries⟩ := Value.everywhere_object.mp h
    have hfields' : fields.map (fun field => (field.1, settle roster field.2)) = fields :=
      (List.map_congr_left fun field hfield => by
        rw [ihfields field hfield (hfields field hfield)]; rfl).trans (List.map_id _)
    have hentries' : entries.map (settle roster) = entries :=
      (List.map_congr_left fun entry hentry => ihentries entry hentry
        (hentries entry hentry)).trans (List.map_id _)
    rw [settle, hhere _ _ _ rfl, arrange_object, settleFields_eq_map, hfields', settleAll_eq_map,
      hentries']
  | plan branches ih =>
    obtain ⟨-, hbranches⟩ := Value.everywhere_plan.mp h
    have hbranches' : branches.map (settleBranch roster) = branches := by
      refine (List.map_congr_left fun b hb => ?_).trans (List.map_id _)
      obtain ⟨ihelement, ihchildren⟩ := ih b hb
      obtain ⟨helement, hchildren⟩ := hbranches b hb
      have hplan := ihchildren hchildren
      rw [settle, Value.plan.injEq] at hplan
      rw [settleBranch, ihelement helement, hplan]
      exact b.mk_element_children
    rw [settle, settlePlan_eq_map, hbranches']

/-! ## Writing settled values -/

section

variable (roster : Roster)

theorem textFields_append (fs gs : List (String × Value)) :
    Encoder.textFields (fs ++ gs) = Encoder.textFields fs ++ Encoder.textFields gs :=
  List.filterMap_append

theorem textFields_texts (fields : List (String × Value)) :
    Encoder.textFields (fields.filter fun field => field.2.text?.isSome) =
      Encoder.textFields fields := by
  rw [Encoder.textFields, Encoder.textFields, List.filterMap_filter]
  congr 1
  funext field
  obtain ⟨name, v⟩ := field
  cases v <;> rfl

theorem textFields_structured (fields : List (String × Value)) :
    Encoder.textFields (Encoder.structured fields) = [] := by
  apply List.filterMap_eq_nil_iff.mpr
  intro field hfield
  have hnone := (List.mem_filter.mp hfield).2
  rw [Option.isNone_iff_eq_none] at hnone
  simp [hnone]

theorem textFields_settleFields (fields : List (String × Value)) :
    Encoder.textFields (settleFields roster fields) = Encoder.textFields fields := by
  rw [settleFields_eq_map, Encoder.textFields, List.filterMap_map, Encoder.textFields]
  congr 1
  funext field
  simp only [Function.comp_apply, text?_settle]

theorem textFields_arrange_sample (fields : List (String × Value)) :
    Encoder.textFields (arrange .sample fields) = Encoder.textFields fields := by
  rw [arrange, textFields_append, textFields_texts, textFields_structured, List.append_nil]

theorem structured_arrange_sample (fields : List (String × Value)) :
    Encoder.structured (arrange .sample fields) = Encoder.structured fields := by
  simp only [arrange, Encoder.structured, List.filter_append, List.filter_filter]
  have hnone : ∀ o : Option String, (o.isNone && o.isSome) = false := by
    intro o
    cases o <;> rfl
  simp [hnone]

theorem structured_settleFields (fields : List (String × Value)) :
    Encoder.structured (settleFields roster fields) =
      settleFields roster (Encoder.structured fields) := by
  simp only [settleFields_eq_map, Encoder.structured, List.filter_map]
  congr 2
  funext field
  simp only [Function.comp_apply, text?_settle]

/-- Texts are settled as they are. -/
theorem texts_settleFields (fields : List (String × Value)) :
    (settleFields roster fields).filter (fun field => field.2.text?.isSome) =
      fields.filter fun field => field.2.text?.isSome := by
  induction fields with
  | nil => rfl
  | cons field fields ih =>
    obtain ⟨name, v⟩ := field
    cases v with
    | text s => exact congrArg (List.cons (name, Value.text s)) ih
    | _ => exact ih

theorem fieldText?_arrange_envelope (fields : List (String × Value)) {key : String}
    (hkey : key ∈ [versionKey, propertiesKey, applicationKey]) :
    Value.fieldText? (arrange .envelope fields) key = Value.fieldText? fields key := by
  have hfind : Keyed.find? key _ = _ := Keyed.find?_filterMap
    (fun key => (Value.fieldText? fields key).map Value.text)
    [versionKey, propertiesKey, applicationKey]
  simp only [Option.map_map, if_pos hkey] at hfind
  rw [Value.fieldText?, arrange]
  refine (congrArg (Option.bind · Value.text?) hfind).trans ?_
  cases Value.fieldText? fields key <;> rfl

theorem fieldText?_arrange_wrapper (fields : List (String × Value)) :
    Value.fieldText? (arrange .wrapper fields) versionKey =
      some ((Value.fieldText? fields versionKey).getD formatVersion) := rfl

theorem arrange_envelope_settleFields (fields : List (String × Value)) :
    arrange .envelope (settleFields roster fields) = arrange .envelope fields := by
  simp only [arrange, fieldText?_settleFields]

theorem arrange_wrapper_settleFields (fields : List (String × Value)) :
    arrange .wrapper (settleFields roster fields) = arrange .wrapper fields := by
  simp only [arrange, fieldText?_settleFields]

/-- A settled value is written like the value itself. -/
def SettledAlike (encoder : Encoder) (v : Value) : Prop :=
  ∀ e e' : Element, encoder.fill e v = .ok e' →
    encoder.fill e (settle encoder.roster v) = .ok e'

end

namespace Encoder

variable {encoder : Encoder}

theorem startValue_settle (v : Value) :
    encoder.startValue (settle encoder.roster v) = encoder.startValue v := by
  rw [startValue, typeId?_settle, startValue]

theorem startField_settle (name : String) (v : Value) :
    encoder.startField name (settle encoder.roster v) = encoder.startField name v := by
  cases v <;> simp only [settle, startField]

theorem encode_settle_of {v : Value} (h : SettledAlike encoder v) {e : Element}
    (he : encoder.encode v = .ok e) : encoder.encode (settle encoder.roster v) = .ok e := by
  rw [encode_eq, Result.bind_eq_ok] at he
  obtain ⟨start, hstart, hfill⟩ := he
  rw [encode_eq, startValue_settle, Result.bind_eq_ok]
  exact ⟨start, hstart, h start e hfill⟩

theorem encodeField_settle_of (hroster : encoder.roster.Standard) {field : String × Value}
    (h : SettledAlike encoder field.2) {e : Element} (he : encoder.encodeField field = .ok e) :
    encoder.encodeField (field.1, settle encoder.roster field.2) = .ok e := by
  rw [encodeField, Result.bind_eq_ok] at he
  obtain ⟨start, hstart, hfill⟩ := he
  rw [fillField_eq encoder hroster] at hfill
  rw [encodeField, startField_settle, Result.bind_eq_ok]
  exact ⟨start, hstart, (fillField_eq encoder hroster _ _).trans (h start e hfill)⟩

theorem encodeFields_settle_of (hroster : encoder.roster.Standard)
    {fields : List (String × Value)} (h : ∀ field ∈ fields, SettledAlike encoder field.2)
    {es : List Element}
    (hes : List.Forall₂ (fun field e => encoder.encodeField field = .ok e) fields es) :
    List.Forall₂ (fun field e => encoder.encodeField field = .ok e)
      (settleFields encoder.roster fields) es := by
  rw [settleFields_eq_map, List.forall₂_map_left_iff]
  induction hes with
  | nil => exact .nil
  | cons he _ ih =>
    obtain ⟨hfield, hfields⟩ := List.forall_mem_cons.mp h
    exact .cons (encodeField_settle_of hroster hfield he) (ih hfields)

theorem encodeAll_settle_of {vs : List Value} (h : ∀ v ∈ vs, SettledAlike encoder v)
    {es : List Element} (hes : encoder.encodeAll vs = .ok es) :
    encoder.encodeAll (settleAll encoder.roster vs) = .ok es := by
  rw [encodeAll_eq_ok] at hes ⊢
  rw [settleAll_eq_map, List.forall₂_map_left_iff]
  induction hes with
  | nil => exact .nil
  | cons he _ ih =>
    obtain ⟨hv, hvs⟩ := List.forall_mem_cons.mp h
    exact .cons (encode_settle_of hv he) (ih hvs)

theorem encodePlan_settle_of (hroster : encoder.roster.Standard)
    (htag : isName (encoder.resolver.tagFor treeType) = true) {plan : Plan}
    (h : ∀ b ∈ plan, SettledAlike encoder b.element ∧ SettledAlike encoder (.plan b.children))
    {es : List Element}
    (hes : encoder.encodePlan (encoder.resolver.tagFor treeType) plan = .ok es) :
    encoder.encodePlan (encoder.resolver.tagFor treeType) (settlePlan encoder.roster plan) =
      .ok es := by
  obtain ⟨pairs, hpairs, rfl⟩ := encodePlan_eq_ok.mp hes
  refine encodePlan_eq_ok.mpr ⟨pairs, ?_, rfl⟩
  rw [settlePlan_eq_map, List.forall₂_map_left_iff]
  clear hes
  induction hpairs with
  | nil => exact .nil
  | @cons b pair plan pairs hpair _ ih =>
    obtain ⟨⟨helement, hchildren⟩, hrest⟩ := List.forall_mem_cons.mp h
    obtain ⟨hplan, he, hbelow⟩ := hpair
    refine .cons ⟨(isPlan_settle _ _).trans hplan, encode_settle_of helement he, ?_⟩ (ih hrest)
    -- the plan below is written like a value of its own
    have hfill := (fill_plan encoder hroster (e := { name := "" })).mpr ⟨htag, pair.2, hbelow, rfl⟩
    obtain ⟨-, children, hchildren', heq⟩ := (fill_plan encoder hroster).mp (hchildren _ _ hfill)
    obtain rfl : pair.2 = children := congrArg Element.children heq
    exact hchildren'

theorem settledAlike (hroster : encoder.roster.Standard) (v : Value) :
    SettledAlike encoder v := by
  induction v using Value.induct with
  | null => exact fun _ _ h => h
  | text s => exact fun _ _ h => h
  | object typeId fields entries ihfields ihentries =>
    intro e e' hfill
    rw [settle]
    cases hcoder : encoder.roster.coderFor typeId with
    | text => exact absurd hfill (fill_misfit encoder (Or.inl hcoder))
    | plan => exact absurd hfill (fill_misfit encoder (Or.inr hcoder))
    | envelope =>
      obtain ⟨plan, member, rfl, hmember, rfl⟩ := (fill_envelope encoder hcoder).mp hfill
      have hmember' := encode_settle_of (ihentries _ (List.mem_cons_self ..)) hmember
      refine (fill_envelope encoder hcoder).mpr
        ⟨settlePlan encoder.roster plan, member, rfl, hmember', ?_⟩
      have htext : ∀ key ∈ [versionKey, propertiesKey, applicationKey],
          Value.fieldText? (arrange .envelope (settleFields encoder.roster fields)) key =
            Value.fieldText? fields key := fun key hkey =>
        (fieldText?_arrange_envelope _ hkey).trans (fieldText?_settleFields _ _ _)
      simp [envelopeHead, htext]
    | wrapper =>
      obtain ⟨members, hall, rfl⟩ := (fill_wrapper encoder hcoder).mp hfill
      refine (fill_wrapper encoder hcoder).mpr ⟨members, encodeAll_settle_of ihentries hall, ?_⟩
      rw [wrapperHead, wrapperHead, fieldText?_arrange_wrapper, fieldText?_settleFields]
      rfl
    | sample =>
      obtain ⟨head, parts, members, hhead, hparts, hall, rfl⟩ :=
        (fill_sample encoder hcoder).mp hfill
      refine (fill_sample encoder hcoder).mpr
        ⟨head, parts, members, ?_, ?_, encodeAll_settle_of ihentries hall, rfl⟩
      · rw [sampleHead, textFields_arrange_sample, textFields_settleFields]
        exact hhead
      · rw [encodeStructured_eq_ok] at hparts ⊢
        rw [structured_arrange_sample, structured_settleFields]
        exact encodeFields_settle_of hroster
          (fun field hfield => ihfields field (List.mem_filter.mp hfield).1) hparts
    | object =>
      obtain ⟨parts, members, hparts, hall, rfl⟩ := (fill_object encoder hcoder).mp hfill
      refine (fill_object encoder hcoder).mpr
        ⟨parts, members, ?_, encodeAll_settle_of ihentries hall, rfl⟩
      obtain ⟨hnames, hparts⟩ := encodeFields_eq_ok.mp hparts
      refine encodeFields_eq_ok.mpr ⟨?_, encodeFields_settle_of hroster ihfields hparts⟩
      intro field hfield
      rw [arrange_object, settleFields_eq_map] at hfield
      obtain ⟨field', hfield', rfl⟩ := List.mem_map.mp hfield
      exact hnames field' hfield'
  | plan branches ih =>
    intro e e' hfill
    obtain ⟨htag, children, hchildren, rfl⟩ := (fill_plan encoder hroster).mp hfill
    exact (fill_plan encoder hroster).mpr
      ⟨htag, children, encodePlan_settle_of hroster htag ih hchildren, rfl⟩

variable (encoder) in
theorem encode_settle (hroster : encoder.roster.Standard) {v : Value} {e : Element}
    (h : encoder.encode v = .ok e) : encoder.encode (settle encoder.roster v) = .ok e :=
  encode_settle_of (settledAlike hroster v) h

end Encoder

/-! ## What settling changes -/

/-- In a sample the texts come first, but none of its fields is lost. -/
theorem arrange_sample_perm (fields : List (String × Value)) :
    (arrange .sample fields).Perm fields := by
  have hnot : ∀ o : Option String, o.isNone = !o.isSome := by
    intro o
    cases o <;> rfl
  simp only [arrange, Encoder.structured, hnot]
  exact List.filter_append_perm _ fields

theorem text_of_mem_arrange_envelope {fields : List (String × Value)} {field : String × Value}
    (h : field ∈ arrange .envelope fields) : ∃ s, field.2 = .text s := by
  obtain ⟨key, -, hkey⟩ := List.mem_filterMap.mp h
  obtain ⟨s, -, rfl⟩ := Option.map_eq_some_iff.mp hkey
  exact ⟨s, rfl⟩

theorem text_of_mem_arrange_wrapper {fields : List (String × Value)} {field : String × Value}
    (h : field ∈ arrange .wrapper fields) : ∃ s, field.2 = .text s := by
  obtain rfl := List.mem_singleton.mp h
  exact ⟨_, rfl⟩

/-- If the value is an object, its coder brings back the fields it has. -/
def FieldsKept (roster : Roster) : Value → Prop
  | .object typeId fields _ => (arrange (roster.coderFor typeId) fields).Perm fields
  | _ => True

theorem alike_texts {fields : List (String × Value)}
    (h : ∀ field ∈ fields, ∃ s, field.2 = .text s) :
    List.Forall₂ Value.FieldAlike fields fields :=
  List.forall₂_same.mpr fun field hfield => by
    obtain ⟨s, hs⟩ := h field hfield
    exact ⟨rfl, hs ▸ .text s⟩

theorem fieldsAlike_arrange {roster : Roster} {fields : List (String × Value)} {c : Coder}
    (hkept : (arrange c fields).Perm fields)
    (h : List.Forall₂ Value.FieldAlike fields (settleFields roster fields)) :
    Value.FieldsAlike fields (arrange c (settleFields roster fields)) := by
  cases c with
  | envelope =>
    rw [arrange_envelope_settleFields]
    exact ⟨fields, alike_texts fun field hfield =>
      text_of_mem_arrange_envelope (hkept.symm.subset hfield), hkept.symm⟩
  | wrapper =>
    rw [arrange_wrapper_settleFields]
    exact ⟨fields, alike_texts fun field hfield =>
      text_of_mem_arrange_wrapper (hkept.symm.subset hfield), hkept.symm⟩
  | sample => exact ⟨_, h, (arrange_sample_perm _).symm⟩
  | _ => exact ⟨_, h, .refl _⟩

/-- A value whose fields are kept is settled to an alike one. -/
theorem alike_settle {roster : Roster} {v : Value} (h : v.Everywhere (FieldsKept roster)) :
    Value.Alike v (settle roster v) := by
  induction v using Value.induct with
  | null => exact .null
  | text s => exact .text s
  | object typeId fields entries ihfields ihentries =>
    obtain ⟨hhere, hfields, hentries⟩ := Value.everywhere_object.mp h
    rw [settle]
    refine Value.alike_object.mpr ⟨_, _, rfl, fieldsAlike_arrange hhere ?_, ?_⟩
    · rw [settleFields_eq_map, List.forall₂_map_right_iff]
      exact List.forall₂_same.mpr fun field hfield =>
        ⟨rfl, ihfields field hfield (hfields field hfield)⟩
    · rw [settleAll_eq_map, List.forall₂_map_right_iff]
      exact List.forall₂_same.mpr fun entry hentry => ihentries entry hentry (hentries entry hentry)
  | plan branches ih =>
    obtain ⟨-, hbranches⟩ := Value.everywhere_plan.mp h
    rw [settle]
    refine Value.alike_plan.mpr ⟨_, rfl, ?_⟩
    rw [settlePlan_eq_map, List.forall₂_map_right_iff]
    refine List.forall₂_same.mpr fun b hb => ⟨(ih b hb).1 (hbranches b hb).1, ?_⟩
    have hchildren := (ih b hb).2 (hbranches b hb).2
    rwa [settle] at hchildren

end PlanArchive.Coding
