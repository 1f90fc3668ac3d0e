import PlanArchive.Proofs.Related
import PlanArchive.Proofs.Value.Alike

/-!
# Values with more fields

An extended value has the fields of the other one, whatever their order, its entries and its
branches, each of them extended in turn. The fields that its objects have besides are new names
(`Extended`).
-/

namespace PlanArchive.Value

/-- The second value is the first one, but objects of a type may have got the fields `extra` allows.
Under each name that a field had, `image` is what stands there now. -/
inductive Extended (extra : String → String × Value → Prop) : Value → Value → Prop
  | null : Extended extra .null .null
  | text (s : String) : Extended extra (.text s) (.text s)
  | object {typeId : String} {fields others : List (String × Value)}
      {entries entries' : List Value} (image : String → Value)
      (hfound : ∀ field ∈ fields, Keyed.find? field.1 others = some (image field.1))
      (himage : ∀ field ∈ fields, Extended extra field.2 (image field.1))
      (hdistinct : (Keyed.keys others).Nodup)
      (hnew : ∀ other ∈ others, other.1 ∈ Keyed.keys fields ∨ extra typeId other)
      (hentries : List.Forall₂ (Extended extra) entries entries') :
      Extended extra (.object typeId fields entries) (.object typeId others entries')
  | plan {branches others : List Branch} :
      List.Forall₂ (Extended extra) (branches.map Branch.element) (others.map Branch.element) →
      List.Forall₂ (Extended extra) (branches.map fun b => .plan b.children)
        (others.map fun b => .plan b.children) →
      Extended extra (.plan branches) (.plan others)

/-- Each field is kept, extended at most, and the other fields of an object of the type are new. -/
structure FieldsExtended (extra : String → String × Value → Prop) (typeId : String)
    (fields others : List (String × Value)) : Prop where
  kept : ∀ field ∈ fields, ∃ value, Keyed.find? field.1 others = some value ∧
    Extended extra field.2 value
  distinct : (Keyed.keys others).Nodup
  new : ∀ other ∈ others, other.1 ∈ Keyed.keys fields ∨ extra typeId other

/-- A field of the same name with an extended value. -/
def FieldExtended (extra : String → String × Value → Prop) (field other : String × Value) : Prop :=
  field.1 = other.1 ∧ Extended extra field.2 other.2

/-- The same element and the same plan below it, each extended. -/
def BranchExtended (extra : String → String × Value → Prop) (b c : Branch) : Prop :=
  Extended extra b.element c.element ∧ Extended extra (.plan b.children) (.plan c.children)

section

variable {extra : String → String × Value → Prop} {typeId : String}
  {fields others : List (String × Value)} {entries : List Value} {v w : Value}

theorem extended_text {s : String} : Extended extra (.text s) w ↔ w = .text s := by
  constructor
  · intro h
    cases h
    rfl
  · rintro rfl
    exact .text s

theorem extended_object :
    Extended extra (.object typeId fields entries) w ↔ ∃ others entries',
      w = .object typeId others entries' ∧ FieldsExtended extra typeId fields others ∧
        List.Forall₂ (Extended extra) entries entries' := by
  constructor
  · intro h
    cases h with
    | object image hfound himage hdistinct hnew hentries =>
      exact ⟨_, _, rfl, ⟨fun field hfield => ⟨_, hfound field hfield, himage field hfield⟩,
        hdistinct, hnew⟩, hentries⟩
  · rintro ⟨others, entries', rfl, ⟨hkept, hdistinct, hnew⟩, hentries⟩
    refine .object (fun name => (Keyed.find? name others).getD .null) ?_ ?_ hdistinct hnew hentries
    · intro field hfield
      obtain ⟨value, hvalue, -⟩ := hkept field hfield
      rw [hvalue, Option.getD_some]
    · intro field hfield
      obtain ⟨value, hvalue, hextended⟩ := hkept field hfield
      rwa [hvalue, Option.getD_some]

theorem extended_plan {branches : List Branch} :
    Extended extra (.plan branches) w ↔
      ∃ others, w = .plan others ∧ List.Forall₂ (BranchExtended extra) branches others := by
  constructor
  · intro h
    cases h with
    | plan helements hchildren => exact ⟨_, rfl, forall₂_branches.mpr ⟨helements, hchildren⟩⟩
  · rintro ⟨others, rfl, hall⟩
    obtain ⟨helements, hchildren⟩ := forall₂_branches.mp hall
    exact .plan helements hchildren

theorem Extended.typeId?_eq (h : Extended extra v w) : w.typeId? = v.typeId? := by
  cases h <;> rfl

theorem Extended.isPlan_eq (h : Extended extra v w) : w.isPlan = v.isPlan := by
  cases h <;> rfl

/-! ## Fields put one after another -/

theorem FieldsExtended.put (h : FieldsExtended extra typeId fields others)
    (hnodup : (Keyed.keys fields).Nodup) (name : String) (hvalue : Extended extra v w) :
    FieldsExtended extra typeId (Keyed.put name v fields) (Keyed.put name w others) where
  kept := by
    intro field hfield
    rw [Keyed.find?_put]
    by_cases hname : name = field.1
    · have hfind := Keyed.find?_of_mem (Keyed.nodup_put hnodup name v) hfield
      rw [Keyed.find?_put, if_pos hname] at hfind
      rw [if_pos hname]
      exact ⟨w, rfl, Option.some.inj hfind ▸ hvalue⟩
    · rw [if_neg hname]
      rcases Keyed.mem_put hfield with rfl | hfield
      · exact absurd rfl hname
      · exact h.kept field hfield
  distinct := Keyed.nodup_put h.distinct name w
  new := by
    have hkeys : ∀ key, key = name ∨ key ∈ Keyed.keys fields →
        key ∈ Keyed.keys (Keyed.put name v fields) := by
      intro key hkey
      rw [Keyed.keys_put]
      split
      · rename_i hname
        exact hkey.elim (fun heq => heq ▸ hname) id
      · exact List.mem_append.mpr (hkey.symm.imp_right List.mem_singleton.mpr)
    intro other hother
    rcases Keyed.mem_put hother with rfl | hother
    · exact .inl (hkeys _ (.inl rfl))
    · exact (h.new other hother).imp_left fun hkey => hkeys _ (.inr hkey)

theorem FieldsExtended.putAll {pairs pairs' : List (String × Value)}
    (hpairs : List.Forall₂ (FieldExtended extra) pairs pairs')
    (h : FieldsExtended extra typeId fields others) (hnodup : (Keyed.keys fields).Nodup) :
    FieldsExtended extra typeId (Keyed.putAll fields pairs) (Keyed.putAll others pairs') := by
  induction hpairs generalizing fields others with
  | nil => exact h
  | @cons pair pair' pairs pairs' hpair _ ih =>
    obtain ⟨name, v⟩ := pair
    obtain ⟨name', w⟩ := pair'
    obtain ⟨rfl, hvalue⟩ := hpair
    exact ih (h.put hnodup name hvalue) (Keyed.nodup_put hnodup name v)

/-! ## Extending alike values -/

/-- What extends an alike value extends the value. -/
theorem Extended.of_alike {x : Value} (halike : v.Alike w) (h : Extended extra w x) :
    Extended extra v x := by
  induction v using Value.induct generalizing w x with
  | null =>
    cases halike
    exact h
  | text s =>
    cases halike
    exact h
  | object typeId fields entries ihfields ihentries =>
    obtain ⟨others, entries', rfl, hfields, hentries⟩ := alike_object.mp halike
    obtain ⟨found, entries'', rfl, ⟨hkept, hdistinct, hnew⟩, hentries'⟩ := extended_object.mp h
    refine extended_object.mpr ⟨found, entries'', rfl, ⟨?_, hdistinct, ?_⟩, ?_⟩
    · intro field hfield
      obtain ⟨other, hother, hname, hvalue⟩ := hfields.exists_of_mem hfield
      obtain ⟨value, hvalue', hextended⟩ := hkept other hother
      exact ⟨value, hname ▸ hvalue', ihfields field hfield hvalue hextended⟩
    · intro other hother
      exact (hnew other hother).imp_left hfields.keys_perm.mem_iff.mpr
    · exact forall₂_chain hentries hentries' fun entry hentry _ _ halike h =>
        ihentries entry hentry halike h
  | plan branches ih =>
    obtain ⟨others, rfl, hbranches⟩ := alike_plan.mp halike
    obtain ⟨found, rfl, hothers⟩ := extended_plan.mp h
    exact extended_plan.mpr ⟨found, rfl, forall₂_chain hbranches hothers fun b hb _ _ halike h =>
      ⟨(ih b hb).1 halike.1 h.1, (ih b hb).2 halike.2 h.2⟩⟩

end

end PlanArchive.Value
