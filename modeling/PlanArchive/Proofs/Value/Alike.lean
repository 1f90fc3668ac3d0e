import Mathlib.Data.List.Forall2
import PlanArchive.Proofs.Keyed
import PlanArchive.Proofs.Value.Occurs

/-!
# Values that are the same but for the order of fields

The fields of alike objects hold alike values under the same names, in any order. Entries, elements
and the plans below them are alike one by one.
-/

namespace PlanArchive.Value

/-- The same value, up to the order of the fields of objects at every depth. -/
inductive Alike : Value → Value → Prop
  | null : Alike .null .null
  | text (s : String) : Alike (.text s) (.text s)
  | object {typeId : String} {fields arranged others : List (String × Value)}
      {entries entries' : List Value} : Keyed.keys fields = Keyed.keys arranged →
      List.Forall₂ Alike (fields.map Prod.snd) (arranged.map Prod.snd) → arranged.Perm others →
      List.Forall₂ Alike entries entries' →
      Alike (.object typeId fields entries) (.object typeId others entries')
  | plan {branches others : List Branch} :
      List.Forall₂ Alike (branches.map Branch.element) (others.map Branch.element) →
      List.Forall₂ Alike (branches.map fun b => .plan b.children)
        (others.map fun b => .plan b.children) →
      Alike (.plan branches) (.plan others)

/-- A field of the same name with an alike value. -/
def FieldAlike (field other : String × Value) : Prop :=
  field.1 = other.1 ∧ Alike field.2 other.2

/-- The same fields in any order. -/
def FieldsAlike (fields others : List (String × Value)) : Prop :=
  ∃ arranged, List.Forall₂ FieldAlike fields arranged ∧ arranged.Perm others

/-- The same element above the same plan. -/
def BranchAlike (b c : Branch) : Prop :=
  Alike b.element c.element ∧ Alike (.plan b.children) (.plan c.children)

theorem forall₂_fieldAlike {fields others : List (String × Value)} :
    List.Forall₂ FieldAlike fields others ↔ Keyed.keys fields = Keyed.keys others ∧
      List.Forall₂ Alike (fields.map Prod.snd) (others.map Prod.snd) := by
  induction fields generalizing others with
  | nil => cases others <;> simp [Keyed.keys]
  | cons field fields ih =>
    cases others with
    | nil => simp [Keyed.keys]
    | cons other others =>
      simp only [List.forall₂_cons, ih, Keyed.keys, List.map_cons, List.cons.injEq, FieldAlike]
      exact and_and_and_comm

/-- Branches that a relation relates, element by element and plan by plan. -/
theorem forall₂_branches {R : Value → Value → Prop} {branches others : List Branch} :
    List.Forall₂ (fun b c => R b.element c.element ∧ R (.plan b.children) (.plan c.children))
        branches others ↔
      List.Forall₂ R (branches.map Branch.element) (others.map Branch.element) ∧
        List.Forall₂ R (branches.map fun b => .plan b.children)
          (others.map fun b => .plan b.children) := by
  induction branches generalizing others with
  | nil => cases others <;> simp
  | cons b branches ih =>
    cases others with
    | nil => simp
    | cons c others =>
      simp only [List.forall₂_cons, ih, List.map_cons]
      exact and_and_and_comm

theorem forall₂_branchAlike {branches others : List Branch} :
    List.Forall₂ BranchAlike branches others ↔
      List.Forall₂ Alike (branches.map Branch.element) (others.map Branch.element) ∧
        List.Forall₂ Alike (branches.map fun b => .plan b.children)
          (others.map fun b => .plan b.children) :=
  forall₂_branches

theorem alike_object {typeId : String} {fields : List (String × Value)} {entries : List Value}
    {w : Value} :
    Alike (.object typeId fields entries) w ↔ ∃ others entries',
      w = .object typeId others entries' ∧ FieldsAlike fields others ∧
        List.Forall₂ Alike entries entries' := by
  constructor
  · intro h
    cases h with
    | object hkeys hvalues hperm hentries =>
      exact ⟨_, _, rfl, ⟨_, forall₂_fieldAlike.mpr ⟨hkeys, hvalues⟩, hperm⟩, hentries⟩
  · rintro ⟨others, entries', rfl, ⟨arranged, hfields, hperm⟩, hentries⟩
    obtain ⟨hkeys, hvalues⟩ := forall₂_fieldAlike.mp hfields
    exact .object hkeys hvalues hperm hentries

theorem alike_plan {branches : List Branch} {w : Value} :
    Alike (.plan branches) w ↔
      ∃ others, w = .plan others ∧ List.Forall₂ BranchAlike branches others := by
  constructor
  · intro h
    cases h with
    | plan helements hchildren => exact ⟨_, rfl, forall₂_branchAlike.mpr ⟨helements, hchildren⟩⟩
  · rintro ⟨others, rfl, hall⟩
    obtain ⟨helements, hchildren⟩ := forall₂_branchAlike.mp hall
    exact .plan helements hchildren

theorem typeId?_eq_of_alike {v w : Value} (h : Alike v w) : w.typeId? = v.typeId? := by
  cases h <;> rfl

namespace FieldsAlike

variable {fields others : List (String × Value)} (h : FieldsAlike fields others)

include h

theorem keys_perm : (Keyed.keys fields).Perm (Keyed.keys others) := by
  obtain ⟨arranged, hall, hperm⟩ := h
  exact (forall₂_fieldAlike.mp hall).1 ▸ hperm.map Prod.fst

theorem exists_of_mem {field : String × Value} (hfield : field ∈ fields) :
    ∃ other ∈ others, FieldAlike field other := by
  obtain ⟨arranged, hall, hperm⟩ := h
  have hmem : ∃ other ∈ arranged, FieldAlike field other := by
    clear hperm
    induction hall with
    | nil => cases hfield
    | cons hhead _ ih =>
      rcases List.mem_cons.mp hfield with rfl | hfield
      · exact ⟨_, List.mem_cons_self .., hhead⟩
      · obtain ⟨other, hother, halike⟩ := ih hfield
        exact ⟨other, List.mem_cons_of_mem _ hother, halike⟩
  obtain ⟨other, hother, halike⟩ := hmem
  exact ⟨other, hperm.subset hother, halike⟩

/-- Where names come once, fields of the same name are alike. -/
theorem of_mem {field other : String × Value} (hnodup : (Keyed.keys others).Nodup)
    (hfield : field ∈ fields) (hother : other ∈ others) (hname : field.1 = other.1) :
    Alike field.2 other.2 := by
  obtain ⟨found, hfound, hname', halike⟩ := h.exists_of_mem hfield
  have hfind := Keyed.find?_of_mem hnodup hother
  rw [← hname, hname', Keyed.find?_of_mem hnodup hfound] at hfind
  exact Option.some.inj hfind ▸ halike

/-- Texts are alike only if they are equal. -/
theorem perm_of_texts (htexts : ∀ other ∈ others, ∃ s, other.2 = .text s) :
    fields.Perm others := by
  obtain ⟨arranged, hall, hperm⟩ := h
  have htexts' : ∀ other ∈ arranged, ∃ s, other.2 = .text s := fun other hother =>
    htexts other (hperm.subset hother)
  have heq : fields = arranged := by
    clear hperm
    induction hall with
    | nil => rfl
    | @cons field other fields arranged hfield _ ih =>
      obtain ⟨⟨s, hs⟩, htexts'⟩ := List.forall_mem_cons.mp htexts'
      obtain ⟨hname, halike⟩ := hfield
      rw [hs] at halike
      have hvalue : field.2 = other.2 := by
        rw [hs]
        generalize field.2 = v at halike
        cases halike
        rfl
      rw [ih htexts', Prod.ext hname hvalue]
  exact heq ▸ hperm

end FieldsAlike

end PlanArchive.Value
