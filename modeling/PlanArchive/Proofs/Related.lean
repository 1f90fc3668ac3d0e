import Mathlib.Data.List.Forall2

/-!
# Lists related item by item

How relations between the items of lists are put together and taken apart.
-/

namespace PlanArchive

variable {α β : Type}

theorem isEmpty_eq_of_forall₂ {R : α → β → Prop} {as : List α} {bs : List β}
    (h : List.Forall₂ R as bs) : bs.isEmpty = as.isEmpty := by
  cases h <;> rfl

/-- Each item on the right is related to one on the left. -/
theorem exists_left_of_forall₂ {R : α → β → Prop} {as : List α} {bs : List β}
    (h : List.Forall₂ R as bs) : ∀ b ∈ bs, ∃ a ∈ as, R a b := by
  induction h with
  | nil => exact List.forall_mem_nil _
  | cons hab _ ih =>
    refine List.forall_mem_cons.mpr ⟨⟨_, List.mem_cons_self .., hab⟩, fun b hb => ?_⟩
    obtain ⟨a, ha, hR⟩ := ih b hb
    exact ⟨a, List.mem_cons_of_mem _ ha, hR⟩

theorem exists_forall₂_iff {R : α → β → Prop} {as : List α} :
    (∃ bs, List.Forall₂ R as bs) ↔ ∀ a ∈ as, ∃ b, R a b := by
  induction as with
  | nil => simp
  | cons a as ih =>
    rw [List.forall_mem_cons, ← ih]
    constructor
    · rintro ⟨_, h⟩
      obtain ⟨b, bs, hb, hbs, rfl⟩ := List.forall₂_cons_left_iff.mp h
      exact ⟨⟨b, hb⟩, bs, hbs⟩
    · rintro ⟨⟨b, hb⟩, bs, hbs⟩
      exact ⟨b :: bs, .cons hb hbs⟩

theorem forall₂_append_left {R : α → β → Prop} {as₁ as₂ : List α} {bs : List β}
    (h : List.Forall₂ R (as₁ ++ as₂) bs) :
    ∃ bs₁ bs₂, bs = bs₁ ++ bs₂ ∧ List.Forall₂ R as₁ bs₁ ∧ List.Forall₂ R as₂ bs₂ := by
  refine ⟨bs.take as₁.length, bs.drop as₁.length, (List.take_append_drop _ _).symm, ?_, ?_⟩
  · simpa using List.forall₂_take as₁.length h
  · simpa using List.forall₂_drop as₁.length h

/-- If each item has an image that is related, there is a list of them. -/
theorem exists_forall₂_map {P Q : α → β → Prop} {R : β → β → Prop} {f : α → α}
    {as : List α} {bs' : List β} (h : ∀ a ∈ as, ∀ b', P a b' → ∃ b, Q (f a) b ∧ R b b')
    (hall : List.Forall₂ P as bs') :
    ∃ bs, List.Forall₂ Q (as.map f) bs ∧ List.Forall₂ R bs bs' := by
  induction hall with
  | nil => exact ⟨[], .nil, .nil⟩
  | cons hab _ ih =>
    obtain ⟨hhead, htail⟩ := List.forall_mem_cons.mp h
    obtain ⟨b, hQ, hR⟩ := hhead _ hab
    obtain ⟨bs, hbs, hbs'⟩ := ih htail
    exact ⟨b :: bs, .cons hQ hbs, .cons hR hbs'⟩

/-- Items that are related over others. -/
theorem forall₂_chain {R S T : α → α → Prop} {as bs cs : List α}
    (has : List.Forall₂ R as bs) (hbs : List.Forall₂ S bs cs)
    (h : ∀ a ∈ as, ∀ b c, R a b → S b c → T a c) : List.Forall₂ T as cs := by
  induction has generalizing cs with
  | nil =>
    obtain rfl := List.forall₂_nil_left_iff.mp hbs
    exact .nil
  | @cons a b as bs hab _ ih =>
    obtain ⟨c, cs, hbc, hbs', rfl⟩ := List.forall₂_cons_left_iff.mp hbs
    obtain ⟨hhead, htail⟩ := List.forall_mem_cons.mp h
    exact .cons (hhead b c hab hbc) (ih hbs' htail)

/-- Items that are read from related items are related. -/
theorem forall₂_carried {R : α → α → Prop} {P : α → β → Prop} {S : β → β → Prop}
    {as bs : List α} {cs ds : List β} (h : List.Forall₂ R as bs) (has : List.Forall₂ P as cs)
    (hbs : List.Forall₂ P bs ds)
    (hstep : ∀ a ∈ as, ∀ b c d, R a b → P a c → P b d → S c d) : List.Forall₂ S cs ds := by
  induction h generalizing cs ds with
  | nil =>
    obtain rfl := List.forall₂_nil_left_iff.mp has
    obtain rfl := List.forall₂_nil_left_iff.mp hbs
    exact .nil
  | @cons a b as bs hab _ ih =>
    obtain ⟨c, cs, hac, has', rfl⟩ := List.forall₂_cons_left_iff.mp has
    obtain ⟨d, ds, hbd, hbs', rfl⟩ := List.forall₂_cons_left_iff.mp hbs
    obtain ⟨hhead, htail⟩ := List.forall_mem_cons.mp hstep
    exact .cons (hhead b c d hab hac hbd) (ih has' hbs' htail)

end PlanArchive
