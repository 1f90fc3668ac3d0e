import Mathlib.Data.List.Induction
import PlanArchive.Proofs.Naming.Unreadable

/-!
# Where a chain of renames ends

The renames of a name are those that were inserted for it, the last of them in force and the ones
to the name itself left out. The current name is what following them reaches: the end of the chain
if there is one within sixteen steps, and else the name after exactly sixteen (`current_ofPairs`).
-/

namespace PlanArchive.Naming.Renames

/-! ## Steps -/

/-- What a name was last renamed to. A rename to the name itself does not count. -/
def renamed? (pairs : List (String × String)) (name : String) : Option String :=
  Keyed.lastValue? name (pairs.filter fun pair => pair.1 ≠ pair.2)

/-- So many renames, one after another, lead from a name to another. -/
inductive Steps (pairs : List (String × String)) : Nat → String → String → Prop
  | done (name : String) : Steps pairs 0 name name
  | next {n : Nat} {name new last : String} (here : renamed? pairs name = some new)
      (rest : Steps pairs n new last) : Steps pairs (n + 1) name last

/-- The walk from a name takes so many steps: up to the limit, and fewer only at the end of the
chain. -/
structure Stops (pairs : List (String × String)) (limit steps : Nat) (name last : String) :
    Prop where
  steps_le : steps ≤ limit
  reached : Steps pairs steps name last
  ended : steps < limit → renamed? pairs last = none

variable {pairs : List (String × String)} {name : String}

theorem ne_of_renamed? {new : String} (h : renamed? pairs name = some new) :
    name ≠ new ∧ (name, new) ∈ pairs := by
  obtain ⟨hmem, hne⟩ := List.mem_filter.mp (Keyed.mem_of_lastValue? h)
  exact ⟨of_decide_eq_true hne, hmem⟩

/-- A chain that ended goes no further. -/
theorem Steps.le_of_ended {n m : Nat} {last other : String} (h : Steps pairs n name last)
    (hend : renamed? pairs last = none) (h' : Steps pairs m name other) : m ≤ n := by
  induction h generalizing m with
  | done name =>
    cases h' with
    | done => exact Nat.le_refl 0
    | next here rest => simp [hend] at here
  | next here rest ih =>
    cases h' with
    | done => exact Nat.zero_le _
    | next here' rest' =>
      obtain rfl := Option.some.inj (here.symm.trans here')
      exact Nat.succ_le_succ (ih hend rest')

theorem Steps.unique {n : Nat} {last other : String} (h : Steps pairs n name last)
    (h' : Steps pairs n name other) : last = other := by
  induction h with
  | done name =>
    cases h'
    rfl
  | next here rest ih =>
    cases h' with
    | next here' rest' =>
      obtain rfl := Option.some.inj (here.symm.trans here')
      exact ih rest'

theorem Stops.steps_unique {limit n m : Nat} {last : String} (h : Stops pairs limit n name last)
    (h' : Stops pairs limit m name last) : n = m := by
  have hle : ∀ {n m : Nat}, Stops pairs limit n name last → Stops pairs limit m name last →
      m ≤ n := by
    intro n m h h'
    rcases Nat.lt_or_eq_of_le h.steps_le with hlt | rfl
    · exact h.reached.le_of_ended (h.ended hlt) h'.reached
    · exact h'.steps_le
  exact Nat.le_antisymm (hle h' h) (hle h h')

/-- What a walk reaches is what any chain that ends in time ends with. -/
theorem Stops.eq_of_ended {limit n k : Nat} {last other : String}
    (h : Stops pairs limit n name other) (hk : k ≤ limit) (hsteps : Steps pairs k name last)
    (hend : renamed? pairs last = none) : other = last := by
  have hnk : n ≤ k := hsteps.le_of_ended hend h.reached
  rcases Nat.lt_or_eq_of_le hnk with hlt | rfl
  · have hkn : k ≤ n := h.reached.le_of_ended (h.ended (Nat.lt_of_lt_of_le hlt hk)) hsteps
    exact absurd hlt (Nat.not_lt.mpr hkn)
  · exact h.reached.unique hsteps

theorem renamed?_isSome_iff {limit n : Nat} {last : String} (hlimit : 0 < limit)
    (h : Stops pairs limit n name last) : (renamed? pairs name).isSome ↔ 0 < n := by
  obtain ⟨-, hreached, hended⟩ := h
  cases hreached with
  | done => simp [hended hlimit]
  | next here rest => simp [here]

/-! ## The table of renames -/

theorem ofPairs_concat (pairs : List (String × String)) (pair : String × String) :
    ofPairs (pairs ++ [pair]) = (ofPairs pairs).insert pair.1 pair.2 :=
  List.foldl_concat ..

theorem ofPairs_eq (pairs : List (String × String)) :
    ofPairs pairs = ⟨Keyed.ofPairs (pairs.filter fun pair => pair.1 ≠ pair.2)⟩ := by
  induction pairs using List.reverseRecOn with
  | nil => rfl
  | append_singleton pairs pair ih =>
    rw [ofPairs_concat, insert, List.filter_append, ih]
    by_cases h : pair.1 = pair.2
    · simp [h]
    · rw [if_neg h, ← Keyed.ofPairs_concat]
      simp [h]

/-- The table holds the last rename of each name. -/
theorem next?_ofPairs (pairs : List (String × String)) (name : String) :
    (ofPairs pairs).next? name = renamed? pairs name := by
  rw [next?, ofPairs_eq, Keyed.find?_ofPairs, renamed?]

theorem ofPairs_filter_ne (pairs : List (String × String)) :
    ofPairs (pairs.filter fun pair => pair.1 ≠ pair.2) = ofPairs pairs := by
  rw [ofPairs_eq, ofPairs_eq, List.filter_filter]
  simp only [Bool.and_self]

theorem isRenamed_ofPairs (pairs : List (String × String)) (name : String) :
    (ofPairs pairs).isRenamed name = (renamed? pairs name).isSome := by
  rw [isRenamed, next?_ofPairs]

/-- A walk with some steps left takes all of them or comes to the end of the chain. -/
theorem exists_stops_follow (pairs : List (String × String)) (limit : Nat) (name : String) :
    ∃ steps, Stops pairs limit steps name ((ofPairs pairs).follow limit name) := by
  induction limit generalizing name with
  | zero => exact ⟨0, Nat.le_refl 0, .done name, fun h => absurd h (Nat.lt_irrefl 0)⟩
  | succ limit ih =>
    unfold follow
    rw [next?_ofPairs]
    cases hnext : renamed? pairs name with
    | none => exact ⟨0, Nat.zero_le _, .done name, fun _ => hnext⟩
    | some new =>
      obtain ⟨steps, hle, hreached, hended⟩ := ih new
      exact ⟨steps + 1, Nat.succ_le_succ hle, .next hnext hreached,
        fun h => hended (Nat.lt_of_succ_lt_succ h)⟩

theorem exists_stops_current (pairs : List (String × String)) (name : String) :
    ∃ steps, Stops pairs 16 steps name ((ofPairs pairs).current name) :=
  exists_stops_follow pairs 16 name

/-- The current name is the end of the chain when that is at most sixteen steps away, and the name
after sixteen steps when it is not; a name is renamed just when the walk to the current one takes a
step, and each step is a rename to another name. -/
theorem current_ofPairs (pairs : List (String × String)) (name : String) :
    (∀ steps ≤ 16, ∀ last, Steps pairs steps name last → renamed? pairs last = none →
      (ofPairs pairs).current name = last ∧ (ofPairs pairs).isRenamed last = false ∧
        (ofPairs pairs).current last = last) ∧
    ((¬∃ steps ≤ 16, ∃ last, Steps pairs steps name last ∧ renamed? pairs last = none) →
      Steps pairs 16 name ((ofPairs pairs).current name)) ∧
    (∃ steps, Stops pairs 16 steps name ((ofPairs pairs).current name) ∧
      (∀ other, Stops pairs 16 other name ((ofPairs pairs).current name) → other = steps) ∧
      ((ofPairs pairs).isRenamed name = true ↔ 0 < steps)) ∧
    (∀ new, renamed? pairs name = some new → name ≠ new ∧ (name, new) ∈ pairs) ∧
    ofPairs (pairs.filter fun pair => pair.1 ≠ pair.2) = ofPairs pairs := by
  obtain ⟨steps, hstops⟩ := exists_stops_current pairs name
  refine ⟨fun k hk last hsteps hend => ?_, fun hnone => ?_, ⟨steps, hstops, ?_, ?_⟩,
    fun new => ne_of_renamed?, ofPairs_filter_ne pairs⟩
  · have hlast : (ofPairs pairs).isRenamed last = false := by
      rw [isRenamed_ofPairs, hend, Option.isSome_none]
    exact ⟨hstops.eq_of_ended hk hsteps hend, hlast, current_of_not_renamed hlast⟩
  · -- fewer than sixteen steps would have come to an end
    rcases Nat.lt_or_eq_of_le hstops.steps_le with hlt | rfl
    · exact absurd ⟨steps, Nat.le_of_lt hlt, _, hstops.reached, hstops.ended hlt⟩ hnone
    · exact hstops.reached
  · exact fun other hother => hother.steps_unique hstops
  · rw [isRenamed_ofPairs]
    exact renamed?_isSome_iff (by decide) hstops

/-- A cycle of two is left after sixteen steps, which is where it began. -/
example : (ofPairs [("a", "b"), ("b", "c"), ("b", "a"), ("a", "a")]).current "a" = "a" := by
  decide +kernel

end PlanArchive.Naming.Renames
