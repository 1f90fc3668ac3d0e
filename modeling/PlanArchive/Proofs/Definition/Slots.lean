import PlanArchive.Definition.Source
import PlanArchive.Proofs.Keyed

/-!
# One slot for each key

Definitions are made of pairs, given as they are or as the lines of a text. Whatever pairs came
before, a pair goes to the slot of its key: the first pair of a key gives it its place, and the last
one its value (`one_slot_for_each_key`). What is in the slots already changes nothing when it comes
again.
-/

namespace PlanArchive.Definition

open Keyed

variable {pairs more : List (String × String)} {source : Source}

/-- The ways to make definitions of pairs: from the pairs themselves, or from any text whose
logical lines give them, once split and unescaped. -/
inductive MadeOf (pairs : List (String × String)) : Source → Prop
  | pairs : MadeOf pairs (.ofPairs pairs)
  | text {text : List Char} (h : (logicalLines text).map readLine = pairs) :
      MadeOf pairs (.ofText text)

theorem MadeOf.eq_ofPairs (h : MadeOf pairs source) : source = .ofPairs pairs := by
  cases h with
  | pairs => rfl
  | text h => rw [Source.ofText, h]

/-- Pairs that are held already, in any order and number, change nothing behind the others. -/
theorem ofPairs_append_held (h : more ⊆ (Source.ofPairs pairs).pairs) :
    Source.ofPairs (pairs ++ more) = .ofPairs pairs :=
  congrArg Source.mk (ofPairs_append_of_subset h)

/-- The pairs that definitions hold make the same definitions. -/
theorem ofPairs_held (pairs : List (String × String)) :
    Source.ofPairs (Source.ofPairs pairs).pairs = .ofPairs pairs :=
  congrArg Source.mk (ofPairs_of_nodup (nodup_ofPairs pairs))

/-- Definitions hold each key of the pairs they are made of once, in the order in which the keys
first came, with the value of the key's last pair. That value is found under the key, and nothing
under a key that never came. The definitions stay as they are when what they hold comes again,
behind itself or behind the pairs they are made of. -/
theorem one_slot_for_each_key (h : MadeOf pairs source) :
    (keys source.pairs).Nodup ∧
      (keys source.pairs).Pairwise (CameBefore pairs) ∧
      (∀ key value, (key, value) ∈ source.pairs ↔ IsLast (key, value) pairs) ∧
      (∀ key value, source.get? key = some value ↔ IsLast (key, value) pairs) ∧
      (∀ key, source.get? key = none ↔ key ∉ keys pairs) ∧
      (∀ again, MadeOf (source.pairs ++ source.pairs) again → again = source) ∧
      ∀ again, MadeOf (pairs ++ source.pairs) again → again = source := by
  obtain rfl := h.eq_ofPairs
  have hheld := ofPairs_held pairs
  refine ⟨nodup_ofPairs pairs, pairwise_cameBefore_ofPairs pairs, fun key value => ?_,
    fun key value => ?_, fun key => ?_, fun again hagain => ?_, fun again hagain => ?_⟩
  · rw [Source.ofPairs, ofPairs_eq_settled, mem_settled, lastValue?_eq_some_iff]
  · rw [Source.get?, Source.ofPairs, find?_ofPairs, lastValue?_eq_some_iff]
  · rw [Source.get?, Source.ofPairs, find?_eq_none_iff, mem_keys_ofPairs]
  · calc
      again = .ofPairs ((Source.ofPairs pairs).pairs ++ (Source.ofPairs pairs).pairs) :=
        hagain.eq_ofPairs
      _ = .ofPairs (Source.ofPairs pairs).pairs := ofPairs_append_held (by rw [hheld]; simp)
      _ = .ofPairs pairs := hheld
  · exact hagain.eq_ofPairs.trans (ofPairs_append_held (List.Subset.refl _))

/-- Two lines for the key `A`, which the later one spells by number, with another key between. -/
def respelledText : List Char := "A=one\nB : two\n\\u0041=thr\\\n  ee\n".toList

def respelledPairs : List (String × String) := [("A", "one"), ("B", "two"), ("A", "three")]

theorem one_slot_for_each_key_respelled :
    MadeOf respelledPairs (.ofText respelledText) ∧
      (keys (Source.ofText respelledText).pairs).Pairwise (CameBefore respelledPairs) ∧
      ("A", "three") ∈ (Source.ofText respelledText).pairs ∧
      ("A", "one") ∉ (Source.ofText respelledText).pairs ∧
      (Source.ofText respelledText).get? "A" = some "three" ∧
      (Source.ofText respelledText).get? "B" = some "two" ∧
      (Source.ofText respelledText).get? "C" = none ∧
      .ofPairs (respelledPairs ++ (Source.ofText respelledText).pairs) =
        Source.ofText respelledText := by
  have hmade : MadeOf respelledPairs (.ofText respelledText) := .text (by decide +kernel)
  obtain ⟨-, hordered, hmem, hget, hnone, -, hagain⟩ := one_slot_for_each_key hmade
  have hlast : IsLast ("A", "three") respelledPairs :=
    ⟨[("A", "one"), ("B", "two")], [], rfl, by decide⟩
  have hsecond : IsLast ("B", "two") respelledPairs :=
    ⟨[("A", "one")], [("A", "three")], rfl, by decide⟩
  have hvalue := (hget _ _).mpr hlast
  refine ⟨hmade, hordered, (hmem _ _).mpr hlast, fun hone => ?_, hvalue, (hget _ _).mpr hsecond,
    (hnone _).mpr (by decide), hagain _ .pairs⟩
  have hother := (hget _ _).mpr ((hmem _ _).mp hone)
  rw [hvalue] at hother
  exact absurd hother (by decide)

end PlanArchive.Definition
