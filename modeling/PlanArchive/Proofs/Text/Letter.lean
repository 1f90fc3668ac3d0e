import PlanArchive.Text.Blank
import PlanArchive.Text.Letter

/-!
# Letters and numerals are no blanks

Two sets of characters that are given by ranges have no character in common if no two of their
ranges overlap.
-/

namespace PlanArchive.Text

/-- No range of the one overlaps a range of the other. -/
def Ranges.apart (ranges others : Ranges) : Bool :=
  ranges.all fun r => others.all fun s => r.2 < s.1 || s.2 < r.1

theorem Ranges.not_holds_of_apart {ranges others : Ranges} (h : ranges.apart others = true)
    {c : Char} (hc : ranges.holds c = true) : others.holds c = false := by
  obtain ⟨r, hr, hin⟩ := Ranges.holds_iff.mp hc
  rw [Bool.eq_false_iff, Ne, Ranges.holds_iff]
  rintro ⟨s, hs, hin'⟩
  have hapart := List.all_eq_true.mp (List.all_eq_true.mp h r hr) s hs
  simp only [Bool.or_eq_true, decide_eq_true_eq] at hapart
  omega

def blankRanges : Ranges :=
  [(9, 13), (0x20, 0x20), (0x85, 0x85), (0xA0, 0xA0), (0x1680, 0x1680), (0x2000, 0x200A),
    (0x2028, 0x2028), (0x2029, 0x2029), (0x202F, 0x202F), (0x205F, 0x205F), (0x3000, 0x3000)]

theorem holds_blankRanges (c : Char) : blankRanges.holds c = isBlank c := by
  have hpoint : ∀ n : Nat, (decide (n ≤ c.toNat) && decide (c.toNat ≤ n)) = (c.toNat == n) := by
    intro n
    rw [Bool.eq_iff_iff]
    simp only [Bool.and_eq_true, decide_eq_true_eq, beq_iff_eq]
    omega
  simp only [Ranges.holds, blankRanges, List.any_cons, List.any_nil, Bool.or_false, hpoint, isBlank,
    Bool.or_assoc]

theorem isBlank_of_isLetter {c : Char} (h : isLetter c = true) : isBlank c = false := by
  have hapart : letterRanges.apart blankRanges = true := by decide +kernel
  rw [← holds_blankRanges]
  exact Ranges.not_holds_of_apart hapart h

theorem isBlank_of_isNumeral {c : Char} (h : isNumeral c = true) : isBlank c = false := by
  have hapart : numeralRanges.apart blankRanges = true := by decide +kernel
  rw [← holds_blankRanges]
  exact Ranges.not_holds_of_apart hapart h

end PlanArchive.Text
