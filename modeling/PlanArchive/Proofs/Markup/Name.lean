import PlanArchive.Markup.Attribute
import PlanArchive.Markup.Element

/-!
# Names hold no signs

The reader of tags is guided by white space and by a few signs. A name has none of them, so a tag
that starts with a name is cut right behind it.
-/

namespace PlanArchive.Markup

/-- The characters that guide the reader of tags. -/
def signs : List Char :=
  [' ', '\t', '\r', '\n', '<', '>', '/', '=', '\x22', '\x27', '!', '?']

/-- The characters that may stand in a name behind its first. -/
def goesOn (c : Char) : Bool :=
  Text.isLetter c || Text.isNumeral c || c == '_' || c == ':' || c == '.' || c == '-'

theorem goesOn_of_mem {name : String} (h : isName name = true) {c : Char}
    (hc : c ∈ name.toList) : goesOn c = true := by
  unfold isName at h
  cases hn : name.toList with
  | nil => simp [hn] at hc
  | cons first rest =>
    simp only [hn, Bool.and_eq_true, List.all_eq_true] at h
    simp only [hn, List.mem_cons] at hc
    rcases hc with rfl | hc
    · simp only [Bool.or_eq_true] at h
      rcases h.1 with (h | h) | h <;> simp [goesOn, h]
    · exact h.2 c hc

theorem goesOn_of_sign : ∀ c ∈ signs, goesOn c = false := by
  simp only [signs, List.forall_mem_cons, List.not_mem_nil, false_imp_iff, implies_true, and_true]
  decide +kernel

theorem not_sign_of_mem {name : String} (h : isName name = true) {c : Char}
    (hc : c ∈ name.toList) : c ∉ signs := by
  intro hs
  have := goesOn_of_sign c hs
  rw [goesOn_of_mem h hc] at this
  exact Bool.noConfusion this

theorem exists_cons_of_isName {name : String} (h : isName name = true) :
    ∃ c rest, name.toList = c :: rest := by
  cases hn : name.toList with
  | nil => simp [isName, hn] at h
  | cons c rest => exact ⟨c, rest, rfl⟩

theorem isSpace_eq_false_of_not_sign {c : Char} (h : c ∉ signs) : isSpace c = false := by
  simp only [signs, List.mem_cons, not_or] at h
  simp [isSpace, h]

end PlanArchive.Markup
