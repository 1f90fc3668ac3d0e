import PlanArchive.Definition.Line

/-!
# A logical line under way

Physical lines are joined by what they end in, so reading a definition text can be followed one
character at a time: `resume` is what becomes of a logical line of which a part has been read.
-/

namespace PlanArchive.Definition

open Text

/-! ## Backslashes at the end -/

theorem continues_nil : continues [] = false := rfl

/-- A line goes on just when its last character is a backslash that stands for no other. -/
theorem continues_concat (line : List Char) (c : Char) :
    continues (line ++ [c]) = (c == '\\' && !continues line) := by
  unfold continues
  rw [List.reverse_append, List.reverse_singleton, List.singleton_append, List.takeWhile_cons]
  by_cases hc : (c == '\\') = true
  · rw [if_pos hc, hc, List.length_cons, Bool.true_and]
    generalize (line.reverse.takeWhile (· == '\\')).length = n
    rcases Nat.mod_two_eq_zero_or_one n with h | h
    · rw [h, show (n + 1) % 2 = 1 by omega]
      rfl
    · rw [h, show (n + 1) % 2 = 0 by omega]
      rfl
  · rw [if_neg hc, Bool.eq_false_iff.mpr hc]
    rfl

/-- An escaped character leaves nothing open. -/
theorem continues_escape {line : List Char} (h : continues line = false) (c : Char) :
    continues (line ++ ['\\', c]) = false := by
  have hsplit : line ++ ['\\', c] = (line ++ ['\\']) ++ [c] := by simp
  rw [hsplit, continues_concat, continues_concat, h]
  simp

theorem continues_plain (line : List Char) {c : Char} (h : c ≠ '\\') :
    continues (line ++ [c]) = false := by
  rw [continues_concat, beq_false_of_ne h, Bool.false_and]

theorem continues_append_plain {line more : List Char} (h : continues line = false)
    (hmore : ∀ c ∈ more, c ≠ '\\') : continues (line ++ more) = false := by
  rcases List.eq_nil_or_concat more with rfl | ⟨front, c, rfl⟩
  · rwa [List.append_nil]
  · rw [List.concat_eq_append, ← List.append_assoc]
    exact continues_plain _ (hmore c (by simp))

/-! ## Physical lines -/

/-- Characters that neither end a line nor may belong to its end. -/
def Inline (cs : List Char) : Prop := ∀ c ∈ cs, c ≠ '\n' ∧ c ≠ '\r'

theorem Inline.append {a b : List Char} (ha : Inline a) (hb : Inline b) : Inline (a ++ b) :=
  List.forall_mem_append.mpr ⟨ha, hb⟩

/-- The rest of the present line, and the lines behind it. -/
def firstLine (text : List Char) : List Char := (lines text).headD []

theorem linesFrom_cons {c : Char} (h : c ≠ '\n') (line text : List Char) :
    linesFrom line (c :: text) = linesFrom (c :: line) text := by
  simp only [linesFrom, if_neg h]

/-- The line under way, less the carriage return that belongs to its end. -/
theorem linesFrom_feed (line text : List Char) :
    linesFrom line ('\n' :: text) =
      (if line.head? = some '\r' then line.tail else line).reverse :: lines text := by
  cases line with
  | nil => rfl
  | cons c line => by_cases hc : c = '\r' <;> simp [linesFrom, lines, hc]

theorem linesFrom_run {front : List Char} (h : '\n' ∉ front) (line text : List Char) :
    linesFrom line (front ++ text) = linesFrom (front.reverse ++ line) text := by
  induction front generalizing line with
  | nil => rfl
  | cons c front ih =>
    simp only [List.mem_cons, not_or] at h
    rw [List.cons_append, linesFrom_cons (Ne.symm h.1), ih h.2]
    simp

theorem linesFrom_append {front : List Char} (hne : front ≠ []) (hfront : Inline front)
    (soFar text : List Char) :
    linesFrom (soFar ++ front.reverse) text =
      (front ++ (linesFrom soFar text).headD []) :: (linesFrom soFar text).tail := by
  induction text generalizing soFar with
  | nil => cases soFar <;> simp [linesFrom, hne]
  | cons c text ih =>
    by_cases hc : c = '\n'
    · subst hc
      rw [linesFrom_feed, linesFrom_feed]
      cases soFar with
      | nil =>
        -- the front holds no carriage return that could belong to the line end
        have hlast : front.reverse.head? ≠ some '\r' := by
          rw [List.head?_reverse]
          exact fun h => (hfront _ (List.mem_of_getLast? h)).2 rfl
        rw [List.nil_append, if_neg hlast]
        simp
      | cons d soFar => by_cases hd : d = '\r' <;> simp [hd]
    · rw [linesFrom_cons hc, linesFrom_cons hc, ← List.cons_append]
      exact ih (c :: soFar)

theorem lines_append {front : List Char} (hne : front ≠ []) (hfront : Inline front)
    (text : List Char) :
    lines (front ++ text) = (front ++ firstLine text) :: (lines text).tail := by
  have hfeed : '\n' ∉ front := fun h => (hfront _ h).1 rfl
  have h := linesFrom_append hne hfront [] text
  rw [List.nil_append] at h
  rw [lines, linesFrom_run hfeed, List.append_nil, h]
  rfl

/-- The two ways to end a line. -/
def lineEnds : List (List Char) := [['\n'], ['\r', '\n']]

theorem lines_lineEnd {lineEnd : List Char} (h : lineEnd ∈ lineEnds) (text : List Char) :
    lines (lineEnd ++ text) = [] :: lines text := by
  simp only [lineEnds, List.mem_cons, List.not_mem_nil, or_false] at h
  rcases h with rfl | rfl <;> rfl

/-! ## Logical lines -/

/-- What becomes of a logical line that has been read as far as `soFar`. -/
def resume (soFar text : List Char) : List (List Char) :=
  let line := soFar ++ firstLine text
  if continues line then joinLines (some line.dropLast) (lines text).tail
  else line :: joinLines none (lines text).tail

theorem resume_append {front : List Char} (h : Inline front) (soFar text : List Char) :
    resume soFar (front ++ text) = resume (soFar ++ front) text := by
  cases front with
  | nil => rw [List.nil_append, List.append_nil]
  | cons c front =>
    have hlines := lines_append (List.cons_ne_nil c front) h text
    simp only [resume, firstLine, hlines, List.headD_cons, List.tail_cons, List.append_assoc]

theorem resume_lineEnd {lineEnd : List Char} (h : lineEnd ∈ lineEnds) (soFar text : List Char) :
    resume soFar (lineEnd ++ text) =
      if continues soFar then joinLines (some soFar.dropLast) (lines text)
      else soFar :: joinLines none (lines text) := by
  simp only [resume, firstLine, lines_lineEnd h, List.headD_cons, List.tail_cons, List.append_nil]

/-- Blanks at the start of a line do not count. -/
theorem trimStart_append {blanks : List Char} (h : ∀ c ∈ blanks, isBlank c = true) {c : Char}
    (hc : isBlank c = false) (rest : List Char) : trimStart (blanks ++ c :: rest) = c :: rest := by
  rw [trimStart, List.dropWhile_append_of_pos h]
  exact trimStart_of_not_blank hc

section

variable {blanks : List Char} {c : Char} (hc : isBlank c = false)

include hc

theorem lines_blanks (hinline : Inline blanks) (text : List Char) :
    lines (blanks ++ c :: text) = (blanks ++ c :: firstLine text) :: (lines text).tail := by
  have hne : c ≠ '\n' ∧ c ≠ '\r' := by
    constructor <;> rintro rfl <;> cases hc
  have h := lines_append (by simp : blanks ++ [c] ≠ [])
    (hinline.append (List.forall_mem_singleton.mpr hne)) text
  simpa only [List.append_assoc, List.singleton_append] using h

theorem firstLine_cons (text : List Char) : firstLine (c :: text) = c :: firstLine text := by
  have h := lines_blanks hc (List.forall_mem_nil _) text
  rw [List.nil_append, List.nil_append] at h
  rw [firstLine, h, List.headD_cons]

theorem resume_cons (soFar text : List Char) :
    resume soFar (c :: text) =
      if continues (soFar ++ c :: firstLine text) then
        joinLines (some (soFar ++ c :: firstLine text).dropLast) (lines text).tail
      else (soFar ++ c :: firstLine text) :: joinLines none (lines text).tail := by
  have h := lines_blanks hc (List.forall_mem_nil _) text
  rw [List.nil_append, List.nil_append] at h
  rw [resume, firstLine_cons hc, h, List.tail_cons]

variable (hblanks : ∀ c ∈ blanks, isBlank c = true) (hinline : Inline blanks)

include hblanks hinline

/-- The next physical line of a logical line goes on behind its blanks. -/
theorem joinLines_pending (soFar text : List Char) :
    joinLines (some soFar) (lines (blanks ++ c :: text)) = resume soFar (c :: text) := by
  rw [lines_blanks hc hinline, resume_cons hc, joinLines, trimStart_append hblanks hc]

/-- A logical line starts with what is neither a blank nor the sign of a remark. -/
theorem joinLines_start (hremark : c ≠ '#' ∧ c ≠ '!') (text : List Char) :
    joinLines none (lines (blanks ++ c :: text)) = resume [] (c :: text) := by
  have hnot : isRemark (c :: firstLine text) = false := by
    simp [isRemark, hremark]
  rw [lines_blanks hc hinline, resume_cons hc, joinLines, trimStart_append hblanks hc, hnot]
  rfl

end

theorem isRemark_dropReturn {line : List Char} (h : isRemark (trimStart (line ++ ['\r'])) = true) :
    isRemark (trimStart line) = true := by
  induction line with
  | nil => rfl
  | cons c line ih =>
    cases hc : isBlank c with
    | true =>
      rw [trimStart_of_blank hc]
      rw [List.cons_append, trimStart_of_blank hc] at h
      exact ih h
    | false =>
      rw [trimStart_of_not_blank hc]
      rwa [List.cons_append, trimStart_of_not_blank hc] at h

/-- Remarks and blank lines are passed over. -/
theorem joinLines_remark {line : List Char} (hline : '\n' ∉ line)
    (hremark : isRemark (trimStart line) = true) (text : List Char) :
    joinLines none (lines (line ++ '\n' :: text)) = joinLines none (lines text) := by
  have hskip : ∀ {raw : List Char}, isRemark (trimStart raw) = true →
      joinLines none (raw :: lines text) = joinLines none (lines text) := fun h => by
    rw [joinLines, h]
    rfl
  rw [lines, linesFrom_run hline, List.append_nil, linesFrom_feed]
  split
  · rename_i hreturn
    obtain ⟨rest, hrest⟩ : ∃ rest, line.reverse = '\r' :: rest := by
      cases hreverse : line.reverse with
      | nil => simp [hreverse] at hreturn
      | cons c rest =>
        rw [hreverse] at hreturn
        exact ⟨rest, by rw [Option.some.inj hreturn]⟩
    have hback : line = rest.reverse ++ ['\r'] := by
      rw [← List.reverse_reverse line, hrest, List.reverse_cons]
    rw [hrest, List.tail_cons]
    rw [hback] at hremark
    exact hskip (isRemark_dropReturn hremark)
  · rw [List.reverse_reverse]
    exact hskip hremark

end PlanArchive.Definition
