import PlanArchive.Proofs.Definition.Layout

/-!
# Definition texts of one line

A text that is a single line but for blanks at its ends is read as this line. It does not matter
which blanks these are: each entry takes the blanks off its value.
-/

namespace PlanArchive.Text

def Blanks (cs : List Char) : Prop := ∀ c ∈ cs, isBlank c = true

theorem trimStart_blanks {front : List Char} (h : Blanks front) (rest : List Char) :
    trimStart (front ++ rest) = trimStart rest :=
  List.dropWhile_append_of_pos h

theorem trimStart_of_blanks {cs : List Char} (h : Blanks cs) : trimStart cs = [] :=
  List.dropWhile_eq_nil_iff.mpr h

theorem trimEnd_append_blanks (cs : List Char) {back : List Char} (h : Blanks back) :
    trimEnd (cs ++ back) = trimEnd cs := by
  have hreverse : Blanks back.reverse := fun c hc => h c (List.mem_reverse.mp hc)
  rw [trimEnd, List.reverse_append, List.dropWhile_append_of_pos hreverse, trimEnd]

theorem trim_append_blanks (cs : List Char) {back : List Char} (h : Blanks back) :
    trim (cs ++ back) = trim cs := by
  unfold trim trimStart
  rw [List.dropWhile_append]
  split
  · rename_i hnil
    have hback : back.dropWhile isBlank = [] := trimStart_of_blanks h
    rw [hback, List.isEmpty_iff.mp hnil]
  · exact trimEnd_append_blanks _ h

/-- A text is what is left of it when it is trimmed, between blanks; and that starts with a
character that is no blank. -/
theorem exists_blanks (cs : List Char) :
    ∃ front back, Blanks front ∧ Blanks back ∧ cs = front ++ (trim cs ++ back) ∧
      ∀ c rest, trim cs = c :: rest → isBlank c = false := by
  have hback : trim cs ++ ((trimStart cs).reverse.takeWhile isBlank).reverse = trimStart cs := by
    rw [trim, trimEnd, ← List.reverse_append, List.takeWhile_append_dropWhile, List.reverse_reverse]
  refine ⟨cs.takeWhile isBlank, ((trimStart cs).reverse.takeWhile isBlank).reverse,
    fun c hc => List.mem_takeWhile_imp hc,
    fun c hc => List.mem_takeWhile_imp (List.mem_reverse.mp hc), ?_, fun c rest h => ?_⟩
  · rw [hback]
    exact List.takeWhile_append_dropWhile.symm
  · have hhead := List.head?_dropWhile_not isBlank cs
    have hstart : (cs.dropWhile isBlank).head? = some c := by
      rw [h] at hback
      rw [← trimStart, ← hback]
      rfl
    rwa [hstart] at hhead

end PlanArchive.Text

namespace PlanArchive.Definition

open Text

/-! ## Physical lines -/

/-- A text without line feeds is at most one line. -/
theorem joinLines_single {text : List Char} (h : '\n' ∉ text) :
    joinLines none (lines text) = joinLines none [text] := by
  have hrun := linesFrom_run h [] []
  rw [List.append_nil, List.append_nil] at hrun
  rw [lines, hrun, linesFrom]
  cases text with
  | nil => rfl
  | cons c text => simp

/-- Blanks at the start of a text belong to no line but the first that is not blank. -/
theorem joinLines_front {front : List Char} (h : Blanks front) (rest : List Char) :
    ∃ tail, Blanks tail ∧ tail ⊆ front ∧ '\n' ∉ tail ∧
      joinLines none (lines (front ++ rest)) = joinLines none (lines (tail ++ rest)) := by
  by_cases hfeed : '\n' ∈ front
  · obtain ⟨line, more, hfront, hline⟩ := List.eq_append_cons_of_mem hfeed
    have hmore : Blanks more := fun c hc => h c (by simp [hfront, hc])
    have hremark : isRemark (trimStart line) = true := by
      rw [trimStart_of_blanks fun c hc => h c (by simp [hfront, hc])]
      rfl
    obtain ⟨tail, htail, hsub, hno, hjoin⟩ := joinLines_front hmore rest
    refine ⟨tail, htail, fun c hc => by simp [hfront, hsub hc], hno, ?_⟩
    rw [hfront, List.append_assoc, List.cons_append, joinLines_remark hline hremark, hjoin]
  · exact ⟨front, h, fun c hc => hc, hfeed, rfl⟩
termination_by front.length
decreasing_by
  rw [hfront, List.length_append, List.length_cons]
  omega

theorem joinLines_blanks {cs : List Char} (h : Blanks cs) : joinLines none (lines cs) = [] := by
  obtain ⟨tail, htail, -, hno, hjoin⟩ := joinLines_front h []
  rw [List.append_nil] at hjoin
  rw [hjoin, List.append_nil, joinLines_single hno, joinLines, trimStart_of_blanks htail]
  rfl

theorem continues_of_no_backslash {line : List Char} (h : '\\' ∉ line) : continues line = false :=
  continues_append_plain continues_nil fun _ hc he => h (he ▸ hc)

/-- A line that stands alone. -/
theorem joinLines_alone {line : List Char} (h : '\\' ∉ line) :
    joinLines none [line] = if isRemark (trimStart line) then [] else [trimStart line] := by
  have hopen : continues (trimStart line) = false :=
    continues_of_no_backslash fun hmem => h ((List.dropWhile_sublist _).subset hmem)
  rw [joinLines, hopen]
  rfl

/-- Blanks behind a line end it, and nothing else. -/
theorem joinLines_back {line back : List Char} (hline : '\n' ∉ line) (hback : Blanks back)
    (hreturn : '\r' ∉ line ++ back) (hslash : '\\' ∉ line ++ back) :
    ∃ sp, Blanks sp ∧ sp ⊆ back ∧
      joinLines none (lines (line ++ back)) = joinLines none [line ++ sp] := by
  by_cases hfeed : '\n' ∈ back
  · obtain ⟨sp, more, rfl, hsp⟩ := List.eq_append_cons_of_mem hfeed
    have hwhole : '\n' ∉ line ++ sp := by simp [hline, hsp]
    have hlast : (line ++ sp).reverse.head? ≠ some '\r' := by
      rw [List.head?_reverse]
      intro hlast
      have hmem := List.mem_of_getLast? hlast
      exact hreturn (by simpa using Or.imp_right Or.inl (List.mem_append.mp hmem))
    have hmore : joinLines none (lines more) = [] :=
      joinLines_blanks fun c hc => hback c (by simp [hc])
    have hlines : lines (line ++ (sp ++ '\n' :: more)) = (line ++ sp) :: lines more := by
      rw [← List.append_assoc, lines, linesFrom_run hwhole, List.append_nil, linesFrom_feed,
        if_neg hlast, List.reverse_reverse]
    have hopen : continues (trimStart (line ++ sp)) = false := by
      refine continues_of_no_backslash fun hmem => hslash ?_
      have hmem := (List.dropWhile_sublist _).subset hmem
      simpa using Or.imp_right Or.inl (List.mem_append.mp hmem)
    refine ⟨sp, fun c hc => hback c (by simp [hc]), fun c hc => by simp [hc], ?_⟩
    rw [hlines, joinLines, joinLines, hmore, hopen]
    rfl
  · refine ⟨back, hback, fun c hc => hc, joinLines_single ?_⟩
    simp [hline, hfeed]

/-! ## Blanks behind a value -/

theorem isGap_blanks {cs : List Char} (h : ∀ c ∈ cs, isGap c = true) : Blanks cs := fun c hc =>
  (gap_char (h c hc)).1

theorem trim_dropWhile_isGap (cs : List Char) : trim (cs.dropWhile isGap) = trim cs := by
  have hsplit : cs.takeWhile isGap ++ cs.dropWhile isGap = cs := List.takeWhile_append_dropWhile
  have hfront : Blanks (cs.takeWhile isGap) := isGap_blanks fun c hc => List.mem_takeWhile_imp hc
  rw [trim, trim, ← trimStart_blanks hfront, hsplit]

theorem dropGap_subset (tail : List Char) : dropGap tail ⊆ tail := by
  intro c hc
  have hwhole : tail.dropWhile isGap ⊆ tail := (List.dropWhile_sublist isGap).subset
  unfold dropGap at hc
  split at hc
  · rename_i d rest heq
    rw [heq] at hwhole
    split at hc
    · exact hwhole (List.mem_cons_of_mem _ ((List.dropWhile_sublist isGap).subset hc))
    · exact hwhole hc
  · cases hc

/-- Blanks behind a value are trimmed off it. -/
theorem trim_dropGap_append (tail : List Char) {sp : List Char} (h : Blanks sp) :
    trim (dropGap (tail ++ sp)) = trim (dropGap tail) := by
  cases htail : tail.dropWhile isGap with
  | nil =>
    have hdrop : (tail ++ sp).dropWhile isGap = sp.dropWhile isGap := by
      rw [List.dropWhile_append, htail]
      rfl
    have hblank : Blanks (sp.dropWhile isGap) := fun c hc =>
      h c ((List.dropWhile_sublist _).subset hc)
    have hnothing : dropGap tail = [] := by rw [dropGap, htail]
    have hkept : dropGap (tail ++ sp) = sp.dropWhile isGap := by
      rw [dropGap, hdrop]
      cases hsp : sp.dropWhile isGap with
      | nil => rfl
      | cons d more =>
        have hd : isBlank d = true := hblank d (hsp ▸ List.mem_cons_self ..)
        refine if_neg ?_
        rintro (rfl | rfl) <;> cases hd
    rw [hnothing, hkept, ← List.nil_append (sp.dropWhile isGap), trim_append_blanks [] hblank]
  | cons c rest =>
    have hdrop : (tail ++ sp).dropWhile isGap = c :: (rest ++ sp) := by
      rw [List.dropWhile_append, htail]
      rfl
    unfold dropGap
    rw [hdrop, htail]
    dsimp only
    split
    · rw [trim_dropWhile_isGap, trim_dropWhile_isGap, trim_append_blanks rest h]
    · exact trim_append_blanks (c :: rest) h

theorem cutKey_append {body : List Char} (hslash : '\\' ∉ body)
    (hends : ∃ c ∈ body, endsKey c = true) (more : List Char) :
    cutKey (body ++ more) = ((cutKey body).1, (cutKey body).2 ++ more) := by
  induction body with
  | nil => simp at hends
  | cons c body ih =>
    simp only [List.mem_cons, not_or] at hslash
    cases hc : endsKey c with
    | true =>
      have hstop : ∀ rest, cutKey (c :: rest) = ([], c :: rest) := fun rest => by
        rw [cutKey, hc]
        · rfl
        · intro _ _ hback
          exact absurd hback.symm hslash.1
      rw [List.cons_append, hstop, hstop]
      rfl
    | false =>
      have hmore : ∃ d ∈ body, endsKey d = true := by simpa [hc] using hends
      rw [List.cons_append, cutKey_plain (Ne.symm hslash.1) hc,
        cutKey_plain (Ne.symm hslash.1) hc, ih hslash.2 hmore]

/-- The key and what follows it are the line. -/
theorem cutKey_parts (line : List Char) : (cutKey line).1 ++ (cutKey line).2 = line := by
  fun_induction cutKey line with
  | case1 => rfl
  | case2 c rest key tail h ih =>
    rw [h] at ih
    simpa using ih
  | case3 c rest _ h => rfl
  | case4 c rest _ h key tail hcut ih =>
    rw [hcut] at ih
    simpa using ih

/-- A line is read alike whatever blanks stand behind it. -/
theorem readLine_append {body : List Char} (hslash : '\\' ∉ body)
    (hends : ∃ c ∈ body, endsKey c = true) {sp : List Char} (hsp : Blanks sp)
    (hslash' : '\\' ∉ sp) :
    (readLine (body ++ sp)).1 = (readLine body).1 ∧
      trimmed (readLine (body ++ sp)).2 = trimmed (readLine body).2 := by
  have hcut := cutKey_append hslash hends sp
  have hplain : ∀ {tail : List Char}, '\\' ∉ tail → unescape (dropGap tail) = dropGap tail :=
    fun h => unescape_of_no_backslash fun hmem => h (dropGap_subset _ hmem)
  have htail : '\\' ∉ (cutKey body).2 := fun hmem => by
    rw [← cutKey_parts body] at hslash
    exact hslash (List.mem_append_right _ hmem)
  have hwhole : '\\' ∉ (cutKey body).2 ++ sp := by simp [htail, hslash']
  simp only [readLine, splitLine, hcut, hplain htail, hplain hwhole, trimmed, String.toList_ofList,
    trim_dropGap_append _ hsp, and_self]

/-- Entries of the lines. -/
def entriesOf (lines : List (List Char)) : List Entry :=
  lines.map fun line => .ofPair (readLine line).1 (readLine line).2

theorem entriesOf_append {body : List Char} (hslash : '\\' ∉ body)
    (hbody : isRemark body = true ∨ ∃ c ∈ body, endsKey c = true)
    (hhead : ∀ c rest, body = c :: rest → isBlank c = false) {sp : List Char} (hsp : Blanks sp)
    (hslash' : '\\' ∉ sp) :
    entriesOf (joinLines none [body ++ sp]) = entriesOf (joinLines none [body]) := by
  have hwhole : '\\' ∉ body ++ sp := by simp [hslash, hslash']
  rw [joinLines_alone hwhole, joinLines_alone hslash]
  cases body with
  | nil =>
    rw [List.nil_append, trimStart_of_blanks hsp]
    rfl
  | cons c rest =>
    have hc : isBlank c = false := hhead c rest rfl
    rw [List.cons_append, trimStart_of_not_blank hc, trimStart_of_not_blank hc]
    have hremark : isRemark (c :: (rest ++ sp)) = isRemark (c :: rest) := rfl
    rw [hremark]
    cases h : isRemark (c :: rest) with
    | true => rfl
    | false =>
      obtain ⟨hkey, hvalue⟩ :=
        readLine_append hslash (hbody.resolve_left (by simp [h])) hsp hslash'
      rw [List.cons_append] at hkey hvalue
      simp [entriesOf, Entry.ofPair, hkey, hvalue]

end PlanArchive.Definition
