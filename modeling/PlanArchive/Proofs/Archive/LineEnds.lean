import PlanArchive.Archive.Basic
import PlanArchive.Proofs.Definition.OneLine
import PlanArchive.Proofs.Text.LineEnd

/-!
# Definitions with other line ends

The checksum leaves out line feeds and carriage returns. Definitions whose lines end in both are
the same definitions, but a carriage return alone ends no line: definitions with such line ends
have the same checksum and define at most one pair (`lineEnds_compared`, `lone_return_misread`).
-/

namespace PlanArchive

open Text Definition

namespace Definition

/-- The content with a carriage return before each line feed. -/
def withReturns (content : Bytes) : Bytes := replaceEach 0x0A [0x0D, 0x0A] content

/-- The content with a carriage return in the place of each line feed. -/
def onlyReturns (content : Bytes) : Bytes := replaceEach 0x0A [0x0D] content

/-- One line but for blanks at its ends, without backslashes: a remark, or a line whose key comes
to an end. -/
def OneLine (text : List Char) : Prop :=
  '\n' ∉ trim text ∧ '\\' ∉ text ∧
    (isRemark (trim text) = true ∨ ∃ c ∈ trim text, endsKey c = true)

instance (text : List Char) : Decidable (OneLine text) :=
  decidable_of_iff ('\n' ∉ trim text ∧ '\\' ∉ text ∧
      (isRemark (trim text) = true ∨ (trim text).any endsKey = true)) <| by
    rw [OneLine, List.any_eq_true]

theorem checksum_replaceEach {new : Bytes} (h : ∀ b ∈ new, Schema.isLineEnd b = true)
    (content : Bytes) :
    Schema.checksumOf (replaceEach 0x0A new content) = Schema.checksumOf content := by
  have hfilter : (replaceEach 0x0A new content).filter (!Schema.isLineEnd ·) =
      content.filter (!Schema.isLineEnd ·) := by
    induction content with
    | nil => rfl
    | cons b content ih =>
      rw [replaceEach_cons, List.filter_append, ih]
      by_cases hb : b = 0x0A
      · have hnew : new.filter (!Schema.isLineEnd ·) = [] :=
          List.filter_eq_nil_iff.mpr fun d hd => by simp [h d hd]
        rw [if_pos hb, hnew, hb]
        rfl
      · rw [if_neg hb, ← List.filter_append]
        rfl
  rw [Schema.checksumOf, hfilter, Schema.checksumOf]

/-! ## Carriage returns and line feeds -/

theorem linesFrom_withReturns {text line : List Char} (htext : '\r' ∉ text) (hline : '\r' ∉ line) :
    linesFrom line (replaceEach '\n' ['\r', '\n'] text) = linesFrom line text := by
  induction text generalizing line with
  | nil => rfl
  | cons c text ih =>
    simp only [List.mem_cons, not_or] at htext
    rw [replaceEach_cons]
    by_cases hc : c = '\n'
    · have hhead : line.head? ≠ some '\r' := fun h => hline (List.mem_of_head? h)
      have hrest : lines (replaceEach '\n' ['\r', '\n'] text) = lines text :=
        ih htext.2 List.not_mem_nil
      rw [if_pos hc, hc, List.cons_append, List.singleton_append, linesFrom_cons (by decide),
        linesFrom_feed, linesFrom_feed, List.head?_cons, if_pos rfl, if_neg hhead, hrest,
        List.tail_cons]
    · rw [if_neg hc, List.singleton_append, linesFrom_cons hc, linesFrom_cons hc]
      exact ih htext.2 (by simp [htext.1, hline])

theorem ofText_withReturns {text : List Char} (h : '\r' ∉ text) :
    Source.ofText (replaceEach '\n' ['\r', '\n'] text) = Source.ofText text := by
  have hlines : lines (replaceEach '\n' ['\r', '\n'] text) = lines text :=
    linesFrom_withReturns h List.not_mem_nil
  rw [Source.ofText, logicalLines, hlines, Source.ofText, logicalLines]

/-! ## Carriage returns alone -/

theorem not_mem_onlyReturns (text : List Char) : '\n' ∉ replaceEach '\n' ['\r'] text := by
  induction text with
  | nil => exact List.not_mem_nil
  | cons c text ih =>
    rw [replaceEach_cons]
    by_cases hc : c = '\n'
    · simp [hc, ih]
    · simp [hc, ih, Ne.symm hc]

/-- Carriage returns part no lines. -/
theorem size_onlyReturns (text : List Char) :
    (Source.ofText (replaceEach '\n' ['\r'] text)).size ≤ 1 := by
  rw [Source.ofText, logicalLines, joinLines_single (not_mem_onlyReturns text)]
  generalize replaceEach '\n' ['\r'] text = line
  rw [joinLines]
  cases isRemark (trimStart line) with
  | true => exact Nat.zero_le 1
  | false =>
    cases continues (trimStart line) with
    | true => exact Nat.le_refl 1
    | false => exact Nat.le_refl 1

theorem mem_replaceEach {α : Type} [DecidableEq α] {old x : α} {new xs : List α}
    (h : x ∈ replaceEach old new xs) : x ∈ new ∨ x ∈ xs := by
  obtain ⟨y, hy, hx⟩ := List.mem_flatMap.mp h
  split at hx
  · exact .inl hx
  · obtain rfl := List.mem_singleton.mp hx
    exact .inr hy

theorem blanks_onlyReturns {cs : List Char} (h : Blanks cs) :
    Blanks (replaceEach '\n' ['\r'] cs) := by
  intro c hc
  rcases mem_replaceEach hc with hnew | hold
  · obtain rfl := List.mem_singleton.mp hnew
    rfl
  · exact h c hold

/-- The entries of a text that is one line between blanks. -/
theorem entries_of_line {text front body back : List Char}
    (h : logicalLines text = joinLines none [front ++ (body ++ back)]) (hfront : Blanks front)
    (hback : Blanks back) (hslash : '\\' ∉ front ++ (body ++ back))
    (hbody : isRemark body = true ∨ ∃ c ∈ body, endsKey c = true)
    (hhead : ∀ c rest, body = c :: rest → isBlank c = false) :
    (Source.ofText text).entries = entriesOf (joinLines none [body]) := by
  simp only [List.mem_append, not_or] at hslash
  obtain ⟨hfrontSlash, hbodySlash, hbackSlash⟩ := hslash
  have hwhole : '\\' ∉ body ++ back := by simp [hbodySlash, hbackSlash]
  have hstart : joinLines none [front ++ (body ++ back)] = joinLines none [body ++ back] := by
    rw [joinLines_alone (by simp [hfrontSlash, hwhole]), joinLines_alone hwhole,
      trimStart_blanks hfront]
  have hentries : (Source.ofText text).entries = entriesOf (joinLines none [body ++ back]) := by
    rw [Source.ofText, h, hstart, joinLines_alone hwhole]
    split <;> rfl
  rw [hentries, entriesOf_append hbodySlash hbody hhead hback hbackSlash]

/-- A text of one line is read alike with carriage returns alone. -/
theorem entries_onlyReturns {text : List Char} (hreturn : '\r' ∉ text) (h : OneLine text) :
    (Source.ofText (replaceEach '\n' ['\r'] text)).entries = (Source.ofText text).entries := by
  obtain ⟨hfeed, hslash, hbody⟩ := h
  obtain ⟨front, back, hfront, hback, htext, hhead⟩ := exists_blanks text
  generalize trim text = body at *
  subst htext
  simp only [List.mem_append, not_or] at hreturn hslash
  have hreturns : replaceEach '\n' ['\r'] (front ++ (body ++ back)) =
      replaceEach '\n' ['\r'] front ++ (body ++ replaceEach '\n' ['\r'] back) := by
    rw [replaceEach_append, replaceEach_append, replaceEach_of_not_mem hfeed]
  have hsame : (Source.ofText (replaceEach '\n' ['\r'] (front ++ (body ++ back)))).entries =
      entriesOf (joinLines none [body]) := by
    have hline := joinLines_single (not_mem_onlyReturns (front ++ (body ++ back)))
    rw [hreturns] at hline
    rw [hreturns]
    refine entries_of_line hline (blanks_onlyReturns hfront) (blanks_onlyReturns hback) ?_ hbody
      hhead
    have hnot : ∀ {cs}, '\\' ∉ cs → '\\' ∉ replaceEach '\n' ['\r'] cs := fun hcs hmem =>
      (mem_replaceEach hmem).elim (by decide) hcs
    simp [hnot hslash.1, hslash.2.1, hnot hslash.2.2]
  rw [hsame]
  obtain ⟨tail, htail, hsub, hno, hjoin⟩ := joinLines_front hfront (body ++ back)
  have hsubset : ∀ {c}, c ∉ front → c ∉ tail := fun hc hmem => hc (hsub hmem)
  obtain ⟨sp, hsp, hspSub, hline⟩ := joinLines_back
    (show '\n' ∉ tail ++ body by simp [hno, hfeed]) hback
    (by simp [hsubset hreturn.1, hreturn.2]) (by simp [hsubset hslash.1, hslash.2])
  have hlogical : logicalLines (front ++ (body ++ back)) =
      joinLines none [tail ++ (body ++ sp)] := by
    rw [logicalLines, hjoin, ← List.append_assoc, hline, List.append_assoc]
  have hspSlash : '\\' ∉ sp := fun hmem => hslash.2.2 (hspSub hmem)
  exact (entries_of_line hlogical htail hsp
    (by simp [hsubset hslash.1, hslash.2.1, hspSlash]) hbody hhead).symm

end Definition

namespace Archive

theorem build_congr (setup : Setup) {source other : Definition.Source}
    (h : source.entries = other.entries) (checksum : String) :
    build setup source checksum = build setup other checksum := by
  unfold build basisOf
  rw [h]

/-- With carriage returns before the line feeds, the same archive. With carriage returns alone, the
same checksum but at most one pair; the same archive too if the definitions are one line. -/
theorem lineEnds_compared (setup : Setup) {content : Bytes} (h : 0x0D ∉ content) :
    (Schema.checksumOf (withReturns content) = Schema.checksumOf content ∧
        Schema.checksumOf (onlyReturns content) = Schema.checksumOf content) ∧
      ofContent setup (withReturns content) = ofContent setup content ∧
      (definitionsOf (onlyReturns content)).size ≤ 1 ∧
      (OneLine (Utf8.decodeLossy content) →
        ofContent setup (onlyReturns content) = ofContent setup content) := by
  have hascii : Utf8.Ascii '\r' := by decide
  have hreturn : '\r' ∉ Utf8.decodeLossy content := Utf8.not_mem_decodeLossy hascii h
  have hboth : Schema.checksumOf (withReturns content) = Schema.checksumOf content :=
    checksum_replaceEach (List.all_eq_true.mp rfl) content
  have hone : Schema.checksumOf (onlyReturns content) = Schema.checksumOf content :=
    checksum_replaceEach (List.all_eq_true.mp rfl) content
  have hreadBoth : Utf8.decodeLossy (withReturns content) =
      replaceEach '\n' ['\r', '\n'] (Utf8.decodeLossy content) :=
    Utf8.decodeLossy_replaceEach hascii ['\n'] content
  have hreadOne : Utf8.decodeLossy (onlyReturns content) =
      replaceEach '\n' ['\r'] (Utf8.decodeLossy content) :=
    Utf8.decodeLossy_replaceEach hascii [] content
  refine ⟨⟨hboth, hone⟩, ?_, ?_, fun hline => ?_⟩
  · rw [ofContent, ofContent, hboth, definitionsOf, hreadBoth, ofText_withReturns hreturn]
    rfl
  · rw [definitionsOf, hreadOne]
    exact size_onlyReturns _
  · rw [ofContent, ofContent, hone]
    refine build_congr setup ?_ _
    rw [definitionsOf, hreadOne, entries_onlyReturns hreturn hline]
    rfl

/-- A line between blank ones. -/
theorem lineEnds_compared_single :
    0x0D ∉ utf8 "\n A = one \n\n" ∧
      ofContent .bare (onlyReturns (utf8 "\n A = one \n\n")) =
        ofContent .bare (utf8 "\n A = one \n\n") := by
  have hnone : 0x0D ∉ utf8 "\n A = one \n\n" := by decide
  exact ⟨hnone, (lineEnds_compared .bare hnone).2.2.2 (by decide +kernel)⟩

/-- Two lines that end in carriage returns alone have the checksum of two lines, and are read as
one. -/
theorem lone_return_misread :
    0x0D ∉ utf8 "A=one\nB=two\n" ∧
      Schema.checksumOf (onlyReturns (utf8 "A=one\nB=two\n")) =
        Schema.checksumOf (utf8 "A=one\nB=two\n") ∧
      (ofContent .bare (utf8 "A=one\nB=two\n")).resolver.tags.typeOf "B" = "two" ∧
      (ofContent .bare (onlyReturns (utf8 "A=one\nB=two\n"))).resolver.tags.typeOf "B" = "B" := by
  exact ⟨by decide, checksum_replaceEach (List.all_eq_true.mp rfl) _, by decide +kernel,
    by decide +kernel⟩

end Archive

end PlanArchive
