import PlanArchive.Markup.Printer
import PlanArchive.Proofs.Markup.Lines
import PlanArchive.Proofs.Markup.Spelling

/-!
# Where printed markup is cut

How the scanner goes through what was printed, in any spelling: a run of text, the content of a tag
with its quoted values, an end tag, and the instruction in front of a document. Each lemma says
which tokens come out, where the scanner then stands and on which line.
-/

namespace PlanArchive.Markup

/-! ## One character -/

/-- A character that ends no token. -/
theorem scanLines_keep {state state' : ScanState} {c : Char} (h : state.next c = (state', none))
    (since line : Nat) (rest : List Char) :
    scanLines since line state (c :: rest) = scanLines since (lineAfter line c) state' rest := by
  rw [scanLines, h]

/-- A character that ends a token. -/
theorem scanLines_emit {state state' : ScanState} {c : Char} {token : Token}
    (h : state.next c = (state', some token)) (htoken : ∀ fault, token ≠ .broken fault)
    (since line : Nat) (rest : List Char) :
    scanLines since line state (c :: rest) =
      (since, token) :: scanLines (lineAfter line c) (lineAfter line c) state' rest := by
  rw [scanLines, h]
  cases token with
  | broken fault => exact absurd rfl (htoken fault)
  | _ => rfl

theorem next_text {c : Char} (h : c ≠ '<') (soFar : List Char) :
    (ScanState.text soFar).next c = (.text (c :: soFar), none) := by
  rw [ScanState.next, if_neg h]

theorem toggleQuote_none {c : Char} (h : c ∉ signs) : toggleQuote c none = none := by
  have hc : ¬(c = '\x22' ∨ c = '\x27') := by
    rintro (rfl | rfl) <;> exact h (by decide)
  rw [toggleQuote, if_neg hc]

theorem next_opened {c : Char} (h : c ∉ signs) :
    ScanState.opened.next c = (.tag [c] none, none) := by
  have hne : c ≠ '!' ∧ c ≠ '?' ∧ c ≠ '/' ∧ c ≠ '>' := by
    refine ⟨?_, ?_, ?_, ?_⟩ <;> exact fun e => h (by simp [signs, e])
  simp only [ScanState.next, hne, if_false, toggleQuote_none h]

theorem next_tag {c : Char} (h : c ∉ signs) (soFar : List Char) :
    (ScanState.tag soFar none).next c = (.tag (c :: soFar) none, none) := by
  have hgt : c ≠ '>' := fun e => h (by simp [signs, e])
  simp only [ScanState.next, hgt, false_and, if_false, toggleQuote_none h]

theorem next_tag_quoted {c : Char} (h : c ≠ '\x22') (soFar : List Char) :
    (ScanState.tag soFar (some '\x22')).next c = (.tag (c :: soFar) (some '\x22'), none) := by
  simp [ScanState.next, toggleQuote, h]

theorem next_close {c : Char} (h : c ∉ signs) (soFar : List Char) :
    (ScanState.close soFar none).next c = (.close (c :: soFar) none, none) := by
  have hgt : c ≠ '>' := fun e => h (by simp [signs, e])
  simp only [ScanState.next, hgt, false_and, if_false, toggleQuote_none h]

theorem next_instruction {c : Char} (h : c ≠ '>') (soFar : List Char) :
    (ScanState.instruction soFar).next c = (.instruction (c :: soFar), none) := by
  simp only [ScanState.next, h, false_and, if_false]

/-- Characters that a family of states takes in one after another, each behind those in front of
it. -/
theorem scanLines_run_behind (state : List Char → ScanState) {cs soFar : List Char}
    (h : ∀ front c back, cs = front ++ c :: back →
      (state (front.reverse ++ soFar)).next c = (state (c :: (front.reverse ++ soFar)), none))
    (since line : Nat) (rest : List Char) :
    scanLines since line (state soFar) (cs ++ rest) =
      scanLines since (line + cs.count '\n') (state (cs.reverse ++ soFar)) rest := by
  induction cs generalizing line soFar with
  | nil => rfl
  | cons c cs ih =>
    have hfirst : (state soFar).next c = (state (c :: soFar), none) := h [] c cs rfl
    have hrest : ∀ front d back, cs = front ++ d :: back →
        (state (front.reverse ++ c :: soFar)).next d =
          (state (d :: (front.reverse ++ c :: soFar)), none) := by
      rintro front d back rfl
      simpa using h (c :: front) d back rfl
    rw [List.cons_append, scanLines_keep hfirst, ih hrest, lineAfter_add_count, List.reverse_cons,
      List.append_assoc]
    rfl

/-- Characters that a family of states takes in wherever they stand. -/
theorem scanLines_run (state : List Char → ScanState) {cs : List Char}
    (h : ∀ c ∈ cs, ∀ soFar, (state soFar).next c = (state (c :: soFar), none)) (since line : Nat)
    (soFar rest : List Char) :
    scanLines since line (state soFar) (cs ++ rest) =
      scanLines since (line + cs.count '\n') (state (cs.reverse ++ soFar)) rest :=
  scanLines_run_behind state (fun front c back hcs => h c (by simp [hcs]) _) since line rest

/-! ## Text -/

theorem scanLines_text {cs : List Char} (h : '<' ∉ cs) (since line : Nat)
    (soFar rest : List Char) :
    scanLines since line (.text soFar) (cs ++ rest) =
      scanLines since (line + cs.count '\n') (.text (cs.reverse ++ soFar)) rest :=
  scanLines_run .text (fun _ hc => next_text fun e => h (e ▸ hc)) since line soFar rest

theorem scanLines_open (since line : Nat) (rest : List Char) :
    scanLines since line (.text []) ('<' :: rest) = scanLines since line .opened rest :=
  scanLines_keep rfl since line rest

/-- Text that is not empty ends at the next tag. -/
theorem scanLines_text_open {cs : List Char} (h : '<' ∉ cs) (hne : cs ≠ []) (since line : Nat)
    (rest : List Char) :
    scanLines since line (.text []) (cs ++ '<' :: rest) =
      (since, .text cs) ::
        scanLines (line + cs.count '\n') (line + cs.count '\n') .opened rest := by
  have hend : (ScanState.text cs.reverse).next '<' = (.opened, some (.text cs)) := by
    simp only [ScanState.next, if_pos, List.isEmpty_reverse, List.isEmpty_eq_false_iff.mpr hne,
      List.reverse_reverse, Bool.false_eq_true, if_false]
  rw [scanLines_text h, List.append_nil, scanLines_emit hend (by simp)]
  rfl

/-- Text that is not empty ends with the whole. -/
theorem scanLines_text_end {cs : List Char} (h : '<' ∉ cs) (hne : cs ≠ []) (since line : Nat) :
    scanLines since line (.text []) cs = [(since, .text cs)] := by
  have hrun := scanLines_text h since line [] []
  rw [List.append_nil, List.append_nil] at hrun
  rw [hrun, scanLines]
  cases hcs : cs.reverse with
  | nil => exact absurd (List.reverse_eq_nil_iff.mp hcs) hne
  | cons c rest =>
    have hback : (c :: rest).reverse = cs := by rw [← hcs, List.reverse_reverse]
    rw [ScanState.atEnd, hback]
    · rfl
    · simp

/-! ## Tags -/

section

variable (s : Spelling)

theorem Spelling.text_printAttribute (pair : String × String) :
    s.text (printAttribute pair) = ' ' :: (s.text pair.1.toList ++
      '=' :: '\x22' :: (s.text (escape pair.2.toList) ++ ['\x22'])) := by
  have hprint : printAttribute pair = ' ' :: (pair.1.toList ++
      '=' :: '\x22' :: (escape pair.2.toList ++ ['\x22'])) := by
    simp [printAttribute]
  simp (disch := decide) only [hprint, s.text_ascii_cons, s.text_append, s.text_nil]

theorem Spelling.text_printHead (name : String) (attributes : List (String × String)) :
    s.text (printHead name attributes) =
      s.text name.toList ++ attributes.flatMap fun pair => s.text (printAttribute pair) := by
  rw [printHead, s.text_append]
  congr 1
  exact List.flatMap_assoc

theorem Spelling.quote_not_mem (cs : List Char) : '\x22' ∉ s.text (escape cs) :=
  s.not_mem_text (by decide) (not_mem_escape (by decide) (by decide) cs)

theorem scanLines_tag_attribute {pair : String × String} (h : isName pair.1 = true)
    (since line : Nat) (soFar rest : List Char) :
    scanLines since line (.tag soFar none) (s.text (printAttribute pair) ++ rest) =
      scanLines since (line + (printAttribute pair).count '\n')
        (.tag ((s.text (printAttribute pair)).reverse ++ soFar) none) rest := by
  have hquote : ∀ c ∈ s.text (escape pair.2.toList), c ≠ '\x22' := fun c hc e =>
    s.quote_not_mem _ (e ▸ hc)
  have hspace : (ScanState.tag soFar none).next ' ' = (.tag (' ' :: soFar) none, none) := rfl
  have hequals : ∀ soFar, (ScanState.tag soFar none).next '=' =
      (.tag ('=' :: soFar) none, none) := fun _ => rfl
  have hopen : ∀ soFar, (ScanState.tag soFar none).next '\x22' =
      (.tag ('\x22' :: soFar) (some '\x22'), none) := fun _ => rfl
  have hclose : ∀ soFar, (ScanState.tag soFar (some '\x22')).next '\x22' =
      (.tag ('\x22' :: soFar) none, none) := fun _ => rfl
  have hline : ∀ line, lineAfter line ' ' = line ∧ lineAfter line '=' = line ∧
      lineAfter line '\x22' = line := fun _ => ⟨rfl, rfl, rfl⟩
  rw [← s.count_text (printAttribute pair), s.text_printAttribute]
  simp only [List.cons_append, List.append_assoc, List.nil_append]
  rw [scanLines_keep hspace,
    scanLines_run (.tag · none) (fun c hc => next_tag (s.not_sign_spelled h hc)),
    scanLines_keep (hequals _), scanLines_keep (hopen _),
    scanLines_run (.tag · (some '\x22')) (fun c hc => next_tag_quoted (hquote c hc)),
    scanLines_keep (hclose _)]
  simp [hline, Nat.add_assoc]

theorem scanLines_tag_attributes {attributes : List (String × String)}
    (h : ∀ pair ∈ attributes, isName pair.1 = true) (since line : Nat) (soFar rest : List Char) :
    scanLines since line (.tag soFar none)
        ((attributes.flatMap fun pair => s.text (printAttribute pair)) ++ rest) =
      scanLines since (line + (attributes.flatMap printAttribute).count '\n')
        (.tag ((attributes.flatMap fun pair => s.text (printAttribute pair)).reverse ++ soFar) none)
        rest := by
  induction attributes generalizing line soFar with
  | nil => rfl
  | cons pair attributes ih =>
    rw [List.flatMap_cons, List.append_assoc,
      scanLines_tag_attribute s (h pair (List.mem_cons_self ..)),
      ih fun p hp => h p (List.mem_cons_of_mem _ hp)]
    simp [Nat.add_assoc]

theorem count_name {name : String} (h : isName name = true) : name.toList.count '\n' = 0 :=
  List.count_eq_zero_of_not_mem fun hmem => not_sign_of_mem h hmem (by decide)

theorem scanLines_head {name : String} {attributes : List (String × String)}
    (hname : isName name = true) (hnames : ∀ pair ∈ attributes, isName pair.1 = true)
    (since line : Nat) (rest : List Char) :
    scanLines since line .opened (s.text (printHead name attributes) ++ rest) =
      scanLines since (line + (printHead name attributes).count '\n')
        (.tag (s.text (printHead name attributes)).reverse none) rest := by
  obtain ⟨c, cs, hcs⟩ := s.exists_cons_spelled hname
  have hc : c ∉ signs := s.not_sign_spelled hname (by simp [hcs])
  have hall : ∀ d ∈ cs, d ∉ signs := fun d hd => s.not_sign_spelled hname (by simp [hcs, hd])
  have hfirst : lineAfter line c = line := if_neg fun e => hc (by simp [signs, e])
  have hfeeds : cs.count '\n' = 0 :=
    List.count_eq_zero_of_not_mem fun hmem => hall _ hmem (by decide)
  have hcount : (printHead name attributes).count '\n' =
      (attributes.flatMap printAttribute).count '\n' := by
    rw [printHead, List.count_append, count_name hname, Nat.zero_add]
  rw [hcount, s.text_printHead, hcs, List.cons_append, List.cons_append, List.append_assoc,
    scanLines_keep (next_opened hc),
    scanLines_run (.tag · none) (fun d hd => next_tag (hall d hd)),
    scanLines_tag_attributes s hnames, hfirst, hfeeds]
  simp

/-- The head of a tag does not end in a slash, which would make the tag an empty one. -/
theorem getLast?_printHead {name : String} {attributes : List (String × String)}
    (hname : isName name = true) :
    (s.text (printHead name attributes)).getLast? ≠ some '/' := by
  rw [s.text_printHead]
  rcases List.eq_nil_or_concat attributes with rfl | ⟨front, pair, rfl⟩
  · rw [List.flatMap_nil, List.append_nil]
    intro h
    exact s.not_sign_spelled hname (List.mem_of_getLast? h) (by decide)
  · have hprint : s.text (printAttribute pair) = (' ' :: (s.text pair.1.toList ++
        '=' :: '\x22' :: s.text (escape pair.2.toList))) ++ ['\x22'] := by
      simp [s.text_printAttribute]
    rw [List.concat_eq_append, List.flatMap_append, List.flatMap_cons, List.flatMap_nil,
      List.append_nil, hprint, ← List.append_assoc, ← List.append_assoc, List.getLast?_concat]
    decide

theorem tagToken_printHead {name : String} {attributes : List (String × String)}
    (hname : isName name = true) :
    tagToken (s.text (printHead name attributes)).reverse =
      .start (s.text (printHead name attributes)) := by
  have hslash : (s.text (printHead name attributes)).getLast? ≠ some '/' :=
    getLast?_printHead s hname
  have hback : (s.text (printHead name attributes)).reverse.reverse =
      s.text (printHead name attributes) := List.reverse_reverse _
  rw [← List.head?_reverse] at hslash
  generalize (s.text (printHead name attributes)).reverse = cs at hslash hback
  rw [← hback]
  unfold tagToken
  split
  · simp at hslash
  · rfl

theorem scanLines_start {name : String} {attributes : List (String × String)}
    (hname : isName name = true) (hnames : ∀ pair ∈ attributes, isName pair.1 = true)
    (since line : Nat) (rest : List Char) :
    scanLines since line .opened (s.text (printHead name attributes) ++ '>' :: rest) =
      (since, .start (s.text (printHead name attributes))) ::
        scanLines (line + (printHead name attributes).count '\n')
          (line + (printHead name attributes).count '\n') (.text []) rest := by
  have hend : (ScanState.tag (s.text (printHead name attributes)).reverse none).next '>' =
      (.text [], some (.start (s.text (printHead name attributes)))) := by
    rw [← tagToken_printHead s hname]
    rfl
  rw [scanLines_head s hname hnames, scanLines_emit hend (by simp)]
  rfl

theorem scanLines_empty {name : String} {attributes : List (String × String)}
    (hname : isName name = true) (hnames : ∀ pair ∈ attributes, isName pair.1 = true)
    (since line : Nat) (rest : List Char) :
    scanLines since line .opened (s.text (printHead name attributes) ++ '/' :: '>' :: rest) =
      (since, .empty (s.text (printHead name attributes))) ::
        scanLines (line + (printHead name attributes).count '\n')
          (line + (printHead name attributes).count '\n') (.text []) rest := by
  have hend : (ScanState.tag ('/' :: (s.text (printHead name attributes)).reverse) none).next '>' =
      (.text [], some (.empty (s.text (printHead name attributes)))) := by
    rw [← List.reverse_reverse (s.text (printHead name attributes)), List.reverse_reverse]
    rfl
  have hslash : ∀ soFar, (ScanState.tag soFar none).next '/' = (.tag ('/' :: soFar) none, none) :=
    fun _ => rfl
  rw [scanLines_head s hname hnames, scanLines_keep (hslash _), scanLines_emit hend (by simp)]
  rfl

theorem closeToken_name {name : String} (h : isName name = true) :
    closeToken (s.text name.toList).reverse = .close (s.text name.toList) := by
  have hspace : ∀ c ∈ (s.text name.toList).reverse, isSpace c = false := fun c hc =>
    isSpace_eq_false_of_not_sign (s.not_sign_spelled h (List.mem_reverse.mp hc))
  have hback : (s.text name.toList).reverse.reverse = s.text name.toList := List.reverse_reverse _
  cases hcs : (s.text name.toList).reverse with
  | nil =>
    obtain ⟨c, rest, hname⟩ := s.exists_cons_spelled h
    simp [hname] at hcs
  | cons c cs =>
    rw [← hback, hcs, closeToken,
      List.dropWhile_cons_of_neg (by simp [hspace c (by simp [hcs])])]

theorem scanLines_end {name : String} (h : isName name = true) (since line : Nat)
    (rest : List Char) :
    scanLines since line .opened ('/' :: (s.text name.toList ++ '>' :: rest)) =
      (since, .close (s.text name.toList)) :: scanLines line line (.text []) rest := by
  have hend : (ScanState.close ((s.text name.toList).reverse ++ []) none).next '>' =
      (.text [], some (.close (s.text name.toList))) := by
    rw [← closeToken_name s h, List.append_nil]
    rfl
  have hslash : ScanState.opened.next '/' = (.close [] none, none) := rfl
  rw [scanLines_keep hslash,
    scanLines_run (.close · none) (fun c hc => next_close (s.not_sign_spelled h hc)),
    s.count_text, count_name h, scanLines_emit hend (by simp)]
  rfl

end

/-- An instruction ends at its first `>`, if a question mark stands in front of it. -/
theorem scanLines_instruction {cs : List Char} (h : '>' ∉ cs) (since line : Nat)
    (rest : List Char) :
    scanLines since line .opened ('?' :: (cs ++ '?' :: '>' :: rest)) =
      (since, .aside) ::
        scanLines (line + cs.count '\n') (line + cs.count '\n') (.text []) rest := by
  have hend : (ScanState.instruction ('?' :: (cs.reverse ++ ['?']))).next '>' =
      (.text [], some .aside) := by
    simp [ScanState.next]
  have hstart : ScanState.opened.next '?' = (.instruction ['?'], none) := rfl
  rw [scanLines_keep hstart,
    scanLines_run .instruction (fun c hc => next_instruction fun e => h (e ▸ hc)),
    scanLines_keep (next_instruction (by decide) _), scanLines_emit hend (by simp)]
  rfl

end PlanArchive.Markup
