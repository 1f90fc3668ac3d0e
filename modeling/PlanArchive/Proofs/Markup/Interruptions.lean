import PlanArchive.Proofs.Markup.Append

/-!
# Character data with comments and sections

Character data may be interrupted by a comment, and any run of them may be written as a section: the
same is read, but for lines (`readElements_interrupted`). Both are markup of one token in place of a
run of character data, empty for a comment, and the token does to the elements under way what the
run does (`readElements_replaced`).
-/

namespace PlanArchive.Markup

/-! ## Points between characters -/

/-- Whether a reference is under way behind the characters. -/
def refers (under : Bool) : List Char → Bool
  | [] => under
  | c :: rest => refers (if c = '&' then true else if c = ';' then false else under) rest

/-- Behind the text neither markup nor a reference is under way. -/
def Between (before : List Char) : Prop :=
  ∃ soFar, (ScanState.text []).after before = .text soFar ∧ refers false soFar.reverse = false

/-- Characters that end no reference within them can be read in two parts. -/
theorem unescapeFrom_split {total : Nat} {a b : List Char} :
    ∀ {pos : Nat} {under : Option (Nat × List Char)} {out : List Char},
      unescapeFrom total pos under (a ++ b) = .ok out → refers under.isSome a = false →
        ∃ a' b' pos', unescapeFrom total pos under a = .ok a' ∧
          unescapeFrom total pos' none b = .ok b' ∧ out = a' ++ b' := by
  induction a with
  | nil =>
    intro pos under out h hclosed
    cases under with
    | none => exact ⟨[], out, pos, rfl, h, rfl⟩
    | some under => cases hclosed
  | cons c a ih =>
    intro pos under out h hclosed
    rw [refers] at hclosed
    cases under with
    | none =>
      simp only [List.cons_append, unescapeFrom] at h ⊢
      split at h
      · rename_i hc
        rw [if_pos hc] at hclosed ⊢
        exact ih h hclosed
      · rename_i hc
        obtain ⟨more, hmore, hout⟩ := Result.bind_eq_ok.mp h
        obtain rfl := Result.pure_eq_ok.mp hout
        rw [if_neg hc] at hclosed ⊢
        obtain ⟨a', b', pos', ha, hb, rfl⟩ := ih hmore (by simpa using hclosed)
        exact ⟨c :: a', b', pos', by rw [ha]; rfl, hb, rfl⟩
    | some under =>
      obtain ⟨start, name⟩ := under
      simp only [List.cons_append, unescapeFrom] at h ⊢
      split at h
      · rename_i hc
        obtain ⟨d, hd, h⟩ := Result.bind_eq_ok.mp h
        obtain ⟨more, hmore, hout⟩ := Result.bind_eq_ok.mp h
        obtain rfl := Result.pure_eq_ok.mp hout
        have hfalse : refers (none : Option (Nat × List Char)).isSome a = false := by
          simpa [hc] using hclosed
        obtain ⟨a', b', pos', ha, hb, rfl⟩ := ih hmore hfalse
        refine ⟨d :: a', b', pos', ?_, hb, rfl⟩
        rw [if_pos hc, hd, ha]
        rfl
      · rename_i hc
        split at h
        · cases h
        · rename_i hamp
          rw [if_neg hc, if_neg hamp] at hclosed ⊢
          exact ih h hclosed

theorem unescape_split {a b out : List Char} (h : unescape (a ++ b) = .ok out)
    (hclosed : refers false a = false) :
    ∃ a' b', unescape a = .ok a' ∧ unescape b = .ok b' ∧ out = a' ++ b' := by
  have hfalse : refers (none : Option (Nat × List Char)).isSome a = false := hclosed
  obtain ⟨a', b', pos, ha, hb, rfl⟩ := unescapeFrom_split h hfalse
  exact ⟨a', b', unescapeFrom_moved ha _ _, unescapeFrom_moved hb _ _, rfl⟩

/-! ## Character data in parts -/

/-- What character data make of the elements under way, wherever they stand. -/
def Takes (forest : Forest) (cs : List Char) (forest' : Forest) : Prop :=
  cs = [] ∧ forest' = forest ∨
    cs ≠ [] ∧ ∃ text, unescape cs = .ok text ∧ ∀ line, forest.append line text = .ok forest'

theorem append_moved {forest forest' : Forest} {line : Nat} {text : List Char}
    (h : forest.append line text = .ok forest') (line' : Nat) :
    forest.append line' text = .ok forest' := by
  obtain ⟨stack, roots⟩ := forest
  cases stack with
  | nil =>
    simp only [Forest.append] at h ⊢
    split at h
    · rename_i hblank
      rw [if_pos hblank]
      exact h
    · cases h
  | cons e outer => exact h

theorem grow_singleton (forest : Forest) (line : Nat) (token : Token) :
    forest.grow [(line, token)] = forest.step line token := by
  rw [Forest.grow]
  cases forest.step line token <;> rfl

theorem grow_textToken_eq_ok {forest forest' : Forest} {line : Nat} {cs : List Char} :
    forest.grow (textToken line cs) = .ok forest' ↔ Takes forest cs forest' := by
  unfold textToken Takes
  split
  · rename_i hnil
    simp [hnil, Forest.grow, eq_comm]
  · rename_i hne
    rw [grow_singleton, Forest.step]
    constructor
    · intro h
      split at h
      · rename_i text htext
        exact .inr ⟨hne, text, htext, append_moved h⟩
      · cases h
    · rintro (⟨hnil, -⟩ | ⟨-, text, htext, happend⟩)
      · exact absurd hnil hne
      · rw [htext]
        exact happend line

/-- Text that is added in two parts is the same text. -/
theorem append_split {forest forest' : Forest} {x y : List Char}
    (h : ∀ line, forest.append line (x ++ y) = .ok forest') :
    ∃ next, (∀ line, forest.append line x = .ok next) ∧
      ∀ line, next.append line y = .ok forest' := by
  obtain ⟨stack, roots⟩ := forest
  cases stack with
  | nil =>
    have hblank : Text.allBlank (x ++ y) = true := by
      by_contra hblank
      have hstray := h 0
      rw [Forest.append, if_neg hblank] at hstray
      cases hstray
    have hforest := h 0
    rw [Forest.append, if_pos hblank] at hforest
    obtain rfl := Except.ok.inj hforest
    rw [Text.allBlank, List.all_append, Bool.and_eq_true] at hblank
    exact ⟨⟨[], roots⟩, fun line => if_pos hblank.1, fun line => if_pos hblank.2⟩
  | cons e outer =>
    obtain rfl := Except.ok.inj (h 0)
    refine ⟨⟨addText (String.ofList x) e :: outer, roots⟩, fun line => rfl, fun line => ?_⟩
    simp [Forest.append, addText, Element.content, String.ofList_append, String.append_assoc]

theorem Takes.split {forest forest' : Forest} {a b : List Char}
    (h : Takes forest (a ++ b) forest') (hclosed : refers false a = false) :
    ∃ next, Takes forest a next ∧ Takes next b forest' := by
  by_cases ha : a = []
  · subst ha
    exact ⟨forest, .inl ⟨rfl, rfl⟩, h⟩
  by_cases hb : b = []
  · subst hb
    exact ⟨forest', by rwa [List.append_nil] at h, .inl ⟨rfl, rfl⟩⟩
  rcases h with ⟨hnil, -⟩ | ⟨-, text, htext, happend⟩
  · exact absurd (List.append_eq_nil_iff.mp hnil).1 ha
  · obtain ⟨x, y, hx, hy, rfl⟩ := unescape_split htext hclosed
    obtain ⟨next, hfirst, hsecond⟩ := append_split happend
    exact ⟨next, .inr ⟨ha, x, hx, hfirst⟩, .inr ⟨hb, y, hy, hsecond⟩⟩

/-! ## Markup in place of character data -/

/-- What is read does not depend on the line, but for the lines of the elements. -/
theorem readOn_unlined {forest : Forest} {roots : List Element} {line : Nat} {cs : List Char}
    (h : readOn forest line cs = .ok ⟨[], roots⟩) (line' : Nat) :
    ∃ roots', readOn forest line' cs = .ok ⟨[], roots'⟩ ∧
      roots'.map Element.unlined = roots.map Element.unlined := by
  -- with all lines at zero both readings are the same
  have hplain : ∀ line, ((readOn forest line cs).map (Forest.mapLine (fun _ => 0) [])).mapError
        (Problem.mapLine fun _ => 0) =
      (forest.mapLine (fun _ => 0) []).grow
        ((scanLines 0 0 (.text []) cs).map fun token => (0, token.2)) := fun line => by
    have hshift := scanLines_shift line 0 0 (.text []) cs
    rw [Nat.zero_add] at hshift
    rw [readOn, ← grow_mapLine, hshift, List.map_map]
    rfl
  have hsame := (hplain line').trans (hplain line).symm
  rw [h] at hsame
  cases hread : readOn forest line' cs with
  | error problem =>
    rw [hread] at hsame
    cases hsame
  | ok grown =>
    rw [hread] at hsame
    obtain ⟨stack, roots'⟩ := grown
    have hforest : Forest.mapLine (fun _ => 0) [] ⟨stack, roots'⟩ =
        Forest.mapLine (fun _ => 0) [] ⟨[], roots⟩ := Except.ok.inj hsame
    rw [Forest.mapLine, Forest.mapLine, Forest.mk.injEq, List.append_nil, List.append_nil] at hforest
    obtain rfl : stack = [] := List.map_eq_nil_iff.mp hforest.1
    exact ⟨roots', rfl, hforest.2⟩

theorem after_append (state : ScanState) (a b : List Char) :
    state.after (a ++ b) = (state.after a).after b :=
  List.foldl_append

theorem after_text {cs : List Char} (h : '<' ∉ cs) (soFar : List Char) :
    (ScanState.text soFar).after cs = .text (cs.reverse ++ soFar) := by
  induction cs generalizing soFar with
  | nil => rfl
  | cons c cs ih =>
    rw [List.mem_cons, not_or] at h
    have hnext : ((ScanState.text soFar).next c).1 = .text (c :: soFar) := by
      rw [next_text (Ne.symm h.1)]
    rw [ScanState.after, List.foldl_cons, hnext, List.reverse_cons, List.append_assoc]
    exact ih h.2 (c :: soFar)

/-- A run of character data takes the elements under way from one state to another. Markup of one
token that does the same may take its place. -/
theorem readElements_replaced {before run after : List Char} {roots : List Element}
    (hbefore : Between before) (hbehind : Between (before ++ run)) (hrun : '<' ∉ run)
    (hfirst : (before ++ run ++ after).head? ≠ some byteOrderMark)
    (h : readElements (before ++ run ++ after) = .ok roots) :
    ∃ here behind, Takes here run behind ∧ ∀ {mark : List Char} {token : Token},
      (∀ line rest, ∃ line', scanLines line line .opened (mark ++ rest) =
        (line, token) :: scanLines line' line' (.text []) rest) →
      (∀ line, here.step line token = .ok behind) →
        ∃ roots', readElements (before ++ '<' :: mark ++ after) = .ok roots' ∧
          roots'.map Element.unlined = roots.map Element.unlined := by
  obtain ⟨soFar, hstate, hclosed⟩ := hbefore
  have hclosed' : refers false (soFar.reverse ++ run) = false := by
    obtain ⟨soFar', hstate', hclosed'⟩ := hbehind
    rw [after_append, hstate, after_text hrun] at hstate'
    obtain rfl := ScanState.text.inj hstate'
    simpa using hclosed'
  obtain ⟨read, hread, rfl⟩ := (readElements_eq_ok hfirst).mp h
  rw [readOn, List.append_assoc] at hread
  obtain ⟨front, start, hstart, hscan⟩ := scanLines_through (not_broken_of_grow hread) fun _ => rfl
  rw [hstate] at hstart hscan
  -- in the text as it is, the run is a part of one token with the characters around it
  obtain ⟨cs, rest, rfl, hcs, hrest⟩ := exists_text_front after
  have hall : '<' ∉ run ++ cs := by
    rw [List.mem_append, not_or]
    exact ⟨hrun, hcs⟩
  rw [hscan, ← List.append_assoc run, scanLines_text_token hall hrest fun hnil _ =>
    hstart (congrArg ScanState.text hnil), grow_append] at hread
  obtain ⟨forest, hfront, hread⟩ := Result.bind_eq_ok.mp hread
  rw [grow_append, ← List.append_assoc] at hread
  obtain ⟨grown, htext, hread⟩ := Result.bind_eq_ok.mp hread
  obtain ⟨behind, htext, htail⟩ := (grow_textToken_eq_ok.mp htext).split hclosed'
  obtain ⟨here, hhead, hmiddle⟩ := htext.split hclosed
  refine ⟨here, behind, hmiddle, fun {mark token} hmark hstep => ?_⟩
  -- with the markup these characters make two tokens, one on each side
  obtain ⟨line', hmark⟩ := hmark (1 + before.count '\n') (cs ++ rest)
  obtain ⟨roots', hread', hunlined⟩ := readOn_unlined hread (line' + cs.count '\n')
  have hfirst' : (before ++ '<' :: mark ++ (cs ++ rest)).head? ≠ some byteOrderMark := by
    cases before with
    | nil => simp [byteOrderMark]
    | cons c before => exact hfirst
  refine ⟨roots'.reverse, (readElements_eq_ok hfirst').mpr ⟨roots', ?_, rfl⟩, ?_⟩
  · rw [readOn, List.append_assoc, List.cons_append, hscan,
      scanLines_text_markup fun hnil => hstart (congrArg ScanState.text hnil), hmark,
      scanLines_text_token hcs hrest fun _ _ => rfl, List.reverse_nil, List.nil_append,
      grow_append_of_ok hfront, grow_append_of_ok (grow_textToken_eq_ok.mpr hhead),
      grow_cons (hstep _), grow_append_of_ok (grow_textToken_eq_ok.mpr htail)]
    exact hread'
  · rw [List.map_reverse, hunlined, List.map_reverse]

/-! ## Comments and sections -/

def commentMarkup (content : List Char) : List Char :=
  "<!--".toList ++ content ++ "-->".toList

def dataMarkup (content : List Char) : List Char :=
  "<![CDATA[".toList ++ content ++ "]]>".toList

/-- Two equal characters and a `>` behind them close a comment and a section. -/
theorem infix_of_closing {x : Char} {front soFar : List Char} (back : List Char)
    (h : [x, x].isPrefixOf (front.reverse ++ soFar) = true) (hlong : 2 ≤ front.length) :
    [x, x, '>'] <:+: front ++ '>' :: back := by
  have hprefix : [x, x] <+: front.reverse :=
    List.prefix_of_prefix_length_le (List.isPrefixOf_iff_prefix.mp h) (List.prefix_append _ _)
      (by simpa using hlong)
  obtain ⟨more, hmore⟩ := hprefix
  refine ⟨more.reverse, back, ?_⟩
  rw [← List.reverse_reverse front, ← hmore]
  simp

theorem next_comment {c : Char} {soFar : List Char}
    (h : ¬(c = '>' ∧ 4 < soFar.length ∧ "--".toList.isPrefixOf soFar)) :
    (ScanState.comment soFar).next c = (.comment (c :: soFar), none) := by
  rw [ScanState.next, if_neg h]

/-- A comment ends at the first `-->` in it. -/
theorem scanLines_comment {content : List Char} (h : ¬"-->".toList <:+: content)
    (since line : Nat) (rest : List Char) :
    ∃ line', scanLines since line .opened
        ('!' :: '-' :: '-' :: (content ++ '-' :: '-' :: '>' :: rest)) =
      (since, .aside) :: scanLines line' line' (.text []) rest := by
  have hbang : ScanState.opened.next '!' = (.bang, none) := rfl
  have hopen : ScanState.bang.next '-' = (.comment ['-', '!'], none) := rfl
  have hdash : ∀ soFar, (ScanState.comment soFar).next '-' = (.comment ('-' :: soFar), none) :=
    fun soFar => next_comment fun h => absurd h.1 (by decide)
  have hkeep : ∀ front c back, content = front ++ c :: back →
      (ScanState.comment (front.reverse ++ ['-', '-', '!'])).next c =
        (.comment (c :: (front.reverse ++ ['-', '-', '!'])), none) := by
    rintro front c back rfl
    apply next_comment
    rintro ⟨rfl, hlength, hclosing⟩
    have hlong : 2 ≤ front.length := by
      simp only [List.length_append, List.length_reverse, List.length_cons, List.length_nil]
        at hlength
      omega
    exact h (infix_of_closing back hclosing hlong)
  have hend : (ScanState.comment ('-' :: '-' :: (content.reverse ++ ['-', '-', '!']))).next '>' =
      (.text [], some .aside) := by
    simp [ScanState.next, commentToken]
  rw [scanLines_keep hbang, scanLines_keep hopen, scanLines_keep (hdash _),
    scanLines_run_behind .comment hkeep, scanLines_keep (hdash _), scanLines_keep (hdash _),
    scanLines_emit hend (by simp)]
  exact ⟨_, rfl⟩

theorem next_data {c : Char} {soFar : List Char}
    (h : ¬(c = '>' ∧ "]]".toList.isPrefixOf soFar)) :
    (ScanState.data soFar).next c = (.data (c :: soFar), none) := by
  rw [ScanState.next, if_neg h]

/-- A section ends at the first `]]>` in it. -/
theorem scanLines_data {content : List Char} (h : ¬"]]>".toList <:+: content)
    (since line : Nat) (rest : List Char) :
    ∃ line', scanLines since line .opened
        ('!' :: '[' :: ("CDATA[".toList ++ (content ++ ']' :: ']' :: '>' :: rest))) =
      (since, .data content) :: scanLines line' line' (.text []) rest := by
  have hbang : ScanState.opened.next '!' = (.bang, none) := rfl
  have hopen : ScanState.bang.next '[' = (.data ['[', '!'], none) := rfl
  have hmark : ∀ c ∈ "CDATA[".toList, ∀ soFar,
      (ScanState.data soFar).next c = (.data (c :: soFar), none) := fun c hc soFar =>
    next_data fun h => absurd (h.1 ▸ hc) (by decide)
  have hbracket : ∀ soFar, (ScanState.data soFar).next ']' = (.data (']' :: soFar), none) :=
    fun soFar => next_data fun h => absurd h.1 (by decide)
  have hkeep : ∀ front c back, content = front ++ c :: back →
      (ScanState.data (front.reverse ++ "[ATADC[!".toList)).next c =
        (.data (c :: (front.reverse ++ "[ATADC[!".toList)), none) := by
    rintro front c back rfl
    apply next_data
    rintro ⟨rfl, hclosing⟩
    have hlong : 2 ≤ front.length := by
      rw [← List.length_reverse]
      match hfront : front.reverse with
      | [] => simp [hfront] at hclosing
      | [d] => simp [hfront] at hclosing
      | d :: e :: more => simp
    exact h (infix_of_closing back hclosing hlong)
  have hend : (ScanState.data (']' :: ']' :: (content.reverse ++ "[ATADC[!".toList))).next '>' =
      (.text [], some (.data content)) := by
    simp [ScanState.next, dataToken]
  rw [scanLines_keep hbang, scanLines_keep hopen, scanLines_run .data hmark]
  have hsoFar : "CDATA[".toList.reverse ++ ['[', '!'] = "[ATADC[!".toList := rfl
  rw [hsoFar, scanLines_run_behind .data hkeep, scanLines_keep (hbracket _),
    scanLines_keep (hbracket _), scanLines_emit hend (by simp)]
  exact ⟨_, rfl⟩

/-- A comment between characters. -/
theorem readElements_comment {before after content : List Char} {roots : List Element}
    (hbefore : Between before) (hcontent : ¬"-->".toList <:+: content)
    (hfirst : (before ++ after).head? ≠ some byteOrderMark)
    (h : readElements (before ++ after) = .ok roots) :
    ∃ roots', readElements (before ++ commentMarkup content ++ after) = .ok roots' ∧
      roots'.map Element.unlined = roots.map Element.unlined := by
  rw [← List.append_nil before] at hfirst h
  obtain ⟨here, behind, htakes, hreplaced⟩ :=
    readElements_replaced hbefore (by rwa [List.append_nil]) List.not_mem_nil hfirst h
  have hsame : behind = here := by
    rcases htakes with ⟨-, hsame⟩ | ⟨hne, -⟩
    · exact hsame
    · exact absurd rfl hne
  have hmark : ∀ line rest, ∃ line', scanLines line line .opened
      ('!' :: '-' :: '-' :: (content ++ "-->".toList) ++ rest) =
        (line, .aside) :: scanLines line' line' (.text []) rest := fun line rest => by
    simpa using scanLines_comment hcontent line line rest
  have hmarkup : commentMarkup content =
      '<' :: '!' :: '-' :: '-' :: (content ++ "-->".toList) :=
    List.append_assoc ['<', '!', '-', '-'] content _
  rw [hmarkup]
  exact hreplaced hmark fun line => congrArg Except.ok hsame.symm

/-- A run of character data written as a section. -/
theorem readElements_data {before run after : List Char} {roots : List Element}
    (hbefore : Between before) (hbehind : Between (before ++ run)) (hrun : '<' ∉ run)
    (hne : run ≠ []) (hfirst : (before ++ run ++ after).head? ≠ some byteOrderMark)
    (h : readElements (before ++ run ++ after) = .ok roots) :
    ∃ chars, unescape run = .ok chars ∧ (¬"]]>".toList <:+: chars →
      ∃ roots', readElements (before ++ dataMarkup chars ++ after) = .ok roots' ∧
        roots'.map Element.unlined = roots.map Element.unlined) := by
  obtain ⟨here, behind, htakes, hreplaced⟩ := readElements_replaced hbefore hbehind hrun hfirst h
  obtain ⟨chars, hchars, happend⟩ : ∃ chars, unescape run = .ok chars ∧
      ∀ line, here.append line chars = .ok behind := by
    rcases htakes with ⟨hnil, -⟩ | ⟨-, htakes⟩
    · exact absurd hnil hne
    · exact htakes
  refine ⟨chars, hchars, fun hcontent => ?_⟩
  have hmark : ∀ line rest, ∃ line', scanLines line line .opened
      ('!' :: '[' :: ("CDATA[".toList ++ (chars ++ "]]>".toList)) ++ rest) =
        (line, .data chars) :: scanLines line' line' (.text []) rest := fun line rest => by
    simpa using scanLines_data hcontent line line rest
  have hmarkup : dataMarkup chars =
      '<' :: '!' :: '[' :: ("CDATA[".toList ++ (chars ++ "]]>".toList)) :=
    List.append_assoc ('<' :: '!' :: '[' :: "CDATA[".toList) chars _
  rw [hmarkup]
  exact hreplaced hmark happend

/-- A text that can be read stays the same, but for lines, with a comment at any point between
characters, and with a section in place of any run of them: what the section holds is what the run
stands for. A comment must not hold `-->`, and a section not `]]>`. -/
theorem readElements_interrupted {text : List Char} {roots : List Element}
    (hmark : text.head? ≠ some byteOrderMark) (h : readElements text = .ok roots) :
    (∀ before after content, text = before ++ after → Between before →
      ¬"-->".toList <:+: content →
        ∃ roots', readElements (before ++ commentMarkup content ++ after) = .ok roots' ∧
          roots'.map Element.unlined = roots.map Element.unlined) ∧
      ∀ before run after, text = before ++ run ++ after → run ≠ [] → '<' ∉ run →
        Between before → Between (before ++ run) → ∃ chars, unescape run = .ok chars ∧
          (¬"]]>".toList <:+: chars →
            ∃ roots', readElements (before ++ dataMarkup chars ++ after) = .ok roots' ∧
              roots'.map Element.unlined = roots.map Element.unlined) := by
  constructor
  · rintro before after content rfl hbefore hcontent
    exact readElements_comment hbefore hcontent hmark h
  · rintro before run after rfl hne hrun hbefore hbehind
    exact readElements_data hbefore hbehind hrun hne hmark h

/-- Text with a reference in it, and an element behind it. -/
def remark : List Char := "<a>x &lt;y<b/>\n</a>".toList

theorem readElements_interrupted_remark :
    remark.head? ≠ some byteOrderMark ∧ ∃ roots, readElements remark = .ok roots ∧
      roots.map Element.name = ["a"] ∧
      (∃ roots', readElements "<a>x<!-- <c> &\n-> --> &lt;y<b/>\n</a>".toList = .ok roots' ∧
        roots'.map Element.unlined = roots.map Element.unlined) ∧
      ∃ roots', readElements "<a>x<![CDATA[ <y]]><b/>\n</a>".toList = .ok roots' ∧
        roots'.map Element.unlined = roots.map Element.unlined := by
  have hmark : remark.head? ≠ some byteOrderMark := by decide +kernel
  have hnames : (readElements remark).toOption.map (List.map Element.name) = some ["a"] := by
    decide +kernel
  have hbefore : Between "<a>x".toList := ⟨['x'], rfl, rfl⟩
  have hbehind : Between "<a>x &lt;y".toList := ⟨"y;tl& x".toList, rfl, rfl⟩
  have hchars : unescape " &lt;y".toList = .ok " <y".toList := by decide +kernel
  have hcommented : "<a>x<!-- <c> &\n-> --> &lt;y<b/>\n</a>".toList =
      "<a>x".toList ++ commentMarkup " <c> &\n-> ".toList ++ " &lt;y<b/>\n</a>".toList := by
    decide +kernel
  have hsection : "<a>x<![CDATA[ <y]]><b/>\n</a>".toList =
      "<a>x".toList ++ dataMarkup " <y".toList ++ "<b/>\n</a>".toList := by
    decide +kernel
  obtain ⟨roots, hread, hnames⟩ := Result.toOption_map_eq_some.mp hnames
  obtain ⟨hcomment, hdata⟩ := readElements_interrupted hmark hread
  refine ⟨hmark, roots, hread, hnames, ?_, ?_⟩
  · rw [hcommented]
    exact hcomment _ _ _ rfl hbefore (by decide +kernel)
  · obtain ⟨chars, hread', hrest⟩ := hdata "<a>x".toList " &lt;y".toList "<b/>\n</a>".toList rfl
      (by decide) (by decide) hbefore hbehind
    obtain rfl := Except.ok.inj (hchars.symm.trans hread')
    rw [hsection]
    exact hrest (by decide +kernel)

end PlanArchive.Markup
