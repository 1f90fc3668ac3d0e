import PlanArchive.Proofs.Markup.Head
import PlanArchive.Proofs.Markup.ReadAs

/-!
# Printed elements read back

A well-formed element that is printed and read again comes back as it was, except that it now has
line numbers and that an empty text is no text (`readElements_render_alone`; after a header,
`readElements_document`). In another spelling the same comes back, only with its names as they are
spelled (`readElements_spelled`). The proof follows the reader through the printed element from an
arbitrary state of its stack.
-/

namespace PlanArchive.Markup

namespace Element

theorem print_empty (depth : Nat) (name : String) (attributes : List (String × String))
    (line : Nat) :
    print depth ⟨name, attributes, none, [], line⟩ =
      '<' :: (printHead name attributes ++ ['/', '>']) := by
  simp [print]

theorem print_text (depth : Nat) (name : String) (attributes : List (String × String))
    (text : String) (line : Nat) :
    print depth ⟨name, attributes, some text, [], line⟩ =
      '<' :: (printHead name attributes ++
        '>' :: (escape text.toList ++ '<' :: '/' :: (name.toList ++ ['>']))) := by
  simp [print]

theorem print_children (depth : Nat) (name : String) (attributes : List (String × String))
    {children : List Element} (h : children ≠ []) (line : Nat) :
    print depth ⟨name, attributes, none, children, line⟩ =
      '<' :: (printHead name attributes ++
        '>' :: (printChildren (depth + 1) children ++
          (newLine depth ++ '<' :: '/' :: (name.toList ++ ['>'])))) := by
  cases children with
  | nil => exact absurd rfl h
  | cons child rest => simp [print, printChildren, escape]

theorem exists_print (depth : Nat) (e : Element) : ∃ cs, e.print depth = '<' :: cs := by
  obtain ⟨name, attributes, text, children, line⟩ := e
  cases children <;> cases text <;> exact ⟨_, by simp only [print]; rfl⟩

section

variable (s : Spelling)

theorem text_print_empty (depth : Nat) (name : String) (attributes : List (String × String))
    (line : Nat) :
    s.text (print depth ⟨name, attributes, none, [], line⟩) =
      '<' :: (s.text (printHead name attributes) ++ ['/', '>']) := by
  simp (disch := decide) only [print_empty, s.text_ascii_cons, s.text_append, s.text_nil]

theorem text_print_text (depth : Nat) (name : String) (attributes : List (String × String))
    (text : String) (line : Nat) :
    s.text (print depth ⟨name, attributes, some text, [], line⟩) =
      '<' :: (s.text (printHead name attributes) ++
        '>' :: (s.text (escape text.toList) ++ '<' :: '/' :: (s.text name.toList ++ ['>']))) := by
  simp (disch := decide) only [print_text, s.text_ascii_cons, s.text_append, s.text_nil]

theorem text_newLine (depth : Nat) : s.text (newLine depth) = newLine depth := by
  refine s.text_ascii (List.forall_mem_cons.mpr ⟨by decide, fun c hc => ?_⟩)
  rw [List.eq_of_mem_replicate hc]
  decide

theorem text_print_children (depth : Nat) (name : String) (attributes : List (String × String))
    {children : List Element} (h : children ≠ []) (line : Nat) :
    s.text (print depth ⟨name, attributes, none, children, line⟩) =
      '<' :: (s.text (printHead name attributes) ++
        '>' :: (s.text (printChildren (depth + 1) children) ++
          (newLine depth ++ '<' :: '/' :: (s.text name.toList ++ ['>'])))) := by
  simp (disch := decide) only [print_children _ _ _ h, s.text_ascii_cons, s.text_append,
    s.text_nil, text_newLine]

theorem exists_text_print (depth : Nat) (e : Element) :
    ∃ cs, s.text (e.print depth) = '<' :: cs := by
  obtain ⟨cs, hcs⟩ := e.exists_print depth
  exact ⟨s.text cs, by rw [hcs, s.text_ascii_cons (by decide)]⟩

end

end Element

/-! ## The reader at work -/

/-- Reading with elements under way, from the line `line` on. -/
def readOn (forest : Forest) (line : Nat) (cs : List Char) : Except Problem Forest :=
  forest.grow (scanLines line line (.text []) cs)

theorem grow_cons {forest forest' : Forest} {line : Nat} {token : Token}
    (h : forest.step line token = .ok forest') (rest : List (Nat × Token)) :
    forest.grow ((line, token) :: rest) = forest'.grow rest := by
  rw [Forest.grow, h]
  rfl

section

variable (s : Spelling) (forest : Forest) {name : String} {attributes : List (String × String)}

theorem readOn_start (hname : isName name = true)
    (hnames : ∀ pair ∈ attributes, isName pair.1 = true) (hnodup : (Keyed.keys attributes).Nodup)
    (line : Nat) (rest : List Char) :
    readOn forest line ('<' :: (s.text (printHead name attributes) ++ '>' :: rest)) =
      readOn { forest with
          stack := ({ name, attributes, line } : Element).respelled s :: forest.stack }
        (line + (printHead name attributes).count '\n') rest := by
  rw [readOn, scanLines_open, scanLines_start s hname hnames]
  refine grow_cons ?_ _
  rw [Forest.step, openTag_printHead s hname hnames hnodup, Element.respelled_mk]
  rfl

theorem readOn_empty (hname : isName name = true)
    (hnames : ∀ pair ∈ attributes, isName pair.1 = true) (hnodup : (Keyed.keys attributes).Nodup)
    (line : Nat) (rest : List Char) :
    readOn forest line ('<' :: (s.text (printHead name attributes) ++ '/' :: '>' :: rest)) =
      readOn (forest.attach (({ name, attributes, line } : Element).respelled s))
        (line + (printHead name attributes).count '\n') rest := by
  rw [readOn, scanLines_open, scanLines_empty s hname hnames]
  refine grow_cons ?_ _
  rw [Forest.step, openTag_printHead s hname hnames hnodup, Element.respelled_mk]
  rfl

theorem readOn_end {e : Element} (outer roots : List Element) (hname : e.name = name)
    (h : isName name = true) (line : Nat) (rest : List Char) :
    readOn ⟨e.respelled s :: outer, roots⟩ line
        ('<' :: '/' :: (s.text name.toList ++ '>' :: rest)) =
      readOn (Forest.attach ((closed e).respelled s) ⟨outer, roots⟩) line rest := by
  rw [readOn, scanLines_open, scanLines_end s h]
  refine grow_cons ?_ _
  simp only [Forest.step, Element.name_respelled, s.toList_name, hname, if_pos,
    Element.respelled_closed]

/-- Escaped text is added to the innermost element. -/
theorem readOn_text (e : Element) (outer roots : List Element) {text : List Char}
    (hne : text ≠ []) (line : Nat) (rest : List Char) :
    readOn ⟨e.respelled s :: outer, roots⟩ line (s.text (escape text) ++ '<' :: rest) =
      readOn ⟨(addText (String.ofList text) e).respelled s :: outer, roots⟩
        (line + (escape text).count '\n') ('<' :: rest) := by
  have hlt : '<' ∉ s.text (escape text) :=
    s.not_mem_text (by decide) (not_mem_escape (by decide) (by decide) _)
  have hescape : s.text (escape text) ≠ [] := fun h =>
    hne (escape_eq_nil_iff.mp (s.text_eq_nil_iff.mp h))
  rw [readOn, scanLines_text_open hlt hescape, readOn, scanLines_open, s.count_text]
  refine grow_cons ?_ _
  rw [Forest.step, s.unescape_spelled, Element.respelled_addText]
  rfl

end

/-! ## Line ends between children -/

theorem escape_newLine (depth : Nat) : escape (newLine depth) = newLine depth := by
  have hspaces : ∀ n, escape (List.replicate n ' ') = List.replicate n ' ' := by
    intro n
    induction n with
    | zero => rfl
    | succ n ih =>
      rw [List.replicate_succ]
      exact congrArg (List.cons ' ') ih
  exact congrArg (List.cons '\n') (hspaces _)

theorem allBlank_newLine (depth : Nat) : Text.allBlank (newLine depth) = true := by
  simp only [Text.allBlank, newLine, List.all_cons, Bool.and_eq_true, List.all_eq_true]
  refine ⟨by decide, fun c hc => ?_⟩
  rw [List.eq_of_mem_replicate hc]
  decide

/-- The element `e` has since taken in some blank text and some children. -/
structure Underway (e e' : Element) (children : List Element) : Prop where
  name : e'.name = e.name
  attributes : e'.attributes = e.attributes
  line : e'.line = e.line
  allBlank : Text.allBlank e'.content.toList = true
  children : e'.children = children.reverse ++ e.children

theorem Underway.start (name : String) (attributes : List (String × String)) (line : Nat) :
    Underway { name, attributes, line } { name, attributes, line } [] :=
  ⟨rfl, rfl, rfl, rfl, rfl⟩

/-- Blank text is dropped at the end tag of an element with children. -/
theorem Underway.closed_eq {e e' : Element} {children : List Element}
    (h : Underway e e' children) (hne : children ≠ []) :
    closed e' = { e with text := none, children := e.children.reverse ++ children } := by
  obtain ⟨name, attributes, text, kept, line⟩ := e'
  obtain ⟨rfl, rfl, rfl, hblank, rfl⟩ := h
  simp [closed, hblank, hne]

theorem Underway.addText_blank {e e' : Element} {children : List Element}
    (h : Underway e e' children) {text : List Char} (ht : Text.allBlank text = true) :
    Underway e (addText (String.ofList text) e') children where
  name := h.name
  attributes := h.attributes
  line := h.line
  children := h.children
  allBlank := by
    have := h.allBlank
    simp only [Text.allBlank, Element.content] at this ht ⊢
    simp [addText, Element.content, this, ht]

theorem Underway.addChild {e e' : Element} {children : List Element}
    (h : Underway e e' children) (child : Element) :
    Underway e (addChild child e') (children ++ [child]) where
  name := h.name
  attributes := h.attributes
  line := h.line
  allBlank := h.allBlank
  children := by simp [Markup.addChild, h.children]

theorem readOn_newLine (s : Spelling) (e : Element) (outer roots : List Element) (depth : Nat)
    (line : Nat) (rest : List Char) :
    readOn ⟨e.respelled s :: outer, roots⟩ line (newLine depth ++ '<' :: rest) =
      readOn ⟨(addText (String.ofList (newLine depth)) e).respelled s :: outer, roots⟩
        (line + (newLine depth).count '\n') ('<' :: rest) := by
  have hne : newLine depth ≠ [] := by simp [newLine]
  have h := readOn_text s e outer roots hne line rest
  rwa [escape_newLine, Element.text_newLine] at h

/-! ## Elements -/

/-- An element is read back wherever it is printed, the same in every spelling but for its names. -/
def ReadsBack (e : Element) : Prop :=
  ∀ depth line : Nat, ∃ e', e.ReadAs e' ∧
    ∀ (s : Spelling) (forest : Forest) (rest : List Char),
      readOn forest line (s.text (e.print depth) ++ rest) =
        readOn (forest.attach (e'.respelled s)) (line + (e.print depth).count '\n') rest

theorem readOn_children {children : List Element} (h : ∀ child ∈ children, ReadsBack child)
    (depth : Nat) {e e' : Element} {before : List Element} (he : Underway e e' before)
    (line : Nat) :
    ∃ e'' more, Underway e e'' (before ++ more) ∧ List.Forall₂ Element.ReadAs children more ∧
      ∀ (s : Spelling) (outer roots : List Element) (rest : List Char),
        readOn ⟨e'.respelled s :: outer, roots⟩ line
            (s.text (printChildren depth children) ++ rest) =
          readOn ⟨e''.respelled s :: outer, roots⟩
            (line + (printChildren depth children).count '\n') rest := by
  induction children generalizing e' before line with
  | nil => exact ⟨e', [], by simpa using he, .nil, fun _ _ _ _ => rfl⟩
  | cons child children ih =>
    obtain ⟨child', hchild, hread⟩ := h child (List.mem_cons_self ..) depth
      (line + (newLine depth).count '\n')
    obtain ⟨e'', more, hunder, hmore, hrest⟩ :=
      ih (fun c hc => h c (List.mem_cons_of_mem _ hc))
        ((he.addText_blank (allBlank_newLine depth)).addChild child')
        (line + (newLine depth).count '\n' + (child.print depth).count '\n')
    refine ⟨e'', child' :: more, by simpa using hunder, .cons hchild hmore,
      fun s outer roots rest => ?_⟩
    obtain ⟨cs, hcs⟩ := child.exists_text_print s depth
    have hnext := hread s
      ⟨(addText (String.ofList (newLine depth)) e').respelled s :: outer, roots⟩
      (s.text (printChildren depth children) ++ rest)
    have hline : line + (printChildren depth (child :: children)).count '\n' =
        line + (newLine depth).count '\n' + (child.print depth).count '\n' +
          (printChildren depth children).count '\n' := by
      rw [printChildren, List.count_append, List.count_append]
      omega
    rw [hline, ← hrest, Element.respelled_addChild, printChildren, s.text_append, s.text_append,
      Element.text_newLine, List.append_assoc, List.append_assoc, hcs, List.cons_append,
      readOn_newLine, ← List.cons_append, ← hcs, hnext]
    rfl

theorem readsBack_of_no_children {name : String} {attributes : List (String × String)}
    (text : Option String) (line : Nat) (hname : isName name = true)
    (hnames : ∀ pair ∈ attributes, isName pair.1 = true)
    (hnodup : (Keyed.keys attributes).Nodup) : ReadsBack ⟨name, attributes, text, [], line⟩ := by
  intro depth here
  cases text with
  | none =>
    refine ⟨{ name, attributes, line := here }, Element.readAs_mk.mpr ⟨rfl, rfl, rfl, .nil⟩,
      fun s forest rest => ?_⟩
    have hline : (Element.print depth ⟨name, attributes, none, [], line⟩).count '\n' =
        (printHead name attributes).count '\n' := by
      simp [Element.print_empty]
    have h := readOn_empty s forest hname hnames hnodup here rest
    rw [hline, ← h, Element.text_print_empty]
    simp
  | some text =>
    have hline : (Element.print depth ⟨name, attributes, some text, [], line⟩).count '\n' =
        (printHead name attributes).count '\n' + (escape text.toList).count '\n' := by
      simp [Element.print_text, count_name hname]
    by_cases hempty : text.toList = []
    · -- no token comes between the two tags
      refine ⟨{ name, attributes, line := here }, ?_, fun s forest rest => ?_⟩
      · have htext : text = "" := String.toList_eq_nil_iff.mp hempty
        rw [htext]
        exact Element.readAs_mk.mpr ⟨rfl, rfl, rfl, .nil⟩
      · have hsame : ({ name, attributes, line := here } : Element).name = name := rfl
        rw [hline, Element.text_print_text, escape_eq_nil_iff.mpr hempty]
        simp only [List.cons_append, List.append_assoc, List.nil_append]
        rw [readOn_start s forest hname hnames hnodup, s.text_nil, List.nil_append,
          readOn_end s _ _ hsame hname]
        rfl
    · refine ⟨{ name, attributes, text := some text, line := here }, ?_, fun s forest rest => ?_⟩
      · have htext : text ≠ "" := fun h => hempty (by simp [h])
        refine Element.readAs_mk.mpr ⟨rfl, rfl, ?_, .nil⟩
        rw [Element.dropEmpty, if_neg (by simp [htext])]
      · have hsame : (addText (String.ofList text.toList)
          { name, attributes, line := here }).name = name := rfl
        rw [hline, Element.text_print_text]
        simp only [List.cons_append, List.append_assoc, List.nil_append]
        rw [readOn_start s forest hname hnames hnodup, readOn_text s _ _ _ hempty,
          readOn_end s _ _ hsame hname, Nat.add_assoc]
        simp [closed, addText, Element.content]

theorem readsBack_of_children {name : String} {attributes : List (String × String)}
    {children : List Element} (line : Nat) (hname : isName name = true)
    (hnames : ∀ pair ∈ attributes, isName pair.1 = true)
    (hnodup : (Keyed.keys attributes).Nodup) (hne : children ≠ [])
    (h : ∀ child ∈ children, ReadsBack child) :
    ReadsBack ⟨name, attributes, none, children, line⟩ := by
  intro depth here
  obtain ⟨e', more, hunder, hmore, hchildren⟩ := readOn_children h (depth + 1)
    (Underway.start name attributes here) (here + (printHead name attributes).count '\n')
  have hlast := hunder.addText_blank (allBlank_newLine depth)
  have hne' : more ≠ [] := by
    rintro rfl
    exact hne (List.forall₂_nil_right_iff.mp hmore)
  have hclosed : closed (addText (String.ofList (newLine depth)) e') =
      ⟨name, attributes, none, more, here⟩ := by
    rw [hlast.closed_eq (by simpa using hne')]
    rfl
  refine ⟨⟨name, attributes, none, more, here⟩,
    Element.readAs_mk.mpr ⟨rfl, rfl, rfl, hmore⟩, fun s forest rest => ?_⟩
  have hline : here + (Element.print depth ⟨name, attributes, none, children, line⟩).count '\n' =
      here + (printHead name attributes).count '\n' +
        (printChildren (depth + 1) children).count '\n' + (newLine depth).count '\n' := by
    simp [Element.print_children _ _ _ hne, count_name hname]
    omega
  rw [hline, Element.text_print_children s _ _ _ hne]
  simp only [List.cons_append, List.append_assoc, List.nil_append]
  rw [readOn_start s forest hname hnames hnodup, hchildren, readOn_newLine,
    readOn_end s _ _ hlast.name hname, hclosed]

/-- Every well-formed element is read back as it was. -/
theorem readsBack_of_wellFormed {e : Element} (h : e.WellFormed) : ReadsBack e := by
  induction h with
  | @mk name attributes text children line hname hkeys hnodup htext _ ih =>
    by_cases hchildren : children = []
    · subst hchildren
      exact readsBack_of_no_children text line hname hkeys hnodup
    · obtain rfl : text = none := htext.resolve_right hchildren
      exact readsBack_of_children line hname hkeys hnodup hchildren ih

/-! ## Whole texts -/

theorem readElements_eq {cs : List Char} (h : cs.head? ≠ some byteOrderMark) :
    readElements cs = (readOn {} 1 cs).bind Forest.finish := by
  rw [readElements, numberedTokens_eq h]
  rfl

theorem readOn_blank_end (roots : List Element) (line : Nat) :
    readOn ⟨[], roots⟩ line ['\n'] = .ok ⟨[], roots⟩ := by
  rw [readOn, scanLines_text_end (by decide) (by decide)]
  rfl

/-- A printed element is read first, then whatever follows it. -/
theorem readElements_render_append {e : Element} (h : e.WellFormed) :
    ∃ e', e.ReadAs e' ∧ ∀ rest : List Char,
      readElements (e.render ++ rest) =
        (readOn ⟨[], [e']⟩ (1 + e.render.count '\n') rest).bind Forest.finish := by
  obtain ⟨cs, hcs⟩ := e.exists_print 0
  obtain ⟨e', he', hread⟩ := readsBack_of_wellFormed h 0 1
  refine ⟨e', he', fun rest => ?_⟩
  have hplain := hread .plain {} rest
  rw [Spelling.text_plain, Element.respelled_plain] at hplain
  have hfirst : (e.render ++ rest).head? ≠ some byteOrderMark := by
    simp [Element.render, hcs, byteOrderMark]
  rw [readElements_eq hfirst, Element.render, hplain]
  rfl

/-- An element alone in a text reads back: from what is printed for it one element is read, the same
but for line numbers and empty texts. -/
theorem readElements_render_alone {e : Element} (h : e.WellFormed) :
    ∃ e', readElements e.render = .ok [e'] ∧ e'.unlined = e.bare := by
  obtain ⟨e', he', hread⟩ := readElements_render_append h
  have hend := hread []
  rw [List.append_nil] at hend
  exact ⟨e', hend, he'⟩

/-- A blank text, an empty one, one full of signs, and an attribute that ends its own line. -/
def mixed : Element where
  name := "a"
  children := [{ name := "b", text := some " \n\t" }, { name := "c", text := some "" },
    { name := "d",
      attributes := [("k", "\"<&>'\n"), ("l", "")],
      children := [{ name := "e", text := some "<e k=\"&amp;\"/>\r\n" }] }]

theorem readElements_render_mixed :
    mixed.WellFormed ∧
      ∃ e', readElements mixed.render = .ok [e'] ∧ e'.unlined =
        { name := "a",
          children := [{ name := "b", text := some " \n\t" }, { name := "c" },
            { name := "d",
              attributes := [("k", "\"<&>'\n"), ("l", "")],
              children := [{ name := "e", text := some "<e k=\"&amp;\"/>\r\n" }] }] } := by
  have hmixed : mixed.WellFormed := by
    refine .mk (by decide) (by decide) (by decide) (.inl rfl) ?_
    simp only [List.forall_mem_cons, List.not_mem_nil, false_imp_iff, implies_true, and_true]
    refine ⟨.mk (by decide) (by decide) (by decide) (.inr rfl) (by simp),
      .mk (by decide) (by decide) (by decide) (.inr rfl) (by simp),
      .mk (by decide) (by decide) (by decide) (.inl rfl) ?_⟩
    simp only [List.forall_mem_cons, List.not_mem_nil, false_imp_iff, implies_true, and_true]
    exact .mk (by decide) (by decide) (by decide) (.inr rfl) (by simp)
  exact ⟨hmixed, readElements_render_alone hmixed⟩

/-- An element that ends its line reads back. -/
theorem readElements_render {e : Element} (h : e.WellFormed) :
    ∃ e', e.ReadAs e' ∧ readElements (e.render ++ ['\n']) = .ok [e'] := by
  obtain ⟨e', he', hread⟩ := readElements_render_append h
  refine ⟨e', he', ?_⟩
  rw [hread]
  exact congrArg (Except.bind · Forest.finish) (readOn_blank_end [e'] _)

/-- A header is skipped. -/
theorem readOn_header {header : List Char} (hheader : '>' ∉ header) (line : Nat) (cs : List Char) :
    readOn {} line ('<' :: '?' :: (header ++ '?' :: '>' :: '\n' :: '<' :: cs)) =
      readOn {} (line + header.count '\n' + 1) ('<' :: cs) := by
  have haside : ∀ line, ({} : Forest).step line .aside = .ok {} := fun _ => rfl
  have hbreaks : ∀ line, ({} : Forest).step line (.text ['\n']) = .ok {} := fun _ => rfl
  have hbreak : '<' ∉ ['\n'] := by decide
  have hline := scanLines_text_open hbreak (by decide) (line + header.count '\n')
    (line + header.count '\n') cs
  rw [List.singleton_append] at hline
  rw [readOn, scanLines_open, scanLines_instruction hheader]
  refine (grow_cons (haside _) _).trans ?_
  rw [readOn, scanLines_open, hline]
  exact grow_cons (hbreaks _) _

/-- An element reads back after a header, in every spelling the same but for its names. -/
theorem readElements_spelled {e : Element} (h : e.WellFormed) :
    ∃ e', e.ReadAs e' ∧ ∀ (s : Spelling) {header : List Char}, '>' ∉ header → '\n' ∉ header →
      readElements ('<' :: '?' :: (header ++ '?' :: '>' :: '\n' :: (s.text e.render ++ ['\n']))) =
        .ok [e'.respelled s] := by
  obtain ⟨e', he', hread⟩ := readsBack_of_wellFormed h 0 2
  refine ⟨e', he', fun s header hheader hfeed => ?_⟩
  obtain ⟨cs, hcs⟩ := e.exists_text_print s 0
  have hnone : header.count '\n' = 0 := List.count_eq_zero_of_not_mem hfeed
  have helement := hread s {} ['\n']
  rw [hcs, List.cons_append] at helement
  rw [readElements_eq (by simp [byteOrderMark]), Element.render, hcs, List.cons_append,
    readOn_header hheader, hnone, helement]
  exact congrArg (Except.bind · Forest.finish) (readOn_blank_end [e'.respelled s] _)

/-- An element reads back after a header. -/
theorem readElements_document {e : Element} (h : e.WellFormed) {header : List Char}
    (hheader : '>' ∉ header) (hfeed : '\n' ∉ header) :
    ∃ e', e.ReadAs e' ∧
      readElements ('<' :: '?' :: (header ++ '?' :: '>' :: '\n' :: (e.render ++ ['\n']))) =
        .ok [e'] := by
  obtain ⟨e', he', hread⟩ := readElements_spelled h
  refine ⟨e', he', ?_⟩
  have hplain := hread .plain hheader hfeed
  rwa [Spelling.text_plain, Element.respelled_plain] at hplain

/-! ## Elements line by line -/

/-- Elements on lines of their own are laid out as children that are not indented. -/
theorem printChildren_lines (es : List Element) :
    '\n' :: es.flatMap (fun e => e.render ++ ['\n']) = printChildren 0 es ++ newLine 0 := by
  induction es with
  | nil => rfl
  | cons e es ih =>
    rw [List.flatMap_cons, printChildren, List.append_assoc, List.append_assoc, ← ih]
    simp [newLine, Element.render]

/-- Elements that stand on lines of their own between the tags of another one are read back as its
children. -/
theorem readElements_lines {es : List Element} (h : ∀ e ∈ es, e.WellFormed) {header : List Char}
    (hheader : '>' ∉ header) {name : String} {attributes : List (String × String)}
    (hname : isName name = true) (hnames : ∀ pair ∈ attributes, isName pair.1 = true)
    (hnodup : (Keyed.keys attributes).Nodup) :
    ∃ root, root.name = name ∧ root.attributes = attributes ∧
      List.Forall₂ Element.ReadAs es root.children ∧
        readElements ('<' :: '?' :: (header ++ '?' :: '>' :: '\n' :: '<' ::
          (printHead name attributes ++ '>' :: '\n' ::
            (es.flatMap (fun e => e.render ++ ['\n']) ++
              '<' :: '/' :: (name.toList ++ ['>', '\n']))))) = .ok [root] := by
  rw [readElements_eq (by simp [byteOrderMark])]
  have hlines := congrArg (· ++ '<' :: '/' :: (name.toList ++ ['>', '\n'])) (printChildren_lines es)
  simp only [List.cons_append, List.append_assoc] at hlines
  rw [hlines, readOn_header hheader]
  generalize 1 + header.count '\n' + 1 = line
  obtain ⟨e', children, hunder, hchildren, hread⟩ :=
    readOn_children (fun e he => readsBack_of_wellFormed (h e he)) 0
      (Underway.start name attributes line) (line + (printHead name attributes).count '\n')
  have hlast := hunder.addText_blank (allBlank_newLine 0)
  have hstart := readOn_start .plain {} hname hnames hnodup line
    (printChildren 0 es ++ (newLine 0 ++ '<' :: '/' :: (name.toList ++ ['>', '\n'])))
  have hinner := hread .plain [] [] (newLine 0 ++ '<' :: '/' :: (name.toList ++ ['>', '\n']))
  have hbreak := fun line => readOn_newLine .plain e' [] [] 0 line
    ('/' :: (name.toList ++ ['>', '\n']))
  have hend := fun line => readOn_end .plain [] [] hlast.name hname line ['\n']
  simp only [Spelling.text_plain, Element.respelled_plain] at hstart hinner hbreak hend
  refine ⟨closed (addText (String.ofList (newLine 0)) e'), hlast.name, hlast.attributes, ?_, ?_⟩
  · have hkept : (closed (addText (String.ofList (newLine 0)) e')).children = children := by
      rw [closed, hlast.children]
      simp
    rwa [hkept]
  · rw [hstart, hinner, hbreak, hend]
    exact congrArg (Except.bind · Forest.finish) (readOn_blank_end _ _)

end PlanArchive.Markup
