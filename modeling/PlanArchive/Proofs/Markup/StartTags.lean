import PlanArchive.Proofs.Markup.Append
import PlanArchive.Proofs.Related

/-!
# Elements and their start tags

Reading a text opens one element at each start tag, in the order of the tags, and gives it the line
of the `<`, counted from one (`readElements_line`). The scanner finds the start tags of the text
(`openings_scanLines`), and the forest keeps what they opened (`openings_step`): closing an element,
attaching it and joining its text leave the names, attributes and lines in document order.
-/

namespace PlanArchive.Markup

/-! ## The start tags of a text -/

def ScanState.inText : ScanState → Bool
  | .text _ => true
  | _ => false

/-- What stands in front of the `>` that ends a tag; one in quotes does not. -/
def tagContent (quote : Option Char) : List Char → List Char
  | [] => []
  | c :: rest =>
    if c = '>' ∧ quote = none then [] else c :: tagContent (toggleQuote c quote) rest

/-- The content without the slash of an empty element. -/
def withoutSlash (content : List Char) : List Char :=
  if content.getLast? = some '/' then content.dropLast else content

/-- The content of the start tag whose `<` stands in front of the text, unless something else
starts with it. -/
def tagBehind (rest : List Char) : Option (List Char) :=
  if rest.head? ∈ [some '!', some '?', some '/'] then none
  else some (withoutSlash (tagContent none rest))

/-- A start tag: the text in front of its `<`, and its content. -/
structure StartTag where
  before : List Char
  content : List Char

/-- The line of the `<`. -/
def StartTag.line (tag : StartTag) : Nat := 1 + tag.before.count '\n'

def StartTag.lined (tag : StartTag) : Nat × List Char := (tag.line, tag.content)

/-- Start tags have their `<` in character data. -/
def startTagsFrom (before : List Char) (state : ScanState) : List Char → List StartTag
  | [] => []
  | c :: rest =>
    (if c = '<' ∧ state.inText then (tagBehind rest).map (⟨before, ·⟩) else none).toList ++
      startTagsFrom (before ++ [c]) (state.next c).1 rest

/-- The start tags of a text in their order. -/
def startTags (text : List Char) : List StartTag := startTagsFrom [] (.text []) text

theorem mem_startTagsFrom {before : List Char} {state : ScanState} {cs : List Char}
    {tag : StartTag} :
    tag ∈ startTagsFrom before state cs ↔
      ∃ front rest, cs = front ++ '<' :: rest ∧ tag.before = before ++ front ∧
        (state.after front).inText ∧ tagBehind rest = some tag.content := by
  induction cs generalizing before state with
  | nil => simp [startTagsFrom]
  | cons c cs ih =>
    rw [startTagsFrom, List.mem_append, ih]
    constructor
    · rintro (htag | ⟨front, rest, rfl, hbefore, htext, hcontent⟩)
      · split at htag
        · rename_i hc
          obtain ⟨rfl, htext⟩ := hc
          obtain ⟨content, hcontent, rfl⟩ := Option.map_eq_some_iff.mp (Option.mem_toList.mp htag)
          exact ⟨[], cs, rfl, (List.append_nil before).symm, htext, hcontent⟩
        · cases htag
      · exact ⟨c :: front, rest, rfl, by rw [hbefore, List.append_assoc]; rfl, htext, hcontent⟩
    · rintro ⟨front, rest, hcs, hbefore, htext, hcontent⟩
      cases front with
      | nil =>
        obtain ⟨rfl, rfl⟩ := List.cons.inj hcs
        obtain ⟨tagBefore, content⟩ := tag
        obtain rfl : tagBefore = before := hbefore.trans (List.append_nil before)
        refine .inl (Option.mem_toList.mpr ?_)
        rw [if_pos ⟨rfl, htext⟩, hcontent]
        rfl
      | cons d front =>
        obtain ⟨rfl, rfl⟩ := List.cons.inj hcs
        exact .inr ⟨front, rest, rfl, by rw [hbefore, List.append_assoc]; rfl, htext, hcontent⟩

/-- A start tag is a `<` in character data that no other mark follows. -/
theorem mem_startTags {text : List Char} {tag : StartTag} :
    tag ∈ startTags text ↔ ∃ rest, text = tag.before ++ '<' :: rest ∧
      ((ScanState.text []).after tag.before).inText ∧ tagBehind rest = some tag.content := by
  refine mem_startTagsFrom.trans ⟨?_, ?_⟩
  · rintro ⟨front, rest, htext, rfl, hbehind⟩
    exact ⟨rest, htext, hbehind⟩
  · rintro ⟨rest, htext, hbehind⟩
    exact ⟨tag.before, rest, htext, rfl, hbehind⟩

/-! ## The start tags among the tokens -/

/-- The tokens that open elements. -/
def openings (tokens : List (Nat × Token)) : List (Nat × List Char) :=
  tokens.filterMap fun
    | (line, .start content) => some (line, content)
    | (line, .empty content) => some (line, content)
    | _ => none

/-- The content of the start tag under way. -/
def ScanState.tagUnderway : ScanState → List Char → Option (List Char)
  | .opened, rest => tagBehind rest
  | .tag soFar quote, rest => some (withoutSlash (soFar.reverse ++ tagContent quote rest))
  | _, _ => none

theorem openings_append (front back : List (Nat × Token)) :
    openings (front ++ back) = openings front ++ openings back :=
  List.filterMap_append

theorem openings_cons (token : Nat × Token) (tokens : List (Nat × Token)) :
    openings (token :: tokens) = openings [token] ++ openings tokens :=
  openings_append [token] tokens

theorem openings_tagToken (line : Nat) (soFar : List Char) :
    openings [(line, tagToken soFar)] = [(line, withoutSlash soFar.reverse)] := by
  cases soFar with
  | nil => rfl
  | cons c soFar =>
    by_cases hc : c = '/'
    · subst hc
      simp [openings, tagToken, withoutSlash]
    · have htoken : tagToken (c :: soFar) = .start (c :: soFar).reverse := by
        simp [tagToken, hc]
      simp [htoken, openings, withoutSlash, hc]

/-- No other token opens an element. -/
theorem openings_closeToken (line : Nat) (soFar : List Char) :
    openings [(line, closeToken soFar)] = [] := by
  unfold closeToken
  split <;> rfl

theorem openings_commentToken (line : Nat) (content : List Char) :
    openings [(line, commentToken content)] = [] := by
  unfold commentToken
  split <;> rfl

theorem openings_dataToken (line : Nat) (soFar : List Char) :
    openings [(line, dataToken soFar)] = [] := by
  simp only [dataToken]
  split <;> rfl

theorem openings_doctypeToken (line : Nat) (content : List Char) :
    openings [(line, doctypeToken content)] = [] := by
  unfold doctypeToken
  repeat' split
  all_goals rfl

/-- One character outside of character data goes on with the tag under way or ends it. -/
theorem tagUnderway_next {state : ScanState} (htext : state.inText = false) (c : Char)
    (rest : List Char) :
    (∃ state', state.next c = (state', none) ∧
        state'.tagUnderway rest = state.tagUnderway (c :: rest)) ∨
      (∃ token, state.next c = (.text [], some token) ∧ ∀ line,
        openings [(line, token)] = ((state.tagUnderway (c :: rest)).map (line, ·)).toList) := by
  cases state with
  | text soFar => cases htext
  | opened =>
    by_cases hc : c = '!' ∨ c = '?' ∨ c = '/'
    · left
      rcases hc with rfl | rfl | rfl <;> exact ⟨_, rfl, rfl⟩
    · rw [not_or, not_or] at hc
      by_cases hgt : c = '>'
      · subst hgt
        exact .inr ⟨.start [], rfl, fun line => rfl⟩
      · refine .inl ⟨.tag [c] (toggleQuote c none), by simp [ScanState.next, hc, hgt], ?_⟩
        simp [ScanState.tagUnderway, tagBehind, hc, tagContent, hgt]
  | tag soFar quote =>
    simp only [ScanState.next, ScanState.tagUnderway, tagContent]
    split
    · exact .inr ⟨_, rfl, fun line => by simp [openings_tagToken]⟩
    · exact .inl ⟨_, rfl, by simp⟩
  | close soFar quote =>
    simp only [ScanState.next]
    split
    · exact .inr ⟨_, rfl, fun line => openings_closeToken line soFar⟩
    · exact .inl ⟨_, rfl, rfl⟩
  | bang =>
    simp only [ScanState.next]
    repeat' split
    · exact .inl ⟨_, rfl, rfl⟩
    · exact .inl ⟨_, rfl, rfl⟩
    · exact .inl ⟨_, rfl, rfl⟩
    · exact .inr ⟨_, rfl, fun line => rfl⟩
  | comment soFar =>
    simp only [ScanState.next]
    split
    · exact .inr ⟨_, rfl, fun line => openings_commentToken line _⟩
    · exact .inl ⟨_, rfl, rfl⟩
  | data soFar =>
    simp only [ScanState.next]
    split
    · exact .inr ⟨_, rfl, fun line => openings_dataToken line soFar⟩
    · exact .inl ⟨_, rfl, rfl⟩
  | doctype soFar depth =>
    simp only [ScanState.next]
    repeat' split
    · exact .inl ⟨_, rfl, rfl⟩
    · exact .inr ⟨_, rfl, fun line => openings_doctypeToken line _⟩
    · exact .inl ⟨_, rfl, rfl⟩
    · exact .inl ⟨_, rfl, rfl⟩
  | instruction soFar =>
    simp only [ScanState.next]
    split
    · refine .inr ⟨_, rfl, fun line => ?_⟩
      split <;> rfl
    · exact .inl ⟨_, rfl, rfl⟩

theorem openings_textToken (line : Nat) (cs : List Char) : openings (textToken line cs) = [] := by
  unfold textToken
  split <;> rfl

theorem lined_startTagsFrom_open {before : List Char} {line : Nat}
    (hline : line = 1 + before.count '\n') (soFar rest : List Char) :
    (startTagsFrom before (.text soFar) ('<' :: rest)).map StartTag.lined =
      ((ScanState.opened.tagUnderway rest).map (line, ·)).toList ++
        (startTagsFrom (before ++ ['<']) .opened rest).map StartTag.lined := by
  rw [startTagsFrom, if_pos ⟨rfl, rfl⟩, List.map_append]
  cases htag : tagBehind rest <;>
    simp [ScanState.tagUnderway, htag, ScanState.next, StartTag.lined, StartTag.line, hline]

/-- The tokens that open elements are the tag under way and the start tags that follow, each on the
line of its `<`. -/
theorem openings_scanLines {before cs : List Char} {since line : Nat} {state : ScanState}
    (hline : line = 1 + before.count '\n') (hfresh : state = .text [] → since = line)
    (hwhole : ∀ token ∈ scanLines since line state cs, ∀ fault, token.2 ≠ .broken fault) :
    openings (scanLines since line state cs) =
      ((state.tagUnderway cs).map (since, ·)).toList ++
        (startTagsFrom before state cs).map StartTag.lined := by
  induction cs generalizing before since line state with
  | nil =>
    cases state with
    | text soFar => cases soFar <;> rfl
    | _ => exact absurd rfl (hwhole _ (List.mem_singleton.mpr rfl) _)
  | cons c cs ih =>
    have hrest : lineAfter line c = 1 + (before ++ [c]).count '\n' := by
      rw [hline, lineAfter_count]
    cases htext : state.inText with
    | true =>
      obtain ⟨soFar, rfl⟩ : ∃ soFar, state = .text soFar := by
        cases state with
        | text soFar => exact ⟨soFar, rfl⟩
        | _ => cases htext
      by_cases hc : c = '<'
      · subst hc
        have hmarkup := scanLines_text_markup (fun hnil => hfresh (congrArg ScanState.text hnil)) cs
        rw [hmarkup] at hwhole
        rw [hmarkup, openings_append, openings_textToken, lined_startTagsFrom_open hline]
        exact ih hrest (by simp) fun token htoken => hwhole token (List.mem_append_right _ htoken)
      · rw [scanLines_keep (next_text hc soFar)] at hwhole ⊢
        rw [ih hrest (by simp) hwhole, startTagsFrom, if_neg fun h => hc h.1, next_text hc]
        rfl
    | false =>
      rw [startTagsFrom, if_neg (by simp [htext])]
      rcases tagUnderway_next htext c cs with ⟨state', hnext, hunder⟩ | ⟨token, hnext, htoken⟩
      · rw [scanLines_keep hnext] at hwhole ⊢
        have hfresh' : state' = .text [] → since = lineAfter line c := by
          rintro rfl
          exact absurd hnext next_fresh
        rw [ih hrest hfresh' hwhole, hunder, hnext]
        rfl
      · have hstep := scanLines_emit hnext (not_broken_of_next hnext hwhole) since line cs
        rw [hstep] at hwhole ⊢
        rw [openings_cons, htoken, ih hrest (fun _ => rfl) (List.forall_mem_cons.mp hwhole).2,
          hnext]
        rfl

/-! ## The elements in document order -/

namespace Element

mutual

/-- The element and all that stands in it, in the order of the start tags. -/
def nodes : Element → List Element
  | ⟨name, attributes, text, children, line⟩ =>
    ⟨name, attributes, text, children, line⟩ :: nodesAll children

def nodesAll : List Element → List Element
  | [] => []
  | child :: rest => nodes child ++ nodesAll rest

end

theorem nodesAll_eq_flatMap (es : List Element) : nodesAll es = es.flatMap nodes := by
  induction es with
  | nil => rfl
  | cons e es ih => rw [nodesAll, ih, List.flatMap_cons]

theorem nodes_eq (e : Element) : e.nodes = e :: e.children.flatMap nodes := by
  cases e
  rw [nodes, nodesAll_eq_flatMap]

theorem mem_nodes_iff {x e : Element} : x ∈ e.nodes ↔ x.Occurs e := by
  induction e using induct with
  | step e ih =>
    rw [nodes_eq, List.mem_cons, List.mem_flatMap]
    constructor
    · rintro (rfl | ⟨child, hchild, hx⟩)
      · exact .here
      · exact .child hchild ((ih child hchild).1.mp hx)
    · intro h
      cases h with
      | here => exact .inl rfl
      | child hchild hx => exact .inr ⟨_, hchild, (ih _ hchild).1.mpr hx⟩

/-- The element as its start tag opens it. -/
def opening (e : Element) : Element :=
  { name := e.name, attributes := e.attributes, line := e.line }

def openings (e : Element) : List Element := e.nodes.map opening

/-- The same for an element under way, which holds its children latest first. -/
def openingsSoFar (e : Element) : List Element := e.opening :: e.children.reverse.flatMap openings

theorem openings_eq (e : Element) : e.openings = e.opening :: e.children.flatMap openings := by
  rw [openings, nodes_eq, List.map_cons, List.map_flatMap]
  rfl

theorem openings_closed (e : Element) : (closed e).openings = e.openingsSoFar :=
  (closed e).openings_eq

theorem openingsSoFar_addText (text : String) (e : Element) :
    (addText text e).openingsSoFar = e.openingsSoFar :=
  rfl

theorem openingsSoFar_addChild (child e : Element) :
    (addChild child e).openingsSoFar = e.openingsSoFar ++ child.openings := by
  simp [openingsSoFar, addChild, opening]

end Element

/-- What has been opened, outermost first. -/
def Forest.openings (forest : Forest) : List Element :=
  forest.roots.reverse.flatMap Element.openings ++
    forest.stack.reverse.flatMap Element.openingsSoFar

theorem openings_attach (e : Element) (forest : Forest) :
    (forest.attach e).openings = forest.openings ++ e.openings := by
  obtain ⟨stack, roots⟩ := forest
  cases stack with
  | nil => simp [Forest.attach, Forest.openings]
  | cons parent outer =>
    simp [Forest.attach, Forest.openings, Element.openingsSoFar_addChild]

theorem openings_push (e : Element) (forest : Forest) :
    ({ forest with stack := e :: forest.stack } : Forest).openings =
      forest.openings ++ e.openingsSoFar := by
  simp [Forest.openings]

theorem openings_text {line : Nat} {text : List Char} {forest forest' : Forest}
    (h : forest.append line text = .ok forest') : forest'.openings = forest.openings := by
  obtain ⟨stack, roots⟩ := forest
  cases stack with
  | nil =>
    simp only [Forest.append] at h
    split at h
    · rw [← Except.ok.inj h]
    · cases h
  | cons e outer =>
    rw [← Except.ok.inj h]
    simp [Forest.openings, Element.openingsSoFar_addText]

/-- An element that is opened is as its start tag opens it. -/
theorem openTag_eq_ok {line : Nat} {content : List Char} {e : Element}
    (h : openTag line content = .ok e) :
    e.line = line ∧ e.opening = e ∧ e.children = [] := by
  unfold openTag at h
  simp only at h
  split at h
  · rw [← Except.ok.inj h]
    exact ⟨rfl, rfl, rfl⟩
  · cases h

/-- A tag and what it opens. -/
def Opens (tag : Nat × List Char) (e : Element) : Prop := openTag tag.1 tag.2 = .ok e

theorem openings_step {forest forest' : Forest} {line : Nat} {token : Token}
    (h : forest.step line token = .ok forest') :
    ∃ more, forest'.openings = forest.openings ++ more ∧
      List.Forall₂ Opens (openings [(line, token)]) more := by
  have hsame : forest'.openings = forest.openings → openings [(line, token)] = [] →
      ∃ more, forest'.openings = forest.openings ++ more ∧
        List.Forall₂ Opens (openings [(line, token)]) more := by
    intro hsame hnone
    rw [hnone]
    exact ⟨[], by rw [hsame, List.append_nil], .nil⟩
  cases token with
  | start content =>
    obtain ⟨e, he, hpush⟩ := Result.bind_eq_ok.mp h
    obtain rfl := Result.pure_eq_ok.mp hpush
    obtain ⟨-, hopening, hchildren⟩ := openTag_eq_ok he
    refine ⟨[e], ?_, .cons he .nil⟩
    rw [openings_push, Element.openingsSoFar, hopening, hchildren]
    rfl
  | empty content =>
    obtain ⟨e, he, hattach⟩ := Result.bind_eq_ok.mp h
    obtain rfl := Result.pure_eq_ok.mp hattach
    obtain ⟨-, hopening, hchildren⟩ := openTag_eq_ok he
    refine ⟨[e], ?_, .cons he .nil⟩
    rw [openings_attach, Element.openings_eq, hopening, hchildren]
    rfl
  | close name =>
    obtain ⟨stack, roots⟩ := forest
    cases stack with
    | nil => cases h
    | cons e outer =>
      simp only [Forest.step] at h
      split at h
      · obtain rfl := Except.ok.inj h
        refine hsame ?_ rfl
        rw [openings_attach, Element.openings_closed]
        exact (openings_push e ⟨outer, roots⟩).symm
      · cases h
  | text raw =>
    simp only [Forest.step] at h
    split at h
    · exact hsame (openings_text h) rfl
    · cases h
  | data content => exact hsame (openings_text h) rfl
  | aside =>
    obtain rfl := Except.ok.inj h
    exact hsame rfl rfl
  | broken fault => cases h

theorem openings_grow {forest forest' : Forest} {tokens : List (Nat × Token)}
    (h : forest.grow tokens = .ok forest') :
    ∃ more, forest'.openings = forest.openings ++ more ∧
      List.Forall₂ Opens (openings tokens) more := by
  induction tokens generalizing forest with
  | nil =>
    obtain rfl := Except.ok.inj h
    exact ⟨[], (List.append_nil _).symm, .nil⟩
  | cons token tokens ih =>
    obtain ⟨line, token⟩ := token
    obtain ⟨next, hstep, hrest⟩ := Result.bind_eq_ok.mp h
    obtain ⟨here, hnext, hopens⟩ := openings_step hstep
    obtain ⟨more, hmore, hopensMore⟩ := ih hrest
    refine ⟨here ++ more, ?_, ?_⟩
    · rw [hmore, hnext, List.append_assoc]
    · rw [openings_cons]
      exact List.rel_append hopens hopensMore

/-- The element stands on the line of the tag and is what the tag opens. -/
structure Element.StartsAt (e : Element) (tag : StartTag) : Prop where
  line : e.line = 1 + tag.before.count '\n'
  opens : openTag e.line tag.content = .ok e.opening

theorem startsAt_of_opens {tag : StartTag} {e : Element} (h : Opens tag.lined e.opening) :
    e.StartsAt tag := by
  have hline : e.line = tag.line := (openTag_eq_ok h).1
  refine ⟨hline, ?_⟩
  rw [hline]
  exact h

/-- The elements of a text, in document order, start at its start tags, one at each and each on the
line of its `<`: the line of any element counts the line feeds in front of a `<` in character data
behind which its name and its attributes stand. -/
theorem readElements_line {text : List Char} {roots : List Element}
    (hmark : text.head? ≠ some byteOrderMark) (h : readElements text = .ok roots) :
    List.Forall₂ Element.StartsAt (roots.flatMap Element.nodes) (startTags text) ∧
      ∀ root ∈ roots, ∀ e : Element, e.Occurs root → ∃ before rest content,
        text = before ++ '<' :: rest ∧ ((ScanState.text []).after before).inText ∧
          tagBehind rest = some content ∧ openTag e.line content = .ok e.opening ∧
            e.line = 1 + before.count '\n' := by
  have hall : List.Forall₂ Element.StartsAt (roots.flatMap Element.nodes) (startTags text) := by
    obtain ⟨grown, hgrow, rfl⟩ := (readElements_eq_ok hmark).mp h
    obtain ⟨more, hmore, hopens⟩ := openings_grow hgrow
    have hfirst : 1 = 1 + ([] : List Char).count '\n' := rfl
    have hmap : more = (grown.reverse.flatMap Element.nodes).map Element.opening := by
      have hgrown : grown.reverse.flatMap Element.openings = more := by
        simpa [Forest.openings] using hmore
      rw [← hgrown, List.map_flatMap]
      rfl
    rw [openings_scanLines hfirst (fun _ => rfl) (not_broken_of_grow hgrow), hmap] at hopens
    have hstarts := List.forall₂_map_right_iff.mp (List.forall₂_map_left_iff.mp hopens)
    exact (hstarts.imp fun _ _ => startsAt_of_opens).flip
  refine ⟨hall, fun root hroot e he => ?_⟩
  have hnode : e ∈ roots.flatMap Element.nodes :=
    List.mem_flatMap.mpr ⟨root, hroot, Element.mem_nodes_iff.mpr he⟩
  obtain ⟨tag, htag, hline, hopens⟩ := exists_left_of_forall₂ hall.flip e hnode
  obtain ⟨rest, htext, hstate, hcontent⟩ := mem_startTags.mp htag
  exact ⟨tag.before, rest, tag.content, htext, hstate, hcontent, hopens, hline⟩

/-- Line feeds in a declaration, a tag, a comment, text, a section and an end tag. -/
def spread : List Char :=
  "<?xml\n?>\n<a\n k='>'><!-- <x>\n -->\n<b/>t<![CDATA[<y>\n]]><c>u</c\n></a>".toList

theorem readElements_line_spread :
    spread.head? ≠ some byteOrderMark ∧ (startTags spread).map StartTag.line = [3, 6, 7] ∧
      ∃ roots, readElements spread = .ok roots ∧
        (roots.flatMap Element.nodes).map (fun e => (e.name, e.line)) =
          [("a", 3), ("b", 6), ("c", 7)] ∧
        List.Forall₂ Element.StartsAt (roots.flatMap Element.nodes) (startTags spread) := by
  have hmark : spread.head? ≠ some byteOrderMark := by decide +kernel
  have hnodes : (readElements spread).toOption.map (fun roots =>
      (roots.flatMap Element.nodes).map fun e => (e.name, e.line)) =
        some [("a", 3), ("b", 6), ("c", 7)] := by
    decide +kernel
  obtain ⟨roots, hread, hnodes⟩ := Result.toOption_map_eq_some.mp hnodes
  exact ⟨hmark, by decide +kernel, roots, hread, hnodes, (readElements_line hmark hread).1⟩

end PlanArchive.Markup
