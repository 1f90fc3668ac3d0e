import PlanArchive.Proofs.Markup.Occurs
import PlanArchive.Proofs.Markup.Renumbered
import PlanArchive.Proofs.Markup.RoundTrip
import PlanArchive.Proofs.Result

/-!
# Texts put one after the other

Two texts that can be read can be read together: the elements of the second follow those of the
first, further down by the line feeds of the first (`readElements_append`). At the seam nothing is
under way but blank character data, which the two texts may share.
-/

namespace PlanArchive.Markup

/-! ## References -/

theorem referred_eq_ok {start stop : Nat} {name : List Char} {c : Char} :
    referred start stop name = .ok c ↔
      (∃ digits, name = '#' :: digits ∧ numbered digits = .ok c) ∨
        (∀ digits, name ≠ '#' :: digits) ∧ named (String.ofList name) = some c := by
  unfold referred
  split
  · rename_i digits
    cases hdigits : numbered digits <;> simp [hdigits]
  · rename_i hname
    have hother : ∀ digits, name ≠ '#' :: digits := hname
    cases named (String.ofList name) <;> simp [hother]

/-- What a reference stands for does not depend on where it stands. -/
theorem referred_moved {start stop : Nat} {name : List Char} {c : Char}
    (h : referred start stop name = .ok c) (start' stop' : Nat) :
    referred start' stop' name = .ok c :=
  referred_eq_ok.mpr (referred_eq_ok.mp h)

theorem unescapeFrom_append {total total' : Nat} {a b out out' : List Char}
    (hb : ∀ pos, unescapeFrom total' pos none b = .ok out') :
    ∀ {pos : Nat} {under : Option (Nat × List Char)},
      unescapeFrom total pos under a = .ok out → ∀ start pos' : Nat,
        unescapeFrom total' pos' (under.map fun (_, name) => (start, name)) (a ++ b) =
          .ok (out ++ out') := by
  induction a generalizing out with
  | nil =>
    intro pos under h start pos'
    cases under with
    | none =>
      obtain rfl : [] = out := Except.ok.inj h
      exact hb pos'
    | some under => cases h
  | cons c a ih =>
    intro pos under h start pos'
    cases under with
    | none =>
      simp only [Option.map_none, List.cons_append, unescapeFrom] at h ⊢
      split
      · rename_i hc
        rw [if_pos hc] at h
        exact ih h pos' (pos' + 1)
      · rename_i hc
        rw [if_neg hc] at h
        obtain ⟨more, hmore, hout⟩ := Result.bind_eq_ok.mp h
        obtain rfl := Result.pure_eq_ok.mp hout
        have hrest := ih hmore start (pos' + c.utf8Size)
        rw [Option.map_none] at hrest
        rw [hrest]
        rfl
    | some under =>
      obtain ⟨at', name⟩ := under
      simp only [Option.map_some, List.cons_append, unescapeFrom] at h ⊢
      split
      · rename_i hc
        rw [if_pos hc] at h
        obtain ⟨d, hd, h⟩ := Result.bind_eq_ok.mp h
        obtain ⟨more, hmore, hout⟩ := Result.bind_eq_ok.mp h
        obtain rfl := Result.pure_eq_ok.mp hout
        have hrest := ih hmore start (pos' + 1)
        rw [Option.map_none] at hrest
        rw [referred_moved hd, hrest]
        rfl
      · rename_i hc
        rw [if_neg hc] at h
        split
        · rename_i hamp
          rw [if_pos hamp] at h
          cases h
        · rename_i hamp
          rw [if_neg hamp] at h
          exact ih h start (pos' + c.utf8Size)

theorem unescapeFrom_moved {total pos : Nat} {cs out : List Char}
    (h : unescapeFrom total pos none cs = .ok out) (total' pos' : Nat) :
    unescapeFrom total' pos' none cs = .ok out := by
  have hnil : ∀ pos, unescapeFrom total' pos none [] = .ok [] := fun _ => rfl
  simpa using unescapeFrom_append hnil h 0 pos'

theorem unescape_append {a b a' b' : List Char} (ha : unescape a = .ok a')
    (hb : unescape b = .ok b') : unescape (a ++ b) = .ok (a' ++ b') :=
  unescapeFrom_append (unescapeFrom_moved hb _) ha 0 0

/-! ## Tokens -/

/-- Nothing is under way only behind a character that ended a token. -/
theorem next_fresh {state : ScanState} {c : Char} : state.next c ≠ (.text [], none) := by
  intro h
  cases state <;> simp only [ScanState.next] at h <;> grind

theorem scanLines_shift (k since line : Nat) (state : ScanState) (cs : List Char) :
    scanLines (since + k) (line + k) state cs =
      (scanLines since line state cs).map fun (line, token) => (line + k, token) := by
  induction cs generalizing since line state with
  | nil => cases h : state.atEnd <;> simp [scanLines, h]
  | cons c cs ih =>
    have hline : lineAfter (line + k) c = lineAfter line c + k := by
      unfold lineAfter
      split <;> omega
    cases hnext : state.next c with
    | mk state' token? =>
      cases token? with
      | none => simp only [scanLines, hnext, hline, ih]
      | some token =>
        cases token <;> simp only [scanLines, hnext, hline, ih, List.map_cons, List.map_nil]

/-- The token of character data, if there are any. -/
def textToken (line : Nat) (cs : List Char) : List (Nat × Token) :=
  if cs = [] then [] else [(line, .text cs)]

/-- Up to the first tag there is one run of character data. -/
theorem scanLines_text_token {since line : Nat} {soFar cs rest : List Char} (hcs : '<' ∉ cs)
    (hrest : ∀ c ∈ rest.head?, c = '<') (hsince : soFar = [] → cs = [] → since = line) :
    scanLines since line (.text soFar) (cs ++ rest) =
      textToken since (soFar.reverse ++ cs) ++
        scanLines (line + cs.count '\n') (line + cs.count '\n') (.text []) rest := by
  have hback : (cs.reverse ++ soFar).reverse = soFar.reverse ++ cs := by simp
  rw [scanLines_text hcs, ← hback]
  cases hall : cs.reverse ++ soFar with
  | nil =>
    obtain ⟨hnil, rfl⟩ := List.append_eq_nil_iff.mp hall
    obtain rfl : cs = [] := List.reverse_eq_nil_iff.mp hnil
    obtain rfl := hsince rfl rfl
    rfl
  | cons d all =>
    have htoken : textToken since (d :: all).reverse = [(since, .text (d :: all).reverse)] := by
      simp [textToken]
    rw [htoken]
    cases rest with
    | nil => rfl
    | cons c rest =>
      obtain rfl : c = '<' := hrest c rfl
      have hend : (ScanState.text (d :: all)).next '<' =
          (.opened, some (.text (d :: all).reverse)) := rfl
      rw [scanLines_open, scanLines_emit hend (by simp)]
      rfl

/-- Character data under way end in front of a tag. -/
theorem scanLines_text_markup {since line : Nat} {soFar : List Char}
    (hsince : soFar = [] → since = line) (rest : List Char) :
    scanLines since line (.text soFar) ('<' :: rest) =
      textToken since soFar.reverse ++ scanLines line line .opened rest := by
  have h := @scanLines_text_token since line soFar [] ('<' :: rest) (by simp) (by simp)
    fun hnil _ => hsince hnil
  rwa [List.nil_append, List.append_nil, scanLines_open] at h

theorem exists_text_front (b : List Char) :
    ∃ cs rest, b = cs ++ rest ∧ '<' ∉ cs ∧ ∀ c ∈ rest.head?, c = '<' := by
  induction b with
  | nil => exact ⟨[], [], rfl, by simp, by simp⟩
  | cons c b ih =>
    by_cases hc : c = '<'
    · exact ⟨[], c :: b, rfl, by simp, by simpa using hc⟩
    · obtain ⟨cs, rest, rfl, hcs, hrest⟩ := ih
      refine ⟨c :: cs, rest, rfl, ?_, hrest⟩
      rw [List.mem_cons, not_or]
      exact ⟨Ne.symm hc, hcs⟩

/-- The state behind a text. -/
def ScanState.after (state : ScanState) (cs : List Char) : ScanState :=
  cs.foldl (fun state c => (state.next c).1) state

theorem not_broken_of_next {state state' : ScanState} {c : Char} {token : Token}
    (h : state.next c = (state', some token)) {since line : Nat} {rest : List Char}
    (hwhole : ∀ token ∈ scanLines since line state (c :: rest), ∀ fault,
      token.2 ≠ .broken fault) (fault : TokenFault) : token ≠ .broken fault := by
  rintro rfl
  refine hwhole (since, .broken fault) ?_ fault rfl
  rw [scanLines, h]
  exact List.mem_singleton.mpr rfl

/-- Up to a point of a text whose tokens are whole, the tokens do not depend on what follows. -/
theorem scanLines_through {since line : Nat} {state : ScanState} {a b : List Char}
    (hwhole : ∀ token ∈ scanLines since line state (a ++ b), ∀ fault, token.2 ≠ .broken fault)
    (hfresh : state = .text [] → since = line) :
    ∃ front start, (state.after a = .text [] → start = line + a.count '\n') ∧
      ∀ b, scanLines since line state (a ++ b) =
        front ++ scanLines start (line + a.count '\n') (state.after a) b := by
  induction a generalizing since line state with
  | nil => exact ⟨[], since, hfresh, fun b => rfl⟩
  | cons c a ih =>
    rw [← lineAfter_add_count]
    cases hnext : state.next c with
    | mk state' token? =>
      have hafter : state.after (c :: a) = state'.after a := by
        rw [ScanState.after, List.foldl_cons, hnext]
        rfl
      rw [List.cons_append] at hwhole
      rw [hafter]
      cases token? with
      | none =>
        have hstep := scanLines_keep hnext since line
        rw [hstep] at hwhole
        obtain ⟨front, start, hstart, hrest⟩ := ih hwhole (by
          rintro rfl
          exact absurd hnext next_fresh)
        exact ⟨front, start, hstart, fun b => by rw [List.cons_append, hstep, hrest]⟩
      | some token =>
        have hstep := scanLines_emit hnext (not_broken_of_next hnext hwhole) since line
        rw [hstep] at hwhole
        obtain ⟨front, start, hstart, hrest⟩ := ih (List.forall_mem_cons.mp hwhole).2 fun _ => rfl
        exact ⟨(since, token) :: front, start, hstart, fun b => by
          rw [List.cons_append, hstep, hrest, List.cons_append]⟩

/-- A text whose tokens are whole leaves the scanner in character data. -/
theorem scanLines_append {since line : Nat} {state : ScanState} {a : List Char}
    (hwhole : ∀ token ∈ scanLines since line state a, ∀ fault, token.2 ≠ .broken fault)
    (hfresh : state = .text [] → since = line) :
    ∃ front start soFar, (soFar = [] → start = line + a.count '\n') ∧
      ∀ b, scanLines since line state (a ++ b) =
        front ++ scanLines start (line + a.count '\n') (.text soFar) b := by
  rw [← List.append_nil a] at hwhole
  obtain ⟨front, start, hstart, hscan⟩ := scanLines_through hwhole hfresh
  cases hafter : state.after a with
  | text soFar =>
    rw [hafter] at hstart hscan
    exact ⟨front, start, soFar, fun hnil => hstart (congrArg _ hnil), hscan⟩
  | _ =>
    -- the fault that the end of the text makes of what is under way
    rw [hscan, hafter] at hwhole
    exact absurd rfl (hwhole _ (List.mem_append_right _ (List.mem_singleton.mpr rfl)) _)

/-! ## Elements -/

namespace Element

/-- The element as it stands behind a text of `n` lines. -/
def later (n : Nat) (e : Element) : Element := e.adjust id (· + n) id

theorem later_mk (n : Nat) (name : String) (attributes : List (String × String))
    (text : Option String) (children : List Element) (line : Nat) :
    later n ⟨name, attributes, text, children, line⟩ =
      ⟨name, attributes, text, children.map (later n), line + n⟩ :=
  adjust_mk (· + n) id name attributes text children line

theorem unlined_later (n : Nat) (e : Element) : (e.later n).unlined = e.unlined := by
  induction e using induct with
  | step e ih =>
    obtain ⟨name, attributes, text, children, line⟩ := e
    have hchildren : children.map (unlined ∘ later n) = children.map unlined :=
      List.map_congr_left fun child hchild => (ih child hchild).1
    rw [later_mk, unlined_mk, unlined_mk, List.map_map, hchildren]

theorem readAs_later {e e' : Element} (h : e.ReadAs e') (n : Nat) : e.ReadAs (e'.later n) :=
  (unlined_later n e').trans h

end Element

theorem later_name (n : Nat) (e : Element) : (e.later n).name = e.name := name_mapLine (· + n) e

/-- The forest as it stands behind other roots and `n` lines. -/
def Forest.later (n : Nat) (base : List Element) (forest : Forest) : Forest :=
  ⟨forest.stack.map (Element.later n), forest.roots.map (Element.later n) ++ base⟩

theorem grow_later {n : Nat} {base : List Element} {forest forest' : Forest}
    {tokens : List (Nat × Token)} (h : forest.grow tokens = .ok forest') :
    (forest.later n base).grow (tokens.map fun (line, token) => (line + n, token)) =
      .ok (forest'.later n base) := by
  have hmap := grow_mapLine (· + n) base forest tokens
  rw [h] at hmap
  exact hmap

section

variable {forest forest' : Forest}

theorem grow_append (forest : Forest) (front back : List (Nat × Token)) :
    forest.grow (front ++ back) = forest.grow front >>= fun forest => forest.grow back := by
  induction front generalizing forest with
  | nil => rfl
  | cons token front ih =>
    obtain ⟨line, token⟩ := token
    simp only [List.cons_append, Forest.grow, ih, bind_assoc]

theorem grow_append_of_ok {front : List (Nat × Token)} (h : forest.grow front = .ok forest')
    (back : List (Nat × Token)) : forest.grow (front ++ back) = forest'.grow back := by
  rw [grow_append, h]
  rfl

end

/-! ## The seam -/

/-- Character data that may stand outside of any element. -/
def Blank (cs : List Char) : Prop := ∃ text, unescape cs = .ok text ∧ Text.allBlank text = true

theorem Blank.append {a b : List Char} (ha : Blank a) (hb : Blank b) : Blank (a ++ b) := by
  obtain ⟨text, hunescape, hblank⟩ := ha
  obtain ⟨text', hunescape', hblank'⟩ := hb
  refine ⟨text ++ text', unescape_append hunescape hunescape', ?_⟩
  rw [Text.allBlank, List.all_append, Bool.and_eq_true]
  exact ⟨hblank, hblank'⟩

theorem grow_of_blank {forest : Forest} {cs : List Char} (hstack : forest.stack = [])
    (h : Blank cs) (line : Nat) : forest.grow (textToken line cs) = .ok forest := by
  obtain ⟨text, hunescape, hblank⟩ := h
  unfold textToken
  split
  · rfl
  · refine (grow_cons ?_ []).trans rfl
    simp only [Forest.step, hunescape, Forest.append, hstack, if_pos hblank]

/-- Text outside of any element changes nothing and is blank. -/
theorem blank_of_grow {forest forest' : Forest} {cs : List Char} {line : Nat}
    (h : forest.grow (textToken line cs) = .ok forest')
    (hstack : forest.stack = [] ∨ forest'.stack = []) : forest' = forest ∧ Blank cs := by
  unfold textToken at h
  split at h
  · rename_i hnil
    obtain rfl := Except.ok.inj h
    subst hnil
    exact ⟨rfl, [], rfl, rfl⟩
  · obtain ⟨next, hstep, hnext⟩ := Result.bind_eq_ok.mp h
    obtain rfl := Except.ok.inj hnext
    simp only [Forest.step] at hstep
    split at hstep
    · rename_i text hunescape
      obtain ⟨stack, roots⟩ := forest
      cases stack with
      | nil =>
        simp only [Forest.append] at hstep
        split at hstep
        · rename_i hblank
          exact ⟨(Except.ok.inj hstep).symm, text, hunescape, hblank⟩
        · cases hstep
      | cons e outer =>
        obtain rfl := Except.ok.inj hstep
        rcases hstack with hstack | hstack <;> cases hstack
    · cases hstep

theorem readElements_eq_ok {cs : List Char} (h : cs.head? ≠ some byteOrderMark)
    {es : List Element} :
    readElements cs = .ok es ↔
      ∃ roots, readOn {} 1 cs = .ok ⟨[], roots⟩ ∧ es = roots.reverse := by
  rw [readElements_eq h]
  refine Result.bind_eq_ok.trans ⟨?_, ?_⟩
  · rintro ⟨⟨stack, roots⟩, hgrow, hfinish⟩
    cases stack with
    | nil => exact ⟨roots, hgrow, (Except.ok.inj hfinish).symm⟩
    | cons e outer => cases hfinish
  · rintro ⟨roots, hgrow, rfl⟩
    exact ⟨⟨[], roots⟩, hgrow, rfl⟩

theorem not_broken_of_grow {forest forest' : Forest} {tokens : List (Nat × Token)}
    (h : forest.grow tokens = .ok forest') :
    ∀ token ∈ tokens, ∀ fault, token.2 ≠ .broken fault := by
  induction tokens generalizing forest with
  | nil => exact List.forall_mem_nil _
  | cons token tokens ih =>
    obtain ⟨line, token⟩ := token
    obtain ⟨next, hstep, hrest⟩ := Result.bind_eq_ok.mp h
    refine List.forall_mem_cons.mpr ⟨?_, ih hrest⟩
    rintro fault rfl
    cases hstep

/-- The elements of two texts, one after the other. -/
theorem readElements_append {a b : List Char} {front back : List Element}
    (hfirst : a.head? ≠ some byteOrderMark) (hsecond : b.head? ≠ some byteOrderMark)
    (ha : readElements a = .ok front) (hb : readElements b = .ok back) :
    readElements (a ++ b) = .ok (front ++ back.map (Element.later (a.count '\n'))) := by
  have hhead : (a ++ b).head? ≠ some byteOrderMark := by
    cases a with
    | nil => exact hsecond
    | cons c a => exact hfirst
  obtain ⟨rootsA, hgrowA, rfl⟩ := (readElements_eq_ok hfirst).mp ha
  obtain ⟨rootsB, hgrowB, rfl⟩ := (readElements_eq_ok hsecond).mp hb
  rw [readOn] at hgrowA hgrowB
  -- what of `b` belongs to the run of character data that `a` ends with
  obtain ⟨cs, rest, rfl, hcs, hrest⟩ := exists_text_front b
  obtain ⟨tokens, start, soFar, hstart, hscan⟩ :=
    scanLines_append (not_broken_of_grow hgrowA) fun _ => rfl
  have hscanA : scanLines 1 1 (.text []) a = tokens ++ textToken start soFar.reverse := by
    have h := hscan []
    rw [← List.append_nil [], scanLines_text_token (by simp) (by simp) fun h _ => hstart h] at h
    simpa [scanLines, ScanState.atEnd] using h
  have hscanB : scanLines 1 1 (.text []) (cs ++ rest) = textToken 1 cs ++
      scanLines (1 + cs.count '\n') (1 + cs.count '\n') (.text []) rest :=
    scanLines_text_token hcs hrest fun _ _ => rfl
  have hlines : 1 + a.count '\n' + cs.count '\n' = 1 + cs.count '\n' + a.count '\n' := by omega
  have hscanAB : scanLines 1 1 (.text []) (a ++ (cs ++ rest)) =
      tokens ++ (textToken start (soFar.reverse ++ cs) ++
        (scanLines (1 + cs.count '\n') (1 + cs.count '\n') (.text []) rest).map
          fun (line, token) => (line + a.count '\n', token)) := by
    rw [hscan, scanLines_text_token hcs hrest fun h _ => hstart h, hlines, scanLines_shift]
  rw [hscanA, grow_append] at hgrowA
  obtain ⟨forest, hfront, htext⟩ := Result.bind_eq_ok.mp hgrowA
  obtain ⟨rfl, hblankA⟩ := blank_of_grow htext (.inr rfl)
  rw [hscanB, grow_append] at hgrowB
  obtain ⟨forest, htext, hback⟩ := Result.bind_eq_ok.mp hgrowB
  obtain ⟨rfl, hblankB⟩ := blank_of_grow htext (.inl rfl)
  refine (readElements_eq_ok hhead).mpr
    ⟨rootsB.map (Element.later (a.count '\n')) ++ rootsA, ?_, ?_⟩
  · have hempty : ({ roots := rootsA } : Forest).stack = [] := rfl
    have hseam := grow_of_blank hempty (hblankA.append hblankB) start
    rw [readOn, hscanAB, grow_append_of_ok hfront, grow_append_of_ok hseam]
    exact grow_later hback
  · simp

end PlanArchive.Markup
