import PlanArchive.Markup.Reader

/-!
# Scanning by lines

The scanner counts octets, and the lines of the tokens are looked up afterwards. The same tokens
come out, with their lines, when the line feeds are counted on the way (`numberedTokens_eq`).
-/

namespace PlanArchive.Markup

theorem lineFeeds_append (pos : Nat) (a b : List Char) :
    lineFeeds pos (a ++ b) = lineFeeds pos a ++ lineFeeds (pos + octets a) b := by
  induction a generalizing pos with
  | nil => rfl
  | cons c a ih =>
    have hpos : pos + c.utf8Size + octets a = pos + octets (c :: a) := by
      rw [octets, Nat.add_assoc]
    simp only [List.cons_append, lineFeeds, ih, hpos]
    split <;> rfl

theorem length_lineFeeds (pos : Nat) (cs : List Char) :
    (lineFeeds pos cs).length = cs.count '\n' := by
  induction cs generalizing pos with
  | nil => rfl
  | cons c cs ih =>
    rw [lineFeeds, List.count_cons]
    by_cases hc : c = '\n'
    · simp [hc, ih]
    · simp [hc, ih]

theorem bounds_of_mem_lineFeeds {pos p : Nat} {cs : List Char} (h : p ∈ lineFeeds pos cs) :
    pos ≤ p ∧ p < pos + octets cs := by
  induction cs generalizing pos with
  | nil => cases h
  | cons c cs ih =>
    have hsize : 0 < c.utf8Size := Char.utf8Size_pos c
    have htail : p ∈ lineFeeds (pos + c.utf8Size) cs → pos ≤ p ∧ p < pos + octets (c :: cs) := by
      intro hmem
      have hbounds := ih hmem
      rw [octets]
      omega
    rw [lineFeeds] at h
    split at h
    · rcases List.mem_cons.mp h with rfl | hmem
      · rw [octets]
        omega
      · exact htail hmem
    · exact htail h

/-- The line behind a text, by the line feeds of the text. -/
theorem lineAt_octets (a b : List Char) :
    lineAt (lineFeeds 0 (a ++ b)) (octets a) = 1 + a.count '\n' := by
  have hfront : (lineFeeds 0 a).countP (· < octets a) = a.count '\n' := by
    rw [← length_lineFeeds 0 a, List.countP_eq_length]
    intro q hq
    have hbounds := bounds_of_mem_lineFeeds hq
    simp only [decide_eq_true_eq]
    omega
  have hback : (lineFeeds (0 + octets a) b).countP (· < octets a) = 0 := by
    rw [List.countP_eq_zero]
    intro q hq
    have hbounds := bounds_of_mem_lineFeeds hq
    simp only [decide_eq_true_eq]
    omega
  rw [lineAt, lineFeeds_append, List.countP_append, hfront, hback, Nat.add_zero]

/-- The line behind a character. -/
def lineAfter (line : Nat) (c : Char) : Nat := if c = '\n' then line + 1 else line

theorem lineAfter_add_count (line : Nat) (c : Char) (cs : List Char) :
    lineAfter line c + cs.count '\n' = line + (c :: cs).count '\n' := by
  rw [lineAfter, List.count_cons]
  by_cases hc : c = '\n'
  · simp [hc]
    omega
  · simp [hc]

theorem lineAfter_count (before : List Char) (c : Char) :
    lineAfter (1 + before.count '\n') c = 1 + (before ++ [c]).count '\n' := by
  have h := lineAfter_add_count (1 + before.count '\n') c []
  rwa [List.count_nil, Nat.add_zero, Nat.add_assoc, ← List.count_append] at h

/-- As `scanFrom`, with lines: `since` is the line of the token under way, and `line` the present
one. -/
def scanLines (since line : Nat) (state : ScanState) : List Char → List (Nat × Token)
  | [] => (state.atEnd.map ((since, ·))).toList
  | c :: rest =>
    match state.next c with
    | (_, some (.broken fault)) => [(since, .broken fault)]
    | (state, some token) =>
      (since, token) :: scanLines (lineAfter line c) (lineAfter line c) state rest
    | (state, none) => scanLines since (lineAfter line c) state rest

/-- Looking lines up in the whole text or counting them makes no difference. -/
theorem map_lineAt_scanFrom (front cs : List Char) (since : Nat) (state : ScanState) :
    (scanFrom since (octets front) state cs).map
        (fun (p, token) => (lineAt (lineFeeds 0 (front ++ cs)) p, token)) =
      scanLines (lineAt (lineFeeds 0 (front ++ cs)) since) (1 + front.count '\n') state cs := by
  induction cs generalizing front since state with
  | nil => cases h : state.atEnd <;> simp [scanFrom, scanLines, h]
  | cons c cs ih =>
    have hsplit : front ++ c :: cs = (front ++ [c]) ++ cs := by simp
    have hoctets : octets front + c.utf8Size = octets (front ++ [c]) := by
      rw [octets_append]
      rfl
    have hline := lineAfter_count front c
    -- the token behind the `<` starts at it, on the same line
    have hnext : lineAt (lineFeeds 0 (front ++ c :: cs))
        (if c = '<' then octets front else octets front + c.utf8Size) =
        1 + (front ++ [c]).count '\n' := by
      split
      · rename_i hc
        rw [lineAt_octets, hc, List.count_append]
        rfl
      · rw [hsplit, hoctets, lineAt_octets]
    rw [scanFrom, scanLines]
    cases hstep : state.next c with
    | mk state' token? =>
      cases token? with
      | none =>
        simp only
        rw [hoctets, hline, hsplit]
        exact ih (front ++ [c]) since state'
      | some token =>
        have hrest := ih (front ++ [c])
          (if c = '<' then octets front else octets front + c.utf8Size) state'
        rw [← hsplit, hnext, ← hoctets, ← hline] at hrest
        cases token with
        | broken fault => rfl
        | _ =>
          simp only [List.map_cons]
          rw [hrest]

/-- Without a byte order mark, lines can be counted on the way. -/
theorem numberedTokens_eq {cs : List Char} (h : cs.head? ≠ some byteOrderMark) :
    numberedTokens cs = scanLines 1 1 (.text []) cs := by
  have hscan : scan cs = scanFrom 0 0 (.text []) cs := by
    cases cs with
    | nil => rfl
    | cons c cs => rw [scan, if_neg fun hc => h (congrArg some hc)]
  have hfirst : lineAt (lineFeeds 0 cs) 0 = 1 := lineAt_octets [] cs
  have hlines := map_lineAt_scanFrom [] cs 0 (.text [])
  rw [List.nil_append, hfirst] at hlines
  rw [numberedTokens, hscan]
  exact hlines

end PlanArchive.Markup
