import PlanArchive.Proofs.Definition.OneLine

/-!
# Pairs written as they are

A pair can stand on a line as it is: its key, an equals sign and its value, with nothing escaped
and nothing around the sign. The key may then hold no blank and nothing else that would end it, and
must not start like a remark; the value may hold anything but backslashes and line ends, and must
not start with a gap. A text of such lines is read as these pairs (`ofText_of_onLines`).
-/

namespace PlanArchive.Definition

open Text

/-! ## Lines of a text -/

/-- Texts of some lines. The last line may go without its end unless it is empty. -/
inductive OnLines : List (List Char) → List Char → Prop
  | done : OnLines [] []
  | last {line : List Char} (hne : line ≠ []) : OnLines [line] line
  | line {line lineEnd text : List Char} {rest : List (List Char)} (hend : lineEnd ∈ lineEnds)
      (h : OnLines rest text) : OnLines (line :: rest) (line ++ (lineEnd ++ text))

/-- Each line with a line feed behind it. -/
theorem onLines_feeds (all : List (List Char)) : OnLines all (all.flatMap (· ++ ['\n'])) := by
  induction all with
  | nil => exact .done
  | cons line rest ih =>
    rw [List.flatMap_cons, List.append_assoc]
    exact .line (by decide) ih

theorem lines_of_onLines {all : List (List Char)} {text : List Char} (h : OnLines all text)
    (hinline : ∀ line ∈ all, Inline line) : lines text = all := by
  induction h with
  | done => rfl
  | @last line hne =>
    have hline := lines_append hne (hinline line (List.mem_cons_self ..)) []
    rw [List.append_nil] at hline
    rw [hline, firstLine]
    exact congrArg (· :: []) (List.append_nil line)
  | @line line lineEnd text rest hend _ ih =>
    have hrest : lines text = rest :=
      ih fun other hmem => hinline other (List.mem_cons_of_mem _ hmem)
    by_cases hne : line = []
    · rw [hne, List.nil_append, lines_lineEnd hend, hrest]
    · rw [lines_append hne (hinline line (List.mem_cons_self ..)), firstLine, lines_lineEnd hend,
        hrest, List.headD_cons, List.tail_cons, List.append_nil]

/-! ## Pairs -/

/-- No character of the key ends it, and the key does not start like a remark. -/
structure PlainKey (key : List Char) : Prop where
  plain : ∀ c ∈ key, isBlank c = false ∧ c ∉ ['=', ':', '\\']
  start : ∀ c, key.head? = some c → c ≠ '#' ∧ c ≠ '!'

/-- The value stays on its line, and does not start with what parts it from its key. -/
structure PlainValue (value : List Char) : Prop where
  plain : ∀ c ∈ value, c ∉ ['\\', '\n', '\r']
  start : ∀ c, value.head? = some c → isGap c = false

structure PlainPair (pair : String × String) : Prop where
  key : PlainKey pair.1.toList
  value : PlainValue pair.2.toList

instance (key : List Char) : Decidable (PlainKey key) :=
  decidable_of_iff (key.all (fun c => !isBlank c && !(['=', ':', '\\'].contains c)) = true ∧
      key.head?.all (fun c => c != '#' && c != '!') = true) <| by
    simp only [List.all_eq_true, Option.all_eq_true, Bool.and_eq_true, Bool.not_eq_true',
      List.contains_eq_mem, decide_eq_false_iff_not, bne_iff_ne]
    exact ⟨fun h => ⟨h.1, h.2⟩, fun h => ⟨h.plain, h.start⟩⟩

instance (value : List Char) : Decidable (PlainValue value) :=
  decidable_of_iff (value.all (fun c => !(['\\', '\n', '\r'].contains c)) = true ∧
      value.head?.all (!isGap ·) = true) <| by
    simp only [List.all_eq_true, Option.all_eq_true, Bool.not_eq_true', List.contains_eq_mem,
      decide_eq_false_iff_not]
    exact ⟨fun h => ⟨h.1, h.2⟩, fun h => ⟨h.plain, h.start⟩⟩

instance (pair : String × String) : Decidable (PlainPair pair) :=
  decidable_of_iff (PlainKey pair.1.toList ∧ PlainValue pair.2.toList)
    ⟨fun h => ⟨h.1, h.2⟩, fun h => ⟨h.key, h.value⟩⟩

/-- The pair as it stands on a line. -/
def pairLine (pair : String × String) : List Char := pair.1.toList ++ '=' :: pair.2.toList

theorem cutKey_plainKey {key : List Char} (h : ∀ c ∈ key, isBlank c = false ∧ c ∉ ['=', ':', '\\'])
    (value : List Char) : cutKey (key ++ '=' :: value) = (key, '=' :: value) := by
  induction key with
  | nil => rfl
  | cons c key ih =>
    obtain ⟨hblank, hmark⟩ := h c (List.mem_cons_self ..)
    simp only [List.mem_cons, List.not_mem_nil, or_false, not_or] at hmark
    have hends : endsKey c = false := endsKey_char ⟨hmark.1, hmark.2.1⟩ hblank
    rw [List.cons_append, cutKey_plain hmark.2.2 hends,
      ih fun d hd => h d (List.mem_cons_of_mem _ hd)]

theorem dropGap_equals {value : List Char} (h : ∀ c, value.head? = some c → isGap c = false) :
    dropGap ('=' :: value) = value := by
  have hvalue : value.dropWhile isGap = value := by
    cases value with
    | nil => rfl
    | cons c value => exact List.dropWhile_cons_of_neg (by simp [h c rfl])
  exact hvalue

section

variable {pair : String × String} (h : PlainPair pair)

include h

theorem not_backslash_mem_pairLine : '\\' ∉ pairLine pair := by
  intro hmem
  rcases List.mem_append.mp hmem with hkey | hvalue
  · exact (h.key.plain _ hkey).2 (by decide)
  · exact h.value.plain _ ((List.mem_cons.mp hvalue).resolve_left (by decide)) (by decide)

theorem readLine_pairLine : readLine (pairLine pair) = pair := by
  have hcut := cutKey_plainKey h.key.plain pair.2.toList
  have hkey : '\\' ∉ pair.1.toList := fun hmem => (h.key.plain _ hmem).2 (by decide)
  have hvalue : '\\' ∉ pair.2.toList := fun hmem => h.value.plain _ hmem (by decide)
  simp only [readLine, pairLine, splitLine, hcut, dropGap_equals h.value.start,
    unescape_of_no_backslash hkey, unescape_of_no_backslash hvalue, String.ofList_toList]

theorem inline_pairLine : Inline (pairLine pair) := by
  have hkey : Inline pair.1.toList := fun c hc => by
    have hblank := (h.key.plain c hc).1
    constructor <;> rintro rfl <;> cases hblank
  have hvalue : Inline pair.2.toList := fun c hc => by
    have hplain := h.value.plain c hc
    simp only [List.mem_cons, List.not_mem_nil, or_false, not_or] at hplain
    exact hplain.2
  exact hkey.append (List.forall_mem_cons.mpr ⟨by decide, hvalue⟩)

/-- The line of a pair starts with a character that is neither a blank nor the sign of a remark. -/
theorem head_pairLine : ∃ c rest, pairLine pair = c :: rest ∧ isBlank c = false ∧
    isRemark (pairLine pair) = false := by
  unfold pairLine
  cases hkey : pair.1.toList with
  | nil => exact ⟨'=', _, rfl, rfl, rfl⟩
  | cons c key =>
    have hblank : isBlank c = false := (h.key.plain c (hkey ▸ List.mem_cons_self ..)).1
    have hremark := h.key.start c (by rw [hkey]; rfl)
    exact ⟨c, _, rfl, hblank, by simp [isRemark, hremark]⟩

theorem joinLines_pairLine (rest : List (List Char)) :
    joinLines none (pairLine pair :: rest) = pairLine pair :: joinLines none rest := by
  obtain ⟨c, tail, hline, hblank, hremark⟩ := head_pairLine h
  have htrim : trimStart (pairLine pair) = pairLine pair := by
    rw [hline]
    exact trimStart_of_not_blank hblank
  have hopen : continues (pairLine pair) = false :=
    continues_of_no_backslash (not_backslash_mem_pairLine h)
  rw [joinLines, htrim, hremark, hopen]
  rfl

end

/-! ## Texts -/

section

variable {pairs : List (String × String)} (hplain : ∀ pair ∈ pairs, PlainPair pair)

include hplain

theorem joinLines_pairLines : joinLines none (pairs.map pairLine) = pairs.map pairLine := by
  induction pairs with
  | nil => rfl
  | cons pair pairs ih =>
    rw [List.map_cons, joinLines_pairLine (hplain pair (List.mem_cons_self ..)),
      ih fun other hmem => hplain other (List.mem_cons_of_mem _ hmem)]

theorem map_readLine_pairLine : (pairs.map pairLine).map readLine = pairs := by
  have hread : ∀ pair ∈ pairs, (readLine ∘ pairLine) pair = id pair := fun pair hpair =>
    readLine_pairLine (hplain pair hpair)
  rw [List.map_map, List.map_congr_left hread, List.map_id]

/-- Pairs that stand on lines as they are, in their order and with their repeated keys. -/
theorem ofText_of_onLines {text : List Char} (h : OnLines (pairs.map pairLine) text) :
    Source.ofText text = Source.ofPairs pairs := by
  have hlines : lines text = pairs.map pairLine :=
    lines_of_onLines h fun line hline => by
      obtain ⟨pair, hpair, rfl⟩ := List.mem_map.mp hline
      exact inline_pairLine (hplain pair hpair)
  rw [Source.ofText, logicalLines, hlines, joinLines_pairLines hplain, map_readLine_pairLine hplain]

end

end PlanArchive.Definition
