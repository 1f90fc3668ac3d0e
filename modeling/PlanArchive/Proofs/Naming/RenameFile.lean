import PlanArchive.Archive.Startup
import PlanArchive.Proofs.Archive.PlainSource
import PlanArchive.Proofs.Naming.Chains
import PlanArchive.Proofs.Text.Letter

/-!
# Renames in a file

The lines `old=new` of a file are definitions: of several lines for a name only the last one is
left before any of them comes to the table. Renames of a name to itself are passed over by the
table alone. So a file means what its pairs mean, but for a name that is renamed to another and
then, last, to itself: the file has nothing left of it, while the pairs keep the earlier rename
(`ofFile_onLines`).
-/

namespace PlanArchive.Naming

open Definition Text

/-! ## Names -/

/-- Letters, digits, dots and dollar signs. -/
def isNameChar (c : Char) : Bool := isLetter c || isNumeral c || c == '.' || c == '$'

def Named (name : String) : Prop := ∀ c ∈ name.toList, isNameChar c = true

instance (name : String) : Decidable (Named name) :=
  decidable_of_iff (name.toList.all isNameChar = true) List.all_eq_true

theorem isBlank_of_isNameChar {c : Char} (h : isNameChar c = true) : isBlank c = false := by
  simp only [isNameChar, Bool.or_eq_true, beq_iff_eq] at h
  rcases h with ((hletter | hnumeral) | rfl) | rfl
  · exact isBlank_of_isLetter hletter
  · exact isBlank_of_isNumeral hnumeral
  · rfl
  · rfl

theorem not_mark_of_isNameChar {c : Char} (h : isNameChar c = true) :
    c ∉ ['=', ':', '\\', '#', '!'] := by
  have hmarks : ['=', ':', '\\', '#', '!'].all (!isNameChar ·) = true := by decide +kernel
  intro hmem
  have hmark := List.all_eq_true.mp hmarks c hmem
  rw [h] at hmark
  cases hmark

/-- Names can stand on a line as they are. -/
theorem plainPair_of_named {pair : String × String} (hold : Named pair.1) (hnew : Named pair.2) :
    PlainPair pair := by
  have hmark : ∀ {c : Char}, isNameChar c = true →
      (c ≠ '=' ∧ c ≠ ':' ∧ c ≠ '\\') ∧ c ≠ '#' ∧ c ≠ '!' := fun h => by
    have hnot := not_mark_of_isNameChar h
    simp only [List.mem_cons, List.not_mem_nil, or_false, not_or] at hnot
    exact ⟨⟨hnot.1, hnot.2.1, hnot.2.2.1⟩, hnot.2.2.2⟩
  refine ⟨⟨fun c hc => ⟨isBlank_of_isNameChar (hold c hc), ?_⟩, fun c hc => ?_⟩,
    ⟨fun c hc => ?_, fun c hc => ?_⟩⟩
  · simpa only [List.mem_cons, List.not_mem_nil, or_false, not_or] using (hmark (hold c hc)).1
  · exact (hmark (hold c (List.mem_of_head? hc))).2
  · have hblank := isBlank_of_isNameChar (hnew c hc)
    simp only [List.mem_cons, List.not_mem_nil, or_false, not_or]
    refine ⟨(hmark (hnew c hc)).1.2.2, ?_, ?_⟩ <;> rintro rfl <;> cases hblank
  · have hblank := isBlank_of_isNameChar (hnew c (List.mem_of_head? hc))
    cases hgap : isGap c with
    | false => rfl
    | true => rw [(gap_char hgap).1] at hblank; cases hblank

/-! ## What repeated names leave -/

namespace Renames

variable {pairs : List (String × String)} {name : String}

/-- The name is renamed to itself last, and to another name before. -/
def TakenBack (pairs : List (String × String)) (name : String) : Prop :=
  Keyed.lastValue? name pairs = some name ∧ ∃ new, new ≠ name ∧ (name, new) ∈ pairs

theorem renamed?_concat (pairs : List (String × String)) (pair : String × String)
    (name : String) : renamed? (pairs ++ [pair]) name =
      if pair.1 = name ∧ pair.2 ≠ name then some pair.2 else renamed? pairs name := by
  unfold renamed?
  rw [List.filter_append]
  by_cases hself : pair.1 = pair.2
  · have hnot : ¬(pair.1 = name ∧ pair.2 ≠ name) := fun ⟨hname, hne⟩ => hne (hself ▸ hname)
    rw [if_neg hnot]
    simp [hself]
  · have hkept : [pair].filter (fun pair => pair.1 ≠ pair.2) = [pair] := by simp [hself]
    rw [hkept, Keyed.lastValue?_concat]
    by_cases hname : pair.1 = name
    · have hne : pair.2 ≠ name := fun h => hself (hname.trans h.symm)
      rw [if_pos hname, if_pos ⟨hname, hne⟩]
    · rw [if_neg hname, if_neg fun h => hname h.1]

/-- A last rename to another name is in force. -/
theorem renamed?_of_last {new : String} (h : Keyed.lastValue? name pairs = some new)
    (hne : new ≠ name) : renamed? pairs name = some new := by
  induction pairs using List.reverseRecOn with
  | nil => cases h
  | append_singleton pairs pair ih =>
    rw [Keyed.lastValue?_concat] at h
    rw [renamed?_concat]
    by_cases hname : pair.1 = name
    · rw [if_pos hname] at h
      obtain rfl := Option.some.inj h
      exact if_pos ⟨hname, hne⟩
    · rw [if_neg hname] at h
      rw [if_neg fun h => hname h.1]
      exact ih h

theorem renamed?_eq_none_iff :
    renamed? pairs name = none ↔ ∀ new, (name, new) ∈ pairs → new = name := by
  unfold renamed? Keyed.lastValue?
  rw [Option.map_eq_none_iff, List.getLast?_eq_none_iff, List.filter_eq_nil_iff]
  constructor
  · intro h new hmem
    by_contra hne
    have hother : decide (name ≠ new) = true := decide_eq_true (Ne.symm hne)
    exact h (name, new) (List.mem_filter.mpr ⟨hmem, hother⟩) (beq_self_eq_true name)
  · rintro h ⟨old, new⟩ hmem hname
    obtain ⟨hmem, hne⟩ := List.mem_filter.mp hmem
    obtain rfl : old = name := beq_iff_eq.mp hname
    exact of_decide_eq_true hne (h new hmem).symm

/-- The last rename of a name is what all of them say, unless it takes another back. -/
theorem renamed?_settled (h : ¬TakenBack pairs name) :
    renamed? (Keyed.settled pairs) name = renamed? pairs name := by
  by_cases hother : ∃ new, new ≠ name ∧ (name, new) ∈ pairs
  · obtain ⟨new, hne, hmem⟩ := hother
    have hsome : (Keyed.lastValue? name pairs).isSome := by
      rw [Keyed.lastValue?, Option.isSome_map]
      exact Keyed.isSome_last?_iff.mpr ⟨_, hmem, beq_self_eq_true name⟩
    obtain ⟨last, hlast⟩ := Option.isSome_iff_exists.mp hsome
    have hkept : last ≠ name := by
      rintro rfl
      exact h ⟨hlast, new, hne, hmem⟩
    have hsettled := (Keyed.lastValue?_settled name pairs).trans hlast
    rw [renamed?_of_last hsettled hkept, renamed?_of_last hlast hkept]
  · have hself : ∀ new, (name, new) ∈ pairs → new = name := fun new hmem => by
      by_contra hne
      exact hother ⟨new, hne, hmem⟩
    rw [renamed?_eq_none_iff.mpr hself, renamed?_eq_none_iff]
    exact fun new hmem => hself new (Keyed.mem_of_lastValue? (Keyed.mem_settled.mp hmem))

theorem renamed?_takenBack (h : TakenBack pairs name) :
    renamed? (Keyed.settled pairs) name = none ∧ renamed? pairs name ≠ none := by
  obtain ⟨hlast, new, hne, hmem⟩ := h
  constructor
  · rw [renamed?_eq_none_iff]
    intro other hother
    exact Option.some.inj ((Keyed.mem_settled.mp hother).symm.trans hlast)
  · intro hnone
    exact hne (renamed?_eq_none_iff.mp hnone new hmem)

/-! ## Tables that are looked up alike -/

theorem follow_congr {renames other : Renames} (h : ∀ name, renames.next? name = other.next? name)
    (n : Nat) (name : String) : renames.follow n name = other.follow n name := by
  induction n generalizing name with
  | zero => rfl
  | succ n ih =>
    unfold follow
    rw [h]
    cases other.next? name with
    | none => rfl
    | some new => exact ih new

/-- The settled pairs are the same table as all of them just when no name is taken back. -/
theorem alike_settled_iff : (∀ name,
    (ofPairs (Keyed.settled pairs)).current name = (ofPairs pairs).current name ∧
      (ofPairs (Keyed.settled pairs)).isRenamed name = (ofPairs pairs).isRenamed name) ↔
    ∀ name, ¬TakenBack pairs name := by
  constructor
  · intro h name hback
    obtain ⟨hnone, hsome⟩ := renamed?_takenBack hback
    have hrenamed := (h name).2
    rw [isRenamed_ofPairs, isRenamed_ofPairs, hnone] at hrenamed
    exact hsome (Option.isNone_iff_eq_none.mp (Option.isSome_eq_false_iff.mp hrenamed.symm))
  · intro h name
    have hnext : ∀ name, (ofPairs (Keyed.settled pairs)).next? name = (ofPairs pairs).next? name :=
      fun name => by rw [next?_ofPairs, next?_ofPairs, renamed?_settled (h name)]
    refine ⟨follow_congr hnext maxSteps name, ?_⟩
    rw [isRenamed, isRenamed, hnext]

/-! ## Files -/

theorem ofFile_lines (hplain : ∀ pair ∈ pairs, PlainPair pair) {text : List Char}
    (h : OnLines (pairs.map pairLine) text) (path : String) :
    Renames.ofFile path (.ok (Utf8.encode text)) = .ok (ofPairs (Keyed.settled pairs)) := by
  have hsource := Archive.definitionsOf_onLines hplain h
  rw [← Keyed.ofPairs_eq_settled]
  exact congrArg (fun source : Definition.Source => Except.ok (ofPairs source.pairs)) hsource

/-- A file of lines `old=new` is read as the table of the last rename of each name, which is the
table of all its pairs, for every name, just when no name is renamed to itself last and to another
name before. -/
theorem ofFile_onLines {pairs : List (String × String)}
    (hnames : ∀ pair ∈ pairs, Named pair.1 ∧ Named pair.2) {text : List Char}
    (h : OnLines (pairs.map pairLine) text) (path : String) :
    ∃ filed, Renames.ofFile path (.ok (Utf8.encode text)) = .ok filed ∧
      filed = ofPairs (Keyed.settled pairs) ∧
      ((∀ name, filed.current name = (ofPairs pairs).current name ∧
          filed.isRenamed name = (ofPairs pairs).isRenamed name) ↔
        ∀ name, ¬TakenBack pairs name) := by
  have hplain : ∀ pair ∈ pairs, PlainPair pair := fun pair hpair =>
    plainPair_of_named (hnames pair hpair).1 (hnames pair hpair).2
  exact ⟨_, ofFile_lines hplain h path, rfl, alike_settled_iff⟩

/-- A name that is renamed twice, and one that is only renamed to itself. -/
def repeatedPairs : List (String × String) := [("a.B$1", "c"), ("d", "d"), ("a.B$1", "e2")]

def repeatedText : List Char := "a.B$1=c\r\nd=d\na.B$1=e2".toList

theorem onLines_repeatedText : OnLines (repeatedPairs.map pairLine) repeatedText := by
  have hreturn : ['\r', '\n'] ∈ lineEnds := by decide
  have hfeed : ['\n'] ∈ lineEnds := by decide
  have hlast : pairLine ("a.B$1", "e2") ≠ [] := by decide
  exact .line hreturn (.line hfeed (.last hlast))

theorem ofFile_onLines_repeated :
    (∀ pair ∈ repeatedPairs, Named pair.1 ∧ Named pair.2) ∧
      OnLines (repeatedPairs.map pairLine) repeatedText ∧
      ∃ filed, Renames.ofFile "m" (.ok (Utf8.encode repeatedText)) = .ok filed ∧
        ∀ name, filed.current name = (ofPairs repeatedPairs).current name ∧
          filed.isRenamed name = (ofPairs repeatedPairs).isRenamed name := by
  have hnames : ∀ pair ∈ repeatedPairs, Named pair.1 ∧ Named pair.2 := by decide +kernel
  obtain ⟨filed, hfile, -, halike⟩ := ofFile_onLines hnames onLines_repeatedText "m"
  refine ⟨hnames, onLines_repeatedText, filed, hfile, halike.mpr ?_⟩
  rintro name ⟨hlast, new, hne, hmem⟩
  have htwice : ∀ pair ∈ repeatedPairs, pair.2 ≠ pair.1 →
      Keyed.lastValue? pair.1 repeatedPairs ≠ some pair.1 := by decide +kernel
  exact htwice (name, new) hmem hne hlast

/-- A file can lack a rename that its pairs have: the name is renamed to itself last. -/
theorem takenBack_forgotten :
    ¬ ∀ (pairs : List (String × String)) (text : List Char) (path : String) (filed : Renames),
      (∀ pair ∈ pairs, Named pair.1 ∧ Named pair.2) → OnLines (pairs.map pairLine) text →
      Renames.ofFile path (.ok (Utf8.encode text)) = .ok filed →
      ∀ name, filed.current name = (ofPairs pairs).current name ∧
        filed.isRenamed name = (ofPairs pairs).isRenamed name := by
  intro h
  have hnames : ∀ pair ∈ [("a", "b"), ("a", "a")], Named pair.1 ∧ Named pair.2 := by decide +kernel
  have hplain : ∀ pair ∈ [("a", "b"), ("a", "a")], PlainPair pair := fun pair hpair =>
    plainPair_of_named (hnames pair hpair).1 (hnames pair hpair).2
  have hlines := onLines_feeds ([("a", "b"), ("a", "a")].map pairLine)
  have hcurrent := (h _ _ "m" _ hnames hlines (ofFile_lines hplain hlines "m") "a").1
  exact absurd hcurrent (by decide +kernel)

end Renames

end PlanArchive.Naming
