import PlanArchive.Archive.Basic
import PlanArchive.Proofs.Keyed
import PlanArchive.Proofs.Naming.Tags

/-!
# The last line wins

Lines of a definition text may claim the same tag, the same type or the version. A line that repeats
the key of an earlier one is put in its place; of the lines that are left the last one wins
(`ofContent_settled`). So a tag may stand for the type of a line that is not the last one to claim
it (`last_line_overruled`).
-/

namespace PlanArchive

open Naming Definition Text

namespace Definition

/-- The lines of a definition text, each with its key and its value. -/
def linesOf (content : Bytes) : List (String × String) :=
  (logicalLines (Utf8.decodeLossy content)).map readLine

def lastLine? (kind : String × String → Bool) (lines : List (String × String)) :
    Option (String × String) :=
  (lines.filter kind).getLast?

/-- The tags that a line gives to its type. -/
def tagsIn (line : String × String) : List String :=
  if line.1.toList.head? = some '_' then [] else TagTable.tagsOf line.1

def typeIn (line : String × String) : String := trimmed line.2

def claimsTag (tag : String) (line : String × String) : Bool := (tagsIn line).contains tag

/-- The line gives the type at least one tag. -/
def definesType (typeId : String) (line : String × String) : Bool :=
  typeIn line == typeId && !(tagsIn line).isEmpty

def declaresVersion (line : String × String) : Bool := sameIgnoringCase line.1 "_version"

theorem lastLine?_concat (kind : String × String → Bool) (lines : List (String × String))
    (line : String × String) :
    lastLine? kind (lines ++ [line]) = if kind line then some line else lastLine? kind lines :=
  Keyed.last?_concat kind lines line

/-! ## What a line says -/

/-- The entry of a line. -/
def Entry.ofLine (line : String × String) : Entry := .ofPair line.1 line.2

theorem Entry.ofLine_plain {line : String × String} (h : line.1.toList.head? ≠ some '_') :
    Entry.ofLine line = .tags line.1 (typeIn line) := by
  unfold Entry.ofLine Entry.ofPair
  split
  · rename_i rest heq
    rw [heq] at h
    exact absurd rfl h
  · rfl

theorem Entry.ofLine_reserved {line : String × String} (h : line.1.toList.head? = some '_')
    (names typeId : String) : Entry.ofLine line ≠ .tags names typeId := by
  unfold Entry.ofLine Entry.ofPair
  split
  · dsimp only
    split
    · exact nofun
    split
    · exact nofun
    split
    · exact nofun
    · exact nofun
  · rename_i hnone
    obtain ⟨rest, hrest⟩ : ∃ rest, line.1.toList = '_' :: rest := by
      cases hkey : line.1.toList with
      | nil => rw [hkey] at h; cases h
      | cons c rest =>
        rw [hkey] at h
        exact ⟨rest, by rw [Option.some.inj h]⟩
    exact absurd hrest (hnone rest)

theorem toLower_eq_underscore {c : Char} : c.toLower = '_' ↔ c = '_' := by
  constructor
  · intro h
    unfold Char.toLower at h
    split at h
    · rename_i hupper
      have hnumber : c.val + 32 = 95 := congrArg Char.val h
      have hfirst : c.val ≥ 65 := hupper.1
      have hlast : c.val ≤ 90 := hupper.2
      rw [ge_iff_le, UInt32.le_iff_toNat_le] at hfirst
      rw [UInt32.le_iff_toNat_le] at hlast
      have htoNat := congrArg UInt32.toNat hnumber
      rw [UInt32.toNat_add] at htoNat
      simp at hfirst hlast htoNat
      omega
    · exact h
  · rintro rfl
    rfl

/-- The version that an entry declares. -/
def Entry.version? : Entry → Option String
  | .version value => some value
  | _ => none

theorem Entry.version?_ofLine (line : String × String) :
    (Entry.ofLine line).version? = if declaresVersion line then some (typeIn line) else none := by
  have hkey : declaresVersion line =
      (line.1.toList.map Char.toLower == '_' :: "version".toList.map Char.toLower) := rfl
  rw [hkey]
  unfold Entry.ofLine Entry.ofPair
  split
  · rename_i rest heq
    rw [heq, List.map_cons]
    have hsame : ('_'.toLower :: rest.map Char.toLower ==
        '_' :: "version".toList.map Char.toLower) =
      sameIgnoringCase (String.ofList rest) "version" := by
      have hrest : (String.ofList rest).toList = rest := String.toList_ofList
      rw [sameIgnoringCase, hrest, List.cons_beq_cons, toLower_eq_underscore.mpr rfl,
        beq_self_eq_true, Bool.true_and]
    rw [hsame]
    dsimp only
    split
    · rfl
    split
    · rfl
    split
    · rfl
    · rfl
  · rename_i hnone
    rw [if_neg ?_]
    · rfl
    · intro h
      cases hchars : line.1.toList with
      | nil => simp [hchars] at h
      | cons c rest =>
        rw [hchars, List.map_cons] at h
        have hfirst : c.toLower = '_' := by simp at h; exact h.1
        exact hnone rest (by rw [hchars, toLower_eq_underscore.mp hfirst])

end Definition

namespace Archive

/-! ## What the lines together say -/

theorem tagsOf_concat (entries : List Entry) (entry : Entry) :
    tagsOf (entries ++ [entry]) = match entry with
      | .tags names typeId => (tagsOf entries).register names typeId
      | _ => tagsOf entries := by
  rw [tagsOf, List.foldl_append]
  rfl

/-- The tags of the entries before a line, and what the line adds to them. -/
theorem tagsOf_concat_line (entries : List Entry) (line : String × String) :
    tagsOf (entries ++ [Entry.ofLine line]) = tagsOf entries ∧ tagsIn line = [] ∨
      tagsOf (entries ++ [Entry.ofLine line]) = (tagsOf entries).register line.1 (typeIn line) ∧
        tagsIn line = TagTable.tagsOf line.1 := by
  rw [tagsOf_concat]
  by_cases h : line.1.toList.head? = some '_'
  · refine .inl ⟨?_, if_pos h⟩
    split
    · rename_i names typeId heq
      exact absurd heq (Entry.ofLine_reserved h names typeId)
    · rfl
  · refine .inr ⟨?_, if_neg h⟩
    rw [Entry.ofLine_plain h]

theorem lookupType_lines (lines : List (String × String)) (tag : String) :
    (tagsOf (lines.map Entry.ofLine)).lookupType tag =
      (lastLine? (claimsTag tag) lines).map typeIn := by
  induction lines using List.reverseRecOn with
  | nil => rfl
  | append_singleton lines line ih =>
    rw [List.map_append, List.map_singleton, lastLine?_concat, claimsTag]
    rcases tagsOf_concat_line (lines.map Entry.ofLine) line with ⟨htable, hnone⟩ | ⟨htable, htags⟩
    · rw [htable, hnone, ih]
      rfl
    · rw [htable, htags, TagTable.lookupType_register, ih]
      by_cases hmem : tag ∈ TagTable.tagsOf line.1
      · simp [hmem]
      · simp [hmem]

theorem lookupTag_lines (lines : List (String × String)) (typeId : String) :
    (tagsOf (lines.map Entry.ofLine)).lookupTag typeId =
      (lastLine? (definesType typeId) lines).bind fun line => (tagsIn line).head? := by
  induction lines using List.reverseRecOn with
  | nil => rfl
  | append_singleton lines line ih =>
    rw [List.map_append, List.map_singleton, lastLine?_concat, definesType]
    rcases tagsOf_concat_line (lines.map Entry.ofLine) line with ⟨htable, hnone⟩ | ⟨htable, htags⟩
    · rw [htable, hnone, ih]
      simp
    · rw [htable, TagTable.lookupTag_register, ← htags, ih]
      by_cases htype : typeIn line = typeId
      · cases hlist : tagsIn line with
        | nil => simp [htype]
        | cons primary others => simp [htype, hlist]
      · simp [htype]

theorem versionOf_concat (entries : List Entry) (entry : Entry) :
    versionOf (entries ++ [entry]) = entry.version?.getD (versionOf entries) := by
  unfold versionOf
  rw [List.filterMap_append]
  cases entry with
  | version value => simp [Entry.version?]
  | _ => simp [Entry.version?]

theorem versionOf_lines (lines : List (String × String)) :
    versionOf (lines.map Entry.ofLine) =
      ((lastLine? declaresVersion lines).map typeIn).getD "" := by
  induction lines using List.reverseRecOn with
  | nil => rfl
  | append_singleton lines line ih =>
    rw [List.map_append, List.map_singleton, lastLine?_concat, versionOf_concat,
      Entry.version?_ofLine, ih]
    cases declaresVersion line <;> rfl

/-! ## Archives -/

/-- What tags stand for, how types are written and which version is declared, by the last line
that says so, once each line that repeats a key has taken the place of the first one. -/
theorem ofContent_settled (setup : Setup) (content : Bytes) :
    (∀ tag, (ofContent setup content).resolver.tags.typeOf tag =
        ((lastLine? (claimsTag tag) (Keyed.settled (linesOf content))).map typeIn).getD tag) ∧
      (∀ typeId, (ofContent setup content).resolver.tags.tagFor typeId =
        ((lastLine? (definesType typeId) (Keyed.settled (linesOf content))).bind fun line =>
          (tagsIn line).head?).getD typeId) ∧
      (ofContent setup content).schema.declared =
        ((lastLine? declaresVersion (Keyed.settled (linesOf content))).map typeIn).getD "" := by
  have hentries : (definitionsOf content).entries =
      (Keyed.settled (linesOf content)).map Entry.ofLine := by
    rw [← Keyed.ofPairs_eq_settled]
    rfl
  have htags : (ofContent setup content).resolver.tags =
      tagsOf ((Keyed.settled (linesOf content)).map Entry.ofLine) := by
    rw [← hentries]
    rfl
  have hdeclared : (ofContent setup content).schema.declared =
      versionOf ((Keyed.settled (linesOf content)).map Entry.ofLine) := by
    rw [← hentries]
    rfl
  refine ⟨fun tag => ?_, fun typeId => ?_, ?_⟩
  · rw [htags, TagTable.typeOf, lookupType_lines]
  · rw [htags, TagTable.tagFor, lookupTag_lines]
  · rw [hdeclared, versionOf_lines]

/-- Lines that repeat the keys of lines before others. -/
def repeatedKeys : Bytes :=
  utf8 "A=one\nB,A=two\nA=three\nC=four\nD=four\nC=four\n_version=1\n_VERSION=2\n_version=3\n"

/-- The last line that claims a tag, defines a type or declares the version need not be the one
that counts. -/
theorem last_line_overruled :
    ¬ (∀ content tag line, lastLine? (claimsTag tag) (linesOf content) = some line →
        (ofContent .bare content).resolver.tags.typeOf tag = typeIn line) ∧
      ¬ (∀ content typeId line tag, lastLine? (definesType typeId) (linesOf content) = some line →
        (tagsIn line).head? = some tag →
        (ofContent .bare content).resolver.tags.tagFor typeId = tag) ∧
      ¬ (∀ content line, lastLine? declaresVersion (linesOf content) = some line →
        (ofContent .bare content).schema.declared = typeIn line) := by
  refine ⟨fun h => ?_, fun h => ?_, fun h => ?_⟩
  · have hlast : lastLine? (claimsTag "A") (linesOf repeatedKeys) = some ("A", "three") := by
      decide +kernel
    have htype : (ofContent .bare repeatedKeys).resolver.tags.typeOf "A" = "two" := by decide +kernel
    rw [h _ _ _ hlast] at htype
    exact absurd htype (by decide +kernel)
  · have hlast : lastLine? (definesType "four") (linesOf repeatedKeys) = some ("C", "four") := by
      decide +kernel
    have htag : (ofContent .bare repeatedKeys).resolver.tags.tagFor "four" = "D" := by decide +kernel
    rw [h _ _ _ "C" hlast (by decide +kernel)] at htag
    exact absurd htag (by decide +kernel)
  · have hlast : lastLine? declaresVersion (linesOf repeatedKeys) = some ("_version", "3") := by
      decide +kernel
    have hversion : (ofContent .bare repeatedKeys).schema.declared = "2" := by decide +kernel
    rw [h _ _ hlast] at hversion
    exact absurd hversion (by decide +kernel)

end Archive

end PlanArchive
