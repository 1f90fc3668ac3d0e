import PlanArchive.Archive.Basic
import PlanArchive.Proofs.Definition.PlainLines
import PlanArchive.Proofs.Keyed
import PlanArchive.Proofs.Text.LineEnd
import PlanArchive.Proofs.Text.Utf8

/-!
# Archives of pairs and of texts

An archive can be built of pairs or of the text of a file. The checksum is taken of the pairs one
after another in the first case, and of the lines without their ends in the second: it is the same
for pairs that stand on lines as they are, and so is all the rest (`ofSource_eq_ofContent`).
-/

namespace PlanArchive.Archive

open Definition Text

/-! ## Checksums -/

theorem not_isLineEnd_of_inline {cs : List Char} (h : Inline cs) {b : UInt8}
    (hb : b ∈ Utf8.encode cs) : Schema.isLineEnd b = false := by
  have hfeed : 0x0A ∉ Utf8.encode cs :=
    Utf8.not_mem_encode (d := '\n') (by decide) fun hmem => (h _ hmem).1 rfl
  have hreturn : 0x0D ∉ Utf8.encode cs :=
    Utf8.not_mem_encode (d := '\r') (by decide) fun hmem => (h _ hmem).2 rfl
  rw [Schema.isLineEnd, Bool.or_eq_false_iff]
  exact ⟨beq_false_of_ne (ne_of_mem_of_not_mem hb hfeed),
    beq_false_of_ne (ne_of_mem_of_not_mem hb hreturn)⟩

theorem filter_encode_inline {cs : List Char} (h : Inline cs) :
    (Utf8.encode cs).filter (!Schema.isLineEnd ·) = Utf8.encode cs :=
  List.filter_eq_self.mpr fun b hb => by simp [not_isLineEnd_of_inline h hb]

theorem filter_encode_lineEnd {lineEnd : List Char} (h : lineEnd ∈ lineEnds) :
    (Utf8.encode lineEnd).filter (!Schema.isLineEnd ·) = [] := by
  have hall : ∀ ending ∈ lineEnds,
      (Utf8.encode ending).filter (!Schema.isLineEnd ·) = [] := by decide
  exact hall lineEnd h

/-- What is left of a text without the ends of its lines. -/
theorem filter_encode_onLines {all : List (List Char)} {text : List Char} (h : OnLines all text)
    (hinline : ∀ line ∈ all, Inline line) :
    (Utf8.encode text).filter (!Schema.isLineEnd ·) = Utf8.encode all.flatten := by
  induction h with
  | done => rfl
  | @last line hne =>
    rw [List.flatten_singleton]
    exact filter_encode_inline (hinline line (List.mem_cons_self ..))
  | @line line lineEnd text rest hend _ ih =>
    have hrest := ih fun other hmem => hinline other (List.mem_cons_of_mem _ hmem)
    rw [Utf8.encode_append, Utf8.encode_append, List.filter_append, List.filter_append,
      filter_encode_inline (hinline line (List.mem_cons_self ..)), filter_encode_lineEnd hend,
      hrest, List.nil_append, List.flatten_cons, Utf8.encode_append]

theorem checksum_onLines {all : List (List Char)} {text : List Char} (h : OnLines all text)
    (hinline : ∀ line ∈ all, Inline line) :
    Schema.checksumOf (Utf8.encode text) = Schema.checksumOf (Utf8.encode all.flatten) := by
  have hflat : Inline all.flatten := fun c hc => by
    obtain ⟨line, hline, hc⟩ := List.mem_flatten.mp hc
    exact hinline line hline c hc
  rw [Schema.checksumOf, Schema.checksumOf, filter_encode_onLines h hinline,
    filter_encode_inline hflat]

/-! ## Archives -/

theorem toList_rendered (source : Definition.Source) :
    source.rendered.toList = (source.pairs.map pairLine).flatten := by
  have hpair (pair : String × String) :
      (pair.1 ++ "=" ++ pair.2).toList = pairLine pair := by
    simp [pairLine]
  rw [Definition.Source.rendered, String.toList_join, List.flatMap_map]
  exact congrArg List.flatten (List.map_congr_left fun pair _ => hpair pair)

/-- Pairs on lines of a file are these definitions. -/
theorem definitionsOf_onLines {pairs : List (String × String)} {text : List Char}
    (hplain : ∀ pair ∈ pairs, PlainPair pair) (h : OnLines (pairs.map pairLine) text) :
    definitionsOf (Utf8.encode text) = .ofPairs pairs := by
  rw [definitionsOf, Utf8.decodeLossy_encode, ofText_of_onLines hplain h]

theorem ofSource_of_onLines (setup : Setup) {pairs : List (String × String)} {text : List Char}
    (hkeys : (Keyed.keys pairs).Nodup) (hplain : ∀ pair ∈ pairs, PlainPair pair)
    (h : OnLines (pairs.map pairLine) text) :
    ofSource setup (.ofPairs pairs) = ofContent setup (Utf8.encode text) := by
  have hinline : ∀ line ∈ pairs.map pairLine, Inline line := by
    intro line hline
    obtain ⟨pair, hpair, rfl⟩ := List.mem_map.mp hline
    exact inline_pairLine (hplain pair hpair)
  have hpairs : (Definition.Source.ofPairs pairs).pairs = pairs := Keyed.ofPairs_of_nodup hkeys
  have hchecksum : Schema.checksumOf (utf8 (Definition.Source.ofPairs pairs).rendered) =
      Schema.checksumOf (Utf8.encode text) := by
    rw [utf8, toList_rendered, hpairs, checksum_onLines h hinline]
  rw [ofSource, ofContent, hchecksum, definitionsOf_onLines hplain h]

/-- The same archive from pairs with a key each and from their lines. -/
theorem ofSource_eq_ofContent (setup : Setup) {pairs : List (String × String)}
    (hkeys : (Keyed.keys pairs).Nodup) (hplain : ∀ pair ∈ pairs, PlainPair pair) :
    ofSource setup (.ofPairs pairs) =
      ofContent setup (Utf8.encode (pairs.flatMap fun pair => pairLine pair ++ ['\n'])) := by
  have hlines := onLines_feeds (pairs.map pairLine)
  rw [List.flatMap_map] at hlines
  exact ofSource_of_onLines setup hkeys hplain hlines

/-- An empty pair, separators and blanks in a value, and a value that looks like a remark. -/
theorem ofSource_eq_ofContent_odd :
    ofSource .bare (.ofPairs [("", ""), ("A", "x = y:\t\u2003"), ("_b,#C!", "#!=")]) =
      ofContent .bare (utf8 "=\nA=x = y:\t\u2003\n_b,#C!=#!=\n") :=
  ofSource_eq_ofContent .bare (by decide) (by decide +kernel)

end PlanArchive.Archive
