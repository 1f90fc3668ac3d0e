import PlanArchive.Proofs.Archive.Document
import PlanArchive.Proofs.Charset.SingleByte

/-!
# Documents in different charsets

A value that is saved in UTF-8 is saved in every charset of one octet too, and what is read back is
the same but for names: a character that the charset lacks becomes a reference to its number, which
is resolved in texts and in values, and nowhere else (`elementDocument_charsets`).
-/

namespace PlanArchive

open Coding Markup

/-- The charset has all characters of the names in the element. -/
def SingleByte.HasNames (charset : SingleByte) (root : Element) : Prop :=
  ∀ part : Element, part.Occurs root →
    (∀ c ∈ part.name.toList, (charset.encodeChar c).isSome = true) ∧
      ∀ pair ∈ part.attributes, ∀ c ∈ pair.1.toList, (charset.encodeChar c).isSome = true

theorem SingleByte.hasNames_iff (charset : SingleByte) (root : Element) :
    charset.HasNames root ↔ root.respelled charset.spelling = root := by
  rw [Element.respelled_eq_self_iff]
  simp only [Spelling.name_eq_self_iff]
  rfl

namespace Archive

theorem text_textIn (s : Spelling) (charset : Charset) (e : Element) :
    s.text (textIn charset e) = '<' :: '?' ::
      (charset.declaration ++ '?' :: '>' :: '\n' :: (s.text e.render ++ ['\n'])) := by
  have hdeclaration : s.text charset.declaration = charset.declaration :=
    s.text_ascii fun c hc => Codec.ascii_of_isPlain (charset.plain_of_mem_declaration c hc).1
  rw [textIn_eq]
  simp (disch := decide) only [s.text_ascii_cons, s.text_append, s.text_nil, hdeclaration]

theorem elementsOf_single (charset : SingleByte) (text : List Char) :
    elementsOf (.single charset) ⟨(Charset.single charset).octetsOf text, none⟩ =
      (readElements (charset.spelling.text text)).mapError .ofProblem := by
  have hdecode : (Charset.single charset).decode ((Charset.single charset).octetsOf text) =
      .ok (charset.spelling.text text) := by
    rw [Charset.decode, charset.decode?_octetsOf]
  rw [elementsOf, Source.read]
  exact congrArg (· >>= fun text => (readElements text).mapError Failure.ofProblem) hdecode

/-- A document reads back in every charset of one octet, the same as in UTF-8 but for its names. -/
theorem elementsOf_textIn {e : Element} (h : e.WellFormed) :
    ∃ root, elementsOf .utf8 ⟨Charset.utf8.octetsOf (textIn .utf8 e), none⟩ = .ok [root] ∧
      ∀ charset : SingleByte,
        elementsOf (.single charset)
            ⟨(Charset.single charset).octetsOf (textIn (.single charset) e), none⟩ =
          .ok [root.respelled charset.spelling] := by
  obtain ⟨root, -, hread⟩ := readElements_spelled h
  have hspelled : ∀ (s : Spelling) (charset : Charset),
      readElements (s.text (textIn charset e)) = .ok [root.respelled s] := fun s charset => by
    rw [text_textIn]
    exact hread s (fun hmem => (charset.plain_of_mem_declaration _ hmem).2.1 rfl)
      (fun hmem => (charset.plain_of_mem_declaration _ hmem).2.2 rfl)
  refine ⟨root, ?_, fun charset => ?_⟩
  · have hplain := hspelled .plain .utf8
    rw [Spelling.text_plain, Element.respelled_plain, textIn_eq] at hplain
    rw [Charset.octetsOf.eq_def, textIn_eq]
    show elementsOf .utf8 ⟨Text.Utf8.encode _, none⟩ = _
    rw [elementsOf_utf8 (by decide), hplain]
    rfl
  · rw [elementsOf_single, hspelled]
    rfl

/-- What is saved in UTF-8 is saved in a charset of one octet too, and read back as the same, but
for the names with characters that the charset lacks. -/
theorem elementDocument_charsets (archive other : Archive) {charset : SingleByte}
    (hcharset : archive.charset = .ok .utf8) (hother : other.charset = .ok (.single charset))
    (hresolver : other.resolver = archive.resolver) (hroster : other.roster = archive.roster)
    {value : Value} {bytes : Bytes} (h : archive.elementDocument value = .ok bytes) :
    ∃ bytes' root, other.elementDocument value = .ok bytes' ∧
      elementsOf .utf8 ⟨bytes, none⟩ = .ok [root] ∧
      elementsOf (.single charset) ⟨bytes', none⟩ = .ok [root.respelled charset.spelling] ∧
      (elementsOf (.single charset) ⟨bytes', none⟩ = elementsOf .utf8 ⟨bytes, none⟩ ↔
        charset.HasNames root) := by
  have hencoder : other.encoder none = archive.encoder none := by
    rw [encoder, encoder, hresolver, hroster]
  obtain ⟨e, hencode, rfl⟩ := (elementDocument_writable hcharset rfl).mp h
  have hsaved := (elementDocument_writable hother rfl).mpr ⟨e, hencoder ▸ hencode, rfl⟩
  obtain ⟨root, hroot, hrespelled⟩ := elementsOf_textIn (Encoder.wellFormed_encode _ hencode)
  refine ⟨_, root, hsaved, hroot, hrespelled charset, ?_⟩
  rw [hroot, hrespelled, Except.ok.injEq, List.singleton_inj, charset.hasNames_iff]

/-! ## A small archive in a charset of one octet -/

def latinSmall : Archive := { small with charset := .ok (.single .windows1252) }

/-- An object of one field. -/
def noted (field text : String) : Value := .object "TestPlan" [(field, .text text)] []

theorem encode_noted {field : String} (hname : isName field = true) (hfield : field ≠ entriesTag)
    (text : String) :
    (small.encoder none).encode (noted field text) =
      .ok { name := "TestPlan", children := [{ name := field, text := some text }] } := by
  have htag : isName "TestPlan" = true := by decide
  have hcoder : (small.encoder none).roster.coderFor "TestPlan" = .object := rfl
  have hpart : (small.encoder none).encodeField (field, .text text) =
      .ok { name := field, text := some text } := by
    refine Result.bind_eq_ok.mpr
      ⟨_, Encoder.startField_eq_ok.mpr ⟨hname, by rintro ⟨⟩, rfl⟩, ?_⟩
    rw [Encoder.fillField]
    rfl
  refine Encoder.encode_of_fill htag ((Encoder.fill_object _ hcoder).mpr
    ⟨[{ name := field, text := some text }], [], ?_, ?_, rfl⟩)
  · exact Encoder.encodeFields_eq_ok.mpr
      ⟨List.forall_mem_singleton.mpr hfield, .cons hpart .nil⟩
  · rw [Encoder.encodeAll]

theorem elementDocument_charsets_small :
    ∃ bytes, small.elementDocument (noted "name" "中") = .ok bytes ∧
      ∃ bytes' root, latinSmall.elementDocument (noted "name" "中") = .ok bytes' ∧
        elementsOf .utf8 ⟨bytes, none⟩ = .ok [root] ∧
        elementsOf (.single .windows1252) ⟨bytes', none⟩ =
          .ok [root.respelled SingleByte.windows1252.spelling] ∧
        (elementsOf (.single .windows1252) ⟨bytes', none⟩ = elementsOf .utf8 ⟨bytes, none⟩ ↔
          SingleByte.windows1252.HasNames root) := by
  have hname : isName "name" = true := by decide
  have hsaved : small.elementDocument (noted "name" "中") = .ok _ :=
    (elementDocument_writable rfl rfl).mpr ⟨_, encode_noted hname (by decide) "中", rfl⟩
  exact ⟨_, hsaved, elementDocument_charsets small latinSmall rfl rfl rfl rfl hsaved⟩

/-- The one child of the element, with its text. -/
def notedElement (field : String) : Element :=
  ⟨"TestPlan", [], none, [⟨field, [], some "x", [], 3⟩], 2⟩

set_option maxRecDepth 20000 in
/-- A name with a character that the charset lacks comes back as another name. -/
theorem lacking_name_misread :
    ∃ bytes bytes', small.elementDocument (noted "中" "x") = .ok bytes ∧
      latinSmall.elementDocument (noted "中" "x") = .ok bytes' ∧
      elementsOf .utf8 ⟨bytes, none⟩ = .ok [notedElement "中"] ∧
      elementsOf (.single .windows1252) ⟨bytes', none⟩ = .ok [notedElement "&#20013;"] ∧
      elementsOf (.single .windows1252) ⟨bytes', none⟩ ≠ elementsOf .utf8 ⟨bytes, none⟩ := by
  have hname : isName "中" = true := by decide +kernel
  have hencode := encode_noted hname (by decide) "x"
  have hplain : small.elementDocument (noted "中" "x") = .ok _ :=
    (elementDocument_writable rfl rfl).mpr ⟨_, hencode, rfl⟩
  have hlatin : latinSmall.elementDocument (noted "中" "x") = .ok _ :=
    (elementDocument_writable rfl rfl).mpr ⟨_, hencode, rfl⟩
  refine ⟨_, _, hplain, hlatin, rfl, rfl, fun h => ?_⟩
  have hsame : (.ok [notedElement "&#20013;"] : Except Failure (List Element)) =
      .ok [notedElement "中"] := h
  simp [notedElement] at hsame

end Archive

end PlanArchive
