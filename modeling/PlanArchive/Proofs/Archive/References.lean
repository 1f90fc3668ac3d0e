import PlanArchive.Proofs.Archive.Document
import PlanArchive.Proofs.Coding.References

/-!
# References in archives

A log fails at a reference, and what a document holds in its place is what the reference points at
(`reference_not_ignored`). Which failure comes first, and which of two fields of one name is kept,
is decided before that (`reference_passed_over`).
-/

namespace PlanArchive.Archive

open Coding Markup Naming

/-- An element that a coder reads, with a reference in one of its slots: in a log it fails, at the
reference if not before, and in a document it fails or holds what was marked. -/
theorem reference_not_ignored (archive : Archive) {mode : Mode} {tag id : String}
    {e child : Element} {binding : Binding} {c : Coder} {step : List Nat} {part : Part}
    {before after : List (Part × Element)}
    (hopens : (archive.decoder mode).Opens tag e binding c)
    (hslot : (archive.decoder mode).Enters c e.children step part child before after)
    (hid : child.attribute? referenceKey = some id) (path : List String) (start : Ledger) :
    (mode = .log → ∃ failure finish,
      Fails ((archive.decoder mode).decode path (some tag) e) start failure finish ∧
        (Fails ((archive.decoder mode).decodeSlots path [] before) start failure finish ∨
          ∃ values,
            Runs ((archive.decoder mode).decodeSlots path [] before) start values finish ∧
            failure = if Decoder.misplaced values part then
                .malformed (.leadingSubtree child.name) (placeOf path child.line)
              else .malformed .referenceInLog (placeOf (child.name :: path) child.line))) ∧
      (mode = .document → ∀ v finish,
        Runs ((archive.decoder mode).decode path (some tag) e) start v finish →
          ∃ values reached w,
            Runs ((archive.decoder mode).decodeSlots path [] before) start values reached ∧
            Keyed.find? id reached.marked = some w ∧
            part.Holds (before.map Prod.fst) (after.map Prod.fst) w v) :=
  ⟨fun hmode => Decoder.fails_of_reference hmode hopens hslot hid,
    fun hmode _ _ h => Decoder.holds_of_reference (hmode ▸ rfl) hopens hslot hid h⟩

/-- A text with a mark. -/
def markedText : Element := ⟨"a", [("id", "1")], some "x", [], 1⟩

def referring : Element := ⟨"b", [("reference", "1")], none, [], 1⟩

/-- A reference in a field. -/
def quoting : Element := ⟨"TestPlan", [], none, [markedText, referring], 1⟩

theorem opens_quoting (mode : Mode) :
    (small.decoder mode).Opens "TestPlan" quoting ⟨"TestPlan", false⟩ .object :=
  ⟨rfl, by decide, rfl, by rintro ⟨⟩, rfl⟩

theorem enters_quoting (mode : Mode) :
    (small.decoder mode).Enters .object quoting.children [1] (.field "b") referring
      [(.field "a", markedText)] [] :=
  have hchildren : quoting.children = [markedText] ++ referring :: [] := rfl
  .child hchildren (.itself (by decide) (by decide))

theorem runs_quoting :
    Runs ((small.decoder .document).decode ["TestPlan"] (some "TestPlan") quoting) {}
      (.object "TestPlan" [("a", .text "x"), ("b", .text "x")] []) ⟨[("1", .text "x")], []⟩ :=
  rfl

theorem reference_not_ignored_small :
    (∀ mode, (small.decoder mode).Opens "TestPlan" quoting ⟨"TestPlan", false⟩ .object ∧
      (small.decoder mode).Enters .object quoting.children [1] (.field "b") referring
        [(.field "a", markedText)] []) ∧
    referring.attribute? referenceKey = some "1" ∧
    Runs ((small.decoder .document).decode ["TestPlan"] (some "TestPlan") quoting) {}
      (.object "TestPlan" [("a", .text "x"), ("b", .text "x")] []) ⟨[("1", .text "x")], []⟩ ∧
    (∃ values reached w,
      Runs ((small.decoder .document).decodeSlots ["TestPlan"] [] [(.field "a", markedText)]) {}
        values reached ∧ Keyed.find? "1" reached.marked = some w ∧
      (Part.field "b").Holds [.field "a"] [] w
        (.object "TestPlan" [("a", .text "x"), ("b", .text "x")] [])) ∧
    ∃ failure finish,
      Fails ((small.decoder .log).decode ["TestPlan"] (some "TestPlan") quoting) {} failure
        finish :=
  ⟨fun mode => ⟨opens_quoting mode, enters_quoting mode⟩, rfl, runs_quoting,
    (reference_not_ignored small (opens_quoting .document) (enters_quoting .document) rfl
      ["TestPlan"] {}).2 rfl _ _ runs_quoting,
    let ⟨failure, finish, h, _⟩ := (reference_not_ignored small (opens_quoting .log)
      (enters_quoting .log) rfl ["TestPlan"] {}).1 rfl
    ⟨failure, finish, h⟩⟩

/-- A field before the reference has no known type. -/
def unknownFirst : Element :=
  ⟨"TestPlan", [], none, [⟨"u", [("class", "Unknown")], none, [], 1⟩, referring], 1⟩

/-- A field behind the reference has the same name. -/
def quotingTwice : Element :=
  ⟨"TestPlan", [], none, [markedText, referring, ⟨"b", [], some "y", [], 1⟩], 1⟩

/-- The reference is on the collection itself. -/
def referringCollection : Element :=
  ⟨"TestPlan", [], none, [⟨"collection", [("reference", "1")], none, [], 1⟩], 1⟩

/-- The plan below an element is a reference to a text. -/
def textBelow : Element :=
  ⟨"hashTree", [], none, [⟨"TestPlan", [], none, [markedText], 1⟩,
    ⟨"hashTree", [("reference", "1")], none, [], 1⟩], 1⟩

/-- An earlier failure is the one that is told and a later field of the same name is the one that is
kept; a collection is not looked at, and a text has no place below an element. -/
theorem reference_passed_over :
    ((small.decoder .log).Opens "TestPlan" unknownFirst ⟨"TestPlan", false⟩ .object ∧
      referring ∈ unknownFirst.children ∧
      ∃ failure, ((small.decoder .log).decodeRoot unknownFirst).1 = .error failure ∧
        ∀ what place, failure ≠ .malformed what place) ∧
    ((small.decoder .document).Opens "TestPlan" quotingTwice ⟨"TestPlan", false⟩ .object ∧
      referring ∈ quotingTwice.children ∧
      (small.decoder .document).decodeRoot quotingTwice =
        (.ok (.object "TestPlan" [("a", .text "x"), ("b", .text "y")] []),
          ⟨[("1", .text "x")], []⟩)) ∧
    (∀ mode, (small.decoder mode).Opens "TestPlan" referringCollection ⟨"TestPlan", false⟩ .object ∧
      ((small.decoder mode).decodeRoot referringCollection).1 = .ok (.object "TestPlan" [] [])) ∧
    ((small.decoder .document).Opens "hashTree" textBelow ⟨treeType, true⟩ .plan ∧
      ((small.decoder .document).decodeRoot textBelow).1 =
        .ok (.plan [.mk (.object "TestPlan" [("a", .text "x")] []) []])) := by
  refine ⟨⟨⟨rfl, by decide, rfl, by rintro ⟨⟩, rfl⟩, .tail _ (.head _), _, rfl, ?_⟩,
    ⟨⟨rfl, by decide, rfl, by rintro ⟨⟩, rfl⟩, .tail _ (.head _), rfl⟩, ?_,
    ⟨rfl, by decide, rfl, fun _ => rfl, rfl⟩, rfl⟩
  · rintro what place ⟨⟩
  · intro mode
    refine ⟨⟨rfl, by decide, rfl, by rintro ⟨⟩, rfl⟩, ?_⟩
    cases mode <;> rfl

end PlanArchive.Archive
