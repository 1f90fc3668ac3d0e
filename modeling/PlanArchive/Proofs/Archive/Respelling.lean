import PlanArchive.Proofs.Archive.Document
import PlanArchive.Proofs.Coding.Respelling

/-!
# Documents and logs under other names

Which of its names a type goes by, wherever a file names one, makes no difference to what is read
from the file, nor to the records it hands over (`decodeRoot_retagged`).
-/

namespace PlanArchive.Archive

open Coding Markup Naming

/-- A root under other names is decoded to the same value and hands over the same records. -/
theorem decodeRoot_retagged (archive : Archive) {mode : Mode} {root root' : Element} {v : Value}
    {finish : Ledger} (h : (archive.decoder mode).Retagged root root')
    (hroot : (archive.decoder mode).decodeRoot root = (.ok v, finish)) :
    (archive.decoder mode).decodeRoot root' = (.ok v, finish) :=
  h.simulates {} v finish hroot

/-- A record with a record in it and one more as a field, each named by its tag or its class. -/
def nestedRecord (name : String) : Element :=
  ⟨name, [], none, [⟨name, [], none, [], 1⟩, ⟨"x", [("class", name)], none, [], 1⟩], 1⟩

def wrappedRecord (name : String) : Element := ⟨wrapperType, [], none, [nestedRecord name], 1⟩

def readRecord : Value :=
  .object sampleType [("x", .object sampleType [] [])] [.object sampleType [] []]

theorem sameType_sample : small.resolver.SameType "sample" sampleType :=
  .inr ⟨by decide, by decide, rfl⟩

theorem retagged_nestedRecord :
    (small.decoder .log).Retagged (nestedRecord "sample") (nestedRecord sampleType) := by
  have hopens : (small.decoder .log).Opens "sample" (nestedRecord "sample") ⟨sampleType, true⟩
      .sample := ⟨rfl, by decide, rfl, fun _ => rfl, rfl⟩
  have hclass : ClassAlike small.resolver [("class", "sample")] [("class", sampleType)] :=
    .cons ⟨rfl, .inr ⟨rfl, sameType_sample⟩⟩ .nil
  exact .mk sameType_sample (.within hopens .nil rfl
    (.cons (.tag rfl (.mk sameType_sample (.kept .nil rfl rfl)))
      (.cons (.field rfl (by rintro ⟨⟩) rfl (.kept hclass rfl rfl)) .nil)))

theorem retagged_wrappedRecord :
    (small.decoder .log).Retagged (wrappedRecord "sample") (wrappedRecord sampleType) := by
  have hopens : (small.decoder .log).Opens wrapperType (wrappedRecord "sample")
      ⟨wrapperType, true⟩ .wrapper := ⟨rfl, by decide, rfl, fun _ => rfl, rfl⟩
  exact .mk (.refl _) (.within hopens .nil rfl (.cons (.tag rfl retagged_nestedRecord) .nil))

theorem decodeRoot_retagged_small :
    (small.decoder .log).Retagged (wrappedRecord "sample") (wrappedRecord sampleType) ∧
    (small.decoder .log).decodeRoot (wrappedRecord "sample") =
      (.ok (.object wrapperType [] []), ⟨[], [readRecord]⟩) ∧
    (small.decoder .log).decodeRoot (wrappedRecord sampleType) =
      (.ok (.object wrapperType [] []), ⟨[], [readRecord]⟩) :=
  ⟨retagged_wrappedRecord, rfl, decodeRoot_retagged small retagged_wrappedRecord rfl⟩

end PlanArchive.Archive
