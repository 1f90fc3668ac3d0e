import PlanArchive.Archive.Document

/-!
# Result logs

A log is a run of records, each an element of its own, so that records can be appended at any time.
A log may stand in a wrapper, which is opened and closed separately.
-/

namespace PlanArchive

open Coding Markup Naming

/-- A record as messages name it: its type, its label and its size. -/
def Value.description : Value → String
  | .object typeId fields entries =>
    let label := (fieldText? fields "lb").or (fieldText? fields "label")
    typeId ++ label.elim "" (fun label => s!" '{label}'") ++
      s!" ({fields.length} fields, {entries.length} entries)"
  | value => Text.quotedOption value.typeId?

namespace Archive

/-- The complete text of a record. -/
def record (archive : Archive) (value : Value) (event : Option Event) :
    Except Failure Bytes := do
  let charset ← archive.charset
  let e ← ((archive.encoder event).encode value).mapError fun fault =>
    .unwritable (.inRecord fault value.description)
  charset.encode (e.render ++ ['\n'])

def wrapperTag (archive : Archive) : Except Failure String :=
  let tag := archive.resolver.tagFor wrapperType
  if isName tag then .ok tag else .error (.unwritable (.noWrapperTag tag))

def logStart (archive : Archive) : Except Failure Bytes := do
  let charset ← archive.charset
  let tag ← archive.wrapperTag
  charset.encode (charset.header.toList ++
    s!"\n<{tag} version=\"".toList ++ formatVersion.toList ++ "\">\n".toList)

def logEnd (archive : Archive) : Except Failure Bytes := do
  let charset ← archive.charset
  let tag ← archive.wrapperTag
  charset.encode s!"</{tag}>\n".toList

/-- The records that elements at the top of a log hand over, up to the first failure. A wrapper
has handed over its own, and is no record. -/
def recordsOf (decoder : Decoder) : List Element → List Value × Except Failure Unit
  | [] => ([], .ok ())
  | e :: rest =>
    match decoder.decodeRoot e with
    | (.error failure, ledger) => (ledger.delivered, .error failure)
    | (.ok value, ledger) =>
      let own := if value.typeId? == some wrapperType then [] else [value]
      let (more, outcome) := recordsOf decoder rest
      (ledger.delivered ++ own ++ more, outcome)

/-- The records of a log, up to the first failure. -/
def loadRecords (archive : Archive) (source : Source) : List Value × Except Failure Unit :=
  match archive.charset.bind (elementsOf · source) with
  | .error failure => ([], .error failure)
  | .ok elements => recordsOf (archive.decoder .log) elements

/-- What was handed over, counted record by record. -/
structure Tally where
  records : List Value := []
  count : Nat := 0

def Tally.accept (tally : Tally) (record : Value) : Tally :=
  ⟨tally.records ++ [record], tally.count + 1⟩

def tallyOf (decoder : Decoder) (tally : Tally) : List Element → Tally × Except Failure Unit
  | [] => (tally, .ok ())
  | e :: rest =>
    match decoder.decodeRoot e with
    | (.error failure, ledger) => (ledger.delivered.foldl Tally.accept tally, .error failure)
    | (.ok value, ledger) =>
      let tally := ledger.delivered.foldl Tally.accept tally
      tallyOf decoder (if value.typeId? == some wrapperType then tally else tally.accept value) rest

/-- How many records a log hands over, if nothing in it fails. -/
def countRecords (archive : Archive) (source : Source) : Except Failure Nat :=
  match archive.charset.bind (elementsOf · source) with
  | .error failure => .error failure
  | .ok elements =>
    let (tally, outcome) := tallyOf (archive.decoder .log) {} elements
    outcome.map fun _ => tally.count

theorem foldl_accept (records : List Value) (tally : Tally) :
    records.foldl Tally.accept tally =
      ⟨tally.records ++ records, tally.count + records.length⟩ := by
  induction records generalizing tally with
  | nil => simp
  | cons record records ih =>
    rw [List.foldl_cons, ih]
    simp [Tally.accept, Nat.add_comm, Nat.add_left_comm]

theorem tallyOf_eq (decoder : Decoder) (elements : List Element) (tally : Tally) :
    tallyOf decoder tally elements =
      let (records, outcome) := recordsOf decoder elements
      (⟨tally.records ++ records, tally.count + records.length⟩, outcome) := by
  induction elements generalizing tally with
  | nil => simp [tallyOf, recordsOf]
  | cons e rest ih =>
    rw [tallyOf, recordsOf]
    rcases decoder.decodeRoot e with ⟨failure | value, ledger⟩
    · simp only [foldl_accept]
    · simp only [ih, foldl_accept]
      split
      · simp [Nat.add_assoc]
      · simp [Tally.accept, Nat.add_assoc, Nat.add_comm 1]

/-- The count is that of the records of the log. -/
theorem countRecords_eq (archive : Archive) (source : Source) :
    archive.countRecords source =
      (archive.loadRecords source).2.map fun _ => (archive.loadRecords source).1.length := by
  unfold countRecords loadRecords
  cases archive.charset.bind (elementsOf · source) with
  | error failure => rfl
  | ok elements => simp [tallyOf_eq]

end Archive

end PlanArchive
