import PlanArchive.Proofs.Archive.LogAppend
import PlanArchive.Proofs.Coding.Overlooked
import PlanArchive.Proofs.Markup.Items

/-!
# Character data of objects and plans

A file is read to runs of character data and elements. In an object or a plan that loading comes to,
a run that is not blank makes it fail if the object is a plain one without children. Anywhere else
the runs are dropped: with others in their place the same is loaded (`character_data_loaded`).
-/

namespace PlanArchive.Archive

open Coding Markup Naming

/-! ## The items of a file -/

/-- The items at the top of a file. -/
def itemsOf (charset : Charset) (source : Source) : Except Failure (List Item) := do
  let text ← charset.decode (← source.read)
  (readItems text).mapError .ofProblem

theorem elementsOf_eq_map (charset : Charset) (source : Source) :
    elementsOf charset source = (itemsOf charset source).map Markup.elementsIn := by
  unfold elementsOf itemsOf
  cases source.read with
  | error failure => rfl
  | ok bytes =>
    simp only [bind, Except.bind]
    cases charset.decode bytes with
    | error failure => rfl
    | ok text =>
      simp only [readElements_eq_map]
      cases readItems text <;> rfl

/-! ## Loading with one root changed -/

/-- Both files are loaded alike, or fail alike, in each way of loading. -/
structure LoadsAlike (archive : Archive) (source source' : Source) : Prop where
  plan_eq : archive.loadPlan source' = archive.loadPlan source
  element_eq : archive.loadElement source' = archive.loadElement source
  records_eq : archive.loadRecords source' = archive.loadRecords source

/-- Loading comes to the element behind the front: the only one of a document, or one of a log
when those before it are read. -/
def ComesBehind (archive : Archive) (mode : Mode) (front back : List Element) : Prop :=
  match mode with
  | .document => front = [] ∧ back = []
  | .log => (recordsOf (archive.decoder .log) front).2 = .ok ()

/-- Loading in this mode fails. -/
def FailsIn (archive : Archive) (mode : Mode) (source : Source) (failure : Failure) : Prop :=
  match mode with
  | .document =>
    archive.loadPlan source = .error failure ∧ archive.loadElement source = .error failure
  | .log => (archive.loadRecords source).2 = .error failure

section

variable {archive : Archive} {source source' : Source} {charset : Charset}
  {front back : List Element} {root root' : Element}

theorem recordsOf_congr {decoder : Decoder} (front back : List Element)
    (h : decoder.decodeRoot root' = decoder.decodeRoot root) :
    recordsOf decoder (front ++ root' :: back) = recordsOf decoder (front ++ root :: back) := by
  induction front with
  | nil => simp only [List.nil_append, recordsOf, h]
  | cons e front ih => simp only [List.cons_append, recordsOf, ih]

/-- Files that differ in a root that is decoded alike are loaded alike. -/
theorem loadsAlike_of_root (hcharset : archive.charset = .ok charset)
    (helements : elementsOf charset source = .ok (front ++ root :: back))
    (helements' : elementsOf charset source' = .ok (front ++ root' :: back))
    (hname : root'.name = root.name) (hline : root'.line = root.line)
    (h : ∀ mode, (archive.decoder mode).decodeRoot root' = (archive.decoder mode).decodeRoot root) :
    archive.LoadsAlike source source' := by
  have hmany : front ++ back ≠ [] → archive.loadRoot source' = archive.loadRoot source := by
    intro hmore
    simp only [loadRoot, hcharset, helements, helements', bind, Except.bind]
    -- only the line of the second root is told
    rcases front with _ | ⟨first, _ | ⟨second, front⟩⟩
    · rcases back with _ | ⟨second, back⟩
      · exact absurd rfl hmore
      · rfl
    · simp only [List.cons_append, List.nil_append, hline]
    · rfl
  refine ⟨?_, ?_, ?_⟩
  · by_cases hmore : front ++ back = []
    · obtain ⟨rfl, rfl⟩ := List.append_eq_nil_iff.mp hmore
      rw [loadPlan, loadPlan, loadRoot_of_elementsOf hcharset helements,
        loadRoot_of_elementsOf hcharset helements', h]
      cases ((archive.decoder .document).decodeRoot root).1 with
      | error failure => rfl
      | ok value => simp only [Except.map, bind, Except.bind, hname, hline]
    · rw [loadPlan, loadPlan, hmany hmore]
  · by_cases hmore : front ++ back = []
    · obtain ⟨rfl, rfl⟩ := List.append_eq_nil_iff.mp hmore
      have helement := loadElement_of_elementsOf hcharset helements
      have helement' := loadElement_of_elementsOf hcharset helements'
      rw [helement, helement', h]
    · rw [loadElement, loadElement, hmany hmore]
  · rw [loadRecords_of_elementsOf hcharset helements, loadRecords_of_elementsOf hcharset helements',
      recordsOf_congr front back (h .log)]

/-- Loading fails where it comes to a root that is refused. -/
theorem failsIn_of_refuses {mode : Mode} {failure : Failure}
    (hcharset : archive.charset = .ok charset)
    (helements : elementsOf charset source = .ok (front ++ root :: back))
    (hcomes : archive.ComesBehind mode front back)
    (h : (archive.decoder mode).Refuses (.root root) failure) :
    archive.FailsIn mode source failure := by
  obtain ⟨finish, h⟩ := h
  have hroot : (archive.decoder mode).decodeRoot root = (.error failure, finish) := h
  cases mode with
  | document =>
    obtain ⟨rfl, rfl⟩ := hcomes
    have hload := loadRoot_of_elementsOf hcharset helements
    rw [hroot] at hload
    constructor
    · rw [loadPlan, hload]
      rfl
    · rw [loadElement, hload]
      rfl
  | log =>
    have hfront : recordsOf (archive.decoder .log) front =
        ((recordsOf (archive.decoder .log) front).1, .ok ()) := Prod.ext rfl hcomes
    rw [FailsIn, loadRecords_of_elementsOf hcharset helements, recordsOf_append hfront, recordsOf,
      hroot]

end

/-! ## What becomes of character data -/

/-- What loading makes of the character data directly in an element that a coder reads. The element
is at the position in the root `x`, and `z` has the items in it. -/
structure DataRead (archive : Archive) (charset : Charset) (mode : Mode) (source : Source)
    (front : List Opened) (x : Opened) (back : List Opened) (p : List Nat) (y : Decoder.Visit)
    (c : Coder) (z : Opened) : Prop where
  at_eq : x.at? p = some z
  element_eq : z.element = y.element
  /-- In a plain object without children a run that is not blank is refused. -/
  refused : c = .object → openedIn z.inside = [] →
    (∃ run ∈ runsIn z.inside, Text.allBlank run.toList = false) →
    archive.FailsIn mode source
      (.malformed (.textInObject y.element.name) (placeOf y.path y.element.line))
  /-- Anywhere else the runs make no difference. -/
  dropped : (c = .object → openedIn z.inside ≠ []) → ∀ text source',
    elementsOf charset source' = .ok (front.map Opened.element ++
      x.element.modifyAt (·.withText text) p :: back.map Opened.element) →
    archive.LoadsAlike source source'

/-- In an object or a plan that loading comes to, character data that are not blank make it fail if
it is a plain object without children, wherever they stand. Elsewhere they have no effect on what is
loaded. -/
theorem character_data_loaded {archive : Archive} {source : Source} {charset : Charset}
    {items : List Item} (hcharset : archive.charset = .ok charset)
    (hitems : itemsOf charset source = .ok items) :
    elementsOf charset source = .ok (Markup.elementsIn items) ∧
    ∀ mode front x back, openedIn items = front ++ x :: back →
      archive.ComesBehind mode (front.map Opened.element) (back.map Opened.element) →
    ∀ y tag binding c, (archive.decoder mode).Visits (.root x.element) y → y.type = some tag →
      (archive.decoder mode).Opens tag y.element binding c → c ≠ .text →
      (∃ p, (archive.decoder mode).Descends (some x.element.name) x.element p y.type y.element) ∧
      ∀ p, (archive.decoder mode).Descends (some x.element.name) x.element p y.type y.element →
        ∃ z, archive.DataRead charset mode source front x back p y c z := by
  have helements : elementsOf charset source = .ok (Markup.elementsIn items) := by
    rw [elementsOf_eq_map, hitems]
    rfl
  refine ⟨helements, ?_⟩
  intro mode front x back hsplit hcomes y tag binding c hvisits htype hopens hc
  rw [elementsIn_eq_map, hsplit, List.map_append, List.map_cons] at helements
  refine ⟨hvisits.descends, fun p hdescends => ?_⟩
  have hat := hdescends.at?
  rw [at?_element] at hat
  obtain ⟨z, hz, hy⟩ := Option.map_eq_some_iff.mp hat
  have hchildren : y.element.children = [] ↔ openedIn z.inside = [] := by
    rw [← hy]
    exact (congrArg (· = []) (elementsIn_eq_map z.inside)).to_iff.trans List.map_eq_nil_iff
  refine ⟨z, hz, hy, ?_, ?_⟩
  · rintro rfl hnone ⟨run, hrun, hblank⟩
    have htext : Text.allBlank y.element.content.toList = false := by
      rw [← hy, allBlank_content]
      exact List.all_eq_false.mpr ⟨run, hrun, by simp [hblank]⟩
    exact failsIn_of_refuses hcharset helements hcomes
      (Decoder.refuses_text hvisits htype hopens (hchildren.mpr hnone) htext)
  · intro hmore text source' helements'
    have hname := Element.name_modifyAt (f := (·.withText text)) (fun _ => rfl) x.element p
    have hline := Element.line_modifyAt (f := (·.withText text)) (fun _ => rfl) x.element p
    refine loadsAlike_of_root hcharset helements helements' hname hline fun mode' => ?_
    have hdescends' : (archive.decoder mode').Descends (some x.element.name) x.element p
        (some tag) y.element := htype ▸ hdescends.mode mode' _
    have hopens' : (archive.decoder mode').Opens tag y.element binding c := hopens.mode mode' _
    have hoverlooks : Decoder.Overlooks c y.element :=
      ⟨hc, fun hobject => mt hchildren.mp (hmore hobject)⟩
    rw [Decoder.decodeRoot, Decoder.decodeRoot, hname,
      hdescends'.decode_withText hopens' hoverlooks]

/-- Text before the child of an object, and the object without it. -/
def textBeforeChild : Bytes := utf8 "<TestPlan>hello<a>x</a></TestPlan>"

def childAlone : Bytes := utf8 "<TestPlan><a>x</a></TestPlan>"

/-- Text in an object without children. -/
def textAlone : Bytes := utf8 "<TestPlan>hello</TestPlan>"

def planTag : Element := ⟨"TestPlan", [], none, [], 1⟩

def childItem : Item := .element ⟨"a", [], none, [], 1⟩ [.run "x"]

set_option maxRecDepth 20000 in
theorem itemsOf_textBeforeChild :
    itemsOf .utf8 ⟨textBeforeChild, none⟩ = .ok [.element planTag [.run "hello", childItem]] := by
  rfl

set_option maxRecDepth 20000 in
theorem elementsOf_childAlone :
    elementsOf .utf8 ⟨childAlone, none⟩ =
      .ok [⟨"TestPlan", [], none, [⟨"a", [], some "x", [], 1⟩], 1⟩] := by
  rfl

set_option maxRecDepth 20000 in
theorem itemsOf_textAlone :
    itemsOf .utf8 ⟨textAlone, none⟩ = .ok [.element planTag [.run "hello"]] := by
  rfl

/-- A plain object of the small archive. -/
theorem opens_planTag (mode : Mode) (text : Option String) (children : List Element) :
    (small.decoder mode).Opens "TestPlan" ⟨"TestPlan", [], text, children, 1⟩ ⟨"TestPlan", false⟩
      .object :=
  ⟨rfl, by decide, rfl, by rintro ⟨⟩, rfl⟩

theorem character_data_loaded_small :
    itemsOf .utf8 ⟨textBeforeChild, none⟩ = .ok [.element planTag [.run "hello", childItem]] ∧
      small.LoadsAlike ⟨textBeforeChild, none⟩ ⟨childAlone, none⟩ ∧
      itemsOf .utf8 ⟨textAlone, none⟩ = .ok [.element planTag [.run "hello"]] ∧
      small.FailsIn .document ⟨textAlone, none⟩ (.malformed (.textInObject "TestPlan")
        (placeOf ["TestPlan"] 1)) := by
  refine ⟨itemsOf_textBeforeChild, ?_, itemsOf_textAlone, ?_⟩
  · obtain ⟨-, htexts⟩ := @character_data_loaded small _ .utf8 _ rfl itemsOf_textBeforeChild
    obtain ⟨-, hat⟩ := htexts .document [] ⟨planTag, [.run "hello", childItem]⟩ [] rfl ⟨rfl, rfl⟩ _
      _ _ _ .here rfl (opens_planTag .document _ _) (by decide)
    obtain ⟨z, hread⟩ := hat [] .here
    obtain rfl := Option.some.inj hread.at_eq
    exact hread.dropped (fun _ => nofun) none _ elementsOf_childAlone
  · obtain ⟨-, htexts⟩ := @character_data_loaded small _ .utf8 _ rfl itemsOf_textAlone
    obtain ⟨-, hat⟩ := htexts .document [] ⟨planTag, [.run "hello"]⟩ [] rfl ⟨rfl, rfl⟩ _
      _ _ _ .here rfl (opens_planTag .document _ _) (by decide)
    obtain ⟨z, hread⟩ := hat [] .here
    obtain rfl := Option.some.inj hread.at_eq
    exact hread.refused rfl rfl ⟨"hello", List.mem_singleton.mpr rfl, by decide⟩

/-- Text in an envelope, in a plan and in an object with a child. -/
def textInPlan : Bytes :=
  utf8 "<jmeterTestPlan>a<hashTree>b<TestPlan>c<n/>d</TestPlan></hashTree></jmeterTestPlan>"

def textInPlanRoot : Element :=
  ⟨"jmeterTestPlan", [], some "a", [⟨"hashTree", [], some "b",
    [⟨"TestPlan", [], some "cd", [⟨"n", [], none, [], 1⟩], 1⟩], 1⟩], 1⟩

set_option maxRecDepth 20000 in
theorem elementsOf_textInPlan : elementsOf .utf8 ⟨textInPlan, none⟩ = .ok [textInPlanRoot] := by
  rfl

/-- Text in a wrapper and in a sample. -/
def textInLog : Bytes :=
  utf8 ("<" ++ wrapperType ++ ">a<sample>b</sample></" ++ wrapperType ++ ">")

set_option maxRecDepth 20000 in
theorem elementsOf_textInLog :
    elementsOf .utf8 ⟨textInLog, none⟩ =
      .ok [⟨wrapperType, [], some "a", [⟨"sample", [], some "b", [], 1⟩], 1⟩] := by
  rfl

/-- The files are loaded, and nothing is left of the runs in their objects and plans. -/
theorem character_data_dropped :
    small.roster.Standard ∧
      itemsOf .utf8 ⟨textBeforeChild, none⟩ = .ok [.element planTag [.run "hello", childItem]] ∧
      small.loadElement ⟨textBeforeChild, none⟩ =
        .ok (.object "TestPlan" [("a", .text "x")] []) ∧
      small.loadPlan ⟨textInPlan, none⟩ =
        .ok [.mk (.object "TestPlan" [("n", .text "")] []) []] ∧
      small.loadRecords ⟨textInLog, none⟩ = ([.object sampleType [] []], .ok ()) := by
  have helements : elementsOf .utf8 ⟨textBeforeChild, none⟩ = _ :=
    (elementsOf_eq_map _ _).trans (congrArg _ itemsOf_textBeforeChild)
  refine ⟨standard_small, itemsOf_textBeforeChild, ?_, ?_, ?_⟩
  · rw [loadElement_of_elementsOf rfl helements]
    rfl
  · rw [loadPlan, loadRoot_of_elementsOf rfl elementsOf_textInPlan]
    rfl
  · rw [loadRecords_of_elementsOf rfl elementsOf_textInLog]
    rfl

end PlanArchive.Archive
