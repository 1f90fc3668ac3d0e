import PlanArchive.Proofs.Console.Resaving
import PlanArchive.Proofs.Naming.Entries

/-!
# An audit without a list of types

Without a list the types of the definitions are known, but for those that no list could hold: the
empty one and those with blanks. So the definitions are read twice, for what is known and for what
has a tag, and an audit lists just the types that are lost in between (`output_of_audit`).
-/

namespace PlanArchive

open Naming Definition Files

/-! ## What is known -/

namespace Naming.KnownTypes

theorem contains_iff (known : KnownTypes) (typeId : String) :
    known.contains typeId = true ↔ typeId ∈ known.typeIds :=
  Keyed.isSome_find?_iff

/-- Registering a type adds it if it is an identifier. -/
theorem mem_typeIds_register (known : KnownTypes) (typeId other : String) :
    other ∈ ((known.register typeId false).toOption.getD known).typeIds ↔
      other ∈ known.typeIds ∨ other = typeId ∧ isIdentifier typeId = true := by
  unfold register
  by_cases hid : isIdentifier typeId = true
  · by_cases hthere : known.contains typeId = true
    · rw [if_neg (by simp [hid]), if_pos hthere]
      rw [contains_iff] at hthere
      constructor
      · exact Or.inl
      · rintro (hmem | ⟨rfl, -⟩)
        · exact hmem
        · exact hthere
    · rw [if_neg (by simp [hid]), if_neg hthere]
      rw [contains_iff] at hthere
      have hkeys : typeIds ⟨Keyed.put typeId false known.types⟩ = known.typeIds ++ [typeId] :=
        (Keyed.keys_put typeId false known.types).trans (if_neg hthere)
      simp only [Except.toOption, Option.getD_some, hkeys, List.mem_append, List.mem_singleton,
        hid, and_true]
  · rw [if_pos (by simp [hid])]
    simp only [Except.toOption, Option.getD_none, hid, Bool.false_eq_true, and_false, or_false]

theorem mem_typeIds_registerAll (known : KnownTypes) (added : List String) (typeId : String) :
    typeId ∈ (known.registerAll added).typeIds ↔
      typeId ∈ known.typeIds ∨ typeId ∈ added ∧ isIdentifier typeId = true := by
  induction added generalizing known with
  | nil => simp [registerAll]
  | cons first added ih =>
    have hstep : known.registerAll (first :: added) =
        ((known.register first false).toOption.getD known).registerAll added := rfl
    rw [hstep, ih, mem_typeIds_register, List.mem_cons]
    constructor
    · rintro ((hknown | ⟨rfl, hid⟩) | ⟨hmem, hid⟩)
      · exact Or.inl hknown
      · exact Or.inr ⟨Or.inl rfl, hid⟩
      · exact Or.inr ⟨Or.inr hmem, hid⟩
    · rintro (hknown | ⟨rfl | hmem, hid⟩)
      · exact Or.inl (Or.inl hknown)
      · exact Or.inl (Or.inr ⟨rfl, hid⟩)
      · exact Or.inr ⟨hmem, hid⟩

/-- The types that no list of types can hold. -/
theorem isIdentifier_eq_false_iff (typeId : String) :
    isIdentifier typeId = false ↔ typeId = "" ∨ ∃ c ∈ typeId.toList, Text.isBlank c = true := by
  rw [isIdentifier, Bool.and_eq_false_iff, Bool.not_eq_false', Bool.not_eq_false',
    String.isEmpty_iff, List.any_eq_true]

end Naming.KnownTypes

namespace Console

/-- The types of every run are identifiers. -/
theorem isIdentifier_of_standard {typeId : String} (h : typeId ∈ standardTypes.typeIds) :
    KnownTypes.isIdentifier typeId = true := by
  have hall : ∀ other ∈ standardTypes.typeIds, KnownTypes.isIdentifier other = true := by decide
  exact hall typeId h

/-! ## What has a tag -/

/-- Some entry gives the type a tag. -/
def Tagged (entries : List Entry) (typeId : String) : Prop :=
  ∃ names, Entry.tags names typeId ∈ entries ∧ TagTable.tagsOf names ≠ []

/-- The list of tags in an entry, and their type. -/
def named? : Entry → Option (String × String)
  | .tags names typeId => some (names, typeId)
  | _ => none

theorem named?_eq_some_iff {entry : Entry} {names typeId : String} :
    named? entry = some (names, typeId) ↔ entry = .tags names typeId := by
  cases entry <;> simp [named?]

theorem tagsOf_eq_ofEntries (entries : List Entry) :
    Archive.tagsOf entries = TagTable.ofEntries (entries.filterMap named?) := by
  rw [TagTable.ofEntries, List.foldl_filterMap, Archive.tagsOf]
  congr
  funext table entry
  cases entry <;> rfl

theorem mem_typeIds_tagsOf (entries : List Entry) (typeId : String) :
    typeId ∈ (Archive.tagsOf entries).typeIds ↔ Tagged entries typeId := by
  rw [tagsOf_eq_ofEntries, TagTable.mem_typeIds_ofEntries]
  constructor
  · rintro ⟨⟨names, other⟩, hmem, rfl, htags⟩
    obtain ⟨entry, hentry, hnamed⟩ := List.mem_filterMap.mp hmem
    exact ⟨names, named?_eq_some_iff.mp hnamed ▸ hentry, htags⟩
  · rintro ⟨names, hmem, htags⟩
    exact ⟨(names, typeId), List.mem_filterMap.mpr ⟨_, hmem, rfl⟩, rfl, htags⟩

theorem mem_taggedTypes (source : Definition.Source) (typeId : String) :
    typeId ∈ taggedTypes source ↔ ∃ names, Entry.tags names typeId ∈ source.entries := by
  constructor
  · intro h
    obtain ⟨entry, hmem, hentry⟩ := List.mem_filterMap.mp h
    cases entry with
    | tags names other =>
      obtain rfl : other = typeId := Option.some.inj hentry
      exact ⟨names, hmem⟩
    | _ => cases hentry
  · rintro ⟨names, hmem⟩
    exact List.mem_filterMap.mpr ⟨_, hmem, rfl⟩

/-! ## What is missing -/

/-- Tags are resolved by the definitions, and their types are the known ones. -/
def trusting (source : Definition.Source) (renames : Renames) : Resolver :=
  ⟨Archive.tagsOf source.entries, renames.renaming, standardTypes.registerAll (taggedTypes source)⟩

/-- The type has a tag and was not renamed, but no list of types can hold it. -/
structure Missing (source : Definition.Source) (renames : Renames) (typeId : String) : Prop where
  tagged : Tagged source.entries typeId
  unusable : typeId = "" ∨ ∃ c ∈ typeId.toList, Text.isBlank c = true
  kept : renames.isRenamed typeId = false

/-- A type with a tag is known just when it is an identifier. -/
theorem contains_known_of_tagged {source : Definition.Source} {typeId : String}
    (h : Tagged source.entries typeId) :
    (standardTypes.registerAll (taggedTypes source)).contains typeId =
      KnownTypes.isIdentifier typeId := by
  obtain ⟨names, hmem, -⟩ := h
  have htagged : typeId ∈ taggedTypes source := (mem_taggedTypes source typeId).mpr ⟨names, hmem⟩
  rw [Bool.eq_iff_iff, KnownTypes.contains_iff, KnownTypes.mem_typeIds_registerAll]
  constructor
  · rintro (hstandard | ⟨-, hid⟩)
    · exact isIdentifier_of_standard hstandard
    · exact hid
  · exact fun hid => Or.inr ⟨htagged, hid⟩

theorem mem_unreadable_trusting (source : Definition.Source) (renames : Renames) (typeId : String) :
    typeId ∈ (trusting source renames).unreadable ↔ Missing source renames typeId := by
  rw [Resolver.mem_unreadable, ← TagTable.mem_typeIds]
  have htags : typeId ∈ (trusting source renames).tags.typeIds ↔ Tagged source.entries typeId :=
    mem_typeIds_tagsOf source.entries typeId
  rw [htags]
  constructor
  · rintro ⟨htagged, hname, hknown⟩
    have hid : KnownTypes.isIdentifier typeId = false :=
      (contains_known_of_tagged htagged).symm.trans hknown
    exact ⟨htagged, (KnownTypes.isIdentifier_eq_false_iff typeId).mp hid, hname⟩
  · rintro ⟨htagged, hunusable, hname⟩
    have hid := (KnownTypes.isIdentifier_eq_false_iff typeId).mpr hunusable
    exact ⟨htagged, hname, (contains_known_of_tagged htagged).trans hid⟩

/-- With a place for each type in the table, each is listed once. -/
theorem sorted_unreadable {resolver : Resolver} (h : resolver.tags.typeIds.Nodup) :
    resolver.unreadable.Pairwise (· < ·) := by
  have hsorted : resolver.unreadable.Pairwise (· ≤ ·) := List.pairwise_mergeSort' (· ≤ ·) _
  have hnodup : resolver.unreadable.Nodup :=
    (List.mergeSort_perm _ _).nodup_iff.mpr (h.filter _)
  exact (hsorted.and hnodup).imp fun ⟨hle, hne⟩ => Std.lt_of_le_of_ne hle hne

theorem nodup_typeIds_tagsOf (entries : List Entry) :
    (Archive.tagsOf entries).typeIds.Nodup := by
  rw [tagsOf_eq_ofEntries]
  exact TagTable.nodup_typeIds_ofEntries _

/-! ## Runs -/

section

variable {codecs : EastAsian → Codec} {disk : Disk} {options : Options} {content : Bytes}
  {renames : Renames}

/-- No types are listed; the definitions are there, and so are the renames if any are given. -/
structure AuditReads (disk : Disk) (options : Options) (content : Bytes) (renames : Renames) :
    Prop where
  unlisted : options.types = none
  definitions : ∃ settings, ((settingsOf Disk.access.read options).run.run disk).1 = .ok settings ∧
    disk.read settings.definitionsPath = .ok content
  upgrade : (options.upgrade = none ∧ renames = {}) ∨
    ∃ path lines, options.upgrade = some path ∧ disk.read path = .ok lines ∧
      renames = .ofPairs (Archive.definitionsOf lines).pairs

theorem run_bind_ok {α β : Type} {m : ExceptT Complaint (StateM Disk) α}
    {f : α → ExceptT Complaint (StateM Disk) β} {a : α} (h : m.run.run disk = (.ok a, disk)) :
    (m >>= f).run.run disk = (f a).run.run disk := by
  rw [run_bind, h]

theorem run_read (path : String) :
    (liftM (Disk.access.read path) : ExceptT Complaint (StateM Disk) _).run.run disk =
      (.ok (disk.read path), disk) :=
  rfl

theorem run_knownTypes {settings : Settings} (htypes : options.types = none)
    (hread : disk.read settings.definitionsPath = .ok content) :
    (knownTypes Disk.access.read options settings).run.run disk =
      (.ok (standardTypes.registerAll (taggedTypes (Archive.definitionsOf content))), disk) := by
  unfold knownTypes
  rw [htypes]
  dsimp only
  rw [run_bind_ok (run_read _), hread]
  rfl

theorem AuditReads.run_renamesOf (h : AuditReads disk options content renames) :
    (renamesOf Disk.access.read options).run.run disk = (.ok renames, disk) := by
  unfold renamesOf
  rcases h.upgrade with ⟨hnone, rfl⟩ | ⟨path, lines, hsome, hread, rfl⟩
  · rw [hnone]
    rfl
  · rw [hsome]
    dsimp only
    rw [run_bind_ok (run_read _), hread]
    rfl

theorem AuditReads.run_archiveOf (h : AuditReads disk options content renames) :
    ∃ archive : Archive, archive.resolver = trusting (Archive.definitionsOf content) renames ∧
      (archiveOf codecs Disk.access.read options).run.run disk = (.ok archive, disk) := by
  obtain ⟨settings, hsettings, hread⟩ := h.definitions
  have hsettingsRun : (settingsOf Disk.access.read options).run.run disk = (.ok settings, disk) :=
    Prod.ext hsettings (reads_settingsOf options disk).1
  let known := standardTypes.registerAll (taggedTypes (Archive.definitionsOf content))
  refine ⟨Archive.ofContent { codecs, settings, known, renames := renames.renaming } content, rfl, ?_⟩
  unfold archiveOf
  rw [run_bind_ok hsettingsRun, run_bind_ok (run_knownTypes h.unlisted hread),
    run_bind_ok h.run_renamesOf, run_bind_ok (run_read _), hread]
  rfl

/-- What an audit writes: the list, and a complaint unless it is empty. -/
def auditWriting (missing : List String) : Writing :=
  { Writing.line (Text.Json.array (missing.map .str)).pretty with
    complaint := if missing.isEmpty then none else some (.unreadableTypes missing.length) }

theorem AuditReads.planned_audit (h : AuditReads disk options content renames) :
    planned codecs disk options .audit =
      .ok (auditWriting (trusting (Archive.definitionsOf content) renames).unreadable) := by
  obtain ⟨archive, hresolver, hrun⟩ := h.run_archiveOf
  unfold planned perform
  rw [run_bind_ok hrun, ← hresolver]
  rfl

/-- What goes to no file is printed. -/
theorem finish_printed {writing : Writing} (hfile : writing.file = none) :
    (writing.finish Disk.access).run disk = (.of writing.content.1 writing.content.2, disk) := by
  unfold Writing.finish
  rw [hfile]
  rfl

theorem content_auditWriting (missing : List String) :
    (auditWriting missing).content =
      (utf8 ((Text.Json.array (missing.map .str)).pretty ++ "\n"),
        if missing.isEmpty then none else some (.unreadableTypes missing.length)) := by
  have hall : (auditWriting missing).outputs =
      [utf8 ((Text.Json.array (missing.map .str)).pretty ++ "\n")].map .ok := rfl
  rw [content_of_all hall, List.flatten_singleton]
  rfl

theorem code_of (output : Bytes) (complaint : Option Complaint) :
    (Outcome.of output complaint).code = 0 ↔ complaint = none := by
  cases complaint <;> simp [Outcome.of, Outcome.failed]

theorem output_of (output : Bytes) (complaint : Option Complaint) :
    (Outcome.of output complaint).output = output := by
  cases complaint <;> rfl

/-- An audit without a list of types prints in order, and once each, the types that have a tag, were
not renamed and cannot be known. It ends well if there are none. -/
theorem output_of_audit {words : List String} (hparse : parse words = .ok (options, .audit))
    (hreads : AuditReads disk options content renames) :
    ∃ missing : List String, missing.Pairwise (· < ·) ∧
      (∀ typeId, typeId ∈ missing ↔
        Missing (Archive.definitionsOf content) renames typeId) ∧
      ((run codecs Disk.access words).run disk).1.output =
        utf8 ((Text.Json.array (missing.map .str)).pretty ++ "\n") ∧
      (((run codecs Disk.access words).run disk).1.code = 0 ↔ missing = []) ∧
      ((run codecs Disk.access words).run disk).2 = disk := by
  let missing := (trusting (Archive.definitionsOf content) renames).unreadable
  have hrun : (run codecs Disk.access words).run disk =
      (.of (auditWriting missing).content.1 (auditWriting missing).content.2, disk) := by
    rw [run_eq hparse, hreads.planned_audit]
    exact finish_printed rfl
  rw [hrun, content_auditWriting]
  refine ⟨missing, sorted_unreadable (nodup_typeIds_tagsOf _), mem_unreadable_trusting _ _,
    output_of _ _, ?_, rfl⟩
  rw [code_of]
  cases missing <;> simp

end

/-- Types with blanks, one of them without a tag and one renamed, and a type that can be known. -/
def blankTypes : Bytes := utf8 "A=x y\n,=p q\nB=old n\nC=good\n"

def blankRenames : Bytes := utf8 "old\\ n=new\n"

def blankDisk : Disk where
  nodes := [(["d"], .file blankTypes), (["u"], .file blankRenames)]

def auditWords : List String := ["--definitions", "d", "--upgrade", "u", "audit"]

theorem output_of_audit_blanks :
    (∃ missing : List String, missing.Pairwise (· < ·) ∧
      (∀ typeId, typeId ∈ missing ↔ Missing (Archive.definitionsOf blankTypes)
        (.ofPairs (Archive.definitionsOf blankRenames).pairs) typeId) ∧
      ((run noTables Disk.access auditWords).run blankDisk).1.output =
        utf8 ((Text.Json.array (missing.map .str)).pretty ++ "\n") ∧
      (((run noTables Disk.access auditWords).run blankDisk).1.code = 0 ↔ missing = []) ∧
      ((run noTables Disk.access auditWords).run blankDisk).2 = blankDisk) ∧
    ((run noTables Disk.access auditWords).run blankDisk).1.output =
      utf8 "[\n  \"x y\"\n]\n" :=
  have hparse : parse auditWords =
      .ok ({ definitions := some "d", upgrade := some "u" }, .audit) := rfl
  have hreads : AuditReads blankDisk { definitions := some "d", upgrade := some "u" } blankTypes
      (.ofPairs (Archive.definitionsOf blankRenames).pairs) :=
    ⟨rfl, ⟨_, rfl, rfl⟩, Or.inr ⟨"u", blankRenames, rfl, rfl, rfl⟩⟩
  ⟨output_of_audit hparse hreads, by decide +kernel⟩

end Console

end PlanArchive
