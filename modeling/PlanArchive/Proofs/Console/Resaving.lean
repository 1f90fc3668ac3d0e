import PlanArchive.Console.Run
import PlanArchive.Proofs.Archive.Saving
import PlanArchive.Proofs.Files.Disk

/-!
# The output of a run that failed

A run reads all it needs before it creates its output, and nothing it does until then changes the
disk (`reads_perform`). The parts of the output are made only when it is there.
-/

namespace PlanArchive.Console

open Naming Files

variable {α β : Type}

/-! ## Reading -/

/-- Leaves the disk as it is; what it returns satisfies `Q`. -/
def Reads (m : ExceptT Complaint (StateM Disk) α) (Q : α → Prop) : Prop :=
  ∀ disk, (m.run.run disk).2 = disk ∧ ∀ a, (m.run.run disk).1 = .ok a → Q a

theorem run_bind (m : ExceptT Complaint (StateM Disk) α)
    (f : α → ExceptT Complaint (StateM Disk) β) (disk : Disk) :
    (m >>= f).run.run disk =
      match m.run.run disk with
      | (.ok a, disk) => (f a).run.run disk
      | (.error complaint, disk) => (.error complaint, disk) := by
  simp only [ExceptT.run_bind, StateT.run_bind]
  cases m.run.run disk with
  | mk result after =>
    cases result <;> simp only <;> rfl

variable {Q : α → Prop} {R : β → Prop}

theorem reads_pure {a : α} (h : Q a) : Reads (pure a) Q :=
  fun _ => ⟨rfl, fun _ he => Except.ok.inj he ▸ h⟩

theorem reads_bind {m : ExceptT Complaint (StateM Disk) α}
    {f : α → ExceptT Complaint (StateM Disk) β} {P : α → Prop} (hm : Reads m P)
    (hf : ∀ a, P a → Reads (f a) R) : Reads (m >>= f) R := by
  intro disk
  obtain ⟨hdisk, hP⟩ := hm disk
  rw [run_bind]
  cases hrun : m.run.run disk with
  | mk result after =>
    rw [hrun] at hdisk hP
    obtain rfl : after = disk := hdisk
    cases result with
    | ok a => exact hf a (hP a rfl) after
    | error complaint => exact ⟨rfl, by rintro _ ⟨⟩⟩

/-- Anything may be returned. -/
def anything : α → Prop := fun _ => True

theorem reads_result (result : Except Complaint α) :
    Reads (liftM result : ExceptT Complaint (StateM Disk) α) anything :=
  fun _ => ⟨rfl, fun _ _ => trivial⟩

theorem reads_read (path : String) :
    Reads (liftM (Disk.access.read path) : ExceptT Complaint (StateM Disk) _) anything :=
  fun _ => ⟨rfl, fun _ _ => trivial⟩

theorem reads_settingsOf (options : Options) :
    Reads (settingsOf Disk.access.read options) anything := by
  unfold settingsOf
  split
  · refine reads_bind (reads_read _) fun content _ => ?_
    exact reads_bind (reads_result _) fun settings _ => reads_pure trivial
  · exact reads_pure trivial

theorem reads_knownTypes (options : Options) (settings : Settings) :
    Reads (knownTypes Disk.access.read options settings) anything := by
  unfold knownTypes
  split
  · exact reads_bind (reads_read _) fun content _ => reads_result _
  · refine reads_bind (reads_read _) fun content _ => ?_
    exact reads_bind (reads_result _) fun source _ => reads_pure trivial

theorem reads_renamesOf (options : Options) :
    Reads (renamesOf Disk.access.read options) anything := by
  unfold renamesOf
  split
  · exact reads_bind (reads_read _) fun content _ => reads_result _
  · exact reads_pure trivial

theorem reads_archiveOf {codecs : EastAsian → Codec} (options : Options) :
    Reads (archiveOf codecs Disk.access.read options) anything := by
  unfold archiveOf
  refine reads_bind (reads_settingsOf options) fun settings _ => ?_
  refine reads_bind (reads_knownTypes options settings) fun known _ => ?_
  refine reads_bind (reads_renamesOf options) fun renames _ => ?_
  exact reads_bind (reads_read _) fun content _ => reads_result _

/-- The file that a command writes. -/
def Command.output? : Command → Option String
  | .resave _ output => output
  | .resaveRecords _ output _ => output
  | _ => none

/-- What a command has to write goes to its file, and only a command without one can complain of
anything else. -/
structure Plans (command : Command) (writing : Writing) : Prop where
  file : writing.file = command.output?
  complaint : command.output?.isSome → writing.complaint = none

theorem reads_checksum (path : String) (file : Option String) :
    Reads (checksum Disk.access.read path) (Plans (.checksum file)) := by
  unfold checksum
  refine reads_bind (reads_read path) fun content _ => ?_
  exact reads_bind (reads_result _) fun digest _ => reads_pure ⟨rfl, nofun⟩

theorem reads_perform {codecs : EastAsian → Codec} (options : Options) (command : Command) :
    Reads (perform codecs Disk.access.read options command) (Plans command) := by
  cases command with
  | checksum file =>
    cases file with
    | some path => exact reads_checksum path _
    | none => exact reads_bind (reads_settingsOf options) fun settings _ => reads_checksum _ _
  | report =>
    exact reads_bind (reads_archiveOf options) fun archive _ => reads_pure ⟨rfl, nofun⟩
  | audit =>
    exact reads_bind (reads_archiveOf options) fun archive _ => reads_pure ⟨rfl, nofun⟩
  | resolve name =>
    exact reads_bind (reads_archiveOf options) fun archive _ => reads_pure ⟨rfl, nofun⟩
  | resave input output =>
    refine reads_bind (reads_archiveOf options) fun archive _ => ?_
    refine reads_bind (reads_read input) fun content _ => ?_
    exact reads_bind (reads_result _) fun plan _ => reads_pure ⟨rfl, fun _ => rfl⟩
  | resaveRecords input output wrap =>
    refine reads_bind (reads_archiveOf options) fun archive _ => ?_
    refine reads_bind (reads_read input) fun content _ => ?_
    refine reads_bind (reads_result _) fun source _ => ?_
    exact reads_bind (reads_result _) fun _ _ => reads_pure ⟨rfl, fun _ => rfl⟩

/-! ## Writing -/

/-- There are all parts, or some and then one that is not to be had. -/
theorem all_or_cut {ε : Type} (outputs : List (Except ε Bytes)) :
    (∃ done : List Bytes, outputs = done.map .ok) ∨
      ∃ (done : List Bytes) (failure : ε) (rest : List (Except ε Bytes)),
        outputs = done.map .ok ++ .error failure :: rest := by
  induction outputs with
  | nil => exact .inl ⟨[], rfl⟩
  | cons output outputs ih =>
    cases output with
    | error failure => exact .inr ⟨[], failure, outputs, rfl⟩
    | ok bytes =>
      rcases ih with ⟨done, rfl⟩ | ⟨done, failure, rest, rfl⟩
      · exact .inl ⟨bytes :: done, rfl⟩
      · exact .inr ⟨bytes :: done, failure, rest, rfl⟩

theorem content_of_all {writing : Writing} {done : List Bytes}
    (h : writing.outputs = done.map .ok) :
    writing.content = (done.flatten, writing.complaint) := by
  have hsaved := Sink.healthy_empty.saveAll_ok done []
  rw [List.append_nil, ← h] at hsaved
  rw [Writing.content, hsaved]
  rfl

theorem content_of_cut {writing : Writing} {done : List Bytes} {failure : Failure}
    {rest : List (Except Failure Bytes)}
    (h : writing.outputs = done.map .ok ++ .error failure :: rest) :
    writing.content = (done.flatten, some (.archive failure)) := by
  have hsaved := Sink.healthy_empty.saveAll_ok done (.error failure :: rest)
  rw [← h] at hsaved
  rw [Writing.content, hsaved]
  rfl

section

variable {codecs : EastAsian → Codec} {disk : Disk} {options : Options} {command : Command}
  {path : String}

/-- What a command plans to write once it has read all it needs. -/
def planned (codecs : EastAsian → Codec) (disk : Disk) (options : Options) (command : Command) :
    Except Complaint Writing :=
  ((perform codecs Disk.access.read options command).run.run disk).1

/-- The command has read all it needs and can create its file, but not all parts of the output can
be made. `content` is the parts before the first one that cannot. -/
def CutShort (codecs : EastAsian → Codec) (disk : Disk) (options : Options) (command : Command)
    (path : String) (content : Bytes) : Prop :=
  ∃ (writing : Writing) (done : List Bytes) (failure : Failure) (rest : List (Except Failure Bytes)),
    planned codecs disk options command = .ok writing ∧
      writing.outputs = done.map .ok ++ .error failure :: rest ∧ done.flatten = content ∧
      ∃ after, disk.write path content = .ok after

theorem CutShort.content_eq {content : Bytes} (h : CutShort codecs disk options command path content)
    {writing : Writing} (hplanned : planned codecs disk options command = .ok writing) :
    ∃ failure, writing.content = (content, some (.archive failure)) := by
  obtain ⟨writing', done, failure, rest, hplanned', hcut, rfl, -⟩ := h
  obtain rfl : writing' = writing := Except.ok.inj (hplanned'.symm.trans hplanned)
  exact ⟨failure, content_of_cut hcut⟩

theorem plans_of_planned {writing : Writing} (h : planned codecs disk options command = .ok writing) :
    Plans command writing :=
  (reads_perform options command disk).2 writing h

theorem run_eq {words : List String} (hparse : parse words = .ok (options, command)) :
    (run codecs Disk.access words).run disk = match planned codecs disk options command with
      | .error complaint => (.failed [] complaint, disk)
      | .ok writing => (writing.finish Disk.access).run disk := by
  have hperform : (perform codecs Disk.access.read options command).run.run disk =
      (planned codecs disk options command, disk) :=
    Prod.ext rfl (reads_perform options command disk).1
  rw [run, hparse]
  simp only [StateT.run_bind, hperform]
  cases planned codecs disk options command <;> rfl

theorem finish_eq {writing : Writing} (hfile : writing.file = some path) :
    (writing.finish Disk.access).run disk = match disk.write path writing.content.1 with
      | .ok after => (.of [] writing.content.2, after)
      | .error reason => (.failed [] (.noOutput path reason), disk) := by
  have hwrite : ∀ content, (Disk.access.write path content).run disk =
      match disk.write path content with
      | .ok after => (.ok (), after)
      | .error reason => (.error reason, disk) := fun _ => rfl
  unfold Writing.finish
  simp only [hfile, StateT.run_bind, hwrite]
  cases disk.write path writing.content.1 <;> rfl

/-- A run that fails is cut short, or it leaves the disk as it was. -/
theorem run_failed_cases {words : List String} (hparse : parse words = .ok (options, command))
    (houtput : command.output? = some path)
    (hfailed : ((run codecs Disk.access words).run disk).1.code = 1) :
    (∃ content, CutShort codecs disk options command path content ∧
      disk.write path content = .ok ((run codecs Disk.access words).run disk).2) ∨
    ((∀ content, ¬CutShort codecs disk options command path content) ∧
      ((run codecs Disk.access words).run disk).2 = disk) := by
  rw [run_eq hparse] at hfailed ⊢
  cases hplanned : planned codecs disk options command with
  | error complaint =>
    refine .inr ⟨fun content h => ?_, rfl⟩
    obtain ⟨writing, -, -, -, hwriting, -⟩ := h
    rw [hplanned] at hwriting
    cases hwriting
  | ok writing =>
    obtain ⟨hfile, hcomplaint⟩ := plans_of_planned hplanned
    rw [houtput] at hfile hcomplaint
    simp only [hplanned, finish_eq hfile] at hfailed ⊢
    cases hwrite : disk.write path writing.content.1 with
    | error reason =>
      refine .inr ⟨fun content h => ?_, rfl⟩
      obtain ⟨failure, hcontent⟩ := h.content_eq hplanned
      obtain ⟨-, -, -, -, -, -, -, after, hafter⟩ := h
      rw [hcontent, hafter] at hwrite
      cases hwrite
    | ok after =>
      rcases all_or_cut writing.outputs with ⟨done, hall⟩ | ⟨done, failure, rest, hcut⟩
      · rw [content_of_all hall, hcomplaint rfl] at hwrite hfailed
        simp only [hwrite] at hfailed
        cases hfailed
      · rw [content_of_cut hcut] at hwrite
        exact .inl ⟨done.flatten, ⟨writing, done, failure, rest, hplanned, hcut, rfl, after, hwrite⟩,
          hwrite⟩

/-- A run that fails leaves its file as it was, unless it is cut short: then the file holds the
parts before the first one that could not be made. -/
theorem output_of_failed_run {words : List String} (hparse : parse words = .ok (options, command))
    (houtput : command.output? = some path)
    (hfailed : ((run codecs Disk.access words).run disk).1.code = 1) :
    (∀ content, CutShort codecs disk options command path content →
      ((run codecs Disk.access words).run disk).2.read path = .ok content) ∧
    ((∀ content, ¬CutShort codecs disk options command path content) →
      ((run codecs Disk.access words).run disk).2 = disk) ∧
    (((run codecs Disk.access words).run disk).2.read path = disk.read path ↔
      ∀ content, CutShort codecs disk options command path content → disk.read path = .ok content) := by
  rcases run_failed_cases hparse houtput hfailed with ⟨content, hcut, hwrite⟩ | ⟨hnever, hsame⟩
  · have hread := Disk.read_of_write hwrite
    have hunique : ∀ other, CutShort codecs disk options command path other → other = content := by
      intro other hother
      obtain ⟨writing, -, -, -, hplanned, -⟩ := id hcut
      obtain ⟨failure, hcontent⟩ := hcut.content_eq hplanned
      obtain ⟨failure', hcontent'⟩ := hother.content_eq hplanned
      exact congrArg Prod.fst (hcontent'.symm.trans hcontent)
    refine ⟨fun other hother => hunique other hother ▸ hread, fun hnever => absurd hcut (hnever _),
      ?_⟩
    rw [hread]
    constructor
    · intro hkept other hother
      rw [← hkept, hunique other hother]
    · exact fun h => (h content hcut).symm
  · refine ⟨fun content hcut => absurd hcut (hnever content), fun _ => hsame, ?_⟩
    rw [hsame]
    exact iff_of_true rfl fun content hcut => absurd hcut (hnever content)

end

/-! ## A log in a charset that is only read -/

/-- Definitions that choose UTF-16, an empty log, and a file from before. -/
def utf16Disk : Disk where
  nodes :=
    [(["d"], .file (utf8 "_file_encoding=utf-16\n")), (["in"], .file []),
      (["out"], .file (utf8 "old"))]

/-- The charset at hand needs no codec. -/
def noTables : EastAsian → Codec := fun _ => .ascii

def wrapWords : List String := ["--definitions", "d", "resave-records", "in", "--wrap", "-o", "out"]

theorem parse_wrapWords : parse wrapWords =
    .ok ({ definitions := some "d" }, .resaveRecords "in" (some "out") true) := rfl

theorem failed_wrapWords : ((run noTables Disk.access wrapWords).run utf16Disk).1.code = 1 := by
  decide +kernel

theorem output_of_failed_run_utf16 :
    ((run noTables Disk.access wrapWords).run utf16Disk).1.code = 1 ∧
      (((run noTables Disk.access wrapWords).run utf16Disk).2.read "out" = utf16Disk.read "out" ↔
        ∀ content, CutShort noTables utf16Disk { definitions := some "d" }
          (.resaveRecords "in" (some "out") true) "out" content →
            utf16Disk.read "out" = .ok content) :=
  ⟨failed_wrapWords, (output_of_failed_run parse_wrapWords rfl failed_wrapWords).2.2⟩

/-- A run that fails may empty its file. -/
theorem output_emptied :
    ¬ ∀ (words : List String) (options : Options) (command : Command) (path : String) (disk : Disk),
      parse words = .ok (options, command) → command.output? = some path →
      ((run noTables Disk.access words).run disk).1.code = 1 →
      ((run noTables Disk.access words).run disk).2.read path = disk.read path := by
  intro h
  have hkept := h wrapWords _ _ "out" utf16Disk parse_wrapWords rfl failed_wrapWords
  have hafter :
      (((run noTables Disk.access wrapWords).run utf16Disk).2.read "out").toOption = some [] := by
    decide +kernel
  have hbefore : (utf16Disk.read "out").toOption = some (utf8 "old") := by decide +kernel
  rw [hkept, hbefore] at hafter
  exact absurd hafter (by decide +kernel)

end PlanArchive.Console
