import PlanArchive.Archive.Log
import PlanArchive.Archive.Report
import PlanArchive.Archive.Startup
import PlanArchive.Console.Arguments
import PlanArchive.Console.Complaint
import PlanArchive.Files.Disk

/-!
# Runs

A run first reads all it needs and then writes its outputs, to a file or to the console. No file is
written before everything is read.
-/

namespace PlanArchive.Console

open Text Naming Files

/-- What a command has to write: complete outputs, one after another. -/
structure Writing where
  file : Option String := none
  outputs : List (Except Failure Bytes)
  /-- What is still wrong once all is written. -/
  complaint : Option Complaint := none

def Writing.line (text : String) : Writing := { outputs := [.ok (utf8 (text ++ "\n"))] }

/-- The outputs up to the first that cannot be had, and what there is to complain of. -/
def Writing.content (writing : Writing) : Bytes × Option Complaint :=
  match Sink.saveAll {} writing.outputs with
  | (sink, .ok ()) => (sink.taken, writing.complaint)
  | (sink, .error failure) => (sink.taken, some (.archive failure))

/-- The code a run ends with, what it printed, and what it complained of. -/
structure Outcome where
  code : Nat := 0
  output : Bytes := []
  complaint : String := ""

def Outcome.failed (output : Bytes) (complaint : Complaint) : Outcome :=
  ⟨1, output, s!"Error: {complaint.message}\n"⟩

def Outcome.of (output : Bytes) : Option Complaint → Outcome
  | some complaint => .failed output complaint
  | none => { output }

/-! ## Reading -/

def textOf : Except ReadFault Bytes → Except String (List Char)
  | .error fault => .error fault.reason
  | .ok bytes =>
    match Utf8.decode? bytes with
    | some text => .ok text
    | none => .error "stream did not contain valid UTF-8"

def configOf (path : String) (content : Except ReadFault Bytes) : Except Complaint Settings := do
  let text ← (textOf content).mapError (.noConfig path)
  match Settings.ofText? text with
  | some settings => return settings
  | none => throw (.badConfig path)

def Options.override (options : Options) (settings : Settings) : Settings :=
  { settings with
    home := options.home.getD settings.home
    definitionsFile := options.definitions.getD settings.definitionsFile
    expectedChecksum := if options.skipChecksum then none else settings.expectedChecksum }

/-- The types that every run knows. -/
def standardTypes : KnownTypes :=
  ⟨KnownTypes.builtIn.types ++ [(sampleType, true), (httpSampleType, true)]⟩

/-- The types of a list, one on a line. A line that starts with a number sign is a comment. -/
def typesIn (text : List Char) : List String :=
  (((lines text).map trim).filter fun line => !line.isEmpty && line.head? != some '#').map
    String.ofList

/-- The types that definitions have tags for. -/
def taggedTypes (source : Definition.Source) : List String :=
  source.entries.filterMap fun entry => match entry with
    | .tags _ typeId => some typeId
    | _ => none

def listedTypes (path : String) (content : Except ReadFault Bytes) :
    Except Complaint KnownTypes := do
  let text ← (textOf content).mapError (.noTypeList path)
  return standardTypes.registerAll (typesIn text)

def orComplaint {α : Type} (outcome : Except Failure α) : Except Complaint α :=
  outcome.mapError .archive

/-- A log that could be opened. -/
def logOf (path : String) : Except ReadFault Bytes → Except Complaint Source
  | .ok bytes => .ok ⟨bytes, none⟩
  | .error (.opening reason) => .error (.noLog path reason)
  | .error (.reading reason) => .ok ⟨[], some ⟨false, reason⟩⟩

/-- A tag or a type, what it stands for, how it is written, and whether it can be read. -/
def resolution (resolver : Resolver) (name : String) : Json :=
  let typeId := resolver.tags.typeOf name
  .obj
    [("alias", .str (resolver.tagFor typeId)),
      ("decodable", .bool (resolver.binding? name).isSome),
      ("name", .str name),
      ("type", .str typeId)]

section

variable {m : Type → Type} [Monad m] (codecs : EastAsian → Codec)
  (read : String → m (Except ReadFault Bytes))

def settingsOf (options : Options) : ExceptT Complaint m Settings := do
  match options.config with
  | some path => return options.override (← configOf path (← read path))
  | none => return options.override {}

/-- The listed types or, without a list, all types of the definitions. -/
def knownTypes (options : Options) (settings : Settings) : ExceptT Complaint m KnownTypes := do
  match options.types with
  | some path => listedTypes path (← read path)
  | none =>
    let path := settings.definitionsPath
    let source ← orComplaint (Definition.Source.ofFile path (← read path))
    return standardTypes.registerAll (taggedTypes source)

def renamesOf (options : Options) : ExceptT Complaint m Renames := do
  match options.upgrade with
  | some path => orComplaint (Renames.ofFile path (← read path))
  | none => return {}

def archiveOf (options : Options) : ExceptT Complaint m Archive := do
  let settings ← settingsOf read options
  let known ← knownTypes read options settings
  let renames ← renamesOf read options
  let content ← read settings.definitionsPath
  orComplaint (Archive.ofFile { codecs, settings, known, renames := renames.renaming } content)

def checksum (path : String) : ExceptT Complaint m Writing := do
  return .line (← orComplaint (Schema.checksumAt path (← read path)))

/-- All that a command does before it writes. -/
def perform (options : Options) : Command → ExceptT Complaint m Writing
  | .checksum (some path) => checksum read path
  | .checksum none => do checksum read (← settingsOf read options).definitionsPath
  | .report => do return .line (← archiveOf codecs read options).report.pretty
  | .audit => do
    let missing := (← archiveOf codecs read options).unreadable
    let complaint := if missing.isEmpty then none else some (.unreadableTypes missing.length)
    return { Writing.line (Json.array (missing.map .str)).pretty with complaint }
  | .resolve name => do
    return .line (resolution (← archiveOf codecs read options).resolver name).pretty
  | .resave input file => do
    let archive ← archiveOf codecs read options
    let plan ← orComplaint (archive.loadPlanFile input (← read input))
    return { file, outputs := [archive.planDocument plan] }
  | .resaveRecords input file wrap => do
    let archive ← archiveOf codecs read options
    let source ← logOf input (← read input)
    let (records, outcome) := archive.loadRecords source
    orComplaint outcome
    let outputs := records.map (archive.record · none)
    return { file, outputs := if wrap then archive.logStart :: outputs ++ [archive.logEnd]
                              else outputs }

end

/-! ## Writing -/

section

variable {m : Type → Type} [Monad m]

def Writing.finish (files : Access m) (writing : Writing) : m Outcome := do
  let (content, complaint) := writing.content
  match writing.file with
  | none => return .of content complaint
  | some path =>
    match ← files.write path content with
    | .ok () => return .of [] complaint
    | .error reason => return .failed [] (.noOutput path reason)

def usageLines : List String :=
  ["Usage: plan-archive [options] <command>",
    "",
    "Commands:",
    "  checksum [file]         print the checksum of a definition file",
    "  report                  print what an archive starts with, as JSON",
    "  audit                   list the types with a tag that cannot be read",
    "  resolve <name>          print what a tag or a type stands for",
    "  resave <input>          write a test plan again",
    "  resave-records <input>  write the records of a result log again",
    "  help [command]          print this text",
    "",
    "Options:",
    "  --config <file>         settings as JSON",
    "  --home <folder>         the folder that the definitions are in",
    "  --definitions <file>    the definitions",
    "  --upgrade <file>        renamed types, as lines old=new",
    "  --types <file>          known types, one on a line",
    "  --skip-checksum         do not compare the checksum of the definitions",
    "  -o, --output <file>     where a plan or a log is written",
    "  --wrap                  write a log with its wrapper",
    "  -h, --help              print this text",
    "  -V, --version           print the version"]

def usage : String := String.join (usageLines.map (· ++ "\n"))

def Outcome.stopped : Stop → Outcome
  | .help => { output := utf8 usage }
  | .version => { output := utf8 ("plan-archive " ++ Settings.applicationVersion {} ++ "\n") }
  | .misuse what => ⟨2, [], "error: " ++ what.message ++ "\n\n" ++ usage⟩

/-- A complete run. -/
def run (codecs : EastAsian → Codec) (files : Access m) (words : List String) : m Outcome := do
  match parse words with
  | .error stop => return .stopped stop
  | .ok (options, command) =>
    match ← (perform codecs files.read options command).run with
    | .error complaint => return .failed [] complaint
    | .ok writing => writing.finish files

end

end PlanArchive.Console
