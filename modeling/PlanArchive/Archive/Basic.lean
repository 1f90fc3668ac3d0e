import PlanArchive.Archive.Schema
import PlanArchive.Archive.Settings
import PlanArchive.Charset.Label
import PlanArchive.Coding.Decode
import PlanArchive.Coding.Encode
import PlanArchive.Definition.Source

/-!
# Archives

An archive is set up once from definitions and does not change afterwards. Only definitions that
cannot be read keep it from starting: coders that cannot be had and an unexpected version are
noted, and an unusable charset fails every later operation.
-/

namespace PlanArchive

open Naming Coding Definition

/-- The charset of a label, which the failure names as it was given. -/
def Charset.ofLabel (codecs : EastAsian → Codec) (label : String) : Except Failure Charset :=
  match Charset.ofLabel? codecs label with
  | some charset => .ok charset
  | none => .error (.charset (.unsupported label))

/-- The configured charset, or the default one where the configuration is blank or missing. -/
def Charset.resolve (codecs : EastAsian → Codec) (configured : Option String) (default : String) :
    Except Failure Charset :=
  match (configured.map Text.trimmed).filter (!·.isEmpty) with
  | some label => Charset.ofLabel codecs label
  | none => Charset.ofLabel codecs default

/-- All of an archive but the coders. -/
structure Basis where
  settings : Settings
  resolver : Resolver
  schema : Schema
  fileEncoding : Option String
  charset : Except Failure Charset
  warnings : List Schema.Warning

structure Archive extends Basis where
  roster : Roster
  coderFailures : List Failure

/-- What an archive is set up with besides its definitions and its coders. -/
structure Basis.Setup where
  codecs : EastAsian → Codec
  settings : Settings := {}
  known : KnownTypes := .builtIn
  renames : Renaming := {}

structure Archive.Setup extends Basis.Setup where
  recipes : Recipes := .standard

/-- The default settings, and no tables of East Asian charsets. -/
def Archive.Setup.bare : Archive.Setup := { codecs := fun _ => .ascii }

namespace Archive

def tagsOf (entries : List Entry) : TagTable :=
  entries.foldl
    (fun table entry => match entry with
      | .tags names typeId => table.register names typeId
      | _ => table)
    {}

/-- The last version declared, or the empty one. -/
def versionOf (entries : List Entry) : String :=
  ((entries.filterMap fun entry => match entry with
    | .version value => some value
    | _ => none).getLast?).getD ""

def encodingOf (entries : List Entry) : Option String :=
  (entries.filterMap fun entry => match entry with
    | .charset value => some value
    | _ => none).getLast?

def requestsOf (entries : List Entry) : List CoderRequest :=
  entries.filterMap fun entry => match entry with
    | .coder request => some request
    | _ => none

/-- The coders that can be had, and why the others cannot. -/
def buildRoster (recipes : Recipes) (requests : List CoderRequest) : Roster × List Failure :=
  requests.foldl
    (fun (roster, failures) request => match recipes.build request with
      | .ok coder => (roster.add coder, failures)
      | .error failure => (roster, failures ++ [failure]))
    (.basic, [])

def basisOf (setup : Basis.Setup) (source : Definition.Source) (checksum : String) : Basis :=
  let entries := source.entries
  let schema : Schema := ⟨versionOf entries, checksum⟩
  let settings := setup.settings
  { settings
    resolver := ⟨tagsOf entries, setup.renames, setup.known⟩
    schema
    fileEncoding := encodingOf entries
    charset := Charset.resolve setup.codecs (encodingOf entries) settings.defaultEncoding
    warnings := schema.verify settings.expectedVersion settings.expectedChecksum }

def build (setup : Setup) (source : Definition.Source) (checksum : String) : Archive :=
  let (roster, coderFailures) := buildRoster setup.recipes (requestsOf source.entries)
  { basisOf setup.toSetup source checksum with roster, coderFailures }

/-- The definitions in a file. Octets that are not UTF-8 count as replacement characters. -/
def definitionsOf (content : Bytes) : Definition.Source :=
  .ofText (Text.Utf8.decodeLossy content)

def ofContent (setup : Setup) (content : Bytes) : Archive :=
  build setup (definitionsOf content) (Schema.checksumOf content)

def ofSource (setup : Setup) (source : Definition.Source) : Archive :=
  build setup source (Schema.checksumOf (utf8 source.rendered))

/-- The charset written by definitions, or another where they say none. -/
def encodingOr (archive : Archive) (other : String) : String :=
  (archive.fileEncoding.filter fun name => !(Text.trimmed name).isEmpty).getD other

/-- The charset of files; UTF-8 stands in for an unusable one. -/
def effectiveCharset (archive : Archive) : Charset := archive.charset.toOption.getD .utf8

def encoder (archive : Archive) (event : Option Event) : Encoder :=
  ⟨archive.resolver, archive.roster, event⟩

def decoder (archive : Archive) (mode : Mode) : Decoder :=
  { resolver := archive.resolver, roster := archive.roster, mode }

theorem decoder_readsIn (archive : Archive) (mode : Mode) : (archive.decoder mode).ReadsIn mode :=
  ⟨rfl, rfl⟩

/-- Types with a tag that cannot be read. -/
def unreadable (archive : Archive) : List String := archive.resolver.unreadable

end Archive

end PlanArchive
