import PlanArchive.Files.Path
import PlanArchive.Text.Json.Reader

/-!
# Settings

Where the definitions are, what they are expected to be, and what is written where they say
nothing. Settings may be read from JSON: from an object by name, or from an array by position. What
is left out keeps its default.
-/

namespace PlanArchive

structure Settings where
  home : String := "."
  definitionsFile : String := "bin/saveservice.properties"
  expectedVersion : String := "4.0"
  expectedChecksum : Option String := some "dd74550b6c99afee2c15b5d33c03c962725a239e"
  defaultEncoding : String := "UTF-8"
  applicationVersion : String := "0.1.0"

namespace Settings

open Text

def definitionsPath (settings : Settings) : String :=
  Files.join settings.home settings.definitionsFile

def keys : List String :=
  ["home", "definitions_file", "expected_version", "expected_checksum", "default_encoding",
    "application_version"]

/-- Sets one setting. All are texts; only the checksum may be null. -/
def set (key : String) (value : Json) (settings : Settings) : Option Settings :=
  if key = "expected_checksum" then
    match value with
    | .null => some { settings with expectedChecksum := none }
    | .string (some s) => some { settings with expectedChecksum := some s }
    | _ => none
  else match value with
    | .string (some s) =>
      if key = "home" then some { settings with home := s }
      else if key = "definitions_file" then some { settings with definitionsFile := s }
      else if key = "expected_version" then some { settings with expectedVersion := s }
      else if key = "default_encoding" then some { settings with defaultEncoding := s }
      else if key = "application_version" then some { settings with applicationVersion := s }
      else none
    | _ => none

/-- `seen` holds the settings so far: none may come twice. Members of other names are passed
over. -/
def ofMembers (seen : List String) (settings : Settings) :
    List (Option String × Json) → Option Settings
  | [] => some settings
  | (none, _) :: _ => none
  | (some key, value) :: rest =>
    if !keys.contains key then ofMembers seen settings rest
    else if seen.contains key then none
    else (settings.set key value).bind (ofMembers (key :: seen) · rest)

def ofItems (settings : Settings) : List String → List Json → Option Settings
  | _, [] => some settings
  | [], _ :: _ => none
  | key :: names, value :: rest => (settings.set key value).bind (ofItems · names rest)

def ofJson? : Json → Option Settings
  | .object members => ofMembers [] {} members
  | .array items => ofItems {} keys items
  | _ => none

def ofText? (text : List Char) : Option Settings := (Json.read? text).bind ofJson?

end Settings

end PlanArchive
