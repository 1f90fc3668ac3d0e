import PlanArchive.Text.Blank
import PlanArchive.Text.Case

/-!
# What a definition says

Keys that start with an underscore are reserved: the version of the definitions, the charset of
files, and coders asked for. Every other key is a list of tags for the type in its value.
-/

namespace PlanArchive.Definition

/-- A coder asked for by name, and whether it wants access to the tags. -/
structure CoderRequest where
  coder : String
  wantsTags : Bool
  deriving DecidableEq

inductive Entry
  | tags (names typeId : String)
  | version (value : String)
  | charset (value : String)
  | obsolete
  | coder (request : CoderRequest)
  deriving DecidableEq

open Text in
def Entry.ofPair (key value : String) : Entry :=
  let value := trimmed value
  match key.toList with
  | '_' :: rest =>
    let name := String.ofList rest
    if sameIgnoringCase name "version" then .version value
    else if sameIgnoringCase name "file_version" then .obsolete
    else if sameIgnoringCase name "file_encoding" then .charset value
    else .coder ⟨name, value == "collection" || value == "mapping"⟩
  | _ => .tags key value

end PlanArchive.Definition
