import PlanArchive.Text.Hex
import PlanArchive.Text.Hidden

/-!
# Quoted texts in messages

A text between double quotes. Quotes, backslashes and the common controls are written with a
backslash, every other character that shows nothing of its own by its number.
-/

namespace PlanArchive.Text

def quoteChar (c : Char) : List Char :=
  if c = '\x22' ∨ c = '\\' then ['\\', c]
  else if c = '\t' then ['\\', 't']
  else if c = '\n' then ['\\', 'n']
  else if c = '\r' then ['\\', 'r']
  else if c = '\x00' then ['\\', '0']
  else if isHidden c then "\\u\x7b".toList ++ Hex.ofNat c.toNat ++ "\x7d".toList
  else [c]

def quoted (s : String) : String :=
  "\"" ++ String.ofList (s.toList.flatMap quoteChar) ++ "\""

/-- A text that may be missing. -/
def quotedOption : Option String → String
  | some s => "Some(" ++ quoted s ++ ")"
  | none => "None"

end PlanArchive.Text
