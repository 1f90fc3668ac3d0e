import PlanArchive.Text.Hex

/-!
# JSON values and how they are laid out

Each member of an array or object stands on a line of its own, two blanks deeper than its parent;
an empty array or object stays on one line.
-/

namespace PlanArchive.Text

/-- Strings and keys that hold half a surrogate pair have no text. Numbers are kept as written. -/
inductive Json
  | null
  | bool (b : Bool)
  | number (written : String)
  | string (text : Option String)
  | array (items : List Json)
  | object (members : List (Option String × Json))
  deriving Inhabited

namespace Json

def str (s : String) : Json := .string (some s)

def nat (n : Nat) : Json := .number (toString n)

def obj (members : List (String × Json)) : Json := .object (members.map fun (k, v) => (some k, v))

/-- A value under a single key. -/
def tagged (tag : String) (members : List (String × Json)) : Json := obj [(tag, obj members)]

def escapeChar (c : Char) : List Char :=
  if c = '\x22' ∨ c = '\\' then ['\\', c]
  else if c = '\x08' then ['\\', 'b']
  else if c = '\x0c' then ['\\', 'f']
  else if c = '\n' then ['\\', 'n']
  else if c = '\r' then ['\\', 'r']
  else if c = '\t' then ['\\', 't']
  else if c.toNat < 0x20 then
    "\\u00".toList ++ [Hex.digit (c.toNat / 16), Hex.digit (c.toNat % 16)]
  else [c]

def quote (s : String) : List Char := '\x22' :: s.toList.flatMap escapeChar ++ ['\x22']

def newLine (depth : Nat) : List Char := '\n' :: List.replicate (2 * depth) ' '

mutual

def layout (depth : Nat) : Json → List Char
  | .null => "null".toList
  | .bool b => (if b then "true" else "false").toList
  | .number written => written.toList
  | .string text => quote (text.getD "")
  | .array [] => ['[', ']']
  | .array (item :: rest) =>
    '[' :: newLine (depth + 1) ++ item.layout (depth + 1) ++ layoutItems (depth + 1) rest ++
      newLine depth ++ [']']
  | .object [] => ['\x7b', '\x7d']
  | .object ((key, value) :: rest) =>
    '\x7b' :: newLine (depth + 1) ++ quote (key.getD "") ++ [':', ' '] ++
      value.layout (depth + 1) ++ layoutMembers (depth + 1) rest ++ newLine depth ++ ['\x7d']

def layoutItems (depth : Nat) : List Json → List Char
  | [] => []
  | item :: rest => ',' :: newLine depth ++ item.layout depth ++ layoutItems depth rest

def layoutMembers (depth : Nat) : List (Option String × Json) → List Char
  | [] => []
  | (key, value) :: rest =>
    ',' :: newLine depth ++ quote (key.getD "") ++ [':', ' '] ++ value.layout depth ++
      layoutMembers depth rest

end

def pretty (value : Json) : String := String.ofList (value.layout 0)

end Json

end PlanArchive.Text
