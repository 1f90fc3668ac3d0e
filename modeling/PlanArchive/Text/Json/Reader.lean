import PlanArchive.Text.Json

/-!
# Reading JSON

Each reader takes a value off the front of a text and returns what follows it, or nothing where
the text is not well formed. Fuel bounds the number of values; a text has no more values than
characters.
-/

namespace PlanArchive.Text.Json

def isGap (c : Char) : Bool := c == ' ' || c == '\t' || c == '\n' || c == '\r'

def skipGap (cs : List Char) : List Char := cs.dropWhile isGap

/-- A unit of a string: a character, or one half of a surrogate pair. -/
abbrev CodeUnit := Nat

def simpleEscape (c : Char) : Option Char :=
  if c = '\x22' ∨ c = '\\' ∨ c = '/' then some c
  else if c = 'b' then some '\x08'
  else if c = 'f' then some '\x0c'
  else if c = 'n' then some '\n'
  else if c = 'r' then some '\r'
  else if c = 't' then some '\t'
  else none

/-- The units up to the closing quote. `escape` tells what of an escape has been read: its
backslash, or its number so far with the digits still to come. -/
def readUnits : Option (Option (Nat × CodeUnit)) → List Char → Option (List CodeUnit × List Char)
  | _, [] => none
  | none, c :: rest =>
    if c = '\x22' then some ([], rest)
    else if c = '\\' then readUnits (some none) rest
    else if c.toNat < 0x20 then none
    else do
      let (units, rest) ← readUnits none rest
      return (c.toNat :: units, rest)
  | some none, c :: rest =>
    if c = 'u' then readUnits (some (some (4, 0))) rest
    else do
      let unit ← simpleEscape c
      let (units, rest) ← readUnits none rest
      return (unit.toNat :: units, rest)
  | some (some (digits, n)), c :: rest => do
    let n := n * 16 + (← Hex.value? c)
    if digits ≤ 1 then
      let (units, rest) ← readUnits none rest
      return (n :: units, rest)
    else readUnits (some (some (digits - 1, n))) rest

/-- Joins surrogate pairs; nothing if half a pair is left over. -/
def joinUnits : List CodeUnit → Option (List Char)
  | [] => some []
  | u :: rest =>
    if u < 0xD800 ∨ 0xDFFF < u then (joinUnits rest).map (Char.ofNat u :: ·)
    else match rest with
      | v :: rest =>
        if u ≤ 0xDBFF ∧ 0xDC00 ≤ v ∧ v ≤ 0xDFFF then
          (joinUnits rest).map (Char.ofNat (0x10000 + (u - 0xD800) * 1024 + (v - 0xDC00)) :: ·)
        else none
      | [] => none

/-- The text behind an opening quote. -/
def readString (cs : List Char) : Option (Option String × List Char) := do
  let (units, rest) ← readUnits none cs
  return ((joinUnits units).map String.ofList, rest)

def isDigit (c : Char) : Bool := '0' ≤ c && c ≤ '9'

/-- At least one digit. -/
def readDigits (cs : List Char) : Option (List Char × List Char) :=
  match cs.takeWhile isDigit with
  | [] => none
  | digits => some (digits, cs.dropWhile isDigit)

/-- A part that may be missing. -/
def readFraction : List Char → Option (List Char × List Char)
  | '.' :: rest => (readDigits rest).map fun (digits, rest) => ('.' :: digits, rest)
  | cs => some ([], cs)

def readExponent : List Char → Option (List Char × List Char)
  | c :: rest =>
    if c = 'e' ∨ c = 'E' then
      match rest with
      | s :: after =>
        if s = '+' ∨ s = '-' then
          (readDigits after).map fun (digits, rest) => (c :: s :: digits, rest)
        else (readDigits rest).map fun (digits, rest) => (c :: digits, rest)
      | [] => none
    else some ([], c :: rest)
  | [] => some ([], [])

/-- A zero is not followed by digits. -/
def readInteger : List Char → Option (List Char × List Char)
  | '0' :: c :: rest => if isDigit c then none else some (['0'], c :: rest)
  | cs => readDigits cs

def readNumber (cs : List Char) : Option (Json × List Char) := do
  let (sign, rest) := match cs with
    | '-' :: rest => (['-'], rest)
    | _ => ([], cs)
  let (whole, rest) ← readInteger rest
  let (fraction, rest) ← readFraction rest
  let (exponent, rest) ← readExponent rest
  return (.number (String.ofList (sign ++ whole ++ fraction ++ exponent)), rest)

def readWord (word : String) (value : Json) (cs : List Char) : Option (Json × List Char) :=
  if word.toList.isPrefixOf cs then some (value, cs.drop word.length) else none

mutual

def readValue : Nat → List Char → Option (Json × List Char)
  | 0, _ => none
  | fuel + 1, cs =>
    match skipGap cs with
    | [] => none
    | c :: rest =>
      if c = '\x22' then (readString rest).map fun (text, rest) => (.string text, rest)
      else if c = '[' then
        match skipGap rest with
        | ']' :: rest => some (.array [], rest)
        | rest => (readItems fuel rest).map fun (items, rest) => (.array items, rest)
      else if c = '\x7b' then
        match skipGap rest with
        | '\x7d' :: rest => some (.object [], rest)
        | rest => (readMembers fuel rest).map fun (members, rest) => (.object members, rest)
      else if c = 'n' then readWord "null" .null (c :: rest)
      else if c = 't' then readWord "true" (.bool true) (c :: rest)
      else if c = 'f' then readWord "false" (.bool false) (c :: rest)
      else readNumber (c :: rest)

def readItems : Nat → List Char → Option (List Json × List Char)
  | 0, _ => none
  | fuel + 1, cs => do
    let (item, rest) ← readValue fuel cs
    match skipGap rest with
    | ',' :: rest =>
      let (items, rest) ← readItems fuel rest
      return (item :: items, rest)
    | ']' :: rest => return ([item], rest)
    | _ => none

def readMembers : Nat → List Char → Option (List (Option String × Json) × List Char)
  | 0, _ => none
  | fuel + 1, cs => do
    match skipGap cs with
    | '\x22' :: rest =>
      let (key, rest) ← readString rest
      match skipGap rest with
      | ':' :: rest =>
        let (value, rest) ← readValue fuel rest
        match skipGap rest with
        | ',' :: rest =>
          let (members, rest) ← readMembers fuel rest
          return ((key, value) :: members, rest)
        | '\x7d' :: rest => return ([(key, value)], rest)
        | _ => none
      | _ => none
    | _ => none

end

/-- The value of a whole text. -/
def read? (text : List Char) : Option Json := do
  let (value, rest) ← readValue (2 * text.length + 2) text
  if (skipGap rest).isEmpty then some value else none

end PlanArchive.Text.Json
