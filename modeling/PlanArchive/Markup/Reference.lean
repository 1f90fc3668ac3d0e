import PlanArchive.Text.Hex

/-!
# Character references

Text and attribute values write five characters by name and read these names and numbers back.
Positions in the errors count octets of the text.
-/

namespace PlanArchive.Markup

def escapeChar (c : Char) : List Char :=
  if c = '<' then "&lt;".toList
  else if c = '>' then "&gt;".toList
  else if c = '&' then "&amp;".toList
  else if c = '\x27' then "&apos;".toList
  else if c = '\x22' then "&quot;".toList
  else [c]

def escape (cs : List Char) : List Char := cs.flatMap escapeChar

inductive NumberFault
  | sign | empty | digit | tooLarge | zero
  | notScalar (n : Nat)
  deriving DecidableEq

inductive ReferenceFault
  | unterminated (start stop : Nat)
  | unknown (start stop : Nat) (name : String)
  | number (fault : NumberFault)
  deriving DecidableEq

def NumberFault.message : NumberFault → String
  | .sign => "unexpected number sign"
  | .empty => "cannot parse integer from empty string"
  | .digit => "invalid digit found in string"
  | .tooLarge => "number too large to fit in target type"
  | .zero => "0x0 character is not permitted in XML"
  | .notScalar n => s!"`{n}` is not a valid codepoint"

def ReferenceFault.message : ReferenceFault → String
  | .unterminated start stop =>
    s!"Error while escaping character at range {start}..{stop}: Cannot find ';' after '&'"
  | .unknown start stop name => s!"at {start}..{stop}: unrecognized entity `{name}`"
  | .number fault => "invalid character reference: " ++ fault.message

/-- Reads digits from the left; the number must stay below 2^32. -/
def readDigits (base n : Nat) : List Char → Except NumberFault Nat
  | [] => .ok n
  | c :: rest =>
    match (Text.Hex.value? c).filter (· < base) with
    | none => .error .digit
    | some d =>
      if n * base + d < 2 ^ 32 then readDigits base (n * base + d) rest else .error .tooLarge

def readNumber (base : Nat) : List Char → Except NumberFault Nat
  | [] => .error .empty
  | c :: rest => if c = '+' ∨ c = '-' then .error .sign else readDigits base 0 (c :: rest)

/-- The character of a number: `x` and hexadecimal digits, or decimal digits. -/
def numbered (digits : List Char) : Except NumberFault Char := do
  let n ← match digits with
    | 'x' :: rest => readNumber 16 rest
    | _ => readNumber 10 digits
  if n = 0 then .error .zero
  else if n < 0xD800 ∨ (0xDFFF < n ∧ n < 0x110000) then .ok (Char.ofNat n)
  else .error (.notScalar n)

def named (name : String) : Option Char :=
  if name = "lt" then some '<'
  else if name = "gt" then some '>'
  else if name = "amp" then some '&'
  else if name = "apos" then some '\x27'
  else if name = "quot" then some '\x22'
  else none

/-- The character of the reference whose name takes the octets from `start` to `stop`. -/
def referred (start stop : Nat) (name : List Char) : Except ReferenceFault Char :=
  match name with
  | '#' :: digits =>
    match numbered digits with
    | .ok c => .ok c
    | .error fault => .error (.number fault)
  | _ =>
    match named (String.ofList name) with
    | some c => .ok c
    | none => .error (.unknown start stop (String.ofList name))

/-- How many octets a text takes. -/
def octets : List Char → Nat
  | [] => 0
  | c :: rest => c.utf8Size + octets rest

theorem octets_append (a b : List Char) : octets (a ++ b) = octets a + octets b := by
  induction a with
  | nil => simp [octets]
  | cons c rest ih =>
    simp only [List.cons_append, octets, ih]
    omega

/-- Reads from octet `pos` of a text of `total` octets. `under` is a reference under way: where its
ampersand stands, and its name so far, the latest character first. -/
def unescapeFrom (total : Nat) :
    Nat → Option (Nat × List Char) → List Char → Except ReferenceFault (List Char)
  | _, none, [] => .ok []
  | _, some (start, _), [] => .error (.unterminated start total)
  | pos, none, c :: rest =>
    if c = '&' then unescapeFrom total (pos + 1) (some (pos, [])) rest
    else do return c :: (← unescapeFrom total (pos + c.utf8Size) none rest)
  | pos, some (start, name), c :: rest =>
    if c = ';' then do
      let d ← referred (start + 1) pos name.reverse
      return d :: (← unescapeFrom total (pos + 1) none rest)
    else if c = '&' then .error (.unterminated start total)
    else unescapeFrom total (pos + c.utf8Size) (some (start, c :: name)) rest

def unescape (cs : List Char) : Except ReferenceFault (List Char) :=
  unescapeFrom (octets cs) 0 none cs

end PlanArchive.Markup
