import PlanArchive.Text.Blank
import PlanArchive.Text.Line
import PlanArchive.Text.Hex

/-!
# Lines of a definition text

A definition text is read in four steps: physical lines, logical lines (comments and empty lines
dropped, continued lines joined), the split of a logical line into key and value, and the escapes
of both.
-/

namespace PlanArchive.Definition

open Text

/-- A line that ends in an odd number of backslashes goes on in the next one. -/
def continues (line : List Char) : Bool := (line.reverse.takeWhile (· == '\\')).length % 2 == 1

def isRemark : List Char → Bool
  | [] => true
  | c :: _ => c == '#' || c == '!'

/-- Joins physical lines; `pending` is a line under way, without the backslash that continues it.
Remarks are dropped only where no line is under way. -/
def joinLines : Option (List Char) → List (List Char) → List (List Char)
  | none, [] => []
  | some line, [] => [line]
  | none, raw :: rest =>
    let line := trimStart raw
    if isRemark line then joinLines none rest
    else if continues line then joinLines (some line.dropLast) rest
    else line :: joinLines none rest
  | some pending, raw :: rest =>
    let line := pending ++ trimStart raw
    if continues line then joinLines (some line.dropLast) rest
    else line :: joinLines none rest

def logicalLines (text : List Char) : List (List Char) := joinLines none (lines text)

/-- Space, tab and form feed part a key from its value. -/
def isGap (c : Char) : Bool := c == ' ' || c == '\t' || c == '\x0c'

def endsKey (c : Char) : Bool := c == '=' || c == ':' || isGap c

/-- The raw key, up to the first character that ends it and is not escaped, and what follows. -/
def cutKey : List Char → List Char × List Char
  | [] => ([], [])
  | '\\' :: c :: rest => let (key, tail) := cutKey rest; ('\\' :: c :: key, tail)
  | c :: rest =>
    if endsKey c then ([], c :: rest) else let (key, tail) := cutKey rest; (c :: key, tail)

/-- Drops the gap in front of a value: blanks, at most one `=` or `:`, blanks. -/
def dropGap (tail : List Char) : List Char :=
  match tail.dropWhile isGap with
  | c :: rest => if c = '=' ∨ c = ':' then rest.dropWhile isGap else c :: rest
  | [] => []

def splitLine (line : List Char) : List Char × List Char :=
  let (key, tail) := cutKey line
  (key, dropGap tail)

/-- A number of at least one hexadecimal digit; a plus sign may stand before it. -/
def codePoint? (digits : List Char) : Option Nat :=
  let digits := match digits with
    | '+' :: rest => rest
    | _ => digits
  if digits.isEmpty then none
  else digits.foldl (fun n c => do return (← n) * 16 + (← Hex.value? c)) (some 0)

def scalar? (n : Nat) : Option Char :=
  if n < 0xD800 ∨ (0xDFFF < n ∧ n < 0x110000) then some (Char.ofNat n) else none

/-- What `\u` and the (at most four) characters after it stand for. -/
def numbered (digits : List Char) : List Char :=
  match (codePoint? digits).bind scalar? with
  | some c => [c]
  | none => 'u' :: digits

def escaped (c : Char) : Char :=
  if c = 't' then '\t' else if c = 'n' then '\n' else if c = 'r' then '\r'
  else if c = 'f' then '\x0c' else c

def unescape : List Char → List Char
  | [] => []
  | '\\' :: 'u' :: p :: q :: r :: s :: rest => numbered [p, q, r, s] ++ unescape rest
  | '\\' :: 'u' :: short => numbered short
  | '\\' :: c :: rest => escaped c :: unescape rest
  | ['\\'] => []
  | c :: rest => c :: unescape rest

/-- The key and the value that a logical line gives. -/
def readLine (line : List Char) : String × String :=
  let (key, value) := splitLine line
  (String.ofList (unescape key), String.ofList (unescape value))

theorem unescape_cons {c : Char} (h : c ≠ '\\') (rest : List Char) :
    unescape (c :: rest) = c :: unescape rest := by
  rw [unescape] <;> simp_all

theorem unescape_of_no_backslash {cs : List Char} (h : '\\' ∉ cs) : unescape cs = cs := by
  induction cs with
  | nil => rfl
  | cons c rest ih =>
    simp only [List.mem_cons, not_or] at h
    rw [unescape_cons (fun e => h.1 e.symm), ih h.2]

end PlanArchive.Definition
