import PlanArchive.Console.Command
import PlanArchive.Keyed

/-!
# Command lines

The words of a command line, read from the left. Shared options stand before or after the name of
the command; where one is given in both places, the later holds. An option takes its value from the
next word, or from its own word after an equals sign.
-/

namespace PlanArchive.Console

/-- How a command line can be wrong. -/
inductive Misuse
  | noCommand
  | unknownCommand (word : String)
  | unknownOption (word : String)
  | noValue (option : String)
  | unwantedValue (option : String)
  | givenTwice (option : String)
  | emptyPath (option : String)
  | surplus (word : String)
  | missing (operand : String)
  deriving DecidableEq

def Misuse.message : Misuse → String
  | .noCommand => "a command is required"
  | .unknownCommand word => s!"unknown command '{word}'"
  | .unknownOption word => s!"unknown option '{word}'"
  | .noValue option => s!"a value is required for '{option}'"
  | .unwantedValue option => s!"'{option}' takes no value"
  | .givenTwice option => s!"'{option}' cannot be given more than once"
  | .emptyPath option => s!"the path of '{option}' is empty"
  | .surplus word => s!"unexpected word '{word}'"
  | .missing operand => s!"'{operand}' is required"

/-- Why a command line asks for no command. -/
inductive Stop
  | help
  | version
  | misuse (what : Misuse)
  deriving DecidableEq

inductive Word
  /-- A name after two dashes, with what follows the first equals sign. -/
  | long (name : String) (value : Option String)
  /-- A letter after one dash, with what follows it. -/
  | short (letter : Char) (rest : List Char)
  | twoDashes
  | plain

def isEquals (c : Char) : Bool := c == '='

def Word.ofChars : List Char → Word
  | ['-', '-'] => .twoDashes
  | '-' :: '-' :: rest =>
    .long (String.ofList (rest.takeWhile (!isEquals ·)))
      ((rest.find? isEquals).map fun _ =>
        String.ofList ((rest.dropWhile (!isEquals ·)).drop 1))
  | '-' :: letter :: rest => .short letter rest
  | _ => .plain

/-- The value in a word after the letter of its option. -/
def attached : List Char → Option String
  | [] => none
  | '=' :: value => some (String.ofList value)
  | value => some (String.ofList value)

inductive Switch
  /-- Takes a path; may also go by a letter. -/
  | path (name : String) (letter : Option Char)
  /-- Takes no value. -/
  | flag (name : String)

def Switch.name : Switch → String
  | .path name _ => name
  | .flag name => name

def sharedSwitches : List Switch :=
  [.path "config" none, .path "home" none, .path "definitions" none, .path "upgrade" none,
    .path "types" none, .flag "skip-checksum"]

/-- What has been given so far: options by name, and operands. A flag is there with an empty
value. -/
structure Given where
  options : List (String × String) := []
  operands : List String := []

namespace Given

def add (given : Given) (name value : String) : Except Stop Given :=
  if Keyed.has name given.options then .error (.misuse (.givenTwice name))
  else .ok { given with options := Keyed.put name value given.options }

def addPath (given : Given) (name path : String) : Except Stop Given :=
  if path.isEmpty then .error (.misuse (.emptyPath name)) else given.add name path

def option? (given : Given) (name : String) : Option String := Keyed.find? name given.options

def has (given : Given) (name : String) : Bool := Keyed.has name given.options

end Given

/-- A word that is no option. Only a path must not be empty. -/
structure Operand where
  name : String
  isPath : Bool

/-- What may be given: before the command only options, after it options and operands. -/
structure Level where
  isOuter : Bool
  switches : List Switch
  operands : List Operand

namespace Level

def named? (level : Level) (name : String) : Option Switch :=
  level.switches.find? (·.name == name)

/-- The name of the option of a letter. -/
def lettered? (level : Level) (letter : Char) : Option String :=
  level.switches.findSome? fun switch => match switch with
    | .path name (some l) => if l = letter then some name else none
    | _ => none

def addOperand (level : Level) (given : Given) (word : String) : Except Stop Given :=
  match level.operands[given.operands.length]? with
  | none => .error (.misuse (.surplus word))
  | some operand =>
    if operand.isPath && word.isEmpty then .error (.misuse (.emptyPath operand.name))
    else .ok { given with operands := given.operands ++ [word] }

/-- The words of a level, and the command with its words where the level ends at one. `waiting` is
an option without its value. -/
def read (level : Level) (waiting : Option String) (given : Given) :
    List String → Except Stop (Given × List String)
  | [] =>
    match waiting with
    | some name => .error (.misuse (.noValue name))
    | none => .ok (given, [])
  | word :: rest =>
    match waiting, Word.ofChars word.toList with
    | some name, .plain => do level.read none (← given.addPath name word) rest
    | some name, _ => .error (.misuse (.noValue name))
    | none, .plain =>
      if level.isOuter then .ok (given, word :: rest)
      else do level.read none (← level.addOperand given word) rest
    | none, .twoDashes => do return (← rest.foldlM level.addOperand given, [])
    | none, .long name value =>
      match level.named? name, value with
      | some (.path ..), some path => do level.read none (← given.addPath name path) rest
      | some (.path ..), none => level.read (some name) given rest
      | some (.flag _), none => do level.read none (← given.add name "") rest
      | some (.flag _), some _ => .error (.misuse (.unwantedValue name))
      | none, none =>
        if name = "help" then .error .help
        else if name = "version" ∧ level.isOuter then .error .version
        else .error (.misuse (.unknownOption word))
      | none, some _ => .error (.misuse (.unknownOption word))
    | none, .short letter more =>
      match level.lettered? letter, attached more with
      | some name, some path => do level.read none (← given.addPath name path) rest
      | some name, none => level.read (some name) given rest
      | none, _ =>
        if letter = 'h' then .error .help
        else if letter = 'V' ∧ level.isOuter then .error .version
        else .error (.misuse (.unknownOption word))

end Level

/-- A command by its name, what it takes besides the shared options, and how it is made of that. -/
structure Form where
  name : String
  switches : List Switch := []
  operands : List Operand := []
  make : Given → Except Misuse Command

def needed (operand : String) (given : Given) : Except Misuse String :=
  match given.operands with
  | word :: _ => .ok word
  | [] => .error (.missing operand)

def outputSwitch : Switch := .path "output" (some 'o')

def inputOperand : Operand := ⟨"input", true⟩

def forms : List Form :=
  [{ name := "checksum", operands := [⟨"file", true⟩]
     make := fun given => .ok (.checksum given.operands.head?) },
    { name := "report", make := fun _ => .ok .report },
    { name := "audit", make := fun _ => .ok .audit },
    { name := "resolve", operands := [⟨"name", false⟩]
      make := fun given => do return .resolve (← needed "name" given) },
    { name := "resave", switches := [outputSwitch], operands := [inputOperand]
      make := fun given => do
        return .resave (← needed "input" given) (given.option? "output") },
    { name := "resave-records", switches := [outputSwitch, .flag "wrap"]
      operands := [inputOperand]
      make := fun given => do
        return .resaveRecords (← needed "input" given) (given.option? "output")
          (given.has "wrap") }]

def form? (name : String) : Option Form := forms.find? (·.name == name)

/-- Help is about the program or about one command. -/
def helpAbout : List String → Stop
  | [] => .help
  | [name] =>
    if name = "help" ∨ (form? name).isSome then .help else .misuse (.unknownCommand name)
  | name :: word :: _ =>
    .misuse (.unknownCommand (if (form? name).isSome then word else name))

/-- The shared options of two levels, the inner before the outer. -/
def Options.ofGiven (outer inner : Given) : Options :=
  let path? name := (inner.option? name).or (outer.option? name)
  { config := path? "config"
    home := path? "home"
    definitions := path? "definitions"
    upgrade := path? "upgrade"
    types := path? "types"
    skipChecksum := inner.has "skip-checksum" || outer.has "skip-checksum" }

/-- The options and the command of a command line. -/
def parse (words : List String) : Except Stop (Options × Command) := do
  let (outer, words) ← Level.read ⟨true, sharedSwitches, []⟩ none {} words
  match words with
  | [] => throw (.misuse .noCommand)
  | name :: words =>
    if name = "help" then throw (helpAbout words)
    match form? name with
    | none => throw (.misuse (.unknownCommand name))
    | some form =>
      let level : Level := ⟨false, sharedSwitches ++ form.switches, form.operands⟩
      let (inner, _) ← level.read none {} words
      let command ← (form.make inner).mapError .misuse
      return (.ofGiven outer inner, command)

end PlanArchive.Console
