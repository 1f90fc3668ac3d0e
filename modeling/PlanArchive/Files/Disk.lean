import PlanArchive.Files.Path
import PlanArchive.Text.Utf8

/-!
# A disk in memory

A tree of folders and files below one working folder, and what reading and writing a file answers
on it. At first there is nothing outside the working folder but the folders above it.
-/

namespace PlanArchive

inductive Files.Node
  | file (content : Bytes)
  | folder

/-- Opening a file failed, or reading it once it was open. -/
inductive Files.ReadFault
  | opening (reason : String)
  | reading (reason : String)

def Files.ReadFault.reason : Files.ReadFault → String
  | .opening reason => reason
  | .reading reason => reason

/-- The files that a program may read and write. -/
structure Files.Access (m : Type → Type) where
  read : String → m (Except Files.ReadFault Bytes)
  write : String → Bytes → m (Except String Unit)

def Files.noSuchFile : String := "No such file or directory (os error 2)"

def Files.notAFolder : String := "Not a directory (os error 20)"

def Files.isAFolder : String := "Is a directory (os error 21)"

def Files.nameTooLong : String := "File name too long (os error 36)"

/-- Files and folders by the pieces of their paths. -/
structure Disk where
  nodes : List (List String × Files.Node) := []

namespace Disk

open Files

/-- The folders above the working folder, and the root, which is written as a slash. -/
def isAbove (place : List String) : Bool := place.all fun piece => piece == ".." || piece == "/"

def find? (disk : Disk) (place : List String) : Option Node :=
  if isAbove place then some .folder else disk.nodes.lookup place

def set (disk : Disk) (place : List String) (node : Node) : Disk :=
  ⟨(place, node) :: disk.nodes.filter (·.1 != place)⟩

/-- All folders on the way to a place. -/
def addFolders (disk : Disk) (place : List String) : Disk :=
  (List.range place.length).foldl
    (fun disk n =>
      if (disk.find? (place.take n)).isNone then disk.set (place.take n) .folder else disk)
    disk

/-- The most octets in a name. -/
def maxName : Nat := 255

/-- The most octets in a path. -/
def maxPath : Nat := 4095

/-- The folder that holds a folder. The root holds itself. -/
def outer (place : List String) : List String :=
  if place = ["/"] then place
  else if isAbove place then place ++ [".."]
  else place.dropLast

/-- Looks a name up in the folder `place`. -/
def look (disk : Disk) (place : List String) (name : String) : Except String (Option Node) :=
  if maxName < name.utf8ByteSize then .error nameTooLong else .ok (disk.find? (place ++ [name]))

/-- Follows pieces of a path that must all be folders. -/
def enter (disk : Disk) (place : List String) : List String → Except String (List String)
  | [] => .ok place
  | piece :: rest =>
    if piece = "." then disk.enter place rest
    else if piece = ".." then disk.enter (outer place) rest
    else do
      match ← disk.look place piece with
      | some .folder => disk.enter (place ++ [piece]) rest
      | some (.file _) => .error notAFolder
      | none => .error noSuchFile

/-- What a path leads to. -/
inductive Target
  /-- The path names a folder without its name: the root, the folder itself, or the one above. -/
  | folder
  /-- A name in a folder. `slash` tells whether a slash follows it. -/
  | name (folder : List String) (name : String) (slash : Bool)

def target (disk : Disk) (path : String) : Except String Target := do
  let chars := path.toList
  if chars.contains '\x00' then throw "file name contained an unexpected NUL byte"
  if chars.isEmpty then throw noSuchFile
  if maxPath < path.utf8ByteSize then throw nameTooLong
  let parts := pieces path
  let folder ← disk.enter (if isAbsolute path then ["/"] else []) parts.dropLast
  match parts.getLast? with
  | none => return .folder
  | some last =>
    if last = "." ∨ last = ".." then return .folder
    else return .name folder last (chars.getLast? == some '/')

def open? (disk : Disk) (path : String) : Except String Node := do
  match ← disk.target path with
  | .folder => return .folder
  | .name folder name slash =>
    match ← disk.look folder name with
    | none => throw noSuchFile
    | some .folder => return .folder
    | some (.file content) => if slash then throw notAFolder else return .file content

def read (disk : Disk) (path : String) : Except ReadFault Bytes :=
  match disk.open? path with
  | .ok (.file content) => .ok content
  | .ok .folder => .error (.reading isAFolder)
  | .error reason => .error (.opening reason)

/-- Puts the content of a file at a path, where a file is already or may be created. -/
def write (disk : Disk) (path : String) (content : Bytes) : Except String Disk := do
  match ← disk.target path with
  | .folder | .name _ _ true => throw isAFolder
  | .name folder name false =>
    match ← disk.look folder name with
    | some .folder => throw isAFolder
    | some (.file _) | none => return disk.set (folder ++ [name]) (.file content)

/-- Puts a file or folder at a path, with the folders on the way to it. -/
def put (disk : Disk) (path : String) (node : Node) : Disk :=
  let place := (pieces path).filter (· != ".")
  (disk.addFolders place).set place node

/-- A disk as the files of a program. -/
def access : Access (StateM Disk) where
  read path disk := (disk.read path, disk)
  write path content disk :=
    match disk.write path content with
    | .ok written => (.ok (), written)
    | .error reason => (.error reason, disk)

end Disk

end PlanArchive
