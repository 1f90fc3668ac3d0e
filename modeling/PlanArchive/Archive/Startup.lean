import PlanArchive.Archive.Basic
import PlanArchive.Files.Disk

/-!
# Starting from files

Definitions and renames are read from files. A file that cannot be read keeps an archive from
starting; its path is in the failure.
-/

namespace PlanArchive

open Files

/-- The content of a file that starting depends on. -/
def startupContent (purpose path : String) (content : Except ReadFault Bytes) :
    Except Failure Bytes :=
  content.mapError fun fault => .startup s!"{purpose} '{path}': {fault.reason}"

def badDefinitions : String := "Bad definition source"

/-- The checksum of the file at `path`. -/
def Schema.checksumAt (path : String) (content : Except ReadFault Bytes) : Except Failure String :=
  (startupContent "Can't compute checksum for definition source" path content).map
    Schema.checksumOf

def Definition.Source.ofFile (path : String) (content : Except ReadFault Bytes) :
    Except Failure Definition.Source :=
  (startupContent badDefinitions path content).map Archive.definitionsOf

/-- Renames as lines `old=new` of a file. -/
def Naming.Renames.ofFile (path : String) (content : Except ReadFault Bytes) :
    Except Failure Naming.Renames :=
  (Definition.Source.ofFile path content).map fun source => .ofPairs source.pairs

/-- An archive from its definitions file. -/
def Archive.ofFile (setup : Setup) (content : Except ReadFault Bytes) : Except Failure Archive :=
  (startupContent badDefinitions setup.settings.definitionsPath content).map
    (Archive.ofContent setup)

end PlanArchive
