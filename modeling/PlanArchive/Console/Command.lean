/-!
# Commands

What a run of the program is asked to do.
-/

namespace PlanArchive.Console

/-- Options that all commands share. -/
structure Options where
  config : Option String := none
  home : Option String := none
  definitions : Option String := none
  upgrade : Option String := none
  types : Option String := none
  skipChecksum : Bool := false
  deriving DecidableEq

inductive Command
  /-- The checksum of a file, by default of the definitions. -/
  | checksum (file : Option String)
  | report
  /-- The types that have a tag and cannot be read. -/
  | audit
  /-- What a tag or a type stands for. -/
  | resolve (name : String)
  /-- Loads a plan and writes it again. -/
  | resave (input : String) (output : Option String)
  /-- Loads a log and writes its records again. -/
  | resaveRecords (input : String) (output : Option String) (wrap : Bool)
  deriving DecidableEq

end PlanArchive.Console
