import PlanArchive.Failure

/-!
# Complaints

Why a run failed. A complaint about a file has its cause below it.
-/

namespace PlanArchive.Console

inductive Complaint
  | archive (failure : Failure)
  | noConfig (path reason : String)
  | badConfig (path : String)
  | noTypeList (path reason : String)
  | noLog (path reason : String)
  | noOutput (path reason : String)
  | unreadableTypes (count : Nat)

def withCause (what cause : String) : String := what ++ "\n\nCaused by:\n    " ++ cause

def Complaint.message : Complaint → String
  | .archive failure => failure.message
  | .noConfig path reason => withCause s!"Failed to read config '{path}'" reason
  | .badConfig path => withCause s!"Invalid config '{path}'" "not the JSON of a configuration"
  | .noTypeList path reason => withCause s!"Failed to read type list '{path}'" reason
  | .noLog path reason => withCause s!"Failed to open '{path}'" reason
  | .noOutput path reason => withCause s!"Failed to create '{path}'" reason
  | .unreadableTypes count => s!"{count} aliased types are not known"

end PlanArchive.Console
