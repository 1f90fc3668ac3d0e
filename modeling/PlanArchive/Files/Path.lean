import PlanArchive.Text.Split

/-!
# Paths

A path names a file by the folders that lead to it, parted by slashes.
-/

namespace PlanArchive.Files

def isAbsolute (path : String) : Bool := path.toList.head? == some '/'

/-- A path relative to a folder; an absolute path stays as it is. -/
def join (folder path : String) : String :=
  if isAbsolute path || folder.isEmpty then path
  else if folder.toList.getLast? == some '/' then folder ++ path
  else folder ++ "/" ++ path

/-- The pieces of a path between its slashes. -/
def pieces (path : String) : List String :=
  ((Text.splitAtChar '/' path.toList).filter (!·.isEmpty)).map String.ofList

end PlanArchive.Files
