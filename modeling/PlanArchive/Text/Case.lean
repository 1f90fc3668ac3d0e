/-!
# Letters A to Z in either case
-/

namespace PlanArchive.Text

/-- Equality up to the case of the letters A to Z. -/
def sameIgnoringCase (a b : String) : Bool := a.toList.map Char.toLower == b.toList.map Char.toLower

end PlanArchive.Text
