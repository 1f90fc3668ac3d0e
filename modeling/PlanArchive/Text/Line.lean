/-!
# Lines of a text

A line ends at a line feed; a carriage return right before the line feed belongs to the line end.
What follows the last line feed is a line unless it is empty.
-/

namespace PlanArchive.Text

/-- `line` holds the characters of the present line, the latest first. -/
def linesFrom (line : List Char) : List Char → List (List Char)
  | [] => if line.isEmpty then [] else [line.reverse]
  | c :: rest =>
    if c = '\n' then
      (match line with
        | '\r' :: before => before.reverse
        | _ => line.reverse) :: linesFrom [] rest
    else linesFrom (c :: line) rest

def lines (text : List Char) : List (List Char) := linesFrom [] text

end PlanArchive.Text
