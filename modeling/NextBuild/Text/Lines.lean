import NextBuild.Text.Blank

/-!
# Lines of a text

A line ends at a line feed, and a carriage return right before the line feed belongs to the line
end.  What follows the last line feed is a line only if it is not empty.
-/

namespace NextBuild.Text

/-- Drop one carriage return at the end of a finished line. -/
def dropReturn (cs : List Char) : List Char :=
  match cs.reverse with
  | '\r' :: r => r.reverse
  | _ => cs

/-- The lines of a list of characters; `line` holds the characters of the open line in reverse. -/
def linesFrom (line : List Char) : List Char → List (List Char)
  | [] => if line.isEmpty then [] else [line.reverse]
  | '\n' :: r => dropReturn line.reverse :: linesFrom [] r
  | c :: r => linesFrom (c :: line) r

/-- The lines of a text, without their line ends. -/
def lines (s : String) : List String :=
  (linesFrom [] s.toList).map String.ofList

/-- The first line with what follows it, or nothing at the end of the text. -/
def nextLine? (cs : List Char) : Option (List Char × List Char) :=
  match cs with
  | [] => none
  | _ => some (cs.takeWhile (· != '\n'), (cs.dropWhile (· != '\n')).drop 1)

end NextBuild.Text
