/-!
# Lines of a text

A line ends at a line feed. One carriage return directly before the line feed
belongs to the line end. What follows the last line feed is a line only if it
is not empty, and then it is taken as it stands.
-/

namespace Calculator.Text

/-- Drop the carriage return that ends a line, given the line backwards. -/
def dropReturn : List Char → List Char
  | '\r' :: cs => cs
  | cs => cs

/-- The lines of `cs` when the characters `seen`, newest first, already belong
to the first of them. -/
def linesFrom (seen : List Char) : List Char → List (List Char)
  | [] => if seen.isEmpty then [] else [seen.reverse]
  | c :: cs =>
    if c = '\n' then (dropReturn seen).reverse :: linesFrom [] cs
    else linesFrom (c :: seen) cs

def lines (cs : List Char) : List (List Char) := linesFrom [] cs

end Calculator.Text
