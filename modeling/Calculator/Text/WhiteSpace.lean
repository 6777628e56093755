/-!
# White space

Trimming and splitting by the Unicode property `White_Space`.
-/

namespace Calculator.Text

/-- The characters with the property `White_Space`, as ranges of code points. -/
def whiteSpaceRanges : List (Nat × Nat) :=
  [(0x0009, 0x000D), (0x0020, 0x0020), (0x0085, 0x0085), (0x00A0, 0x00A0), (0x1680, 0x1680),
   (0x2000, 0x200A), (0x2028, 0x2029), (0x202F, 0x202F), (0x205F, 0x205F), (0x3000, 0x3000)]

def isWhiteSpace (c : Char) : Bool :=
  whiteSpaceRanges.any fun (lo, hi) => lo ≤ c.toNat && c.toNat ≤ hi

/-- The text without the white space at its end. -/
def trimEnd (cs : List Char) : List Char := (cs.reverse.dropWhile isWhiteSpace).reverse

/-- The text without the white space at both ends. -/
def trim (cs : List Char) : List Char := trimEnd (cs.dropWhile isWhiteSpace)

/-- The words of `cs` when the characters `seen`, newest first, already belong
to the first of them. -/
def wordsFrom (seen : List Char) : List Char → List (List Char)
  | [] => if seen.isEmpty then [] else [seen.reverse]
  | c :: cs =>
    if isWhiteSpace c then
      if seen.isEmpty then wordsFrom [] cs else seen.reverse :: wordsFrom [] cs
    else wordsFrom (c :: seen) cs

/-- The longest pieces without white space, in order. -/
def words (cs : List Char) : List (List Char) := wordsFrom [] cs

end Calculator.Text
