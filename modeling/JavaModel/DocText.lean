import JavaModel.Text.Blank
import JavaModel.Text.Split

/-!
The words of a documentation comment: what is left without its signs, the stars at the left margin
and the white space at the ends of lines.
-/

namespace JavaModel.DocText

open JavaModel.Text

/-- The text without `pre` in front of it, if it is there. -/
def dropLeading (pre cs : List Char) : List Char :=
  if pre.isPrefixOf cs then cs.drop pre.length else cs

/-- The text without `post` at its end, if it is there. -/
def dropTrailing (post cs : List Char) : List Char :=
  (dropLeading post.reverse cs.reverse).reverse

/-- A line without its indentation, one star, one blank behind it and the blanks at its end. -/
def cleanLine (line : List Char) : List Char :=
  trimRight (dropLeading [' '] (dropLeading ['*'] (trimLeft line)))

/-- The words of a comment. -/
def clean (comment : String) : String :=
  let inner := dropTrailing ['*', '/'] (dropLeading ['/', '*', '*'] comment.toList)
  let cleaned := ['\n'].intercalate ((splitAt '\n' inner).map cleanLine)
  String.ofList (trimRight (trimLeft cleaned))

end JavaModel.DocText
