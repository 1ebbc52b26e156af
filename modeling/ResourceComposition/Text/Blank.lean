import ResourceComposition.Text.CharRange

/-!
# White space

The characters with the Unicode property `White_Space`, and trimming them off a text.
-/

namespace ResourceComposition.Text

/-- The code points with the property `White_Space`. -/
def blankRanges : CharRanges :=
  #[(0x9, 0xd), (0x20, 0x20), (0x85, 0x85), (0xa0, 0xa0), (0x1680, 0x1680), (0x2000, 0x200a),
    (0x2028, 0x2029), (0x202f, 0x202f), (0x205f, 0x205f), (0x3000, 0x3000)]

/-- Whether a character is white space. -/
def isBlank (c : Char) : Bool := blankRanges.contains c

/-- A text without the white space before it. -/
def trimStart (cs : List Char) : List Char := cs.dropWhile isBlank

/-- A text without the white space around it. -/
def trim (cs : List Char) : List Char := (trimStart (trimStart cs).reverse).reverse

end ResourceComposition.Text
