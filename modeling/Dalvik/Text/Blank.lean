import Dalvik.Text.Ranges

/-!
# Blank characters and words

The blank characters are those with the white space property.  Lines are
trimmed of them and cut into words at them.
-/

namespace Dalvik.Text

/-- Code points with the white space property. -/
def blankRanges : Ranges :=
  [(0x9, 0xd), (0x20, 0x20), (0x85, 0x85), (0xa0, 0xa0), (0x1680, 0x1680), (0x2000, 0x200a),
    (0x2028, 0x2029), (0x202f, 0x202f), (0x205f, 0x205f), (0x3000, 0x3000)]

def isBlank (c : Char) : Bool :=
  blankRanges.contains c.toNat

def trimStart (text : List Char) : List Char :=
  text.dropWhile isBlank

def trimEnd : List Char → List Char
  | [] => []
  | c :: rest =>
      match trimEnd rest with
      | [] => if isBlank c then [] else [c]
      | kept => c :: kept

def trim (text : List Char) : List Char :=
  trimEnd (trimStart text)

/-- The first word and the trimmed rest after the first blank. -/
def splitWord (text : List Char) : List Char × List Char :=
  (text.takeWhile (!isBlank ·), trim (text.dropWhile (!isBlank ·)))

/-- Prepend a character to the first word of a list, opening one if needed. -/
def extendWord (c : Char) : List (List Char) → List (List Char)
  | [] => [[c]]
  | word :: words => (c :: word) :: words

/-- The pieces between blanks, empty pieces included. -/
def pieces : List Char → List (List Char)
  | [] => [[]]
  | c :: rest => if isBlank c then [] :: pieces rest else extendWord c (pieces rest)

def words (text : List Char) : List (List Char) :=
  (pieces text).filter (!·.isEmpty)

end Dalvik.Text
