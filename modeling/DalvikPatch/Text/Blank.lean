import DalvikPatch.Text.Basic

/-! Blank characters and what is cut along them: the ends of a text, its words and its lines.
Blanks are the twenty-five characters with the property White_Space; a line ends at a line
feed, which takes one carriage return before it along. -/

namespace DalvikPatch.Text

/-- The characters with the Unicode property White_Space. -/
def isBlank (c : Char) : Bool :=
  let n := c.toNat
  (9 ≤ n && n ≤ 13) || n == 0x20 || n == 0x85 || n == 0xa0 || n == 0x1680 ||
    (0x2000 ≤ n && n ≤ 0x200a) || n == 0x2028 || n == 0x2029 || n == 0x202f || n == 0x205f ||
    n == 0x3000

/-- Blanks that may stand between operands: space and tab only. -/
def isSpace (c : Char) : Bool := c == ' ' || c == '\t'

def skipSpaces (s : Text) : Text := s.dropWhile isSpace

def trimLeft (s : Text) : Text := s.dropWhile isBlank

def trimRight (s : Text) : Text := (s.reverse.dropWhile isBlank).reverse

def trim (s : Text) : Text := trimRight (trimLeft s)

/-- The runs of characters that are not blank. -/
def words : Text → List Text
  | [] => []
  | c :: cs =>
    if isBlank c then words cs
    else match cs, words cs with
      | [], _ => [[c]]
      | _ :: _, [] => [[c]]
      | d :: _, w :: ws => if isBlank d then [c] :: w :: ws else (c :: w) :: ws

/-- The lines of a text without their ends; a text that ends in a line feed has no empty last
line. -/
def lines : Text → List Text
  | [] => []
  | '\n' :: cs => [] :: lines cs
  | '\r' :: '\n' :: cs => [] :: lines cs
  | c :: cs => match cs, lines cs with
    | [], _ => [[c]]
    | _ :: _, [] => [[c]]
    | _ :: _, l :: ls => (c :: l) :: ls

/-- Bytes of a text in UTF-8. -/
def byteSize : Text → Nat
  | [] => 0
  | c :: cs => c.utf8Size + byteSize cs

/-- Bytes of the blanks that a line starts with. -/
def indentation (s : Text) : Nat := byteSize (s.takeWhile isBlank)

/-- A text without its first `n` bytes; none where that would split a character. -/
def dropBytes? : Nat → Text → Option Text
  | 0, s => some s
  | _ + 1, [] => none
  | n + 1, c :: cs => if c.utf8Size ≤ n + 1 then dropBytes? (n + 1 - c.utf8Size) cs else none

end DalvikPatch.Text
