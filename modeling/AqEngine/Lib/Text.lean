import Mathlib.Init

namespace AqEngine.Lib

/-- The characters with the Unicode property White_Space. -/
def isWhitespace (c : Char) : Bool :=
  let n := c.toNat
  (0x9 ≤ n && n ≤ 0xd) || n == 0x20 || n == 0x85 || n == 0xa0 || n == 0x1680 ||
    (0x2000 ≤ n && n ≤ 0x200a) || n == 0x2028 || n == 0x2029 || n == 0x202f ||
    n == 0x205f || n == 0x3000

def trim (s : String) : String :=
  .ofList ((s.toList.dropWhile isWhitespace).reverse.dropWhile isWhitespace).reverse

def isBlank (s : String) : Bool := s.toList.all isWhitespace

def isTrimmed (s : String) : Bool :=
  s.toList.head?.all (!isWhitespace ·) && s.toList.getLast?.all (!isWhitespace ·)

end AqEngine.Lib
