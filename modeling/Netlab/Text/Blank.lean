/-!
# White space and trimming

`isBlank` is the Unicode property `White_Space` (25 characters).  `trim` drops blank characters
at both ends of a text and nothing else.
-/

namespace Netlab.Text

/-- the characters with the Unicode property `White_Space` -/
def isBlank (c : Char) : Bool :=
  let n := c.toNat
  (0x9 ≤ n && n ≤ 0xD) || n == 0x20 || n == 0x85 || n == 0xA0 || n == 0x1680
    || (0x2000 ≤ n && n ≤ 0x200A) || n == 0x2028 || n == 0x2029 || n == 0x202F || n == 0x205F
    || n == 0x3000

/-! ## trimming a list of characters -/

def trimStart (cs : List Char) : List Char := cs.dropWhile isBlank

def trimEnd (cs : List Char) : List Char := (cs.reverse.dropWhile isBlank).reverse

theorem trimStart_cons (c : Char) (cs : List Char) :
    trimStart (c :: cs) = if isBlank c then trimStart cs else c :: cs := by
  simp only [trimStart, List.dropWhile_cons]

theorem trimEnd_reverse (cs : List Char) : trimEnd cs.reverse = (trimStart cs).reverse := by
  simp only [trimEnd, trimStart, List.reverse_reverse]

/-! ## trimming a text -/

/-- the text without the blank characters at its two ends -/
def trim (s : String) : String := String.ofList (trimEnd (trimStart s.toList))

theorem trim_toList (s : String) : (trim s).toList = trimEnd (trimStart s.toList) :=
  String.toList_ofList

end Netlab.Text
