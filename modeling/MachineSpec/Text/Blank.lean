/-!
# Blanks

The characters that count as white space around a value in markup (the Unicode property
`White_Space`), and the text without the blanks at its two ends.

* `isBlank`   is this character white space
* `trim`      a text without the blanks at its ends
-/

namespace MachineSpec.Text

def isBlank (c : Char) : Bool :=
  let n := c.toNat
  (0x09 ≤ n && n ≤ 0x0D) || n = 0x20 || n = 0x85 || n = 0xA0 || n = 0x1680 ||
    (0x2000 ≤ n && n ≤ 0x200A) || n = 0x2028 || n = 0x2029 || n = 0x202F || n = 0x205F ||
    n = 0x3000

def trimList (cs : List Char) : List Char :=
  ((cs.dropWhile isBlank).reverse.dropWhile isBlank).reverse

def trim (s : String) : String := String.ofList (trimList s.toList)

end MachineSpec.Text
