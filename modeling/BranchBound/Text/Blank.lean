/-!
# Blank characters

The characters with the Unicode property `White_Space`, and trimming by them.
-/

namespace BranchBound.Text

def isBlank (c : Char) : Bool :=
  let n := c.toNat
  (0x09 ≤ n && n ≤ 0x0D) || n == 0x20 || n == 0x85 || n == 0xA0 || n == 0x1680 ||
    (0x2000 ≤ n && n ≤ 0x200A) || n == 0x2028 || n == 0x2029 || n == 0x202F ||
    n == 0x205F || n == 0x3000

/-- `xs` without the elements at either end that satisfy `blank`. -/
def strip {α : Type} (blank : α → Bool) (xs : List α) : List α :=
  ((xs.dropWhile blank).reverse.dropWhile blank).reverse

def trim (text : List Char) : List Char :=
  strip isBlank text

/-- Whether a byte is an ASCII blank, the vertical tab not being one. -/
def isBlankByte (b : UInt8) : Bool :=
  b == 0x20 || b == 0x09 || b == 0x0A || b == 0x0C || b == 0x0D

def trimBytes (bytes : List UInt8) : List UInt8 :=
  strip isBlankByte bytes

end BranchBound.Text
