import Mathlib.Algebra.GroupWithZero.Nat
import Mathlib.Data.List.Lex
import Mathlib.Data.Nat.Notation

/-!
# Text

A Python string is a sequence of code points, lone surrogates included, so a text is
a list of numbers here rather than a `String`.
-/

set_option autoImplicit false

namespace Discode

abbrev CodePoint := ℕ

abbrev PyStr := List CodePoint

instance : LawfulBEq PyStr := inferInstance

def pyStr (s : String) : PyStr := s.toList.map Char.toNat

/-- `str.isspace` of one character. -/
def isSpace (c : CodePoint) : Bool :=
  (0x09 ≤ c && c ≤ 0x0d) || (0x1c ≤ c && c ≤ 0x20) || c == 0x85 || c == 0xa0 || c == 0x1680 ||
    (0x2000 ≤ c && c ≤ 0x200a) || c == 0x2028 || c == 0x2029 || c == 0x202f || c == 0x205f ||
      c == 0x3000

def lstrip (s : PyStr) : PyStr := s.dropWhile isSpace

def rstrip (s : PyStr) : PyStr := (s.reverse.dropWhile isSpace).reverse

def strip (s : PyStr) : PyStr := rstrip (lstrip s)

/-- A lone surrogate, which `str.encode("utf-8")` refuses. -/
def isSurrogate (c : CodePoint) : Bool := 0xd800 ≤ c && c ≤ 0xdfff

def utf8Size (c : CodePoint) : ℕ :=
  if c < 0x80 then 1 else if c < 0x800 then 2 else if c < 0x10000 then 3 else 4

/-- `len(s.encode("utf-8"))`. -/
def utf8Length (s : PyStr) : ℕ := (s.map utf8Size).sum

end Discode
