/-!
# White space

The characters that separate words: the space, the controls that move the
carriage, the four information separators, and every space and separator of the
Unicode standard.  The zero-width characters (U+200B, U+180E, U+FEFF) are none of
them.

Names may not contain white space, and white space is dropped from namespaces,
so the class is fixed here once for both.
-/

namespace ApiManual
namespace Text

/-- White space. -/
def isBlank (c : Char) : Bool :=
  let n := c.toNat
  (9 ≤ n && n ≤ 13) || (28 ≤ n && n ≤ 32) || n == 0x85 || n == 0xA0 || n == 0x1680 ||
    (0x2000 ≤ n && n ≤ 0x200A) || n == 0x2028 || n == 0x2029 || n == 0x202F || n == 0x205F ||
    n == 0x3000

/-- The four information separators, which are white space between words but no
padding around a number. -/
def isInformationSeparator (c : Char) : Bool :=
  28 ≤ c.toNat && c.toNat ≤ 31

/-- A text without what `drop` accepts at its two ends. -/
def trim (drop : Char → Bool) (cs : List Char) : List Char :=
  ((cs.dropWhile drop).reverse.dropWhile drop).reverse

end Text
end ApiManual
