/-!
Text of formulas. A formula is a list of characters; blanks are the white space of
Unicode, wherever they stand.
-/

set_option autoImplicit false

namespace QuantityFormula

abbrev Text := List Char

namespace Text

/-- White space: the characters with the Unicode property `White_Space`. -/
def isBlankChar (c : Char) : Bool :=
  let code := c.toNat
  (9 ≤ code && code ≤ 13) || code == 0x20 || code == 0x85 || code == 0xA0 || code == 0x1680 ||
    (0x2000 ≤ code && code ≤ 0x200A) || code == 0x2028 || code == 0x2029 || code == 0x202F ||
    code == 0x205F || code == 0x3000

def isBlank (text : Text) : Bool :=
  text.all isBlankChar

def trim (text : Text) : Text :=
  ((text.dropWhile isBlankChar).reverse.dropWhile isBlankChar).reverse

end Text

end QuantityFormula
