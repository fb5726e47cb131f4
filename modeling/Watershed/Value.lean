import Watershed.Decimal.Layout

/-!
# Values

Programs compute with numbers, texts, truth values and `nil`. A value has two written forms: the
one `print` shows, and the one a literal has in a printed tree.
-/

set_option autoImplicit false

namespace Watershed

/-- What an expression evaluates to. -/
inductive Value where
  | number (value : Float)
  | text (value : String)
  | bool (value : Bool)
  /-- The absent value, held by variables that were given none. -/
  | nil
deriving DecidableEq

namespace Value

/-- Printed numbers show all their places and no more; infinity is spelled out. -/
def printedStyle : Decimal.Style :=
  { positional := fun _ => true
    keepsPoint := false
    infinity := "Infinity" }

/-- Numbers in a tree keep a point, and have a power of ten below `0.0001` and from `10 ^ 16` on.
-/
def literalStyle : Decimal.Style :=
  { positional := fun point => -4 < point && point ≤ 16
    keepsPoint := true
    infinity := "inf" }

/-- The spelling of a truth value. -/
def boolText (b : Bool) : String :=
  if b then "true" else "false"

/-- The form `print` shows. -/
def printed : Value → String
  | number x => Decimal.text printedStyle x
  | text s => s
  | bool b => boolText b
  | nil => "nil"

/-- The form of a literal in a printed tree. -/
def literalText : Value → String
  | number x => Decimal.text literalStyle x
  | text s => s
  | bool b => boolText b
  | nil => "nil"

/-- Only `nil` and `false` count as false; zero and the empty text count as true. -/
def isTruthy : Value → Bool
  | nil => false
  | bool b => b
  | number _ => true
  | text _ => true

/-- Equality as the language has it: values of different kinds differ, and numbers compare as
numbers, so the two zeros are equal and a NaN differs from itself. -/
def equals : Value → Value → Bool
  | nil, nil => true
  | number a, number b => a == b
  | text a, text b => a = b
  | bool a, bool b => a = b
  | _, _ => false

end Value

end Watershed
