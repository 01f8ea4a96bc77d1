import Mathlib.Data.List.Infix
import Mathlib.Data.Nat.Notation

/-! # Text as ECMAScript has it

White space and line terminators, which regular expressions and numeral literals
skip alike.
-/
namespace Foundation.EcmaScript

def isWhiteSpace (unit : ℕ) : Bool :=
  unit ∈ [0x9, 0xA, 0xB, 0xC, 0xD, 0x20, 0xA0, 0x1680, 0x2028, 0x2029, 0x202F, 0x205F, 0x3000, 0xFEFF] ||
    (decide (0x2000 ≤ unit) && decide (unit ≤ 0x200A))

def occurs (word text : String) : Bool := decide (word.toList <:+: text.toList)

/-- The letters of `toLowerCase` that are ASCII. Outside ASCII, two letters have such a one in their lower
case. -/
def toLowerCase (text : String) : String :=
  String.ofList (text.toList.flatMap fun c =>
    if c.toNat = 0x130 then ['i', Char.ofNat 0x307] else if c.toNat = 0x212A then ['k'] else [c.toLower])

/-- The letters of `toUpperCase` that are ASCII. Ten letters outside ASCII have an upper case of such letters
only. -/
def toUpperCase (text : String) : String :=
  String.ofList (text.toList.flatMap fun c =>
    match c.toNat with
    | 0xDF => ['S', 'S']
    | 0x131 => ['I']
    | 0x17F => ['S']
    | 0xFB00 => ['F', 'F']
    | 0xFB01 => ['F', 'I']
    | 0xFB02 => ['F', 'L']
    | 0xFB03 => ['F', 'F', 'I']
    | 0xFB04 => ['F', 'F', 'L']
    | 0xFB05 => ['S', 'T']
    | 0xFB06 => ['S', 'T']
    | _ => [c.toUpper])

/-- The letters that `/i` compares, which folds ASCII letters with each other only. -/
def foldCase (text : String) : String := String.ofList (text.toList.map Char.toLower)

end Foundation.EcmaScript
