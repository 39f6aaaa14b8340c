/-!
# Numbers in base sixteen

Escapes write a code point with a fixed number of lower-case digits. `hexDigits width n` is the
`width` lowest digits of `n`, highest first.
-/

namespace Marginalia

/-- The lower-case digit of a value below sixteen; greater values are taken modulo sixteen. -/
def hexDigit (n : Nat) : Char :=
  match n % 16 with
  | 0 => '0' | 1 => '1' | 2 => '2' | 3 => '3'
  | 4 => '4' | 5 => '5' | 6 => '6' | 7 => '7'
  | 8 => '8' | 9 => '9' | 10 => 'a' | 11 => 'b'
  | 12 => 'c' | 13 => 'd' | 14 => 'e' | _ => 'f'

/-- The `width` lowest digits of `n`, highest first. -/
def hexDigits : Nat → Nat → List Char
  | 0, _ => []
  | width + 1, n => hexDigits width (n / 16) ++ [hexDigit n]

end Marginalia
