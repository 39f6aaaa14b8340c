/-!
# Numbers with a fraction

A number with a fraction has double precision: a sign, an exponent field of eleven bits and a
fraction field of fifty-two. Its text has the fewest decimal digits that are read back as the
number, and of those the ones nearest to it. The digits are found by exact arithmetic: ten to the
minus 1074 divides every finite number and the middle between any two neighbours, but for the
factor four that `readsBack` puts in front.
-/

namespace Marginalia

/-- A double-precision number. -/
structure Binary64 where
  isNegative : Bool
  exponent : BitVec 11
  fraction : BitVec 52
deriving DecidableEq, Repr, Inhabited

/-- The number with the given sixty-four bits. -/
def Binary64.ofBits (bits : UInt64) : Binary64 :=
  ⟨bits.toBitVec.msb, bits.toBitVec.extractLsb' 52 11, bits.toBitVec.extractLsb' 0 52⟩

/-- The finest place of a digit is that of `10 ^ -1074`. -/
def finestPlace : Nat := 1074

namespace Binary64

/-- Zero, of either sign. -/
def isZero (number : Binary64) : Bool :=
  number.exponent = 0 ∧ number.fraction = 0

/-- The distance to the next number away from zero, in units of `10 ^ -1074`. -/
def gap (number : Binary64) : Nat :=
  Nat.pow 5 finestPlace <<< (number.exponent.toNat - 1)

/-- The distance from zero, in units of `10 ^ -1074`. -/
def size (number : Binary64) : Nat :=
  (if number.exponent = 0 then number.fraction.toNat else 1 <<< 52 + number.fraction.toNat) *
    number.gap

/-- Below a power of two the numbers lie twice as close as above it. -/
def isNarrowBelow (number : Binary64) : Bool :=
  number.fraction = 0 ∧ 1 < number.exponent

/-- The size in units of `10 ^ -1074` is read as the number: it is nearer to it than to either
neighbour. What lies in the middle between two numbers is read as the one with the even fraction. -/
def readsBack (number : Binary64) (size : Nat) : Bool :=
  let low := 4 * number.size - (if number.isNarrowBelow then number.gap else 2 * number.gap)
  let high := 4 * number.size + 2 * number.gap
  if number.fraction.toNat % 2 = 0 then low ≤ 4 * size ∧ 4 * size ≤ high
  else low < 4 * size ∧ 4 * size < high

/-- The digits down to a place that are read back as the number, if there are any: the ones below
or above it, those that are nearer first, and the even ones where both are as near. -/
def digitsAt? (number : Binary64) (place : Nat) : Option Nat :=
  let unit := Nat.pow 10 place
  let below := number.size / unit
  let rest := number.size % unit
  let isBelowFirst : Bool := 2 * rest < unit ∨ (2 * rest = unit ∧ below % 2 = 0)
  (if isBelowFirst then [below, below + 1] else [below + 1, below]).find? fun digits =>
    number.readsBack (digits * unit)

/-- The fewest digits that are read back as the number, with the place of the last one. At the
finest place that is the number itself. -/
def digitsFrom (number : Binary64) : Nat → Nat × Nat
  | 0 => (number.size, 0)
  | place + 1 =>
    match number.digitsAt? (place + 1) with
    | some digits => (digits, place + 1)
    | none => number.digitsFrom place

end Binary64

/-- An exponent of ten with its sign and at least two digits. -/
def exponentText (exponent : Int) : List Char :=
  let digits := Nat.toDigits 10 exponent.natAbs
  'e' :: (if exponent < 0 then '-' else '+') ::
    (if digits.length < 2 then '0' :: digits else digits)

/-- The digits as text, where `lead` is the exponent of ten of the first one: a point and an
exponent after the first digit if that exponent is below -4 or above 15, and a point at its place
otherwise, with a digit on either side of it. -/
def pointedText (digits : List Char) (lead : Int) : List Char :=
  if lead < -4 ∨ 15 < lead then
    (match digits with
      | first :: second :: rest => first :: '.' :: second :: rest
      | single => single) ++ exponentText lead
  else if lead < 0 then
    '0' :: '.' :: List.replicate (-lead - 1).toNat '0' ++ digits
  else
    let whole := digits.take (lead + 1).toNat
    let rest := digits.drop (lead + 1).toNat
    whole ++ List.replicate ((lead + 1).toNat - whole.length) '0' ++
      '.' :: (if rest.isEmpty then ['0'] else rest)

namespace Binary64

/-- The text of a number without its sign. -/
def unsignedText (number : Binary64) : List Char :=
  if number.isZero then "0.0".toList
  else
    let (digits, place) := number.digitsFrom (finestPlace + 308)
    let digits := Nat.toDigits 10 digits
    pointedText digits (digits.length - 1 + place - finestPlace)

/-- The text of a number. The greatest exponent field is that of the two infinities, and of what is
no number. -/
def text (number : Binary64) : String :=
  if number.exponent = 0x7FF ∧ number.fraction ≠ 0 then "nan"
  else
    let unsigned := if number.exponent = 0x7FF then "inf".toList else number.unsignedText
    String.ofList (if number.isNegative then '-' :: unsigned else unsigned)

-- The ends of the interval, the narrow gap and the tie each decide the digits of one of these.
example : (ofBits 0x3FF8000000000000).text = "1.5" := by decide +kernel
example : (ofBits 0x44B52D02C7E14AF6).text = "1e+23" := by decide +kernel
example : (ofBits 0x3E60000000000000).text = "2.9802322387695312e-08" := by decide +kernel
example : (ofBits 0x8000000000000001).text = "-5e-324" := by decide +kernel

end Binary64

end Marginalia
