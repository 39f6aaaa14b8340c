import Marginalia.Text.Hex

/-!
# Reading UTF-8

`decodeUtf8` reads a list of octets as characters or says where it had to stop. A character that
takes more than one octet begins with a lead octet; `leadOctet?` tells how many octets follow and
in which range the first of them must lie, which rules out overlong forms, surrogates and code
points past the last plane. A fault covers the octets that were read as the beginning of a
character.
-/

namespace Marginalia

/-- Why octets are no text. -/
inductive Utf8Cause where
  | invalidStart
  | invalidContinuation
  | unexpectedEnd
deriving DecidableEq, Repr

/-- Where octets stop being text: the faulty ones, and how many stand before them. -/
structure Utf8Fault where
  cause : Utf8Cause
  position : Nat
  octets : List UInt8
deriving DecidableEq, Repr

/-- The reason in words. -/
def Utf8Cause.message : Utf8Cause → String
  | .invalidStart => "invalid start byte"
  | .invalidContinuation => "invalid continuation byte"
  | .unexpectedEnd => "unexpected end of data"

/-- The fault on one line: a single octet is named, several are given by their places. -/
def Utf8Fault.message (fault : Utf8Fault) : String :=
  let place :=
    match fault.octets with
    | [octet] =>
      "byte 0x" ++ String.ofList (hexDigits 2 octet.toNat) ++ " in position " ++
        toString fault.position
    | octets =>
      "bytes in position " ++ toString fault.position ++ "-" ++
        toString (fault.position + octets.length - 1)
  "'utf-8' codec can't decode " ++ place ++ ": " ++ fault.cause.message

/-- How many octets follow a lead octet, and the range of the first of them. -/
def leadOctet? (octet : UInt8) : Option (Nat × UInt8 × UInt8) :=
  if 0xC2 ≤ octet && octet ≤ 0xDF then some (1, 0x80, 0xBF)
  else if octet = 0xE0 then some (2, 0xA0, 0xBF)
  else if octet = 0xED then some (2, 0x80, 0x9F)
  else if 0xE1 ≤ octet && octet ≤ 0xEF then some (2, 0x80, 0xBF)
  else if octet = 0xF0 then some (3, 0x90, 0xBF)
  else if octet = 0xF4 then some (3, 0x80, 0x8F)
  else if 0xF1 ≤ octet && octet ≤ 0xF3 then some (3, 0x80, 0xBF)
  else none

/-- The octet continues a character. -/
def isContinuation (octet : UInt8) : Bool :=
  0x80 ≤ octet && octet ≤ 0xBF

/-- The character of a lead octet and the octets that follow it. -/
def assembled (lead : UInt8) (following : List UInt8) : Char :=
  let head :=
    match following.length with
    | 1 => lead.toNat % 0x20
    | 2 => lead.toNat % 0x10
    | _ => lead.toNat % 0x08
  Char.ofNat (following.foldl (fun code octet => code * 0x40 + octet.toNat % 0x40) head)

/-- Reads the octets from a position on. -/
def decodeUtf8From (position : Nat) : List UInt8 → Except Utf8Fault (List Char)
  | [] => .ok []
  | a :: rest =>
    if a < 0x80 then
      (decodeUtf8From (position + 1) rest).map (Char.ofNat a.toNat :: ·)
    else
      match leadOctet? a, rest with
      | none, _ => .error ⟨.invalidStart, position, [a]⟩
      | some _, [] => .error ⟨.unexpectedEnd, position, [a]⟩
      | some (owed, low, high), b :: rest =>
        if b < low || high < b then .error ⟨.invalidContinuation, position, [a]⟩
        else if owed = 1 then
          (decodeUtf8From (position + 2) rest).map (assembled a [b] :: ·)
        else
          match rest with
          | [] => .error ⟨.unexpectedEnd, position, [a, b]⟩
          | c :: rest =>
            if !isContinuation c then .error ⟨.invalidContinuation, position, [a, b]⟩
            else if owed = 2 then
              (decodeUtf8From (position + 3) rest).map (assembled a [b, c] :: ·)
            else
              match rest with
              | [] => .error ⟨.unexpectedEnd, position, [a, b, c]⟩
              | d :: rest =>
                if !isContinuation d then .error ⟨.invalidContinuation, position, [a, b, c]⟩
                else (decodeUtf8From (position + 4) rest).map (assembled a [b, c, d] :: ·)

/-- Reads octets as text. -/
def decodeUtf8 (octets : List UInt8) : Except Utf8Fault (List Char) :=
  decodeUtf8From 0 octets

end Marginalia
