import Marginalia.Text.Hex
import Marginalia.Text.Unprintable

/-!
# Quoted text

Messages show a piece of foreign text between quotes, escaped so that the reader sees where it
ends and which characters it holds. The single quote is the usual mark; text that holds a single
quote and no double quote is put between double quotes, so that nothing in it needs an escape.
-/

namespace Marginalia

/-- The mark that `text` is quoted with. -/
def quoteMark (text : List Char) : Char :=
  if text.contains '\x27' && !text.contains '\x22' then '\x22' else '\x27'

/-- A numbered escape, as short as the code point allows. -/
def numberedEscape (c : Char) : List Char :=
  if c.toNat < 0x100 then '\\' :: 'x' :: hexDigits 2 c.toNat
  else if c.toNat < 0x10000 then '\\' :: 'u' :: hexDigits 4 c.toNat
  else '\\' :: 'U' :: hexDigits 8 c.toNat

/-- One character of a text quoted with `mark`. -/
def quoteChar (mark c : Char) : List Char :=
  if c = mark ∨ c = '\\' then ['\\', c]
  else if c = '\n' then ['\\', 'n']
  else if c = '\r' then ['\\', 'r']
  else if c = '\t' then ['\\', 't']
  else if isUnprintable c then numberedEscape c
  else [c]

/-- The text between its quotes. -/
def quoted (text : String) : String :=
  let mark := quoteMark text.toList
  String.ofList (mark :: text.toList.flatMap (quoteChar mark) ++ [mark])

end Marginalia
