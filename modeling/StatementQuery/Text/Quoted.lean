import StatementQuery.Text.Hidden

/-
  Text between double quotes, as terms show it.

  A quote and a backslash are escaped by a backslash, five
  controls have a letter, and every other hidden character is
  shown by its code point in braces.

  Key definitions include:
    * `Text.showChar`
    * `Text.quoted`
-/

------------------------------------------------------------
-- Quoted Text
------------------------------------------------------------

namespace StatementQuery

namespace Text

/- The code point of a character, in hexadecimal. -/
def showCodePoint (c : Char) : List Char :=
  ['\\', 'u', '{'] ++ Nat.toDigits 16 c.toNat ++ ['}']

/- One character inside the quotes. -/
def showChar (c : Char) : List Char :=
  if c = '"' then ['\\', '"']
  else if c = '\\' then ['\\', '\\']
  else if c = '\n' then ['\\', 'n']
  else if c = '\r' then ['\\', 'r']
  else if c = '\t' then ['\\', 't']
  else if c = '\x00' then ['\\', '0']
  else if isHidden c then showCodePoint c
  else [c]

/- A text in double quotes. -/
def quoted (s : String) : String :=
  String.ofList ('"' :: s.toList.flatMap showChar ++ ['"'])

end Text

end StatementQuery
