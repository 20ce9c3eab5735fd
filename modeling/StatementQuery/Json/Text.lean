import StatementQuery.Json.Number

/-
  Strings of JSON texts.

  A string is first split into characters and escaped 16-bit
  units.  Then the units are joined into characters, and a
  string with a surrogate that has no partner is refused.

  Key definitions include:
    * `JsonText.pieces`
    * `JsonText.join`
    * `JsonText.quote`
-/

------------------------------------------------------------
-- Pieces Of Strings
------------------------------------------------------------

namespace StatementQuery

namespace JsonText

/- A part of a string as it is written. -/
inductive Piece where
| char (c : Char)
| unit (n : Nat)
deriving DecidableEq

/- The pieces up to the closing quote, and what follows it. -/
structure Scanned where
  pieces : List Piece
  rest : Except JsonError (List Char)

namespace Scanned

/- Put a piece in front. -/
def push (p : Piece) (s : Scanned) : Scanned :=
  ⟨p :: s.pieces, s.rest⟩

/- Nothing but an error. -/
def failed (e : JsonError) : Scanned :=
  ⟨[], .error e⟩

end Scanned

/- The value of a hexadecimal digit. -/
def hexDigit? (c : Char) : Option Nat :=
  if c.isDigit then some (c.toNat - '0'.toNat)
  else if 'a' ≤ c && c ≤ 'f' then some (c.toNat - 'a'.toNat + 10)
  else if 'A' ≤ c && c ≤ 'F' then some (c.toNat - 'A'.toNat + 10)
  else none

/- The value of hexadecimal digits. -/
def hexValue? (cs : List Char) : Option Nat :=
  cs.foldl
    (fun n c => do some (16 * (← n) + (← hexDigit? c)))
    (some 0)

/- The character that a letter stands for after a backslash. -/
def escaped? : Char → Option Char
| '"' => some '"'
| '\\' => some '\\'
| '/' => some '/'
| 'b' => some '\x08'
| 'f' => some '\x0c'
| 'n' => some '\n'
| 'r' => some '\r'
| 't' => some '\t'
| _ => none

/- What is wrong with the end of a unit, of four bytes. -/
def unitError (cs : List Char) : JsonError :=
  if cs.foldl (fun size c => size + c.utf8Size) 0 < 4 then
    .truncated
  else .malformed

/-
  Split a string, from after its opening quote.
-/
def pieces : List Char → Scanned
| [] => .failed .truncated
| '"' :: cs => ⟨[], .ok cs⟩
| ['\\'] => .failed .truncated
| '\\' :: 'u' :: a :: b :: c :: d :: cs =>
    match hexValue? [a, b, c, d] with
    | some n => (pieces cs).push (.unit n)
    | none => .failed .malformed
| '\\' :: 'u' :: cs => .failed (unitError cs)
| '\\' :: c :: cs =>
    match escaped? c with
    | some d => (pieces cs).push (.char d)
    | none => .failed .malformed
| c :: cs =>
    if c < ' ' then .failed .malformed
    else (pieces cs).push (.char c)

/- What follows a string is shorter than the string. -/
theorem pieces_rest_length
    (cs rest : List Char)
    (hRest : (pieces cs).rest = .ok rest) :
    rest.length ≤ cs.length := by
  fun_induction pieces cs generalizing rest with
  | case2 cs =>
      cases hRest
      simp
  | case4 a b c d cs n hHex ih =>
      have hLength := ih rest hRest
      simp only [List.length_cons]
      omega
  | case7 c cs hUnit hChar d hEscape ih =>
      have hLength := ih rest hRest
      simp only [List.length_cons]
      omega
  | case10 c cs hQuote hSlash hUnit hShort hEscape hControl ih =>
      have hLength := ih rest hRest
      simp only [List.length_cons]
      omega
  | _ => cases hRest

end JsonText

end StatementQuery

------------------------------------------------------------
-- Joining Pieces
------------------------------------------------------------

namespace StatementQuery

namespace JsonText

/- Whether a unit is the first of two. -/
def isLeading (n : Nat) : Bool :=
  0xD800 ≤ n && n ≤ 0xDBFF

/- Whether a unit is the second of two. -/
def isTrailing (n : Nat) : Bool :=
  0xDC00 ≤ n && n ≤ 0xDFFF

/- The character of two units. -/
def ofPair (m n : Nat) : Char :=
  Char.ofNat (0x10000 + 0x400 * (m - 0xD800) + (n - 0xDC00))

/-
  Join the pieces of a string.  `ending` is the error after
  the last piece, if any.
-/
def join
    (ending : Except JsonError Unit) :
    List Piece → Except JsonError (List Char)
| [] => do
    ending
    .ok []
| .char c :: ps => do
    let cs ← join ending ps
    .ok (c :: cs)
| .unit m :: .unit n :: ps =>
    if isTrailing m then .error .malformed
    else if isLeading m then
      if isTrailing n then do
        let cs ← join ending ps
        .ok (ofPair m n :: cs)
      else .error .malformed
    else do
      let cs ← join ending (.unit n :: ps)
      .ok (Char.ofNat m :: cs)
| .unit m :: ps =>
    if isTrailing m then .error .malformed
    else if isLeading m then do
      if ps.isEmpty then ending
      .error .malformed
    else do
      let cs ← join ending ps
      .ok (Char.ofNat m :: cs)

/- The text of a string, or its first error. -/
def read (s : Scanned) : Except JsonError String := do
  let cs ← join (s.rest.map fun _ => ()) s.pieces
  .ok (String.ofList cs)

end JsonText

end StatementQuery

------------------------------------------------------------
-- Writing Strings
------------------------------------------------------------

namespace StatementQuery

namespace JsonText

/- The text of a character inside quotes. -/
def escapeChar (c : Char) : List Char :=
  match c with
  | '"' => ['\\', '"']
  | '\\' => ['\\', '\\']
  | '\x08' => ['\\', 'b']
  | '\x0c' => ['\\', 'f']
  | '\n' => ['\\', 'n']
  | '\r' => ['\\', 'r']
  | '\t' => ['\\', 't']
  | c =>
      if c < ' ' then
        ['\\', 'u', '0', '0', Nat.digitChar (c.toNat / 16),
          Nat.digitChar (c.toNat % 16)]
      else [c]

/- A string in quotes. -/
def quote (s : String) : String :=
  String.ofList
    ('"' :: s.toList.flatMap escapeChar ++ ['"'])

end JsonText

end StatementQuery
