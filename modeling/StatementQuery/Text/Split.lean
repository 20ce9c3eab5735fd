/-
  Cutting character lists at separators.

  Key definitions include:
    * `Text.splitFirst`
    * `Text.splitLast`
    * `Text.lines`
-/

------------------------------------------------------------
-- Separators
------------------------------------------------------------

namespace StatementQuery

namespace Text

/- The parts before and after the first separator. -/
def splitFirst
    (sep : Char) :
    List Char → Option (List Char × List Char)
| [] => none
| c :: cs =>
    if c = sep then some ([], cs)
    else (splitFirst sep cs).map fun (l, r) => (c :: l, r)

/-
  The part before the last character that satisfies `p`, that
  character, and the part after it.
-/
def splitLast
    (p : Char → Bool) :
    List Char → Option (List Char × Char × List Char)
| [] => none
| c :: cs =>
    match splitLast p cs with
    | some (l, d, r) => some (c :: l, d, r)
    | none => if p c then some ([], c, cs) else none

/- The part before a given last character. -/
def dropLast?
    (last : Char)
    (cs : List Char) :
    Option (List Char) :=
  if cs.getLast? = some last then some cs.dropLast else none

/- The rest of a text after a given start. -/
def afterStart? : List Char → List Char → Option (List Char)
| [], cs => some cs
| _ :: _, [] => none
| a :: as, c :: cs => if a = c then afterStart? as cs else none

end Text

end StatementQuery

------------------------------------------------------------
-- Lines
------------------------------------------------------------

namespace StatementQuery

namespace Text

/- A line without the carriage return at its end. -/
def chomp (line : List Char) : List Char :=
  (dropLast? '\r' line).getD line

/-
  The lines of a text.  A line feed ends a line, together
  with a carriage return right before it; a text that ends in
  a line feed has no further, empty line.
-/
def linesFrom (line : List Char) : List Char → List (List Char)
| [] => if line.isEmpty then [] else [line]
| c :: cs =>
    if c = '\n' then chomp line :: linesFrom [] cs
    else linesFrom (line ++ [c]) cs

/- The lines of a text. -/
def lines (s : String) : List String :=
  (linesFrom [] s.toList).map String.ofList

end Text

end StatementQuery
