/-
  The order of text by code points, which is also the order
  of its UTF-8 bytes.

  Key definitions include:
    * `Text.compareChars`
    * `Text.order`
    * `Text.sort`
-/

------------------------------------------------------------
-- Order Of Text
------------------------------------------------------------

namespace StatementQuery

namespace Text

/- Compare two character lists code point by code point. -/
def compareChars : List Char → List Char → Ordering
| [], [] => .eq
| [], _ :: _ => .lt
| _ :: _, [] => .gt
| a :: as, b :: bs =>
    if a.toNat < b.toNat then .lt
    else if b.toNat < a.toNat then .gt
    else compareChars as bs

/- Compare two texts code point by code point. -/
def order (s t : String) : Ordering :=
  compareChars s.toList t.toList

/- Texts in ascending order. -/
def sort (texts : List String) : List String :=
  texts.mergeSort fun s t => (order s t).isLE

end Text

end StatementQuery
