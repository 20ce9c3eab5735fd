import StatementQuery.Json.Text

/-
  Tokens of JSON texts.

  A text that breaks off, or has a token that cannot be, is
  still split into tokens; the fault is part of its last
  token, so that it counts only when that token is reached.

  Key definitions include:
    * `JsonScalar`
    * `JsonToken`
    * `JsonToken.tokens`
-/

------------------------------------------------------------
-- Tokens
------------------------------------------------------------

namespace StatementQuery

/- A value that is neither a list nor an object. -/
inductive JsonScalar where
| null
| bool (b : Bool)
| number (n : JsonNumber)
| text (s : String)
deriving DecidableEq

/-
  A token.  A scalar has two readings: the value it stands
  for, and whether it can be passed over unread.
-/
inductive JsonToken where
| openObject
| closeObject
| openList
| closeList
| comma
| colon
| text
    (kept : Except JsonError String)
    (skipped : Except JsonError Unit)
| scalar
    (kept : Except JsonError JsonScalar)
    (skipped : Except JsonError Unit)
| stray

namespace JsonToken

/- The token of a string. -/
def ofText (s : JsonText.Scanned) : JsonToken :=
  .text (JsonText.read s) (s.rest.map fun _ => ())

/- The token of a number. -/
def ofNumber (n : JsonNumber) : JsonToken :=
  .scalar
    (if n.isOutOfRange then .error .malformed
      else .ok (.number n))
    (.ok ())

/- The token of a number that breaks off. -/
def brokenNumber (e : JsonError) : JsonToken :=
  .scalar (.error e) (.error .malformed)

/- The token of a word that is not as it should be. -/
def brokenWord (e : JsonError) : JsonToken :=
  .scalar (.error e) (.error e)

end JsonToken

end StatementQuery

------------------------------------------------------------
-- Words
------------------------------------------------------------

namespace StatementQuery

namespace JsonToken

/- The text after the letters of a word. -/
def afterWord :
    List Char → List Char → Except JsonError (List Char)
| [], cs => .ok cs
| _ :: _, [] => .error .truncated
| a :: as, c :: cs =>
    if a = c then afterWord as cs else .error .malformed

/- What follows a word is no longer than the text. -/
theorem afterWord_length
    (word cs rest : List Char)
    (hRest : afterWord word cs = .ok rest) :
    rest.length ≤ cs.length := by
  fun_induction afterWord word cs with
  | case1 cs =>
      cases hRest
      exact Nat.le_refl _
  | case2 => cases hRest
  | case3 as c cs ih =>
      have hLength := ih hRest
      simp only [List.length_cons]
      omega
  | case4 => cases hRest

/- The rest of a word that a letter starts, and its value. -/
def word? : Char → Option (List Char × JsonScalar)
| 'n' => some (['u', 'l', 'l'], .null)
| 't' => some (['r', 'u', 'e'], .bool true)
| 'f' => some (['a', 'l', 's', 'e'], .bool false)
| _ => none

/- The token of a mark. -/
def mark? : Char → Option JsonToken
| '{' => some .openObject
| '}' => some .closeObject
| '[' => some .openList
| ']' => some .closeList
| ',' => some .comma
| ':' => some .colon
| _ => none

/- Whether a character may stand between tokens. -/
def isBlank (c : Char) : Bool :=
  c = ' ' || c = '\n' || c = '\t' || c = '\r'

end JsonToken

end StatementQuery

------------------------------------------------------------
-- Splitting A Text
------------------------------------------------------------

namespace StatementQuery

namespace JsonToken

/-
  The first token of a text that starts with `c`, and the text
  after it, unless nothing after it can count.
-/
def first (c : Char) (cs : List Char) : JsonToken × Option (List Char) :=
  match mark? c, word? c with
  | some token, _ => (token, some cs)
  | none, some (word, value) =>
      match afterWord word cs with
      | .ok rest => (.scalar (.ok value) (.ok ()), some rest)
      | .error e => (brokenWord e, none)
  | none, none =>
      if c = '"' then
        let s := JsonText.pieces cs
        (ofText s, s.rest.toOption)
      else if c = '-' || c.isDigit then
        match JsonNumber.scan (c :: cs) with
        | .ok (n, rest) => (ofNumber n, some rest)
        | .error e => (brokenNumber e, none)
      else (.stray, none)

/- A token is not empty. -/
theorem first_length
    (c : Char)
    (cs rest : List Char)
    (hRest : (first c cs).2 = some rest) :
    rest.length ≤ cs.length := by
  unfold first at hRest
  split at hRest
  · cases hRest
    exact Nat.le_refl _
  · split at hRest
    · rename_i hWord
      cases hRest
      exact afterWord_length _ _ _ hWord
    · cases hRest
  · split at hRest
    · cases hPieces : (JsonText.pieces cs).rest with
      | error e =>
          simp [hPieces, Except.toOption] at hRest
      | ok after =>
          have hAfter : after = rest := by
            simpa [hPieces, Except.toOption] using hRest
          subst hAfter
          exact JsonText.pieces_rest_length cs after hPieces
    · split at hRest
      · split at hRest
        · rename_i hScan
          cases hRest
          have hLength := JsonNumber.scan_length hScan
          simp only [List.length_cons] at hLength
          omega
        · cases hRest
      · cases hRest

set_option linter.unusedVariables false in
/- The tokens of a text. -/
def tokens : List Char → List JsonToken
| [] => []
| c :: cs =>
    if isBlank c then tokens cs
    else
      match hRest : (first c cs).2 with
      | some rest => (first c cs).1 :: tokens rest
      | none => [(first c cs).1]
termination_by cs => cs.length
decreasing_by
  · simp
  · have hLength := first_length c cs rest hRest
    simp only [List.length_cons]
    omega

end JsonToken

end StatementQuery
