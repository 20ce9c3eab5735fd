import StatementQuery.Json.Token

/-
  Reading a record from a JSON text.

  A record is written as an object of named fields, or as the
  list of its first fields in order.  Tokens are taken one by
  one, and the first problem decides.  Fields that are left
  out keep their values, and fields of other names are passed
  over.

  Key definitions include:
    * `JsonField`
    * `JsonSkip.step`
    * `JsonReader.step`
    * `JsonReader.read`
-/

------------------------------------------------------------
-- Passing Over A Value
------------------------------------------------------------

namespace StatementQuery

/- What encloses a value that is passed over. -/
inductive JsonFrame where
| list
| object
deriving DecidableEq

namespace JsonSkip

/- What may come next inside a value that is passed over. -/
inductive Place where
/- A value. -/
| value
/- A first element or key, or the end. -/
| first
/- A comma, or the end. -/
| next
/- A key. -/
| key
/- A colon. -/
| colon
deriving DecidableEq

/- Where we are in a value, and what is still open. -/
structure State where
  place : Place
  frames : List JsonFrame
deriving DecidableEq

/- The state before a value. -/
def start : State :=
  ⟨.value, []⟩

/- The state after a value, unless nothing is open any more. -/
def afterValue : List JsonFrame → Option State
| [] => none
| frames => some ⟨.next, frames⟩

/- Whether a token ends a list or an object. -/
def closes : JsonFrame → JsonToken → Bool
| .list, .closeList => true
| .object, .closeObject => true
| _, _ => false

/- Take the first token of a value. -/
def stepValue
    (frames : List JsonFrame) :
    JsonToken → Except JsonError (Option State)
| .openList => .ok (some ⟨.first, .list :: frames⟩)
| .openObject => .ok (some ⟨.first, .object :: frames⟩)
| .text _ skipped => do
    skipped
    .ok (afterValue frames)
| .scalar _ skipped => do
    skipped
    .ok (afterValue frames)
| _ => .error .malformed

/- Take a key. -/
def stepKey
    (frames : List JsonFrame) :
    JsonToken → Except JsonError (Option State)
| .text _ skipped => do
    skipped
    .ok (some ⟨.colon, frames⟩)
| _ => .error .malformed

/- Take the first token of an element or a member. -/
def stepItem
    (frame : JsonFrame)
    (frames : List JsonFrame)
    (token : JsonToken) :
    Except JsonError (Option State) :=
  match frame with
  | .list => stepValue (frame :: frames) token
  | .object => stepKey (frame :: frames) token

/- Take a token; there is no state after the last one. -/
def step
    (s : State)
    (token : JsonToken) :
    Except JsonError (Option State) :=
  match s.place, s.frames with
  | .value, frames => stepValue frames token
  | .first, frame :: frames =>
      if closes frame token then .ok (afterValue frames)
      else stepItem frame frames token
  | .next, frame :: frames =>
      if closes frame token then .ok (afterValue frames)
      else
        match frame, token with
        | .list, .comma => .ok (some ⟨.value, s.frames⟩)
        | .object, .comma => .ok (some ⟨.key, s.frames⟩)
        | _, _ => .error .malformed
  | .key, frames => stepKey frames token
  | .colon, frames =>
      match token with
      | .colon => .ok (some ⟨.value, frames⟩)
      | _ => .error .malformed
  | _, [] => .error .malformed

end JsonSkip

end StatementQuery

------------------------------------------------------------
-- Reading A Record
------------------------------------------------------------

namespace StatementQuery

/- A field of a record, and how a scalar sets it. -/
structure JsonField (σ : Type) where
  name : String
  set? : JsonScalar → σ → Option σ

namespace JsonReader

/- What may come next in the text of a record. -/
inductive Place (σ : Type) where
/- The record. -/
| start
/- A first key, or the end of the object. -/
| firstKey
/- A comma, or the end of the object. -/
| nextKey
/- A key. -/
| key
/- The colon after the name of a field. -/
| colon (field : JsonField σ)
/- The value of a field. -/
| value (field : JsonField σ)
/- The colon after another name. -/
| otherColon
/- A value that is passed over. -/
| skip (s : JsonSkip.State)
/- A first element, or the end of the list. -/
| firstElement
/- A comma, or the end of the list. -/
| nextElement (fields : List (JsonField σ))
/- An element. -/
| element (field : JsonField σ) (fields : List (JsonField σ))
/- The end of the text. -/
| done

/- A record as read so far, with the names given for it. -/
structure State (σ : Type) where
  place : Place σ
  record : σ
  given : List String := []

namespace State

/- Move on to another place. -/
def goto (s : State σ) (place : Place σ) : State σ :=
  { s with place }

end State

/- Take a key of the object. -/
def stepKey
    (fields : List (JsonField σ))
    (s : State σ) :
    JsonToken → Except JsonError (State σ)
| .text kept _ => do
    let name ← kept
    match fields.find? fun f => f.name = name with
    | some f =>
        if s.given.contains name then .error .mismatch
        else
          .ok
            { s with place := .colon f, given := name :: s.given }
    | none => .ok (s.goto .otherColon)
| _ => .error .malformed

/- Take the value of a field. -/
def stepValue
    (s : State σ)
    (f : JsonField σ)
    (next : Place σ)
    (token : JsonToken) :
    Except JsonError (State σ) := do
  let value ←
    match token with
    | .text kept _ => kept.map .text
    | .scalar kept _ => kept
    | .openList | .openObject => .error .mismatch
    | _ => .error .malformed
  match f.set? value s.record with
  | some record => .ok { s with place := next, record }
  | none => .error .mismatch

/- Take the first token of the text. -/
def stepStart
    (s : State σ) :
    JsonToken → Except JsonError (State σ)
| .openObject => .ok (s.goto .firstKey)
| .openList => .ok (s.goto .firstElement)
| .text kept _ => do
    let _ ← kept
    .error .mismatch
| .scalar kept _ => do
    let _ ← kept
    .error .mismatch
| _ => .error .malformed

/- Take a token. -/
def step
    (fields : List (JsonField σ))
    (s : State σ)
    (token : JsonToken) :
    Except JsonError (State σ) :=
  match s.place, token with
  | .start, token => stepStart s token
  | .firstKey, .closeObject => .ok (s.goto .done)
  | .firstKey, token => stepKey fields s token
  | .nextKey, .closeObject => .ok (s.goto .done)
  | .nextKey, .comma => .ok (s.goto .key)
  | .key, token => stepKey fields s token
  | .colon f, .colon => .ok (s.goto (.value f))
  | .value f, token => stepValue s f .nextKey token
  | .otherColon, .colon => .ok (s.goto (.skip JsonSkip.start))
  | .skip inner, token => do
      match ← JsonSkip.step inner token with
      | some inner => .ok (s.goto (.skip inner))
      | none => .ok (s.goto .nextKey)
  | .firstElement, .closeList => .ok (s.goto .done)
  | .firstElement, token =>
      match fields with
      | f :: fs => stepValue s f (.nextElement fs) token
      | [] => .error .malformed
  | .nextElement _, .closeList => .ok (s.goto .done)
  | .nextElement (f :: fs), .comma => .ok (s.goto (.element f fs))
  | .element f fs, token => stepValue s f (.nextElement fs) token
  | _, _ => .error .malformed

/- The record of a text that ends in a state. -/
def finish (s : State σ) : Except JsonError σ :=
  match s.place with
  | .done => .ok s.record
  | _ => .error .truncated

/- Read a record, starting from the values it has. -/
def read
    (fields : List (JsonField σ))
    (record : σ)
    (text : String) :
    Except JsonError σ := do
  let tokens := JsonToken.tokens text.toList
  finish (← tokens.foldlM (step fields) ⟨.start, record, []⟩)

end JsonReader

end StatementQuery
