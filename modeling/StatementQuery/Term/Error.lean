import StatementQuery.Term.Printer

/-
  What can go wrong when terms are built or instantiated.

  Key definitions include:
    * `TermError`
    * `TermError.message`
    * `Variable.coerce`
    * `Instant.read`
    * `Snak.ofGround`
    * `Statement.ofGround`
-/

------------------------------------------------------------
-- Causes And Messages
------------------------------------------------------------

namespace StatementQuery

/- Why a term cannot be built or instantiated. -/
inductive TermError where
| check (value : Term) (expected : Kind) (position : Nat)
| arity (c : Constructor) (got : Nat)
| absentArgument (c : Constructor) (position : Nat)
| notConstructible (k : Kind)
| inconsistentVariable (h : Homonym)
| coercion (v : Variable) (target : Kind)
| instantiation (v : Variable) (value : Term)
| invalidInstant (literal : String)
| invalidPrecision (code : Decimal)
| invalidTimezone (minutes : Decimal)

namespace TermError

/- The text of an error. -/
def message : TermError → String
| .check value expected position =>
    "cannot coerce " ++ value.render ++ " into " ++
      expected.name ++ " (argument " ++ position.repr ++ ")"
| .arity c got =>
    c.kind.name ++ " expects " ++ c.slots.length.repr ++
      " arguments, got " ++ got.repr
| .absentArgument c position =>
    c.kind.name ++ " argument " ++ position.repr ++
      " cannot be absent"
| .notConstructible k =>
    k.name ++ " cannot be constructed from arguments"
| .inconsistentVariable h =>
    "variable ?" ++ h.name ++ " occurs as both " ++
      h.first.name ++ " and " ++ h.second.name
| .coercion v target =>
    "cannot coerce variable ?" ++ v.name ++ " of kind " ++
      v.kind.name ++ " to " ++ target.name
| .instantiation v value =>
    "cannot instantiate " ++ v.render ++ " with " ++
      value.render
| .invalidInstant literal =>
    "invalid xsd:dateTime: " ++ literal
| .invalidPrecision code =>
    "invalid time precision: " ++ code.render
| .invalidTimezone minutes =>
    "invalid timezone: " ++ minutes.render

end TermError

end StatementQuery

------------------------------------------------------------
-- Checked Parts Of Terms
------------------------------------------------------------

namespace StatementQuery

/- Declare a variable at a comparable kind. -/
def Variable.coerce
    (v : Variable)
    (target : Kind) :
    Except TermError Variable :=
  if v.kind.Comparable target then .ok (v.withKind target)
  else .error (.coercion v target)

/- Read an instant. -/
def Instant.read (literal : String) : Except TermError Instant :=
  match Instant.parse? literal with
  | some i => .ok i
  | none => .error (.invalidInstant literal)

/- The snak that gives a property a value. -/
def Snak.ofGround
    (p : Iri) :
    Ground → Except TermError Snak
| .value v => .ok (.value p v)
| g => .error (.check (.ground g) .value 1)

/- The statement that says a snak of a subject. -/
def Statement.ofGround :
    Ground → Ground → Except TermError Statement
| .value (.entity e), .snak s => .ok ⟨e, s⟩
| .value (.entity _), g => .error (.check (.ground g) .snak 1)
| g, _ => .error (.check (.ground g) .entity 0)

end StatementQuery
