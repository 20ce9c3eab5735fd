import StatementQuery.Compile.Basic

/-
  Reading the rows of a compiled query.

  A row names the branch it comes from.  The template of the
  branch's plan becomes a statement when each of its variables
  is bound to the value of its column.

  Key definitions include:
    * `Row`
    * `DecodeError`
    * `Literal.decode?`
    * `CompiledQuery.decode`
-/

------------------------------------------------------------
-- Columns
------------------------------------------------------------

namespace StatementQuery

/- A solution of a query: columns and their nodes. -/
abbrev Row := List (String × Node)

/- Why a row is no statement. -/
inductive DecodeError where
| missingBranch (name : String)
| invalidBranch (marker : String)
| unknownBranch (index : Nat)
| column (v : Variable) (n : Node)
| notAStatement (side : Side)
| term (e : TermError)

namespace DecodeError

/- The text of an error. -/
def message : DecodeError → String
| .missingBranch name => "row has no branch marker ?" ++ name
| .invalidBranch marker => "invalid branch marker " ++ marker
| .unknownBranch index =>
    "row refers to unknown branch " ++ index.repr
| .column v n =>
    "column ?" ++ v.name ++ " cannot be read as " ++
      v.kind.name ++ ": " ++ n.render
| .notAStatement side =>
    "bindings do not yield a statement: " ++
      Term.renderSide side
| .term e => e.message

end DecodeError

namespace Literal

/- A plain string as a value of a kind. -/
def decodePlain
    (content defaultLanguage : String) :
    Kind → Value
| .externalId => .externalId content
| .text => .text content defaultLanguage
| _ => .string content

/- The value of a literal in a column of a kind. -/
def decode?
    (l : Literal)
    (k : Kind)
    (defaultLanguage : String) :
    Option Value :=
  match l.language, l.datatype with
  | some language, _ => some (.text l.value language)
  | none, none => some (decodePlain l.value defaultLanguage k)
  | none, some datatype =>
      if
        datatype = Xsd.decimal || datatype = Xsd.integer ||
          datatype = Xsd.double
      then (Decimal.parse? l.value).map .amount
      else if datatype = Xsd.dateTime then
        (Instant.parse? l.value).map .instant
      else if datatype = Xsd.string then
        some (decodePlain l.value defaultLanguage k)
      else none

end Literal

namespace CompiledQuery

/- The value of a node in a column of a kind. -/
def decodeNode?
    (q : CompiledQuery)
    (k : Kind) :
    Node → Option Value
| .iri i => q.codec.decodeIri? i k
| .literal l => l.decode? k q.defaultLanguage
| .var _ => none

/- The value of a node in the column of a variable. -/
def decodeColumn
    (q : CompiledQuery)
    (v : Variable)
    (n : Node) :
    Except DecodeError Value :=
  match q.decodeNode? v.kind n with
  | some value =>
      if value.kind ≤ v.kind then .ok value
      else .error (.column v n)
  | none => .error (.column v n)

/- What a row binds a variable to. -/
def decodeVariable
    (q : CompiledQuery)
    (row : Row)
    (v : Variable) :
    Except DecodeError (Option Term) :=
  match row.lookup v.name with
  | some n => do
      let value ← q.decodeColumn v n
      .ok (some (.ground (.value value)))
  | none => .ok none

/- What a row binds variables to. -/
def decodeVariables
    (q : CompiledQuery)
    (row : Row) :
    List Variable →
      Except DecodeError (List (Variable × Option Term))
| [] => .ok []
| v :: vs => do
    let value ← q.decodeVariable row v
    let rest ← q.decodeVariables row vs
    .ok ((v, value) :: rest)

end CompiledQuery

end StatementQuery

------------------------------------------------------------
-- Rows
------------------------------------------------------------

namespace StatementQuery

/- A statement read from a row. -/
structure DecodedStatement where
  statement : Statement
  entryId : Nat
  rank : Option Rank

namespace CompiledQuery

/- The index of the branch that a row comes from. -/
def branchIndex
    (q : CompiledQuery)
    (row : Row) :
    Except DecodeError Nat :=
  match row.lookup q.branchVariable with
  | none => .error (.missingBranch q.branchVariable)
  | some (.literal l) =>
      match Numeral.readIndex? l.value.toList with
      | some index => .ok index
      | none => .error (.invalidBranch l.value)
  | some n => .error (.invalidBranch n.render)

/- The rank that a node names. -/
def rankOf? : Node → Option Rank
| .iri i => Rank.ofIri? i
| _ => none

/- The statement of a template under bindings. -/
def statementOf
    (template : Term)
    (θ : Bindings) :
    Except DecodeError Statement :=
  match template.instantiateWith .exact θ with
  | .error e => .error (.term e)
  | .ok (some (.ground (.statement s))) => .ok s
  | .ok side => .error (.notAStatement side)

/- Read a row. -/
def decode
    (q : CompiledQuery)
    (row : Row) :
    Except DecodeError DecodedStatement := do
  let index ← q.branchIndex row
  match q.plans[index]? with
  | none => .error (.unknownBranch index)
  | some plan => do
      let entries ← q.decodeVariables row plan.template.vars
      let statement ← statementOf plan.template ⟨entries⟩
      .ok
        { statement
          entryId := plan.entryId
          rank :=
            (plan.rankVariable.bind fun name => row.lookup name).bind
              rankOf? }

/- Read rows, up to the first that cannot be read. -/
def decodeAll
    (q : CompiledQuery)
    (rows : List Row) :
    Except DecodeError (List DecodedStatement) :=
  rows.mapM q.decode

end CompiledQuery

end StatementQuery
