import StatementQuery.Ground.Printer
import StatementQuery.Text.Order

/-
  Nodes of graph patterns: variables, identifiers and
  literals, with their text in a query.

  A literal is written between double quotes, with a language
  tag or a datatype after it.  An integer that fits 64 bits is
  written as it is.

  Key definitions include:
    * `Literal`
    * `Node`
    * `Node.order`
    * `Node.render`
-/

------------------------------------------------------------
-- Identifiers Of Datatypes
------------------------------------------------------------

namespace StatementQuery

namespace Xsd

/- An identifier in the namespace of schema datatypes. -/
def name (localName : String) : Iri :=
  ⟨"http://www.w3.org/2001/XMLSchema#" ++ localName⟩

def string : Iri := name "string"

def integer : Iri := name "integer"

def decimal : Iri := name "decimal"

def double : Iri := name "double"

def dateTime : Iri := name "dateTime"

end Xsd

namespace Rdf

/- The property that relates a resource to its class. -/
def type : Iri :=
  ⟨"http://www.w3.org/1999/02/22-rdf-syntax-ns#type"⟩

end Rdf

end StatementQuery

------------------------------------------------------------
-- Nodes
------------------------------------------------------------

namespace StatementQuery

/- A literal, with an optional language tag and datatype. -/
structure Literal where
  value : String
  language : Option String := none
  datatype : Option Iri := none
deriving DecidableEq

/- A node of a graph pattern. -/
inductive Node where
| var (name : String)
| iri (i : Iri)
| literal (l : Literal)
deriving DecidableEq

namespace Node

/- A plain string. -/
def string (value : String) : Node :=
  .literal ⟨value, none, none⟩

/- A string in a language. -/
def lang (value language : String) : Node :=
  .literal ⟨value, some language, none⟩

/- A literal of a datatype. -/
def typed (value : String) (datatype : Iri) : Node :=
  .literal ⟨value, none, some datatype⟩

/- An integer literal. -/
def integer (n : Int) : Node :=
  typed (String.ofList (Numeral.signed n)) Xsd.integer

/- A decimal literal, in normal form. -/
def decimal (d : Decimal) : Node :=
  typed d.normalize.expand.render Xsd.decimal

/- A date-time literal. -/
def dateTime (i : Instant) : Node :=
  typed i.render Xsd.dateTime

/- The name of a node that is a variable. -/
def varName? : Node → Option String
| .var name => some name
| _ => none

/- Whether a node is a variable. -/
def isVar (n : Node) : Bool :=
  n.varName?.isSome

end Node

end StatementQuery

------------------------------------------------------------
-- Order Of Nodes
------------------------------------------------------------

namespace StatementQuery

namespace Node

/- Compare two optional texts; an absent one comes first. -/
def compareOption : Option String → Option String → Ordering
| none, none => .eq
| none, some _ => .lt
| some _, none => .gt
| some s, some t => Text.order s t

/- Compare by value, then language, then datatype. -/
def compareLiteral (l m : Literal) : Ordering :=
  (Text.order l.value m.value).then
    ((compareOption l.language m.language).then
      (compareOption (l.datatype.map Iri.text)
        (m.datatype.map Iri.text)))

/- Variables come before identifiers, those before literals. -/
def order : Node → Node → Ordering
| .var a, .var b => Text.order a b
| .var _, _ => .lt
| .iri _, .var _ => .gt
| .iri a, .iri b => Text.order a.text b.text
| .iri _, .literal _ => .lt
| .literal _, .var _ => .gt
| .literal _, .iri _ => .gt
| .literal a, .literal b => compareLiteral a b

/- Nodes in ascending order, each once. -/
def sort (nodes : List Node) : List Node :=
  (nodes.mergeSort fun m n => (order m n).isLE).eraseDups

end Node

end StatementQuery

------------------------------------------------------------
-- Text Of Nodes
------------------------------------------------------------

namespace StatementQuery

namespace Literal

/- One character between the quotes of a literal. -/
def escapeChar (c : Char) : List Char :=
  if c = '\\' then ['\\', '\\']
  else if c = '"' then ['\\', '"']
  else if c = '\n' then ['\\', 'n']
  else if c = '\r' then ['\\', 'r']
  else if c = '\t' then ['\\', 't']
  else [c]

/- The characters between the quotes of a literal. -/
def escape (cs : List Char) : List Char :=
  cs.flatMap escapeChar

/- The quoted value of a literal. -/
def renderQuoted (l : Literal) : List Char :=
  '"' :: escape l.value.toList ++ ['"']

/- Whether a literal is written as a bare integer. -/
def isBareInteger (l : Literal) : Bool :=
  l.datatype = some Xsd.integer &&
    (Numeral.readInt64? l.value.toList).isSome

/- The language tag or the datatype of a literal. -/
def renderSuffix (l : Literal) : List Char :=
  match l.language, l.datatype with
  | some language, _ => '@' :: language.toList
  | none, some datatype => '^' :: '^' :: datatype.render.toList
  | none, none => []

/- The text of a literal. -/
def renderChars (l : Literal) : List Char :=
  if l.isBareInteger then l.value.toList
  else l.renderQuoted ++ l.renderSuffix

end Literal

namespace Node

/- The text of a node. -/
def render : Node → String
| .var name => "?" ++ name
| .iri i => i.render
| .literal l => String.ofList l.renderChars

end Node

end StatementQuery
