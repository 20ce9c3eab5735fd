import StatementQuery.Query.Expr
import StatementQuery.Text.Split

/-
  Graph patterns and queries, with their text.

  Each pattern is written on lines of its own, indented by two
  blanks for each group around it.

  Key definitions include:
    * `Pattern`
    * `Query`
    * `Pattern.lines`
    * `Query.render`
-/

------------------------------------------------------------
-- Patterns And Queries
------------------------------------------------------------

namespace StatementQuery

/- A pattern of a query. -/
inductive Pattern where
| triple (s p o : Node)
| bind (e : Expr) (name : String)
| filter (e : Expr)
| values (name : String) (nodes : List Node)
| optional (patterns : List Pattern)
| notExists (patterns : List Pattern)
| group (patterns : List Pattern)
| union (branches : List (List Pattern))
| comment (text : String)

/- A query for all variables of its patterns. -/
structure Query where
  distinct : Bool
  limit : Option UInt64
  patterns : List Pattern

end StatementQuery

------------------------------------------------------------
-- Lines
------------------------------------------------------------

namespace StatementQuery

/- A line of a query: how deep it is indented, and its text. -/
structure Line where
  depth : Nat
  text : String
deriving DecidableEq

namespace Line

/- The text of a line, with its indentation and its end. -/
def render (l : Line) : String :=
  String.join (List.replicate l.depth "  ") ++ l.text ++ "\n"

end Line

namespace Pattern

/- The text of the predicate of a triple. -/
def renderPredicate (p : Node) : String :=
  if p = .iri Rdf.type then "a" else p.render

/- The text of a pattern that takes one line. -/
def renderTriple (s p o : Node) : String :=
  s.render ++ " " ++ renderPredicate p ++ " " ++ o.render ++ " ."

/- The text of a list of values for a variable. -/
def renderValues (name : String) (nodes : List Node) : String :=
  "VALUES ?" ++ name ++ " ".push '{' ++
    String.join (nodes.map fun n => " " ++ n.render) ++ " ".push '}'

mutual

/- The lines of a pattern. -/
def lines (depth : Nat) : Pattern → List Line
| .triple s p o => [⟨depth, renderTriple s p o⟩]
| .bind e name =>
    [⟨depth, "BIND(" ++ e.render ++ " AS ?" ++ name ++ ")"⟩]
| .filter e => [⟨depth, "FILTER(" ++ e.render ++ ")"⟩]
| .values name nodes => [⟨depth, renderValues name nodes⟩]
| .optional ps =>
    ⟨depth, "OPTIONAL ".push '{'⟩ :: linesAll (depth + 1) ps ++
      [⟨depth, "".push '}'⟩]
| .notExists ps =>
    ⟨depth, "FILTER NOT EXISTS ".push '{'⟩ ::
      linesAll (depth + 1) ps ++ [⟨depth, "".push '}'⟩]
| .group ps =>
    ⟨depth, "".push '{'⟩ :: linesAll (depth + 1) ps ++
      [⟨depth, "".push '}'⟩]
| .union branches => linesUnion depth branches
| .comment text =>
    (Text.lines text).map fun line => ⟨depth, "# " ++ line⟩

/- The lines of several patterns. -/
def linesAll (depth : Nat) : List Pattern → List Line
| [] => []
| p :: ps => p.lines depth ++ linesAll depth ps

/- The lines of alternatives, each a group. -/
def linesUnion (depth : Nat) : List (List Pattern) → List Line
| [] => []
| [ps] =>
    ⟨depth, "".push '{'⟩ :: linesAll (depth + 1) ps ++
      [⟨depth, "".push '}'⟩]
| ps :: branches =>
    ⟨depth, "".push '{'⟩ :: linesAll (depth + 1) ps ++
      ⟨depth, "".push '}'⟩ :: ⟨depth, "UNION"⟩ ::
      linesUnion depth branches

end

end Pattern

namespace Query

/- The first line of a query. -/
def renderHead (q : Query) : String :=
  if q.distinct then "SELECT DISTINCT * WHERE ".push '{' ++ "\n"
  else "SELECT * WHERE ".push '{' ++ "\n"

/- The limit of a query. -/
def renderLimit (q : Query) : String :=
  match q.limit with
  | some n => "\nLIMIT " ++ n.toNat.repr
  | none => ""

/- The text of a query. -/
def render (q : Query) : String :=
  q.renderHead ++
    String.join ((Pattern.linesAll 1 q.patterns).map Line.render) ++
    "".push '}' ++ q.renderLimit

end Query

end StatementQuery
