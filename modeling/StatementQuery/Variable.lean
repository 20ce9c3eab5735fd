import StatementQuery.Kind
import StatementQuery.Text.Order

/-
  Typed variables and finite sets of them.

  Two variables are equal when both their names and their
  kinds agree.  Sets are kept as lists in ascending order of
  name, then of kind.

  Key definitions include:
    * `Variable`
    * `Variable.before`
    * `Variable.insert`
    * `Variable.sorted`
    * `Variable.leastKinds`
-/

------------------------------------------------------------
-- Variables
------------------------------------------------------------

namespace StatementQuery

/- A name that stands for a term of a kind. -/
structure Variable where
  name : String
  kind : Kind
deriving DecidableEq

namespace Variable

/- A variable that may stand for any term. -/
def any (name : String) : Variable :=
  ⟨name, .term⟩

/- The variable of the same kind under another name. -/
def withName (v : Variable) (name : String) : Variable :=
  ⟨name, v.kind⟩

/- The variable of the same name at another kind. -/
def withKind (v : Variable) (k : Kind) : Variable :=
  ⟨v.name, k⟩

/- The text of a variable. -/
def render (v : Variable) : String :=
  "?" ++ v.name ++ ":" ++ v.kind.name

end Variable

end StatementQuery

------------------------------------------------------------
-- Sets Of Variables
------------------------------------------------------------

namespace StatementQuery

namespace Variable

/- The order of variables: by name, then by kind. -/
def before (v w : Variable) : Bool :=
  match Text.order v.name w.name with
  | .lt => true
  | .gt => false
  | .eq => v.kind.position < w.kind.position

/- Add a variable to an ascending list, unless it is there. -/
def insert (v : Variable) : List Variable → List Variable
| [] => [v]
| w :: ws =>
    if v = w then w :: ws
    else if v.before w then v :: w :: ws
    else w :: insert v ws

/- The members of a list, each once and in ascending order. -/
def sorted (vs : List Variable) : List Variable :=
  vs.foldr insert []

/- The names in a list of variables, each once, ascending. -/
def names (vs : List Variable) : List String :=
  ((sorted vs).map Variable.name).eraseDups

end Variable

end StatementQuery

------------------------------------------------------------
-- One Kind For Each Name
------------------------------------------------------------

namespace StatementQuery

/- A name used at two kinds of which neither is the other. -/
structure Homonym where
  name : String
  first : Kind
  second : Kind
deriving DecidableEq

namespace Variable

/-
  The least kind at which each name occurs, or a name whose
  kinds are not comparable.  The table holds what is known of
  the names seen before.
-/
def leastKindsFrom
    (table : List (String × Kind)) :
    List Variable → Except Homonym (List (String × Kind))
| [] => .ok table
| v :: vs =>
    match table.lookup v.name with
    | none => leastKindsFrom ((v.name, v.kind) :: table) vs
    | some seen =>
        match seen.meet v.kind with
        | some least => leastKindsFrom ((v.name, least) :: table) vs
        | none => .error ⟨v.name, seen, v.kind⟩

/- The least kind at which each name of a set occurs. -/
def leastKinds
    (vs : List Variable) :
    Except Homonym (List (String × Kind)) :=
  leastKindsFrom [] (sorted vs)

/- The variable at the kind a table has for its name. -/
def narrow (table : List (String × Kind)) (v : Variable) : Variable :=
  v.withKind ((table.lookup v.name).getD v.kind)

end Variable

end StatementQuery
