import StatementQuery.Ground.Basic
import StatementQuery.Variable

/-
  Terms: ground terms, variables, and constructors applied to
  arguments of which at least one is open.

  An argument may be absent, which is written `none`.

  Key definitions include:
    * `Term`
    * `Term.kind`
    * `Term.args?`
    * `Term.occurrences`
    * `Term.vars`
    * `Term.same`
    * `Term.mapVariables`
-/

------------------------------------------------------------
-- Terms
------------------------------------------------------------

namespace StatementQuery

/- A term over typed variables. -/
inductive Term where
| ground (g : Ground)
| var (v : Variable)
| app (c : Constructor) (args : List (Option Term))

namespace Term

/- The kind of a term; for a variable, its declared kind. -/
def kind : Term → Kind
| .ground g => g.kind
| .var v => v.kind
| .app c _ => c.kind

/- Whether a term is ground. -/
def isGround : Term → Bool
| .ground _ => true
| _ => false

/- Whether a term is a variable. -/
def isVariable : Term → Bool
| .var _ => true
| _ => false

/- The ground term that a term is. -/
def ground? : Term → Option Ground
| .ground g => some g
| _ => none

/- The variable that a term is. -/
def var? : Term → Option Variable
| .var v => some v
| _ => none

/- The constructor arguments of a term, if it has any. -/
def args? : Term → Option (List (Option Term))
| .ground g => g.args?.map fun args => args.map (Option.map Term.ground)
| .var _ => none
| .app _ args => some args

end Term

end StatementQuery

------------------------------------------------------------
-- Variables Of A Term
------------------------------------------------------------

namespace StatementQuery

namespace Term

mutual

/- The variables of a term, once for each occurrence. -/
def occurrences : Term → List Variable
| .ground _ => []
| .var v => [v]
| .app _ args => occurrencesArgs args

/- The variables of arguments, once for each occurrence. -/
def occurrencesArgs : List (Option Term) → List Variable
| [] => []
| none :: args => occurrencesArgs args
| some t :: args => t.occurrences ++ occurrencesArgs args

end

/- The set of variables of a term. -/
def vars (t : Term) : List Variable :=
  Variable.sorted t.occurrences

/- The set of names of the variables of a term. -/
def names (t : Term) : List String :=
  Variable.names t.occurrences

mutual

/- Replace every variable by a variable. -/
def mapVariables (f : Variable → Variable) : Term → Term
| .ground g => .ground g
| .var v => .var (f v)
| .app c args => .app c (mapVariablesArgs f args)

/- Replace every variable in arguments by a variable. -/
def mapVariablesArgs
    (f : Variable → Variable) :
    List (Option Term) → List (Option Term)
| [] => []
| none :: args => none :: mapVariablesArgs f args
| some t :: args =>
    some (t.mapVariables f) :: mapVariablesArgs f args

end

end Term

end StatementQuery

------------------------------------------------------------
-- Equality Of Terms
------------------------------------------------------------

namespace StatementQuery

namespace Term

mutual

/- Equality of terms, with decimals taken as numbers. -/
def same : Term → Term → Bool
| .ground g, .ground h => g.same h
| .var v, .var w => v = w
| .app c args, .app d brgs => c = d && sameArgs args brgs
| _, _ => false

/- Equality of arguments, with decimals taken as numbers. -/
def sameArgs : List (Option Term) → List (Option Term) → Bool
| [], [] => true
| none :: args, none :: brgs => sameArgs args brgs
| some t :: args, some u :: brgs =>
    t.same u && sameArgs args brgs
| _, _ => false

end

/- Equality of terms that may be absent. -/
def sameOption : Option Term → Option Term → Bool
| none, none => true
| some t, some u => t.same u
| _, _ => false

end Term

end StatementQuery
