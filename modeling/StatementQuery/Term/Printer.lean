import StatementQuery.Ground.Printer
import StatementQuery.Term.Basic

/-
  The text of terms.

  Key definitions include:
    * `Term.render`
    * `Term.renderSide`
-/

------------------------------------------------------------
-- Text Of Terms
------------------------------------------------------------

namespace StatementQuery

namespace Term

mutual

/- The text of a term. -/
def render : Term → String
| .ground g => g.render
| .var v => v.render
| .app c args => renderApplication c.kind.name (renderArgs args)

/- The texts of arguments. -/
def renderArgs : List (Option Term) → List String
| [] => []
| none :: args => renderOption none :: renderArgs args
| some t :: args => t.render :: renderArgs args

end

/- The text of a term that may be absent. -/
def renderSide (side : Option Term) : String :=
  renderOption (side.map render)

end Term

end StatementQuery
