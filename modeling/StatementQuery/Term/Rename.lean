import StatementQuery.Names
import StatementQuery.Term.Instantiate

/-
  Renaming the variables of a term apart from given names.

  Key definitions include:
    * `Term.renamingBindings`
    * `Term.rename`
-/

------------------------------------------------------------
-- Renaming
------------------------------------------------------------

namespace StatementQuery

namespace Term

/-
  Fresh variables for a list of variables.  Variables of one
  name get one fresh name; `chosen` holds those of the names
  seen before, and `taken` the names to avoid.
-/
def renamingFrom
    (supply : String → NameSupply)
    (taken : List String)
    (chosen : List (String × String)) :
    List Variable → List (Variable × Option Term)
| [] => []
| v :: vs =>
    match chosen.lookup v.name with
    | some name =>
        (v, some (.var (v.withName name))) ::
          renamingFrom supply taken chosen vs
    | none =>
        let name := (supply v.name).fresh taken
        (v, some (.var (v.withName name))) ::
          renamingFrom supply (name :: taken)
            ((v.name, name) :: chosen) vs

/-
  The bindings of each variable of a term to a variable of
  the same kind under a fresh name.
-/
def renamingBindings
    (t : Term)
    (avoid : List String)
    (supply : String → NameSupply) :
    Bindings :=
  ⟨renamingFrom supply avoid [] t.vars⟩

/- Rename every variable of a term. -/
def rename
    (t : Term)
    (avoid : List String)
    (supply : String → NameSupply) :
    Term :=
  match t.instantiateWith .exact (t.renamingBindings avoid supply) with
  | .ok (some renamed) => renamed
  | _ => t

end Term

end StatementQuery
