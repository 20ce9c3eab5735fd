import StatementQuery.Term.Printer

/-
  Bindings of variables to terms.

  A variable may be bound to a term, bound to the absent
  value, or not bound at all.  Bindings are kept in ascending
  order of their variables.

  Key definitions include:
    * `Bindings`
    * `Bindings.get?`
    * `Bindings.insert`
    * `Bindings.ofList`
    * `Bindings.render`
-/

------------------------------------------------------------
-- Bindings
------------------------------------------------------------

namespace StatementQuery

/- Variables and what they are bound to, in order. -/
structure Bindings where
  entries : List (Variable × Option Term) := []

namespace Bindings

/- No bindings. -/
def empty : Bindings :=
  ⟨[]⟩

/- What a variable is bound to. -/
def get? (θ : Bindings) (v : Variable) : Option (Option Term) :=
  θ.entries.lookup v

/- Whether a variable is bound. -/
def binds (θ : Bindings) (v : Variable) : Bool :=
  (θ.get? v).isSome

/- Put a binding into an ordered list of bindings. -/
def insertEntry
    (v : Variable)
    (value : Option Term) :
    List (Variable × Option Term) →
      List (Variable × Option Term)
| [] => [(v, value)]
| (w, other) :: rest =>
    if v = w then (v, value) :: rest
    else if v.before w then (v, value) :: (w, other) :: rest
    else (w, other) :: insertEntry v value rest

/- Bind a variable, in place of any binding it had. -/
def insert
    (θ : Bindings)
    (v : Variable)
    (value : Option Term) :
    Bindings :=
  ⟨insertEntry v value θ.entries⟩

/- One binding. -/
def singleton (v : Variable) (value : Option Term) : Bindings :=
  ⟨[(v, value)]⟩

/- Bindings from a list; a later one replaces an earlier. -/
def ofList (entries : List (Variable × Option Term)) : Bindings :=
  entries.foldl (fun θ (v, value) => θ.insert v value) empty

/- Add all bindings of `σ`, in place of those of `θ`. -/
def union (θ σ : Bindings) : Bindings :=
  σ.entries.foldl (fun θ (v, value) => θ.insert v value) θ

/- The bound variables. -/
def vars (θ : Bindings) : List Variable :=
  θ.entries.map Prod.fst

/- The first binding of a variable with a name. -/
def getByName?
    (θ : Bindings)
    (name : String) :
    Option (Variable × Option Term) :=
  θ.entries.find? fun (v, _) => v.name = name

/- The text of one binding. -/
def renderEntry (entry : Variable × Option Term) : String :=
  entry.1.render ++ " ↦ " ++ Term.renderSide entry.2

/- The text of bindings. -/
def render (θ : Bindings) : String :=
  "".push '{' ++ ", ".intercalate (θ.entries.map renderEntry) ++
    "".push '}'

end Bindings

end StatementQuery
