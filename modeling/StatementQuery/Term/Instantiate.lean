import StatementQuery.Bindings
import StatementQuery.Term.Construct

/-
  Replacing the variables of a term by what they are bound
  to.

  A variable bound to the absent value drops an optional
  argument.  In a required slot the whole term becomes absent
  or, when the mode is strict, instantiation fails.

  Key definitions include:
    * `InstantiateMode`
    * `Term.instantiateWith`
    * `Term.instantiate`
    * `Term.instantiateSide`
-/

------------------------------------------------------------
-- Modes
------------------------------------------------------------

namespace StatementQuery

/- How to instantiate. -/
structure InstantiateMode where
  /- Narrow a bound variable of a wider kind. -/
  coerce : Bool
  /- Fail where a required argument becomes absent. -/
  strict : Bool
deriving DecidableEq

namespace InstantiateMode

/- Narrow bound variables and let terms become absent. -/
def lenient : InstantiateMode :=
  ⟨true, false⟩

/- Take bound values as they are, let terms become absent. -/
def plain : InstantiateMode :=
  ⟨false, false⟩

/- Take bound values as they are and keep terms present. -/
def exact : InstantiateMode :=
  ⟨false, true⟩

end InstantiateMode

end StatementQuery

------------------------------------------------------------
-- Instantiation
------------------------------------------------------------

namespace StatementQuery

namespace Term

/- What a variable of kind `v.kind` becomes. -/
def instantiateVariable
    (mode : InstantiateMode)
    (θ : Bindings)
    (v : Variable) :
    Except TermError (Option Term) :=
  match θ.get? v with
  | none => .ok (some (.var v))
  | some none => .ok none
  | some (some t) =>
      if t.kind ≤ v.kind then .ok (some t)
      else
        match t with
        | .var w =>
            if mode.coerce && v.kind ≤ w.kind then
              .ok (some (.var (w.withKind v.kind)))
            else .error (.instantiation v t)
        | _ => .error (.instantiation v t)

/- Whether some variable of a term is bound. -/
def isTouched (θ : Bindings) (t : Term) : Bool :=
  t.occurrences.any θ.binds

mutual

/- Replace the variables of a term. -/
def instantiateWith
    (mode : InstantiateMode)
    (θ : Bindings) :
    Term → Except TermError (Option Term)
| .ground g => .ok (some (.ground g))
| .var v => instantiateVariable mode θ v
| .app c args =>
    if isTouched θ (.app c args) then
      match instantiateArgs mode θ c 0 c.slots args with
      | .ok (some values) => (apply c values).map some
      | .ok none => .ok none
      | .error e => .error e
    else .ok (some (.app c args))

/-
  Replace the variables of arguments, from the left.  The
  result is absent as soon as a required argument is.
-/
def instantiateArgs
    (mode : InstantiateMode)
    (θ : Bindings)
    (c : Constructor)
    (position : Nat) :
    List Slot → List (Option Term) →
      Except TermError (Option (List (Option Term)))
| slot :: slots, arg :: args =>
    match instantiateArg mode θ arg with
    | .error e => .error e
    | .ok value =>
        if value.isNone && !slot.isOptional then
          if mode.strict then
            .error (.absentArgument c position)
          else .ok none
        else
          match
            instantiateArgs mode θ c (position + 1) slots args
          with
          | .ok (some values) => .ok (some (value :: values))
          | .ok none => .ok none
          | .error e => .error e
| _, _ => .ok (some [])

/- Replace the variables of one argument. -/
def instantiateArg
    (mode : InstantiateMode)
    (θ : Bindings) :
    Option Term → Except TermError (Option Term)
| none => .ok none
| some t => t.instantiateWith mode θ

end

/- Replace the variables of a term, narrowing bound ones. -/
def instantiate
    (t : Term)
    (θ : Bindings) :
    Except TermError (Option Term) :=
  t.instantiateWith .lenient θ

/- Instantiate a side; an absent side stays absent. -/
def instantiateSide
    (mode : InstantiateMode)
    (θ : Bindings) :
    Option Term → Except TermError (Option Term)
| none => .ok none
| some t => t.instantiateWith mode θ

end Term

end StatementQuery
