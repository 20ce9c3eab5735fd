import StatementQuery.Names
import StatementQuery.Term.Construct

/-
  Filling the absent arguments of a term with fresh
  variables.

  Generalization reaches quantities and times through
  statements and snaks.  The components of a value are not
  opened further.

  Key definitions include:
    * `Term.fillAbsent`
    * `Ground.generalize`
    * `Term.generalize`
-/

------------------------------------------------------------
-- Filling Absent Arguments
------------------------------------------------------------

namespace StatementQuery

namespace Constructor

/- Whether a constructor builds snaks or statements. -/
def isStructural : Constructor → Bool
| .valueSnak | .someValueSnak | .noValueSnak | .statement => true
| _ => false

end Constructor

namespace Term

/- A fresh variable for a slot, and the names now taken. -/
def freshVariable
    (supply : NameSupply)
    (slot : Slot)
    (taken : List String) :
    Term × List String :=
  let name := supply.fresh taken
  (.var ⟨name, slot.kind⟩, name :: taken)

/- Put fresh variables in place of absent arguments. -/
def fillAbsent
    (supply : NameSupply) :
    List Slot → List (Option Term) → List String →
      List (Option Term) × List String
| slot :: slots, none :: args, taken =>
    let (t, taken) := freshVariable supply slot taken
    let (rest, taken) := fillAbsent supply slots args taken
    (some t :: rest, taken)
| _ :: slots, some t :: args, taken =>
    let (rest, taken) := fillAbsent supply slots args taken
    (some t :: rest, taken)
| _, _, taken => ([], taken)

/- Apply a constructor, or keep a term if that fails. -/
def applyOr
    (fallback : Term)
    (c : Constructor)
    (args : List (Option Term)) :
    Term :=
  match apply c args with
  | .ok t => t
  | .error _ => fallback

end Term

end StatementQuery

------------------------------------------------------------
-- Generalization Of Ground Terms
------------------------------------------------------------

namespace StatementQuery

/- Generalize a value. -/
def Value.generalize
    (supply : NameSupply)
    (v : Value)
    (taken : List String) :
    Term × List String :=
  let self := Term.ground (.value v)
  match v.kind.constructor?, self.args? with
  | some c, some args =>
      let (filled, taken) :=
        Term.fillAbsent supply c.slots args taken
      (Term.applyOr self c filled, taken)
  | _, _ => (self, taken)

/- Generalize a snak. -/
def Snak.generalize
    (supply : NameSupply)
    (s : Snak)
    (taken : List String) :
    Term × List String :=
  let self := Term.ground (.snak s)
  let property := some (Term.ground (.value (.property s.property)))
  match s with
  | .value _ v =>
      let (opened, taken) := v.generalize supply taken
      (Term.applyOr self .valueSnak [property, some opened], taken)
  | .someValue _ =>
      (Term.applyOr self .someValueSnak [property], taken)
  | .noValue _ =>
      (Term.applyOr self .noValueSnak [property], taken)

/- Generalize a ground term. -/
def Ground.generalize
    (supply : NameSupply) :
    Ground → List String → Term × List String
| .value v, taken => v.generalize supply taken
| .snak s, taken => s.generalize supply taken
| .statement s, taken =>
    let subject := Term.ground (.value (.entity s.subject))
    let (opened, taken) := s.snak.generalize supply taken
    (Term.applyOr (.ground (.statement s)) .statement
      [some subject, some opened], taken)

end StatementQuery

------------------------------------------------------------
-- Generalization Of Terms
------------------------------------------------------------

namespace StatementQuery

namespace Term

mutual

/- Generalize a term apart from the names taken. -/
def generalizeFrom
    (supply : NameSupply) :
    Term → List String → Term × List String
| .ground g, taken => g.generalize supply taken
| .var v, taken => (.var v, taken)
| .app c args, taken =>
    let (filled, taken) :=
      if c.isStructural then
        generalizeArgs supply c.slots args taken
      else fillAbsent supply c.slots args taken
    (applyOr (.app c args) c filled, taken)

/- Generalize arguments, from the left. -/
def generalizeArgs
    (supply : NameSupply) :
    List Slot → List (Option Term) → List String →
      List (Option Term) × List String
| slot :: slots, none :: args, taken =>
    let (t, taken) := freshVariable supply slot taken
    let (rest, taken) := generalizeArgs supply slots args taken
    (some t :: rest, taken)
| _ :: slots, some t :: args, taken =>
    let (u, taken) := generalizeFrom supply t taken
    let (rest, taken) := generalizeArgs supply slots args taken
    (some u :: rest, taken)
| _, _, taken => ([], taken)

end

/- Put fresh variables in place of absent arguments. -/
def generalize
    (t : Term)
    (avoid : List String)
    (supply : NameSupply) :
    Term :=
  (generalizeFrom supply t (avoid ++ t.names)).1

end Term

end StatementQuery
