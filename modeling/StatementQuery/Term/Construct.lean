import StatementQuery.Term.Error

/-
  Building terms from a constructor and its arguments.

  Every argument is checked against its slot: a variable of a
  wider kind is narrowed to the slot, and a ground string or
  IRI is promoted to the IRI or entity the slot asks for.  The
  result is ground when all arguments are; otherwise every
  variable is declared at the least kind its name occurs with.

  Key definitions include:
    * `Ground.build`
    * `Term.checkArg`
    * `Term.apply`
    * `Term.construct`
-/

------------------------------------------------------------
-- Ground Terms From Arguments
------------------------------------------------------------

namespace StatementQuery

namespace Ground

/- The IRI or entity that a string or an IRI stands for. -/
def promote? : Ground → Kind → Option Ground
| .value (.string s), .iri => some (.value (.iri ⟨s⟩))
| .value (.iri i), .item => some (.value (.item i))
| .value (.iri i), .property => some (.value (.property i))
| .value (.iri i), .lexeme => some (.value (.lexeme i))
| _, _ => none

/- The text of a string or of an external identifier. -/
def content? : Option Ground → Option String
| some (.value (.string s)) => some s
| some (.value (.externalId s)) => some s
| _ => none

/- The amount of a quantity. -/
def amount? : Option Ground → Option Decimal
| some (.value (.quantity q)) => some q.amount
| _ => none

/- The instant of a time. -/
def instant? : Option Ground → Option Instant
| some (.value (.time t)) => some t.instant
| _ => none

/- The identifier of an entity of a kind. -/
def entity? (kind : EntityKind) : Option Ground → Option Iri
| some (.value (.entity e)) =>
    if e.kind = kind then some e.iri else none
| _ => none

/- The precision of a code that may be absent. -/
def precision :
    Option Decimal → Except TermError (Option TimePrecision)
| none => .ok none
| some code =>
    match code.toInt?.bind fun n =>
        if n < 0 then none else TimePrecision.ofCode? n.toNat with
    | some p => .ok (some p)
    | none => .error (.invalidPrecision code)

/- The offset of a number of minutes that may be absent. -/
def timezone :
    Option Decimal → Except TermError (Option Int32)
| none => .ok none
| some minutes =>
    match minutes.toInt?.filter (Numeral.fitsSigned 32) with
    | some z => .ok (some (Int32.ofInt z))
    | none => .error (.invalidTimezone minutes)

/- A time from its components. -/
def buildTime
    (instant : Instant)
    (code minutes : Option Decimal)
    (calendar : Option Iri) :
    Except TermError Ground := do
  let p ← precision code
  let z ← timezone minutes
  .ok (.value (.time ⟨instant, p, z, calendar⟩))

/-
  The ground term that a constructor builds from ground
  arguments, each of a kind that its slot allows.
-/
def build
    (c : Constructor)
    (args : List (Option Ground)) :
    Except TermError Ground :=
  match c, args with
  | .iri, [a] =>
      match content? a with
      | some s => .ok (.value (.iri ⟨s⟩))
      | none => .error (.notConstructible c.kind)
  | .entity kind, [some (.value (.iri i))] =>
      .ok (.value (.entity ⟨kind, i⟩))
  | .text, [a, b] =>
      match content? a, content? b with
      | some s, some l => .ok (.value (.text s l))
      | _, _ => .error (.notConstructible c.kind)
  | .quantity, [a, unit, lower, upper] =>
      match amount? a with
      | some d =>
          .ok
            (.value
              (.quantity
                ⟨d, entity? .item unit, amount? lower,
                  amount? upper⟩))
      | none => .error (.notConstructible c.kind)
  | .time, [a, code, minutes, calendar] =>
      match instant? a with
      | some i =>
          buildTime i (amount? code) (amount? minutes)
            (entity? .item calendar)
      | none => .error (.notConstructible c.kind)
  | .valueSnak, [p, some (.value v)] =>
      match entity? .property p with
      | some i => .ok (.snak (.value i v))
      | none => .error (.notConstructible c.kind)
  | .someValueSnak, [p] =>
      match entity? .property p with
      | some i => .ok (.snak (.someValue i))
      | none => .error (.notConstructible c.kind)
  | .noValueSnak, [p] =>
      match entity? .property p with
      | some i => .ok (.snak (.noValue i))
      | none => .error (.notConstructible c.kind)
  | .statement, [some (.value (.entity e)), some (.snak s)] =>
      .ok (.statement ⟨e, s⟩)
  | _, _ => .error (.notConstructible c.kind)

end Ground

end StatementQuery

------------------------------------------------------------
-- Terms From Arguments
------------------------------------------------------------

namespace StatementQuery

namespace Term

/- Check one argument against its slot. -/
def checkArg
    (c : Constructor)
    (position : Nat)
    (slot : Slot) :
    Option Term → Except TermError (Option Term)
| none =>
    if slot.isOptional then .ok none
    else .error (.absentArgument c position)
| some (.var v) =>
    if v.kind ≤ slot.kind then .ok (some (.var v))
    else if slot.kind ≤ v.kind then
      .ok (some (.var (v.withKind slot.kind)))
    else .error (.check (.var v) slot.kind position)
| some (.ground g) =>
    if g.kind ≤ slot.kind then .ok (some (.ground g))
    else
      match g.promote? slot.kind with
      | some h => .ok (some (.ground h))
      | none => .error (.check (.ground g) slot.kind position)
| some (.app d args) =>
    if d.kind ≤ slot.kind then .ok (some (.app d args))
    else .error (.check (.app d args) slot.kind position)

/- Check arguments against their slots, from the left. -/
def checkArgs
    (c : Constructor)
    (position : Nat) :
    List Slot → List (Option Term) →
      Except TermError (List (Option Term))
| slot :: slots, arg :: args => do
    let checked ← checkArg c position slot arg
    let rest ← checkArgs c (position + 1) slots args
    .ok (checked :: rest)
| _, _ => .ok []

/- Whether an argument is present and not ground. -/
def isOpenArg : Option Term → Bool
| some t => !t.isGround
| none => false

/- The ground term of an argument. -/
def groundArg (arg : Option Term) : Option Ground :=
  arg.bind ground?

/- Declare every variable at the least kind of its name. -/
def normalizeArgs
    (args : List (Option Term)) :
    Except TermError (List (Option Term)) :=
  match Variable.leastKinds (occurrencesArgs args) with
  | .ok table => .ok (mapVariablesArgs (Variable.narrow table) args)
  | .error h => .error (.inconsistentVariable h)

/- Apply a constructor to arguments. -/
def apply
    (c : Constructor)
    (args : List (Option Term)) :
    Except TermError Term :=
  if args.length = c.slots.length then do
    let checked ← checkArgs c 0 c.slots args
    if checked.any isOpenArg then
      let normal ← normalizeArgs checked
      .ok (.app c normal)
    else
      let g ← Ground.build c (checked.map groundArg)
      .ok (.ground g)
  else .error (.arity c args.length)

/- Apply the constructor of a kind to arguments. -/
def construct
    (k : Kind)
    (args : List (Option Term)) :
    Except TermError Term :=
  match k.constructor? with
  | some c => apply c args
  | none => .error (.notConstructible k)

end Term

end StatementQuery
