import StatementQuery.Mapping.Basic
import StatementQuery.Term.Rename
import StatementQuery.Unify

/-
  Targets of a filter, and the plans by which entries serve
  them.

  A target is one combination of alternatives of a filter.  An
  entry serves it through the first of its patterns that,
  renamed apart from the names in use, unifies with the
  statement the target asks for.

  Key definitions include:
    * `Target`
    * `Target.all`
    * `SkipReason`
    * `PatternMatch`
    * `Entry.plan?`
-/

------------------------------------------------------------
-- Targets
------------------------------------------------------------

namespace StatementQuery

/- One combination of alternatives of a filter. -/
structure Target where
  subject : Term
  property : Term
  value : Term
  isValueConstrained : Bool
  subjectSnaks : List Ground
  valueSnaks : List Ground

namespace Target

/- The variable of subjects that a filter leaves open. -/
def subjectName : String :=
  "subject"

/- The variable of properties that a filter leaves open. -/
def propertyName : String :=
  "property"

/- The variable of values that a filter leaves open. -/
def valueName : String :=
  "value"

/- The property that an alternative fixes. -/
def fixedProperty? : Alternative → Option Ground
| .value g => some g
| _ => none

/- The target of three alternatives. -/
def ofAlternatives
    (codec : Codec)
    (s p v : Alternative) :
    Target where
  subject :=
    match s with
    | .value g => .ground g
    | _ => .var ⟨subjectName, .entity⟩
  property :=
    match p with
    | .value g => .ground g
    | _ => .var ⟨propertyName, .property⟩
  value :=
    match v with
    | .value g =>
        .ground
          (codec.normalizeGround
            ((fixedProperty? p).bind Ground.iri?) g)
    | .snaks _ => .var ⟨valueName, .entity⟩
    | .any => .var ⟨valueName, .value⟩
  isValueConstrained :=
    match v with
    | .any => false
    | _ => true
  subjectSnaks :=
    match s with
    | .snaks gs => gs
    | _ => []
  valueSnaks :=
    match v with
    | .snaks gs => gs
    | _ => []

/-
  All targets of a filter: for each alternative of the
  subject, each of the property, and each of the value.
-/
def all (codec : Codec) (f : Filter) : List Target :=
  f.subject.alternatives.flatMap fun s =>
    f.property.alternatives.flatMap fun p =>
      f.value.alternatives.map fun v =>
        ofAlternatives codec s p v

/- The snak of a kind that a target asks for. -/
def snak (t : Target) : SnakKind → Except TermError Term
| .value => Term.apply .valueSnak [some t.property, some t.value]
| .someValue => Term.apply .someValueSnak [some t.property]
| .noValue => Term.apply .noValueSnak [some t.property]

/- The statement that a target asks for. -/
def statement (t : Target) (kind : SnakKind) : Except TermError Term := do
  let snak ← t.snak kind
  Term.apply .statement [some t.subject, some snak]

end Target

end StatementQuery

------------------------------------------------------------
-- Entries That Cannot Serve A Target
------------------------------------------------------------

namespace StatementQuery

/- Why an entry does not serve a target. -/
inductive SkipReason where
| snakKind
| valueConstraint
| subjectKind
| propertyDatatype
| valueDatatype
| snakConstraint
| noPattern
| emission
deriving DecidableEq

namespace SkipReason

/- The text of a reason. -/
def text : SkipReason → String
| .snakKind => "snak kind masked out"
| .valueConstraint => "value constraint needs a value snak"
| .subjectKind => "subject kind masked out"
| .propertyDatatype => "property datatype masked out"
| .valueDatatype => "value datatype masked out"
| .snakConstraint => "snak constraint on a non-entity value"
| .noPattern => "no pattern unifies"
| .emission => "callback skipped"

end SkipReason

namespace Entry

/- Why the datatype of an entry rules a target out. -/
def datatypeExcludes?
    (e : Entry)
    (f : Filter)
    (t : Target)
    (d : Datatype) :
    Option SkipReason :=
  if !f.propertyMask.admits d then some .propertyDatatype
  else if e.snakKind = .value && !f.valueMask.admits d then
    some .valueDatatype
  else if !t.valueSnaks.isEmpty && !d.isEntity then
    some .snakConstraint
  else none

/- Why the masks of a filter rule an entry out. -/
def excludes?
    (e : Entry)
    (f : Filter)
    (t : Target) :
    Option SkipReason :=
  if !Mask.intersects f.snakMask (SnakMask.of e.snakKind) then
    some .snakKind
  else if t.isValueConstrained && e.snakKind ≠ .value then
    some .valueConstraint
  else if
    !Mask.intersects (DatatypeMask.ofKind e.subjectKind)
      f.subjectMask
  then some .subjectKind
  else e.datatype.bind (e.datatypeExcludes? f t)

end Entry

end StatementQuery

------------------------------------------------------------
-- Plans Of Entries
------------------------------------------------------------

namespace StatementQuery

namespace Term

/-
  Instantiate a term until nothing changes, at most `n`
  times.  The result is absent if the term becomes absent;
  there is none if an instantiation fails.
-/
def settleFor (θ : Bindings) : Nat → Term → Option Side
| 0, t => some (some t)
| n + 1, t =>
    match t.instantiate θ with
    | .ok (some next) =>
        if next.same t then some (some t) else settleFor θ n next
    | .ok none => some none
    | .error _ => none

/- Instantiate a term until nothing changes. -/
def settle? (θ : Bindings) (t : Term) : Option Side :=
  settleFor θ (θ.entries.length + 1) t

end Term

/- A pattern of an entry, unified with a statement. -/
structure PatternMatch where
  /- The pattern, renamed apart from the names in use. -/
  pattern : Term
  /- The unifier of the pattern and the statement. -/
  bindings : Bindings
  /- The pattern under its bindings. -/
  template : Term
  /- What the variables of the pattern stand for. -/
  args : Args

namespace PatternMatch

/- The names that a match uses. -/
def names (m : PatternMatch) : List String :=
  m.pattern.names ++ m.template.names

end PatternMatch

namespace Entry

/- What a settled term is to an emission, if anything. -/
def argOf? : Option Side → Option Arg
| some none => some .absent
| some (some (.ground g)) => some (.value g)
| some (some (.var v)) => some (.var v.name)
| _ => none

/- What the variables of a renamed pattern stand for. -/
def argsOf
    (θ : Bindings) :
    List (Variable × Option Term) → Args
| [] => []
| (v, some (.var fresh)) :: rest =>
    match argOf? (Term.settle? θ (.var fresh)) with
    | some arg => (v.name, arg) :: argsOf θ rest
    | none => argsOf θ rest
| _ :: rest => argsOf θ rest

/- Names for the variables of patterns in a query. -/
def patternSupply (name : String) : NameSupply :=
  ⟨[], sanitizeName name⟩

/- Unify a pattern, renamed apart, with a statement. -/
def matchPattern?
    (pattern goal : Term)
    (used : List String) :
    Option PatternMatch :=
  let fresh := pattern.renamingBindings used patternSupply
  match pattern.instantiateWith .exact fresh with
  | .ok (some renamed) =>
      match renamed.matchWith? goal with
      | some θ =>
          match Term.settle? θ renamed with
          | some (some template) =>
              some
                { pattern := renamed
                  bindings := θ
                  template := template
                  args := argsOf θ fresh.entries }
          | _ => none
      | none => none
  | _ => none

/- The first pattern of an entry that matches a statement. -/
def plan?
    (e : Entry)
    (goal : Term)
    (used : List String) :
    Option PatternMatch :=
  e.patterns.findSome? fun p => matchPattern? p goal used

end Entry

end StatementQuery
