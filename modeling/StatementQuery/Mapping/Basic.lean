import StatementQuery.Filter.Basic
import StatementQuery.Mapping.Codec
import StatementQuery.Query.Builder
import StatementQuery.Settings.Options
import StatementQuery.Term.Printer

/-
  Mappings: how a store represents statements.

  An entry of a mapping pairs statement patterns with an
  emission, which writes the graph patterns that match such
  statements.  Entries keep the order of their registration.

  Key definitions include:
    * `Arg`
    * `Emission`
    * `Entry`
    * `Mapping`
    * `Registration`
    * `Mapping.build`
-/

------------------------------------------------------------
-- Emissions
------------------------------------------------------------

namespace StatementQuery

/- Why an emission does not end in a branch. -/
inductive EntryError where
| skip
| failed (message : String)
deriving DecidableEq

namespace EntryError

/- The text of an error. -/
def message : EntryError → String
| .skip => "entry does not apply"
| .failed text => text

end EntryError

/- What a variable of a pattern stands for in a branch. -/
inductive Arg where
| var (name : String)
| value (g : Ground)
| absent
deriving DecidableEq

namespace Arg

/- Whether the component is absent. -/
def isAbsent : Arg → Bool
| .absent => true
| _ => false

/- The ground term that is fixed by the filter. -/
def value? : Arg → Option Ground
| .value g => some g
| _ => none

end Arg

/- The variables of a pattern and what they stand for. -/
abbrev Args := List (String × Arg)

namespace Args

/- What a variable stands for. -/
def get (args : Args) (name : String) : Except EntryError Arg :=
  match args.lookup name with
  | some arg => .ok arg
  | none => .error .skip

/- Whether a variable stands for an absent component. -/
def isAbsent (args : Args) (name : String) : Bool :=
  (args.lookup name).any Arg.isAbsent

end Args

/- What an emission knows of the query it is part of. -/
structure EmissionContext where
  codec : Codec
  constraints : Filter
  options : Options

namespace EmissionContext

/- The node that an argument stands for. -/
def node
    (context : EmissionContext) :
    Arg → Except EntryError Node
| .var name => .ok (.var name)
| .value g =>
    match context.codec.encode? g with
    | some n => .ok n
    | none => .error (.failed ("cannot encode " ++ g.render))
| .absent => .error .skip

end EmissionContext

/- A computation that adds to a group, or gives it up. -/
abbrev EmitM := ExceptT EntryError GroupM

/-
  Write the graph patterns of an entry.  The result is the
  variable that holds the rank of the statement, if any.
-/
abbrev Emission :=
  EmissionContext → Args → EmitM (Option String)

end StatementQuery

------------------------------------------------------------
-- Entries
------------------------------------------------------------

namespace StatementQuery

/- Statement patterns and how to find their statements. -/
structure Entry where
  id : Nat
  patterns : List Term
  snakKind : SnakKind
  subjectKind : Kind
  datatype : Option Datatype
  emit : Emission

/- Entries and the conventions of their store. -/
structure Mapping where
  entries : List Entry
  codec : Codec

/- An entry to be registered. -/
structure Registration where
  patterns : List Term
  datatype : Option Datatype := none
  emit : Emission

/- Why registered entries are no mapping. -/
inductive MappingError where
| noPatterns (index : Nat)
| notAStatement (index : Nat) (pattern : Term)
| abstractSnak (index : Nat) (pattern : Term)
| mixedSnaks (index : Nat) (first second : SnakKind)

namespace MappingError

/- The text of an error. -/
def message : MappingError → String
| .noPatterns index =>
    "entry " ++ index.repr ++ " has no patterns"
| .notAStatement index pattern =>
    "entry " ++ index.repr ++ ": " ++ pattern.render ++
      " is not a statement pattern"
| .abstractSnak index pattern =>
    "entry " ++ index.repr ++ ": " ++ pattern.render ++
      " must name a concrete snak constructor"
| .mixedSnaks index first second =>
    "entry " ++ index.repr ++ ": patterns mix " ++
      first.kind.name ++ " and " ++ second.kind.name

end MappingError

end StatementQuery

------------------------------------------------------------
-- Building Mappings
------------------------------------------------------------

namespace StatementQuery

namespace Term

/- The subject and the snak of a statement pattern. -/
def statementParts? (t : Term) : Option (Term × Term) :=
  if t.kind = .statement then
    match t.args? with
    | some (some subject :: some snak :: _) => some (subject, snak)
    | _ => none
  else none

/- The value of a value snak that names one. -/
def snakValue? (snak : Term) : Option Term :=
  match snak.args? with
  | some (_ :: some value :: _) => some value
  | _ => none

end Term

namespace Mapping

/- What is known of an entry from some of its patterns. -/
structure Summary where
  snakKind : SnakKind
  subjectKind : Kind
  valueKind : Option Kind

/- The least kind above a known kind and another one. -/
def joinOption : Option Kind → Option Kind → Option Kind
| some k, some l => some (k.join l)
| some k, none => some k
| none, other => other

/- What one pattern says of its entry. -/
def summarize
    (index : Nat)
    (pattern : Term) :
    Except MappingError Summary :=
  match pattern.statementParts? with
  | none => .error (.notAStatement index pattern)
  | some (subject, snak) =>
      match snak.kind.snakKind? with
      | none => .error (.abstractSnak index pattern)
      | some kind =>
          .ok
            { snakKind := kind
              subjectKind := subject.kind
              valueKind :=
                if kind = .value then
                  snak.snakValue?.map Term.kind
                else none }

/- What two parts of the patterns say together. -/
def Summary.join
    (index : Nat)
    (s t : Summary) :
    Except MappingError Summary :=
  if s.snakKind = t.snakKind then
    .ok
      { snakKind := s.snakKind
        subjectKind := s.subjectKind.join t.subjectKind
        valueKind := joinOption s.valueKind t.valueKind }
  else .error (.mixedSnaks index s.snakKind t.snakKind)

/- Add what further patterns say of their entry. -/
def summarizeFrom
    (index : Nat)
    (s : Summary) :
    List Term → Except MappingError Summary
| [] => .ok s
| p :: ps => do
    let t ← summarize index p
    let joined ← s.join index t
    summarizeFrom index joined ps

/- What all patterns say of their entry. -/
def summarizeAll
    (index : Nat) :
    List Term → Except MappingError Summary
| [] => .error (.noPatterns index)
| p :: ps => do
    let s ← summarize index p
    summarizeFrom index s ps

/-
  The entry of a registration.  A datatype that is not given
  is that of the values of its patterns.
-/
def entryOf
    (index : Nat)
    (r : Registration) :
    Except MappingError Entry := do
  let s ← summarizeAll index r.patterns
  .ok
    { id := index
      patterns := r.patterns
      snakKind := s.snakKind
      subjectKind := s.subjectKind
      datatype := r.datatype.or (s.valueKind.bind Kind.datatype?)
      emit := r.emit }

/- The entries of registrations, counted from `index`. -/
def entriesFrom
    (index : Nat) :
    List Registration → Except MappingError (List Entry)
| [] => .ok []
| r :: rs => do
    let e ← entryOf index r
    let es ← entriesFrom (index + 1) rs
    .ok (e :: es)

/- The mapping of registered entries. -/
def build
    (codec : Codec)
    (registrations : List Registration) :
    Except MappingError Mapping := do
  let entries ← entriesFrom 0 registrations
  .ok ⟨entries, codec⟩

end Mapping

end StatementQuery
