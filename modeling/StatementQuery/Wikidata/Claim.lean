import StatementQuery.Mapping.Basic
import StatementQuery.Wikidata.Codec

/-
  Claims: how Wikidata stores link subjects to statements.

  A claim links a subject to a statement node by a predicate
  made from the property.  The statement node links on to its
  value, or to the node of a deep value, by predicates of the
  same property.  When the property is open, the predicates
  are found through the property's own triples.

  Key definitions include:
    * `Wikidata.Claim`
    * `Wikidata.Claim.start`
    * `Wikidata.Claim.link`
    * `Wikidata.component`
-/

------------------------------------------------------------
-- Vocabulary
------------------------------------------------------------

namespace StatementQuery

namespace Wikidata

/- A name of the ontology of the store. -/
def ontology (localName : String) : Node :=
  .iri (Iri.inNamespace "http://wikiba.se/ontology#" localName)

/- The type of the properties of a datatype. -/
def propertyType (d : Datatype) : Node :=
  ontology
    (match d with
    | .entity .item => "WikibaseItem"
    | .entity .property => "WikibaseProperty"
    | .entity .lexeme => "WikibaseLexeme"
    | .iri => "Url"
    | .text => "Monolingualtext"
    | .string => "String"
    | .externalId => "ExternalId"
    | .quantity => "Quantity"
    | .time => "Time")

/- A statement node's predicate that depends on the property. -/
inductive Link where
| value
| deepValue
| noValue
deriving DecidableEq

namespace Link

/- Where the predicates of a link are named. -/
def path : Link → String
| .value => "statement/"
| .deepValue => "statement/value/"
| .noValue => "novalue/"

/- What links a property to its predicate. -/
def predicate : Link → Node
| .value => ontology "statementProperty"
| .deepValue => ontology "statementValue"
| .noValue => ontology "novalue"

/- The variable of a predicate that is open. -/
def variableName : Link → String
| .value => "ps"
| .deepValue => "psv"
| .noValue => "wdno"

end Link

end Wikidata

end StatementQuery

------------------------------------------------------------
-- Claims
------------------------------------------------------------

namespace StatementQuery

namespace Wikidata

/- The property of a claim. -/
inductive PropertyRef where
| fixed (localName : String)
| free (property : Node)
deriving DecidableEq

/- A statement node, its property, and its rank variable. -/
structure Claim where
  statement : Node
  property : PropertyRef
  rank : Option String
deriving DecidableEq

namespace Claim

/- Link a subject to a statement by a property. -/
def linkSubject
    (config : WikidataConfig)
    (arg : Arg)
    (subject property statement : Node) :
    EmitM PropertyRef :=
  match arg, property with
  | .value (.value (.entity ⟨.property, _⟩)), .iri i => do
      let localName := i.lastSegment
      let predicate :=
        Iri.inNamespace config.propertyNamespace localName
      Group.triple subject (.iri predicate) statement
      pure (.fixed localName)
  | .var _, _ => do
      let claim ← Group.freshVar "claim"
      Group.triple property (ontology "claim") claim
      Group.triple subject claim statement
      pure (.free property)
  | _, _ => throw .skip

/- Require a property to have a datatype that is asked for. -/
def restrictDatatype
    (property : Node)
    (datatype : Option Datatype)
    (m : DatatypeMask) :
    GroupM Unit :=
  match datatype with
  | some d =>
      Group.triple property (ontology "propertyType")
        (propertyType d)
  | none => do
      if !Mask.isAll m then
        let type ← Group.freshVar "type"
        Group.triple property (ontology "propertyType") type
        Group.values type (m.datatypes.map propertyType)

/- The kinds of entities that a mask admits. -/
def subjectKinds (m : DatatypeMask) : List EntityKind :=
  [.item, .property, .lexeme].filter fun k =>
    m.admits (.entity k)

/- Require an open subject to be of a kind asked for. -/
def restrictSubject
    (config : WikidataConfig)
    (subject : Node)
    (m : DatatypeMask) :
    GroupM Unit := do
  if subject.isVar && !Mask.contains m DatatypeMask.entities then
    Group.filter
      (.or
        ((subjectKinds m).map fun k =>
          .strStarts subject
            (config.entityNamespace ++ String.singleton k.letter)))

/- Require a rank that is asked for; return its variable. -/
def restrictRank
    (statement : Node)
    (f : Filter) :
    GroupM (Option String) := do
  if Mask.isAll f.rankMask && !f.annotated then pure none
  else
    let rank ← Group.freshVar "rank"
    Group.triple statement (ontology "rank") rank
    if !Mask.isAll f.rankMask then
      Group.filter
        (.isIn rank
          ((RankMask.ranks f.rankMask).map fun r => .iri r.iri))
    pure (if f.annotated then rank.varName? else none)

/- The claim that every statement starts with. -/
def start
    (config : WikidataConfig)
    (datatype : Option Datatype)
    (context : EmissionContext)
    (args : Args) :
    EmitM Claim := do
  let subject ← context.node (← args.get "subject")
  let arg ← args.get "property"
  let property ← context.node arg
  let statement ← Group.freshVar "stmt"
  let ref ← linkSubject config arg subject property statement
  restrictDatatype property datatype
    context.constraints.propertyMask
  restrictSubject config subject context.constraints.subjectMask
  let rank ← restrictRank statement context.constraints
  pure ⟨statement, ref, rank⟩

/- The predicate of a link of a claim. -/
def link
    (config : WikidataConfig)
    (claim : Claim)
    (l : Link) :
    GroupM Node :=
  match claim.property with
  | .fixed localName =>
      pure
        (.iri
          (Iri.inNamespace config.propertyNamespace
            (l.path ++ localName)))
  | .free property => do
      let predicate ← Group.freshVar l.variableName
      Group.triple property l.predicate predicate
      pure predicate

end Claim

end Wikidata

end StatementQuery

------------------------------------------------------------
-- Values
------------------------------------------------------------

namespace StatementQuery

namespace Wikidata

/- A node stands for an unknown value. -/
def isUnknown (n : Node) : Expr :=
  .or
    [.call "isBLANK" [.node n],
      .call "CONTAINS"
        [.call "STR" [.node n],
          .node (.string "/.well-known/genid/")]]

/- Keep unknown values out of a variable. -/
def requireKnown (value : Node) : GroupM Unit := do
  if value.isVar then Group.filter (.not (isUnknown value))

/- Require text in the language that is asked for. -/
def restrictLanguage
    (datatype : Datatype)
    (value : Node)
    (language : Option String) :
    GroupM Unit :=
  match language with
  | some language => do
      if datatype = .text && value.isVar then
        Group.filter (.langEq value language)
  | none => pure ()

/- The node of an argument, a whole quantity as an integer. -/
def integerNode
    (context : EmissionContext) :
    Arg → Except EntryError Node
| .value (.value (.quantity q)) =>
    if q.amount.isInteger then
      match q.amount.truncate64? with
      | some n => .ok (.integer n)
      | none =>
          .error (.failed (q.amount.render ++ " is out of range"))
    else context.node (.value (.value (.quantity q)))
| arg => context.node arg

/- Require a node to be other than a placeholder, if any. -/
def requireOther (n : Node) : Option Node → GroupM Unit
| some placeholder => Group.filter (.ne n placeholder)
| none => pure ()

/- Give a node a component other than a placeholder. -/
def componentTriple
    (deep : Node)
    (predicate : String)
    (placeholder : Option Node)
    (n : Node) :
    GroupM Unit := do
  Group.triple deep (ontology predicate) n
  requireOther n placeholder

/- Give a node any component other than a placeholder. -/
def anyComponent
    (deep : Node)
    (predicate : String)
    (placeholder : Option Node) :
    GroupM Unit := do
  let any ← Group.freshVar "any"
  componentTriple deep predicate placeholder any

/-
  One component of a deep value: optional when it is asked
  for, given when it is fixed, and missing when it is absent.
-/
def component
    (encode : Arg → Except EntryError Node)
    (deep : Node)
    (predicate : String)
    (placeholder : Option Node)
    (arg : Arg) :
    EmitM Unit :=
  match arg with
  | .var name =>
      liftM
        (Group.optional
          (componentTriple deep predicate placeholder (.var name)))
  | .value _ => do
      let value ← encode arg
      Group.triple deep (ontology predicate) value
  | .absent =>
      liftM
        (Group.notExists
          (anyComponent deep predicate placeholder))

end Wikidata

end StatementQuery
