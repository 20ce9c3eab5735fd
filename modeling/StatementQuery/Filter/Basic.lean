import StatementQuery.Filter.Fingerprint
import StatementQuery.Filter.Mask
import StatementQuery.Ground.Printer

/-
  Filters: which statements a client asks for.

  A filter constrains the subject, the property and the value
  of statements, and narrows them further by masks.  Building
  a filter checks its fingerprints and brings them into normal
  form.

  Key definitions include:
    * `Filter`
    * `FilterError`
    * `Filter.build`
    * `Filter.isEmpty`
-/

------------------------------------------------------------
-- Filters
------------------------------------------------------------

namespace StatementQuery

/- What a client asks for. -/
structure Filter where
  subject : Fingerprint := .full
  property : Fingerprint := .full
  value : Fingerprint := .full
  snakMask : SnakMask := Mask.all 3
  subjectMask : DatatypeMask := DatatypeMask.entities
  propertyMask : DatatypeMask := Mask.all 9
  valueMask : DatatypeMask := Mask.all 9
  rankMask : RankMask := Mask.all 3
  language : Option String := none
  annotated : Bool := false

namespace Filter

/- The filter that every statement passes. -/
def unrestricted : Filter :=
  {}

/- Whether no statement can pass a filter. -/
def isEmpty (f : Filter) : Bool :=
  Mask.isEmpty f.snakMask || Mask.isEmpty f.rankMask ||
    !Mask.intersects f.subjectMask DatatypeMask.entities ||
    Mask.isEmpty f.propertyMask || Mask.isEmpty f.valueMask ||
    f.subject.isEmpty || f.property.isEmpty ||
    f.value.isEmpty ||
    (!f.value.isFull &&
      !Mask.contains f.snakMask (SnakMask.of .value))

end Filter

end StatementQuery

------------------------------------------------------------
-- Building Filters
------------------------------------------------------------

namespace StatementQuery

/- Why a filter cannot be built. -/
inductive FilterError where
| subject (g : Ground)
| property (g : Ground)
| value (g : Ground)
| snak (g : Ground)
| propertySnaks
| emptyLanguage

namespace FilterError

/- The text of an error. -/
def message : FilterError → String
| .subject g =>
    "subject constraint must be an entity, got " ++ g.render
| .property g =>
    "property constraint must be a property, got " ++ g.render
| .value g =>
    "value constraint must be a value, got " ++ g.render
| .snak g => "snak constraint must be a snak, got " ++ g.render
| .propertySnaks =>
    "the property constraint cannot be a set of snaks"
| .emptyLanguage => "language tag cannot be empty"

end FilterError

namespace Filter

/- What is wrong with a list of snaks. -/
def snaksError? (gs : List Ground) : Option FilterError :=
  (gs.find? fun g => !g.kind.isSnak).map .snak

/- What is wrong with a leaf on the subject. -/
def subjectError? : Fingerprint → Option FilterError
| .value g => if g.kind.isEntity then none else some (.subject g)
| .snaks gs => snaksError? gs
| _ => none

/- What is wrong with a leaf on the property. -/
def propertyError? : Fingerprint → Option FilterError
| .value g =>
    if g.kind = .property then none else some (.property g)
| .snaks _ => some .propertySnaks
| _ => none

/- What is wrong with a leaf on the value. -/
def valueError? : Fingerprint → Option FilterError
| .value g => if g.kind ≤ .value then none else some (.value g)
| .snaks gs => snaksError? gs
| _ => none

/- What is wrong with a filter, the first thing first. -/
def error? (f : Filter) : Option FilterError :=
  (f.subject.leaves.findSome? subjectError?).or <|
    (f.property.leaves.findSome? propertyError?).or <|
      (f.value.leaves.findSome? valueError?).or <|
        if f.language = some "" then some .emptyLanguage
        else none

/- Whether a mask admits the datatype of a ground term. -/
def within (m : DatatypeMask) (g : Ground) : Bool :=
  g.datatype?.any m.admits

/- Bring the fingerprints of a filter into normal form. -/
def normalize (f : Filter) : Filter :=
  { f with
    subject := (f.subject.retain (within f.subjectMask)).normalize
    property := f.property.normalize
    value := (f.value.retain (within f.valueMask)).normalize }

/- Check a filter and bring it into normal form. -/
def build (f : Filter) : Except FilterError Filter :=
  match f.error? with
  | some e => .error e
  | none => .ok f.normalize

end Filter

end StatementQuery
