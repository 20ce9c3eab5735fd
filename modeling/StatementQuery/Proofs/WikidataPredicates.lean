import Mathlib.Data.List.DropRight
import StatementQuery.Proofs.CutTexts
import StatementQuery.Proofs.WikidataMasks

/-
  The predicates of a property that a filter fixes.

  A branch links its subject to a statement, and the statement to
  what it says, by predicates that are named after the property.
  The name is what follows the last slash of the identifier that
  the store has for the property.  So it is the local name of the
  property where the namespace of entities ends in a slash, and
  otherwise the end of the namespace comes before it.

  Key definitions include:
    * `Wikidata.Auxiliary`
    * `Wikidata.Claims`
    * `Wikidata.entityTail`
    * `Wikidata.linkFor`
    * `Term.subjectNode?`

  Main declarations:
    * `Iri.lastSegment_inNamespace`
    * `Wikidata.Claim.started_start`
    * `Wikidata.claims_emit`
    * `Wikidata.claims_of_made`
    * `Wikidata.predicates_of_fixedProperty`
-/

------------------------------------------------------------
-- Last Segments
------------------------------------------------------------

namespace StatementQuery

namespace Iri

/-
  The last segment of an identifier in a namespace, if the local
  name has no slash: the end of the namespace and the local name.
-/
theorem lastSegment_inNamespace
    (base : String)
    {localName : String}
    (h : '/' ∉ localName.toList) :
    (inNamespace base localName).lastSegment =
      String.ofList (base.toList.rtakeWhile (· ≠ '/')) ++
        localName := by
  have hLocal :
      ∀ c ∈ localName.toList, decide (c = '/') = false := by
    intro c hc
    simpa using ne_of_mem_of_not_mem hc h
  have hTail :
      ∀ c ∈ base.toList.rtakeWhile (· ≠ '/') ++ localName.toList,
        decide (c = '/') = false := by
    intro c hc
    rcases List.mem_append.mp hc with hc | hc
    · simpa using List.mem_rtakeWhile_imp hc
    · exact hLocal c hc
  have hParts :
      base.toList.rdropWhile (· ≠ '/') ++
          base.toList.rtakeWhile (· ≠ '/') =
        base.toList :=
    List.rdropWhile_append_rtakeWhile
  unfold lastSegment inNamespace
  rw [String.toList_append]
  -- Either the namespace has a slash, or all of it is its end.
  cases hDrop : base.toList.rdropWhile (· ≠ '/') with
  | nil =>
      rw [hDrop, List.nil_append] at hParts
      rw [hParts] at hTail
      rw [Text.splitLast_eq_none_iff.mpr hTail, hParts,
        String.ofList_toList]
  | cons c cs =>
      have hNonempty :
          base.toList.rdropWhile (· ≠ '/') ≠ [] := by
        rw [hDrop]
        exact List.cons_ne_nil c cs
      have hLast :=
        List.rdropWhile_last_not (· ≠ '/') base.toList hNonempty
      have hSlash :
          (base.toList.rdropWhile (· ≠ '/')).getLast hNonempty =
            '/' := by
        simpa using hLast
      have hText :
          base.toList ++ localName.toList =
            (base.toList.rdropWhile (· ≠ '/')).dropLast ++
              '/' ::
                (base.toList.rtakeWhile (· ≠ '/') ++
                  localName.toList) := by
        conv_lhs => rw [← hParts]
        rw [← List.dropLast_append_getLast hNonempty, hSlash]
        simp
      rw [hText, Text.splitLast_append _ (by simp) hTail]
      simp [String.ofList_append]

end Iri

end StatementQuery

------------------------------------------------------------
-- Claims That Are Written
------------------------------------------------------------

namespace StatementQuery

namespace Wikidata

/-
  A pattern that belongs to no property: if it is a triple, its
  predicate is of the ontology.
-/
def Auxiliary (p : Pattern) : Prop :=
  ∀ s q o, p = .triple s q o → ∃ name, q = ontology name

/- A triple of the ontology. -/
theorem auxiliary_ontology
    (s o : Node)
    (name : String) :
    Auxiliary (.triple s (ontology name) o) := by
  rintro _ _ _ ⟨⟩
  exact ⟨name, rfl⟩

/- A pattern other than a triple. -/
theorem auxiliary_of_isTriple
    {p : Pattern}
    (h : p.isTriple = false) :
    Auxiliary p := by
  rintro _ _ _ rfl
  cases h

/- The triple from a subject to a statement. -/
def claimTriple
    (config : WikidataConfig)
    (name : String)
    (subject statement : Node) :
    Pattern :=
  .triple subject
    (.iri (Iri.inNamespace config.propertyNamespace name))
    statement

/-
  The triple from a statement to what it says.  That there is no
  value is said by a type of the statement.
-/
def Link.triple
    (config : WikidataConfig)
    (name : String)
    (statement object : Node)
    (l : Link) :
    Pattern :=
  let predicate : Node :=
    .iri (Iri.inNamespace config.propertyNamespace (l.path ++ name))
  match l with
  | .noValue => .triple statement (.iri Rdf.type) predicate
  | _ => .triple statement predicate object

/-
  Patterns link a subject to a statement and the statement to
  what it says, by predicates of one name; they have no other
  triples than these two and those of the ontology.
-/
def Claims
    (config : WikidataConfig)
    (name : String)
    (l : Link)
    (subject : Node)
    (patterns : List Pattern) :
    Prop :=
  ∃ lead between rest statement object,
    patterns =
        lead ++ claimTriple config name subject statement ::
          (between ++
            l.triple config name statement object :: rest) ∧
      ∀ p ∈ lead ++ between ++ rest, Auxiliary p

namespace Claims

variable {config : WikidataConfig} {name : String} {l : Link}
variable {subject : Node} {patterns : List Pattern}

/- Patterns may stand around them that belong to no property. -/
theorem around
    (h : Claims config name l subject patterns)
    {before after : List Pattern}
    (hBefore : ∀ p ∈ before, Auxiliary p)
    (hAfter : ∀ p ∈ after, Auxiliary p) :
    Claims config name l subject (before ++ patterns ++ after) := by
  rcases h with
    ⟨lead, between, rest, statement, object, rfl, hOthers⟩
  refine
    ⟨before ++ lead, between, rest ++ after, statement, object,
      by simp, ?_⟩
  intro p hp
  simp only [List.mem_append] at hp hOthers
  rcases hp with ((hp | hp) | hp) | hp | hp
  · exact hBefore p hp
  · exact hOthers p (Or.inl (Or.inl hp))
  · exact hOthers p (Or.inl (Or.inr hp))
  · exact hOthers p (Or.inr hp)
  · exact hAfter p hp

variable {R : β → List Pattern → Prop} {before : List Pattern}

/- Whatever is written next belongs to no property. -/
theorem emits_frame
    (h : Claims config name l subject before)
    {x : EmitM α}
    (hx : Group.Emits x fun _ w => ∀ p ∈ w, Auxiliary p)
    {f : α → EmitM β}
    (hf :
      ∀ a now, Claims config name l subject now →
        Group.Emits (f a) fun b w => R b (now ++ w)) :
    Group.Emits (x >>= f) fun b w => R b (before ++ w) := by
  apply Group.Emits.bind_onto
    (Q := fun _ => Claims config name l subject)
  · apply hx.mono
    intro _ w hw a ha
    have hNone : ∀ p ∈ ([] : List Pattern), Auxiliary p := by simp
    exact h.around hNone (hw a ha)
  · exact hf

end Claims

end Wikidata

end StatementQuery

------------------------------------------------------------
-- What Belongs To No Property
------------------------------------------------------------

namespace StatementQuery

namespace Wikidata

/- Nothing that is written belongs to a property. -/
abbrev WritesAuxiliary (x : GroupM α) : Prop :=
  Group.Writes x fun _ w => ∀ p ∈ w, Auxiliary p

namespace WritesAuxiliary

variable {x : GroupM α}

theorem pure
    (a : α) :
    WritesAuxiliary (Pure.pure a) :=
  Group.Writes.pure (by simp)

theorem bind
    {f : α → GroupM β}
    (hx : WritesAuxiliary x)
    (hf : ∀ a, WritesAuxiliary (f a)) :
    WritesAuxiliary (x >>= f) := by
  apply Group.Writes.bind hx
  intro a w hw
  apply (hf a).mono
  intro _ w' hw' p hp
  exact (List.mem_append.mp hp).elim (hw p) (hw' p)

theorem add
    {p : Pattern}
    (h : Auxiliary p) :
    WritesAuxiliary (Group.add p) := by
  apply (Group.Writes.add p).mono
  rintro _ w rfl p' hp
  cases List.mem_singleton.mp hp
  exact h

theorem freshVar
    (base : String) :
    WritesAuxiliary (Group.freshVar base) := by
  apply (Group.Writes.freshVar base).mono
  rintro _ w ⟨rfl, _⟩ p hp
  cases hp

theorem nested
    (body : GroupM α) :
    WritesAuxiliary (Group.nested body) :=
  fun _ => ⟨[], (List.append_nil _).symm, by simp⟩

theorem optional
    (body : GroupM α) :
    WritesAuxiliary (Group.optional body) := by
  unfold Group.optional
  apply (nested body).bind
  rintro ⟨inner, a⟩
  dsimp only
  split
  · exact (add (auxiliary_of_isTriple rfl)).bind fun _ => .pure _
  · exact .pure _

theorem notExists
    (body : GroupM α) :
    WritesAuxiliary (Group.notExists body) := by
  unfold Group.notExists
  apply (nested body).bind
  rintro ⟨inner, a⟩
  dsimp only
  split
  · exact (add (auxiliary_of_isTriple rfl)).bind fun _ => .pure _
  · exact .pure _

end WritesAuxiliary

theorem auxiliary_restrictDatatype
    (property : Node)
    (datatype : Option Datatype)
    (m : DatatypeMask) :
    WritesAuxiliary
      (Claim.restrictDatatype property datatype m) := by
  unfold Claim.restrictDatatype
  split
  · exact .add (auxiliary_ontology _ _ _)
  · split
    · apply (WritesAuxiliary.freshVar _).bind
      intro type
      apply (WritesAuxiliary.add (auxiliary_ontology _ _ _)).bind
      intro _
      unfold Group.values
      split <;> exact .add (auxiliary_of_isTriple rfl)
    · exact .pure _

theorem auxiliary_restrictSubject
    (config : WikidataConfig)
    (subject : Node)
    (m : DatatypeMask) :
    WritesAuxiliary (Claim.restrictSubject config subject m) := by
  unfold Claim.restrictSubject
  split
  · exact .add (auxiliary_of_isTriple rfl)
  · exact .pure _

theorem auxiliary_restrictRank
    (statement : Node)
    (f : Filter) :
    WritesAuxiliary (Claim.restrictRank statement f) := by
  unfold Claim.restrictRank
  split
  · exact .pure _
  · apply (WritesAuxiliary.freshVar _).bind
    intro rank
    apply (WritesAuxiliary.add (auxiliary_ontology _ _ _)).bind
    intro _
    dsimp only
    split
    · apply (WritesAuxiliary.add (auxiliary_of_isTriple rfl)).bind
      intro _
      exact .pure _
    · exact .pure _

theorem auxiliary_requireKnown
    (value : Node) :
    WritesAuxiliary (requireKnown value) := by
  unfold requireKnown
  split
  · exact .add (auxiliary_of_isTriple rfl)
  · exact .pure _

theorem auxiliary_restrictLanguage
    (d : Datatype)
    (value : Node)
    (language : Option String) :
    WritesAuxiliary (restrictLanguage d value language) := by
  unfold restrictLanguage
  split
  · split
    · exact .add (auxiliary_of_isTriple rfl)
    · exact .pure _
  · exact .pure _

/- A component is given by the ontology, or inside a group. -/
theorem auxiliary_component
    (encode : Arg → Except EntryError Node)
    (deep : Node)
    (predicate : String)
    (placeholder : Option Node)
    (arg : Arg) :
    Group.Emits (component encode deep predicate placeholder arg)
      fun _ w => ∀ p ∈ w, Auxiliary p := by
  cases arg with
  | var name => exact .lift (WritesAuxiliary.optional _)
  | value g =>
      apply Group.Emits.bind_except
      intro n _
      exact .lift (WritesAuxiliary.add (auxiliary_ontology _ _ _))
  | absent => exact .lift (WritesAuxiliary.notExists _)

end Wikidata

end StatementQuery

------------------------------------------------------------
-- Emissions For A Fixed Property
------------------------------------------------------------

namespace StatementQuery

namespace Wikidata

/- What follows the last slash of the namespace of entities. -/
def entityTail (config : WikidataConfig) : String :=
  String.ofList
    (config.entityNamespace.toList.rtakeWhile (· ≠ '/'))

/- It is empty if the namespace is, or ends in a slash. -/
theorem entityTail_eq_empty_iff
    (config : WikidataConfig) :
    entityTail config = "" ↔
      config.entityNamespace = "" ∨
        config.entityNamespace.toList.getLast? = some '/' := by
  have hTail :
      entityTail config = "" ↔
        config.entityNamespace.toList.rtakeWhile (· ≠ '/') = [] := by
    rw [entityTail, ← String.ofList_nil, String.ofList_inj]
  rw [hTail, List.rtakeWhile_eq_nil_iff, ← String.toList_eq_nil_iff]
  rcases config.entityNamespace.toList.eq_nil_or_concat with
    hEmpty | ⟨cs, c, hEnd⟩
  · simp [hEmpty]
  · simp [hEnd]

/- The link of the statements that an entry serves. -/
def linkFor : SnakKind → Option Datatype → Link
| .noValue, _ => .noValue
| .value, some .quantity => .deepValue
| .value, some .time => .deepValue
| _, _ => .value

/-
  An emission for a property that is fixed, with the node of its
  subject.
-/
structure FixedCall
    (config : WikidataConfig)
    (localName : String)
    (context : EmissionContext)
    (args : Args)
    (subject : Node) :
    Prop where
  codec : context.codec = codec config
  noSlash : '/' ∉ localName.toList
  property :
    args.lookup "property" =
      some (.value (.value (clientEntity .property localName)))
  subject :
    ∀ arg, args.lookup "subject" = some arg →
      context.node arg = .ok subject

variable {config : WikidataConfig} {localName : String}
variable {context : EmissionContext} {args : Args} {subject : Node}

/- Linking a subject by the property writes one triple. -/
theorem Claim.claimed_linkSubject
    (hLocal : '/' ∉ localName.toList)
    (subject statement : Node) :
    Group.Emits
      (linkSubject config
        (.value (.value (clientEntity .property localName))) subject
        (.iri (Iri.inNamespace config.entityNamespace localName))
        statement)
      fun ref w =>
        ref = .fixed (entityTail config ++ localName) ∧
          w =
            [claimTriple config (entityTail config ++ localName)
              subject statement] := by
  unfold linkSubject
  dsimp only [clientEntity]
  rw [Iri.lastSegment_inNamespace _ hLocal]
  apply (Group.Emits.lift (Group.Writes.triple _ _ _)).bind
  rintro _ _ rfl
  exact .pure ⟨rfl, rfl⟩

/- The node of a property is its identifier in the store. -/
theorem node_clientEntity
    (hCodec : context.codec = codec config)
    (kind : EntityKind)
    (localName : String) :
    context.node (.value (.value (clientEntity kind localName))) =
      .ok
        (.iri (Iri.inNamespace config.entityNamespace localName)) := by
  simp only [EmissionContext.node, Codec.encode?, hCodec,
    clientEntity, Codec.encodeValue, codec, Iri.rebase_inNamespace]

/- Patterns that start a claim of a statement by a name. -/
def Started
    (config : WikidataConfig)
    (name : String)
    (subject statement : Node)
    (patterns : List Pattern) :
    Prop :=
  ∃ more,
    patterns = claimTriple config name subject statement :: more ∧
      ∀ p ∈ more, Auxiliary p

/- The start of a claim writes the triple of the claim. -/
theorem Claim.started_start
    (h : FixedCall config localName context args subject)
    (datatype : Option Datatype) :
    Group.Emits (start config datatype context args)
      fun claim w =>
        claim.property = .fixed (entityTail config ++ localName) ∧
          Started config (entityTail config ++ localName) subject
            claim.statement w := by
  unfold start
  apply Group.Emits.bind_get
  intro subjectArg hSubjectArg
  rw [h.subject subjectArg hSubjectArg]
  apply Group.Emits.bind_except
  rintro _ ⟨⟩
  apply Group.Emits.bind_get
  intro propertyArg hPropertyArg
  cases Option.some.inj (h.property.symm.trans hPropertyArg)
  rw [node_clientEntity h.codec]
  apply Group.Emits.bind_except
  rintro _ ⟨⟩
  apply (Group.Emits.lift (Group.Writes.freshVar _)).bind
  rintro statement _ ⟨rfl, _⟩
  apply (claimed_linkSubject h.noSlash subject statement).bind
  rintro _ _ ⟨rfl, rfl⟩
  apply (Group.Emits.lift (auxiliary_restrictDatatype _ _ _)).bind
  intro _ w₁ hDatatype
  apply (Group.Emits.lift (auxiliary_restrictSubject _ _ _)).bind
  intro _ w₂ hSubject
  apply (Group.Emits.lift (auxiliary_restrictRank _ _)).bind
  intro rank w₃ hRank
  apply Group.Emits.pure
  refine ⟨rfl, w₁ ++ (w₂ ++ w₃), by simp, ?_⟩
  intro p hp
  simp only [List.mem_append] at hp
  rcases hp with hp | hp | hp
  · exact hDatatype p hp
  · exact hSubject p hp
  · exact hRank p hp

/- A link of a claim by a name is named. -/
theorem Claim.writes_link_of_fixed
    {claim : Claim}
    {name : String}
    (h : claim.property = .fixed name)
    (config : WikidataConfig)
    (l : Link) :
    Group.Writes (claim.link config l)
      fun n w =>
        w = [] ∧
          n =
            .iri
              (Iri.inNamespace config.propertyNamespace
                (l.path ++ name)) := by
  unfold link
  rw [h]
  exact .pure ⟨rfl, rfl⟩

/- A deep value is linked by the name. -/
theorem writes_deepValue_of_fixed
    {claim : Claim}
    {name : String}
    (h : claim.property = .fixed name)
    (config : WikidataConfig)
    (base : String) :
    Group.Writes (deepValue config claim base)
      fun deep w =>
        w =
          [Link.deepValue.triple config name claim.statement
            deep] := by
  unfold deepValue
  apply (Claim.writes_link_of_fixed h config _).bind
  rintro _ _ ⟨rfl, rfl⟩
  apply (Group.Writes.freshVar _).bind
  rintro deep _ ⟨rfl, _⟩
  apply (Group.Writes.triple _ _ _).bind
  rintro _ _ rfl
  exact .pure rfl

namespace Started

variable {name : String} {claim : Claim} {before : List Pattern}
variable {R : β → List Pattern → Prop}

/- Naming a link writes nothing. -/
theorem emits_link
    (hProperty : claim.property = .fixed name)
    {l : Link}
    {f : Node → EmitM β}
    (hf :
      Group.Emits
        (f
          (.iri
            (Iri.inNamespace config.propertyNamespace
              (l.path ++ name))))
        fun b w => R b (before ++ w)) :
    Group.Emits ((liftM (claim.link config l) : EmitM Node) >>= f)
      fun b w => R b (before ++ w) := by
  apply (Group.Emits.lift
    (Claim.writes_link_of_fixed hProperty config l)).bind
  rintro _ _ ⟨rfl, rfl⟩
  exact hf

/- With the triple of a link, the claim is made. -/
theorem emits_triple
    {statement : Node}
    (h : Started config name subject statement before)
    {l : Link}
    {x : GroupM α}
    (hx :
      Group.Writes x fun _ w =>
        ∃ object, w = [l.triple config name statement object])
    {f : α → EmitM β}
    (hf :
      ∀ a now, Claims config name l subject now →
        Group.Emits (f a) fun b w => R b (now ++ w)) :
    Group.Emits ((liftM x : EmitM α) >>= f)
      fun b w => R b (before ++ w) := by
  apply Group.Emits.bind_onto
    (Q := fun _ => Claims config name l subject)
  · apply Group.Emits.lift
    apply hx.mono
    rintro _ _ ⟨object, rfl⟩
    rcases h with ⟨more, rfl, hMore⟩
    exact ⟨[], more, [], statement, object, rfl, by simpa using hMore⟩
  · exact hf

end Started

/- A simple value is claimed by its value. -/
theorem claims_emitSimple
    (h : FixedCall config localName context args subject)
    (d : Datatype) :
    Group.Emits (emitSimple config d context args)
      fun _ =>
        Claims config (entityTail config ++ localName) .value
          subject := by
  unfold emitSimple
  apply (Claim.started_start h (some d)).bind
  rintro claim w ⟨hProperty, hStarted⟩
  apply Group.Emits.bind_get
  intro arg _
  apply Group.Emits.bind_except
  intro value _
  apply Started.emits_link hProperty
  apply hStarted.emits_triple (l := .value)
    ((Group.Writes.triple _ _ value).mono
      fun _ _ hw => ⟨value, hw⟩)
  intro _ _ hClaims
  apply hClaims.emits_frame (.lift (auxiliary_requireKnown value))
  intro _ _ hClaims
  apply hClaims.emits_frame
    (.lift (auxiliary_restrictLanguage d value _))
  intro _ _ hClaims
  apply Group.Emits.pure
  simpa using hClaims

/- A quantity is claimed by its deep value. -/
theorem claims_emitQuantity
    (h : FixedCall config localName context args subject) :
    Group.Emits (emitQuantity config context args)
      fun _ =>
        Claims config (entityTail config ++ localName) .deepValue
          subject := by
  unfold emitQuantity
  apply (Claim.started_start h (some .quantity)).bind
  rintro claim w ⟨hProperty, hStarted⟩
  apply hStarted.emits_triple (l := .deepValue)
    ((writes_deepValue_of_fixed hProperty config _).mono
      fun deep _ hw => ⟨deep, hw⟩)
  intro deep _ hClaims
  apply Group.Emits.bind_get
  intro arg _
  apply Group.Emits.bind_except
  intro amount _
  apply hClaims.emits_frame
    (.lift (WritesAuxiliary.add (auxiliary_ontology _ _ _)))
  intro _ _ hClaims
  apply Group.Emits.bind_get
  intro unit _
  apply hClaims.emits_frame (auxiliary_component _ _ _ _ unit)
  intro _ _ hClaims
  apply Group.Emits.bind_get
  intro lower _
  apply hClaims.emits_frame (auxiliary_component _ _ _ _ lower)
  intro _ _ hClaims
  apply Group.Emits.bind_get
  intro upper _
  apply hClaims.emits_frame (auxiliary_component _ _ _ _ upper)
  intro _ _ hClaims
  apply Group.Emits.pure
  simpa using hClaims

/- A time is claimed by its deep value. -/
theorem claims_emitTime
    (h : FixedCall config localName context args subject) :
    Group.Emits (emitTime config context args)
      fun _ =>
        Claims config (entityTail config ++ localName) .deepValue
          subject := by
  unfold emitTime
  apply (Claim.started_start h (some .time)).bind
  rintro claim w ⟨hProperty, hStarted⟩
  apply hStarted.emits_triple (l := .deepValue)
    ((writes_deepValue_of_fixed hProperty config _).mono
      fun deep _ hw => ⟨deep, hw⟩)
  intro deep _ hClaims
  apply Group.Emits.bind_get
  intro arg _
  apply Group.Emits.bind_except
  intro instant _
  apply hClaims.emits_frame
    (.lift (WritesAuxiliary.add (auxiliary_ontology _ _ _)))
  intro _ _ hClaims
  apply Group.Emits.bind_get
  intro precision _
  apply hClaims.emits_frame (auxiliary_component _ _ _ _ precision)
  intro _ _ hClaims
  apply Group.Emits.bind_get
  intro timezone _
  apply hClaims.emits_frame (auxiliary_component _ _ _ _ timezone)
  intro _ _ hClaims
  apply Group.Emits.bind_get
  intro calendar _
  apply hClaims.emits_frame (auxiliary_component _ _ _ _ calendar)
  intro _ _ hClaims
  apply Group.Emits.pure
  simpa using hClaims

/- An unknown value is claimed by its placeholder. -/
theorem claims_emitSomeValue
    (h : FixedCall config localName context args subject) :
    Group.Emits (emitSomeValue config context args)
      fun _ =>
        Claims config (entityTail config ++ localName) .value
          subject := by
  unfold emitSomeValue
  apply (Claim.started_start h none).bind
  rintro claim w ⟨hProperty, hStarted⟩
  apply Started.emits_link hProperty
  apply (Group.Emits.lift (Group.Writes.freshVar _)).bind
  rintro placeholder _ ⟨rfl, _⟩
  apply hStarted.emits_triple (l := .value)
    ((Group.Writes.triple _ _ placeholder).mono
      fun _ _ hw => ⟨placeholder, hw⟩)
  intro _ _ hClaims
  apply hClaims.emits_frame
    (.lift (WritesAuxiliary.add (auxiliary_of_isTriple rfl)))
  intro _ _ hClaims
  apply Group.Emits.pure
  simpa using hClaims

/- A missing value is claimed by the type of the statement. -/
theorem claims_emitNoValue
    (h : FixedCall config localName context args subject) :
    Group.Emits (emitNoValue config context args)
      fun _ =>
        Claims config (entityTail config ++ localName) .noValue
          subject := by
  unfold emitNoValue
  apply (Claim.started_start h none).bind
  rintro claim w ⟨hProperty, hStarted⟩
  apply Started.emits_link hProperty
  apply hStarted.emits_triple (l := .noValue)
    ((Group.Writes.triple _ _ _).mono
      fun _ _ hw => ⟨claim.statement, hw⟩)
  intro _ _ hClaims
  apply Group.Emits.pure
  simpa using hClaims

/- The emission of an entry claims statements by its link. -/
theorem claims_emit
    {e : Entry}
    (he : e ∈ entries config)
    (h : FixedCall config localName context args subject) :
    Group.Emits (e.emit context args)
      fun _ =>
        Claims config (entityTail config ++ localName)
          (linkFor e.snakKind e.datatype) subject := by
  rcases mem_entries he with
    ⟨d, hd, id, rfl⟩ | rfl | rfl | rfl | rfl
  · have hLink :
        ∀ d ∈ simpleDatatypes, linkFor .value (some d) = .value := by
      decide
    have hClaims := claims_emitSimple h d
    rw [← hLink d hd] at hClaims
    exact hClaims
  · exact claims_emitQuantity h
  · exact claims_emitTime h
  · exact claims_emitSomeValue h
  · exact claims_emitNoValue h

end Wikidata

end StatementQuery

------------------------------------------------------------
-- Branches For A Fixed Property
------------------------------------------------------------

namespace StatementQuery

/- The node that a store has for the subject of a statement. -/
def Term.subjectNode? (codec : Codec) (t : Term) : Option Node :=
  match t.args? with
  | some (some (.var v) :: _) => some (.var v.name)
  | some (some (.ground g) :: _) => codec.encode? g
  | _ => none

namespace Wikidata

variable {config : WikidataConfig} {options : Options}
variable {f : Filter} {index : Nat} {a : Compile.Addition}
variable {localName : String}

/- The targets of a filter for one property are of that property. -/
theorem property_of_mem_all
    {g : Ground}
    (h : f.property = .value g)
    {codec : Codec}
    {t : Target}
    (ht : t ∈ Target.all codec f) :
    t.property = .ground g := by
  simp only [Target.all, h, Fingerprint.alternatives,
    List.mem_flatMap, List.mem_map, List.mem_singleton] at ht
  rcases ht with ⟨s, _, p, rfl, v, _, rfl⟩
  rfl

/-
  What stands for the subject in a match is the subject of the
  template, and has a node.
-/
theorem exists_subjectNode
    {k : SnakKind}
    {args : List (Option Term)}
    (hp : (patternOf k args).WellFormed)
    {goal : Term}
    {used : List String}
    {found : PatternMatch}
    {ρ : String → String}
    {κ : Kinding}
    {u : Term}
    (hMatches :
      Entry.Matches (patternOf k args) goal used found ρ κ u)
    {t : Target}
    (hSlot : Target.IsSlot Target.subjectName .entity t.subject)
    (hBinds : Binds found.bindings ρ t)
    (context : EmissionContext) :
    ∃ subject,
      found.template.subjectNode? context.codec = some subject ∧
        ∀ arg, found.args.lookup Target.subjectName = some arg →
          context.node arg = .ok subject := by
  have hLookup :=
    hMatches.lookup subjectVariable
      (mem_occurrences_patternOf.mpr (Or.inl rfl))
  rcases exists_subject_template hp hMatches hBinds.subject with
    ⟨b, rest, hArgs, hb⟩
  rw [hBinds.subject] at hLookup
  rcases hSlot with hOpen | ⟨g, hFixed, hKind⟩
  · rw [hOpen] at hb hLookup
    have hVar : b = .var subjectVariable := by
      cases b with
      | var w => exact hb
      | _ => cases hb
    subst hVar
    refine ⟨.var Target.subjectName, ?_, ?_⟩
    · simp [Term.subjectNode?, hArgs, subjectVariable]
    · intro arg hArg
      cases Option.some.inj (hLookup.symm.trans hArg)
      rfl
  · rcases Ground.exists_entity_of_kind_le hKind with ⟨e, rfl⟩
    rw [hFixed] at hb hLookup
    have hGround : b = .ground (.value (.entity e)) := by
      cases b with
      | ground g' =>
          have hSame : g'.same (.value (.entity e)) = true :=
            (Ground.same_iff _ _).mpr (Term.ground.inj hb)
          rw [Ground.eq_of_same_entity hSame]
      | _ => cases hb
    subst hGround
    refine ⟨.iri (context.codec.normalizeEntity e.iri), ?_, ?_⟩
    · simp [Term.subjectNode?, hArgs, Codec.encode?,
        Codec.encodeValue]
    · intro arg hArg
      cases Option.some.inj (hLookup.symm.trans hArg)
      simp [EmissionContext.node, Codec.encode?,
        Codec.encodeValue]

/-
  A branch for a property claims statements of the subject of its
  template, by the link of its entry.
-/
theorem claims_of_made
    (hChecked : f.Checked)
    (hProperty :
      f.property =
        .value (.value (clientEntity .property localName)))
    (hLocal : '/' ∉ localName.toList)
    (hMade : Compile.Made (taskOf config options f) index a)
    (hMem :
      (a.target, a.entry) ∈
        Target.all (codec config) f ×ˢ entries config) :
    ∃ subject,
      a.found.template.subjectNode? (codec config) =
          some subject ∧
        Claims config (entityTail config ++ localName)
          (linkFor a.entry.snakKind a.entry.datatype) subject
          a.branch := by
  rcases List.mem_product.mp hMem with ⟨ht, he⟩
  have hTyped := typed_of_excludes? hChecked ht hMade.admitted
  rcases exists_typed hTyped with ⟨_, hSlots⟩
  rcases exists_matched hChecked hMade hMem with
    ⟨args, goal, snak, ρ, κ, u, hMatched⟩
  let context : EmissionContext := ⟨codec config, f, options⟩
  rcases exists_subjectNode hMatched.formed hMatched.matching
      hSlots.subject hMatched.parts context with
    ⟨subject, hNode, hSubject⟩
  refine ⟨subject, hNode, ?_⟩
  have hCall :
      FixedCall config localName context a.found.args subject := by
    refine ⟨rfl, hLocal, ?_, hSubject⟩
    have hLookup :=
      hMatched.matching.lookup propertyVariable
        (mem_occurrences_patternOf.mpr (Or.inr (Or.inl rfl)))
    rw [hMatched.parts.property,
      property_of_mem_all hProperty ht] at hLookup
    exact hLookup
  rcases hMade.exists_own (claims_emit he hCall) with
    ⟨lead, written, rest, hBranch, hClaims, hLead, hRest⟩
  rw [hBranch]
  exact
    hClaims.around
      (fun p hp => auxiliary_of_isTriple (hLead p hp))
      (fun p hp => auxiliary_of_isTriple (hRest p hp))

/-
  Each branch of a compilation for one property links the subject
  of its plan to a statement, and the statement to what it says,
  by predicates that are named by the end of the namespace of
  entities and the local name of the property, and has no other
  triples of a property.  The names are the local name exactly if
  the namespace of entities is empty or ends in a slash.
-/
theorem predicates_of_fixedProperty
    {draft f : Filter}
    (hFilter : draft.build = .ok f)
    {localName : String}
    (hProperty :
      draft.property =
        .value (.value (clientEntity .property localName)))
    (hLocal : '/' ∉ localName.toList)
    (config : WikidataConfig)
    (options : Options) :
    ∃ m q,
      mapping config = .ok m ∧
        (compile m options f).result = .ok q ∧
        (∀ (k : Nat) plan, q.plans[k]? = some plan →
          ∃ e ∈ m.entries, ∃ branches branch subject,
            e.id = plan.entryId ∧
              q.query.patterns = [.union branches] ∧
              branches[k]? = some branch ∧
              plan.template.subjectNode? m.codec = some subject ∧
              Claims config (entityTail config ++ localName)
                (linkFor e.snakKind e.datatype) subject branch) ∧
        (entityTail config ++ localName = localName ↔
          config.entityNamespace = "" ∨
            config.entityNamespace.toList.getLast? = some '/') := by
  have hChecked := Filter.checked_of_build hFilter
  rcases exists_compiled config options hChecked with
    ⟨q, hCompile⟩
  have hKept :
      f.property =
        .value (.value (clientEntity .property localName)) := by
    unfold Filter.build at hFilter
    split at hFilter
    · cases hFilter
    · cases hFilter
      simp [Filter.normalize, hProperty, Fingerprint.normalize]
  refine ⟨_, q, mapping_eq config, hCompile, ?_, ?_⟩
  · intro k plan hPlan
    rcases Compile.exists_additions hCompile with
      ⟨added, hPlans, hPatterns, _, hMade, hKeys⟩
    rw [hPlans, List.getElem?_map] at hPlan
    rcases Option.map_eq_some_iff.mp hPlan with ⟨a, ha, rfl⟩
    have hIn : a ∈ added := List.mem_of_getElem? ha
    have hMem := hKeys.subset (List.mem_map_of_mem hIn)
    rcases claims_of_made hChecked hKept hLocal (hMade k a ha) hMem
      with ⟨subject, hNode, hClaims⟩
    refine
      ⟨a.entry, (List.mem_product.mp hMem).2,
        added.map Compile.Addition.branch, a.branch, subject, rfl,
        ?_, ?_, hNode, hClaims⟩
    · rw [hPatterns]
      cases added with
      | nil => cases hIn
      | cons _ _ => rfl
    · rw [List.getElem?_map, ha]
      rfl
  · rw [← entityTail_eq_empty_iff]
    constructor
    · intro h
      simpa using h
    · intro h
      simp [h]

/- Statements that an item has no value of a property. -/
def missingClass : Filter where
  subject := .value (.value (clientEntity .item "Q42"))
  property := .value (.value (clientEntity .property "P31"))
  snakMask := SnakMask.of .noValue

/- A store whose namespace of entities does not end in a slash. -/
def hashStore : WikidataConfig where
  entityNamespace := "http://example.org/entity#"

theorem predicates_of_fixedProperty_hashStore :
    ∃ m q branches branch,
      mapping hashStore = .ok m ∧
        (compile m {} missingClass).result = .ok q ∧
        q.query.patterns = [.union branches] ∧
        branches[0]? = some branch ∧
        Claims hashStore "entity#P31" .noValue
          (.iri ⟨"http://example.org/entity#Q42"⟩) branch ∧
        entityTail hashStore ++ "P31" ≠ "P31" := by
  have hPlans :
      ((compile ⟨entries hashStore, codec hashStore⟩ {}
          missingClass).result.toOption.map fun q =>
        q.plans.map fun plan =>
          (plan.entryId,
            plan.template.subjectNode? (codec hashStore))) =
        some
          [(10,
            some (.iri ⟨"http://example.org/entity#Q42"⟩))] := by
    decide +kernel
  have hLinks :
      (entries hashStore).all (fun e =>
        e.id != 10 ||
          linkFor e.snakKind e.datatype == .noValue) = true := by
    decide +kernel
  have hName : entityTail hashStore ++ "P31" = "entity#P31" := by
    decide +kernel
  have hFilter : missingClass.build = .ok missingClass := rfl
  rcases predicates_of_fixedProperty hFilter rfl (by decide)
      hashStore {} with
    ⟨m, q, hMapping, hCompile, hAll, hIff⟩
  cases Except.ok.inj ((mapping_eq hashStore).symm.trans hMapping)
  rw [hCompile] at hPlans
  rcases List.map_eq_singleton_iff.mp (Option.some.inj hPlans) with
    ⟨plan, hOne, hPlan⟩
  rcases Prod.mk.inj hPlan with ⟨hId, hSubject⟩
  have hPlanAt : q.plans[0]? = some plan := by
    rw [hOne]
    rfl
  rcases hAll 0 plan hPlanAt with
    ⟨e, he, branches, branch, subject, heId, hPatterns, hBranch,
      hNode, hClaims⟩
  cases Option.some.inj (hSubject.symm.trans hNode)
  have hLink : linkFor e.snakKind e.datatype = .noValue := by
    have hEither := List.all_eq_true.mp hLinks e he
    simpa [heId, hId] using hEither
  rw [hLink, hName] at hClaims
  refine
    ⟨_, q, branches, branch, hMapping, hCompile, hPatterns,
      hBranch, hClaims, ?_⟩
  rw [Ne, hIff]
  decide

end Wikidata

end StatementQuery
