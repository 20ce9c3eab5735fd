import StatementQuery.Proofs.Construction
import StatementQuery.Wikidata.Mapping

/-
  Emissions that always end in a branch.

  Whatever is added to a group, no name that is in use is
  given up.  An emission gives up only where an argument is
  missing or cannot be written as a node; where all of them
  can, it succeeds on every group.

  Key definitions include:
    * `Group.Grows`
    * `Group.Succeeds`
    * `Arg.Given`
    * `Arg.Optional`

  Main declarations:
    * `Wikidata.Claim.succeeds_start`
    * `Wikidata.succeeds_emitSimple`
    * `Wikidata.succeeds_emitQuantity`
    * `Wikidata.succeeds_emitTime`
    * `Wikidata.succeeds_emitSomeValue`
    * `Wikidata.succeeds_emitNoValue`
-/

------------------------------------------------------------
-- Names In Use
------------------------------------------------------------

namespace StatementQuery

namespace NamePool

/- Reserving a name keeps the names in use. -/
theorem used_subset_reserve
    (pool : NamePool)
    (name : String) :
    pool.used ⊆ (pool.reserve name).used := by
  unfold reserve
  split
  next => exact fun n hn => hn
  next => exact fun n hn => List.mem_cons_of_mem _ hn

/- Reserving names keeps the names in use. -/
theorem used_subset_reserveAll
    (pool : NamePool)
    (names : List String) :
    pool.used ⊆ (pool.reserveAll names).used := by
  induction names generalizing pool with
  | nil => exact fun n hn => hn
  | cons name names ih =>
      intro n hn
      exact ih (pool.reserve name)
        (used_subset_reserve pool name hn)

/- A name that is reserved is in use. -/
theorem mem_used_reserve
    (pool : NamePool)
    (name : String) :
    name ∈ (pool.reserve name).used := by
  unfold reserve
  split
  next hUsed => simpa [isUsed] using hUsed
  next => exact List.mem_cons_self

/- Names that are reserved are in use. -/
theorem mem_used_reserveAll
    (pool : NamePool)
    {names : List String}
    {name : String}
    (h : name ∈ names) :
    name ∈ (pool.reserveAll names).used := by
  induction names generalizing pool with
  | nil => cases h
  | cons first names ih =>
      rcases List.mem_cons.mp h with rfl | h
      · exact used_subset_reserveAll _ names
          (mem_used_reserve pool name)
      · exact ih (pool.reserve first) h

end NamePool

namespace Group

/- A computation keeps the names in use. -/
def Grows (x : GroupM α) : Prop :=
  ∀ g, g.pool.used ⊆ (x.run g).2.pool.used

/- A computation returns a result, and keeps the names in use. -/
def Succeeds (x : EmitM α) : Prop :=
  ∀ g, (∃ a, (x.run.run g).1 = .ok a) ∧
    g.pool.used ⊆ (x.run.run g).2.pool.used

namespace Grows

theorem pure
    (a : α) :
    Grows (Pure.pure a : GroupM α) :=
  fun _ _ hn => hn

theorem bind
    {x : GroupM α}
    {f : α → GroupM β}
    (hx : Grows x)
    (hf : ∀ a, Grows (f a)) :
    Grows (x >>= f) := by
  intro g n hn
  exact hf (x.run g).1 (x.run g).2 (hx g hn)

theorem add
    (p : Pattern) :
    Grows (Group.add p) :=
  fun _ _ hn => hn

theorem triple
    (s p o : Node) :
    Grows (Group.triple s p o) :=
  add (.triple s p o)

theorem filter
    (e : Expr) :
    Grows (Group.filter e) :=
  add (.filter e)

theorem values
    (target : Node)
    (nodes : List Node) :
    Grows (Group.values target nodes) := by
  unfold Group.values
  split
  next => exact add _
  next => exact add _

theorem bindAs
    (e : Expr)
    (target : Node) :
    Grows (Group.bindAs e target) := by
  unfold Group.bindAs
  split
  next => exact add _
  next => exact pure ()

theorem freshVar
    (base : String) :
    Grows (Group.freshVar base) := by
  intro g n hn
  exact NamePool.used_subset_reserve g.pool _ hn

theorem nested
    {body : GroupM α}
    (h : Grows body) :
    Grows (Group.nested body) := by
  intro g n hn
  exact h { pool := g.pool } hn

theorem optional
    {body : GroupM α}
    (h : Grows body) :
    Grows (Group.optional body) := by
  unfold Group.optional
  apply bind (nested h)
  rintro ⟨patterns, a⟩
  dsimp only
  split
  next => exact bind (add _) fun _ => pure a
  next => exact pure a

theorem notExists
    {body : GroupM α}
    (h : Grows body) :
    Grows (Group.notExists body) := by
  unfold Group.notExists
  apply bind (nested h)
  rintro ⟨patterns, a⟩
  dsimp only
  split
  next => exact bind (add _) fun _ => pure a
  next => exact pure a

end Grows

namespace Succeeds

theorem pure
    (a : α) :
    Succeeds (Pure.pure a : EmitM α) :=
  fun _ => ⟨⟨a, rfl⟩, fun _ hn => hn⟩

theorem bind
    {x : EmitM α}
    {f : α → EmitM β}
    (hx : Succeeds x)
    (hf : ∀ a, Succeeds (f a)) :
    Succeeds (x >>= f) := by
  intro g
  have hRun :
      (x >>= f).run.run g =
        (ExceptT.bindCont f (x.run.run g).1).run
          (x.run.run g).2 := rfl
  rcases hx g with ⟨⟨a, ha⟩, hNames⟩
  rcases hf a (x.run.run g).2 with ⟨hResult, hNames'⟩
  rw [hRun, ha]
  exact ⟨hResult, fun n hn => hNames' (hNames hn)⟩

/- What is added to a group cannot fail. -/
theorem lift
    {x : GroupM α}
    (h : Grows x) :
    Succeeds (liftM x : EmitM α) :=
  fun g => ⟨⟨(x.run g).1, rfl⟩, h g⟩

/- A value that is there is used. -/
theorem bind_ok
    {x : Except EntryError α}
    {a : α}
    {f : α → EmitM β}
    (hx : x = .ok a)
    (hf : Succeeds (f a)) :
    Succeeds ((liftM x : EmitM α) >>= f) := by
  subst hx
  exact hf

end Succeeds

end Group

end StatementQuery

------------------------------------------------------------
-- Arguments
------------------------------------------------------------

namespace StatementQuery

namespace Arg

/- An argument that is open, or fixed to a term of a kind. -/
def Given (k : Kind) : Arg → Prop
| .var _ => True
| .value g => g.kind ≤ k
| .absent => False

/- An argument that is absent, open or of a kind. -/
def Optional (k : Kind) (arg : Arg) : Prop :=
  arg = .absent ∨ arg.Given k

/- An argument that is absent, open or a word. -/
def Count (arg : Arg) : Prop :=
  arg = .absent ∨ (∃ name, arg = .var name) ∨
    ∃ n : Int,
      Numeral.fitsSigned 64 n = true ∧
        arg = .value (.value (.amount (.ofInt n)))

end Arg

namespace Args

/- The argument of a name has a property. -/
def Holds
    (args : Args)
    (name : String)
    (P : Arg → Prop) :
    Prop :=
  ∃ arg, args.lookup name = some arg ∧ P arg

/- An argument that is there is found. -/
theorem get_eq
    {args : Args}
    {name : String}
    {arg : Arg}
    (h : args.lookup name = some arg) :
    args.get name = .ok arg := by
  simp [get, h]

end Args

namespace EmissionContext

/- A given argument has a node. -/
theorem exists_node
    (context : EmissionContext)
    {k : Kind}
    (hk : k ≤ .value)
    {arg : Arg}
    (h : arg.Given k) :
    ∃ n, context.node arg = .ok n := by
  cases arg with
  | var name => exact ⟨.var name, rfl⟩
  | absent => cases h
  | value g =>
      rcases Ground.exists_value_of_kind_le (le_trans h hk) with
        ⟨v, rfl⟩
      exact ⟨context.codec.encodeValue v, rfl⟩

end EmissionContext

/- A word is read back from its decimal. -/
theorem Decimal.toInt?_ofInt_of_fits
    {n : Int}
    (h : Numeral.fitsSigned 64 n = true) :
    (Decimal.ofInt n).toInt? = some n := by
  apply Decimal.toInt?_ofInt
  simp only [Numeral.fitsSigned] at h
  norm_num at h ⊢
  omega

namespace Wikidata

/- The amount of a quantity is written as a word, if it is one. -/
theorem integerNode_of_toInt?
    (context : EmissionContext)
    {q : Quantity}
    {n : Int}
    (hRead : q.amount.toInt? = some n)
    (hFits : Numeral.fitsSigned 64 n = true) :
    integerNode context (.value (.value (.quantity q))) =
      .ok (.integer n) := by
  unfold Decimal.toInt? at hRead
  split at hRead
  · rename_i hInteger
    simp [integerNode, hInteger, Decimal.truncate64?, hRead,
      Option.filter, hFits]
  · cases hRead

/- A word is written as an integer. -/
theorem exists_integerNode
    (context : EmissionContext)
    {g : Ground}
    (h : (Arg.value g).Count) :
    ∃ n, integerNode context (.value g) = .ok n := by
  rcases h with h | ⟨name, h⟩ | ⟨n, hFits, h⟩
  · cases h
  · cases h
  · cases h
    exact
      ⟨.integer n,
        integerNode_of_toInt? context
          (Decimal.toInt?_ofInt_of_fits hFits) hFits⟩

end Wikidata

end StatementQuery

------------------------------------------------------------
-- Claims
------------------------------------------------------------

namespace StatementQuery

namespace Wikidata

namespace Claim

/- A subject is linked by a property that is open or fixed. -/
theorem succeeds_linkSubject
    (config : WikidataConfig)
    (context : EmissionContext)
    {arg : Arg}
    {property : Node}
    (h : arg.Given .property)
    (hNode : context.node arg = .ok property)
    (subject statement : Node) :
    Group.Succeeds
      (linkSubject config arg subject property statement) := by
  cases arg with
  | absent => cases h
  | var name =>
      cases hNode
      unfold linkSubject
      apply Group.Succeeds.bind (.lift (.freshVar _))
      intro claim
      apply Group.Succeeds.bind (.lift (.triple _ _ _))
      intro _
      exact Group.Succeeds.bind (.lift (.triple _ _ _)) fun _ =>
        .pure _
  | value g =>
      rcases @Ground.exists_iri_of_kind_le g .property h with
        ⟨i, rfl⟩
      cases hNode
      exact Group.Succeeds.bind (.lift (.triple _ _ _)) fun _ =>
        .pure _

/- Restricting the datatype keeps the names in use. -/
theorem grows_restrictDatatype
    (property : Node)
    (datatype : Option Datatype)
    (m : DatatypeMask) :
    Group.Grows (restrictDatatype property datatype m) := by
  unfold restrictDatatype
  split
  next => exact .triple _ _ _
  next =>
    split
    next =>
      apply Group.Grows.bind (.freshVar _)
      intro type
      exact .bind (.triple _ _ _) fun _ => .values _ _
    next => exact .pure ()

/- Restricting the subject keeps the names in use. -/
theorem grows_restrictSubject
    (config : WikidataConfig)
    (subject : Node)
    (m : DatatypeMask) :
    Group.Grows (restrictSubject config subject m) := by
  unfold restrictSubject
  split
  next => exact .filter _
  next => exact .pure ()

/- Restricting the rank keeps the names in use. -/
theorem grows_restrictRank
    (statement : Node)
    (f : Filter) :
    Group.Grows (restrictRank statement f) := by
  unfold restrictRank
  split
  next => exact .pure none
  next =>
    apply Group.Grows.bind (.freshVar _)
    intro rank
    apply Group.Grows.bind (.triple _ _ _)
    intro _
    dsimp only
    split
    next => exact .bind (.filter _) fun _ => .pure _
    next => exact .pure _

/- A claim starts with a subject and a property. -/
theorem succeeds_start
    (config : WikidataConfig)
    (datatype : Option Datatype)
    (context : EmissionContext)
    {args : Args}
    (hSubject : args.Holds "subject" (Arg.Given .entity))
    (hProperty : args.Holds "property" (Arg.Given .property)) :
    Group.Succeeds (start config datatype context args) := by
  rcases hSubject with ⟨subject, hSubject, hs⟩
  rcases hProperty with ⟨property, hProperty, hp⟩
  rcases context.exists_node (by decide) hs with
    ⟨subjectNode, hSubjectNode⟩
  rcases context.exists_node (by decide) hp with
    ⟨propertyNode, hPropertyNode⟩
  unfold start
  apply Group.Succeeds.bind_ok (Args.get_eq hSubject)
  apply Group.Succeeds.bind_ok hSubjectNode
  apply Group.Succeeds.bind_ok (Args.get_eq hProperty)
  apply Group.Succeeds.bind_ok hPropertyNode
  apply Group.Succeeds.bind (.lift (.freshVar _))
  intro statement
  apply Group.Succeeds.bind
    (succeeds_linkSubject config context hp hPropertyNode _ _)
  intro ref
  apply Group.Succeeds.bind (.lift (grows_restrictDatatype _ _ _))
  intro _
  apply Group.Succeeds.bind (.lift (grows_restrictSubject _ _ _))
  intro _
  apply Group.Succeeds.bind (.lift (grows_restrictRank _ _))
  intro rank
  exact .pure _

/- Links of a claim keep the names in use. -/
theorem grows_link
    (config : WikidataConfig)
    (claim : Claim)
    (l : Link) :
    Group.Grows (claim.link config l) := by
  unfold link
  split
  next => exact .pure _
  next =>
    apply Group.Grows.bind (.freshVar _)
    intro predicate
    exact .bind (.triple _ _ _) fun _ => .pure _

end Claim

end Wikidata

end StatementQuery

------------------------------------------------------------
-- Emissions Of The Entries
------------------------------------------------------------

namespace StatementQuery

namespace Wikidata

/- Keeping unknown values out keeps the names in use. -/
theorem grows_requireKnown
    (value : Node) :
    Group.Grows (requireKnown value) := by
  unfold requireKnown
  split
  next => exact .filter _
  next => exact .pure ()

/- Restricting the language keeps the names in use. -/
theorem grows_restrictLanguage
    (datatype : Datatype)
    (value : Node)
    (language : Option String) :
    Group.Grows (restrictLanguage datatype value language) := by
  unfold restrictLanguage
  split
  next =>
    split
    next => exact .filter _
    next => exact .pure ()
  next => exact .pure ()

/- A component keeps the names in use. -/
theorem grows_componentTriple
    (deep : Node)
    (predicate : String)
    (placeholder : Option Node)
    (n : Node) :
    Group.Grows
      (componentTriple deep predicate placeholder n) := by
  unfold componentTriple
  apply Group.Grows.bind (.triple _ _ _)
  intro _
  cases placeholder with
  | none => exact .pure ()
  | some placeholder => exact .filter _

/- A component that can be written is added. -/
theorem succeeds_component
    {encode : Arg → Except EntryError Node}
    (deep : Node)
    (predicate : String)
    (placeholder : Option Node)
    {arg : Arg}
    (h : ∀ g, arg = .value g → ∃ n, encode arg = .ok n) :
    Group.Succeeds
      (component encode deep predicate placeholder arg) := by
  cases arg with
  | var name =>
      exact .lift (.optional (grows_componentTriple _ _ _ _))
  | value g =>
      rcases h g rfl with ⟨n, hn⟩
      exact Group.Succeeds.bind_ok hn (.lift (.triple _ _ _))
  | absent =>
      apply Group.Succeeds.lift
      apply Group.Grows.notExists
      apply Group.Grows.bind (.freshVar _)
      intro any
      exact grows_componentTriple _ _ _ _

/- A component of a kind is added, or left out. -/
theorem succeeds_optionalComponent
    (context : EmissionContext)
    {k : Kind}
    (hk : k ≤ .value)
    (deep : Node)
    (predicate : String)
    (placeholder : Option Node)
    {arg : Arg}
    (h : arg.Optional k) :
    Group.Succeeds
      (component context.node deep predicate placeholder
        arg) := by
  apply succeeds_component
  rintro g rfl
  rcases h with h | h
  · cases h
  · exact context.exists_node hk h

/- A word is added, or left out. -/
theorem succeeds_countComponent
    (context : EmissionContext)
    (deep : Node)
    (predicate : String)
    (placeholder : Option Node)
    {arg : Arg}
    (h : arg.Count) :
    Group.Succeeds
      (component (integerNode context) deep predicate placeholder
        arg) := by
  apply succeeds_component
  rintro g rfl
  exact exists_integerNode context h

/- The node of a deep value keeps the names in use. -/
theorem grows_deepValue
    (config : WikidataConfig)
    (claim : Claim)
    (name : String) :
    Group.Grows (deepValue config claim name) := by
  unfold deepValue
  apply Group.Grows.bind (Claim.grows_link _ _ _)
  intro predicate
  apply Group.Grows.bind (.freshVar _)
  intro deep
  exact .bind (.triple _ _ _) fun _ => .pure _

/- A simple value is found. -/
theorem succeeds_emitSimple
    (config : WikidataConfig)
    (d : Datatype)
    (context : EmissionContext)
    {args : Args}
    (hSubject : args.Holds "subject" (Arg.Given .entity))
    (hProperty : args.Holds "property" (Arg.Given .property))
    (hValue : args.Holds "value" (Arg.Given .value)) :
    Group.Succeeds (emitSimple config d context args) := by
  rcases hValue with ⟨value, hValue, hv⟩
  rcases context.exists_node (le_refl _) hv with ⟨n, hn⟩
  unfold emitSimple
  apply Group.Succeeds.bind
    (Claim.succeeds_start _ _ _ hSubject hProperty)
  intro claim
  apply Group.Succeeds.bind_ok (Args.get_eq hValue)
  apply Group.Succeeds.bind_ok hn
  apply Group.Succeeds.bind (.lift (Claim.grows_link _ _ _))
  intro predicate
  apply Group.Succeeds.bind (.lift (.triple _ _ _))
  intro _
  apply Group.Succeeds.bind (.lift (grows_requireKnown _))
  intro _
  apply Group.Succeeds.bind (.lift (grows_restrictLanguage _ _ _))
  intro _
  exact .pure _

/- A quantity is found. -/
theorem succeeds_emitQuantity
    (config : WikidataConfig)
    (context : EmissionContext)
    {args : Args}
    (hSubject : args.Holds "subject" (Arg.Given .entity))
    (hProperty : args.Holds "property" (Arg.Given .property))
    (hAmount : args.Holds "amount" (Arg.Given .quantity))
    (hUnit : args.Holds "unit" (Arg.Optional .item))
    (hLower : args.Holds "lower" (Arg.Optional .quantity))
    (hUpper : args.Holds "upper" (Arg.Optional .quantity)) :
    Group.Succeeds (emitQuantity config context args) := by
  rcases hAmount with ⟨amount, hAmount, ha⟩
  rcases hUnit with ⟨unit, hUnit, hu⟩
  rcases hLower with ⟨lower, hLower, hl⟩
  rcases hUpper with ⟨upper, hUpper, hp⟩
  rcases context.exists_node (by decide) ha with ⟨n, hn⟩
  unfold emitQuantity
  apply Group.Succeeds.bind
    (Claim.succeeds_start _ _ _ hSubject hProperty)
  intro claim
  apply Group.Succeeds.bind (.lift (grows_deepValue _ _ _))
  intro deep
  apply Group.Succeeds.bind_ok (Args.get_eq hAmount)
  apply Group.Succeeds.bind_ok hn
  apply Group.Succeeds.bind (.lift (.triple _ _ _))
  intro _
  apply Group.Succeeds.bind_ok (Args.get_eq hUnit)
  apply Group.Succeeds.bind
    (succeeds_optionalComponent _ (by decide) _ _ _ hu)
  intro _
  apply Group.Succeeds.bind_ok (Args.get_eq hLower)
  apply Group.Succeeds.bind
    (succeeds_optionalComponent _ (by decide) _ _ _ hl)
  intro _
  apply Group.Succeeds.bind_ok (Args.get_eq hUpper)
  apply Group.Succeeds.bind
    (succeeds_optionalComponent _ (by decide) _ _ _ hp)
  intro _
  exact .pure _

/- A time is found. -/
theorem succeeds_emitTime
    (config : WikidataConfig)
    (context : EmissionContext)
    {args : Args}
    (hSubject : args.Holds "subject" (Arg.Given .entity))
    (hProperty : args.Holds "property" (Arg.Given .property))
    (hInstant : args.Holds "instant" (Arg.Given .time))
    (hPrecision : args.Holds "precision" Arg.Count)
    (hTimezone : args.Holds "timezone" Arg.Count)
    (hCalendar : args.Holds "calendar" (Arg.Optional .item)) :
    Group.Succeeds (emitTime config context args) := by
  rcases hInstant with ⟨instant, hInstant, hi⟩
  rcases hPrecision with ⟨precision, hPrecision, hp⟩
  rcases hTimezone with ⟨timezone, hTimezone, ht⟩
  rcases hCalendar with ⟨calendar, hCalendar, hc⟩
  rcases context.exists_node (by decide) hi with ⟨n, hn⟩
  unfold emitTime
  apply Group.Succeeds.bind
    (Claim.succeeds_start _ _ _ hSubject hProperty)
  intro claim
  apply Group.Succeeds.bind (.lift (grows_deepValue _ _ _))
  intro deep
  apply Group.Succeeds.bind_ok (Args.get_eq hInstant)
  apply Group.Succeeds.bind_ok hn
  apply Group.Succeeds.bind (.lift (.triple _ _ _))
  intro _
  apply Group.Succeeds.bind_ok (Args.get_eq hPrecision)
  apply Group.Succeeds.bind
    (succeeds_countComponent _ _ _ _ hp)
  intro _
  apply Group.Succeeds.bind_ok (Args.get_eq hTimezone)
  apply Group.Succeeds.bind
    (succeeds_countComponent _ _ _ _ ht)
  intro _
  apply Group.Succeeds.bind_ok (Args.get_eq hCalendar)
  apply Group.Succeeds.bind
    (succeeds_optionalComponent _ (by decide) _ _ _ hc)
  intro _
  exact .pure _

/- An unknown value is found. -/
theorem succeeds_emitSomeValue
    (config : WikidataConfig)
    (context : EmissionContext)
    {args : Args}
    (hSubject : args.Holds "subject" (Arg.Given .entity))
    (hProperty : args.Holds "property" (Arg.Given .property)) :
    Group.Succeeds (emitSomeValue config context args) := by
  unfold emitSomeValue
  apply Group.Succeeds.bind
    (Claim.succeeds_start _ _ _ hSubject hProperty)
  intro claim
  apply Group.Succeeds.bind (.lift (Claim.grows_link _ _ _))
  intro predicate
  apply Group.Succeeds.bind (.lift (.freshVar _))
  intro placeholder
  apply Group.Succeeds.bind (.lift (.triple _ _ _))
  intro _
  apply Group.Succeeds.bind (.lift (.filter _))
  intro _
  exact .pure _

/- A statement that there is no value is found. -/
theorem succeeds_emitNoValue
    (config : WikidataConfig)
    (context : EmissionContext)
    {args : Args}
    (hSubject : args.Holds "subject" (Arg.Given .entity))
    (hProperty : args.Holds "property" (Arg.Given .property)) :
    Group.Succeeds (emitNoValue config context args) := by
  unfold emitNoValue
  apply Group.Succeeds.bind
    (Claim.succeeds_start _ _ _ hSubject hProperty)
  intro claim
  apply Group.Succeeds.bind (.lift (Claim.grows_link _ _ _))
  intro type
  apply Group.Succeeds.bind (.lift (.triple _ _ _))
  intro _
  exact .pure _

end Wikidata

end StatementQuery
