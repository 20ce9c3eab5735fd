import StatementQuery.Proofs.CompileFailures
import StatementQuery.Proofs.DecodedStatements
import StatementQuery.Proofs.MatchArguments
import StatementQuery.Proofs.RefusedTimes
import StatementQuery.Proofs.WikidataEntries

/-
  Compilations for a Wikidata store never fail.

  An emission fails where an argument cannot be written: where
  it is no value, or is the precision or the timezone of a time
  and no word.  What a match gives for a variable is of the
  variable's kind, so it is a value.  The parts of a time that
  is asked for are words, as they are in the time; the parts of
  a time that is not asked for are left open.

  Key definitions include:
    * `Group.Unfailing`
    * `Arg.IsValue`
    * `Arg.Word`

  Main declarations:
    * `Wikidata.words_of_plain`
    * `Wikidata.words_of_says`
    * `Wikidata.unfailing_emit`
    * `Wikidata.result_ne_failed`
    * `compile_eq_error_iff`
-/

------------------------------------------------------------
-- Emissions Without Failures
------------------------------------------------------------

namespace StatementQuery

namespace Arg

/- An argument that is a value, if it is fixed. -/
def IsValue (arg : Arg) : Prop :=
  ∀ g, arg = .value g → g.kind ≤ .value

/- An argument that is a word, if it is a quantity. -/
def Word (arg : Arg) : Prop :=
  ∀ q, arg = .value (.value (.quantity q)) →
    ∃ n, q.amount.toInt? = some n ∧ Numeral.fitsSigned 64 n = true

end Arg

namespace Args

/- What each name stands for has a property. -/
def All (args : Args) (P : Arg → Prop) : Prop :=
  ∀ name arg, args.lookup name = some arg → P arg

end Args

namespace Group

/- A computation that may give up, but does not fail. -/
def Unfailing (x : EmitM α) : Prop :=
  ∀ g text, (x.run.run g).1 ≠ .error (.failed text)

namespace Unfailing

theorem pure
    (a : α) :
    Unfailing (Pure.pure a : EmitM α) := by
  intro g text h
  cases h

theorem skip :
    Unfailing (throw .skip : EmitM α) := by
  intro g text h
  cases h

theorem lift
    (x : GroupM α) :
    Unfailing (liftM x : EmitM α) := by
  intro g text h
  cases h

theorem bind
    {x : EmitM α}
    {f : α → EmitM β}
    (hx : Unfailing x)
    (hf : ∀ a, Unfailing (f a)) :
    Unfailing (x >>= f) := by
  intro g text h
  rcases Compile.bind_eq_error_iff.mp h with h | ⟨a, g', _, h⟩
  · exact hx g text h
  · exact hf a g' text h

/- What is looked up is missing, or what the name stands for. -/
theorem bind_get
    {args : Args}
    {name : String}
    {f : Arg → EmitM β}
    (h : ∀ arg, args.lookup name = some arg → Unfailing (f arg)) :
    Unfailing ((liftM (args.get name) : EmitM Arg) >>= f) := by
  unfold Args.get
  cases hLookup : args.lookup name with
  | none =>
      intro g text hFailed
      cases hFailed
  | some arg => exact h arg hLookup

/- A node that is written, or missing, is not a failure. -/
theorem bind_node
    {x : Except EntryError Node}
    (hx : ∀ text, x ≠ .error (.failed text))
    {f : Node → EmitM β}
    (h : ∀ n, Unfailing (f n)) :
    Unfailing ((liftM x : EmitM Node) >>= f) := by
  cases x with
  | ok n => exact h n
  | error e =>
      cases e with
      | skip =>
          intro g text hFailed
          cases hFailed
      | failed text => exact absurd rfl (hx text)

end Unfailing

end Group

/- A value is written, and what is missing is given up. -/
theorem EmissionContext.node_ne_failed
    (context : EmissionContext)
    {arg : Arg}
    (h : arg.IsValue)
    (text : String) :
    context.node arg ≠ .error (.failed text) := by
  intro hFailed
  cases arg with
  | var name => cases hFailed
  | absent => cases hFailed
  | value g =>
      have hGiven : (Arg.value g).Given .value := h g rfl
      rcases context.exists_node (le_refl _) hGiven with ⟨n, hn⟩
      rw [hn] at hFailed
      cases hFailed

namespace Wikidata

/- A word is written as an integer. -/
theorem integerNode_ne_failed
    (context : EmissionContext)
    {arg : Arg}
    (h : arg.IsValue)
    (hWord : arg.Word)
    (text : String) :
    integerNode context arg ≠ .error (.failed text) := by
  by_cases hQuantity : ∃ q, arg = .value (.value (.quantity q))
  · rcases hQuantity with ⟨q, rfl⟩
    rcases hWord q rfl with ⟨n, hRead, hFits⟩
    rw [integerNode_of_toInt? context hRead hFits]
    intro hFailed
    cases hFailed
  · have hNode : integerNode context arg = context.node arg := by
      unfold integerNode
      split
      · exact absurd ⟨_, rfl⟩ hQuantity
      · rfl
    rw [hNode]
    exact context.node_ne_failed h text

namespace Claim

/- Linking a subject gives up where there is no property. -/
theorem unfailing_linkSubject
    (config : WikidataConfig)
    (arg : Arg)
    (subject property statement : Node) :
    Group.Unfailing
      (linkSubject config arg subject property statement) := by
  unfold linkSubject
  split
  · exact Group.Unfailing.bind (.lift _) fun _ => .pure _
  · apply Group.Unfailing.bind (.lift _)
    intro claim
    apply Group.Unfailing.bind (.lift _)
    intro _
    exact Group.Unfailing.bind (.lift _) fun _ => .pure _
  · exact .skip

/- A claim of values starts without failures. -/
theorem unfailing_start
    (config : WikidataConfig)
    (datatype : Option Datatype)
    (context : EmissionContext)
    {args : Args}
    (h : args.All Arg.IsValue) :
    Group.Unfailing (start config datatype context args) := by
  unfold start
  apply Group.Unfailing.bind_get
  intro subject hSubject
  apply Group.Unfailing.bind_node
    (context.node_ne_failed (h _ _ hSubject))
  intro subjectNode
  apply Group.Unfailing.bind_get
  intro property hProperty
  apply Group.Unfailing.bind_node
    (context.node_ne_failed (h _ _ hProperty))
  intro propertyNode
  apply Group.Unfailing.bind (.lift _)
  intro statement
  apply Group.Unfailing.bind (unfailing_linkSubject _ _ _ _ _)
  intro ref
  apply Group.Unfailing.bind (.lift _)
  intro _
  apply Group.Unfailing.bind (.lift _)
  intro _
  apply Group.Unfailing.bind (.lift _)
  intro rank
  exact .pure _

end Claim

/- A component that can be written is no failure. -/
theorem unfailing_component
    {encode : Arg → Except EntryError Node}
    (deep : Node)
    (predicate : String)
    (placeholder : Option Node)
    {arg : Arg}
    (h : ∀ text, encode arg ≠ .error (.failed text)) :
    Group.Unfailing
      (component encode deep predicate placeholder arg) := by
  cases arg with
  | var name => exact .lift _
  | value g => exact Group.Unfailing.bind_node h fun _ => .lift _
  | absent => exact .lift _

/- A simple value is found without failures. -/
theorem unfailing_emitSimple
    (config : WikidataConfig)
    (d : Datatype)
    (context : EmissionContext)
    {args : Args}
    (h : args.All Arg.IsValue) :
    Group.Unfailing (emitSimple config d context args) := by
  unfold emitSimple
  apply Group.Unfailing.bind (Claim.unfailing_start _ _ _ h)
  intro claim
  apply Group.Unfailing.bind_get
  intro value hValue
  apply Group.Unfailing.bind_node
    (context.node_ne_failed (h _ _ hValue))
  intro valueNode
  apply Group.Unfailing.bind (.lift _)
  intro predicate
  apply Group.Unfailing.bind (.lift _)
  intro _
  apply Group.Unfailing.bind (.lift _)
  intro _
  apply Group.Unfailing.bind (.lift _)
  intro _
  exact .pure _

/- A quantity is found without failures. -/
theorem unfailing_emitQuantity
    (config : WikidataConfig)
    (context : EmissionContext)
    {args : Args}
    (h : args.All Arg.IsValue) :
    Group.Unfailing (emitQuantity config context args) := by
  unfold emitQuantity
  apply Group.Unfailing.bind (Claim.unfailing_start _ _ _ h)
  intro claim
  apply Group.Unfailing.bind (.lift _)
  intro deep
  apply Group.Unfailing.bind_get
  intro amount hAmount
  apply Group.Unfailing.bind_node
    (context.node_ne_failed (h _ _ hAmount))
  intro amountNode
  apply Group.Unfailing.bind (.lift _)
  intro _
  apply Group.Unfailing.bind_get
  intro unit hUnit
  apply Group.Unfailing.bind
    (unfailing_component _ _ _ (context.node_ne_failed (h _ _ hUnit)))
  intro _
  apply Group.Unfailing.bind_get
  intro lower hLower
  apply Group.Unfailing.bind
    (unfailing_component _ _ _
      (context.node_ne_failed (h _ _ hLower)))
  intro _
  apply Group.Unfailing.bind_get
  intro upper hUpper
  apply Group.Unfailing.bind
    (unfailing_component _ _ _
      (context.node_ne_failed (h _ _ hUpper)))
  intro _
  exact .pure _

/- A time is found without failures where its parts are words. -/
theorem unfailing_emitTime
    (config : WikidataConfig)
    (context : EmissionContext)
    {args : Args}
    (h : args.All Arg.IsValue)
    (hWords : args.All Arg.Word) :
    Group.Unfailing (emitTime config context args) := by
  unfold emitTime
  apply Group.Unfailing.bind (Claim.unfailing_start _ _ _ h)
  intro claim
  apply Group.Unfailing.bind (.lift _)
  intro deep
  apply Group.Unfailing.bind_get
  intro instant hInstant
  apply Group.Unfailing.bind_node
    (context.node_ne_failed (h _ _ hInstant))
  intro instantNode
  apply Group.Unfailing.bind (.lift _)
  intro _
  apply Group.Unfailing.bind_get
  intro precision hPrecision
  apply Group.Unfailing.bind
    (unfailing_component _ _ _
      (integerNode_ne_failed context (h _ _ hPrecision)
        (hWords _ _ hPrecision)))
  intro _
  apply Group.Unfailing.bind_get
  intro timezone hTimezone
  apply Group.Unfailing.bind
    (unfailing_component _ _ _
      (integerNode_ne_failed context (h _ _ hTimezone)
        (hWords _ _ hTimezone)))
  intro _
  apply Group.Unfailing.bind_get
  intro calendar hCalendar
  apply Group.Unfailing.bind
    (unfailing_component _ _ _
      (context.node_ne_failed (h _ _ hCalendar)))
  intro _
  exact .pure _

/- An unknown value is found without failures. -/
theorem unfailing_emitSomeValue
    (config : WikidataConfig)
    (context : EmissionContext)
    {args : Args}
    (h : args.All Arg.IsValue) :
    Group.Unfailing (emitSomeValue config context args) := by
  unfold emitSomeValue
  apply Group.Unfailing.bind (Claim.unfailing_start _ _ _ h)
  intro claim
  apply Group.Unfailing.bind (.lift _)
  intro predicate
  apply Group.Unfailing.bind (.lift _)
  intro placeholder
  apply Group.Unfailing.bind (.lift _)
  intro _
  apply Group.Unfailing.bind (.lift _)
  intro _
  exact .pure _

/- A statement without a value is found without failures. -/
theorem unfailing_emitNoValue
    (config : WikidataConfig)
    (context : EmissionContext)
    {args : Args}
    (h : args.All Arg.IsValue) :
    Group.Unfailing (emitNoValue config context args) := by
  unfold emitNoValue
  apply Group.Unfailing.bind (Claim.unfailing_start _ _ _ h)
  intro claim
  apply Group.Unfailing.bind (.lift _)
  intro type
  apply Group.Unfailing.bind (.lift _)
  intro _
  exact .pure _

end Wikidata

end StatementQuery

------------------------------------------------------------
-- Values That A Match Gives
------------------------------------------------------------

namespace StatementQuery

namespace Wikidata

/- The patterns of the entries have variables of values. -/
theorem spec_pattern
    {config : WikidataConfig}
    {e : Entry}
    (he : e ∈ entries config)
    {p : Term}
    (hp : p ∈ e.patterns) :
    p.WellFormed ∧ ∀ v ∈ p.occurrences, v.kind ≤ .value := by
  rcases mem_entries he with
    ⟨d, _, id, rfl⟩ | rfl | rfl | rfl | rfl
  all_goals cases List.mem_singleton.mp hp
  · refine ⟨(simpleValue d).formed, ?_⟩
    intro v hv
    rcases mem_occurrences_patternOf.mp hv with rfl | rfl | hv
    · decide
    · decide
    · cases List.mem_singleton.mp hv
      exact (simpleValue d).kind
  · exact ⟨deepValue_quantity.formed, by decide⟩
  · exact ⟨deepValue_time.formed, by decide⟩
  · exact ⟨wellFormed_nil (by decide), by decide⟩
  · exact ⟨wellFormed_nil (by decide), by decide⟩

/- The patterns of the entries are well formed. -/
theorem wellFormed_patterns
    (config : WikidataConfig) :
    ∀ e ∈ entries config, ∀ p ∈ e.patterns, p.WellFormed := by
  intro e he p hp
  exact (spec_pattern he hp).1

/- A match gives values to an emission. -/
theorem isValue_of_plan?
    {config : WikidataConfig}
    {e : Entry}
    (he : e ∈ entries config)
    {goal : Term}
    (hGoal : goal.WellFormed)
    {used : List String}
    {found : PatternMatch}
    (h : e.plan? goal used = some found) :
    found.args.All Arg.IsValue := by
  rintro name arg hArg g rfl
  rcases List.exists_of_findSome?_eq_some h with ⟨p, hp, hMatch⟩
  rcases spec_pattern he hp with ⟨hFormed, hKinds⟩
  rcases Entry.kind_le_of_lookup hFormed hGoal hMatch hArg with
    ⟨v, hv, _, hKind⟩
  exact le_trans hKind (hKinds v hv)

end Wikidata

end StatementQuery

------------------------------------------------------------
-- Parts Of Times
------------------------------------------------------------

namespace StatementQuery

/- A count is a word. -/
theorem Arg.Count.word
    {arg : Arg}
    (h : arg.Count) :
    arg.Word := by
  rintro q rfl
  rcases h with h | ⟨name, h⟩ | ⟨n, hFits, h⟩
  · cases h
  · cases h
  · cases h
    exact ⟨n, Decimal.toInt?_ofInt_of_fits hFits, hFits⟩

/- The precision and the timezone of a time are words. -/
theorem Ground.words_of_build
    {a code minutes calendar : Option Ground}
    {g : Ground}
    (h : build .time [a, code, minutes, calendar] = .ok g) :
    ∀ q, code = some (.value (.quantity q)) ∨
        minutes = some (.value (.quantity q)) →
      (Arg.value (.value (.quantity q))).Word := by
  simp only [build] at h
  split at h
  · rcases exists_of_bind_eq_ok h with ⟨p, hPrecision, h⟩
    rcases exists_of_bind_eq_ok h with ⟨z, hTimezone, _⟩
    rintro q (rfl | rfl) _ ⟨⟩
    · rcases exists_precision_iff.mp ⟨p, hPrecision⟩ _ rfl with
        ⟨p', hRead⟩
      exact ⟨p'.code, hRead, Wikidata.fitsSigned_code p'⟩
    · by_contra hNone
      have hRefused :=
        timezone_eq_error_iff.mpr
          ⟨rfl, fun z' hRead =>
            hNone ⟨z'.toInt, hRead, Wikidata.fitsSigned_minutes z'⟩⟩
      rw [amount?, hRefused] at hTimezone
      cases hTimezone
  · cases h

namespace Wikidata

/- A deep value is built from what its variables stand for. -/
theorem build_of_subst
    {f : Variable → Side}
    {c : Constructor}
    {vs : List Variable}
    (hLength : c.slots.length = vs.length)
    {g : Ground}
    (h : (deepTerm c vs).subst f = some (some (.ground g))) :
    Ground.build c (vs.map fun v => Term.groundArg (f v)) =
      .ok g := by
  have hResults :
      (deepTerm c vs).subst f =
        Term.combine c ((vs.map f).map some) := by
    rw [deepTerm, Term.subst_app, List.map_map, List.map_map]
    rfl
  rw [hResults] at h
  rcases Term.combine_eq_some (by simpa using hLength) h with
    ⟨hAbsent, _⟩ | ⟨values, u, hValues, _, hBuilt, hEq⟩
  · cases hAbsent
  cases hEq
  have hValues : vs.map f = values :=
    List.map_injective_iff.mpr (Option.some_injective _) hValues
  rcases Term.assemble?_eq_some hBuilt with
    ⟨_, hApp⟩ | ⟨_, _, hBuild, hGround⟩
  · cases hApp
  · cases hGround
    rw [← hValues, List.map_map] at hBuild
    exact hBuild

variable {goal : Term} {used : List String}
variable {found : PatternMatch}

/- Only the precision and the timezone are quantities. -/
theorem all_word_of_parts
    (hGoal : goal.WellFormed)
    (h : Entry.matchPattern? timePattern goal used = some found)
    (hParts :
      ∀ name, name = "precision" ∨ name = "timezone" →
        ∀ arg, found.args.lookup name = some arg → arg.Word) :
    found.args.All Arg.Word := by
  rintro name arg hArg q rfl
  rcases Entry.kind_le_of_lookup deepValue_time.formed hGoal h
      hArg with
    ⟨v, hv, rfl, hKind⟩
  have hNames :
      ∀ v ∈ timePattern.occurrences, Kind.quantity ≤ v.kind →
        v.name = "precision" ∨ v.name = "timezone" := by
    decide
  exact hParts _ (hNames v hv hKind) _ hArg q rfl

/- A target that is plain gives words, or leaves them open. -/
theorem words_of_plain
    {t : Target}
    (hPlain : t.Plain)
    {snak : Term}
    (hAsks : t.Asks .value goal snak)
    (h : Entry.matchPattern? timePattern goal used = some found) :
    found.args.All Arg.Word := by
  have hVar : ∀ P ∈ timeArgs, ∀ name, P (.var name) := by
    simp [timeArgs, Arg.Given, Arg.Optional, Arg.Count]
  -- Nothing says that the open names are in use, but the match
  -- would be the same if they were.
  have hOpen :
      Entry.matchPattern? timePattern goal
          (used ++ Target.openNames) =
        some found := by
    rw [Entry.matchPattern?_append_openNames]
    exact h
  rcases holds_deep hPlain hAsks (List.subset_append_right _ _)
      deepValue_time hOpen rfl hVar parts_time with
    ⟨_, _ | ⟨_, _ |
      ⟨⟨precision, hPrecision, hp⟩, _ |
        ⟨⟨timezone, hTimezone, hz⟩, _⟩⟩⟩⟩
  apply all_word_of_parts hAsks.formed h
  rintro name (rfl | rfl) arg hArg
  · cases Option.some.inj (hPrecision.symm.trans hArg)
    exact hp.word
  · cases Option.some.inj (hTimezone.symm.trans hArg)
    exact hz.word

/- The snak of a pattern, under new names. -/
def renamedSnak
    (ρ : String → String)
    (k : SnakKind)
    (args : List (Option Term)) :
    Term :=
  .app k.constructor
    (some (.var (propertyVariable.renamed ρ)) ::
      renamedArgs ρ args)

variable {ρ : String → String} {κ : Kinding}
variable {focus : Term} {snak : Ground}

/- Where a snak is asked for, that of a pattern becomes it. -/
theorem outcome_renamedSnak
    {k : SnakKind}
    {args : List (Option Term)}
    (hSays : Compile.Says focus snak goal)
    (hJoins : Entry.Joins (patternOf k args) goal found ρ κ) :
    (renamedSnak ρ k args).WellShaped ∧
      (∀ v ∈ (renamedSnak ρ k args).occurrences,
        Side.Fits κ v.kind (found.bindings.value v)) ∧
      outcome
          ((renamedSnak ρ k args).subst found.bindings.value) =
        outcome (some (some (.ground snak))) := by
  have hPattern :
      (patternOf k args).mapVariables (Variable.renamed ρ) =
        .app .statement
          [some (.var (subjectVariable.renamed ρ)),
            some (renamedSnak ρ k args)] :=
    mapVariables_patternOf ρ k args
  rcases hJoins with ⟨hFormed, hFits, ⟨u, hu⟩, hAgrees, _⟩
  rw [hPattern] at hFormed hFits hu hAgrees
  have hMem :
      some (renamedSnak ρ k args) ∈
        [some (.var (subjectVariable.renamed ρ)),
          some (renamedSnak ρ k args)] :=
    List.mem_cons_of_mem _ List.mem_cons_self
  refine ⟨?_, ?_, ?_⟩
  · rcases hFormed.shaped with _ | _ | ⟨_, _, hEach⟩
    exact hEach _ hMem
  · intro v hv
    apply hFits v (Or.inl ?_)
    exact (Term.mem_occurrences_app v _ _).mpr ⟨_, hMem, hv⟩
  · have hParts :=
      Term.outcomes_args (c := .statement) rfl hFormed.shaped
        hSays.formed.shaped rfl hSays.kind rfl hSays.args hFits hu
        hAgrees
    exact (List.cons.inj (List.cons.inj hParts).2).1

/- So what the pattern has for the value becomes ground. -/
theorem exists_ground_of_says
    {value : Term}
    (hSays : Compile.Says focus snak goal)
    (hJoins :
      Entry.Joins (patternOf .value [some value]) goal found ρ κ) :
    ∃ g,
      (value.mapVariables (Variable.renamed ρ)).subst
          found.bindings.value =
        some (some (.ground g)) := by
  rcases outcome_renamedSnak hSays hJoins with
    ⟨hShaped, hFits, hSnak⟩
  rcases Term.outcome_args (c := .valueSnak) rfl hShaped rfl rfl
      hFits hSnak with
    ⟨hKind, hParts⟩
  rcases Ground.exists_args? (c := .valueSnak) rfl hKind with
    ⟨gs, hgs⟩
  rw [hgs] at hParts
  rcases gs with _ | ⟨_, _ | ⟨g, gs⟩⟩
  · cases hParts
  · have hRest := (List.cons.inj (Option.some.inj hParts)).2
    cases hRest
  · -- The second argument of the snak is its value.
    have hRest := (List.cons.inj (Option.some.inj hParts)).2
    have hValue := (List.cons.inj hRest).1
    rcases Term.exists_ground_of_outcome hValue.symm with
      ⟨g', hg', _⟩
    exact ⟨g', hg'⟩

/- A snak that is asked for gives words. -/
theorem words_of_says
    (hSays : Compile.Says focus snak goal)
    (h : Entry.matchPattern? timePattern goal used = some found) :
    found.args.All Arg.Word := by
  rcases Entry.exists_joins deepValue_time.formed hSays.formed h
    with ⟨ρ, κ, hJoins⟩
  rcases exists_ground_of_says hSays hJoins with ⟨g, hg⟩
  rw [mapVariables_deepTerm] at hg
  have hWords := Ground.words_of_build (build_of_subst rfl hg)
  have hPart :
      ∀ v ∈ timePattern.occurrences, ∀ q,
        found.args.lookup v.name =
            some (.value (.value (.quantity q))) →
          Term.groundArg (found.bindings.value (v.renamed ρ)) =
            some (.value (.quantity q)) := by
    intro v hv q hArg
    rw [hJoins.args v hv] at hArg
    rw [Entry.argOf?_eq_value hArg]
    rfl
  apply all_word_of_parts hSays.formed h
  rintro name (rfl | rfl) arg hArg q rfl
  · have hCode := hPart ⟨"precision", .quantity⟩ (by decide) q hArg
    exact hWords q (Or.inl hCode) q rfl
  · have hMinutes :=
      hPart ⟨"timezone", .quantity⟩ (by decide) q hArg
    exact hWords q (Or.inr hMinutes) q rfl

end Wikidata

end StatementQuery

------------------------------------------------------------
-- Compilations Without Failures
------------------------------------------------------------

namespace StatementQuery

namespace Wikidata

variable {config : WikidataConfig}

/- No emission of an entry fails on values and words. -/
theorem unfailing_emit
    {e : Entry}
    (he : e ∈ entries config)
    (context : EmissionContext)
    {args : Args}
    (h : args.All Arg.IsValue)
    (hWords : e = timeEntry config → args.All Arg.Word) :
    Group.Unfailing (e.emit context args) := by
  rcases mem_entries he with
    ⟨d, _, id, rfl⟩ | rfl | rfl | rfl | rfl
  · exact unfailing_emitSimple config d context h
  · exact unfailing_emitQuantity config context h
  · exact unfailing_emitTime config context h (hWords rfl)
  · exact unfailing_emitSomeValue config context h
  · exact unfailing_emitNoValue config context h

/- Times are matched by their pattern. -/
theorem plan?_timeEntry
    (config : WikidataConfig)
    (goal : Term)
    (used : List String) :
    (timeEntry config).plan? goal used =
      Entry.matchPattern? timePattern goal used :=
  plan?_entryOf ..

/- Times serve targets that ask for no snaks of the value. -/
theorem valueSnaks_of_excludes?
    {f : Filter}
    {t : Target}
    (h : (timeEntry config).excludes? f t = none) :
    t.valueSnaks = [] := by
  unfold Entry.excludes? at h
  split at h
  · cases h
  split at h
  · cases h
  split at h
  · cases h
  · have hTime :
        (timeEntry config).datatypeExcludes? f t .time = none := h
    unfold Entry.datatypeExcludes? at hTime
    split at hTime
    · cases hTime
    split at hTime
    · cases hTime
    split at hTime
    · cases hTime
    · rename_i hNone
      simpa [Datatype.isEntity] using hNone

/- Apart from snaks of the subject, such targets are plain. -/
theorem plain_of_excludes?
    {f : Filter}
    (hFilter : f.Checked)
    {codec : Codec}
    {t : Target}
    (ht : t ∈ Target.all codec f)
    (h : (timeEntry config).excludes? f t = none) :
    Target.Plain { t with subjectSnaks := [] } := by
  have hSnaks := valueSnaks_of_excludes? h
  simp only [Target.all, List.mem_flatMap, List.mem_map] at ht
  rcases ht with ⟨s, hs, p, hp, v, hv, rfl⟩
  have hTyped := hFilter.typed codec hs hp hv
  have hKind : Filter.valueKind v = .value := by
    rcases Fingerprint.mem_alternatives_cases _ hv with
      rfl | ⟨g, rfl, _⟩ | ⟨g, gs, rfl, _⟩
    · rfl
    · rfl
    · cases hSnaks
  rw [hKind] at hTyped
  exact
    ⟨hTyped.subject, hTyped.property, hTyped.value, rfl, hSnaks⟩

variable {options : Options} {f : Filter}

/- The entries of a store with their codec, at a filter. -/
def taskOf
    (config : WikidataConfig)
    (options : Options)
    (f : Filter) :
    Compile.Task :=
  ⟨⟨entries config, codec config⟩, options, f⟩

/- The call of a branch does not fail. -/
theorem result_ownCall
    (hFilter : f.Checked)
    {t : Target}
    {e : Entry}
    {found : PatternMatch}
    {p : Compile.Progress}
    (h : Compile.Tries (taskOf config options f) t e found p)
    (text : String) :
    (Compile.ownCall (taskOf config options f) e found
      p.alternatives.pool).result ≠ .error (.failed text) := by
  rcases h.mem with ⟨ht, he⟩
  rcases h.plan with ⟨goal, hGoal, hPlan⟩
  have hFormed := (Target.spec_statement ht hGoal).1
  have hValues := isValue_of_plan? he hFormed hPlan
  refine unfailing_emit he _ hValues ?_ _ text
  rintro rfl
  rw [plan?_timeEntry] at hPlan
  -- The snaks of the subject play no part in the statement.
  have hPlain := plain_of_excludes? hFilter ht h.admitted
  rcases hPlain.typed.exists_statement .value with
    ⟨goal', snak, hAsks⟩
  cases Except.ok.inj (hAsks.statement.symm.trans hGoal)
  exact words_of_plain hPlain hAsks hPlan

/- Nor does a call that expresses a snak asked for. -/
theorem result_nestedCall
    {focus : Term}
    {snaks : List Ground}
    {g : Group}
    {snak : Ground}
    {goal : Term}
    {e : Entry}
    {found : PatternMatch}
    {u : Alternatives}
    (hSays : Compile.Says focus snak goal)
    (h :
      Compile.Expresses ⟨entries config, codec config⟩ options focus
        snaks g snak goal e found u)
    (text : String) :
    (Compile.nestedCall ⟨entries config, codec config⟩ options e
      found u.pool).result ≠ .error (.failed text) := by
  rcases h.comes with ⟨g', _, hEntry⟩
  have hValues :=
    isValue_of_plan? hEntry.mem hSays.formed h.plan
  refine unfailing_emit hEntry.mem _ hValues ?_ _ text
  rintro rfl
  have hPlan := h.plan
  rw [plan?_timeEntry] at hPlan
  exact words_of_says hSays hPlan

/- No call of a compilation for a store fails. -/
theorem result_ne_failed
    (hFilter : f.Checked)
    {e : Entry}
    {call : Compile.Call}
    (h : Compile.Calls (taskOf config options f) e call)
    (text : String) :
    call.result ≠ .error (.failed text) := by
  cases h with
  | own hTries => exact result_ownCall hFilter hTries text
  | nested hTries hOwn hPart hFocus hExpresses =>
      rcases hExpresses.comes with ⟨g', hSnak, _⟩
      rcases hTries.fits_focus (wellFormed_patterns config)
          hPart.mem hSnak.mem hFocus with
        ⟨κ, hFits⟩
      rcases Compile.exists_says hFits
          (hFilter.kind_le_snak hTries.mem.1 hPart.mem hSnak.mem)
        with ⟨goal, hSays⟩
      cases Except.ok.inj (hSays.built.symm.trans hExpresses.built)
      exact result_nestedCall hSays hExpresses text

/- So the compilation succeeds. -/
theorem exists_compiled
    (config : WikidataConfig)
    (options : Options)
    (hFilter : f.Checked) :
    ∃ q,
      (compile ⟨entries config, codec config⟩ options f).result =
        .ok q := by
  cases hResult :
      (compile ⟨entries config, codec config⟩ options f).result with
  | ok q => exact ⟨q, rfl⟩
  | error err =>
      rcases (Compile.result_compile_eq_error_iff_calls
          (wellFormed_patterns config) hFilter).mp hResult with
        ⟨e, call, text, hCall, hFailed, _⟩
      exact absurd hFailed (result_ne_failed hFilter hCall text)

end Wikidata

/-
  A compilation fails exactly if a call of an emission fails
  that it makes, in a branch or to express a snak; it then says
  which entry the branch was for and what the call said.  For
  a Wikidata store no call fails, so the compilation succeeds.
-/
theorem compile_eq_error_iff
    {draft f : Filter}
    (hFilter : draft.build = .ok f)
    (options : Options) :
    (∀ codec registrations m,
      (∀ r ∈ registrations, ∀ p ∈ r.patterns, p.WellFormed) →
        Mapping.build codec registrations = .ok m →
          ∀ err,
            (compile m options f).result = .error err ↔
              ∃ e call text,
                Compile.Calls ⟨m, options, f⟩ e call ∧
                  call.result = .error (.failed text) ∧
                  err = .entry e.id text) ∧
      ∀ config, ∃ m q,
        Wikidata.mapping config = .ok m ∧
          (∀ e call,
            Compile.Calls ⟨m, options, f⟩ e call →
              ∀ text, call.result ≠ .error (.failed text)) ∧
          (compile m options f).result = .ok q := by
  have hChecked := Filter.checked_of_build hFilter
  constructor
  · intro codec registrations m hPatterns hMapping err
    exact
      Compile.result_compile_eq_error_iff_calls
        (Mapping.wellFormed_of_build hPatterns hMapping) hChecked
  · intro config
    have hCalls :=
      fun e call =>
        @Wikidata.result_ne_failed config options f hChecked e call
    cases hResult :
        (compile ⟨Wikidata.entries config, Wikidata.codec config⟩
          options f).result with
    | ok q =>
        exact
          ⟨_, q, Wikidata.mapping_eq config, hCalls, hResult⟩
    | error err =>
        rcases (Compile.result_compile_eq_error_iff_calls
            (Wikidata.wellFormed_patterns config) hChecked).mp
              hResult with
          ⟨e, call, text, hCall, hFailed, _⟩
        exact absurd hFailed (hCalls e call hCall text)

/- An entry that fails where the value is fixed. -/
def openItems : Registration where
  patterns := [Compile.itemPattern "s" "p" "v"]
  emit := fun _ args => do
    match ← args.get "v" with
    | .value _ => throw (.failed "the value is fixed")
    | _ => pure none

/- Statements whose value is an instance of a class. -/
def instancesFilter : Filter where
  value := .snaks [Compile.instanceSnak]

/- What a compilation that fails says. -/
def failure? : Except CompileError CompiledQuery → Option String
| .ok _ => none
| .error err => some err.message

theorem compile_eq_error_iff_instancesFilter :
    ∃ m f err,
      Mapping.build .verbatim [openItems] = .ok m ∧
        instancesFilter.build = .ok f ∧
        (compile m {} f).result = .error err ∧
        err.message = "entry 0 failed: the value is fixed" ∧
        (∃ e call text,
          Compile.Calls ⟨m, {}, f⟩ e call ∧
            call.result = .error (.failed text) ∧
            err = .entry e.id text) ∧
        ∃ m' q,
          Wikidata.mapping {} = .ok m' ∧
            (compile m' {} f).result = .ok q := by
  have hPatterns :
      ∀ r ∈ [openItems], ∀ p ∈ r.patterns, p.WellFormed := by
    intro r hr p hp
    cases List.mem_singleton.mp hr
    cases List.mem_singleton.mp hp
    decide
  have hFails :
      ((Mapping.build .verbatim [openItems]).toOption.bind
        fun m => instancesFilter.build.toOption.bind
          fun f => failure? (compile m {} f).result) =
        some "entry 0 failed: the value is fixed" := by
    decide +kernel
  rcases Option.bind_eq_some_iff.mp hFails with
    ⟨m, hMapping, hFails⟩
  rcases Option.bind_eq_some_iff.mp hFails with
    ⟨f, hFilter, hFails⟩
  have hMapping := eq_ok_of_toOption hMapping
  have hFilter := eq_ok_of_toOption hFilter
  rcases compile_eq_error_iff hFilter {} with ⟨hIff, hStores⟩
  rcases hStores {} with ⟨m', q, hStore, _, hOk⟩
  cases hResult : (compile m {} f).result with
  | ok q =>
      rw [hResult] at hFails
      cases hFails
  | error err =>
      rw [hResult] at hFails
      have hCall :=
        (hIff .verbatim [openItems] m hPatterns hMapping err).mp
          hResult
      exact
        ⟨m, f, err, hMapping, hFilter, hResult,
          Option.some.inj hFails, hCall, m', q, hStore, hOk⟩

end StatementQuery
