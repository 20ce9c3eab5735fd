import StatementQuery.Proofs.WikidataFailures
import StatementQuery.Proofs.WrittenPatterns

/-
  Columns of a Wikidata store are written by their branches.

  A variable of a template is what a variable of the pattern
  stands for, in the same slot.  An emission writes what the
  variables in required slots stand for into triples of its
  branch, and what those in optional slots stand for into
  optional groups.  So each column of a plan is in its branch.
  An emission also tests how an open subject starts, unless any
  entity may be one.

  Key definitions include:
    * `Term.fillings`
    * `Entry.Matches`
    * `Wikidata.Covers`

  Main declarations:
    * `Term.exists_of_mem_fillings_subst`
    * `Entry.exists_of_mem_fillings_template`
    * `Wikidata.covers_emit`
    * `Wikidata.shown_of_made`
    * `Wikidata.columns_shown`
-/

------------------------------------------------------------
-- Slots Of Variables
------------------------------------------------------------

namespace StatementQuery

namespace Term

mutual

/-
  The variables of a term with the slots that they fill, where
  the term itself stands in a slot.
-/
def fillings (slot : Slot) : Term → List (Slot × Variable)
| .ground _ => []
| .var v => [(slot, v)]
| .app c args => fillingsArgs c.slots args

/- The variables of arguments with the slots that they fill. -/
def fillingsArgs :
    List Slot → List (Option Term) → List (Slot × Variable)
| slot :: slots, some t :: args =>
    t.fillings slot ++ fillingsArgs slots args
| _ :: slots, none :: args => fillingsArgs slots args
| _, _ => []

end

/- The arguments stand in the slots at their places. -/
theorem mem_fillingsArgs
    {x : Slot × Variable}
    (slots : List Slot)
    (args : List (Option Term)) :
    x ∈ fillingsArgs slots args ↔
      ∃ slot t, (slot, some t) ∈ slots.zip args ∧
        x ∈ t.fillings slot := by
  induction slots generalizing args with
  | nil => simp [fillingsArgs]
  | cons slot slots ih =>
      rcases args with _ | ⟨_ | t, args⟩
      · simp [fillingsArgs]
      · simp [fillingsArgs, ih]
      · simp only [fillingsArgs, List.mem_append, ih,
          List.zip_cons_cons, List.mem_cons, Prod.mk.injEq,
          Option.some.injEq]
        constructor
        · rintro (hx | ⟨slot', t', hMem, hx⟩)
          · exact ⟨slot, t, Or.inl ⟨rfl, rfl⟩, hx⟩
          · exact ⟨slot', t', Or.inr hMem, hx⟩
        · rintro ⟨slot', t', ⟨rfl, rfl⟩ | hMem, hx⟩
          · exact Or.inl hx
          · exact Or.inr ⟨slot', t', hMem, hx⟩

/- Every variable of a term fills a slot. -/
theorem exists_mem_fillings
    {t : Term}
    (hShaped : t.WellShaped)
    {v : Variable}
    (hv : v ∈ t.occurrences)
    (slot : Slot) :
    ∃ slot', (slot', v) ∈ t.fillings slot := by
  induction t generalizing slot with
  | ground g => cases hv
  | var w =>
      cases List.mem_singleton.mp hv
      exact ⟨slot, List.mem_singleton.mpr rfl⟩
  | app c args ih =>
      rcases hShaped with _ | _ | ⟨hSlots, _, hArgs⟩
      rcases (mem_occurrences_app v c args).mp hv with
        ⟨t, ht, hv⟩
      rcases List.mem_iff_getElem.mp ht with ⟨i, hi, hAt⟩
      have hLength := hSlots.length_eq
      have hZip :
          (c.slots[i], some t) ∈ c.slots.zip args := by
        rw [← hAt]
        have hBound : i < (c.slots.zip args).length := by
          rw [List.length_zip]
          omega
        have hGet := List.getElem_mem hBound
        rwa [List.getElem_zip] at hGet
      rcases ih t ht (hArgs t ht) hv c.slots[i] with
        ⟨slot', hMem⟩
      exact
        ⟨slot',
          (mem_fillingsArgs _ _).mpr ⟨_, t, hZip, hMem⟩⟩

/- What fills a slot is a variable of the term. -/
theorem mem_occurrences_of_mem_fillings
    {t : Term}
    {slot slot' : Slot}
    {v : Variable}
    (h : (slot', v) ∈ t.fillings slot) :
    v ∈ t.occurrences := by
  induction t generalizing slot with
  | ground g => cases h
  | var w =>
      cases List.mem_singleton.mp h
      exact List.mem_singleton.mpr rfl
  | app c args ih =>
      rcases (mem_fillingsArgs _ _).mp h with ⟨s, t, hZip, hv⟩
      have ht : some t ∈ args := (List.of_mem_zip hZip).2
      exact (mem_occurrences_app v c args).mpr ⟨t, ht, ih t ht hv⟩

/- The spelling of numbers changes no slot. -/
theorem fillings_canonical
    (t : Term)
    (slot : Slot) :
    t.canonical.fillings slot = t.fillings slot := by
  induction t generalizing slot with
  | ground g => rfl
  | var v => rfl
  | app c args ih =>
      simp only [canonical, fillings]
      have hArgs :
          ∀ slots : List Slot,
            fillingsArgs slots (canonicalArgs args) =
              fillingsArgs slots args := by
        intro slots
        induction args generalizing slots with
        | nil => rfl
        | cons arg args ihArgs =>
            have hRest :=
              ihArgs fun t ht => ih t (List.mem_cons_of_mem _ ht)
            rcases slots with _ | ⟨s, slots⟩
            · simp only [fillingsArgs]
            · cases arg with
              | none => exact hRest slots
              | some t =>
                  simp only [canonicalArgs, fillingsArgs, hRest,
                    ih t List.mem_cons_self]
      exact hArgs c.slots

/-
  Where variables become variables, ground or absent, those of
  the result fill the slots of the ones that became them.
-/
theorem exists_of_mem_fillings_subst
    {f : Variable → Side}
    {t u : Term}
    (hShaped : t.WellShaped)
    (hSimple :
      ∀ v ∈ t.occurrences, ∀ c args, f v ≠ some (.app c args))
    (h : t.subst f = some (some u))
    {slot slot' : Slot}
    {w : Variable}
    (hw : (slot', w) ∈ u.fillings slot) :
    ∃ v, (slot', v) ∈ t.fillings slot ∧ f v = some (.var w) := by
  induction t generalizing u slot with
  | ground g =>
      cases h
      cases hw
  | var v =>
      have hv : f v = some u := Option.some.inj h
      cases u with
      | ground g => cases hw
      | var w' =>
          cases List.mem_singleton.mp hw
          exact ⟨v, List.mem_singleton.mpr rfl, hv⟩
      | app c args =>
          exact absurd hv
            (hSimple v (List.mem_singleton.mpr rfl) c args)
  | app c args ih =>
      rcases hShaped with _ | _ | ⟨hSlots, _, hArgs⟩
      rw [subst_app] at h
      rcases combine_eq_some (by simpa using hSlots.length_eq) h
        with ⟨hAbsent, _⟩ | ⟨values, u', hValues, _, hBuilt, hEq⟩
      · cases hAbsent
      cases hEq
      rcases assemble?_eq_some hBuilt with
        ⟨_, rfl⟩ | ⟨g, _, _, rfl⟩
      · rcases (mem_fillingsArgs c.slots values).mp hw with
          ⟨s, r, hZip, hMem⟩
        -- The value at a place is that of the argument there.
        have hPlace :
            (s, some (some r)) ∈
              c.slots.zip (args.map (Side.subst f)) := by
          rw [hValues, List.zip_map_right]
          exact List.mem_map.mpr ⟨(s, some r), hZip, rfl⟩
        rw [List.zip_map_right] at hPlace
        rcases List.mem_map.mp hPlace with
          ⟨⟨s', arg⟩, hArg, hSame⟩
        rcases Prod.mk.inj hSame with ⟨rfl, hSubst⟩
        cases arg with
        | none => cases hSubst
        | some t =>
            have ht : some t ∈ args := (List.of_mem_zip hArg).2
            have hOccurs :
                ∀ v ∈ t.occurrences, ∀ c args,
                  f v ≠ some (.app c args) := by
              intro v hv
              exact hSimple v
                ((mem_occurrences_app v c args).mpr ⟨t, ht, hv⟩)
            rcases ih t ht (hArgs t ht) hOccurs hSubst hMem with
              ⟨v, hv, hValue⟩
            exact
              ⟨v, (mem_fillingsArgs _ _).mpr ⟨_, t, hArg, hv⟩,
                hValue⟩
      · cases hw

end Term

namespace Entry

/- The slot that a statement stands in. -/
def statementSlot : Slot :=
  .required .statement

variable {p goal : Term} {used : List String}
variable {found : PatternMatch}

/-
  What a match gives, where `ρ` renames its pattern: up to the
  spelling of numbers, its template is the pattern with what its
  bindings have for the variables.
-/
structure Matches
    (p goal : Term)
    (used : List String)
    (found : PatternMatch)
    (ρ : String → String)
    (κ : Kinding)
    (u : Term) :
    Prop where
  renames : Renames ρ p.occurrences used
  pattern : found.pattern = p.mapVariables (Variable.renamed ρ)
  unified :
    unify [(some found.pattern, some goal)] = .ok found.bindings
  fits :
    ∀ v ∈ p.occurrences,
      Side.Fits κ v.kind (found.bindings.value (v.renamed ρ))
  subst :
    p.subst (fun v => found.bindings.value (v.renamed ρ)) =
      some (some u)
  same : u.canonical = found.template.canonical
  shaped : found.template.WellShaped
  lookup :
    ∀ v ∈ p.occurrences,
      found.args.lookup v.name =
        argOf? (some (found.bindings.value (v.renamed ρ)))

theorem exists_matches
    (hp : p.WellFormed)
    (hGoal : goal.WellFormed)
    (h : matchPattern? p goal used = some found) :
    ∃ ρ κ u, Matches p goal used found ρ κ u := by
  rcases matchPattern?_eq_some hp h with
    ⟨ρ, hρ, hPattern, hUnify, hLookup⟩
  have hRenamed := Term.wellFormed_renamed hp hρ
  have hSettle := settle?_of_matchPattern? h
  have hSolved := hUnify
  rw [hPattern] at hSolved hSettle
  rcases Term.solves_of_unify hRenamed hGoal hSolved with
    ⟨κ, hSolves, _, hSettled⟩
  have hFits :
      ∀ v ∈ (p.mapVariables (Variable.renamed ρ)).occurrences,
        Side.Fits κ v.kind (found.bindings.value v) :=
    fun v hv => hSolves.fits v (Or.inl (Or.inl hv))
  rcases Term.subst_of_settle? hSettled hRenamed.shaped hFits
      hSettle with
    ⟨u, hu, hSame, hShaped⟩
  rw [Term.subst_renaming] at hu
  refine
    ⟨ρ, κ, u, hρ, hPattern, hUnify, ?_, hu, hSame, hShaped, ?_⟩
  · intro v hv
    exact hFits (v.renamed ρ)
      ((Term.mem_occurrences_mapVariables _ p _).mpr ⟨v, hv, rfl⟩)
  · intro v hv
    rw [hLookup v hv, Term.settle?_var hSettled]

/-
  A variable of the template of a match is what the match gives
  for a variable of the pattern that fills the same slot.
-/
theorem exists_of_mem_fillings_template
    (hp : p.WellFormed)
    (hGoal : goal.WellFormed)
    (h : matchPattern? p goal used = some found)
    (hArgs : ∀ v ∈ p.occurrences, found.args.lookup v.name ≠ none)
    {slot : Slot}
    {w : Variable}
    (hw : (slot, w) ∈ found.template.fillings statementSlot) :
    ∃ v, (slot, v) ∈ p.fillings statementSlot ∧
      found.args.lookup v.name = some (.var w.name) := by
  rcases exists_matches hp hGoal h with ⟨ρ, κ, u, hMatches⟩
  rw [← Term.fillings_canonical, ← hMatches.same,
    Term.fillings_canonical] at hw
  have hSimple :
      ∀ v ∈ p.occurrences, ∀ c args,
        found.bindings.value (v.renamed ρ) ≠
          some (.app c args) := by
    intro v hv c args hApp
    apply hArgs v hv
    rw [hMatches.lookup v hv, hApp]
    rfl
  rcases Term.exists_of_mem_fillings_subst hp.shaped hSimple
      hMatches.subst hw with
    ⟨v, hv, hVar⟩
  refine ⟨v, hv, ?_⟩
  rw [hMatches.lookup v (Term.mem_occurrences_of_mem_fillings hv),
    hVar]
  rfl

end Entry

end StatementQuery

------------------------------------------------------------
-- What Emissions Write
------------------------------------------------------------

namespace StatementQuery

namespace Arg

/- An open argument is shown, in an optional group or not. -/
def Shown (arg : Arg) : Bool → List Pattern → Prop
| false, patterns => arg.ShownIn patterns
| true, patterns => arg.ShownOptionally patterns

theorem Shown.mono
    {arg : Arg}
    {isOptional : Bool}
    {ps qs : List Pattern}
    (h : arg.Shown isOptional ps)
    (hSubset : ps ⊆ qs) :
    arg.Shown isOptional qs := by
  cases isOptional with
  | false => exact fun name hName => (h name hName).mono hSubset
  | true => exact fun name hName => (h name hName).mono hSubset

end Arg

namespace Wikidata

/- A rank variable is the object of a triple for ranks. -/
def RankShown
    (rank : Option String)
    (patterns : List Pattern) :
    Prop :=
  ∃ name statement,
    rank = some name ∧
      .triple statement (ontology "rank") (.var name) ∈ patterns

/- What the identifiers of the subjects of a mask start with. -/
def subjectStarts
    (config : WikidataConfig)
    (m : DatatypeMask) :
    List String :=
  (Claim.subjectKinds m).map fun k =>
    config.entityNamespace ++ String.singleton k.letter

/- A variable has to start as one of some identifiers do. -/
def startsFilter (name : String) (starts : List String) : Pattern :=
  .filter (.or (starts.map (Expr.strStarts (.var name))))

/-
  Patterns show what some names stand for, those that may be
  absent in optional groups, and the rank if it is asked for;
  and they keep open subjects to those that are asked for.
-/
structure Covers
    (config : WikidataConfig)
    (columns : List (Bool × String))
    (context : EmissionContext)
    (args : Args)
    (rank : Option String)
    (patterns : List Pattern) :
    Prop where
  shown :
    ∀ isOptional name, (isOptional, name) ∈ columns →
      args.Holds name fun arg => arg.Shown isOptional patterns
  ranked :
    context.constraints.annotated = true → RankShown rank patterns
  restricted :
    ∀ name, args.lookup "subject" = some (.var name) →
      Mask.contains context.constraints.subjectMask
          DatatypeMask.entities = false →
        startsFilter name
            (subjectStarts config
              context.constraints.subjectMask) ∈ patterns

/- What is written to give a node a component has its node. -/
theorem writes_componentTriple
    (deep : Node)
    (predicate : String)
    (placeholder : Option Node)
    (n : Node) :
    Group.Writes (componentTriple deep predicate placeholder n)
      fun _ w => .triple deep (ontology predicate) n ∈ w := by
  unfold componentTriple
  apply (Group.Writes.triple _ _ _).bind
  rintro _ _ rfl
  have hMore :
      Group.Writes (requireOther n placeholder)
        fun _ _ => True := by
    cases placeholder with
    | none => exact .pure trivial
    | some other => exact .anything_add _
  exact hMore.mono fun _ w _ => List.mem_cons_self

/- A component that is open is written as optional. -/
theorem emits_component
    (encode : Arg → Except EntryError Node)
    (deep : Node)
    (predicate : String)
    (placeholder : Option Node)
    (arg : Arg) :
    Group.Emits (component encode deep predicate placeholder arg)
      fun _ w => arg.ShownOptionally w := by
  cases arg with
  | var name =>
      apply Group.Emits.lift
      apply (writes_componentTriple deep predicate placeholder
        (.var name)).optional.mono
      rintro _ w ⟨inner, hTriple, hWritten⟩ _ ⟨⟩
      have hInner : inner ≠ [] := List.ne_nil_of_mem hTriple
      rw [hWritten hInner]
      exact
        ⟨inner, List.mem_singleton.mpr rfl,
          _, _, _, hTriple, Or.inr (Or.inr rfl)⟩
  | value g =>
      apply Group.Emits.bind_except
      intro n _
      apply Group.Emits.lift
      exact (Group.Writes.triple _ _ _).mono fun _ _ _ _ h => by
        cases h
  | absent =>
      apply Group.Emits.lift
      have hAny :
          Group.Writes (anyComponent deep predicate placeholder)
            fun _ _ => True := by
        apply (Group.Writes.freshVar _).bind
        intro any w _
        exact Group.Writes.mono (writes_componentTriple _ _ _ _)
          fun _ _ _ => trivial
      exact hAny.notExists.mono fun _ _ _ _ h => by cases h

namespace Claim

/- Linking a subject shows the subject and the property. -/
theorem emits_linkSubject
    (config : WikidataConfig)
    {context : EmissionContext}
    {subjectArg arg : Arg}
    {subject property : Node}
    (hSubject : context.node subjectArg = .ok subject)
    (hProperty : context.node arg = .ok property)
    (statement : Node) :
    Group.Emits (linkSubject config arg subject property statement)
      fun _ w => subjectArg.ShownIn w ∧ arg.ShownIn w := by
  unfold linkSubject
  split
  · apply (Group.Emits.lift (Group.Writes.triple _ _ _)).bind
    rintro _ _ rfl
    refine .pure ⟨?_, fun _ h => by cases h⟩
    apply Arg.shownIn_of_node hSubject
    exact ⟨_, _, _, List.mem_singleton.mpr rfl, Or.inl rfl⟩
  · apply (Group.Emits.lift (Group.Writes.freshVar _)).bind
    rintro claim _ ⟨rfl, _⟩
    apply (Group.Emits.lift (Group.Writes.triple _ _ _)).bind
    rintro _ _ rfl
    apply (Group.Emits.lift (Group.Writes.triple _ _ _)).bind
    rintro _ _ rfl
    refine
      .pure
        ⟨Arg.shownIn_of_node hSubject ?_,
          Arg.shownIn_of_node hProperty ?_⟩
    · exact
        ⟨_, _, _, List.mem_cons_of_mem _ List.mem_cons_self,
          Or.inl rfl⟩
    · exact ⟨_, _, _, List.mem_cons_self, Or.inl rfl⟩
  · exact .skip

/- A restriction of the datatype adds to a group. -/
theorem writes_restrictDatatype
    (property : Node)
    (datatype : Option Datatype)
    (m : DatatypeMask) :
    Group.Writes (restrictDatatype property datatype m)
      fun _ _ => True := by
  unfold restrictDatatype
  split
  · exact .anything_add _
  · split
    · apply (Group.Writes.freshVar _).bind
      rintro _ _ ⟨rfl, type, rfl⟩
      apply (Group.Writes.triple _ _ _).bind
      intro _ _ _
      exact .anything_add _
    · exact .pure trivial

/- An open subject is restricted if not all are asked for. -/
theorem writes_restrictSubject
    (config : WikidataConfig)
    (subject : Node)
    (m : DatatypeMask) :
    Group.Writes (restrictSubject config subject m)
      fun _ w =>
        ∀ name, subject = .var name →
          Mask.contains m DatatypeMask.entities = false →
            startsFilter name (subjectStarts config m) ∈ w := by
  unfold restrictSubject
  split
  · apply (Group.Writes.add _).mono
    rintro _ w rfl name rfl _
    simp [startsFilter, subjectStarts, List.map_map,
      Function.comp_def]
  · rename_i hAll
    apply Group.Writes.pure
    rintro name rfl hMask
    simp [hMask, Node.isVar, Node.varName?] at hAll

/- The rank is shown where it is asked for. -/
theorem writes_restrictRank
    (statement : Node)
    (f : Filter) :
    Group.Writes (restrictRank statement f)
      fun rank w => f.annotated = true → RankShown rank w := by
  unfold restrictRank
  split
  · rename_i hNone
    apply Group.Writes.pure
    intro hAnnotated
    simp [hAnnotated] at hNone
  · apply (Group.Writes.freshVar _).bind
    rintro _ _ ⟨rfl, name, rfl⟩
    apply (Group.Writes.triple _ _ _).bind
    rintro _ _ rfl
    have hShown :
        ∀ w : List Pattern, f.annotated = true →
          RankShown
            (if f.annotated then (Node.var name).varName? else none)
            ([] ++
              ([.triple statement (ontology "rank") (.var name)] ++
                w)) := by
      intro w hAnnotated
      rw [if_pos hAnnotated]
      exact ⟨name, statement, rfl, List.mem_cons_self⟩
    dsimp only
    by_cases hAll : (!Mask.isAll f.rankMask) = true
    · rw [if_pos hAll]
      apply (Group.Writes.anything_add _).bind
      intro _ w _
      exact .pure (hShown _)
    · rw [if_neg hAll]
      exact .pure (hShown _)

/- The start of a claim shows its subject and its property. -/
theorem emits_start
    (config : WikidataConfig)
    (datatype : Option Datatype)
    (context : EmissionContext)
    (args : Args) :
    Group.Emits (start config datatype context args)
      fun claim w =>
        Covers config [(false, "subject"), (false, "property")]
          context args claim.rank w := by
  unfold start
  apply Group.Emits.bind_get
  intro subjectArg hSubjectArg
  apply Group.Emits.bind_except
  intro subject hSubject
  apply Group.Emits.bind_get
  intro propertyArg hPropertyArg
  apply Group.Emits.bind_except
  intro property hProperty
  apply (Group.Emits.lift (Group.Writes.freshVar _)).bind
  rintro statement _ ⟨rfl, _⟩
  apply (emits_linkSubject config hSubject hProperty _).bind
  rintro ref w ⟨hShown, hShown'⟩
  apply
    (Group.Emits.lift (writes_restrictDatatype _ _ _)).bind
  intro _ w₁ _
  apply (Group.Emits.lift (writes_restrictSubject _ _ _)).bind
  intro _ w₂ hStarts
  apply (Group.Emits.lift (writes_restrictRank _ _)).bind
  intro rank w₃ hRank
  apply Group.Emits.pure
  refine ⟨?_, ?_, ?_⟩
  · intro isOptional name hMem
    have hPart : w ⊆ [] ++ (w ++ (w₁ ++ (w₂ ++ (w₃ ++ [])))) :=
      List.subset_append_left _ _
    simp only [List.mem_cons, Prod.mk.injEq, List.not_mem_nil,
      or_false] at hMem
    rcases hMem with ⟨rfl, rfl⟩ | ⟨rfl, rfl⟩
    · exact
        ⟨subjectArg, hSubjectArg,
          fun name hName => (hShown name hName).mono hPart⟩
    · exact
        ⟨propertyArg, hPropertyArg,
          fun name hName => (hShown' name hName).mono hPart⟩
  · intro hAnnotated
    rcases hRank hAnnotated with ⟨name, s, hSome, hTriple⟩
    refine ⟨name, s, hSome, ?_⟩
    simp [hTriple]
  · intro name hName hMask
    rw [hSubjectArg] at hName
    cases hName
    cases hSubject
    simp [hStarts name rfl hMask]

/- A link of a claim adds to a group. -/
theorem writes_link
    (config : WikidataConfig)
    (claim : Claim)
    (l : Link) :
    Group.Writes (claim.link config l) fun _ _ => True := by
  unfold link
  split
  · exact .pure trivial
  · apply (Group.Writes.freshVar _).bind
    intro predicate _ _
    apply (Group.Writes.triple _ _ _).bind
    intro _ _ _
    exact .pure trivial

end Claim

namespace Covers

variable {config : WikidataConfig} {columns : List (Bool × String)}
variable {context : EmissionContext} {args : Args}
variable {rank : Option String} {before : List Pattern}

/- Patterns that are added hide nothing. -/
theorem append
    (h : Covers config columns context args rank before)
    (added : List Pattern) :
    Covers config columns context args rank (before ++ added) := by
  refine ⟨?_, ?_, ?_⟩
  · intro isOptional name hMem
    rcases h.shown isOptional name hMem with ⟨arg, hArg, hShown⟩
    exact ⟨arg, hArg, hShown.mono (List.subset_append_left _ _)⟩
  · intro hAnnotated
    rcases h.ranked hAnnotated with ⟨name, s, hRank, hTriple⟩
    exact ⟨name, s, hRank, List.mem_append_left _ hTriple⟩
  · intro name hName hMask
    exact List.mem_append_left _ (h.restricted name hName hMask)

/- What is shown by patterns that are added is shown too. -/
theorem extend
    (h : Covers config columns context args rank before)
    {name : String}
    {arg : Arg}
    (hArg : args.lookup name = some arg)
    {isOptional : Bool}
    {added : List Pattern}
    (hShown : arg.Shown isOptional added) :
    Covers config (columns ++ [(isOptional, name)]) context args rank
      (before ++ added) := by
  refine ⟨?_, (h.append added).ranked, (h.append added).restricted⟩
  intro isOptional' name' hMem
  rcases List.mem_append.mp hMem with hMem | hMem
  · exact (h.append added).shown isOptional' name' hMem
  · cases List.mem_singleton.mp hMem
    exact ⟨arg, hArg, hShown.mono (List.subset_append_right _ _)⟩

variable {R : β → List Pattern → Prop}

/- Whatever is written next keeps what is shown. -/
theorem emits_frame
    (h : Covers config columns context args rank before)
    {x : GroupM α}
    (hx : Group.Writes x fun _ _ => True)
    {f : α → EmitM β}
    (hf :
      ∀ a now, Covers config columns context args rank now →
        Group.Emits (f a) fun b w => R b (now ++ w)) :
    Group.Emits ((liftM x : EmitM α) >>= f)
      fun b w => R b (before ++ w) := by
  apply Group.Emits.bind_onto
    (Q := fun _ => Covers config columns context args rank)
    (.lift (hx.mono fun _ w _ => h.append w))
  exact hf

/- A triple with the node of an argument shows the argument. -/
theorem emits_triple
    (h : Covers config columns context args rank before)
    {name : String}
    {arg : Arg}
    (hArg : args.lookup name = some arg)
    {n : Node}
    (hNode : context.node arg = .ok n)
    (subject predicate : Node)
    {f : Unit → EmitM β}
    (hf :
      ∀ now,
        Covers config (columns ++ [(false, name)]) context args rank now →
          Group.Emits (f ()) fun b w => R b (now ++ w)) :
    Group.Emits
      ((liftM (Group.triple subject predicate n) : EmitM Unit) >>= f)
      fun b w => R b (before ++ w) := by
  apply Group.Emits.bind_onto
    (Q := fun _ =>
      Covers config (columns ++ [(false, name)]) context args rank)
  · apply Group.Emits.lift
    apply (Group.Writes.triple subject predicate n).mono
    rintro _ w rfl
    apply h.extend hArg
    apply Arg.shownIn_of_node hNode
    exact
      ⟨_, _, _, List.mem_singleton.mpr rfl, Or.inr (Or.inr rfl)⟩
  · exact fun _ => hf

/- A component is shown in an optional group if it is open. -/
theorem emits_component
    (h : Covers config columns context args rank before)
    {name : String}
    {arg : Arg}
    (hArg : args.lookup name = some arg)
    (encode : Arg → Except EntryError Node)
    (deep : Node)
    (predicate : String)
    (placeholder : Option Node)
    {f : Unit → EmitM β}
    (hf :
      ∀ now,
        Covers config (columns ++ [(true, name)]) context args rank now →
          Group.Emits (f ()) fun b w => R b (now ++ w)) :
    Group.Emits
      (component encode deep predicate placeholder arg >>= f)
      fun b w => R b (before ++ w) := by
  apply Group.Emits.bind_onto
    (Q := fun _ =>
      Covers config (columns ++ [(true, name)]) context args rank)
  · have hShown :=
      Wikidata.emits_component encode deep predicate placeholder arg
    exact hShown.mono fun _ w hw a ha => h.extend hArg (hw a ha)
  · exact fun _ => hf

end Covers

/- Keeping unknown values out adds to a group. -/
theorem writes_requireKnown
    (value : Node) :
    Group.Writes (requireKnown value) fun _ _ => True := by
  unfold requireKnown
  split
  · exact .anything_add _
  · exact .pure trivial

/- A restriction of the language adds to a group. -/
theorem writes_restrictLanguage
    (d : Datatype)
    (value : Node)
    (language : Option String) :
    Group.Writes (restrictLanguage d value language)
      fun _ _ => True := by
  unfold restrictLanguage
  split
  · split
    · exact .anything_add _
    · exact .pure trivial
  · exact .pure trivial

/- Finding the node of a deep value adds to a group. -/
theorem writes_deepValue
    (config : WikidataConfig)
    (claim : Claim)
    (name : String) :
    Group.Writes (deepValue config claim name) fun _ _ => True := by
  unfold deepValue
  apply (claim.writes_link config _).bind
  intro predicate _ _
  apply (Group.Writes.freshVar _).bind
  intro deep _ _
  apply (Group.Writes.triple _ _ _).bind
  intro _ _ _
  exact .pure trivial

variable (config : WikidataConfig) (context : EmissionContext)
variable (args : Args)

/- A simple value is shown. -/
theorem covers_emitSimple
    (d : Datatype) :
    Group.Emits (emitSimple config d context args)
      (Covers config
        [(false, "subject"), (false, "property"),
          (false, "value")] context args) := by
  unfold emitSimple
  apply (Claim.emits_start config (some d) context args).bind
  intro claim _ hStart
  apply Group.Emits.bind_get
  intro arg hArg
  apply Group.Emits.bind_except
  intro value hValue
  apply hStart.emits_frame (claim.writes_link config _)
  intro predicate _ hCovers
  apply hCovers.emits_triple hArg hValue
  intro _ hCovers
  apply hCovers.emits_frame (writes_requireKnown value)
  intro _ _ hCovers
  apply hCovers.emits_frame (writes_restrictLanguage d value _)
  intro _ _ hCovers
  exact .pure (hCovers.append [])

/- An amount is shown, and the other components if they are. -/
theorem covers_emitQuantity :
    Group.Emits (emitQuantity config context args)
      (Covers config
        [(false, "subject"), (false, "property"),
          (false, "amount"), (true, "unit"), (true, "lower"),
          (true, "upper")] context args) := by
  unfold emitQuantity
  apply (Claim.emits_start config _ context args).bind
  intro claim _ hStart
  apply hStart.emits_frame (writes_deepValue config claim _)
  intro deep _ hCovers
  apply Group.Emits.bind_get
  intro arg hArg
  apply Group.Emits.bind_except
  intro amount hAmount
  apply hCovers.emits_triple hArg hAmount
  intro _ hCovers
  apply Group.Emits.bind_get
  intro unit hUnit
  apply hCovers.emits_component hUnit
  intro _ hCovers
  apply Group.Emits.bind_get
  intro lower hLower
  apply hCovers.emits_component hLower
  intro _ hCovers
  apply Group.Emits.bind_get
  intro upper hUpper
  apply hCovers.emits_component hUpper
  intro _ hCovers
  exact .pure (hCovers.append [])

/- An instant is shown, and the other components if they are. -/
theorem covers_emitTime :
    Group.Emits (emitTime config context args)
      (Covers config
        [(false, "subject"), (false, "property"),
          (false, "instant"), (true, "precision"),
          (true, "timezone"), (true, "calendar")] context args) := by
  unfold emitTime
  apply (Claim.emits_start config _ context args).bind
  intro claim _ hStart
  apply hStart.emits_frame (writes_deepValue config claim _)
  intro deep _ hCovers
  apply Group.Emits.bind_get
  intro arg hArg
  apply Group.Emits.bind_except
  intro instant hInstant
  apply hCovers.emits_triple hArg hInstant
  intro _ hCovers
  apply Group.Emits.bind_get
  intro precision hPrecision
  apply hCovers.emits_component hPrecision
  intro _ hCovers
  apply Group.Emits.bind_get
  intro timezone hTimezone
  apply hCovers.emits_component hTimezone
  intro _ hCovers
  apply Group.Emits.bind_get
  intro calendar hCalendar
  apply hCovers.emits_component hCalendar
  intro _ hCovers
  exact .pure (hCovers.append [])

/- An unknown value has no column. -/
theorem covers_emitSomeValue :
    Group.Emits (emitSomeValue config context args)
      (Covers config [(false, "subject"), (false, "property")]
        context args) := by
  unfold emitSomeValue
  apply (Claim.emits_start config none context args).bind
  intro claim _ hStart
  apply hStart.emits_frame (claim.writes_link config _)
  intro predicate _ hCovers
  apply hCovers.emits_frame
    ((Group.Writes.freshVar _).mono fun _ _ _ => trivial)
  intro placeholder _ hCovers
  apply hCovers.emits_frame (.anything_add _)
  intro _ _ hCovers
  apply hCovers.emits_frame (.anything_add _)
  intro _ _ hCovers
  exact .pure (hCovers.append [])

/- A missing value has no column. -/
theorem covers_emitNoValue :
    Group.Emits (emitNoValue config context args)
      (Covers config [(false, "subject"), (false, "property")]
        context args) := by
  unfold emitNoValue
  apply (Claim.emits_start config none context args).bind
  intro claim _ hStart
  apply hStart.emits_frame (claim.writes_link config _)
  intro type _ hCovers
  apply hCovers.emits_frame (.anything_add _)
  intro _ _ hCovers
  exact .pure (hCovers.append [])

end Wikidata

end StatementQuery

------------------------------------------------------------
-- Columns Of The Plans
------------------------------------------------------------

namespace StatementQuery

namespace Term

/- The names of a term, and whether they fill optional slots. -/
def columns (t : Term) : List (Bool × String) :=
  (t.fillings Entry.statementSlot).map fun (slot, v) =>
    (slot.isOptional, v.name)

theorem mem_columns
    {t : Term}
    {slot : Slot}
    {v : Variable}
    (h : (slot, v) ∈ t.fillings Entry.statementSlot) :
    (slot.isOptional, v.name) ∈ t.columns :=
  List.mem_map.mpr ⟨(slot, v), h, rfl⟩

end Term

namespace Wikidata

/- The emission of an entry shows all that its pattern names. -/
theorem covers_emit
    {config : WikidataConfig}
    {e : Entry}
    (he : e ∈ entries config)
    {p : Term}
    (hp : p ∈ e.patterns)
    (context : EmissionContext)
    (args : Args) :
    Group.Emits (e.emit context args)
      (Covers config p.columns context args) := by
  rcases mem_entries he with
    ⟨d, _, id, rfl⟩ | rfl | rfl | rfl | rfl
  all_goals cases List.mem_singleton.mp hp
  · exact covers_emitSimple config context args d
  · exact covers_emitQuantity config context args
  · exact covers_emitTime config context args
  · exact covers_emitSomeValue config context args
  · exact covers_emitNoValue config context args

variable {config : WikidataConfig} {options : Options}
variable {f : Filter} {index : Nat} {a : Compile.Addition}

/-
  A branch shows the variables of its template, those that may
  be absent in optional groups, and the rank if it is asked for.
-/
theorem shown_of_made
    (hMade : Compile.Made (taskOf config options f) index a)
    (hMem :
      (a.target, a.entry) ∈
        Target.all (codec config) f ×ˢ entries config) :
    (∀ slot v,
        (slot, v) ∈ a.found.template.fillings Entry.statementSlot →
          (Arg.var v.name).Shown slot.isOptional a.branch) ∧
      a.found.template.WellShaped ∧
      (f.annotated = true → RankShown a.rank a.branch) := by
  rcases List.mem_product.mp hMem with ⟨ht, he⟩
  rcases hMade.plan with ⟨goal, hGoal, hPlan⟩
  have hFormed := (Target.spec_statement ht hGoal).1
  rcases List.exists_of_findSome?_eq_some hPlan with
    ⟨p, hp, hMatch⟩
  have hPattern := wellFormed_patterns config a.entry he p hp
  rcases hMade.exists_written
      (covers_emit he hp
        ⟨codec config, f, options⟩ a.found.args) with
    ⟨written, hCovers, hSubset⟩
  have hArgs :
      ∀ v ∈ p.occurrences, a.found.args.lookup v.name ≠ none := by
    intro v hv
    rcases Term.exists_mem_fillings hPattern.shaped hv
        Entry.statementSlot with
      ⟨slot, hSlot⟩
    rcases hCovers.shown _ _ (Term.mem_columns hSlot) with
      ⟨arg, hArg, _⟩
    rw [hArg]
    exact Option.some_ne_none arg
  refine ⟨?_, ?_, ?_⟩
  · intro slot w hw
    rcases Entry.exists_of_mem_fillings_template hPattern hFormed
        hMatch hArgs hw with
      ⟨v, hv, hVar⟩
    rcases hCovers.shown _ _ (Term.mem_columns hv) with
      ⟨arg, hArg, hShown⟩
    cases Option.some.inj (hVar.symm.trans hArg)
    exact hShown.mono hSubset
  · rcases Entry.exists_matches hPattern hFormed hMatch with
      ⟨_, _, _, hMatches⟩
    exact hMatches.shaped
  · intro hAnnotated
    rcases hCovers.ranked hAnnotated with
      ⟨name, s, hRank, hTriple⟩
    exact ⟨name, s, hRank, hSubset hTriple⟩

/-
  A compilation for a Wikidata store has a branch for each plan.
  A column that fills a required slot of the template is in a
  triple of the branch, and one that fills only optional slots
  is in a triple of an optional group of it.  If ranks are asked
  for, the plan has a rank variable, and a triple of the branch
  has it for the rank of a statement.
-/
theorem columns_shown
    {draft f : Filter}
    (hFilter : draft.build = .ok f)
    (config : WikidataConfig)
    (options : Options) :
    ∃ m q,
      mapping config = .ok m ∧
        (compile m options f).result = .ok q ∧
        ∀ (k : Nat) plan, q.plans[k]? = some plan →
          ∃ branches branch,
            q.query.patterns = [.union branches] ∧
              branches[k]? = some branch ∧
              (∀ slot v,
                (slot, v) ∈
                    plan.template.fillings Entry.statementSlot →
                  slot.isOptional = false →
                    (Node.var v.name).ShownIn branch) ∧
              (∀ v ∈ plan.template.occurrences,
                (∀ slot,
                  (slot, v) ∈
                      plan.template.fillings Entry.statementSlot →
                    slot.isOptional = true) →
                  (Node.var v.name).ShownOptionally branch) ∧
              (f.annotated = true →
                ∃ rank statement,
                  plan.rankVariable = some rank ∧
                    .triple statement (ontology "rank") (.var rank) ∈
                      branch) := by
  rcases exists_compiled config options
      (Filter.checked_of_build hFilter) with
    ⟨q, hCompile⟩
  refine ⟨_, q, mapping_eq config, hCompile, ?_⟩
  intro k plan hPlan
  rcases Compile.exists_additions hCompile with
    ⟨added, hPlans, hPatterns, _, hMade, hKeys⟩
  rw [hPlans, List.getElem?_map] at hPlan
  rcases Option.map_eq_some_iff.mp hPlan with ⟨a, ha, rfl⟩
  have hMem : a ∈ added := List.mem_of_getElem? ha
  rcases shown_of_made (hMade k a ha)
      (hKeys.subset (List.mem_map_of_mem hMem)) with
    ⟨hShown, hShaped, hRanked⟩
  refine
    ⟨added.map Compile.Addition.branch, a.branch, ?_, ?_, ?_, ?_, ?_⟩
  · rw [hPatterns]
    cases added with
    | nil => cases hMem
    | cons _ _ => rfl
  · rw [List.getElem?_map, ha]
    rfl
  · intro slot v hv hRequired
    have hIn := hShown slot v hv
    rw [hRequired] at hIn
    exact hIn v.name rfl
  · intro v hv hOptional
    rcases Term.exists_mem_fillings hShaped hv Entry.statementSlot
      with ⟨slot, hSlot⟩
    have hIn := hShown slot v hSlot
    rw [hOptional slot hSlot] at hIn
    exact hIn v.name rfl
  · exact hRanked

/- Statements with a quantity, together with their ranks. -/
def rankedQuantities : Filter where
  snakMask := SnakMask.of .value
  valueMask := DatatypeMask.of .quantity
  annotated := true

/- The variables of its one plan, and what they fill. -/
def quantityFillings : List (Slot × Variable) :=
  [(.required .entity, ⟨"subject", .entity⟩),
    (.required .property, ⟨"property", .property⟩),
    (.required .quantity, ⟨"amount0", .quantity⟩),
    (.optional .item, ⟨"unit0", .item⟩),
    (.optional .quantity, ⟨"lower0", .quantity⟩),
    (.optional .quantity, ⟨"upper0", .quantity⟩)]

theorem columns_shown_rankedQuantities :
    ∃ m q branches branch,
      mapping {} = .ok m ∧
        (compile m {} rankedQuantities).result = .ok q ∧
        q.query.patterns = [.union branches] ∧
        branches[0]? = some branch ∧
        (∀ name ∈ ["subject", "property", "amount0"],
          (Node.var name).ShownIn branch) ∧
        (∀ name ∈ ["unit0", "lower0", "upper0"],
          (Node.var name).ShownOptionally branch) ∧
        ∃ statement,
          .triple statement (ontology "rank") (.var "rank") ∈
            branch := by
  have hPlans :
      ((compile ⟨entries {}, codec {}⟩ {}
          rankedQuantities).result.toOption.map fun q =>
        q.plans.map fun plan =>
          (plan.template.fillings Entry.statementSlot,
            plan.rankVariable)) =
        some [(quantityFillings, some "rank")] := by
    decide +kernel
  have hFilter :
      rankedQuantities.build = .ok rankedQuantities := rfl
  rcases columns_shown hFilter {} {} with
    ⟨m, q, hMapping, hCompile, hAll⟩
  cases Except.ok.inj ((mapping_eq {}).symm.trans hMapping)
  rw [hCompile] at hPlans
  rcases List.map_eq_singleton_iff.mp (Option.some.inj hPlans) with
    ⟨plan, hOne, hPlan⟩
  rcases Prod.mk.inj hPlan with ⟨hFillings, hRank⟩
  have hPlanAt : q.plans[0]? = some plan := by
    rw [hOne]
    rfl
  rcases hAll 0 plan hPlanAt with
    ⟨branches, branch, hPatterns, hBranch, hIn, hOptionally,
      hRanked⟩
  refine
    ⟨_, q, branches, branch, hMapping, hCompile, hPatterns,
      hBranch, ?_, ?_, ?_⟩
  · have hFill :
        ∀ name ∈ ["subject", "property", "amount0"],
          ∃ x ∈ quantityFillings,
            x.2.name = name ∧ x.1.isOptional = false := by
      decide
    intro name hName
    rcases hFill name hName with ⟨⟨slot, v⟩, hMem, rfl, hRequired⟩
    exact hIn slot v (hFillings ▸ hMem) hRequired
  · have hFill :
        ∀ name ∈ ["unit0", "lower0", "upper0"],
          ∃ x ∈ quantityFillings,
            x.2.name = name ∧
              ∀ y ∈ quantityFillings,
                y.2 = x.2 → y.1.isOptional = true := by
      decide
    intro name hName
    rcases hFill name hName with ⟨⟨slot, v⟩, hMem, rfl, hOnly⟩
    rw [← hFillings] at hMem hOnly
    apply hOptionally v
      (Term.mem_occurrences_of_mem_fillings hMem)
    intro slot' hSlot
    exact hOnly (slot', v) hSlot rfl
  · rcases hRanked rfl with ⟨rank, statement, hSome, hTriple⟩
    rw [hRank] at hSome
    cases hSome
    exact ⟨statement, hTriple⟩

end Wikidata

end StatementQuery
