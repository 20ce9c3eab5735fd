import StatementQuery.Proofs.IndependentAlternatives

/-
  Which entries a compilation selects.

  While a filter is compiled, names are used up, so the match
  by which an entry serves a target depends on what was served
  before.  Whether there is one does not, and neither does
  whether the terms that snaks are asked of are left in it.  So
  where no call fails or is given up, the entries of the plans
  can be told from the targets and the entries alone.

  Key definitions include:
    * `Bindings.settles`
    * `Entry.serves`
    * `Entry.isSelected`
    * `Compile.selection`
    * `Compile.Succeeds`

  Main declarations:
    * `Compile.emitBranch_eq_skip_iff`
    * `Entry.serves_of_plan?`
    * `Compile.entryIds_of_serve`
    * `Compile.exists_compile_selection`
-/

------------------------------------------------------------
-- Branches That Are Given Up
------------------------------------------------------------

namespace StatementQuery

/-
  Whether a part of a target is left under bindings, or no
  snaks are asked of it.
-/
def Bindings.settles
    (θ : Bindings)
    (part : Term × List Ground) :
    Bool :=
  part.2.isEmpty || (Term.settle? θ part.1).any Option.isSome

theorem Bindings.settles_iff
    (θ : Bindings)
    (part : Term × List Ground) :
    θ.settles part = true ↔
      part.2.isEmpty = true ∨
        ∃ s, Term.settle? θ part.1 = some (some s) := by
  simp only [settles, Bool.or_eq_true, Option.any_eq_true,
    Option.isSome_iff_exists]
  apply or_congr_right
  constructor
  · rintro ⟨side, hSettle, s, rfl⟩
    exact ⟨s, hSettle⟩
  · rintro ⟨s, hSettle⟩
    exact ⟨some s, hSettle, s, rfl⟩

namespace Compile

variable {task : Task} {t : Target} {e : Entry}
variable {found : PatternMatch}

/- Snaks are given up exactly where no focus is left. -/
theorem constrainPart_eq_skip_iff
    (task : Task)
    (part : Term × List Ground)
    (g : Group) :
    ((constrainPart task found part).run g).1 = .error .skip ↔
      found.bindings.settles part = false := by
  rw [← Bool.not_eq_true, Bindings.settles_iff]
  unfold constrainPart
  cases hSnaks : part.2.isEmpty with
  | true =>
      unfold constrainSettled
      rw [if_pos hSnaks]
      exact iff_of_false nofun (by simp)
  | false =>
      by_cases hSettles :
          ∃ s, Term.settle? found.bindings part.1 = some (some s)
      · refine iff_of_false ?_ (by simp [hSettles])
        rcases hSettles with ⟨s, hs⟩
        rw [constrainSettled_of_settles _ _ hs hSnaks]
        exact constrain_ne_skip _ _ s part.2 g
      · rw [constrainSettled_of_not_settles _ _ hSettles hSnaks]
        exact iff_of_true rfl (by simpa using hSettles)

/-
  A branch whose own call succeeds and that does not fail is
  given up exactly if a part that snaks are asked of is not
  left.
-/
theorem emitBranch_eq_skip_iff
    {index : Nat}
    {pool : NamePool}
    {rank : Option String}
    (hOwn : (ownCall task e found pool).result = .ok rank)
    (hFailed :
      ∀ text,
        ((emitBranch task t e found index).run.run
            { pool := pool.reserveAll found.names }).1 ≠
          .error (.failed text)) :
    ((emitBranch task t e found index).run.run
        { pool := pool.reserveAll found.names }).1 =
        .error .skip ↔
      t.constrained.all found.bindings.settles = false := by
  rcases hRun : (ownCall task e found pool).run with ⟨result, g⟩
  have hResult : result = .ok rank := by
    rw [← hOwn, Call.result, hRun]
  rw [hResult] at hRun
  constructor
  · intro hSkip
    rcases emitBranch_eq_error_iff.mp hSkip with
      hOwn' | ⟨_, _, part, g', _, hComes, hPart⟩
    · rw [hOwn] at hOwn'
      cases hOwn'
    · rw [List.all_eq_false]
      refine ⟨part, hComes.mem, ?_⟩
      rw [(constrainPart_eq_skip_iff task part g').mp hPart]
      exact Bool.false_ne_true
  · -- The subject comes first; the value is come to only if the
    -- subject is not given up.
    intro hAll
    simp only [Target.constrained, List.all_cons, List.all_nil,
      Bool.and_true, Bool.and_eq_false_iff] at hAll
    cases hSubject :
        (constrainPart task found (t.subject, t.subjectSnaks)).run
          g with
    | mk outcome g' =>
    rcases outcome with (_ | text) | _
    · exact emitBranch_eq_error_iff.mpr
        (Or.inr ⟨rank, g, _, g, hRun, .head, by rw [hSubject]⟩)
    · exact absurd
        (emitBranch_eq_error_iff.mpr
          (Or.inr ⟨rank, g, _, g, hRun, .head, by rw [hSubject]⟩))
        (hFailed text)
    · rcases hAll with hAll | hAll
      · have hSkip := (constrainPart_eq_skip_iff task _ g).mpr hAll
        rw [hSubject] at hSkip
        cases hSkip
      · exact emitBranch_eq_error_iff.mpr
          (Or.inr
            ⟨rank, g, _, g', hRun, .tail hSubject .head,
              (constrainPart_eq_skip_iff task _ g').mpr hAll⟩)

end Compile

end StatementQuery

------------------------------------------------------------
-- Entries That Serve A Target
------------------------------------------------------------

namespace StatementQuery

namespace Entry

/-
  Whether an entry serves a target, as it would with no name
  in use.
-/
def serves (e : Entry) (t : Target) : Bool :=
  match t.statement e.snakKind with
  | .ok goal =>
      (e.plan? goal []).any fun found =>
        t.constrained.all found.bindings.settles
  | .error _ => false

/- Whether an entry serves a target of a filter. -/
def isSelected (e : Entry) (f : Filter) (t : Target) : Bool :=
  (e.excludes? f t).isNone && e.serves t

variable {codec : Codec} {f : Filter} {t : Target} {e : Entry}

/- Whether an entry serves a target does not depend on names. -/
theorem serves_of_plan?
    (hPatterns : ∀ p ∈ e.patterns, p.WellFormed)
    (ht : t ∈ Target.all codec f)
    {goal : Term}
    (hGoal : t.statement e.snakKind = .ok goal)
    (used : List String) :
    e.serves t =
      (e.plan? goal used).any fun found =>
        t.constrained.all found.bindings.settles := by
  rcases Target.spec_statement ht hGoal with ⟨hFormed, hNames⟩
  rcases Target.isPart_of_mem ht with ⟨hSubject, _, hValue⟩
  simp only [serves, hGoal]
  rcases plan?_copies hPatterns hFormed hNames [] used with
    ⟨hNone, hNone'⟩ |
      ⟨found, found', π, hPlan, hPlan', hKeeps, hCopies⟩
  · rw [hNone, hNone']
  rw [hPlan, hPlan']
  rcases settled_of_plan? hPatterns hFormed hPlan with
    ⟨κ, hSettled⟩
  rcases settled_of_plan? hPatterns hFormed hPlan' with
    ⟨κ', hSettled'⟩
  have hSame :
      ∀ part : Term × List Ground, Target.IsPart part.1 →
        found.bindings.settles part =
          found'.bindings.settles part := by
    intro part hPart
    rw [Bool.eq_iff_iff, Bindings.settles_iff,
      Bindings.settles_iff,
      Compile.exists_settle?_iff hKeeps hCopies.bindings hSettled
        hSettled' hPart]
  simp only [Option.any_some, Target.constrained, List.all_cons,
    hSame (t.subject, t.subjectSnaks) hSubject,
    hSame (t.value, t.valueSnaks) hValue, List.all_nil]

end Entry

end StatementQuery

------------------------------------------------------------
-- The Selection Of A Compilation
------------------------------------------------------------

namespace StatementQuery

namespace Compile

/- The entries that serve the targets of a filter, in order. -/
def selection (m : Mapping) (f : Filter) : List Nat :=
  if f.isEmpty then []
  else
    (Target.all m.codec f).flatMap fun t =>
      (m.entries.filter fun e => e.isSelected f t).map Entry.id

/- Every call that a compilation makes succeeds. -/
def Succeeds (task : Task) : Prop :=
  ∀ e call, Calls task e call → ∃ rank, call.result = .ok rank

/- What each step adds, all steps add one after another. -/
theorem entryIds_of_forEach
    {step : α → CompileM (Except CompileError Unit)}
    {xs : List α}
    (chosen : α → List Nat)
    {p p' : Progress}
    (hStep :
      ∀ x r r',
        Comes step p xs x r →
          (step x).run r = (.ok (), r') →
            r'.plans.map BranchPlan.entryId =
              r.plans.map BranchPlan.entryId ++ chosen x)
    (hRun : (forEach step xs).run p = (.ok (), p')) :
    p'.plans.map BranchPlan.entryId =
      p.plans.map BranchPlan.entryId ++ xs.flatMap chosen := by
  induction xs generalizing p with
  | nil =>
      cases hRun
      rw [List.flatMap_nil, List.append_nil]
  | cons x xs ih =>
      rcases exists_of_forEach_cons hRun with ⟨r, hFirst, hRest⟩
      have hOthers :=
        ih (fun y s s' hComes => hStep y s s' (.tail hFirst hComes))
          hRest
      rw [hOthers, hStep x p r .head hFirst, List.flatMap_cons,
        List.append_assoc]

variable {task : Task} {t : Target} {e : Entry}

/- A branch is added exactly if the parts it needs are left. -/
theorem entryIds_of_addBranch
    {found : PatternMatch}
    {p p' : Progress}
    {rank : Option String}
    (hOwn :
      (ownCall task e found p.alternatives.pool).result =
        .ok rank)
    (hRun : (addBranch task t e found).run p = (.ok (), p')) :
    p'.plans.map BranchPlan.entryId =
      p.plans.map BranchPlan.entryId ++
        if t.constrained.all found.bindings.settles then [e.id]
        else [] := by
  have hFailed :
      ∀ text,
        ((emitBranch task t e found p.plans.length).run.run
            { pool :=
                p.alternatives.pool.reserveAll found.names }).1 ≠
          .error (.failed text) := by
    intro text hText
    have hError :=
      addBranch_eq_error_iff.mpr ⟨text, hText, rfl⟩
    rw [hRun] at hError
    cases hError
  have hSkip := emitBranch_eq_skip_iff hOwn hFailed
  rcases plans_of_addBranch hRun with
    ⟨hResult, hPlans⟩ | ⟨rank', hResult, hPlans⟩
  · rw [hSkip.mp hResult, hPlans]
    exact (List.append_nil _).symm
  · have hAll :
        t.constrained.all found.bindings.settles = true := by
      rw [← Bool.not_eq_false]
      intro hNone
      have hGivenUp := hSkip.mpr hNone
      rw [hResult] at hGivenUp
      cases hGivenUp
    rw [hAll, hPlans, List.map_append]
    rfl

/-
  An entry that is come to adds a plan exactly if it is
  selected.
-/
theorem entryIds_of_serve
    (hPatterns : ∀ p ∈ e.patterns, p.WellFormed)
    (ht : t ∈ Target.all task.mapping.codec task.filter)
    {p p' : Progress}
    (hOwn :
      ∀ found, Tries task t e found p →
        ∃ rank,
          (ownCall task e found p.alternatives.pool).result =
            .ok rank)
    (hProper : task.filter.isEmpty = false)
    (hComes :
      ∃ r,
        Comes (fun t => serveEntries task t task.mapping.entries)
            (started task)
            (Target.all task.mapping.codec task.filter) t r ∧
          Comes (serve task t) r task.mapping.entries e p)
    (hRun : (serve task t e).run p = (.ok (), p')) :
    p'.plans.map BranchPlan.entryId =
      p.plans.map BranchPlan.entryId ++
        if e.isSelected task.filter t then [e.id] else [] := by
  cases hExcludes : e.excludes? task.filter t with
  | some reason =>
      unfold serve at hRun
      rw [hExcludes] at hRun
      cases hRun
      simp [Entry.isSelected, hExcludes]
  | none =>
  cases hGoal : t.statement e.snakKind with
  | error err =>
      unfold serve at hRun
      rw [hExcludes, hGoal] at hRun
      cases hRun
  | ok goal =>
  have hServes :=
    Entry.serves_of_plan? hPatterns ht hGoal
      p.alternatives.pool.used
  simp only [Entry.isSelected, hExcludes, Option.isNone_none,
    Bool.true_and, hServes]
  rw [run_serve_eq hExcludes hGoal] at hRun
  cases hPlan : e.plan? goal p.alternatives.pool.used with
  | none =>
      rw [hPlan] at hRun
      cases hRun
      simp
  | some found =>
      rw [hPlan] at hRun
      rcases hOwn found
          ⟨hProper, hComes, hExcludes, goal, hGoal, hPlan⟩ with
        ⟨rank, hRank⟩
      rw [Option.any_some]
      exact entryIds_of_addBranch hRank hRun

/- Adding the chosen ones one by one is filtering. -/
theorem flatMap_ite_eq_map_filter
    (chosen : Entry → Bool)
    (es : List Entry) :
    (es.flatMap fun e => if chosen e then [e.id] else []) =
      (es.filter chosen).map Entry.id := by
  induction es with
  | nil => rfl
  | cons e es ih =>
      rw [List.flatMap_cons, ih, List.filter_cons]
      cases chosen e <;> rfl

/-
  Going through the targets, where every call succeeds, comes
  to plans of the entries that are selected.
-/
theorem entryIds_of_targets
    (task : Task)
    (hPatterns :
      ∀ e ∈ task.mapping.entries, ∀ p ∈ e.patterns, p.WellFormed)
    (hProper : task.filter.isEmpty = false)
    (hCalls : Succeeds task)
    {p : Progress}
    (hRun :
      (forEach
            (fun t => serveEntries task t task.mapping.entries)
            (Target.all task.mapping.codec task.filter)).run
          (started task) =
        (.ok (), p)) :
    p.plans.map BranchPlan.entryId =
      selection task.mapping task.filter := by
  rw [selection, hProper]
  refine entryIds_of_forEach _ ?_ hRun
  intro t r r' hTarget hServe
  rw [serveEntries_eq_forEach] at hServe
  rw [← flatMap_ite_eq_map_filter]
  refine entryIds_of_forEach _ ?_ hServe
  intro e s s' hEntry hStep
  exact
    entryIds_of_serve (hPatterns e hEntry.mem) hTarget.mem
      (fun found hTries => hCalls e _ (.own hTries)) hProper
      ⟨r, hTarget, hEntry⟩ hStep

/-
  A compilation whose calls succeed selects exactly the entries
  that serve a target of the filter.
-/
theorem exists_compile_selection
    {m : Mapping}
    {options : Options}
    {f : Filter}
    (hPatterns :
      ∀ e ∈ m.entries, ∀ p ∈ e.patterns, p.WellFormed)
    (hFilter : f.Checked)
    (hCalls : Succeeds ⟨m, options, f⟩) :
    ∃ q,
      (compile m options f).result = .ok q ∧
        q.plans.map BranchPlan.entryId = selection m f := by
  cases hSome : f.isEmpty with
  | true =>
      rcases exists_compile_of_isEmpty m options hSome with
        ⟨q, hCompile, hNone⟩
      refine ⟨q, hCompile, ?_⟩
      rw [hNone, selection, if_pos hSome]
      rfl
  | false =>
  cases hCompile : (compile m options f).result with
  | error err =>
      rcases (result_compile_eq_error_iff_calls hPatterns
          hFilter).mp hCompile with
        ⟨e, call, text, hCall, hFails, _⟩
      rcases hCalls e call hCall with ⟨rank, hRank⟩
      rw [hRank] at hFails
      cases hFails
  | ok q =>
      rcases exists_served_of_compile hSome hCompile with
        ⟨p, hRun, hPlans⟩
      refine ⟨q, rfl, ?_⟩
      rw [hPlans]
      exact
        entryIds_of_targets ⟨m, options, f⟩ hPatterns hSome hCalls
          hRun

end Compile

end StatementQuery
