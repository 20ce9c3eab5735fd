import StatementQuery.Compile.Basic
import StatementQuery.Proofs.Emissions
import StatementQuery.Proofs.PatternMatching

/-
  Compilations that run to their end.

  Every entry is tried on every target.  Where each of them
  either is passed over or emits a branch, the compilation
  ends in a query, and each branch that was emitted has its
  plan there.  However it ends, each of its plans comes from
  an entry and a target.

  Key definitions include:
    * `Compile.Serviceable`
    * `Compile.Extends`
    * `Compile.Planned`
    * `Compile.Yields`

  Main declarations:
    * `Compile.completes_serveTargets`
    * `exists_compile`
    * `Compile.yields_serveTargets`
    * `Compile.plans_of_compile`
-/

------------------------------------------------------------
-- Steps Of A Compilation
------------------------------------------------------------

namespace StatementQuery

namespace Compile

/-
  An entry that is tried on a target does not fail, whatever
  names are in use besides those that are reserved.
-/
def Serviceable (task : Task) (t : Target) (e : Entry) : Prop :=
  e.excludes? task.filter t = none →
    ∃ goal,
      t.statement e.snakKind = .ok goal ∧
        ∀ used found,
          reservedNames task.options ⊆ used →
            e.plan? goal used = some found →
              ∀ index,
                Group.Succeeds
                  (emitBranch task t e found index)

/-
  An entry serves a target, whatever names are in use besides
  those that are reserved, through a match with a property.
-/
def Planned
    (task : Task)
    (t : Target)
    (e : Entry)
    (P : PatternMatch → Prop) :
    Prop :=
  e.excludes? task.filter t = none ∧
    ∀ goal, t.statement e.snakKind = .ok goal →
      ∀ used, reservedNames task.options ⊆ used →
        ∃ found, e.plan? goal used = some found ∧ P found

/- A later state has the names and plans of an earlier one. -/
structure Extends (p p' : Progress) : Prop where
  used :
    p.alternatives.pool.used ⊆ p'.alternatives.pool.used
  plans : p.plans ⊆ p'.plans

/- The plan of a match, with a variable for the rank. -/
def planOf
    (e : Entry)
    (found : PatternMatch)
    (rank : Option String) :
    BranchPlan where
  entryId := e.id
  pattern := found.pattern
  bindings := found.bindings
  template := found.template
  rankVariable := rank

/- The plan of a match with a property is among the plans. -/
def Plans (p : Progress) (e : Entry) (P : PatternMatch → Prop) :
    Prop :=
  ∃ found rank, P found ∧ planOf e found rank ∈ p.plans

namespace Extends

theorem refl
    (p : Progress) :
    Extends p p :=
  ⟨fun _ hn => hn, fun _ hq => hq⟩

theorem trans
    {p q r : Progress}
    (h : Extends p q)
    (h' : Extends q r) :
    Extends p r :=
  ⟨fun _ hn => h'.used (h.used hn),
    fun _ hq => h'.plans (h.plans hq)⟩

/- Plans are kept. -/
theorem plans_mono
    {p q : Progress}
    (h : Extends p q)
    {e : Entry}
    {P : PatternMatch → Prop}
    (hPlans : Plans p e P) :
    Plans q e P := by
  rcases hPlans with ⟨found, rank, hP, hMem⟩
  exact ⟨found, rank, hP, h.plans hMem⟩

end Extends

/- A branch that succeeds is kept. -/
theorem run_branch
    {ε α : Type}
    {body : GroupM (Except ε α)}
    {a : α}
    {inner : Group}
    (u : Alternatives)
    (h : body.run { pool := u.pool } = (.ok a, inner)) :
    (Alternatives.branch body).run u =
      (.ok a,
        { pool := inner.pool
          branches := u.branches ++ [inner.patterns] }) := by
  simp [Alternatives.branch, h]
  rfl

/- Of a branch that is given up, only the names stay. -/
theorem run_branch_of_error
    {ε α : Type}
    {body : GroupM (Except ε α)}
    {err : ε}
    {inner : Group}
    (u : Alternatives)
    (h : body.run { pool := u.pool } = (.error err, inner)) :
    (Alternatives.branch body).run u =
      (.error err,
        { pool := inner.pool
          branches := u.branches }) := by
  simp [Alternatives.branch, h]
  rfl

/- What is done with a branch once it has been tried. -/
def afterBranch
    (e : Entry)
    (found : PatternMatch) :
    Except EntryError (Option String) →
      CompileM (Except CompileError Unit)
| .ok rank => do
    modify fun p =>
      { p with plans := p.plans ++ [planOf e found rank] }
    pure (.ok ())
| .error .skip => do
    record (.skipped e.id .emission)
    pure (.ok ())
| .error (.failed text) => pure (.error (.entry e.id text))

/- A branch is tried with the names of its match in use. -/
theorem run_addBranch_eq
    {task : Task}
    {t : Target}
    {e : Entry}
    {found : PatternMatch}
    {p : Progress}
    {result : Except EntryError (Option String)}
    {u : Alternatives}
    (h :
      (Alternatives.branch
          (emitBranch task t e found p.plans.length).run).run
          ⟨p.alternatives.pool.reserveAll found.names,
            p.alternatives.branches⟩ =
        (result, u)) :
    (addBranch task t e found).run p =
      (afterBranch e found result).run
        { p with alternatives := u } := by
  have hResult := congrArg Prod.fst h
  have hAfter := congrArg Prod.snd h
  subst hResult hAfter
  rfl

section Trials

variable {task : Task} {t : Target} {e : Entry}
variable {found : PatternMatch} {p : Progress} {g : Group}

/- A branch that is emitted is kept, and gets a plan. -/
theorem run_addBranch_of_ok
    {rank : Option String}
    (h :
      (emitBranch task t e found p.plans.length).run.run
          { pool := p.alternatives.pool.reserveAll found.names } =
        (.ok rank, g)) :
    (addBranch task t e found).run p =
      (.ok (),
        { p with
          alternatives :=
            ⟨g.pool, p.alternatives.branches ++ [g.patterns]⟩
          plans := p.plans ++ [planOf e found rank] }) := by
  rw [run_addBranch_eq (run_branch ⟨_, _⟩ h)]
  rfl

/- A branch that does not apply is passed over. -/
theorem run_addBranch_of_skip
    (h :
      (emitBranch task t e found p.plans.length).run.run
          { pool := p.alternatives.pool.reserveAll found.names } =
        (.error .skip, g)) :
    (addBranch task t e found).run p =
      (.ok (),
        { p with
          alternatives := ⟨g.pool, p.alternatives.branches⟩
          events := p.events ++ [.skipped e.id .emission] }) := by
  rw [run_addBranch_eq (run_branch_of_error ⟨_, _⟩ h)]
  rfl

/- A branch that fails ends the compilation. -/
theorem run_addBranch_of_failed
    {text : String}
    (h :
      (emitBranch task t e found p.plans.length).run.run
          { pool := p.alternatives.pool.reserveAll found.names } =
        (.error (.failed text), g)) :
    (addBranch task t e found).run p =
      (.error (.entry e.id text),
        { p with
          alternatives := ⟨g.pool, p.alternatives.branches⟩ }) := by
  rw [run_addBranch_eq (run_branch_of_error ⟨_, _⟩ h)]
  rfl

end Trials

/- A branch that is emitted gets a plan. -/
theorem run_addBranch
    {task : Task}
    {t : Target}
    {e : Entry}
    {found : PatternMatch}
    (h :
      ∀ index,
        Group.Succeeds (emitBranch task t e found index))
    (p : Progress) :
    ∃ rank p',
      (addBranch task t e found).run p = (.ok (), p') ∧
        Extends p p' ∧ planOf e found rank ∈ p'.plans := by
  rcases h p.plans.length
      { pool := p.alternatives.pool.reserveAll found.names } with
    ⟨⟨rank, hRank⟩, hNames⟩
  cases hOut :
      (emitBranch task t e found p.plans.length).run.run
        { pool := p.alternatives.pool.reserveAll found.names } with
  | mk result inner =>
      rw [hOut] at hRank hNames
      simp only at hRank
      subst hRank
      refine ⟨rank, _, run_addBranch_of_ok hOut, ?_, by simp⟩
      constructor
      · intro n hn
        apply hNames
        exact NamePool.used_subset_reserveAll _ found.names hn
      · intro q hq
        exact List.mem_append_left _ hq

/- A branch without snaks is what its entry emits. -/
theorem succeeds_emitBranch
    {task : Task}
    {t : Target}
    (hSubject : t.subjectSnaks = [])
    (hValue : t.valueSnaks = [])
    {e : Entry}
    {found : PatternMatch}
    (hEmit :
      Group.Succeeds
        (e.emit ⟨task.mapping.codec, task.filter, task.options⟩
          found.args))
    (index : Nat) :
    Group.Succeeds (emitBranch task t e found index) := by
  have hRest :
      Group.Succeeds
        (do
          let rank ←
            e.emit ⟨task.mapping.codec, task.filter, task.options⟩
              found.args
          constrainSettled task.mapping task.options
            found.bindings t.subject t.subjectSnaks
          constrainSettled task.mapping task.options
            found.bindings t.value t.valueSnaks
          Group.bindAs (.node (.integer index))
            (.var task.options.branchVariable)
          pure rank) := by
    rw [hSubject, hValue]
    refine hEmit.bind fun rank => ?_
    refine (Group.Succeeds.pure ()).bind fun _ => ?_
    refine (Group.Succeeds.pure ()).bind fun _ => ?_
    refine (Group.Succeeds.lift (.bindAs _ _)).bind fun _ => ?_
    exact .pure rank
  unfold emitBranch
  split
  next =>
    exact (Group.Succeeds.lift (.add _)).bind fun _ => hRest
  next => exact hRest

end Compile

end StatementQuery

------------------------------------------------------------
-- Serving All Targets
------------------------------------------------------------

namespace StatementQuery

namespace Compile

/-
  From any state with the reserved names, a computation ends
  without an error in a state that extends it and has a
  property.
-/
def Completes
    (task : Task)
    (body : CompileM (Except CompileError Unit))
    (Q : Progress → Prop) :
    Prop :=
  ∀ p : Progress,
    reservedNames task.options ⊆ p.alternatives.pool.used →
      ∃ p',
        body.run p = (.ok (), p') ∧ Extends p p' ∧ Q p'

/- What a later state keeps of an earlier one. -/
def Kept (Q : Progress → Prop) : Prop :=
  ∀ ⦃p p'⦄, Extends p p' → Q p → Q p'

/- The plans of a target and an entry are all there. -/
def Served (task : Task) (t : Target) (e : Entry) (p : Progress) :
    Prop :=
  ∀ P, Planned task t e P → Plans p e P

theorem kept_served
    (task : Task)
    (t : Target)
    (e : Entry) :
    Kept (Served task t e) := by
  intro p p' hExtends hServed P hPlanned
  exact hExtends.plans_mono (hServed P hPlanned)

/- Two computations one after the other. -/
theorem Completes.andThen
    {task : Task}
    {body next : CompileM (Except CompileError Unit)}
    {Q Q' : Progress → Prop}
    (h : Completes task body Q)
    (h' : Completes task next Q')
    (hKept : Kept Q) :
    Completes task
      (do
        match ← body with
        | .ok () => next
        | .error err => pure (.error err))
      (fun p => Q p ∧ Q' p) := by
  intro p hUsed
  rcases h p hUsed with ⟨q, hRun, hExtends, hQ⟩
  rcases h' q (fun n hn => hExtends.used (hUsed hn)) with
    ⟨r, hRun', hExtends', hQ'⟩
  refine
    ⟨r, ?_, hExtends.trans hExtends', hKept hExtends' hQ, hQ'⟩
  rw [StateT.run_bind, hRun]
  exact hRun'

/- What is passed over leaves names and plans as they are. -/
theorem Completes.record
    (task : Task)
    (event : CompileEvent)
    {Q : Progress → Prop}
    (hQ : ∀ p, Q p) :
    Completes task
      (do
        Compile.record event
        pure (.ok ()))
      Q := by
  intro p hUsed
  exact
    ⟨{ p with events := p.events ++ [event] }, rfl,
      ⟨fun _ hn => hn, fun _ hq => hq⟩, hQ _⟩

/- What is done with the match of an entry, if there is one. -/
def afterMatch
    (task : Task)
    (t : Target)
    (e : Entry) :
    Option PatternMatch → CompileM (Except CompileError Unit)
| none => do
    record (.skipped e.id .noPattern)
    pure (.ok ())
| some found => addBranch task t e found

/- An entry that is not ruled out is matched with a target. -/
theorem run_serve_eq
    {task : Task}
    {t : Target}
    {e : Entry}
    {goal : Term}
    (hExcludes : e.excludes? task.filter t = none)
    (hGoal : t.statement e.snakKind = .ok goal)
    (p : Progress) :
    (serve task t e).run p =
      (afterMatch task t e
        (e.plan? goal p.alternatives.pool.used)).run p := by
  unfold serve afterMatch
  rw [hExcludes, hGoal]
  rfl

/- An entry that is tried on a target. -/
theorem completes_serve
    {task : Task}
    {t : Target}
    {e : Entry}
    (h : Serviceable task t e) :
    Completes task (serve task t e) (Served task t e) := by
  intro p hUsed
  cases hEx : e.excludes? task.filter t with
  | some reason =>
      have hNot : ∀ q, Served task t e q := by
        intro q P hPlanned
        rw [hPlanned.1] at hEx
        exact absurd hEx (by simp)
      unfold serve
      rw [hEx]
      exact Completes.record task (.skipped e.id reason) hNot p hUsed
  | none =>
      rcases h hEx with ⟨goal, hGoal, hEmit⟩
      rw [run_serve_eq hEx hGoal]
      cases hPlan : e.plan? goal p.alternatives.pool.used with
      | none =>
          have hNot : ∀ q, Served task t e q := by
            intro q P hPlanned
            rcases hPlanned.2 goal hGoal _ hUsed with
              ⟨found, hFound, _⟩
            rw [hPlan] at hFound
            exact absurd hFound (by simp)
          exact
            Completes.record task (.skipped e.id .noPattern)
              hNot p hUsed
      | some found =>
          rcases run_addBranch (hEmit _ found hUsed hPlan) p with
            ⟨rank, p', hRun, hExtends, hMem⟩
          refine ⟨p', hRun, hExtends, ?_⟩
          intro P hPlanned
          rcases hPlanned.2 goal hGoal _ hUsed with
            ⟨found', hFound, hP⟩
          rw [hPlan] at hFound
          cases hFound
          exact ⟨found, rank, hP, hMem⟩

/- All entries that are tried on a target. -/
theorem completes_serveEntries
    {task : Task}
    {t : Target}
    (es : List Entry)
    (h : ∀ e ∈ es, Serviceable task t e) :
    Completes task (serveEntries task t es)
      (fun p => ∀ e ∈ es, Served task t e p) := by
  induction es with
  | nil =>
      intro p hUsed
      exact ⟨p, rfl, .refl p, by simp⟩
  | cons e es ih =>
      have hHead :=
        completes_serve (h e List.mem_cons_self)
      have hTail :=
        ih (fun e he => h e (List.mem_cons_of_mem _ he))
      intro p hUsed
      rcases
        hHead.andThen hTail (kept_served task t e) p hUsed with
        ⟨p', hRun, hExtends, hServed, hRest⟩
      exact
        ⟨p', hRun, hExtends,
          List.forall_mem_cons.2 ⟨hServed, hRest⟩⟩

/- All targets. -/
theorem completes_serveTargets
    {task : Task}
    (ts : List Target)
    (h :
      ∀ t ∈ ts, ∀ e ∈ task.mapping.entries,
        Serviceable task t e) :
    Completes task (serveTargets task ts)
      (fun p =>
        ∀ t ∈ ts, ∀ e ∈ task.mapping.entries,
          Served task t e p) := by
  induction ts with
  | nil =>
      intro p hUsed
      exact ⟨p, rfl, .refl p, by simp⟩
  | cons t ts ih =>
      have hHead :=
        completes_serveEntries task.mapping.entries
          (h t List.mem_cons_self)
      have hTail :=
        ih (fun t ht => h t (List.mem_cons_of_mem _ ht))
      have hKept :
          Kept fun p =>
            ∀ e ∈ task.mapping.entries, Served task t e p := by
        intro p p' hExtends hServed e he
        exact kept_served task t e hExtends (hServed e he)
      intro p hUsed
      rcases hHead.andThen hTail hKept p hUsed with
        ⟨p', hRun, hExtends, hServed, hRest⟩
      exact
        ⟨p', hRun, hExtends,
          List.forall_mem_cons.2 ⟨hServed, hRest⟩⟩

end Compile

/- Where a compilation starts. -/
def Compile.start (options : Options) : Progress where
  alternatives :=
    { pool := NamePool.empty.reserveAll (reservedNames options) }

/- The query of what has been compiled. -/
def Compile.queryOf
    (m : Mapping)
    (options : Options)
    (p : Progress) :
    CompiledQuery where
  query :=
    { distinct := options.distinct
      limit := options.limit
      patterns := [Alternatives.pattern p.alternatives.branches] }
  plans := p.plans
  branchVariable := options.branchVariable
  defaultLanguage := options.defaultLanguage
  codec := m.codec

/- A compilation serves the filter and makes a query of it. -/
theorem result_compile
    {m : Mapping}
    {options : Options}
    {f : Filter}
    {result : Except CompileError Unit}
    {p : Compile.Progress}
    (h :
      (Compile.serveFilter ⟨m, options, f⟩).run
          (Compile.start options) =
        (result, p)) :
    (compile m options f).result =
      result.map fun _ => Compile.queryOf m options p := by
  have hRun :
      (Compile.serveFilter ⟨m, options, f⟩).run
          { alternatives :=
              { pool :=
                  NamePool.empty.reserveAll
                    (Compile.reservedNames options) } } =
        (result, p) := h
  unfold compile
  dsimp only
  rw [hRun]
  cases result <;> rfl

/- A query comes from serving the filter to the end. -/
theorem exists_of_result_compile
    {m : Mapping}
    {options : Options}
    {f : Filter}
    {q : CompiledQuery}
    (h : (compile m options f).result = .ok q) :
    ∃ p,
      (Compile.serveFilter ⟨m, options, f⟩).run
            (Compile.start options) =
          (.ok (), p) ∧
        q = Compile.queryOf m options p := by
  cases hRun :
      (Compile.serveFilter ⟨m, options, f⟩).run
        (Compile.start options) with
  | mk result p =>
  rw [result_compile hRun] at h
  cases result with
  | error e => cases h
  | ok _ => exact ⟨p, rfl, (Except.ok.inj h).symm⟩

/-
  If no entry fails on a target, the compilation succeeds, and
  an entry that serves a target has its plan in the query.
-/
theorem exists_compile
    {m : Mapping}
    {options : Options}
    {f : Filter}
    (hEmpty : f.isEmpty = false)
    (h :
      ∀ t ∈ Target.all m.codec f, ∀ e ∈ m.entries,
        Compile.Serviceable ⟨m, options, f⟩ t e) :
    ∃ q,
      (compile m options f).result = .ok q ∧
        q.branchVariable = options.branchVariable ∧
        q.codec = m.codec ∧
        ∀ t ∈ Target.all m.codec f, ∀ e ∈ m.entries, ∀ P,
          Compile.Planned ⟨m, options, f⟩ t e P →
            ∃ found rank,
              P found ∧
                Compile.planOf e found rank ∈ q.plans := by
  have hServe :
      Compile.Completes ⟨m, options, f⟩
        (Compile.serveFilter ⟨m, options, f⟩)
        (fun p =>
          ∀ t ∈ Target.all m.codec f, ∀ e ∈ m.entries,
            Compile.Served ⟨m, options, f⟩ t e p) := by
    intro p hUsed
    rcases
      Compile.completes_serveTargets
        (Target.all m.codec f) h
        { p with
          events :=
            p.events ++
              [.started (Target.all m.codec f).length
                m.entries.length] } hUsed with
      ⟨p', hRun, hExtends, hServed⟩
    refine ⟨p', ?_, ⟨hExtends.used, hExtends.plans⟩, hServed⟩
    simp only [Compile.serveFilter, hEmpty]
    exact hRun
  rcases
    hServe (Compile.start options)
      (fun n hn => NamePool.mem_used_reserveAll _ hn) with
    ⟨p, hRun, _, hServed⟩
  exact ⟨_, result_compile hRun, rfl, rfl, hServed⟩

end StatementQuery

------------------------------------------------------------
-- Plans Of A Run
------------------------------------------------------------

namespace StatementQuery

namespace Compile

/- A plan by which an entry serves a target. -/
def ArisesFrom
    (task : Task)
    (t : Target)
    (e : Entry)
    (plan : BranchPlan) :
    Prop :=
  e.excludes? task.filter t = none ∧
    ∃ goal used found rank,
      t.statement e.snakKind = .ok goal ∧
        e.plan? goal used = some found ∧
        plan = planOf e found rank

/- A computation adds at most `n` plans, all of a kind. -/
def Yields
    (P : BranchPlan → Prop)
    (n : Nat)
    (body : CompileM α) :
    Prop :=
  ∀ p, ∃ added,
    (body.run p).2.plans = p.plans ++ added ∧
      added.length ≤ n ∧ ∀ plan ∈ added, P plan

namespace Yields

variable {P Q : BranchPlan → Prop} {n k : Nat}

theorem mono
    {body : CompileM α}
    (h : Yields P n body)
    (hPQ : ∀ plan, P plan → Q plan) :
    Yields Q n body := by
  intro p
  rcases h p with ⟨added, hPlans, hLength, hAdded⟩
  exact
    ⟨added, hPlans, hLength,
      fun plan hPlan => hPQ plan (hAdded plan hPlan)⟩

theorem of_keeps
    {body : CompileM α}
    (h : ∀ p, (body.run p).2.plans = p.plans) :
    Yields P n body :=
  fun p =>
    ⟨[], by rw [h p, List.append_nil], Nat.zero_le n, by simp⟩

theorem pure (a : α) : Yields P n (Pure.pure a : CompileM α) :=
  of_keeps fun _ => rfl

theorem bind
    {body : CompileM α}
    {next : α → CompileM β}
    (h : Yields P n body)
    (h' : ∀ a, Yields P k (next a)) :
    Yields P (n + k) (body >>= next) := by
  intro p
  rcases h p with ⟨added, hPlans, hLength, hAdded⟩
  rcases h' (body.run p).1 (body.run p).2 with
    ⟨added', hPlans', hLength', hAdded'⟩
  refine ⟨added ++ added', ?_, ?_, ?_⟩
  · rw [← List.append_assoc, ← hPlans]
    exact hPlans'
  · rw [List.length_append]
    omega
  · exact List.forall_mem_append.2 ⟨hAdded, hAdded'⟩

/- What adds no plan changes nothing for what follows. -/
theorem after
    {body : CompileM α}
    {next : α → CompileM β}
    (h : ∀ p, (body.run p).2.plans = p.plans)
    (h' : ∀ a, Yields P n (next a)) :
    Yields P n (body >>= next) :=
  Nat.zero_add n ▸ (of_keeps h).bind h'

/- What is passed over adds no plan. -/
theorem record
    (event : CompileEvent) :
    Yields P n
      (do
        Compile.record event
        Pure.pure (.ok ()) :
          CompileM (Except CompileError Unit)) :=
  of_keeps fun _ => rfl

/- One computation after another that does not fail. -/
theorem andThen
    {body next : CompileM (Except CompileError Unit)}
    (h : Yields P n body)
    (h' : Yields P k next) :
    Yields P (n + k)
      (do
        match ← body with
        | .ok () => next
        | .error err => Pure.pure (.error err)) := by
  apply h.bind
  intro result
  cases result with
  | ok _ => exact h'
  | error err => exact .pure _

end Yields

/- An entry adds its own plan for a target, if any. -/
theorem yields_addBranch
    (task : Task)
    (t : Target)
    (e : Entry)
    (found : PatternMatch) :
    Yields (fun plan => ∃ rank, plan = planOf e found rank) 1
      (addBranch task t e found) := by
  unfold addBranch
  refine Yields.after (fun _ => rfl) fun _ => ?_
  refine Yields.after (fun _ => rfl) fun p => ?_
  refine Yields.after (fun _ => rfl) fun result => ?_
  match result with
  | .ok rank =>
      intro p
      refine ⟨[planOf e found rank], rfl, le_refl 1, ?_⟩
      intro plan hPlan
      exact ⟨rank, List.mem_singleton.mp hPlan⟩
  | .error .skip => exact .record _
  | .error (.failed text) => exact .pure _

/- An entry that is tried on a target. -/
theorem yields_serve
    (task : Task)
    (t : Target)
    (e : Entry) :
    Yields (ArisesFrom task t e) 1 (serve task t e) := by
  unfold serve
  cases hExcludes : e.excludes? task.filter t with
  | some reason => exact .record _
  | none =>
      cases hGoal : t.statement e.snakKind with
      | error err => exact .pure _
      | ok goal =>
          refine Yields.after (fun _ => rfl) fun p => ?_
          cases hFound :
              e.plan? goal p.alternatives.pool.used with
          | none => exact .record _
          | some found =>
              apply (yields_addBranch task t e found).mono
              rintro plan ⟨rank, hPlan⟩
              exact
                ⟨hExcludes, goal, _, found, rank, hGoal, hFound,
                  hPlan⟩

/- All entries that are tried on a target. -/
theorem yields_serveEntries
    (task : Task)
    (t : Target)
    (es : List Entry) :
    Yields (fun plan => ∃ e ∈ es, ArisesFrom task t e plan)
      es.length (serveEntries task t es) := by
  induction es with
  | nil => exact .pure _
  | cons e es ih =>
      rw [List.length_cons, Nat.add_comm]
      apply Yields.andThen
      · apply (yields_serve task t e).mono
        intro plan hPlan
        exact ⟨e, List.mem_cons_self, hPlan⟩
      · apply ih.mono
        rintro plan ⟨e', he', hPlan⟩
        exact ⟨e', List.mem_cons_of_mem _ he', hPlan⟩

/- All targets. -/
theorem yields_serveTargets
    (task : Task)
    (ts : List Target) :
    Yields
      (fun plan =>
        ∃ t ∈ ts, ∃ e ∈ task.mapping.entries,
          ArisesFrom task t e plan)
      (ts.length * task.mapping.entries.length)
      (serveTargets task ts) := by
  induction ts with
  | nil => exact .pure _
  | cons t ts ih =>
      rw [List.length_cons, Nat.succ_mul, Nat.add_comm]
      apply Yields.andThen
      · apply (yields_serveEntries task t _).mono
        intro plan hPlan
        exact ⟨t, List.mem_cons_self, hPlan⟩
      · apply ih.mono
        rintro plan ⟨t', ht', hPlan⟩
        exact ⟨t', List.mem_cons_of_mem _ ht', hPlan⟩

/-
  The plans of a query come from targets and entries, at most
  one from each pair.
-/
theorem plans_of_compile
    {m : Mapping}
    {options : Options}
    {f : Filter}
    {q : CompiledQuery}
    (h : (compile m options f).result = .ok q) :
    q.plans.length ≤
        (Target.all m.codec f).length * m.entries.length ∧
      ∀ plan ∈ q.plans,
        ∃ t ∈ Target.all m.codec f, ∃ e ∈ m.entries,
          ArisesFrom ⟨m, options, f⟩ t e plan := by
  rcases exists_of_result_compile h with ⟨p, hRun, rfl⟩
  have hYields :
      Yields
        (fun plan =>
          ∃ t ∈ Target.all m.codec f, ∃ e ∈ m.entries,
            ArisesFrom ⟨m, options, f⟩ t e plan)
        ((Target.all m.codec f).length * m.entries.length)
        (serveFilter ⟨m, options, f⟩) := by
    unfold serveFilter
    split
    · exact .record _
    · exact Yields.after (fun _ => rfl) fun _ =>
        yields_serveTargets ⟨m, options, f⟩ _
  rcases hYields (start options) with
    ⟨added, hAdded, hLength, hArises⟩
  rw [hRun] at hAdded
  simp only [start, List.nil_append] at hAdded
  simp only [queryOf, hAdded]
  exact ⟨hLength, hArises⟩

/- A filter that matches nothing has a query without plans. -/
theorem exists_compile_of_isEmpty
    (m : Mapping)
    (options : Options)
    {f : Filter}
    (h : f.isEmpty = true) :
    ∃ q,
      (compile m options f).result = .ok q ∧ q.plans = [] := by
  have hServe :
      serveFilter ⟨m, options, f⟩ =
        (do
          record .matchesNothing
          pure (.ok ())) := if_pos h
  have hRun :
      (serveFilter ⟨m, options, f⟩).run (start options) =
        (.ok (),
          { start options with events := [.matchesNothing] }) := by
    rw [hServe]
    rfl
  exact ⟨_, result_compile hRun, rfl⟩

end Compile

end StatementQuery
