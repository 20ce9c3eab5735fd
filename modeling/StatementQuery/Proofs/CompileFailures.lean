import StatementQuery.Proofs.CompileRuns
import StatementQuery.Proofs.FilterTargets
import StatementQuery.Proofs.NestedConstraints

/-
  Compilations that fail.

  A compilation goes through the targets of its filter and the
  entries of its mapping, and in a branch through the snaks
  that are asked for and the entries again, up to the first
  failure.  What is called on the way are the emissions of
  entries, each in the group that has been built so far.  A
  compilation fails exactly if one of these calls does, and
  then says which entry the branch was for and what the call
  said.

  Key definitions include:
    * `Compile.forEach`
    * `Compile.Comes`
    * `Compile.Call`
    * `Compile.Calls`
    * `Compile.Says`

  Main declarations:
    * `Compile.forEach_eq_error_iff`
    * `Compile.constrain_eq_error_iff`
    * `Compile.emitBranch_eq_error_iff`
    * `Compile.serveFilter_eq_error_iff`
    * `Compile.Tries.expressible`
    * `Compile.result_compile_eq_error_iff_calls`
-/

------------------------------------------------------------
-- Going Through A List
------------------------------------------------------------

namespace StatementQuery

namespace Compile

/- Take a step for each member of a list, up to a failure. -/
def forEach
    (step : α → StateM σ (Except ε Unit)) :
    List α → StateM σ (Except ε Unit)
| [] => pure (.ok ())
| x :: xs => do
    match ← step x with
    | .ok () => forEach step xs
    | .error e => pure (.error e)

/- Going through a list comes to a member, in a state. -/
inductive Comes
    (step : α → StateM σ (Except ε Unit)) :
    σ → List α → α → σ → Prop where
| head {s : σ} {x : α} {xs : List α} :
    Comes step s (x :: xs) x s
| tail
    {s s' s'' : σ}
    {x y : α}
    {ys : List α}
    (hStep : (step y).run s = (.ok (), s'))
    (hRest : Comes step s' ys x s'') :
    Comes step s (y :: ys) x s''

/- Only members are come to. -/
theorem Comes.mem
    {step : α → StateM σ (Except ε Unit)}
    {s s' : σ}
    {xs : List α}
    {x : α}
    (h : Comes step s xs x s') :
    x ∈ xs := by
  induction h with
  | head => exact List.mem_cons_self
  | tail _ _ ih => exact List.mem_cons_of_mem _ ih

/- A step that fails ends the way. -/
theorem run_forEach_of_error
    {step : α → StateM σ (Except ε Unit)}
    {x : α}
    {s s' : σ}
    {e : ε}
    (h : (step x).run s = (.error e, s'))
    (xs : List α) :
    (forEach step (x :: xs)).run s = (.error e, s') := by
  rw [forEach, StateT.run_bind, h]
  rfl

/- After a step that succeeds, the others follow. -/
theorem run_forEach_of_ok
    {step : α → StateM σ (Except ε Unit)}
    {x : α}
    {s s' : σ}
    (h : (step x).run s = (.ok (), s'))
    (xs : List α) :
    (forEach step (x :: xs)).run s = (forEach step xs).run s' := by
  rw [forEach, StateT.run_bind, h]
  rfl

/-
  Going through a list fails exactly if it comes to a member
  for which the step fails.
-/
theorem forEach_eq_error_iff
    {step : α → StateM σ (Except ε Unit)}
    {xs : List α}
    {s : σ}
    {e : ε} :
    ((forEach step xs).run s).1 = .error e ↔
      ∃ x s', Comes step s xs x s' ∧
        ((step x).run s').1 = .error e := by
  induction xs generalizing s with
  | nil =>
      constructor
      · intro h
        cases h
      · rintro ⟨x, s', hComes, _⟩
        cases hComes
  | cons y ys ih =>
      cases hStep : (step y).run s with
      | mk result s' =>
      cases result with
      | error e' =>
          -- The step for the head fails, so nothing else is come to.
          rw [run_forEach_of_error hStep]
          constructor
          · intro h
            refine ⟨y, s, .head, ?_⟩
            rw [hStep]
            exact h
          · rintro ⟨x, s'', hComes, hx⟩
            cases hComes with
            | head =>
                rw [hStep] at hx
                exact hx
            | tail hOk _ =>
                rw [hStep] at hOk
                cases hOk
      | ok _ =>
          rw [run_forEach_of_ok hStep, ih]
          constructor
          · rintro ⟨x, s'', hComes, hx⟩
            exact ⟨x, s'', .tail hStep hComes, hx⟩
          · rintro ⟨x, s'', hComes, hx⟩
            cases hComes with
            | head =>
                rw [hStep] at hx
                cases hx
            | tail hOk hRest =>
                rw [hStep] at hOk
                cases hOk
                exact ⟨x, s'', hRest, hx⟩

/- Entries serve a target one after the other. -/
theorem serveEntries_eq_forEach
    (task : Task)
    (t : Target)
    (es : List Entry) :
    serveEntries task t es = forEach (serve task t) es := by
  induction es with
  | nil => rfl
  | cons e es ih =>
      rw [serveEntries, forEach, ih]
      congr 1
      funext result
      cases result <;> rfl

/- Targets are served one after the other. -/
theorem serveTargets_eq_forEach
    (task : Task)
    (ts : List Target) :
    serveTargets task ts =
      forEach
        (fun t => serveEntries task t task.mapping.entries)
        ts := by
  induction ts with
  | nil => rfl
  | cons t ts ih =>
      rw [serveTargets, forEach, ih]
      congr 1
      funext result
      cases result <;> rfl

/- Snaks are required one after the other. -/
theorem constrain_eq_forEach
    (m : Mapping)
    (options : Options)
    (focus : Term)
    (snaks : List Ground) :
    (constrain m options focus snaks).run =
      forEach (fun snak => (constrainOne m options focus snak).run)
        snaks := by
  induction snaks with
  | nil => rfl
  | cons snak snaks ih =>
      rw [constrain, forEach, ← ih, ExceptT.run_bind]
      congr 1
      funext result
      cases result <;> rfl

/- A failure ends the alternatives; otherwise they go on. -/
def afterCall :
    Except EntryError (Option String) → Except EntryError Unit
| .error (.failed text) => .error (.failed text)
| _ => .ok ()

/- Let an entry express a statement through its match. -/
def expressBy
    (context : EmissionContext)
    (e : Entry) :
    Option PatternMatch → AlternativesM (Except EntryError Unit)
| none => pure (.ok ())
| some found => do
    Alternatives.reserveAll found.names
    let result ←
      Alternatives.branch (e.emit context found.args).run
    pure (afterCall result)

/- Let an entry express a statement, if it can. -/
def express
    (context : EmissionContext)
    (kind : Kind)
    (goal : Term)
    (e : Entry) :
    AlternativesM (Except EntryError Unit) := do
  let u ← get
  if e.snakKind.kind = kind then
    expressBy context e (e.plan? goal u.pool.used)
  else pure (.ok ())

/- An entry expresses a statement through the match it has. -/
theorem run_express
    (context : EmissionContext)
    (kind : Kind)
    (goal : Term)
    (e : Entry)
    (u : Alternatives) :
    (express context kind goal e).run u =
      (if e.snakKind.kind = kind then
        expressBy context e (e.plan? goal u.pool.used)
      else pure (.ok ())).run u :=
  rfl

/- Entries express a statement one after the other. -/
theorem expressGoal_eq_forEach
    (context : EmissionContext)
    (kind : Kind)
    (goal : Term)
    (es : List Entry) :
    expressGoal context kind goal es =
      forEach (express context kind goal) es := by
  induction es with
  | nil => rfl
  | cons e es ih =>
      rw [expressGoal, forEach, ih]
      apply StateT.ext
      intro u
      simp only [express, StateT.run_bind, StateT.run_get,
        pure_bind]
      by_cases hKind : e.snakKind.kind = kind
      · rw [if_pos hKind, if_pos hKind]
        simp only [StateT.run_bind, StateT.run_get, pure_bind]
        cases e.plan? goal u.pool.used with
        | none => rfl
        | some found =>
            simp only [expressBy, StateT.run_bind, bind_assoc]
            congr 1
            funext a
            congr 1
            funext b
            -- A skip, a failure and a result, one after the other.
            rcases b with ⟨(_ | text) | rank, u'⟩ <;> rfl
      · rw [if_neg hKind, if_neg hKind]
        rfl

end Compile

end StatementQuery

------------------------------------------------------------
-- Calls Of Emissions
------------------------------------------------------------

namespace StatementQuery

namespace Compile

/- A call of the emission of an entry, in a group. -/
structure Call where
  entry : Entry
  context : EmissionContext
  args : Args
  group : Group

namespace Call

/- What a call returns, and the group that it leaves. -/
def run (call : Call) : Except EntryError (Option String) × Group :=
  (call.entry.emit call.context call.args).run.run call.group

/- What a call returns. -/
def result (call : Call) : Except EntryError (Option String) :=
  call.run.1

end Call

/- The state in which the first target is served. -/
def started (task : Task) : Progress :=
  { start task.options with
    events :=
      [.started (Target.all task.mapping.codec task.filter).length
        task.mapping.entries.length] }

/-
  A compilation comes to an entry that serves a target through
  a match.
-/
structure Tries
    (task : Task)
    (t : Target)
    (e : Entry)
    (found : PatternMatch)
    (p : Progress) :
    Prop where
  proper : task.filter.isEmpty = false
  comes :
    ∃ p',
      Comes (fun t => serveEntries task t task.mapping.entries)
          (started task)
          (Target.all task.mapping.codec task.filter) t p' ∧
        Comes (serve task t) p' task.mapping.entries e p
  admitted : e.excludes? task.filter t = none
  plan :
    ∃ goal,
      t.statement e.snakKind = .ok goal ∧
        e.plan? goal p.alternatives.pool.used = some found

/- The call that a branch starts with. -/
def ownCall
    (task : Task)
    (e : Entry)
    (found : PatternMatch)
    (pool : NamePool) :
    Call where
  entry := e
  context := ⟨task.mapping.codec, task.filter, task.options⟩
  args := found.args
  group :=
    { pool := pool.reserveAll found.names
      patterns :=
        if task.options.debugComments then
          [.comment ("entry " ++ e.id.repr)]
        else [] }

/- The call by which an entry expresses a statement. -/
def nestedCall
    (m : Mapping)
    (options : Options)
    (e : Entry)
    (found : PatternMatch)
    (pool : NamePool) :
    Call where
  entry := e
  context := ⟨m.codec, .unrestricted, options⟩
  args := found.args
  group := { pool := pool.reserveAll found.names }

/-
  Requiring a focus to have some snaks comes to an entry that
  expresses one of them through a match.
-/
structure Expresses
    (m : Mapping)
    (options : Options)
    (focus : Term)
    (snaks : List Ground)
    (g : Group)
    (snak : Ground)
    (goal : Term)
    (e : Entry)
    (found : PatternMatch)
    (u : Alternatives) :
    Prop where
  built :
    Term.apply .statement [some focus, some (.ground snak)] =
      .ok goal
  comes :
    ∃ g',
      Comes (fun snak => (constrainOne m options focus snak).run)
          g snaks snak g' ∧
        Comes
          (express ⟨m.codec, .unrestricted, options⟩ snak.kind goal)
          { pool := g'.pool } m.entries e u
  kind : e.snakKind.kind = snak.kind
  plan : e.plan? goal u.pool.used = some found

/- Require a part of a target to have the snaks asked of it. -/
def constrainPart
    (task : Task)
    (found : PatternMatch)
    (part : Term × List Ground) :
    GroupM (Except EntryError Unit) :=
  (constrainSettled task.mapping task.options found.bindings
    part.1 part.2).run

/-
  The calls that a compilation makes for the branches of an
  entry: of the emission of the entry itself, and of those of
  the entries that express the snaks asked of the subject and
  of the value.
-/
inductive Calls (task : Task) : Entry → Call → Prop where
| own
    {t : Target}
    {e : Entry}
    {found : PatternMatch}
    {p : Progress}
    (hTries : Tries task t e found p) :
    Calls task e (ownCall task e found p.alternatives.pool)
| nested
    {t : Target}
    {e e' : Entry}
    {found found' : PatternMatch}
    {p : Progress}
    {rank : Option String}
    {g g' : Group}
    {part : Term × List Ground}
    {focus goal : Term}
    {snak : Ground}
    {u : Alternatives}
    (hTries : Tries task t e found p)
    (hOwn :
      (ownCall task e found p.alternatives.pool).run =
        (.ok rank, g))
    (hPart :
      Comes (constrainPart task found) g t.constrained part g')
    (hFocus :
      Term.settle? found.bindings part.1 = some (some focus))
    (hExpresses :
      Expresses task.mapping task.options focus part.2 g' snak
        goal e' found' u) :
    Calls task e
      (nestedCall task.mapping task.options e' found' u.pool)

end Compile

end StatementQuery

------------------------------------------------------------
-- Failures Of A Branch
------------------------------------------------------------

namespace StatementQuery

namespace Compile

/- A computation fails at its first step, or after it. -/
theorem bind_eq_error_iff
    {x : EmitM α}
    {f : α → EmitM β}
    {g : Group}
    {err : EntryError} :
    ((x >>= f).run.run g).1 = .error err ↔
      (x.run.run g).1 = .error err ∨
        ∃ a g', x.run.run g = (.ok a, g') ∧
          ((f a).run.run g').1 = .error err := by
  have hRun :
      (x >>= f).run.run g =
        (ExceptT.bindCont f (x.run.run g).1).run
          (x.run.run g).2 := rfl
  rw [hRun]
  cases hx : x.run.run g with
  | mk result g' =>
  cases result with
  | error e =>
      constructor
      · intro h
        cases h
        exact Or.inl rfl
      · rintro (h | ⟨a, g'', hOk, _⟩)
        · cases h
          rfl
        · cases hOk
  | ok a =>
      constructor
      · intro h
        exact Or.inr ⟨a, g', rfl, h⟩
      · rintro (h | ⟨a', g'', hOk, h⟩)
        · cases h
        · cases hOk
          exact h

/- An entry fails to express a statement if its call fails. -/
theorem express_eq_error_iff
    {m : Mapping}
    {options : Options}
    {kind : Kind}
    {goal : Term}
    {e : Entry}
    {u : Alternatives}
    {err : EntryError} :
    ((express ⟨m.codec, .unrestricted, options⟩ kind goal e).run
        u).1 = .error err ↔
      ∃ found text,
        e.snakKind.kind = kind ∧
          e.plan? goal u.pool.used = some found ∧
          (nestedCall m options e found u.pool).result =
            .error (.failed text) ∧
          err = .failed text := by
  rw [run_express]
  by_cases hKind : e.snakKind.kind = kind
  · rw [if_pos hKind]
    cases hPlan : e.plan? goal u.pool.used with
    | none =>
        constructor
        · intro h
          cases h
        · rintro ⟨found, text, _, hSome, _⟩
          cases hSome
    | some found =>
        have hCall :
            ((expressBy ⟨m.codec, .unrestricted, options⟩ e
                (some found)).run u).1 =
              afterCall
                (nestedCall m options e found u.pool).result := rfl
        rw [hCall]
        constructor
        · intro h
          cases hResult :
              (nestedCall m options e found u.pool).result with
          | ok rank =>
              rw [hResult] at h
              cases h
          | error e' =>
              rw [hResult] at h
              cases e' with
              | skip => cases h
              | failed text =>
                  cases h
                  exact ⟨found, text, hKind, rfl, hResult, rfl⟩
        · rintro ⟨found', text, _, hSome, hResult, rfl⟩
          cases hSome
          rw [hResult]
          rfl
  · rw [if_neg hKind]
    constructor
    · intro h
      cases h
    · rintro ⟨found, text, hSame, _⟩
      exact absurd hSame hKind

/- Requiring a snak fails as its alternatives do. -/
theorem result_constrainOne
    {m : Mapping}
    {options : Options}
    {focus goal : Term}
    {snak : Ground}
    (hGoal :
      Term.apply .statement [some focus, some (.ground snak)] =
        .ok goal)
    (g : Group) :
    ((constrainOne m options focus snak).run.run g).1 =
      ((forEach
          (express ⟨m.codec, .unrestricted, options⟩ snak.kind goal)
          m.entries).run { pool := g.pool }).1 := by
  unfold constrainOne
  rw [hGoal, ← expressGoal_eq_forEach]
  rfl

/-
  Requiring snaks of a focus fails exactly if a call fails that
  is made to express one of them, where all of them make a
  statement.
-/
theorem constrain_eq_error_iff
    {m : Mapping}
    {options : Options}
    {focus : Term}
    {snaks : List Ground}
    (hGoals :
      ∀ snak ∈ snaks, ∃ goal,
        Term.apply .statement [some focus, some (.ground snak)] =
          .ok goal)
    {g : Group}
    {err : EntryError} :
    ((constrain m options focus snaks).run.run g).1 =
        .error err ↔
      ∃ snak goal e found u text,
        Expresses m options focus snaks g snak goal e found u ∧
          (nestedCall m options e found u.pool).result =
            .error (.failed text) ∧
          err = .failed text := by
  rw [constrain_eq_forEach, forEach_eq_error_iff]
  constructor
  · rintro ⟨snak, g', hSnak, hFails⟩
    rcases hGoals snak hSnak.mem with ⟨goal, hGoal⟩
    rw [result_constrainOne hGoal, forEach_eq_error_iff] at hFails
    rcases hFails with ⟨e, u, hEntry, hFails⟩
    rcases express_eq_error_iff.mp hFails with
      ⟨found, text, hKind, hPlan, hResult, hErr⟩
    exact
      ⟨snak, goal, e, found, u, text,
        ⟨hGoal, ⟨g', hSnak, hEntry⟩, hKind, hPlan⟩, hResult, hErr⟩
  · rintro ⟨snak, goal, e, found, u, text, h, hResult, hErr⟩
    rcases h.comes with ⟨g', hSnak, hEntry⟩
    refine ⟨snak, g', hSnak, ?_⟩
    rw [result_constrainOne h.built, forEach_eq_error_iff]
    exact
      ⟨e, u, hEntry,
        express_eq_error_iff.mpr
          ⟨found, text, h.kind, h.plan, hResult, hErr⟩⟩

/-
  A part of a target makes statements with the snaks that are
  asked of it.
-/
def Expressible
    (found : PatternMatch)
    (part : Term × List Ground) :
    Prop :=
  ∀ focus,
    Term.settle? found.bindings part.1 = some (some focus) →
      ∀ snak ∈ part.2, ∃ goal,
        Term.apply .statement [some focus, some (.ground snak)] =
          .ok goal

/-
  Requiring the snaks of a part fails exactly if the part
  settles to a focus for which a call fails.
-/
theorem constrainPart_eq_failed_iff
    {task : Task}
    {found : PatternMatch}
    {part : Term × List Ground}
    (hPart : Expressible found part)
    {g : Group}
    {text : String} :
    ((constrainPart task found part).run g).1 =
        .error (.failed text) ↔
      ∃ focus snak goal e found' u,
        Term.settle? found.bindings part.1 = some (some focus) ∧
          Expresses task.mapping task.options focus part.2 g snak
            goal e found' u ∧
          (nestedCall task.mapping task.options e found'
            u.pool).result = .error (.failed text) := by
  unfold constrainPart constrainSettled
  by_cases hNone : part.2.isEmpty = true
  · rw [if_pos hNone]
    constructor
    · intro h
      cases h
    · rintro ⟨focus, snak, goal, e, found', u, _, h, _⟩
      rcases h.comes with ⟨g', hSnak, _⟩
      have hMem := hSnak.mem
      rw [List.isEmpty_iff.mp hNone] at hMem
      cases hMem
  · rw [if_neg hNone]
    split
    · rename_i focus hFocus
      rw [constrain_eq_error_iff (hPart focus hFocus)]
      constructor
      · rintro ⟨snak, goal, e, found', u, text', h, hResult, hErr⟩
        cases hErr
        exact ⟨focus, snak, goal, e, found', u, hFocus, h, hResult⟩
      · rintro ⟨focus', snak, goal, e, found', u, hFocus', h,
          hResult⟩
        rw [hFocus] at hFocus'
        cases hFocus'
        exact ⟨snak, goal, e, found', u, text, h, hResult, rfl⟩
    · rename_i hFocus
      constructor
      · intro h
        cases h
      · rintro ⟨focus, snak, goal, e, found', u, hSome, _⟩
        exact absurd hSome (hFocus focus)

/- The patterns of a branch after the comment, if any. -/
def branchBody
    (task : Task)
    (t : Target)
    (e : Entry)
    (found : PatternMatch)
    (index : Nat) :
    EmitM (Option String) := do
  let rank ←
    e.emit ⟨task.mapping.codec, task.filter, task.options⟩
      found.args
  constrainSettled task.mapping task.options found.bindings
    t.subject t.subjectSnaks
  constrainSettled task.mapping task.options found.bindings
    t.value t.valueSnaks
  Group.bindAs (.node (.integer index))
    (.var task.options.branchVariable)
  pure rank

/- A branch starts with its own call. -/
theorem run_emitBranch
    (task : Task)
    (t : Target)
    (e : Entry)
    (found : PatternMatch)
    (index : Nat)
    (pool : NamePool) :
    (emitBranch task t e found index).run.run
        { pool := pool.reserveAll found.names } =
      (branchBody task t e found index).run.run
        (ownCall task e found pool).group := by
  unfold emitBranch ownCall
  by_cases hDebug : task.options.debugComments = true
  · simp only [hDebug, if_true]
    rfl
  · simp only [hDebug]
    rfl

/-
  A branch fails exactly if its own call fails, or requiring
  the snaks of a part does.
-/
theorem emitBranch_eq_error_iff
    {task : Task}
    {t : Target}
    {e : Entry}
    {found : PatternMatch}
    {index : Nat}
    {pool : NamePool}
    {err : EntryError} :
    ((emitBranch task t e found index).run.run
        { pool := pool.reserveAll found.names }).1 =
        .error err ↔
      (ownCall task e found pool).result = .error err ∨
        ∃ rank g part g',
          (ownCall task e found pool).run = (.ok rank, g) ∧
            Comes (constrainPart task found) g t.constrained part
              g' ∧
            ((constrainPart task found part).run g').1 =
              .error err := by
  rw [run_emitBranch]
  unfold branchBody
  rw [bind_eq_error_iff]
  apply or_congr
  · exact Iff.rfl
  · constructor
    · rintro ⟨rank, g, hOwn, hRest⟩
      rcases bind_eq_error_iff.mp hRest with
        hSubject | ⟨_, g', hSubject, hRest⟩
      · exact ⟨rank, g, _, g, hOwn, .head, hSubject⟩
      · -- What is left, the index of the branch, cannot fail.
        rcases bind_eq_error_iff.mp hRest with
          hValue | ⟨_, g'', _, hLast⟩
        · exact
            ⟨rank, g, _, g', hOwn, .tail hSubject .head, hValue⟩
        · cases hLast
    · rintro ⟨rank, g, part, g', hOwn, hComes, hFails⟩
      refine ⟨rank, g, hOwn, ?_⟩
      cases hComes with
      | head => exact bind_eq_error_iff.mpr (Or.inl hFails)
      | tail hSubject hRest =>
          refine bind_eq_error_iff.mpr
            (Or.inr ⟨(), _, hSubject, ?_⟩)
          cases hRest with
          | head => exact bind_eq_error_iff.mpr (Or.inl hFails)
          | tail _ hNil => cases hNil

/- Adding a branch fails exactly if the branch fails. -/
theorem addBranch_eq_error_iff
    {task : Task}
    {t : Target}
    {e : Entry}
    {found : PatternMatch}
    {p : Progress}
    {err : CompileError} :
    ((addBranch task t e found).run p).1 = .error err ↔
      ∃ text,
        ((emitBranch task t e found p.plans.length).run.run
            { pool :=
                p.alternatives.pool.reserveAll found.names }).1 =
            .error (.failed text) ∧
          err = .entry e.id text := by
  cases hOut :
      (emitBranch task t e found p.plans.length).run.run
        { pool := p.alternatives.pool.reserveAll found.names } with
  | mk result g =>
  cases result with
  | ok rank =>
      rw [run_addBranch_of_ok hOut]
      constructor
      · intro h
        cases h
      · rintro ⟨text, hFailed, _⟩
        cases hFailed
  | error reason =>
      cases reason with
      | skip =>
          rw [run_addBranch_of_skip hOut]
          constructor
          · intro h
            cases h
          · rintro ⟨text, hFailed, _⟩
            cases hFailed
      | failed text =>
          rw [run_addBranch_of_failed hOut]
          constructor
          · intro h
            cases h
            exact ⟨text, rfl, rfl⟩
          · rintro ⟨text', hFailed, rfl⟩
            cases hFailed
            rfl

end Compile

end StatementQuery

------------------------------------------------------------
-- Statements That Are Asked For
------------------------------------------------------------

namespace StatementQuery

namespace Filter

/- A list that passes its check has snaks only. -/
theorem kind_le_of_snaksError?
    {gs : List Ground}
    (h : snaksError? gs = none)
    {g : Ground}
    (hg : g ∈ gs) :
    g.kind ≤ .snak := by
  have hNone := List.find?_eq_none.mp (Option.map_eq_none_iff.mp h)
  simpa [Kind.isSnak] using hNone g hg

variable {f : Filter} {codec : Codec} {t : Target}

/- What a checked filter asks of its parts are snaks. -/
theorem Checked.kind_le_snak
    (h : f.Checked)
    (ht : t ∈ Target.all codec f)
    {part : Term × List Ground}
    (hPart : part ∈ t.constrained)
    {snak : Ground}
    (hSnak : snak ∈ part.2) :
    snak.kind ≤ .snak := by
  simp only [Target.all, List.mem_flatMap, List.mem_map] at ht
  rcases ht with ⟨s, hs, p, _, v, hv, rfl⟩
  rcases List.mem_pair.mp hPart with rfl | rfl
  · rcases Fingerprint.mem_alternatives_cases _ hs with
      rfl | ⟨g, rfl, _⟩ | ⟨g, gs, rfl, hLeaf⟩
    · cases hSnak
    · cases hSnak
    · exact kind_le_of_snaksError? (h.subject _ hLeaf) hSnak
  · rcases Fingerprint.mem_alternatives_cases _ hv with
      rfl | ⟨g, rfl, _⟩ | ⟨g, gs, rfl, hLeaf⟩
    · cases hSnak
    · cases hSnak
    · exact kind_le_of_snaksError? (h.value _ hLeaf) hSnak

/- The targets of a checked filter ask for statements. -/
theorem Checked.exists_asks
    (h : f.Checked)
    (ht : t ∈ Target.all codec f)
    (k : SnakKind) :
    ∃ goal snak, t.Asks k goal snak := by
  simp only [Target.all, List.mem_flatMap, List.mem_map] at ht
  rcases ht with ⟨s, hs, p, hp, v, hv, rfl⟩
  exact (h.typed codec hs hp hv).exists_statement k

end Filter

/- What a variable is bound to, or left as, fits its kind. -/
theorem Unify.Settled.exists_fits
    {κ : Kinding}
    {θ : Bindings}
    (h : Settled κ θ)
    (v : Variable) :
    ∃ κ', Side.Fits κ' v.kind (θ.value v) := by
  cases hGet : θ.get? v with
  | none =>
      rw [Bindings.value_of_get?_none hGet]
      have hv : (Variable.kinding [v]).Has v := by
        simp [Kinding.Has, Variable.kinding]
      exact ⟨_, Side.fits_some (Term.wellKinded_var hv)⟩
  | some s =>
      rw [Bindings.value_of_get? hGet]
      rcases h.solved v s hGet with ⟨hWithin, hKind⟩
      refine ⟨κ, ?_⟩
      intro t ht
      exact
        ⟨hKind t ht, ⟨(hWithin t ht).1, (hWithin t ht).2⟩⟩

namespace Compile

/- A statement that a focus has a snak. -/
structure Says (focus : Term) (snak : Ground) (goal : Term) : Prop where
  built :
    Term.apply .statement [some focus, some (.ground snak)] =
      .ok goal
  kind : goal.kind = .statement
  args : goal.args? = some [some focus, some (.ground snak)]
  formed : goal.WellFormed

/- An entity can be said to have any snak. -/
theorem exists_says
    {κ : Kinding}
    {focus : Term}
    (hFocus : Side.Fits κ .entity (some focus))
    {snak : Ground}
    (hSnak : snak.kind ≤ .snak) :
    ∃ goal, Says focus snak goal := by
  rcases hFocus focus rfl with ⟨hKind, hKinded⟩
  have hEach :
      ∀ u, some u ∈ [some focus, some (.ground snak)] →
        u.WellKinded κ := by
    intro u hu
    rcases List.mem_pair.mp hu with hEq | hEq <;> cases hEq
    · exact hKinded
    · exact Term.wellKinded_ground κ snak
  have hSlots :
      List.Forall₂ Slot.Admits Constructor.statement.slots
        [some focus, some (.ground snak)] :=
    .cons hKind (.cons hSnak .nil)
  rcases Term.exists_apply_of_admits rfl hSlots
      (Term.atKinds_occurrencesArgs hEach) with
    ⟨goal, hGoal, hGoalKind, hArgs⟩
  refine ⟨goal, hGoal, hGoalKind, hArgs, ?_⟩
  exact Term.wellFormed_apply (fun u hu => (hEach u hu).shaped) hGoal

variable {task : Task} {t : Target} {e : Entry}
variable {found : PatternMatch} {p : Progress}

/- The targets and the entries of branches are those there are. -/
theorem Tries.mem
    (h : Tries task t e found p) :
    t ∈ Target.all task.mapping.codec task.filter ∧
      e ∈ task.mapping.entries := by
  rcases h.comes with ⟨p', hTarget, hEntry⟩
  exact ⟨hTarget.mem, hEntry.mem⟩

/- A focus that snaks are asked of is an entity. -/
theorem Tries.fits_focus
    (hPatterns :
      ∀ e ∈ task.mapping.entries,
        ∀ p ∈ e.patterns, p.WellFormed)
    (h : Tries task t e found p)
    {part : Term × List Ground}
    (hPart : part ∈ t.constrained)
    {snak : Ground}
    (hSnak : snak ∈ part.2)
    {focus : Term}
    (hFocus :
      Term.settle? found.bindings part.1 = some (some focus)) :
    ∃ κ, Side.Fits κ .entity (some focus) := by
  rcases h.mem with ⟨ht, he⟩
  rcases h.plan with ⟨goal, hGoal, hPlan⟩
  rcases List.exists_of_findSome?_eq_some hPlan with
    ⟨q, hq, hMatch⟩
  rcases Entry.settled_of_matchPattern? (hPatterns e he q hq)
      (Target.spec_statement ht hGoal).1 hMatch with
    ⟨κ, _, hSettled⟩
  have hVariable :
      ∃ v : Variable, part.1 = .var v ∧ v.kind = .entity := by
    rcases Target.constrained_eq_var ht hPart hSnak with
      hVar | hVar
    · exact ⟨_, hVar, rfl⟩
    · exact ⟨_, hVar, rfl⟩
  rcases hVariable with ⟨v, hVar, hKind⟩
  rw [hVar, Term.settle?_var hSettled] at hFocus
  rw [← Option.some.inj hFocus, ← hKind]
  exact hSettled.exists_fits v

/- All snaks asked of a part make statements with it. -/
theorem Tries.expressible
    (hPatterns :
      ∀ e ∈ task.mapping.entries,
        ∀ p ∈ e.patterns, p.WellFormed)
    (hFilter : task.filter.Checked)
    (h : Tries task t e found p)
    {part : Term × List Ground}
    (hPart : part ∈ t.constrained) :
    Expressible found part := by
  intro focus hFocus snak hSnak
  rcases h.fits_focus hPatterns hPart hSnak hFocus with ⟨κ, hFits⟩
  rcases exists_says hFits
      (hFilter.kind_le_snak h.mem.1 hPart hSnak) with
    ⟨goal, hSays⟩
  exact ⟨goal, hSays.built⟩

end Compile

end StatementQuery

------------------------------------------------------------
-- Failures Of A Compilation
------------------------------------------------------------

namespace StatementQuery

namespace Compile

/-
  An entry fails to serve a target that makes a statement
  exactly if adding its branch fails.
-/
theorem serve_eq_error_iff
    {task : Task}
    {t : Target}
    {e : Entry}
    {goal : Term}
    (hGoal : t.statement e.snakKind = .ok goal)
    {p : Progress}
    {err : CompileError} :
    ((serve task t e).run p).1 = .error err ↔
      e.excludes? task.filter t = none ∧
        ∃ found,
          e.plan? goal p.alternatives.pool.used = some found ∧
            ((addBranch task t e found).run p).1 =
              .error err := by
  cases hExcludes : e.excludes? task.filter t with
  | some reason =>
      unfold serve
      rw [hExcludes]
      constructor
      · intro h
        cases h
      · rintro ⟨hNone, _⟩
        cases hNone
  | none =>
      rw [run_serve_eq hExcludes hGoal]
      cases hPlan : e.plan? goal p.alternatives.pool.used with
      | none =>
          constructor
          · intro h
            cases h
          · rintro ⟨_, found, hSome, _⟩
            cases hSome
      | some found =>
          constructor
          · intro h
            exact ⟨rfl, found, rfl, h⟩
          · rintro ⟨_, found', hSome, h⟩
            cases hSome
            exact h

/- A filter that can match is served target by target. -/
theorem run_serveFilter_eq
    {task : Task}
    (h : task.filter.isEmpty = false) :
    (serveFilter task).run (start task.options) =
      (forEach
        (fun t => serveEntries task t task.mapping.entries)
        (Target.all task.mapping.codec task.filter)).run
          (started task) := by
  rw [← serveTargets_eq_forEach]
  unfold serveFilter
  rw [h]
  rfl

/-
  Serving a filter fails exactly if the compilation comes to a
  branch that cannot be added, where all targets make
  statements.
-/
theorem serveFilter_eq_error_iff
    {task : Task}
    (hStatements :
      ∀ t ∈ Target.all task.mapping.codec task.filter,
        ∀ k, ∃ goal, t.statement k = .ok goal)
    {err : CompileError} :
    ((serveFilter task).run (start task.options)).1 =
        .error err ↔
      ∃ t e found p,
        Tries task t e found p ∧
          ((addBranch task t e found).run p).1 = .error err := by
  cases hEmpty : task.filter.isEmpty with
  | true =>
      unfold serveFilter
      rw [if_pos hEmpty]
      constructor
      · intro h
        cases h
      · rintro ⟨t, e, found, p, hTries, _⟩
        rw [hTries.proper] at hEmpty
        cases hEmpty
  | false =>
      rw [run_serveFilter_eq hEmpty, forEach_eq_error_iff]
      constructor
      · rintro ⟨t, p', hTarget, hFails⟩
        rw [serveEntries_eq_forEach, forEach_eq_error_iff] at hFails
        rcases hFails with ⟨e, p, hEntry, hFails⟩
        rcases hStatements t hTarget.mem e.snakKind with
          ⟨goal, hGoal⟩
        rcases (serve_eq_error_iff hGoal).mp hFails with
          ⟨hAdmitted, found, hPlan, hAdd⟩
        exact
          ⟨t, e, found, p,
            ⟨hEmpty, ⟨p', hTarget, hEntry⟩, hAdmitted, goal,
              hGoal, hPlan⟩, hAdd⟩
      · rintro ⟨t, e, found, p, hTries, hAdd⟩
        rcases hTries.comes with ⟨p', hTarget, hEntry⟩
        rcases hTries.plan with ⟨goal, hGoal, hPlan⟩
        refine ⟨t, p', hTarget, ?_⟩
        rw [serveEntries_eq_forEach, forEach_eq_error_iff]
        exact
          ⟨e, p, hEntry,
            (serve_eq_error_iff hGoal).mpr
              ⟨hTries.admitted, found, hPlan, hAdd⟩⟩

/-
  Adding a branch that a compilation comes to fails exactly if
  one of the calls that it makes does.
-/
theorem addBranch_eq_error_iff_calls
    {task : Task}
    (hParts :
      ∀ t e found p, Tries task t e found p →
        ∀ part ∈ t.constrained, Expressible found part)
    {err : CompileError} :
    (∃ t e found p,
        Tries task t e found p ∧
          ((addBranch task t e found).run p).1 = .error err) ↔
      ∃ e call text,
        Calls task e call ∧
          call.result = .error (.failed text) ∧
          err = .entry e.id text := by
  constructor
  · rintro ⟨t, e, found, p, hTries, hAdd⟩
    rcases addBranch_eq_error_iff.mp hAdd with
      ⟨text, hBranch, hErr⟩
    rcases emitBranch_eq_error_iff.mp hBranch with
      hOwn | ⟨rank, g, part, g', hOwn, hPart, hFails⟩
    · exact ⟨e, _, text, .own hTries, hOwn, hErr⟩
    · have hExpressible := hParts t e found p hTries part hPart.mem
      rcases (constrainPart_eq_failed_iff hExpressible).mp hFails
        with ⟨focus, snak, goal, e', found', u, hFocus, hExpresses,
          hResult⟩
      exact
        ⟨e, _, text,
          .nested hTries hOwn hPart hFocus hExpresses, hResult,
          hErr⟩
  · rintro ⟨e, call, text, hCalls, hResult, hErr⟩
    cases hCalls with
    | @own t e found p hTries =>
        refine ⟨t, e, found, p, hTries, ?_⟩
        exact addBranch_eq_error_iff.mpr
          ⟨text, emitBranch_eq_error_iff.mpr (Or.inl hResult),
            hErr⟩
    | @nested t e e' found found' p rank g g' part focus goal snak
        u hTries hOwn hPart hFocus hExpresses =>
        have hExpressible :=
          hParts t e found p hTries part hPart.mem
        refine ⟨t, e, found, p, hTries, ?_⟩
        apply addBranch_eq_error_iff.mpr
        refine ⟨text, ?_, hErr⟩
        apply emitBranch_eq_error_iff.mpr
        refine Or.inr ⟨rank, g, part, g', hOwn, hPart, ?_⟩
        exact (constrainPart_eq_failed_iff hExpressible).mpr
          ⟨focus, snak, goal, e', found', u, hFocus, hExpresses,
            hResult⟩

/- A compilation fails as serving its filter does. -/
theorem result_compile_eq_error_iff
    {m : Mapping}
    {options : Options}
    {f : Filter}
    {err : CompileError} :
    (compile m options f).result = .error err ↔
      ((serveFilter ⟨m, options, f⟩).run (start options)).1 =
        .error err := by
  cases hRun :
      (serveFilter ⟨m, options, f⟩).run (start options) with
  | mk result p =>
  rw [result_compile hRun]
  cases result with
  | ok _ =>
      constructor
      · intro h
        cases h
      · intro h
        cases h
  | error e =>
      constructor
      · intro h
        cases h
        rfl
      · intro h
        cases h
        rfl

/-
  A compilation fails exactly if a call that it makes does,
  where the patterns are well formed and the filter is checked.
-/
theorem result_compile_eq_error_iff_calls
    {m : Mapping}
    {options : Options}
    {f : Filter}
    (hPatterns :
      ∀ e ∈ m.entries, ∀ p ∈ e.patterns, p.WellFormed)
    (hFilter : f.Checked)
    {err : CompileError} :
    (compile m options f).result = .error err ↔
      ∃ e call text,
        Calls ⟨m, options, f⟩ e call ∧
          call.result = .error (.failed text) ∧
          err = .entry e.id text := by
  have hStatements :
      ∀ t ∈ Target.all m.codec f,
        ∀ k, ∃ goal, t.statement k = .ok goal := by
    intro t ht k
    rcases hFilter.exists_asks ht k with ⟨goal, snak, hAsks⟩
    exact ⟨goal, hAsks.statement⟩
  rw [result_compile_eq_error_iff]
  refine
    (@serveFilter_eq_error_iff ⟨m, options, f⟩ hStatements
      err).trans ?_
  apply addBranch_eq_error_iff_calls
  intro t e found p hTries part hPart
  exact hTries.expressible hPatterns hFilter hPart

end Compile

end StatementQuery
